import Ztyco.EventMoves
import Ztyco.FdManager
import Ztyco.TimerDeadlines

/-!
`do_io` of hook.cc: any number of calls over one IOManager and its timers, each
call interleaved at every operation it makes with the other calls, with the
callbacks of expired timers and with everything else that moves a timer or an
event. A call is named by its fiber, and no two calls have one name. The
timers and `addEvent` are the ones of their own models; a trigger clears the
event it triggers and no other. The `timer_info` of a call is alive while the
call runs or one of its callbacks holds it.
-/

namespace Ztyco.DoIo

open Descriptors (FdCtx)
open EventTable (Event EventContext Fault IOManager Move Ptr SchedulerId)
open Fibers (FiberId Func)
open Timers (Addr TimerManager)
open Transition

abbrev Call := FiberId

def EINTR : Int32 := 4
def EBADF : Int32 := 9
def EAGAIN : Int32 := 11
def ETIMEDOUT : Int32 := 110

inductive Exit where
  | result (n : Int64)
  | closed (errno : Int32)
  | unregistered
  | timedOut (errno : Int32)
  deriving DecidableEq, Repr

/-- What a call does next. `direct` is `return fun(...)` without the loop;
`waiting` begins with the success of `addEvent` on a context. -/
inductive Pc where
  | outside
  | direct
  | calling
  | arming
  | adding (timer : Option Addr)
  | failing (timer : Option Addr)
  | waiting (timer : Option Addr) (context : Ptr)
  | resumed (timer : Option Addr)
  | checking
  | returned (exit : Exit)
  deriving DecidableEq, Repr

structure Frame where
  pc : Pc := .outside
  fd : Int32 := 0
  event : Event := .none
  timeout : UInt64 := -1
  deriving DecidableEq, Repr

structure TimerInfo where
  cancelled : Int32 := 0
  deriving DecidableEq, Repr

inductive CallbackPc where
  | testing | assigning | cancelling
  deriving DecidableEq, Repr

structure Callback where
  call : Call
  timer : Addr
  pc : CallbackPc
  deriving DecidableEq, Repr

structure Assignment where
  call : Call
  timer : Addr
  alive : Bool
  deriving DecidableEq, Repr

/-- `owner` is the call that armed a timer, `ready` are the fibers that have
been scheduled by a trigger and `queued` the callbacks that `listExpiredCb`
has extracted. `assignments` is history. -/
structure World where
  io : IOManager
  mgr : TimerManager
  calls : Call → Frame := fun _ => {}
  tinfo : Call → TimerInfo := fun _ => {}
  owner : Addr → Option Call := fun _ => none
  ready : List FiberId := []
  queued : List (Addr × Func) := []
  running : List Callback := []
  assignments : List Assignment := []

/-- `triggerEvent`, where it clears `evt` only. -/
def triggerOnly (io : IOManager) (p : Ptr) (evt : Event) : Except Fault IOManager :=
  let ctx := io.heap p
  if ctx.has evt then
    let ctx := { ctx with events := ctx.events &&& ~~~evt.bits }
    match ctx.getEventContext evt with
    | none => .error .badEvent
    | some ectx =>
      match ectx.scheduler with
      | none => .error .nullScheduler
      | some scheduler =>
        let io := io.record (ectx.waiter.map (.scheduled ctx.fd evt scheduler))
        .ok (io.store p (ctx.resetEventContext evt))
  else .error .notRegistered

/-- The assumption on `triggerEvent` is its code on a context where no other
event is set. -/
theorem triggerOnly_eq {io : IOManager} {p : Ptr} {evt : Event}
    (sole : (io.heap p).events &&& ~~~evt.bits = 0) :
    triggerOnly io p evt = io.triggerEvent p evt := by
  have cleared : (io.heap p).events &&& ~~~(io.heap p).events = 0 := by simp
  unfold triggerOnly
  dsimp only
  rw [sole.trans cleared.symm]
  rfl

def woken (ectx : EventContext) : List FiberId :=
  match ectx.waiter with
  | some (.fiber fiber) => [fiber]
  | _ => []

theorem mem_woken {ectx : EventContext} {fiber : FiberId} (mem : fiber ∈ woken ectx) :
    ectx.fiber = some fiber := by
  unfold woken EventContext.waiter at mem
  cases callback : ectx.cb with
  | some cb => simp [callback] at mem
  | none =>
      cases found : ectx.fiber with
      | none => simp [callback, found] at mem
      | some other =>
          have same : fiber = other := by simpa [callback, found] using mem
          rw [same]

theorem woken_once (ectx : EventContext) (fiber : FiberId) : (woken ectx).count fiber ≤ 1 := by
  unfold woken
  split
  · exact List.count_le_length
  · exact Nat.zero_le 1

def extracted (before after : TimerManager) : List (Addr × Func) :=
  (after.history.drop before.history.length).filterMap fun
    | .emitted timer (some cb) => some (timer, cb)
    | _ => none

theorem extracted_callbacks (mgr : TimerManager) (temp : Addr) (now_ms : UInt64) :
    (extracted mgr (mgr.listExpiredCb temp now_ms).2).map (·.2) =
      (mgr.listExpiredCb temp now_ms).1.filterMap id := by
  rcases Timers.listExpiredCb_pushes mgr temp now_ms with ⟨fired, pushed, history⟩
  rw [extracted, history, pushed, List.drop_left]
  clear pushed history
  induction fired with
  | nil => rfl
  | cons shot rest ih =>
      rcases shot with ⟨timer, cb⟩
      cases cb <;> simpa using ih

def entry (hook_enable : Bool) : Option FdCtx → Pc
  | none => .direct
  | some ctx =>
      if !hook_enable then .direct
      else if ctx.m_isClosed then .returned (.closed EBADF)
      else if !ctx.m_isSocket || ctx.m_userNonblock then .direct
      else .calling

/-- From the creation of the `timer_info` to the end of its scope. -/
def Pc.live : Pc → Bool
  | .outside | .direct | .returned _ => false
  | .calling | .arming | .adding _ | .failing _ | .waiting _ _ | .resumed _ | .checking => true

def Pc.timer : Pc → Option Addr
  | .adding timer | .failing timer | .waiting timer _ | .resumed timer => timer
  | .outside | .direct | .calling | .arming | .checking | .returned _ => none

inductive CallStep where
  | enter (hook_enable : Bool) (ctx : Option FdCtx) (fd : Int32) (event : Event)
      (timeout_so : Int32)
  | originFun (n : Int64) (errno : Int32)
  | addConditionTimer (timer : Addr) (now : UInt64)
  | addEvent (scheduler : Option SchedulerId) (ret : Int32)
  | resume
  | cancelTimer
  | check
  deriving DecidableEq, Repr

inductive CallbackStep where
  | test
  | assign
  | cancelEvent (ret : Int32)
  deriving DecidableEq, Repr

/-- `begin` takes an extracted callback and locks its weak pointer; `timers`
and `move` are what others do to timers and events, and `trigger` is one
trigger of any context, the contexts that are no longer in the table too. -/
inductive Step where
  | call (call : Call) (step : CallStep)
  | begin (index : Nat)
  | callback (index : Nat) (step : CallbackStep)
  | timers (op : Timers.Op)
  | trigger (p : Ptr) (e : Event)
  | move (move : Move)

namespace World

def goto (w : World) (call : Call) (pc : Pc) : World :=
  { w with calls := Function.update w.calls call { w.calls call with pc := pc } }

@[simp] theorem goto_pc (w : World) (call : Call) (pc : Pc) :
    ((w.goto call pc).calls call).pc = pc := by
  simp [goto]

theorem goto_other (w : World) {call other : Call} (pc : Pc) (different : other ≠ call) :
    (w.goto call pc).calls other = w.calls other := by
  simp [goto, different]

def alive (w : World) (call : Call) : Bool :=
  (w.calls call).pc.live || w.running.any fun callback => callback.call = call

def timed (w : World) (mgr : TimerManager) : World :=
  { w with mgr := mgr, queued := w.queued ++ extracted w.mgr mgr }

def cancelTimer (w : World) : Option Addr → Option World
  | none => some w
  | some timer => (w.mgr.cancel timer).map fun done => w.timed done.2

def trigger (w : World) (p : Ptr) (e : Event) : Option World :=
  match triggerOnly w.io p e with
  | .error _ => none
  | .ok io =>
    some { w with
      io := { io with m_pendingEventCount := io.m_pendingEventCount - 1 }
      ready := w.ready ++ woken ((w.io.heap p).slot e) }

def cancelEvent (w : World) (fd : Int32) (e : Event) (ret : Int32) : Option World :=
  if w.io.covers fd then
    match w.io.context fd with
    | none => none
    | some p =>
      if (w.io.heap p).has e then
        let new_events := (w.io.heap p).events &&& ~~~e.bits
        let op := if new_events ≠ 0 then .mod else .del
        if ret ≠ 0 then some w else
        { w with io := w.io.epollCtl op fd ⟨new_events ||| EventTable.EPOLLIN, p⟩ }.trigger p e
      else some w
  else some w

def call (isCall : FiberId → Bool) (w : World) (call : Call) : CallStep → Option World
  | .enter hook_enable ctx fd event timeout_so => match (w.calls call).pc with
      | .outside =>
          if isCall call then
            let timeout := match ctx with
              | none => -1
              | some ctx => ctx.getTimeout timeout_so
            let frame : Frame :=
              { pc := entry hook_enable ctx, fd := fd, event := event, timeout := timeout }
            some { w with
              calls := Function.update w.calls call frame
              tinfo := Function.update w.tinfo call {} }
          else none
      | _ => none
  | .originFun n errno => match (w.calls call).pc with
      | .direct => some (w.goto call (.returned (.result n)))
      | .calling =>
          if n = -1 ∧ errno = EINTR then some w
          else if n = -1 ∧ errno = EAGAIN then some (w.goto call .arming)
          else some (w.goto call (.returned (.result n)))
      | _ => none
  | .addConditionTimer timer now => match (w.calls call).pc with
      | .arming =>
          if (w.calls call).timeout = -1 then some (w.goto call (.adding none))
          else if timer ∉ w.mgr.created then
            let mgr := (w.mgr.addTimer timer (w.calls call).timeout (some call) false now).2
            let w := { w.timed mgr with owner := Function.update w.owner timer (some call) }
            some (w.goto call (.adding (some timer)))
          else none
      | _ => none
  | .addEvent scheduler ret => match (w.calls call).pc with
      | .adding timer =>
          let frame := w.calls call
          match w.io.addEvent ⟨scheduler, call, .exec⟩ frame.fd frame.event none ret with
          | .error _ => none
          | .ok (answer, io) =>
              let w := { w with io := io }
              if answer ≠ 0 then some (w.goto call (.failing timer))
              else (io.context frame.fd).map fun p => w.goto call (.waiting timer p)
      | _ => none
  | .resume => match (w.calls call).pc with
      | .waiting timer _ =>
          if call ∈ w.ready then
            some ({ w with ready := w.ready.erase call }.goto call (.resumed timer))
          else none
      | _ => none
  | .cancelTimer => match (w.calls call).pc with
      | .failing timer => (w.cancelTimer timer).map (·.goto call (.returned .unregistered))
      | .resumed timer => (w.cancelTimer timer).map (·.goto call .checking)
      | _ => none
  | .check => match (w.calls call).pc with
      | .checking =>
          if (w.tinfo call).cancelled ≠ 0 then
            some (w.goto call (.returned (.timedOut (w.tinfo call).cancelled)))
          else some (w.goto call .calling)
      | _ => none

def callback (w : World) (index : Nat) (callback : Callback) : CallbackStep → Option World
  | .test => match callback.pc with
      | .testing =>
          if (w.tinfo callback.call).cancelled ≠ 0 then
            some { w with running := w.running.eraseIdx index }
          else some { w with running := w.running.set index { callback with pc := .assigning } }
      | _ => none
  | .assign => match callback.pc with
      | .assigning => some { w with
          tinfo := Function.update w.tinfo callback.call { cancelled := ETIMEDOUT }
          running := w.running.set index { callback with pc := .cancelling }
          assignments := w.assignments ++
            [⟨callback.call, callback.timer, w.alive callback.call⟩] }
      | _ => none
  | .cancelEvent ret => match callback.pc with
      | .cancelling =>
          let frame := w.calls callback.call
          ({ w with running := w.running.eraseIdx index }).cancelEvent frame.fd frame.event ret
      | _ => none

/-- A callback of another timer is not followed any further. -/
def begin (w : World) (index : Nat) : Option World :=
  w.queued[index]?.map fun shot =>
    let w := { w with queued := w.queued.eraseIdx index }
    match w.owner shot.1 with
    | none => w
    | some call =>
        if w.alive call then { w with running := w.running ++ [⟨call, shot.1, .testing⟩] } else w

/-- The timer another thread has to hold for the operation. -/
def target : Timers.Op → Option Addr
  | .cancel timer | .refresh timer _ | .reset timer _ _ _ => some timer
  | .addTimer _ _ _ _ _ | .getNextTimer _ | .listExpiredCb _ _ => none

/-- What others do to the event table: they wait as other fibers or with
callbacks, and they trigger by `trigger` only. -/
def admits (isCall : FiberId → Bool) : Move → Bool
  | .register _ _ _ _ (.fiber fiber) => !isCall fiber
  | .register _ _ _ _ (.callback _) | .resize _ | .control _ _ | .discard _ _ _ => true
  | .fire _ _ _ => false

def act (isCall : FiberId → Bool) (w : World) : Step → Option World
  | .call name step => w.call isCall name step
  | .begin index => w.begin index
  | .callback index step => w.running[index]?.bind fun found => w.callback index found step
  | .timers op =>
      if (target op).bind w.owner = none then (Timers.timers.step w.mgr op).map w.timed else none
  | .trigger p e => w.trigger p e
  | .move move =>
      if admits isCall move ∧ move.enabled w.io then some { w with io := move.effect w.io }
      else none

end World

/-- Runs of `do_io` calls, whose fibers `isCall` tells from the others. -/
def doIo (isCall : FiberId → Bool) : Machine World Step where
  initial w := ∃ now, w = { io := .constructed, mgr := .constructed now }
  step := World.act isCall

/-! What a step of a call is. -/

/-- The ways a call goes on, each from where it stands and with what it has tested. -/
inductive Goes (isCall : FiberId → Bool) (w : World) (name : Call) : CallStep → World → Prop where
  | enter (outside : (w.calls name).pc = .outside) (named : isCall name = true)
      (hook_enable : Bool) (ctx : Option FdCtx) (fd : Int32) (event : Event) (timeout_so : Int32) :
      Goes isCall w name (.enter hook_enable ctx fd event timeout_so)
        { w with
          calls := Function.update w.calls name
            { pc := entry hook_enable ctx, fd := fd, event := event,
              timeout := ctx.elim (-1) (·.getTimeout timeout_so) }
          tinfo := Function.update w.tinfo name {} }
  | passThrough (direct : (w.calls name).pc = .direct) (n : Int64) (errno : Int32) :
      Goes isCall w name (.originFun n errno) (w.goto name (.returned (.result n)))
  | retry (calling : (w.calls name).pc = .calling) : Goes isCall w name (.originFun (-1) EINTR) w
  | block (calling : (w.calls name).pc = .calling) :
      Goes isCall w name (.originFun (-1) EAGAIN) (w.goto name .arming)
  | finish (calling : (w.calls name).pc = .calling) (n : Int64) (errno : Int32)
      (uninterrupted : ¬ (n = -1 ∧ errno = EINTR)) (ready : ¬ (n = -1 ∧ errno = EAGAIN)) :
      Goes isCall w name (.originFun n errno) (w.goto name (.returned (.result n)))
  | endless (arming : (w.calls name).pc = .arming) (unlimited : (w.calls name).timeout = -1)
      (timer : Addr) (now : UInt64) :
      Goes isCall w name (.addConditionTimer timer now) (w.goto name (.adding none))
  | arm (arming : (w.calls name).pc = .arming) (limited : (w.calls name).timeout ≠ -1)
      (timer : Addr) (fresh : timer ∉ w.mgr.created) (now : UInt64) :
      Goes isCall w name (.addConditionTimer timer now)
        ({ w.timed (w.mgr.addTimer timer (w.calls name).timeout (some name) false now).2 with
          owner := Function.update w.owner timer (some name) }.goto name (.adding (some timer)))
  | refused {timer : Option Addr} (adding : (w.calls name).pc = .adding timer)
      {scheduler : Option SchedulerId} {ret answer : Int32} {io : IOManager}
      (added : w.io.addEvent ⟨scheduler, name, .exec⟩ (w.calls name).fd (w.calls name).event none
        ret = .ok (answer, io)) (failed : answer ≠ 0) :
      Goes isCall w name (.addEvent scheduler ret) ({ w with io := io }.goto name (.failing timer))
  | register {timer : Option Addr} (adding : (w.calls name).pc = .adding timer)
      {scheduler : Option SchedulerId} {ret : Int32} {io : IOManager} {p : Ptr}
      (added : w.io.addEvent ⟨scheduler, name, .exec⟩ (w.calls name).fd (w.calls name).event none
        ret = .ok (0, io)) (located : io.context (w.calls name).fd = some p) :
      Goes isCall w name (.addEvent scheduler ret)
        ({ w with io := io }.goto name (.waiting timer p))
  | resume {timer : Option Addr} {p : Ptr} (waiting : (w.calls name).pc = .waiting timer p)
      (woken : name ∈ w.ready) :
      Goes isCall w name .resume
        ({ w with ready := w.ready.erase name }.goto name (.resumed timer))
  | abandon {timer : Option Addr} (failing : (w.calls name).pc = .failing timer) {middle : World}
      (cancelled : w.cancelTimer timer = some middle) :
      Goes isCall w name .cancelTimer (middle.goto name (.returned .unregistered))
  | disarm {timer : Option Addr} (resumed : (w.calls name).pc = .resumed timer) {middle : World}
      (cancelled : w.cancelTimer timer = some middle) :
      Goes isCall w name .cancelTimer (middle.goto name .checking)
  | expire (checking : (w.calls name).pc = .checking) (set : (w.tinfo name).cancelled ≠ 0) :
      Goes isCall w name .check
        (w.goto name (.returned (.timedOut (w.tinfo name).cancelled)))
  | again (checking : (w.calls name).pc = .checking) (clear : (w.tinfo name).cancelled = 0) :
      Goes isCall w name .check (w.goto name .calling)

theorem call_goes {isCall : FiberId → Bool} {w after : World} {name : Call} {step : CallStep}
    (done : w.call isCall name step = some after) : Goes isCall w name step after := by
  cases step with
  | enter hook_enable ctx fd event timeout_so =>
      simp only [World.call] at done
      split at done
      · rename_i outside
        split at done
        · rename_i named
          cases done
          cases ctx with
          | none => exact .enter outside named hook_enable none fd event timeout_so
          | some ctx => exact .enter outside named hook_enable (some ctx) fd event timeout_so
        · cases done
      · cases done
  | originFun n errno =>
      simp only [World.call] at done
      split at done
      · rename_i direct
        cases done
        exact .passThrough direct n errno
      · rename_i calling
        split at done
        · rename_i interrupted
          rcases interrupted with ⟨rfl, rfl⟩
          cases done
          exact .retry calling
        · rename_i uninterrupted
          split at done
          · rename_i later
            rcases later with ⟨rfl, rfl⟩
            cases done
            exact .block calling
          · rename_i ready
            cases done
            exact .finish calling n errno uninterrupted ready
      · cases done
  | addConditionTimer timer now =>
      simp only [World.call] at done
      split at done
      · rename_i arming
        split at done
        · rename_i unlimited
          cases done
          exact .endless arming unlimited timer now
        · rename_i limited
          split at done
          · rename_i fresh
            cases done
            exact .arm arming limited timer fresh now
          · cases done
      · cases done
  | addEvent scheduler ret =>
      simp only [World.call] at done
      split at done
      · rename_i timer adding
        split at done
        · cases done
        · rename_i answer io added
          split at done
          · rename_i failed
            cases done
            exact .refused adding added failed
          · rename_i succeeded
            rcases not_not.mp succeeded with rfl
            rcases Option.map_eq_some_iff.mp done with ⟨p, located, rfl⟩
            exact .register adding added located
      · cases done
  | resume =>
      simp only [World.call] at done
      split at done
      · rename_i timer p waiting
        split at done
        · rename_i woken
          cases done
          exact .resume waiting woken
        · cases done
      · cases done
  | cancelTimer =>
      simp only [World.call] at done
      split at done
      · rename_i timer failing
        rcases Option.map_eq_some_iff.mp done with ⟨middle, cancelled, rfl⟩
        exact .abandon failing cancelled
      · rename_i timer resumed
        rcases Option.map_eq_some_iff.mp done with ⟨middle, cancelled, rfl⟩
        exact .disarm resumed cancelled
      · cases done
  | check =>
      simp only [World.call] at done
      split at done
      · rename_i checking
        split at done
        · rename_i set
          cases done
          exact .expire checking set
        · rename_i clear
          cases done
          exact .again checking (not_not.mp clear)
      · cases done

theorem goes_call {isCall : FiberId → Bool} {w after : World} {name : Call} {step : CallStep}
    (goes : Goes isCall w name step after) : w.call isCall name step = some after := by
  cases goes with
  | enter outside named hook_enable ctx fd event timeout_so =>
      simp only [World.call, outside, if_pos named]
      cases ctx with
      | none => rfl
      | some ctx => rfl
  | passThrough direct n errno => simp only [World.call, direct]
  | retry calling => simp [World.call, calling]
  | block calling => simp [World.call, calling, EINTR, EAGAIN]
  | finish calling n errno uninterrupted ready =>
      simp only [World.call, calling, if_neg uninterrupted, if_neg ready]
  | endless arming unlimited timer now => simp only [World.call, arming, if_pos unlimited]
  | arm arming limited timer fresh now =>
      simp only [World.call, arming, if_neg limited, if_pos fresh]
  | refused adding added failed => simp only [World.call, adding, added, if_pos failed]
  | register adding added located => simp [World.call, adding, added, located]
  | resume waiting woken => simp only [World.call, waiting, if_pos woken]
  | abandon failing cancelled => simp only [World.call, failing, cancelled, Option.map_some]
  | disarm resumed cancelled => simp only [World.call, resumed, cancelled, Option.map_some]
  | expire checking set => simp only [World.call, checking, if_pos set]
  | again checking clear => simp [World.call, checking, clear]

end Ztyco.DoIo
