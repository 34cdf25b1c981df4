import Mathlib.Data.Fintype.EquivFin
import Ztyco.IoTimeouts
import Ztyco.UserNonblock

/-!
What a call of `do_io` returns. Its loop is followed through any run of any
number of calls: which results of the wrapped function it has met, which of
them it has waited for, and where it stands with the last one. What the kernel
answers is part of the run, so every sequence of results is among the runs, and
so is anything that others do to the event table and to the fibers that are ready.
-/

namespace Ztyco.DoIo

open Descriptors (FdCtx)
open EventTable (Event IOManager)
open Fibers (FiberId)
open Timers (Addr)
open Transition

/-- What a call does. `yielded` is the end of a `YieldToHold`. -/
inductive Effect where
  | called (n : Int64) (errno : Int32)
  | registered (fd : Int32) (event : Event)
  | yielded
  deriving DecidableEq, Repr

structure Entered where
  hook_enable : Bool
  ctx : Option FdCtx
  deriving DecidableEq, Repr

/-- The effects of each call, in order, and its entry are history. -/
structure Observed where
  world : World
  effects : Call → List Effect := fun _ => []
  entered : Call → Option Entered := fun _ => none

def effectsOf (frame : Frame) : CallStep → List Effect
  | .originFun n errno => [.called n errno]
  | .addEvent _ _ => if frame.pc.isWaiting then [.registered frame.fd frame.event] else []
  | .resume => [.yielded]
  | .enter _ _ _ _ _ | .addConditionTimer _ _ | .cancelTimer | .check => []

def entryOf : CallStep → Option Entered
  | .enter hook_enable ctx _ _ _ => some ⟨hook_enable, ctx⟩
  | _ => none

def Observed.follow (o : Observed) (after : World) : Step → Observed
  | .call name step =>
      { world := after
        effects := Function.update o.effects name
          (o.effects name ++ effectsOf (after.calls name) step)
        entered := Function.update o.entered name ((entryOf step).or (o.entered name)) }
  | _ => { o with world := after }

/-- A step of `doIo`, or anything else that happens to the event table and to the
fibers that are ready: a trigger that clears more than its own event is of this kind. -/
inductive Act where
  | within (step : Step)
  | elsewhere (io : IOManager) (ready : List FiberId)

/-- The runs of `doIo`, observed, with a free hand for the event table. -/
def observed (isCall : FiberId → Bool) : Machine Observed Act where
  initial o := ∃ w, (doIo isCall).initial w ∧ o = { world := w }
  step o
    | .within step => ((doIo isCall).step o.world step).map fun after => o.follow after step
    | .elsewhere io ready => some { o with world := { o.world with io := io, ready := ready } }

/-- No timeout of the call fires, and every `epoll_ctl` of its `addEvent` succeeds. -/
def Undisturbed (name : Call) (o : Observed) : Act → Prop
  | .within (.call other (.addEvent _ ret)) => other = name → ret = 0
  | .within (.callback index .assign) =>
      ∀ callback ∈ o.world.running[index]?, callback.call ≠ name
  | _ => True

instance Undisturbed.decidable (name : Call) (o : Observed) (act : Act) :
    Decidable (Undisturbed name o act) := by
  unfold Undisturbed
  split <;> infer_instance

def Interrupted (result : Int64 × Int32) : Prop :=
  result.1 = -1 ∧ (result.2 = EINTR ∨ result.2 = EAGAIN)

def handling (frame : Frame) (result : Int64 × Int32) : List Effect :=
  .called result.1 result.2 ::
    if result.2 = EAGAIN then [.registered frame.fd frame.event, .yielded] else []

/-- The effects since the results that are done with, where the loop stands at `pc`. -/
def Unfinished (frame : Frame) (effects : List Effect) : Prop :=
  match frame.pc with
  | .calling | .resumed _ | .checking => effects = []
  | .arming | .adding _ => effects = [.called (-1) EAGAIN]
  | .waiting _ _ => effects = [.called (-1) EAGAIN, .registered frame.fd frame.event]
  | .returned (.result n) => ∃ errno, ¬ Interrupted (n, errno) ∧ effects = [.called n errno]
  | .outside | .direct | .failing _ | .returned _ => False

/-- The loop has handled the interrupted results before the last one, in order. -/
def Looping (frame : Frame) (effects : List Effect) : Prop :=
  ∃ past : List (Int64 × Int32), (∀ result ∈ past, Interrupted result) ∧
    ∃ rest, Unfinished frame rest ∧ effects = past.flatMap (handling frame) ++ rest

def Direct (frame : Frame) (effects : List Effect) : Prop :=
  frame.pc = .direct ∧ effects = [] ∨
    ∃ n errno, frame.pc = .returned (.result n) ∧ effects = [.called n errno]

def Entered.Loops (entered : Entered) : Prop :=
  entered.hook_enable = true ∧ ∃ ctx, entered.ctx = some ctx ∧ ctx.m_isClosed = false ∧
    ctx.m_isSocket = true ∧ ctx.m_userNonblock = false

def Managed (ctx : FdCtx) : Prop :=
  ∃ proc fd p, Reach Descriptors.hooks anyStep proc ∧ proc.fdMgr.find fd = some (some p) ∧
    proc.fdMgr.heap p = ctx

def Entered.Bypasses (entered : Entered) : Prop :=
  entered.hook_enable = false ∨ entered.ctx = none ∨ ∃ ctx, entered.ctx = some ctx ∧
    Managed ctx ∧ (ctx.m_isSocket = false ∨ ctx.m_userNonblock = true)

section Loop
variable {frame : Frame} {effects : List Effect}

theorem Looping.goto {pc : Pc} {more : List Effect} (looping : Looping frame effects)
    (moves : ∀ rest, Unfinished frame rest → Unfinished { frame with pc := pc } (rest ++ more)) :
    Looping { frame with pc := pc } (effects ++ more) := by
  rcases looping with ⟨past, interrupted, rest, unfinished, same⟩
  refine ⟨past, interrupted, rest ++ more, moves rest unfinished, ?_⟩
  rw [same, List.append_assoc]
  rfl

theorem Looping.handle {pc : Pc} {more : List Effect} (result : Int64 × Int32)
    (looping : Looping frame effects) (interrupted : Interrupted result)
    (handled : ∀ rest, Unfinished frame rest → rest ++ more = handling frame result)
    (fresh : Unfinished { frame with pc := pc } []) :
    Looping { frame with pc := pc } (effects ++ more) := by
  rcases looping with ⟨past, before, rest, unfinished, same⟩
  refine ⟨past ++ [result], ?_, [], fresh, ?_⟩
  · intro other mem
    rcases List.mem_append.mp mem with old | new
    · exact before other old
    · rcases List.mem_singleton.mp new with rfl
      exact interrupted
  · rw [same, List.append_assoc, handled rest unfinished, List.flatMap_append, List.append_nil]
    simp only [List.flatMap_cons, List.flatMap_nil, List.append_nil]
    rfl

end Loop

section Steps
variable {isCall : FiberId → Bool} {w after : World} {name : Call}

theorem goto_frame (w : World) (name : Call) (pc : Pc) :
    (w.goto name pc).calls name = { w.calls name with pc := pc } := by
  simp [World.goto]

theorem cancelTimer_keeps {timer : Option Addr} (done : w.cancelTimer timer = some after) :
    after.calls = w.calls ∧ after.tinfo = w.tinfo := by
  cases timer with
  | none =>
      cases done
      exact ⟨rfl, rfl⟩
  | some timer =>
      rcases Option.map_eq_some_iff.mp done with ⟨_, _, rfl⟩
      exact ⟨rfl, rfl⟩

theorem addEvent_succeeds {io io' : IOManager} {caller : EventTable.Caller} {fd : Int32}
    {e : Event} {cb : Option Fibers.Func} {answer : Int32}
    (done : io.addEvent caller fd e cb 0 = .ok (answer, io')) : answer = 0 := by
  rcases EventTable.addEvent_outcome done with
    ⟨_, _, _, _, _, ⟨failed, _⟩ | ⟨_, _, _, installed⟩⟩
  · exact absurd rfl failed
  · exact install_answer installed

/-- A step of the loop. -/
theorem looping_step {effects : List Effect} {step : CallStep}
    (looping : Looping (w.calls name) effects) (untimed : (w.tinfo name).cancelled = 0)
    (succeeds : ∀ scheduler ret, step = .addEvent scheduler ret → ret = 0)
    (done : w.call isCall name step = some after) :
    Looping (after.calls name) (effects ++ effectsOf (after.calls name) step) := by
  have inside : (w.calls name).pc ≠ .outside ∧ (w.calls name).pc ≠ .direct ∧
      ∀ timer, (w.calls name).pc ≠ .failing timer := by
    rcases looping with ⟨_, _, rest, unfinished, _⟩
    refine ⟨?_, ?_, ?_⟩
    · intro impossible
      simp [Unfinished, impossible] at unfinished
    · intro impossible
      simp [Unfinished, impossible] at unfinished
    · intro timer impossible
      simp [Unfinished, impossible] at unfinished
  cases call_goes done with
  | enter outside named hook_enable ctx fd event timeout_so => exact absurd outside inside.1
  | passThrough direct n errno => exact absurd direct inside.2.1
  | retry calling =>
      -- the call stays where it is, one result further
      have kept : Looping { w.calls name with pc := (w.calls name).pc }
          (effects ++ [.called (-1) EINTR]) := by
        apply looping.handle (-1, EINTR) ⟨rfl, Or.inl rfl⟩
        · intro rest unfinished
          simp only [Unfinished, calling] at unfinished
          rw [unfinished]
          rfl
        · simp only [Unfinished, calling]
      exact kept
  | block calling =>
      rw [goto_frame]
      apply looping.goto
      intro rest unfinished
      simp only [Unfinished, calling] at unfinished
      simp [Unfinished, unfinished, effectsOf]
  | finish calling n errno uninterrupted ready =>
      rw [goto_frame]
      apply looping.goto
      intro rest unfinished
      simp only [Unfinished, calling] at unfinished
      refine ⟨errno, ?_, by simp [unfinished, effectsOf]⟩
      rintro ⟨failed, reason | reason⟩
      · exact uninterrupted ⟨failed, reason⟩
      · exact ready ⟨failed, reason⟩
  | endless arming unlimited timer now =>
      rw [goto_frame]
      apply looping.goto
      intro rest unfinished
      simp only [Unfinished, arming] at unfinished
      simp [Unfinished, unfinished, effectsOf]
  | arm arming limited timer fresh now =>
      rw [goto_frame]
      apply looping.goto
      intro rest unfinished
      simp only [Unfinished, arming] at unfinished
      simp [Unfinished, unfinished, effectsOf]
  | refused adding added failed =>
      rcases succeeds _ _ rfl with rfl
      exact absurd (addEvent_succeeds added) failed
  | register adding added located =>
      rw [goto_frame]
      apply looping.goto
      intro rest unfinished
      simp only [Unfinished, adding] at unfinished
      simp [Unfinished, unfinished, effectsOf, Pc.isWaiting]
  | resume waiting woken =>
      rw [goto_frame]
      apply looping.handle (-1, EAGAIN) ⟨rfl, Or.inr rfl⟩
      · intro rest unfinished
        simp only [Unfinished, waiting] at unfinished
        simp [unfinished, effectsOf, handling]
      · rfl
  | abandon failing cancelled => exact absurd failing (inside.2.2 _)
  | disarm resumed cancelled =>
      rw [goto_frame, (cancelTimer_keeps cancelled).1]
      apply looping.goto
      intro rest unfinished
      simp only [Unfinished, resumed] at unfinished
      simp [Unfinished, unfinished, effectsOf]
  | expire checking set => exact absurd untimed set
  | again checking clear =>
      rw [goto_frame]
      apply looping.goto
      intro rest unfinished
      simp only [Unfinished, checking] at unfinished
      simp [Unfinished, unfinished, effectsOf]

theorem direct_step {effects : List Effect} {step : CallStep}
    (direct : Direct (w.calls name) effects) (done : w.call isCall name step = some after) :
    Direct (after.calls name) (effects ++ effectsOf (after.calls name) step) := by
  rcases direct with ⟨current, rfl⟩ | ⟨n, errno, current, _⟩
  · cases step with
    | originFun n errno =>
        simp only [World.call, current] at done
        cases done
        rw [goto_frame]
        exact Or.inr ⟨n, errno, rfl, rfl⟩
    | _ => simp [World.call, current] at done
  · cases step <;> simp [World.call, current] at done

theorem call_over {exit : Exit} (returned : (w.calls name).pc = .returned exit)
    (step : CallStep) : w.call isCall name step = none := by
  cases step <;> simp [World.call, returned]

theorem entry_inside (hook_enable : Bool) (ctx : Option FdCtx) :
    entry hook_enable ctx ≠ .outside := by
  intro outside
  unfold entry at outside
  split at outside
  · cases outside
  · split at outside
    · cases outside
    · split at outside
      · cases outside
      · split at outside <;> cases outside

/-- What a step of a call leaves of the other calls and of its `timer_info`. -/
structure Kept (name : Call) (w after : World) : Prop where
  calls : ∀ other, other ≠ name → after.calls other = w.calls other
  others : ∀ other, other ≠ name → after.tinfo other = w.tinfo other
  itself : after.tinfo name = w.tinfo name ∨ after.tinfo name = {}
  inside : (after.calls name).pc ≠ .outside

theorem kept_goto {middle : World} {pc : Pc} (calls : middle.calls = w.calls)
    (tinfo : middle.tinfo = w.tinfo) (inside : pc ≠ .outside) :
    Kept name w (middle.goto name pc) := by
  constructor
  · intro other different
    rw [World.goto_other _ _ different, calls]
  · intro other _
    rw [← tinfo]
    rfl
  · apply Or.inl
    rw [← tinfo]
    rfl
  · rw [World.goto_pc]
    exact inside

theorem call_keeps {step : CallStep} (done : w.call isCall name step = some after) :
    Kept name w after := by
  cases call_goes done with
  | enter outside named hook_enable ctx fd event timeout_so =>
      constructor
      · intro other different
        exact Function.update_of_ne different _ _
      · intro other different
        exact Function.update_of_ne different _ _
      · exact Or.inr (Function.update_self _ _ _)
      · simpa using entry_inside hook_enable ctx
  | retry calling => exact ⟨fun _ _ => rfl, fun _ _ => rfl, Or.inl rfl, by simp [calling]⟩
  | abandon failing cancelled =>
      rcases cancelTimer_keeps cancelled with ⟨calls, tinfo⟩
      exact kept_goto calls tinfo (by simp)
  | disarm resumed cancelled =>
      rcases cancelTimer_keeps cancelled with ⟨calls, tinfo⟩
      exact kept_goto calls tinfo (by simp)
  | passThrough _ _ _ | block _ | finish _ _ _ _ _ | endless _ _ _ _ | arm _ _ _ _ _
  | refused _ _ _ | register _ _ _ | resume _ _ | expire _ _ | again _ _ =>
      exact kept_goto rfl rfl (by simp)

/-- A step that is not the call's own leaves it alone, unless its timeout fires. -/
theorem foreign_keeps {step : Step} (done : w.act isCall step = some after)
    (foreign : ∀ own, step ≠ .call name own) :
    after.calls name = w.calls name ∧
      ((∀ index callback, step = .callback index .assign →
        w.running[index]? = some callback → callback.call ≠ name) →
          after.tinfo name = w.tinfo name) := by
  cases step with
  | call other own =>
      have different : name ≠ other := fun same => foreign own (same ▸ rfl)
      have kept := call_keeps done
      exact ⟨kept.calls name different, fun _ => kept.others name different⟩
  | begin index =>
      rcases begin_keeps done with ⟨aside, tinfo⟩
      rw [aside.calls, tinfo]
      exact ⟨rfl, fun _ => rfl⟩
  | callback index step =>
      rcases Option.bind_eq_some_iff.mp done with ⟨callback, found, moved⟩
      rcases callback_keeps moved with ⟨aside, tinfo⟩
      rw [aside.calls]
      refine ⟨rfl, fun calm => tinfo name ?_⟩
      rintro rfl same
      exact calm index callback rfl found same.symm
  | timers op =>
      simp only [World.act] at done
      split at done
      · rcases Option.map_eq_some_iff.mp done with ⟨_, _, rfl⟩
        exact ⟨rfl, fun _ => rfl⟩
      · cases done
  | trigger p e =>
      rcases trigger_keeps done with ⟨aside, tinfo⟩
      rw [aside.calls, tinfo]
      exact ⟨rfl, fun _ => rfl⟩
  | move move =>
      simp only [World.act] at done
      split at done
      · cases done
        exact ⟨rfl, fun _ => rfl⟩
      · cases done

/-! The timers of the calls do not depend on what happens to the event table. -/

theorem Timed.aside (timed : Timed w) (aside : Aside w after) : Timed after := by
  apply timed.frame aside.mgr aside.owner
  intro call
  rw [aside.calls]

theorem Timed.elsewhere (timed : Timed w) (io : IOManager) (ready : List FiberId) :
    Timed { w with io := io, ready := ready } :=
  timed.aside ⟨rfl, rfl, rfl⟩

theorem Timed.goto {pc pc' : Pc} (timed : Timed w) (current : (w.calls name).pc = pc)
    (same : pc'.timer = pc.timer) : Timed (w.goto name pc') := by
  apply timed.reframe
  rw [current]
  exact same

theorem timed_call {step : CallStep} (timed : Timed w)
    (done : w.call isCall name step = some after) : Timed after := by
  cases call_goes done with
  | enter outside named hook_enable ctx fd event timeout_so =>
      let frame : Frame :=
        { pc := entry hook_enable ctx, fd := fd, event := event,
          timeout := ctx.elim (-1) (·.getTimeout timeout_so) }
      have entered : Timed { w with calls := Function.update w.calls name frame } := by
        apply timed.reframe
        rw [outside]
        exact entry_timer hook_enable ctx
      exact entered.aside ⟨rfl, rfl, rfl⟩
  | passThrough direct n errno => exact timed.goto direct rfl
  | retry calling => exact timed
  | block calling => exact timed.goto calling rfl
  | finish calling n errno _ _ => exact timed.goto calling rfl
  | endless arming _ timer now => exact timed.goto arming rfl
  | arm arming _ timer fresh now => exact timed.arm (congrArg Pc.timer arming) fresh now
  | refused adding added failed => exact (timed.elsewhere _ _).goto adding rfl
  | register adding added located => exact (timed.elsewhere _ _).goto adding rfl
  | resume waiting woken => exact (timed.elsewhere _ _).goto waiting rfl
  | abandon failing cancelled => exact timed.disarm (congrArg Pc.timer failing) rfl cancelled
  | disarm resumed cancelled => exact timed.disarm (congrArg Pc.timer resumed) rfl cancelled
  | expire checking set => exact timed.goto checking rfl
  | again checking clear => exact timed.goto checking rfl

theorem timed_act {step : Step} (timed : Timed w) (done : w.act isCall step = some after) :
    Timed after := by
  cases step with
  | call other own => exact timed_call timed done
  | begin index => exact timed.aside (begin_keeps done).1
  | callback index step =>
      rcases Option.bind_eq_some_iff.mp done with ⟨callback, _, moved⟩
      exact timed.aside (callback_keeps moved).1
  | timers op =>
      simp only [World.act] at done
      split at done
      · rcases Option.map_eq_some_iff.mp done with ⟨mgr, moved, rfl⟩
        exact timed.operate moved
      · cases done
  | trigger p e => exact timed.aside (trigger_keeps done).1
  | move move =>
      simp only [World.act] at done
      split at done
      · cases done
        exact timed.aside ⟨rfl, rfl, rfl⟩
      · cases done

end Steps

/-! The loop goes on. -/

/-- The steps of its own that the call takes before the next call of the function. -/
def Pc.remaining : Pc → Nat
  | .arming => 5
  | .adding _ => 4
  | .waiting _ _ => 3
  | .resumed _ => 2
  | .checking => 1
  | .outside | .direct | .calling | .failing _ | .returned _ => 0

/-- `addEvent` succeeds, and a fiber that waits has been scheduled. -/
def Supported (name : Call) (w : World) : Prop :=
  match (w.calls name).pc with
  | .adding _ => ∃ scheduler answer io, w.io.addEvent ⟨scheduler, name, .exec⟩ (w.calls name).fd
      (w.calls name).event none 0 = .ok (answer, io)
  | .waiting _ _ => name ∈ w.ready
  | _ => True

def Takes (isCall : FiberId → Bool) (name : Call) (w : World) : Prop :=
  (w.calls name).pc = .calling ∨ (w.calls name).pc = .direct → ∀ n errno,
    ∃ after, w.call isCall name (.originFun n errno) = some after ∧
      ((w.calls name).pc = .direct ∨ ¬ Interrupted (n, errno) →
        (after.calls name).pc = .returned (.result n))

def Advances (isCall : FiberId → Bool) (name : Call) (w : World) : Prop :=
  0 < (w.calls name).pc.remaining → Supported name w →
    ∃ step after, w.call isCall name step = some after ∧
      (after.calls name).pc.remaining < (w.calls name).pc.remaining ∧
      ((after.calls name).pc = .calling ∨ 0 < (after.calls name).pc.remaining)

section Progress
variable {isCall : FiberId → Bool} {w : World} {name : Call}

theorem fresh_timer (w : World) : ∃ timer, timer ∉ w.mgr.created := by
  rcases Infinite.exists_notMem_finset w.mgr.created.toFinset with ⟨timer, fresh⟩
  exact ⟨timer, fun mem => fresh (List.mem_toFinset.mpr mem)⟩

theorem cancelTimer_total (timed : Timed w) :
    ∃ after, w.cancelTimer (w.calls name).pc.timer = some after := by
  cases current : (w.calls name).pc.timer with
  | none => exact ⟨w, rfl⟩
  | some timer =>
      have owned := timed.kept name timer current
      have known := timed.known timer name owned
      rcases Timers.cancel_total (Timers.reach_held timed.reached) known with
        ⟨answer, mgr, cancelled⟩
      exact ⟨w.timed mgr, by simp [World.cancelTimer, cancelled]⟩

theorem takes_result (isCall : FiberId → Bool) (name : Call) (w : World) : Takes isCall name w := by
  rintro (calling | direct) n errno
  · by_cases again : n = -1 ∧ errno = EINTR
    · rcases again with ⟨rfl, rfl⟩
      refine ⟨w, goes_call (.retry calling), ?_⟩
      rintro (direct | completed)
      · rw [calling] at direct
        cases direct
      · exact absurd ⟨rfl, Or.inl rfl⟩ completed
    · by_cases later : n = -1 ∧ errno = EAGAIN
      · rcases later with ⟨rfl, rfl⟩
        refine ⟨_, goes_call (.block calling), ?_⟩
        rintro (direct | completed)
        · rw [calling] at direct
          cases direct
        · exact absurd ⟨rfl, Or.inr rfl⟩ completed
      · refine ⟨_, goes_call (.finish calling n errno again later), ?_⟩
        exact fun _ => World.goto_pc _ _ _
  · refine ⟨_, goes_call (.passThrough direct n errno), ?_⟩
    exact fun _ => World.goto_pc _ _ _

theorem advances_loop (timed : Timed w) (untimed : (w.tinfo name).cancelled = 0) :
    Advances isCall name w := by
  intro between supported
  cases current : (w.calls name).pc with
  | arming =>
      by_cases endless : (w.calls name).timeout = -1
      · refine ⟨_, _, goes_call (.endless current endless 0 0), ?_⟩
        rw [World.goto_pc]
        decide
      · rcases fresh_timer w with ⟨timer, fresh⟩
        refine ⟨_, _, goes_call (.arm current endless timer fresh 0), ?_⟩
        rw [World.goto_pc]
        exact ⟨(by decide : 4 < 5), Or.inr (by decide : 0 < 4)⟩
  | adding timer =>
      simp only [Supported, current] at supported
      rcases supported with ⟨scheduler, answer, io, added⟩
      rcases addEvent_succeeds added with rfl
      rcases addEvent_cases added with ⟨_, _, ⟨failed, _⟩ | ⟨_, _, p, located, _⟩⟩
      · exact absurd rfl failed
      · refine ⟨_, _, goes_call (.register current added located), ?_⟩
        rw [World.goto_pc]
        exact ⟨(by decide : 3 < 4), Or.inr (by decide : 0 < 3)⟩
  | waiting timer p =>
      simp only [Supported, current] at supported
      refine ⟨_, _, goes_call (.resume current supported), ?_⟩
      rw [World.goto_pc]
      exact ⟨(by decide : 2 < 3), Or.inr (by decide : 0 < 2)⟩
  | resumed timer =>
      rcases cancelTimer_total timed with ⟨middle, cancelled⟩
      rw [current] at cancelled
      refine ⟨_, _, goes_call (.disarm current cancelled), ?_⟩
      rw [World.goto_pc]
      exact ⟨(by decide : 1 < 2), Or.inr (by decide : 0 < 1)⟩
  | checking =>
      refine ⟨_, _, goes_call (.again current untimed), ?_⟩
      rw [World.goto_pc]
      exact ⟨by decide, Or.inl rfl⟩
  | outside => simp [current, Pc.remaining] at between
  | direct => simp [current, Pc.remaining] at between
  | calling => simp [current, Pc.remaining] at between
  | failing timer => simp [current, Pc.remaining] at between
  | returned exit => simp [current, Pc.remaining] at between

end Progress

/-! Every run. -/

structure Watched (calm : Prop) (name : Call) (o : Observed) : Prop where
  untimed : calm → (o.world.tinfo name).cancelled = 0
  outside : o.entered name = none →
    (o.world.calls name).pc = .outside ∧ o.effects name = []
  inside : ∀ entered, o.entered name = some entered → (o.world.calls name).pc ≠ .outside ∧
    (calm → entered.Loops → Looping (o.world.calls name) (o.effects name)) ∧
    (entered.Bypasses → Direct (o.world.calls name) (o.effects name))

section Runs
variable {isCall : FiberId → Bool} {calm : Prop} {name : Call} {o : Observed}

theorem follow_world (o : Observed) (after : World) (step : Step) :
    (o.follow after step).world = after := by
  cases step <;> rfl

theorem reach_timed {allowed : Observed → Act → Prop}
    (reached : Reach (observed isCall) allowed o) : Timed o.world := by
  apply reached.invariant (fun o => Timed o.world)
  · rintro o ⟨w, initial, rfl⟩
    have started : Reach (doIo isCall) anyStep w := .start initial
    exact (reach_sound started).timed
  · intro before act after _ timed _ moved
    cases act with
    | within step =>
        rcases Option.map_eq_some_iff.mp moved with ⟨w, taken, rfl⟩
        rw [follow_world]
        exact timed_act timed taken
    | elsewhere io ready =>
        cases moved
        exact timed.elsewhere io ready

theorem loops_entry {entered : Entered} (loops : entered.Loops) :
    entry entered.hook_enable entered.ctx = .calling := by
  rcases loops with ⟨enabled, ctx, found, opened, socket, blocking⟩
  simp [entry, enabled, found, opened, socket, blocking]

theorem bypasses_entry {entered : Entered} (bypasses : entered.Bypasses) :
    entry entered.hook_enable entered.ctx = .direct := by
  unfold entry
  cases found : entered.ctx with
  | none => rfl
  | some ctx =>
      rcases bypasses with off | absent | ⟨other, same, managed, either⟩
      · simp [off]
      · rw [found] at absent
        cases absent
      · rw [found] at same
        cases same
        -- no hook closes a context, so the test for a closed one never holds
        rcases managed with ⟨proc, fd, p, reached, _, rfl⟩
        have opened := Descriptors.never_closed reached p
        rcases either with socket | blocking
        · simp [opened, socket]
        · simp [opened, blocking]

theorem watched_own {step : CallStep} {after : World} (watched : Watched calm name o)
    (quiet : calm → Undisturbed name o (.within (.call name step)))
    (done : o.world.call isCall name step = some after) :
    Watched calm name (o.follow after (.call name step)) := by
  have kept := call_keeps done
  have untimed : calm → (after.tinfo name).cancelled = 0 := by
    intro calmed
    rcases kept.itself with same | clear
    · rw [same]
      exact watched.untimed calmed
    · rw [clear]
  have effects : (o.follow after (.call name step)).effects name =
      o.effects name ++ effectsOf (after.calls name) step := Function.update_self _ _ _
  have entered : (o.follow after (.call name step)).entered name =
      (entryOf step).or (o.entered name) := Function.update_self _ _ _
  cases before : o.entered name with
  | none =>
      rcases watched.outside before with ⟨outside, silent⟩
      cases step with
      | enter hook_enable ctx fd event timeout_so =>
          simp only [World.call, outside] at done
          split at done
          · cases done
            constructor
            · exact untimed
            · intro absent
              rw [entered] at absent
              cases absent
            · intro found same
              rw [entered] at same
              cases same
              rw [effects, silent]
              refine ⟨kept.inside, ?_, ?_⟩
              · intro _ loops
                refine ⟨[], fun _ mem => absurd mem List.not_mem_nil, [], ?_, rfl⟩
                simp only [Observed.follow, Function.update_self, Unfinished, loops_entry loops]
              · intro bypasses
                apply Or.inl
                simp only [Observed.follow, Function.update_self, bypasses_entry bypasses]
                exact ⟨trivial, rfl⟩
          · cases done
      | _ => simp [World.call, outside] at done
  | some found =>
      rcases watched.inside found before with ⟨inside, loops, bypasses⟩
      have same : (entryOf step).or (o.entered name) = some found := by
        cases step with
        | enter hook_enable ctx fd event timeout_so =>
            simp [World.call] at done
        | _ => exact before
      constructor
      · exact untimed
      · intro absent
        rw [entered, same] at absent
        cases absent
      · intro other again
        rw [entered, same] at again
        cases again
        rw [effects]
        refine ⟨kept.inside, ?_, ?_⟩
        · intro calmed looped
          apply looping_step (loops calmed looped) (watched.untimed calmed) _ done
          rintro scheduler ret rfl
          exact quiet calmed rfl
        · intro bypassed
          exact direct_step (bypasses bypassed) done

theorem watched_act {step : Step} {w : World} (watched : Watched calm name o)
    (quiet : calm → Undisturbed name o (.within step))
    (taken : o.world.act isCall step = some w) : Watched calm name (o.follow w step) := by
  by_cases own : ∃ step', step = .call name step'
  · rcases own with ⟨step', rfl⟩
    exact watched_own watched quiet taken
  · have foreign : ∀ step', step ≠ .call name step' := fun step' same => own ⟨step', same⟩
    rcases foreign_keeps taken foreign with ⟨calls, tinfo⟩
    have history : (o.follow w step).effects name = o.effects name ∧
        (o.follow w step).entered name = o.entered name := by
      cases step with
      | call other step' =>
          have different : name ≠ other := fun same => foreign step' (same ▸ rfl)
          exact ⟨Function.update_of_ne different _ _, Function.update_of_ne different _ _⟩
      | _ => exact ⟨rfl, rfl⟩
    constructor
    · intro calmed
      have kept := tinfo (by
        rintro index callback rfl found
        exact quiet calmed callback found)
      rw [follow_world, kept]
      exact watched.untimed calmed
    · rw [follow_world, calls, history.1, history.2]
      exact watched.outside
    · rw [follow_world, calls, history.1, history.2]
      exact watched.inside

theorem watched_step {act : Act} {after : Observed} (watched : Watched calm name o)
    (quiet : calm → Undisturbed name o act) (moved : (observed isCall).step o act = some after) :
    Watched calm name after := by
  cases act with
  | within step =>
      rcases Option.map_eq_some_iff.mp moved with ⟨w, taken, rfl⟩
      exact watched_act watched quiet taken
  | elsewhere io ready =>
      cases moved
      exact ⟨watched.untimed, watched.outside, watched.inside⟩

theorem reach_watched
    (reached : Reach (observed isCall) (fun o act => calm → Undisturbed name o act) o) :
    Watched calm name o := by
  apply reached.invariant (Watched calm name)
  · rintro o ⟨w, ⟨now, rfl⟩, rfl⟩
    constructor
    · exact fun _ => rfl
    · exact fun _ => ⟨rfl, rfl⟩
    · intro entered found
      cases found
  · intro before act after _ watched quiet moved
    exact watched_step watched quiet moved

end Runs

structure FirstResult (isCall : FiberId → Bool) (name : Call) (o : Observed) : Prop where
  bypasses : ∀ entered, o.entered name = some entered → entered.Bypasses →
    Direct (o.world.calls name) (o.effects name)
  ended : ∀ exit, (o.world.calls name).pc = .returned exit →
    ∀ step, o.world.call isCall name step = none
  takes : Takes isCall name o.world
  loops : Reach (observed isCall) (Undisturbed name) o →
    ∀ entered, o.entered name = some entered → entered.Loops →
      Looping (o.world.calls name) (o.effects name)
  advances : Reach (observed isCall) (Undisturbed name) o → Advances isCall name o.world

/-- In every run a call goes through the results in order, waits once for each
`EAGAIN` and returns the first one that is no interruption. -/
theorem first_result {isCall : FiberId → Bool} {o : Observed}
    (reached : Reach (observed isCall) anyStep o) (name : Call) : FirstResult isCall name o := by
  have timed := reach_timed reached
  have anyway : Watched False name o := by
    rcases reached with ⟨start, initial, path⟩
    exact reach_watched ⟨start, initial, path.mono fun _ _ _ disturbed => disturbed.elim⟩
  have watched : Reach (observed isCall) (Undisturbed name) o → Watched True name o := by
    rintro ⟨start, initial, path⟩
    exact reach_watched ⟨start, initial, path.mono fun _ _ quiet _ => quiet⟩
  constructor
  · exact fun entered found => (anyway.inside entered found).2.2
  · exact fun exit returned step => call_over returned step
  · exact takes_result isCall name o.world
  · intro undisturbed entered found
    exact ((watched undisturbed).inside entered found).2.1 trivial
  · intro undisturbed
    exact advances_loop timed ((watched undisturbed).untimed trivial)

theorem first_result_twelve :
    ∃ o, run (observed fun fiber => fiber < 10)
        { world := { io := .constructed, mgr := .constructed 1000 } }
        ([.call 1 (.enter true (some { m_isSocket := true }) 5 .read Descriptors.SO_RCVTIMEO),
          .call 1 (.originFun (-1) EINTR), .call 1 (.originFun (-1) EAGAIN),
          .call 1 (.addConditionTimer 0 1000), .call 1 (.addEvent (some 0) 0), .trigger 5 .read,
          .call 1 .resume, .call 1 .cancelTimer, .call 1 .check, .call 1 (.originFun (-1) EINTR),
          .call 1 (.originFun 12 0)].map .within) = some o ∧
      (o.world.calls 1).pc = .returned (.result 12) ∧
      o.effects 1 = [.called (-1) EINTR, .called (-1) EAGAIN, .registered 5 .read, .yielded,
        .called (-1) EINTR, .called 12 0] ∧
      Looping (o.world.calls 1) (o.effects 1) := by
  refine run_meets_where (Undisturbed 1)
    (fun o : Observed => decide ((o.world.calls 1).pc = .returned (.result 12)) &&
      decide (o.effects 1 = [.called (-1) EINTR, .called (-1) EAGAIN, .registered 5 .read, .yielded,
        .called (-1) EINTR, .called 12 0]) &&
      decide (o.entered 1 = some ⟨true, some { m_isSocket := true }⟩))
    ⟨_, ⟨1000, rfl⟩, rfl⟩ (by decide) (by decide) ?_
  intro o undisturbed facts
  rcases Bool.and_eq_true_iff.mp facts with ⟨facts, entered⟩
  rcases Bool.and_eq_true_iff.mp facts with ⟨exit, effects⟩
  refine ⟨of_decide_eq_true exit, of_decide_eq_true effects, ?_⟩
  rcases undisturbed with ⟨start, initial, path⟩
  have reached : Reach (observed fun fiber => fiber < 10) anyStep o :=
    ⟨start, initial, path.mono fun _ _ _ => trivial⟩
  exact (first_result reached 1).loops ⟨start, initial, path⟩ _ (of_decide_eq_true entered)
    ⟨rfl, _, rfl, rfl, rfl, rfl⟩

end Ztyco.DoIo
