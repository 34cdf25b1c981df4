import Ztyco.CallRegistrations
import Ztyco.CallTimers

/-!
How a call of `do_io` leaves. A `cancelled` that is set was set by a callback
of the same call; with the invariants of the timers and of the registrations
it follows that a call times out for its own timer only, and that it leaves
nothing behind.
-/

namespace Ztyco.DoIo

open EventTable (Event IOManager Move Ptr)
open Descriptors (FdCtx)
open Fibers (FiberId)
open Timers (Addr)
open Transition

def Assigned (w : World) (call : Call) : Prop := ∃ made ∈ w.assignments, made.call = call

structure Attributed (w : World) : Prop where
  holders : ∀ callback ∈ w.running, w.owner callback.timer = some callback.call
  made : ∀ made ∈ w.assignments, made.alive = true ∧ w.owner made.timer = some made.call
  cancelled : ∀ call, (w.tinfo call).cancelled ≠ 0 →
    (w.tinfo call).cancelled = ETIMEDOUT ∧ Assigned w call
  timedOut : ∀ call errno, (w.calls call).pc = .returned (.timedOut errno) →
    errno = ETIMEDOUT ∧ Assigned w call

section Assignments
variable {w : World}

theorem Attributed.frame {other : World} (attributed : Attributed w)
    (running : ∀ callback ∈ other.running, other.owner callback.timer = some callback.call)
    (owner : ∀ timer call, w.owner timer = some call → other.owner timer = some call)
    (tinfo : ∀ call, other.tinfo call = w.tinfo call ∨ (other.tinfo call).cancelled = 0)
    (assignments : other.assignments = w.assignments)
    (exits : ∀ call errno, (other.calls call).pc = .returned (.timedOut errno) →
      errno = ETIMEDOUT ∧ Assigned w call) : Attributed other := by
  constructor
  · exact running
  · intro made mem
    rw [assignments] at mem
    rcases attributed.made made mem with ⟨alive, owned⟩
    exact ⟨alive, owner _ _ owned⟩
  · intro call set
    unfold Assigned
    rw [assignments]
    rcases tinfo call with same | clear
    · rw [same] at set ⊢
      exact attributed.cancelled call set
    · exact absurd clear set
  · intro call errno exit
    unfold Assigned
    rw [assignments]
    exact exits call errno exit

theorem Attributed.keep {other : World} (attributed : Attributed w)
    (calls : other.calls = w.calls) (tinfo : other.tinfo = w.tinfo)
    (owner : other.owner = w.owner) (running : other.running = w.running)
    (assignments : other.assignments = w.assignments) : Attributed other := by
  apply attributed.frame
  · rw [running, owner]
    exact attributed.holders
  · intro timer call owned
    rw [owner]
    exact owned
  · intro call
    rw [tinfo]
    exact Or.inl rfl
  · exact assignments
  · rw [calls]
    exact attributed.timedOut

theorem Attributed.reframe {call : Call} {frame : Frame} (attributed : Attributed w)
    (exits : ∀ errno, frame.pc = .returned (.timedOut errno) →
      errno = ETIMEDOUT ∧ Assigned w call) :
    Attributed { w with calls := Function.update w.calls call frame } := by
  apply attributed.frame
  · exact attributed.holders
  · intro timer name owned
    exact owned
  · intro name
    exact Or.inl rfl
  · rfl
  · intro name errno exit
    by_cases same : name = call
    · subst same
      exact exits errno (by simpa using exit)
    · exact attributed.timedOut name errno (by simpa [same] using exit)

/-- A callback that runs keeps its `timer_info` alive. -/
theorem alive_of_running {callback : Callback} (mem : callback ∈ w.running) :
    w.alive callback.call = true := by
  apply Bool.or_eq_true_iff.mpr
  apply Or.inr
  exact List.any_eq_true.mpr ⟨callback, mem, decide_eq_true rfl⟩

theorem Attributed.assign {callback : Callback} {running : List Callback}
    (attributed : Attributed w)
    (holders : ∀ other ∈ running, w.owner other.timer = some other.call)
    (owned : w.owner callback.timer = some callback.call)
    (alive : w.alive callback.call = true) :
    Attributed { w with
      tinfo := Function.update w.tinfo callback.call { cancelled := ETIMEDOUT }
      running := running
      assignments := w.assignments ++
        [⟨callback.call, callback.timer, w.alive callback.call⟩] } := by
  have grows : ∀ call, Assigned w call → ∃ made ∈ w.assignments ++
      [⟨callback.call, callback.timer, w.alive callback.call⟩], made.call = call := by
    rintro call ⟨made, old, same⟩
    exact ⟨made, List.mem_append_left _ old, same⟩
  constructor
  · exact holders
  · intro made assigned
    rcases List.mem_append.mp assigned with old | new
    · exact attributed.made made old
    · rcases List.mem_singleton.mp new with rfl
      exact ⟨alive, owned⟩
  · intro call set
    by_cases same : call = callback.call
    · subst same
      constructor
      · simp
      · exact ⟨_, List.mem_append_right _ (List.mem_singleton.mpr rfl), rfl⟩
    · simp only [Function.update, same, ↓reduceDIte] at set ⊢
      rcases attributed.cancelled call set with ⟨value, assigned⟩
      exact ⟨value, grows call assigned⟩
  · intro call errno exit
    rcases attributed.timedOut call errno exit with ⟨value, assigned⟩
    exact ⟨value, grows call assigned⟩

end Assignments

structure Sound (isCall : FiberId → Bool) (w : World) : Prop where
  timed : Timed w
  placed : Placed isCall w
  attributed : Attributed w

section Steps
variable {isCall : FiberId → Bool} {w after : World} {name : Call}

theorem Sound.goto {before pc : Pc} (sound : Sound isCall w) (current : (w.calls name).pc = before)
    (inside : before ≠ .outside) (awake : before.isWaiting = false) (same : pc.timer = before.timer)
    (exits : ∀ errno, pc = .returned (.timedOut errno) → errno = ETIMEDOUT ∧ Assigned w name) :
    Sound isCall (w.goto name pc) := by
  subst current
  constructor
  · exact sound.timed.reframe same
  · exact sound.placed.reframe (sound.placed.named name inside) awake
  · exact sound.attributed.reframe exits

/-- A step of others on the event table, which fills no slot for a call. -/
theorem Sound.shrink {io : IOManager} (sound : Sound isCall w)
    (shrinks : ∀ p e call, isCall call = true → ((io.heap p).slot e).fiber = some call →
      ((w.io.heap p).slot e).fiber = some call) : Sound isCall { w with io := io } := by
  constructor
  · exact sound.timed.frame rfl rfl fun _ => rfl
  · exact sound.placed.shrink shrinks
  · exact sound.attributed.keep rfl rfl rfl rfl rfl

theorem entry_timer (hook_enable : Bool) (ctx : Option FdCtx) :
    (entry hook_enable ctx).timer = none := by
  unfold entry
  split
  · rfl
  · split
    · rfl
    · split
      · rfl
      · split <;> rfl

theorem entry_exit (hook_enable : Bool) (ctx : Option FdCtx) (errno : Int32) :
    entry hook_enable ctx ≠ .returned (.timedOut errno) := by
  intro exit
  unfold entry at exit
  split at exit
  · cases exit
  · split at exit
    · cases exit
    · split at exit
      · cases exit
      · split at exit
        · cases exit
        · cases exit

theorem Sound.enter {frame : Frame} (sound : Sound isCall w) (named : isCall name = true)
    (outside : (w.calls name).pc = .outside) (timer : frame.pc.timer = none)
    (exits : ∀ errno, frame.pc ≠ .returned (.timedOut errno)) :
    Sound isCall { w with
      calls := Function.update w.calls name frame
      tinfo := Function.update w.tinfo name {} } := by
  constructor
  · have timed : Timed { w with calls := Function.update w.calls name frame } := by
      apply sound.timed.reframe
      rw [timer, outside]
      rfl
    exact timed.frame rfl rfl fun _ => rfl
  · have placed : Placed isCall { w with calls := Function.update w.calls name frame } := by
      apply sound.placed.reframe named
      rw [outside]
      rfl
    exact placed.frame rfl rfl rfl
  · apply sound.attributed.frame
    · exact sound.attributed.holders
    · intro timer call owned
      exact owned
    · intro call
      by_cases same : call = name
      · rw [same]
        exact Or.inr (by simp)
      · exact Or.inl (by simp [same])
    · rfl
    · intro call errno exit
      by_cases same : call = name
      · subst same
        exact absurd (by simpa using exit) (exits errno)
      · exact sound.attributed.timedOut call errno (by simpa [same] using exit)

theorem Sound.arm {timer : Addr} (sound : Sound isCall w) (arming : (w.calls name).pc = .arming)
    (fresh : timer ∉ w.mgr.created) (now : UInt64) :
    Sound isCall ({ w.timed (w.mgr.addTimer timer (w.calls name).timeout (some name) false now).2
      with owner := Function.update w.owner timer (some name) }.goto name
        (.adding (some timer))) := by
  have named : isCall name = true := sound.placed.named name (by rw [arming]; decide)
  have kept : ∀ one call, w.owner one = some call →
      Function.update w.owner timer (some name) one = some call := by
    intro one call owned
    have different : one ≠ timer := by
      rintro rfl
      exact fresh (sound.timed.known one call owned)
    simpa [different] using owned
  constructor
  · exact sound.timed.arm (by rw [arming]; rfl) fresh now
  · have placed : Placed isCall (w.goto name (.adding (some timer))) := by
      apply sound.placed.reframe named
      rw [arming]
      rfl
    exact placed.frame rfl rfl rfl
  · apply sound.attributed.frame
    · intro callback mem
      exact kept _ _ (sound.attributed.holders callback mem)
    · exact kept
    · intro call
      exact Or.inl rfl
    · rfl
    · intro call errno exit
      by_cases same : call = name
      · subst same
        rw [World.goto_pc] at exit
        cases exit
      · rw [World.goto_other _ _ same] at exit
        exact sound.attributed.timedOut call errno exit

theorem Sound.disarm {before pc : Pc} {middle : World} (sound : Sound isCall w)
    (current : (w.calls name).pc = before) (inside : before ≠ .outside)
    (awake : before.isWaiting = false) (unarmed : pc.timer = none)
    (exits : ∀ errno, pc ≠ .returned (.timedOut errno))
    (done : w.cancelTimer before.timer = some middle) : Sound isCall (middle.goto name pc) := by
  subst current
  have timed : Timed (middle.goto name pc) := sound.timed.disarm rfl unarmed done
  have unchanged : middle.io = w.io ∧ middle.calls = w.calls ∧ middle.ready = w.ready ∧
      middle.owner = w.owner ∧ middle.running = w.running ∧ middle.tinfo = w.tinfo ∧
      middle.assignments = w.assignments := by
    cases timer : (w.calls name).pc.timer with
    | none =>
        rw [timer] at done
        cases done
        exact ⟨rfl, rfl, rfl, rfl, rfl, rfl, rfl⟩
    | some timer =>
        rw [timer] at done
        rcases Option.map_eq_some_iff.mp done with ⟨_, _, rfl⟩
        exact ⟨rfl, rfl, rfl, rfl, rfl, rfl, rfl⟩
  rcases unchanged with ⟨io, calls, ready, owner, running, tinfo, assignments⟩
  constructor
  · exact timed
  · have placed : Placed isCall (w.goto name pc) :=
      sound.placed.reframe (sound.placed.named name inside) awake
    apply placed.frame
    · exact congrArg IOManager.heap io
    · simp only [World.goto, calls]
    · exact ready
  · have attributed : Attributed (w.goto name pc) := by
      apply sound.attributed.reframe
      intro errno exit
      exact absurd exit (exits errno)
    apply attributed.keep
    · simp only [World.goto, calls]
    · exact tinfo
    · exact owner
    · exact running
    · exact assignments

theorem Sound.register {timer : Option Addr} {scheduler : Option EventTable.SchedulerId}
    {ret answer : Int32} {io : IOManager} (sound : Sound isCall w)
    (adding : (w.calls name).pc = .adding timer)
    (done : w.io.addEvent ⟨scheduler, name, .exec⟩ (w.calls name).fd (w.calls name).event none ret
      = .ok (answer, io)) :
    (answer ≠ 0 → Sound isCall ({ w with io := io }.goto name (.failing timer))) ∧
      (answer = 0 → ∀ p, io.context (w.calls name).fd = some p →
        Sound isCall ({ w with io := io }.goto name (.waiting timer p))) := by
  have inside : (w.calls name).pc ≠ .outside := by
    rw [adding]
    intro impossible
    cases impossible
  have awake : (w.calls name).pc.isWaiting = false := by
    rw [adding]
    rfl
  have named := sound.placed.named name inside
  rcases addEvent_cases done with ⟨grown, rebuilt, outcome⟩
  constructor
  · intro failed
    rcases outcome with ⟨_, rfl⟩ | ⟨succeeded, _⟩
    · have shrunk : Sound isCall { w with io := io } := by
        apply sound.shrink
        intro p e call _ registered
        rcases rebuilt p with same | ⟨fd, fresh⟩
        · rwa [same] at registered
        · rw [fresh, EventTable.fresh_slot] at registered
          cases registered
      exact shrunk.goto adding (by simp) rfl rfl (by simp)
    · exact absurd succeeded failed
  · intro succeeded p located
    rcases outcome with ⟨failed, _⟩ | ⟨_, real, q, context, filled⟩
    · exact absurd succeeded failed
    · rw [located] at context
      cases context
      constructor
      · have timed : Timed (w.goto name (.waiting timer p)) := by
          apply sound.timed.reframe
          rw [adding]
          rfl
        exact timed.frame rfl rfl fun _ => rfl
      · exact sound.placed.enroll named awake real rebuilt filled rfl
      · have attributed : Attributed (w.goto name (.waiting timer p)) := by
          apply sound.attributed.reframe
          intro errno exit
          cases exit
        exact attributed.keep rfl rfl rfl rfl rfl

theorem Sound.resume {timer : Option Addr} {p : Ptr} (sound : Sound isCall w)
    (waiting : (w.calls name).pc = .waiting timer p) (woken : name ∈ w.ready) :
    Sound isCall ({ w with ready := w.ready.erase name }.goto name (.resumed timer)) := by
  constructor
  · have timed : Timed (w.goto name (.resumed timer)) := by
      apply sound.timed.reframe
      rw [waiting]
      rfl
    exact timed.frame rfl rfl fun _ => rfl
  · apply sound.placed.resume _ woken
    apply sound.placed.named name
    rw [waiting]
    intro impossible
    cases impossible
  · have attributed : Attributed (w.goto name (.resumed timer)) := by
      apply sound.attributed.reframe
      intro errno exit
      cases exit
    exact attributed.keep rfl rfl rfl rfl rfl

theorem sound_call {step : CallStep} (sound : Sound isCall w)
    (done : w.call isCall name step = some after) : Sound isCall after := by
  cases call_goes done with
  | enter outside named hook_enable ctx fd event timeout_so =>
      apply sound.enter named outside
      · exact entry_timer hook_enable ctx
      · exact entry_exit hook_enable ctx
  | passThrough direct n errno => exact sound.goto direct (by simp) rfl rfl (by simp)
  | retry calling => exact sound
  | block calling => exact sound.goto calling (by simp) rfl rfl (by simp)
  | finish calling n errno _ _ => exact sound.goto calling (by simp) rfl rfl (by simp)
  | endless arming _ timer now => exact sound.goto arming (by simp) rfl rfl (by simp)
  | arm arming _ timer fresh now => exact sound.arm arming fresh now
  | refused adding added failed => exact (sound.register adding added).1 failed
  | register adding added located => exact (sound.register adding added).2 rfl _ located
  | resume waiting woken => exact sound.resume waiting woken
  | abandon failing cancelled => exact sound.disarm failing (by simp) rfl rfl (by simp) cancelled
  | disarm resumed cancelled => exact sound.disarm resumed (by simp) rfl rfl (by simp) cancelled
  | expire checking set =>
      refine sound.goto checking (by simp) rfl rfl ?_
      intro errno exit
      cases exit
      exact sound.attributed.cancelled name set
  | again checking _ => exact sound.goto checking (by simp) rfl rfl (by simp)

theorem move_shrinks {io : IOManager} {move : Move} (admitted : World.admits isCall move = true)
    (enabled : move.enabled io) (p : Ptr) (e : Event) (call : Call) (named : isCall call = true)
    (registered : (((move.effect io).heap p).slot e).fiber = some call) :
    ((io.heap p).slot e).fiber = some call := by
  cases move with
  | resize size => exact contextResize_fiber registered
  | control fd entry => exact registered
  | register fd q e' scheduler waiter =>
      rcases fiber_enroll enabled.2.1 registered with before | ⟨_, _, holds⟩
      · exact before
      · cases waiter with
        | fiber fiber =>
            have itself : fiber = call := Option.some.inj holds
            rw [itself] at admitted
            simp [World.admits, named] at admitted
        | callback cb => cases holds
  | discard fd q e' => exact (fiber_withdraw registered).1
  | fire q e' scheduler => cases admitted

theorem Sound.trigger {p : Ptr} {e : Event} (sound : Sound isCall w)
    (done : w.trigger p e = some after) : Sound isCall after := by
  have placed := sound.placed.trigger done
  unfold World.trigger at done
  split at done
  · cases done
  · cases done
    constructor
    · exact sound.timed.frame rfl rfl fun _ => rfl
    · exact placed
    · exact sound.attributed.keep rfl rfl rfl rfl rfl

/-- `cancelEvent` finds no event, or the kernel refuses, or the event is triggered. -/
theorem cancelEvent_cases {fd ret : Int32} {e : Event}
    (done : w.cancelEvent fd e ret = some after) :
    after = w ∨ ∃ io p, io.heap = w.io.heap ∧ { w with io := io }.trigger p e = some after := by
  unfold World.cancelEvent at done
  split at done
  · split at done
    · cases done
    · split at done
      · dsimp only at done
        split at done
        · cases done
          exact Or.inl rfl
        · refine Or.inr ⟨_, _, ?_, done⟩
          rfl
      · cases done
        exact Or.inl rfl
  · cases done
    exact Or.inl rfl

theorem Sound.cancelEvent {fd ret : Int32} {e : Event} (sound : Sound isCall w)
    (done : w.cancelEvent fd e ret = some after) : Sound isCall after := by
  rcases cancelEvent_cases done with rfl | ⟨io, p, heap, triggered⟩
  · exact sound
  · apply Sound.trigger _ triggered
    apply sound.shrink
    intro p' e' call _ registered
    rwa [heap] at registered

theorem Sound.hold {running : List Callback} (sound : Sound isCall w)
    (holders : ∀ callback ∈ running, w.owner callback.timer = some callback.call) :
    Sound isCall { w with running := running } := by
  constructor
  · exact sound.timed.frame rfl rfl fun _ => rfl
  · exact sound.placed.frame rfl rfl rfl
  · exact ⟨holders, sound.attributed.made, sound.attributed.cancelled, sound.attributed.timedOut⟩

/-- What a step of a callback does. -/
theorem callback_cases {index : Nat} {callback : Callback} {step : CallbackStep}
    (done : w.callback index callback step = some after) :
    after = { w with running := w.running.eraseIdx index } ∨
      after = { w with running := w.running.set index { callback with pc := .assigning } } ∨
      (step = .assign ∧ after = { w with
        tinfo := Function.update w.tinfo callback.call { cancelled := ETIMEDOUT }
        running := w.running.set index { callback with pc := .cancelling }
        assignments := w.assignments ++
          [⟨callback.call, callback.timer, w.alive callback.call⟩] }) ∨
      ∃ ret, { w with running := w.running.eraseIdx index }.cancelEvent
        (w.calls callback.call).fd (w.calls callback.call).event ret = some after := by
  cases step with
  | test =>
      simp only [World.callback] at done
      split at done
      · split at done
        · cases done
          exact Or.inl rfl
        · cases done
          exact Or.inr (Or.inl rfl)
      · cases done
  | assign =>
      simp only [World.callback] at done
      split at done
      · cases done
        exact Or.inr (Or.inr (Or.inl ⟨rfl, rfl⟩))
      · cases done
  | cancelEvent ret =>
      simp only [World.callback] at done
      split at done
      · exact Or.inr (Or.inr (Or.inr ⟨ret, done⟩))
      · cases done

theorem sound_callback {index : Nat} {callback : Callback} {step : CallbackStep}
    (sound : Sound isCall w) (found : w.running[index]? = some callback)
    (done : w.callback index callback step = some after) : Sound isCall after := by
  have mem : callback ∈ w.running := List.mem_of_getElem? found
  have owned := sound.attributed.holders callback mem
  have erased : ∀ other ∈ w.running.eraseIdx index,
      w.owner other.timer = some other.call := by
    intro other left
    exact sound.attributed.holders other (List.mem_of_mem_eraseIdx left)
  have advanced : ∀ pc, ∀ other ∈ w.running.set index { callback with pc := pc },
      w.owner other.timer = some other.call := by
    intro pc other held
    rcases List.mem_or_eq_of_mem_set held with before | rfl
    · exact sound.attributed.holders other before
    · exact owned
  rcases callback_cases done with rfl | rfl | ⟨_, rfl⟩ | ⟨ret, cancelled⟩
  · exact sound.hold erased
  · exact sound.hold (advanced .assigning)
  · constructor
    · exact sound.timed.frame rfl rfl fun _ => rfl
    · exact sound.placed.frame rfl rfl rfl
    · exact sound.attributed.assign (advanced .cancelling) owned (alive_of_running mem)
  · exact (sound.hold erased).cancelEvent cancelled

theorem sound_begin {index : Nat} (sound : Sound isCall w) (done : w.begin index = some after) :
    Sound isCall after := by
  rcases Option.map_eq_some_iff.mp done with ⟨shot, _, rfl⟩
  have taken : Sound isCall { w with queued := w.queued.eraseIdx index } := by
    constructor
    · exact sound.timed.frame rfl rfl fun _ => rfl
    · exact sound.placed.frame rfl rfl rfl
    · exact sound.attributed.keep rfl rfl rfl rfl rfl
  dsimp only
  split
  · exact taken
  · rename_i call owned
    split
    · apply taken.hold
      intro callback mem
      rcases List.mem_append.mp mem with before | new
      · exact sound.attributed.holders callback before
      · rcases List.mem_singleton.mp new with rfl
        exact owned
    · exact taken

theorem sound_step {step : Step} (sound : Sound isCall w)
    (done : (doIo isCall).step w step = some after) : Sound isCall after := by
  change w.act isCall step = some after at done
  cases step with
  | call name step => exact sound_call sound done
  | begin index => exact sound_begin sound done
  | callback index step =>
      rcases Option.bind_eq_some_iff.mp done with ⟨callback, found, moved⟩
      exact sound_callback sound found moved
  | timers op =>
      simp only [World.act] at done
      split at done
      · rcases Option.map_eq_some_iff.mp done with ⟨mgr, moved, rfl⟩
        constructor
        · exact sound.timed.operate moved
        · exact sound.placed.frame rfl rfl rfl
        · exact sound.attributed.keep rfl rfl rfl rfl rfl
      · cases done
  | trigger p e => exact sound.trigger done
  | move move =>
      simp only [World.act] at done
      split at done
      · rename_i allowed
        cases done
        apply sound.shrink
        intro p e call named registered
        exact move_shrinks allowed.1 allowed.2 p e call named registered
      · cases done

theorem reach_sound (reached : Reach (doIo isCall) anyStep w) : Sound isCall w := by
  apply Reach.invariant (Sound isCall) _ _ reached
  · rintro w ⟨now, rfl⟩
    constructor
    · constructor
      · exact .start ⟨now, rfl⟩
      · intro timer call owned
        cases owned
      · intro call timer current
        cases current
      · intro timer call owned
        cases owned
    · constructor
      · intro p e call _ registered
        have before := contextResize_fiber registered
        cases e <;> cases before
      · intro call mem
        cases mem
      · intro call _
        exact Nat.zero_le 1
      · intro call inside
        exact absurd rfl inside
    · constructor
      · intro callback mem
        cases mem
      · intro made mem
        cases mem
      · intro call set
        exact absurd rfl set
      · intro call errno exit
        cases exit
  · intro before step after _ sound _ moved
    exact sound_step sound moved

end Steps

/-! The exits. -/

def Step.callbackOf (w : World) : Step → Option Call
  | .begin index => w.queued[index]?.bind fun shot => w.owner shot.1
  | .callback index _ => w.running[index]?.map (·.call)
  | .call _ _ | .timers _ | .trigger _ _ | .move _ => none

structure CleanExits (isCall : FiberId → Bool) (w : World) : Prop where
  attributed : ∀ call errno, (w.calls call).pc = .returned (.timedOut errno) →
    errno = ETIMEDOUT ∧ ∃ made ∈ w.assignments,
      made.call = call ∧ made.alive = true ∧ w.owner made.timer = some call
  separate : ∀ step after call exit, (doIo isCall).step w step = some after →
    step.callbackOf w = some call → (w.calls call).pc = .returned exit →
    ∀ other, other ≠ call → after.tinfo other = w.tinfo other
  disarmed : ∀ call exit, (w.calls call).pc = .returned exit →
    ∀ timer, w.owner timer = some call → timer ∉ w.mgr.m_timers
  unregistered : ∀ call exit, (w.calls call).pc = .returned exit →
    ∀ p e, ((w.io.heap p).slot e).fiber ≠ some call

section Exits
variable {isCall : FiberId → Bool} {w after : World}

structure Aside (w after : World) : Prop where
  calls : after.calls = w.calls
  mgr : after.mgr = w.mgr
  owner : after.owner = w.owner

theorem trigger_keeps {p : Ptr} {e : Event} (done : w.trigger p e = some after) :
    Aside w after ∧ after.tinfo = w.tinfo := by
  unfold World.trigger at done
  split at done
  · cases done
  · cases done
    exact ⟨⟨rfl, rfl, rfl⟩, rfl⟩

theorem cancelEvent_keeps {fd ret : Int32} {e : Event}
    (done : w.cancelEvent fd e ret = some after) :
    Aside w after ∧ after.tinfo = w.tinfo := by
  rcases cancelEvent_cases done with rfl | ⟨io, p, _, triggered⟩
  · exact ⟨⟨rfl, rfl, rfl⟩, rfl⟩
  · rcases trigger_keeps triggered with ⟨⟨calls, mgr, owner⟩, tinfo⟩
    exact ⟨⟨calls, mgr, owner⟩, tinfo⟩

/-- A callback writes to the `timer_info` it has locked, in one of its steps. -/
theorem callback_keeps {index : Nat} {callback : Callback} {step : CallbackStep}
    (done : w.callback index callback step = some after) :
    Aside w after ∧ ∀ other, (step = .assign → other ≠ callback.call) →
      after.tinfo other = w.tinfo other := by
  rcases callback_cases done with rfl | rfl | ⟨assigns, rfl⟩ | ⟨ret, cancelled⟩
  · exact ⟨⟨rfl, rfl, rfl⟩, fun _ _ => rfl⟩
  · exact ⟨⟨rfl, rfl, rfl⟩, fun _ _ => rfl⟩
  · refine ⟨⟨rfl, rfl, rfl⟩, ?_⟩
    intro other different
    exact Function.update_of_ne (different assigns) _ _
  · rcases cancelEvent_keeps cancelled with ⟨⟨calls, mgr, owner⟩, tinfo⟩
    exact ⟨⟨calls, mgr, owner⟩, fun _ _ => by rw [tinfo]⟩

theorem begin_keeps {index : Nat} (done : w.begin index = some after) :
    Aside w after ∧ after.tinfo = w.tinfo := by
  rcases Option.map_eq_some_iff.mp done with ⟨shot, _, rfl⟩
  dsimp only
  split
  · exact ⟨⟨rfl, rfl, rfl⟩, rfl⟩
  · split
    · exact ⟨⟨rfl, rfl, rfl⟩, rfl⟩
    · exact ⟨⟨rfl, rfl, rfl⟩, rfl⟩

theorem clean_exits (isCall : FiberId → Bool) (w : World)
    (reached : Reach (doIo isCall) anyStep w) : CleanExits isCall w := by
  have sound := reach_sound reached
  constructor
  · intro call errno exit
    rcases sound.attributed.timedOut call errno exit with ⟨value, made, mem, same⟩
    rcases sound.attributed.made made mem with ⟨alive, owned⟩
    rw [same] at owned
    exact ⟨value, made, mem, same, alive, owned⟩
  · intro step after call exit moved stepped _ other different
    change w.act isCall step = some after at moved
    cases step with
    | begin index => rw [(begin_keeps moved).2]
    | callback index step =>
        rcases Option.bind_eq_some_iff.mp moved with ⟨callback, found, done⟩
        have itself : callback.call = call := by simpa [Step.callbackOf, found] using stepped
        exact (callback_keeps done).2 other fun _ => itself ▸ different
    | call _ _ | timers _ | trigger _ _ | move _ => cases stepped
  · intro call exit returned timer owned
    apply sound.timed.outside owned
    rw [returned]
    rfl
  · intro call exit returned p e
    have named : isCall call = true := by
      apply sound.placed.named
      rw [returned]
      intro impossible
      cases impossible
    apply sound.placed.unplaced named
    rw [returned]
    rfl

def timeout : List Step :=
  [.call 1 (.enter true (some { m_isSocket := true, m_recvTimeout := 100 }) 5 .read
      Descriptors.SO_RCVTIMEO),
    .call 1 (.originFun (-1) EAGAIN), .call 1 (.addConditionTimer 0 1000),
    .call 1 (.addEvent (some 0) 0), .timers (.listExpiredCb 1 1100), .begin 0, .callback 0 .test,
    .callback 0 .assign, .callback 0 (.cancelEvent 0), .call 1 .resume, .call 1 .cancelTimer,
    .call 1 .check]

theorem clean_exits_timeout :
    ∃ w, run (doIo fun fiber => fiber < 10) { io := .constructed, mgr := .constructed 1000 }
      timeout = some w ∧ CleanExits (fun fiber => fiber < 10) w :=
  run_meets_where anyStep (fun w => (w.calls 1).pc = .returned (.timedOut ETIMEDOUT))
    ⟨1000, rfl⟩ (by decide) (by decide) fun w reached _ => clean_exits _ w reached

end Exits

end Ztyco.DoIo
