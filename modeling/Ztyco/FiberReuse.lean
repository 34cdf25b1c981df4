import Ztyco.FiberExclusion

/-!
The fiber that `run` keeps for function tasks, where there is one worker. Such
a worker's fibers are nobody else's, so what decides whether the kept fiber may
be used again is how its activations ended. `Turn` says what the worker's steps
do to the fiber in hand and the one that is kept; the interleaving with calls of
`schedule()` from elsewhere, the counters and the tickles do not show there.
-/

namespace Ztyco.Scheduler

open Fibers (FiberId Func Fiber)
open Transition

/-- A scheduler, the idle fiber of its worker, and what can be observed. -/
structure Observed where
  system : System
  idle_fiber : Fiber := { m_func := some 0 }
  /-- Fibers whose latest function has neither returned nor thrown. -/
  unfinished : FiberId → Bool := fun _ => false
  /-- How each activation left its fiber. -/
  left : List (FiberId × Fibers.State) := []
  /-- What the code of `run` has queued. -/
  requeued : List ScheduleTask := []

def Act.byRun (act : Act) : Bool :=
  match act.site with
  | none | some (_, .running _ _) => false
  | some _ => true

namespace Observed

/-- `idle_fiber->swapIn()`, and how the idle fiber comes back: it has returned,
or it is EXEC and put on HOLD. -/
def idleAfter (o : Observed) : Act → Option Fiber
  | .goIdle _ => o.idle_fiber.swapIn
  | .leaveIdle _ true => some (o.idle_fiber.finish false)
  | .leaveIdle _ false => some { o.idle_fiber with m_state := .hold }
  | _ => some o.idle_fiber

def unfinishedAfter (o : Observed) (after : System) : Act → FiberId → Bool
  | .newFiber _ => Function.update o.unfinished o.system.nextFiber true
  | .branch w _ =>
      match (after.worker w).pc with
      | .swapIn f true => Function.update o.unfinished f true
      | _ => o.unfinished
  | .finish _ f _ _ => Function.update o.unfinished f false
  | _ => o.unfinished

def leaves (after : System) : Act → List (FiberId × Fibers.State)
  | .yieldTo _ f _ _ | .finish _ f _ _ => [(f, (after.fibers f).m_state)]
  | _ => []

def observe (o : Observed) (act : Act) (after : System) : Option Observed :=
  (o.idleAfter act).map fun idle_fiber =>
    { system := after
      idle_fiber := idle_fiber
      unfinished := o.unfinishedAfter after act
      left := o.left ++ leaves after act
      requeued := o.requeued ++
        if act.byRun then after.pushed.drop o.system.pushed.length else [] }

def effect (o : Observed) (act : Act) : Option Observed :=
  (act.effect o.system).bind (o.observe act)

end Observed

/-- Calling an empty `std::function` throws, so a fiber without a function can
only end that way. -/
def Act.callable (s : System) : Act → Bool
  | .addEvent _ f _ | .switchTo _ f _ _ | .yieldTo _ f _ _ | .finish _ f _ false =>
      (s.fibers f).m_func.isSome
  | _ => true

def Observed.possible (o : Observed) (act : Act) : Prop :=
  act.enabled o.system ∧ act.callable o.system = true

instance Observed.possible.decidable (o : Observed) (act : Act) : Decidable (o.possible act) :=
  inferInstanceAs (Decidable (_ ∧ _))

def soleWorker : Machine Observed Act where
  initial o := ∃ w, o = { system := { threads := [w] } }
  step o act := if o.possible act then o.effect act else none

def requeues (left : List (FiberId × Fibers.State)) : List ScheduleTask :=
  (left.filter fun entry => entry.2 = .ready).map fun entry => { fiber := some entry.1 }

/-- No assertion fails; the kept fiber is not given a function before its
previous one has ended; after each task `run` has queued what is READY, once,
and nothing else. -/
structure ReuseSafe (o : Observed) : Prop where
  asserted : ∀ act, o.possible act → (o.effect act).isSome = true
  ended : ∀ w ∈ o.system.threads, ∀ task f, (o.system.worker w).pc = .branch (some task) →
    (o.system.worker w).func_fiber = some f → o.unfinished f = false
  requeued : ∀ w ∈ o.system.threads, (o.system.worker w).pc = .scan →
    o.requeued = requeues o.left

/-! One worker and its fibers. -/

inductive Stage where
  | entering | running | back | again
  deriving DecidableEq, Repr

def Pc.stage : Pc → Option (Stage × FiberId × Bool)
  | .swapIn f own => some (.entering, f, own)
  | .running f own => some (.running, f, own)
  | .saving f own | .returned f own | .inspect f own => some (.back, f, own)
  | .requeue f own => some (.again, f, own)
  | .scan | .tickle _ | .tickleWrite _ | .branch _ | .drop | .goIdle | .idle | .epollWait
  | .draining | .leaveIdle _ | .exit => none

structure View where
  stage : Option (Stage × FiberId × Bool)
  kept : Option FiberId
  fibers : FiberId → Fiber
  unfinished : FiberId → Bool
  left : List (FiberId × Fibers.State)
  requeued : List ScheduleTask

def Observed.view (o : Observed) (w : ThreadId) : View where
  stage := (o.system.worker w).pc.stage
  kept := (o.system.worker w).func_fiber
  fibers := o.system.fibers
  unfinished := o.unfinished
  left := o.left
  requeued := o.requeued

theorem view_stage {o : Observed} {w : ThreadId} {pc : Pc} (at_ : (o.system.worker w).pc = pc) :
    (o.view w).stage = pc.stage :=
  congrArg Pc.stage at_

def View.unnamed (v : View) (f : FiberId) : Prop :=
  v.kept ≠ some f ∧ ∀ stage own, v.stage ≠ some (stage, f, own)

def View.setFiber (v : View) (f : FiberId) (fiber : Fiber) : View :=
  { v with fibers := Function.update v.fibers f fiber }

def View.give (v : View) (f : FiberId) (func : Func) : View :=
  { v.setFiber f { m_func := some func } with
    unfinished := Function.update v.unfinished f true }

def View.leave (v : View) (f : FiberId) (own : Bool) (fiber : Fiber) : View :=
  { v.setFiber f fiber with
    stage := some (.back, f, own)
    left := v.left ++ [(f, fiber.m_state)] }

def View.release (v : View) (own : Bool) : View :=
  { v with stage := none, kept := if own then none else v.kept }

inductive Turn : View → View → Prop where
  | stay (v) : Turn v v
  | created (v : View) (f func) : v.unnamed f → Turn v (v.give f func)
  | fiberTask (v : View) (f) : v.stage = none → (v.fibers f).m_state ≠ .exec →
      Turn v { v with stage := some (.entering, f, false) }
  | funcTask (v : View) (f func) : v.stage = none →
      v.kept = some f ∨ v.kept = none ∧ v.unnamed f →
      Turn v { v.give f func with stage := some (.entering, f, true), kept := some f }
  | swapIn (v : View) (f own) : v.stage = some (.entering, f, own) →
      Turn v { v.setFiber f { v.fibers f with m_state := .exec } with
        stage := some (.running, f, own) }
  | yielded (v : View) (f own target) : v.stage = some (.running, f, own) →
      target = .ready ∨ target = .hold → (v.fibers f).m_func.isSome = true →
      Turn v (v.leave f own { v.fibers f with m_state := target })
  | finished (v : View) (f own threw) : v.stage = some (.running, f, own) →
      threw = true ∨ (v.fibers f).m_func.isSome = true →
      Turn v { v.leave f own ((v.fibers f).finish threw) with
        unfinished := Function.update v.unfinished f false }
  | ready (v : View) (f own) : v.stage = some (.back, f, own) →
      (v.fibers f).m_state = .ready → Turn v { v with stage := some (.again, f, own) }
  | reset (v : View) (f) : v.stage = some (.back, f, true) →
      (v.fibers f).m_state.finished = true → Turn v { v.setFiber f {} with stage := none }
  | passed (v : View) (f) : v.stage = some (.back, f, false) →
      (v.fibers f).m_state.finished = true → Turn v { v with stage := none }
  | held (v : View) (f own) : v.stage = some (.back, f, own) →
      (v.fibers f).m_state ≠ .ready → (v.fibers f).m_state.finished = false →
      Turn v ((v.setFiber f { v.fibers f with m_state := .hold }).release own)
  | requeued (v : View) (f own) : v.stage = some (.again, f, own) →
      Turn v { v.release own with requeued := v.requeued ++ [{ fiber := some f }] }

def Stage.Fits : Stage → Fibers.State → Prop
  | .entering, state => state ≠ .exec
  | .running, state => state = .exec
  | .back, state => state ≠ .exec ∧ state ≠ .init
  | .again, state => state = .ready

/-- A kept fiber outside its own activation has nothing to call, so it can only
have thrown where it was entered as a task. -/
def Spare (fiber : Fiber) : Prop :=
  fiber.m_func = none ∧ (fiber.m_state = .init ∨ fiber.m_state = .except ∨ fiber.m_state = .exec)

def View.Tallied (v : View) : Prop :=
  match v.stage with
  | some (.back, f, _) | some (.again, f, _) =>
      ∃ earlier, v.left = earlier ++ [(f, (v.fibers f).m_state)] ∧ v.requeued = requeues earlier
  | none | some (.entering, _, _) | some (.running, _, _) => v.requeued = requeues v.left

structure Reusable (v : View) : Prop where
  fits : ∀ stage f own, v.stage = some (stage, f, own) → stage.Fits (v.fibers f).m_state
  own : ∀ stage f, v.stage = some (stage, f, true) → v.kept = some f
  kept : ∀ f, v.kept = some f →
    (∃ stage, v.stage = some (stage, f, true)) ∨ Spare (v.fibers f)
  ended : ∀ f, v.unfinished f = true →
    (v.fibers f).m_func.isSome = true ∧ (v.fibers f).m_state.finished = false
  tallied : v.Tallied

theorem requeues_snoc (left : List (FiberId × Fibers.State)) (f : FiberId)
    (state : Fibers.State) : requeues (left ++ [(f, state)]) =
      requeues left ++ if state = .ready then [{ fiber := some f }] else [] := by
  by_cases ready : state = .ready
  · simp [requeues, ready]
  · simp [requeues, ready]

theorem Reusable.start (w : ThreadId) :
    Reusable (({ system := { threads := [w] } } : Observed).view w) := by
  constructor
  · intro stage f own at_
    cases at_
  · intro stage f at_
    cases at_
  · intro f kept
    cases kept
  · intro f unfinished
    cases unfinished
  · rfl

section Turns
variable {v : View} {f : FiberId} {own : Bool}

/-- A fiber in hand that is the kept one and not the worker's own activation. -/
theorem Reusable.spare (before : Reusable v) {stage : Stage}
    (at_ : v.stage = some (stage, f, false)) (kept : v.kept = some f) : Spare (v.fibers f) := by
  rcases before.kept f kept with ⟨other, mine⟩ | spare
  · rw [at_] at mine
    cases mine
  · exact spare

/-- The kept fiber while another fiber is in hand or none is. -/
theorem Reusable.aside (before : Reusable v) {g : FiberId} (kept : v.kept = some g)
    (other : ∀ stage, v.stage ≠ some (stage, g, true)) : Spare (v.fibers g) := by
  rcases before.kept g kept with ⟨stage, mine⟩ | spare
  · exact absurd mine (other stage)
  · exact spare

theorem Reusable.besides (before : Reusable v) {stage : Stage} {g : FiberId}
    (at_ : v.stage = some (stage, f, own)) (kept : v.kept = some g) (other : g ≠ f) :
    Spare (v.fibers g) := by
  apply before.aside kept
  intro stage mine
  rw [at_] at mine
  cases mine
  exact other rfl

theorem Reusable.passing (before : Reusable v) {stage : Stage} {g : FiberId}
    (at_ : v.stage = some (stage, f, false)) (kept : v.kept = some g) : Spare (v.fibers g) := by
  apply before.aside kept
  intro stage mine
  rw [at_] at mine
  cases mine

theorem reusable_idle (idle : v.stage = none) (kept : ∀ g, v.kept = some g → Spare (v.fibers g))
    (ended : ∀ g, v.unfinished g = true →
      (v.fibers g).m_func.isSome = true ∧ (v.fibers g).m_state.finished = false)
    (dealt : v.requeued = requeues v.left) : Reusable v := by
  constructor
  · intro stage g own at_
    rw [idle] at at_
    cases at_
  · intro stage g at_
    rw [idle] at at_
    cases at_
  · intro g same
    exact Or.inr (kept g same)
  · exact ended
  · unfold View.Tallied
    rw [idle]
    exact dealt

theorem Reusable.given (before : Reusable v) (func : Func) {g : FiberId}
    (unfinished : (v.give f func).unfinished g = true) :
    ((v.give f func).fibers g).m_func.isSome = true ∧
      ((v.give f func).fibers g).m_state.finished = false := by
  by_cases same : g = f
  · subst same
    simp [View.give, View.setFiber, Fibers.State.finished]
  · have earlier : v.unfinished g = true := by
      simpa [View.give, View.setFiber, same] using unfinished
    simpa [View.give, View.setFiber, same] using before.ended g earlier

theorem Reusable.created (before : Reusable v) (func : Func) (unnamed : v.unnamed f) :
    Reusable (v.give f func) := by
  rcases unnamed with ⟨unkept, unhanded⟩
  constructor
  · intro stage g own at_
    have other : g ≠ f := fun same => unhanded stage own (same ▸ at_)
    simpa [View.give, View.setFiber, other] using before.fits stage g own at_
  · exact before.own
  · intro g kept
    have other : g ≠ f := fun same => unkept (same ▸ kept)
    simpa [View.give, View.setFiber, other] using before.kept g kept
  · intro g unfinished
    exact before.given func unfinished
  · have tallied := before.tallied
    unfold View.Tallied at tallied ⊢
    cases at_ : v.stage with
    | none => simpa [View.give, View.setFiber, at_] using tallied
    | some hand =>
        rcases hand with ⟨stage, g, own⟩
        have other : g ≠ f := fun same => unhanded stage own (same ▸ at_)
        cases stage <;> simpa [View.give, View.setFiber, at_, other] using tallied

theorem Reusable.fiberTask (before : Reusable v) (empty : v.stage = none)
    (waiting : (v.fibers f).m_state ≠ .exec) :
    Reusable { v with stage := some (.entering, f, false) } := by
  constructor
  · rintro stage g own ⟨⟩
    exact waiting
  · intro stage g at_
    cases at_
  · intro g kept
    right
    apply before.aside kept
    intro stage
    rw [empty]
    exact Option.some_ne_none _ |>.symm
  · exact before.ended
  · simpa [View.Tallied, empty] using before.tallied

theorem Reusable.funcTask (before : Reusable v) (func : Func) (empty : v.stage = none) :
    Reusable { v.give f func with stage := some (.entering, f, true), kept := some f } := by
  constructor
  · rintro stage g own ⟨⟩
    simp [View.give, View.setFiber, Stage.Fits]
  · rintro stage g ⟨⟩
    rfl
  · rintro g ⟨⟩
    exact Or.inl ⟨.entering, rfl⟩
  · intro g unfinished
    exact before.given func unfinished
  · simpa [View.Tallied, View.give, View.setFiber, empty] using before.tallied

theorem Reusable.swapIn (before : Reusable v) (at_ : v.stage = some (.entering, f, own)) :
    Reusable { v.setFiber f { v.fibers f with m_state := .exec } with
      stage := some (.running, f, own) } := by
  constructor
  · rintro stage g own ⟨⟩
    simp [View.setFiber, Stage.Fits]
  · rintro stage g ⟨⟩
    exact before.own _ f at_
  · intro g kept
    by_cases same : g = f
    · subst same
      cases own with
      | true => exact Or.inl ⟨.running, rfl⟩
      | false =>
          right
          rcases before.spare at_ kept with ⟨nothing, _⟩
          simp [Spare, View.setFiber, nothing]
    · right
      simpa [View.setFiber, same] using before.besides at_ kept same
  · intro g unfinished
    by_cases same : g = f
    · subst same
      simpa [View.setFiber, Fibers.State.finished] using (before.ended g unfinished).1
    · simpa [View.setFiber, same] using before.ended g unfinished
  · simpa [View.Tallied, View.setFiber, at_] using before.tallied

/-- The fiber in hand comes back as `fiber`; if it is the kept one and was run
as a task, it is spare again. -/
theorem Reusable.leave (before : Reusable v) {fiber : Fiber} (unfinished : FiberId → Bool)
    (at_ : v.stage = some (.running, f, own))
    (back : fiber.m_state ≠ .exec ∧ fiber.m_state ≠ .init)
    (spare : own = false → v.kept = some f → Spare fiber)
    (others : ∀ g, g ≠ f → unfinished g = true → v.unfinished g = true)
    (ended : unfinished f = true → fiber.m_func.isSome = true ∧ fiber.m_state.finished = false) :
    Reusable { v.leave f own fiber with unfinished := unfinished } := by
  constructor
  · rintro stage g own ⟨⟩
    simpa [View.leave, View.setFiber, Stage.Fits] using back
  · rintro stage g ⟨⟩
    exact before.own _ f at_
  · intro g kept
    by_cases same : g = f
    · subst same
      cases own with
      | true => exact Or.inl ⟨.back, rfl⟩
      | false =>
          right
          simpa [View.leave, View.setFiber] using spare rfl kept
    · right
      simpa [View.leave, View.setFiber, same] using before.besides at_ kept same
  · intro g still
    by_cases same : g = f
    · subst same
      simpa [View.leave, View.setFiber] using ended still
    · simpa [View.leave, View.setFiber, same] using before.ended g (others g same still)
  · have tallied := before.tallied
    simp only [View.Tallied, at_] at tallied
    refine ⟨v.left, ?_, tallied⟩
    simp [View.leave, View.setFiber]

theorem Reusable.yielded (before : Reusable v) {target : Fibers.State}
    (at_ : v.stage = some (.running, f, own)) (chosen : target = .ready ∨ target = .hold)
    (callable : (v.fibers f).m_func.isSome = true) :
    Reusable (v.leave f own { v.fibers f with m_state := target }) := by
  apply before.leave v.unfinished at_
  · rcases chosen with rfl | rfl
    · simp
    · simp
  · rintro rfl kept
    rw [(before.spare at_ kept).1] at callable
    cases callable
  · intro g _ still
    exact still
  · intro _
    rcases chosen with rfl | rfl
    · exact ⟨callable, rfl⟩
    · exact ⟨callable, rfl⟩

theorem Reusable.finished (before : Reusable v) {threw : Bool}
    (at_ : v.stage = some (.running, f, own))
    (callable : threw = true ∨ (v.fibers f).m_func.isSome = true) :
    Reusable { v.leave f own ((v.fibers f).finish threw) with
      unfinished := Function.update v.unfinished f false } := by
  apply before.leave _ at_
  · cases threw with
    | true => simp [Fiber.finish]
    | false => simp [Fiber.finish]
  · rintro rfl kept
    have nothing := (before.spare at_ kept).1
    rcases callable with rfl | some
    · exact ⟨nothing, Or.inr (Or.inl rfl)⟩
    · rw [nothing] at some
      cases some
  · intro g other still
    simpa [other] using still
  · intro still
    simp at still

theorem Reusable.ready (before : Reusable v) (at_ : v.stage = some (.back, f, own))
    (ready : (v.fibers f).m_state = .ready) :
    Reusable { v with stage := some (.again, f, own) } := by
  constructor
  · rintro stage g own ⟨⟩
    exact ready
  · rintro stage g ⟨⟩
    exact before.own _ f at_
  · intro g kept
    rcases before.kept g kept with ⟨stage, mine⟩ | spare
    · left
      rw [at_] at mine
      cases mine
      exact ⟨.again, rfl⟩
    · exact Or.inr spare
  · exact before.ended
  · simpa [View.Tallied, at_] using before.tallied

/-- With its fiber finished or on HOLD the worker has nothing to queue. -/
theorem Reusable.dealt (before : Reusable v) (at_ : v.stage = some (.back, f, own))
    (unready : (v.fibers f).m_state ≠ .ready) : v.requeued = requeues v.left := by
  have tallied := before.tallied
  simp only [View.Tallied, at_] at tallied
  rcases tallied with ⟨earlier, left, queued⟩
  rw [left, requeues_snoc, if_neg unready, List.append_nil]
  exact queued

theorem not_ready_of_finished {state : Fibers.State} (finished : state.finished = true) :
    state ≠ .ready := by
  rintro rfl
  cases finished

theorem Reusable.reset (before : Reusable v) (at_ : v.stage = some (.back, f, true))
    (finished : (v.fibers f).m_state.finished = true) :
    Reusable { v.setFiber f {} with stage := none } := by
  apply reusable_idle rfl
  · intro g kept
    have same : f = g := Option.some.inj ((before.own _ f at_).symm.trans kept)
    subst same
    simp [Spare, View.setFiber]
  · intro g unfinished
    have other : g ≠ f := by
      rintro rfl
      rw [(before.ended g unfinished).2] at finished
      cases finished
    simpa [View.setFiber, other] using before.ended g unfinished
  · exact before.dealt at_ (not_ready_of_finished finished)

theorem Reusable.passed (before : Reusable v) (at_ : v.stage = some (.back, f, false))
    (finished : (v.fibers f).m_state.finished = true) : Reusable { v with stage := none } := by
  apply reusable_idle rfl
  · intro g kept
    exact before.passing at_ kept
  · exact before.ended
  · exact before.dealt at_ (not_ready_of_finished finished)

theorem Reusable.held (before : Reusable v) (at_ : v.stage = some (.back, f, own))
    (unready : (v.fibers f).m_state ≠ .ready) (unfinished : (v.fibers f).m_state.finished = false) :
    Reusable ((v.setFiber f { v.fibers f with m_state := .hold }).release own) := by
  apply reusable_idle rfl
  · intro g kept
    cases own with
    | true => cases kept
    | false =>
        have spare := before.passing at_ kept
        have other : g ≠ f := by
          -- a spare fiber that came back has thrown
          rintro rfl
          rcases before.fits _ g _ at_ with ⟨stopped, begun⟩
          rcases spare.2 with fresh | threw | runs
          · exact begun fresh
          · rw [threw] at unfinished
            cases unfinished
          · exact stopped runs
        simpa [View.release, View.setFiber, other] using spare
  · intro g still
    by_cases same : g = f
    · subst same
      simpa [View.release, View.setFiber, Fibers.State.finished] using (before.ended g still).1
    · simpa [View.release, View.setFiber, same] using before.ended g still
  · exact before.dealt at_ unready

theorem Reusable.requeued (before : Reusable v) (at_ : v.stage = some (.again, f, own)) :
    Reusable { v.release own with requeued := v.requeued ++ [{ fiber := some f }] } := by
  have ready : (v.fibers f).m_state = .ready := before.fits _ f _ at_
  apply reusable_idle rfl
  · intro g kept
    cases own with
    | true => cases kept
    | false => exact before.passing at_ kept
  · exact before.ended
  · have tallied := before.tallied
    simp only [View.Tallied, at_] at tallied
    rcases tallied with ⟨earlier, left, queued⟩
    change v.requeued ++ [{ fiber := some f }] = requeues v.left
    rw [left, requeues_snoc, if_pos ready, queued]

theorem Reusable.turn {v' : View} (before : Reusable v) (turn : Turn v v') : Reusable v' := by
  cases turn with
  | stay => exact before
  | created f func unnamed => exact before.created func unnamed
  | fiberTask f empty waiting => exact before.fiberTask empty waiting
  | funcTask f func empty _ => exact before.funcTask func empty
  | swapIn f own at_ => exact before.swapIn at_
  | yielded f own target at_ chosen callable => exact before.yielded at_ chosen callable
  | finished f own threw at_ callable => exact before.finished at_ callable
  | ready f own at_ ready => exact before.ready at_ ready
  | reset f at_ finished => exact before.reset at_ finished
  | passed f at_ finished => exact before.passed at_ finished
  | held f own at_ unready unfinished => exact before.held at_ unready unfinished
  | requeued f own at_ => exact before.requeued at_

end Turns

/-! The steps of the scheduler as turns. -/

theorem soleWorker_step {o o' : Observed} {act : Act} (moved : soleWorker.step o act = some o') :
    o.possible act ∧ o.effect act = some o' := by
  simp only [soleWorker] at moved
  split at moved
  · rename_i possible
    exact ⟨possible, moved⟩
  · cases moved

theorem observe_cases {o o' : Observed} {act : Act} (done : o.effect act = some o') :
    ∃ after idle_fiber, act.effect o.system = some after ∧ o.idleAfter act = some idle_fiber ∧
      o' = { system := after
             idle_fiber := idle_fiber
             unfinished := o.unfinishedAfter after act
             left := o.left ++ Observed.leaves after act
             requeued := o.requeued ++
               if act.byRun then after.pushed.drop o.system.pushed.length else [] } := by
  rcases Option.bind_eq_some_iff.mp done with ⟨after, taken, observed⟩
  rcases Option.map_eq_some_iff.mp observed with ⟨idle_fiber, idle, rfl⟩
  exact ⟨after, idle_fiber, taken, idle, rfl⟩

theorem Turn.of_eq {v v' turned : View} (turn : Turn v turned) (same : v' = turned) :
    Turn v v' := by
  rw [same]
  exact turn

theorem Walk.stage {pc pc' : Pc} (walk : Walk pc pc') : pc'.stage = pc.stage := by
  cases walk <;> rfl

theorem Next.pc_stage (next : Next) : next.pc.stage = none := by
  cases next <;> rfl

section Steps
variable {o o' : Observed} {w : ThreadId}

theorem not_exec (exclusive : Exclusive o.system) (sole : o.system.threads = [w]) {f : FiberId}
    (elsewhere : (o.system.worker w).pc.runs f = false) : (o.system.fibers f).m_state ≠ .exec := by
  intro now
  rcases exclusive.exec f now with ⟨v, mem, runs⟩
  rw [sole, List.mem_singleton] at mem
  rw [mem, elsewhere] at runs
  cases runs

theorem unnamed_next (exclusive : Exclusive o.system) (sole : o.system.threads = [w]) :
    (o.view w).unnamed o.system.nextFiber := by
  have known := exclusive.named w (sole ▸ List.mem_singleton_self w)
  constructor
  · intro kept
    exact Nat.lt_irrefl _ (known _ (Or.inr kept))
  · intro stage own at_
    apply Nat.lt_irrefl _ (known o.system.nextFiber (Or.inl _))
    simp only [Observed.view] at at_
    cases pc : (o.system.worker w).pc <;> simp_all [Pc.stage, Pc.carries]

theorem branch_turn {task : Option ScheduleTask} (exclusive : Exclusive o.system)
    (sole : o.system.threads = [w]) (at_ : (o.system.worker w).pc = .branch task)
    (done : o.effect (.branch w task) = some o') : Turn (o.view w) (o'.view w) := by
  rcases observe_cases done with ⟨after, idle_fiber, taken, _, rfl⟩
  have empty : (o.view w).stage = none := view_stage at_
  rcases branch_cases taken with ⟨t, f, _, _, _, rfl⟩ | ⟨t, func, _, _, _, given⟩ |
    ⟨t, _, _, _, rfl⟩ | ⟨_, rfl⟩
  · have waiting := not_exec (f := f) exclusive sole (by rw [at_]; rfl)
    refine (Turn.fiberTask _ f empty waiting).of_eq ?_
    simp [Observed.view, System.goto, Observed.unfinishedAfter, Observed.leaves, Pc.stage]
  · rcases funcBranch_cases given with ⟨f, fiber, kept, reset, rfl⟩ | ⟨unkept, rfl⟩
    · refine (Turn.funcTask _ f func empty (Or.inl kept)).of_eq ?_
      rw [Fiber.resetFunc] at reset
      split at reset
      · cases reset
        simp [Observed.view, System.goto, System.setFiber, Observed.unfinishedAfter,
          Observed.leaves, Pc.stage, View.give, View.setFiber, kept]
      · cases reset
    · refine (Turn.funcTask _ o.system.nextFiber func empty
        (Or.inr ⟨unkept, unnamed_next exclusive sole⟩)).of_eq ?_
      simp [Observed.view, System.setFiber, Observed.unfinishedAfter, Observed.leaves,
        Pc.stage, View.give, View.setFiber]
  · refine (Turn.stay _).of_eq ?_
    simp [Observed.view, System.goto, at_, Observed.unfinishedAfter, Observed.leaves, Pc.stage]
  · refine (Turn.stay _).of_eq ?_
    simp only [Observed.view, System.goto, Function.update_self, at_]
    split <;> simp [Observed.unfinishedAfter, Observed.leaves, Pc.stage]

theorem inspect_turn {f : FiberId} {own : Bool} (at_ : (o.system.worker w).pc = .inspect f own)
    (done : o.effect (.inspect w f own) = some o') : Turn (o.view w) (o'.view w) := by
  rcases observe_cases done with ⟨after, idle_fiber, taken, _, rfl⟩
  have staged : (o.view w).stage = some (.back, f, own) :=
    view_stage at_
  change o.system.inspect w f own = some after at taken
  unfold System.inspect at taken
  split at taken
  · rename_i ready
    cases taken
    refine (Turn.ready _ f own staged ready).of_eq ?_
    simp [Observed.view, System.goto, Observed.unfinishedAfter, Observed.leaves, Pc.stage]
  · rename_i unready
    split at taken
    · rename_i finished
      cases own with
      | true =>
          rcases Option.map_eq_some_iff.mp taken with ⟨fiber, reset, rfl⟩
          refine (Turn.reset _ f staged finished).of_eq ?_
          rw [Fiber.resetFunc] at reset
          split at reset
          · cases reset
            simp [Observed.view, System.goto, System.setFiber, Observed.unfinishedAfter,
              Observed.leaves, Pc.stage, View.setFiber]
          · cases reset
      | false =>
          cases taken
          refine (Turn.passed _ f staged finished).of_eq ?_
          simp [Observed.view, System.goto, Observed.unfinishedAfter, Observed.leaves, Pc.stage]
    · rename_i unfinished
      cases taken
      refine (Turn.held _ f own staged unready (Bool.eq_false_iff.mpr unfinished)).of_eq ?_
      rw [dropFuncFiber_goto]
      simp [Observed.view, System.setFiber, Worker.released, Observed.unfinishedAfter,
        Observed.leaves, Pc.stage, View.release, View.setFiber]

theorem switchTo_turn {v : ThreadId} {f : FiberId} {own : Bool} {thread : ThreadId}
    (done : o.effect (.switchTo v f own thread) = some o') : Turn (o.view w) (o'.view w) := by
  rcases observe_cases done with ⟨after, idle_fiber, taken, _, rfl⟩
  cases taken
  refine (Turn.stay _).of_eq ?_
  unfold System.switchTo
  split
  · simp [Observed.view, Observed.unfinishedAfter, Observed.leaves, Act.byRun, Act.site]
  · simp [Observed.view, Observed.unfinishedAfter, Observed.leaves, Act.byRun, Act.site,
      System.schedule, System.push]

theorem newFiber_turn {func : Func} (exclusive : Exclusive o.system)
    (sole : o.system.threads = [w]) (done : o.effect (.newFiber func) = some o') :
    Turn (o.view w) (o'.view w) := by
  rcases observe_cases done with ⟨after, idle_fiber, taken, _, rfl⟩
  cases taken
  refine (Turn.created _ _ func (unnamed_next exclusive sole)).of_eq ?_
  simp [Observed.view, Observed.unfinishedAfter, Observed.leaves, Act.byRun, Act.site,
    System.setFiber, View.give, View.setFiber]

theorem take_turn (at_ : (o.system.worker w).pc = .scan)
    (done : o.effect (.take w) = some o') : Turn (o.view w) (o'.view w) := by
  rcases observe_cases done with ⟨after, idle_fiber, taken, _, rfl⟩
  cases taken
  refine (Turn.stay _).of_eq ?_
  simp only [Observed.view, System.take, System.goto, Function.update_self, at_]
  split <;> simp [Observed.unfinishedAfter, Observed.leaves, Pc.stage]

theorem tickle_turn {next : Next} (at_ : (o.system.worker w).pc = .tickle next)
    (done : o.effect (.tickle w next) = some o') : Turn (o.view w) (o'.view w) := by
  rcases observe_cases done with ⟨after, idle_fiber, taken, _, rfl⟩
  cases taken
  have empty : (o.system.worker w).pc.stage = none := by rw [at_]; rfl
  have still : (if o.system.m_idleThreadCount > 0 then Pc.tickleWrite next else next.pc).stage =
      none := by
    split
    · rfl
    · exact next.pc_stage
  refine (Turn.stay _).of_eq ?_
  simp [Observed.view, System.goto, empty, still, Observed.unfinishedAfter, Observed.leaves]

theorem tickleWrite_turn {next : Next} (at_ : (o.system.worker w).pc = .tickleWrite next)
    (done : o.effect (.tickleWrite w next) = some o') : Turn (o.view w) (o'.view w) := by
  rcases observe_cases done with ⟨after, idle_fiber, taken, _, rfl⟩
  cases taken
  have empty : (o.system.worker w).pc.stage = none := by rw [at_]; rfl
  refine (Turn.stay _).of_eq ?_
  simp [Observed.view, System.goto, empty, next.pc_stage, Observed.unfinishedAfter,
    Observed.leaves]

theorem swapIn_turn {f : FiberId} {own : Bool} (at_ : (o.system.worker w).pc = .swapIn f own)
    (done : o.effect (.swapIn w f own) = some o') : Turn (o.view w) (o'.view w) := by
  rcases observe_cases done with ⟨after, idle_fiber, taken, _, rfl⟩
  rcases Option.map_eq_some_iff.mp taken with ⟨fiber, entered, rfl⟩
  refine (Turn.swapIn _ f own (view_stage at_)).of_eq ?_
  rw [Fiber.swapIn] at entered
  split at entered
  · cases entered
  · cases entered
    simp [Observed.view, System.goto, System.setFiber, Observed.unfinishedAfter,
      Observed.leaves, Pc.stage, View.setFiber]

theorem yieldTo_turn {f : FiberId} {own : Bool} {target : Fibers.State}
    (at_ : (o.system.worker w).pc = .running f own) (chosen : target = .ready ∨ target = .hold)
    (callable : (o.system.fibers f).m_func.isSome = true)
    (done : o.effect (.yieldTo w f own target) = some o') : Turn (o.view w) (o'.view w) := by
  rcases observe_cases done with ⟨after, idle_fiber, taken, _, rfl⟩
  rcases Option.map_eq_some_iff.mp taken with ⟨fiber, yielded, rfl⟩
  refine (Turn.yielded _ f own target (view_stage at_) chosen callable).of_eq ?_
  rw [Fiber.yieldTo] at yielded
  split at yielded
  · cases yielded
    simp [Observed.view, System.goto, System.setFiber, Observed.unfinishedAfter,
      Observed.leaves, Pc.stage, View.leave, View.setFiber, Act.byRun, Act.site]
  · cases yielded

theorem finish_turn {f : FiberId} {own threw : Bool}
    (at_ : (o.system.worker w).pc = .running f own)
    (callable : threw = true ∨ (o.system.fibers f).m_func.isSome = true)
    (done : o.effect (.finish w f own threw) = some o') : Turn (o.view w) (o'.view w) := by
  rcases observe_cases done with ⟨after, idle_fiber, taken, _, rfl⟩
  cases taken
  refine (Turn.finished _ f own threw (view_stage at_) callable).of_eq ?_
  simp [Observed.view, System.finish, System.goto, System.setFiber, Observed.unfinishedAfter,
    Observed.leaves, Pc.stage, View.leave, View.setFiber, Act.byRun, Act.site]

theorem requeue_turn {f : FiberId} {own : Bool} (at_ : (o.system.worker w).pc = .requeue f own)
    (done : o.effect (.requeue w f own) = some o') : Turn (o.view w) (o'.view w) := by
  rcases observe_cases done with ⟨after, idle_fiber, taken, _, rfl⟩
  cases taken
  refine (Turn.requeued _ f own (view_stage at_)).of_eq ?_
  rw [requeue_eq]
  simp only [Observed.view, Function.update_self, Worker.released]
  split <;> simp [Observed.unfinishedAfter, Observed.leaves, Pc.stage, View.release,
    System.push, ScheduleTask.valid, Act.byRun, Act.site]

theorem turn_step {act : Act} (exclusive : Exclusive o.system) (sole : o.system.threads = [w])
    (possible : o.possible act) (done : o.effect act = some o') :
    Turn (o.view w) (o'.view w) := by
  rcases possible with ⟨⟨site, guard⟩, callable⟩
  have only : ∀ v pc, act.site = some (v, pc) → v = w ∧ (o.system.worker v).pc = pc := by
    intro v pc here
    rcases site _ here with ⟨mem, at_⟩
    rw [sole, List.mem_singleton] at mem
    exact ⟨mem, at_⟩
  cases act with
  | start | autoStop | stop | schedule _ | tickleOutside | writeOutside | tickleElsewhere
  | trigger _ | addEvent _ _ _ | drain _ =>
      rcases observe_cases done with ⟨after, idle_fiber, taken, _, rfl⟩
      cases taken
      refine (Turn.stay _).of_eq ?_
      simp [Observed.view, Observed.unfinishedAfter, Observed.leaves, Act.byRun, Act.site,
        System.schedule, System.push]
  | switchTo v f own thread => exact switchTo_turn done
  | newFiber func => exact newFiber_turn exclusive sole done
  | take v =>
      obtain ⟨rfl, at_⟩ := only _ _ rfl
      exact take_turn at_ done
  | tickle v next =>
      obtain ⟨rfl, at_⟩ := only _ _ rfl
      exact tickle_turn at_ done
  | tickleWrite v next =>
      obtain ⟨rfl, at_⟩ := only _ _ rfl
      exact tickleWrite_turn at_ done
  | branch v task =>
      obtain ⟨rfl, at_⟩ := only _ _ rfl
      exact branch_turn exclusive sole at_ done
  | swapIn v f own =>
      obtain ⟨rfl, at_⟩ := only _ _ rfl
      exact swapIn_turn at_ done
  | yieldTo v f own target =>
      obtain ⟨rfl, at_⟩ := only _ _ rfl
      exact yieldTo_turn at_ guard callable done
  | finish v f own threw =>
      obtain ⟨rfl, at_⟩ := only _ _ rfl
      have has : threw = true ∨ (o.system.fibers f).m_func.isSome = true := by
        cases threw with
        | true => exact Or.inl rfl
        | false => exact Or.inr callable
      exact finish_turn at_ has done
  | inspect v f own =>
      obtain ⟨rfl, at_⟩ := only _ _ rfl
      exact inspect_turn at_ done
  | requeue v f own =>
      obtain ⟨rfl, at_⟩ := only _ _ rfl
      exact requeue_turn at_ done
  | swapOut _ _ _ | decrement _ _ _ | drop _ | goIdle _ | checkStopping _ _ | wake _ _ | endDrain _
  | leaveIdle _ _ =>
      rcases observe_cases done with ⟨after, idle_fiber, taken, _, rfl⟩
      rcases walk_step ⟨site, guard⟩ taken rfl with ⟨v, x, active, idle, mem, walk, kept, rfl⟩
      rw [sole, List.mem_singleton] at mem
      subst mem
      refine (Turn.stay _).of_eq ?_
      simp [Observed.view, Observed.unfinishedAfter, Observed.leaves, walk.stage, kept]

def IdleFits (o : Observed) (w : ThreadId) : Prop :=
  (o.system.worker w).pc.countedIdle = false → o.idle_fiber.m_state ≠ .exec

theorem IdleFits.frame (fits : IdleFits o w) (worker : o'.system.worker = o.system.worker)
    (idle : o'.idle_fiber = o.idle_fiber) : IdleFits o' w := by
  unfold IdleFits
  rw [worker, idle]
  exact fits

theorem idle_step {act : Act} (fits : IdleFits o w) (sole : o.system.threads = [w])
    (possible : o.possible act) (done : o.effect act = some o') : IdleFits o' w := by
  rcases possible with ⟨⟨site, _⟩, _⟩
  have only : ∀ v, v ∈ o.system.threads → v = w := by
    intro v mem
    rwa [sole, List.mem_singleton] at mem
  rcases observe_cases done with ⟨after, idle_fiber, taken, idle, rfl⟩
  cases act with
  | start | autoStop | stop | newFiber _ | schedule _ | tickleOutside | writeOutside
  | tickleElsewhere | trigger _ | drain _ =>
      cases taken
      obtain rfl : o.idle_fiber = idle_fiber := Option.some.inj idle
      exact fits.frame rfl rfl
  | goIdle v | endDrain v =>
      cases taken
      rcases site _ rfl with ⟨mem, at_⟩
      obtain rfl := only v mem
      intro elsewhere
      simp [System.goto, Pc.countedIdle] at elsewhere
  | checkStopping v _ | wake v _ =>
      cases taken
      rcases site _ rfl with ⟨mem, at_⟩
      obtain rfl := only v mem
      intro elsewhere
      simp only [System.goto, Function.update_self] at elsewhere
      split at elsewhere
      · cases elsewhere
      · cases elsewhere
  | leaveIdle v term =>
      -- the idle fiber has returned, or is on HOLD
      intro _
      cases term with
      | true =>
          cases idle
          simp [Fiber.finish]
      | false =>
          cases idle
          simp
  | addEvent v _ _ | switchTo v _ _ _ | take v | tickle v _ | tickleWrite v _ | branch v _
  | swapIn v _ _ | yieldTo v _ _ _ | finish v _ _ _ | swapOut v _ _ | decrement v _ _
  | inspect v _ _ | requeue v _ _ | drop v =>
      rcases site _ rfl with ⟨mem, at_⟩
      obtain rfl := only v mem
      have quiet := fits (by rw [at_]; rfl)
      obtain rfl : o.idle_fiber = idle_fiber := Option.some.inj idle
      exact fun _ => quiet

/-- Nobody else can hold a fiber. -/
theorem soleTake_of_sole {s : System} {act : Act} (sole : s.threads = [w]) (able : act.enabled s) :
    s.SoleTake act := by
  cases act with
  | take v =>
      have mem := (able.1 _ rfl).1
      rw [sole, List.mem_singleton] at mem
      intro task _ f _ u mem_u other
      rw [sole, List.mem_singleton] at mem_u
      exact absurd (mem_u.trans mem.symm) other
  | _ => trivial

end Steps

structure Steady (o : Observed) (w : ThreadId) : Prop where
  sole : o.system.threads = [w]
  reached : Reach scheduler System.SoleTake o.system
  reusable : Reusable (o.view w)
  idle : IdleFits o w

theorem reach_steady {o : Observed} (reached : Reach soleWorker anyStep o) :
    ∃ w, Steady o w := by
  apply reached.invariant fun o => ∃ w, Steady o w
  · rintro o ⟨w, rfl⟩
    refine ⟨w, ?_⟩
    constructor
    · rfl
    · exact .start ⟨[w], List.nodup_singleton w, rfl⟩
    · exact Reusable.start w
    · intro _ now
      cases now
  · rintro before act after _ ⟨w, steady⟩ _ moved
    rcases soleWorker_step moved with ⟨possible, done⟩
    have exclusive := reach_exclusive steady.reached
    refine ⟨w, ?_⟩
    constructor
    · rcases observe_cases done with ⟨system, idle_fiber, taken, _, rfl⟩
      exact (effect_follow possible.1 taken).1.trans steady.sole
    · rcases observe_cases done with ⟨system, idle_fiber, taken, _, rfl⟩
      apply steady.reached.extend
      apply Path.single act (soleTake_of_sole steady.sole possible.1)
      exact (if_pos possible.1).trans taken
    · exact steady.reusable.turn (turn_step exclusive steady.sole possible done)
    · exact idle_step steady.idle steady.sole possible done

section Assertions
variable {o : Observed} {w : ThreadId}

theorem asserted_of_effect {act : Act} (taken : (act.effect o.system).isSome = true)
    (idle : (o.idleAfter act).isSome = true) : (o.effect act).isSome = true := by
  rcases Option.isSome_iff_exists.mp taken with ⟨after, taken⟩
  rcases Option.isSome_iff_exists.mp idle with ⟨idle_fiber, idle⟩
  simp [Observed.effect, Observed.observe, taken, idle]

theorem funcBranch_asserted (steady : Steady o w) (func : Func)
    (empty : (o.view w).stage = none) (quiet : ∀ f, (o.system.fibers f).m_state ≠ .exec) :
    (o.system.funcBranch w func).isSome = true := by
  unfold System.funcBranch
  split
  · rename_i f kept
    have spare := steady.reusable.aside kept fun stage mine => by
      rw [empty] at mine
      cases mine
    have resets : (o.system.fibers f).m_state.finished = true ∨
        (o.system.fibers f).m_state = .init := by
      rcases spare.2 with fresh | threw | now
      · exact Or.inr fresh
      · left
        exact congrArg Fibers.State.finished threw
      · exact absurd now (quiet f)
    simp [Fiber.resetFunc, resets]
  · rfl

theorem branch_asserted (steady : Steady o w) (task : Option ScheduleTask)
    (at_ : (o.system.worker w).pc = .branch task) :
    (o.system.branch w task).isSome = true := by
  have quiet : ∀ f, (o.system.fibers f).m_state ≠ .exec := fun f =>
    not_exec (reach_exclusive steady.reached) steady.sole (by rw [at_]; rfl)
  have empty : (o.view w).stage = none := view_stage at_
  cases task with
  | none => rfl
  | some task =>
      simp only [System.branch]
      split
      · rfl
      · split
        · exact funcBranch_asserted steady _ empty quiet
        · rfl

theorem effect_asserted {act : Act} (steady : Steady o w) (possible : o.possible act) :
    (o.effect act).isSome = true := by
  rcases possible with ⟨⟨site, _⟩, _⟩
  have only : ∀ v, v ∈ o.system.threads → v = w := by
    intro v mem
    rwa [steady.sole, List.mem_singleton] at mem
  have fits := steady.reusable.fits
  cases act with
  | branch v task =>
      rcases site _ rfl with ⟨mem, at_⟩
      obtain rfl := only v mem
      exact asserted_of_effect (branch_asserted steady task at_) rfl
  | swapIn v f own =>
      rcases site _ rfl with ⟨mem, at_⟩
      obtain rfl := only v mem
      have waiting : (o.system.fibers f).m_state ≠ .exec :=
        fits .entering f own (view_stage at_)
      apply asserted_of_effect _ rfl
      simp [Act.effect, System.swapIn, Fiber.swapIn, waiting]
  | yieldTo v f own target =>
      rcases site _ rfl with ⟨mem, at_⟩
      obtain rfl := only v mem
      have runs : (o.system.fibers f).m_state = .exec :=
        fits .running f own (view_stage at_)
      apply asserted_of_effect _ rfl
      simp [Act.effect, System.yieldTo, Fiber.yieldTo, runs]
  | inspect v f own =>
      apply asserted_of_effect _ rfl
      simp only [Act.effect, System.inspect]
      split
      · rfl
      · split
        · rename_i finished
          split
          · simp [Fiber.resetFunc, finished]
          · rfl
        · rfl
  | goIdle v =>
      rcases site _ rfl with ⟨mem, at_⟩
      obtain rfl := only v mem
      have waiting := steady.idle (by rw [at_]; rfl)
      apply asserted_of_effect rfl
      simp [Observed.idleAfter, Fiber.swapIn, waiting]
  | leaveIdle v term => cases term <;> exact asserted_of_effect rfl rfl
  | _ => exact asserted_of_effect rfl rfl

end Assertions

/-- With one worker the kept fiber is reused safely. -/
theorem reuse_safe {o : Observed} (reached : Reach soleWorker anyStep o) : ReuseSafe o := by
  rcases reach_steady reached with ⟨w, steady⟩
  have only : ∀ v, v ∈ o.system.threads → v = w := by
    intro v mem
    rwa [steady.sole, List.mem_singleton] at mem
  constructor
  · intro act possible
    exact effect_asserted steady possible
  · intro v mem task f at_ kept
    obtain rfl := only v mem
    have empty : (o.view v).stage = none := view_stage at_
    have spare := steady.reusable.aside kept fun stage mine => by
      rw [empty] at mine
      cases mine
    cases unfinished : o.unfinished f with
    | false => rfl
    | true =>
        have has := (steady.reusable.ended f unfinished).1
        rw [spare.1] at has
        cases has
  · intro v mem at_
    obtain rfl := only v mem
    have tallied := steady.reusable.tallied
    simpa [View.Tallied, Observed.view, at_, Pc.stage] using tallied

/-- A function queues its own fiber and returns; the fiber is entered with
nothing to call, then reused for a function that yields READY. -/
theorem reuse_safe_run :
    ∃ o, run soleWorker { system := { threads := [7] } }
        [.schedule [{ func := some 5 }], .take 7, .branch 7 (some { func := some 5 }),
          .swapIn 7 0 true, .schedule [{ fiber := some 0 }], .finish 7 0 true false,
          .swapOut 7 0 true, .decrement 7 0 true, .inspect 7 0 true, .take 7,
          .branch 7 (some { fiber := some 0 }), .swapIn 7 0 false, .finish 7 0 false true,
          .swapOut 7 0 false, .decrement 7 0 false, .inspect 7 0 false,
          .schedule [{ func := some 6 }], .take 7, .branch 7 (some { func := some 6 }),
          .swapIn 7 0 true, .yieldTo 7 0 true .ready, .swapOut 7 0 true, .decrement 7 0 true,
          .inspect 7 0 true, .requeue 7 0 true] = some o ∧ ReuseSafe o :=
  run_meets anyStep ⟨7, rfl⟩ (by decide) (by decide) fun _ reached => reuse_safe reached

end Ztyco.Scheduler
