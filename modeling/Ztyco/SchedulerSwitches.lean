import Mathlib.Data.List.Perm.Basic
import Ztyco.SchedulerSteps

/-!
`Scheduler::switchTo` and the SchedulerSwicher of scheduler.h: fibers that move between
several schedulers, each with its threads in `run`, every interleaving of their steps. A
thread stays with one scheduler, so `Scheduler::GetThis()` is its scheduler. What a fiber
waits for comes back to the scheduler where it began to wait, as the event contexts and
the hooks' timers have it. A fiber's function is given by what it does with schedulers;
it throws nothing, and a function that is scheduled is a fiber made for it. Against the
runs stands what the text of the function says: a scope's body in its scheduler, what
follows the scope where the scope was entered.
-/

namespace Ztyco.Switching

open Fibers (FiberId)
open Scheduler (ScheduleTask ThreadId takeTask scheduleNoLock)
open Transition

abbrev SchedulerId := Nat

inductive Code where
  | done
  | point (label : Nat) (rest : Code)
  -- addEvent or addTimer, then YieldToHold
  | wait (rest : Code)
  -- YieldToReady
  | ready (rest : Code)
  | switchTo (target : SchedulerId) (thread : ThreadId) (rest : Code)
  -- { SchedulerSwicher sw(target); body }
  | within (target : Option SchedulerId) (body rest : Code)
  deriving DecidableEq, Repr

/-! What the text says. -/

/-- A scheduler, and the thread where the text says which one. -/
structure Place where
  scheduler : SchedulerId
  thread : Option ThreadId
  deriving DecidableEq, Repr

def placeOf (scheduler : SchedulerId) (thread : ThreadId) : Place :=
  ⟨scheduler, if thread = -1 then none else some thread⟩

def Place.switchTo (here : Place) (target : SchedulerId) (thread : ThreadId) : Place :=
  if target = here.scheduler ∧ thread = -1 then here else placeOf target thread

def Place.enter (here : Place) : Option SchedulerId → Place
  | some target => here.switchTo target (-1)
  | none => here

def Code.leaves : Code → Place → Place
  | .done, here => here
  | .point _ rest, here => rest.leaves here
  | .wait rest, here | .ready rest, here => rest.leaves ⟨here.scheduler, none⟩
  | .switchTo target thread rest, here => rest.leaves (here.switchTo target thread)
  | .within target body rest, here =>
      rest.leaves ((body.leaves (here.enter target)).switchTo here.scheduler (-1))

def Code.points : Code → Place → List (Nat × Place)
  | .done, _ => []
  | .point label rest, here => (label, here) :: rest.points here
  | .wait rest, here | .ready rest, here => rest.points ⟨here.scheduler, none⟩
  | .switchTo target thread rest, here => rest.points (here.switchTo target thread)
  | .within target body rest, here =>
      body.points (here.enter target) ++
        rest.points ((body.leaves (here.enter target)).switchTo here.scheduler (-1))

/-! What the schedulers do. -/

/-- `m_caller` of the SchedulerSwicher and what follows its scope. -/
structure Frame where
  m_caller : SchedulerId
  rest : Code
  deriving DecidableEq, Repr

/-- A fiber with what is left of its function. `trace` is history. -/
structure Strand where
  fiber : Fibers.Fiber := {}
  code : Code
  frames : List Frame := []
  trace : List (Nat × SchedulerId × ThreadId) := []
  deriving DecidableEq, Repr

inductive Pc where
  | scan
  | running (f : FiberId)
  -- before the YieldToHold or YieldToReady
  | yielding (f : FiberId) (target : Fibers.State)
  -- the state is set, the context is not saved
  | saving (f : FiberId)
  | returned (f : FiberId)
  deriving DecidableEq, Repr

def Pc.fiber : Pc → Option FiberId
  | .scan => none
  | .running f | .yielding f _ | .saving f | .returned f => some f

structure System where
  queue : SchedulerId → List ScheduleTask
  strand : FiberId → Strand
  worker : ThreadId → Pc := fun _ => .scan
  -- event contexts and timers, each with its fiber and scheduler
  waiting : List (FiberId × SchedulerId) := []

namespace System

def goto (s : System) (w : ThreadId) (pc : Pc) : System :=
  { s with worker := Function.update s.worker w pc }

def setStrand (s : System) (f : FiberId) (strand : Strand) : System :=
  { s with strand := Function.update s.strand f strand }

def setFiber (s : System) (f : FiberId) (fiber : Fibers.Fiber) : System :=
  s.setStrand f { s.strand f with fiber := fiber }

def schedule (s : System) (target : SchedulerId) (task : ScheduleTask) : System :=
  { s with queue := Function.update s.queue target (scheduleNoLock (s.queue target) task).2 }

def await (s : System) (current : SchedulerId) (f : FiberId) : System :=
  { s with waiting := s.waiting ++ [(f, current)] }

def switchTo (s : System) (current : SchedulerId) (w : ThreadId) (f : FiberId)
    (target : SchedulerId) (thread : ThreadId) : System :=
  if current = target ∧ (thread = -1 ∨ thread = w) then s
  else (s.schedule target { fiber := some f, threadId := thread }).goto w (.yielding f .hold)

def exec (s : System) (current : SchedulerId) (w : ThreadId) (f : FiberId) : System :=
  let strand := s.strand f
  match strand.code with
  | .done =>
      match strand.frames with
      | [] => (s.setFiber f (strand.fiber.finish false)).goto w (.saving f)
      -- ~SchedulerSwicher
      | frame :: outer =>
          s.setStrand f
            { strand with code := .switchTo frame.m_caller (-1) frame.rest, frames := outer }
  | .point label rest =>
      s.setStrand f
        { strand with code := rest, trace := strand.trace ++ [(label, current, w)] }
  | .wait rest =>
      ((s.setStrand f { strand with code := rest }).await current f).goto w (.yielding f .hold)
  | .ready rest => (s.setStrand f { strand with code := rest }).goto w (.yielding f .ready)
  | .switchTo target thread rest =>
      (s.setStrand f { strand with code := rest }).switchTo current w f target thread
  -- SchedulerSwicher::SchedulerSwicher
  | .within target body rest =>
      s.setStrand f
        { strand with
          code := match target with
            | some scheduler => .switchTo scheduler (-1) body
            | none => body
          frames := ⟨current, rest⟩ :: strand.frames }

def take (s : System) (current : SchedulerId) (w : ThreadId) : Option System :=
  let (task, left, _) := takeTask w (s.queue current)
  let taken := { s with queue := Function.update s.queue current left }
  match task.bind ScheduleTask.fiber with
  | none => some taken
  | some f =>
      if (s.strand f).fiber.m_state.finished then some taken
      else (s.strand f).fiber.swapIn.map fun fiber => (taken.setFiber f fiber).goto w (.running f)

def inspect (s : System) (current : SchedulerId) (w : ThreadId) (f : FiberId) : System :=
  let m_state := (s.strand f).fiber.m_state
  if m_state = .ready then (s.schedule current { fiber := some f }).goto w .scan
  else if m_state.finished then s.goto w .scan
  else (s.setFiber f { (s.strand f).fiber with m_state := .hold }).goto w .scan

def wake (s : System) (i : Nat) : Option System :=
  s.waiting[i]?.map fun entry =>
    { s with waiting := s.waiting.eraseIdx i }.schedule entry.2 { fiber := some entry.1 }

end System

inductive Act where
  | take (w : ThreadId)
  | exec (w : ThreadId)
  | yield (w : ThreadId)
  | saved (w : ThreadId)
  | inspect (w : ThreadId)
  | wake (i : Nat)
  deriving DecidableEq, Repr

section Machine
variable (threads : List ThreadId) (home : ThreadId → SchedulerId)

def Act.effect (s : System) : Act → Option System
  | .take w => if w ∈ threads ∧ s.worker w = .scan then s.take (home w) w else none
  | .exec w =>
      match s.worker w with
      | .running f => some (s.exec (home w) w f)
      | _ => none
  | .yield w =>
      match s.worker w with
      | .yielding f target => ((s.strand f).fiber.yieldTo target).map fun fiber =>
          (s.setFiber f fiber).goto w (.saving f)
      | _ => none
  | .saved w =>
      match s.worker w with
      | .saving f => some (s.goto w (.returned f))
      | _ => none
  | .inspect w =>
      match s.worker w with
      | .returned f => some (s.inspect (home w) w f)
      | _ => none
  | .wake i => s.wake i

/-- How often a fiber is to be resumed by a thread of a scheduler. -/
def System.pending (s : System) (f : FiberId) (target : SchedulerId) (thread : ThreadId) : Nat :=
  (s.queue target).countP (fun task => task.fiber = some f ∧ task.threadId = thread) +
    if thread = -1 then s.waiting.count (f, target) else 0

structure Starts (program : FiberId → Code) (origin : FiberId → SchedulerId × ThreadId)
    (s : System) : Prop where
  strand : s.strand = fun f => { code := program f }
  worker : s.worker = fun _ => .scan
  waiting : s.waiting = []
  single : ∀ f target thread, s.pending f target thread ≤
    if (target, thread) = origin f then 1 else 0

def switching (program : FiberId → Code) (origin : FiberId → SchedulerId × ThreadId) :
    Machine System Act where
  initial := Starts program origin
  step := fun s act => act.effect threads home s

def clear (s : System) : Act → Bool
  | .take w =>
      match (takeTask w (s.queue (home w))).1.bind ScheduleTask.fiber with
      | some f => threads.all fun v => (s.worker v).fiber != some f
      | none => true
  | .exec _ | .yield _ | .saved _ | .inspect _ | .wake _ => true

/-- No thread takes a fiber that another one has not done with. -/
def Clear (s : System) (act : Act) : Prop := clear threads home s act = true

instance Clear.decidable (s : System) (act : Act) : Decidable (Clear threads home s act) :=
  inferInstanceAs (Decidable (clear threads home s act = true))

end Machine

/-! Pending resumptions. -/

section Pending
variable (s : System) (f g : FiberId) (scheduler : SchedulerId) (thread : ThreadId)

@[simp] theorem pending_goto (w : ThreadId) (pc : Pc) :
    (s.goto w pc).pending g scheduler thread = s.pending g scheduler thread := rfl

@[simp] theorem pending_setStrand (strand : Strand) :
    (s.setStrand f strand).pending g scheduler thread = s.pending g scheduler thread := rfl

@[simp] theorem pending_setFiber (fiber : Fibers.Fiber) :
    (s.setFiber f fiber).pending g scheduler thread = s.pending g scheduler thread := rfl

theorem pending_schedule (target : SchedulerId) (at' : ThreadId) :
    (s.schedule target { fiber := some f, threadId := at' }).pending g scheduler thread =
      s.pending g scheduler thread +
        if g = f ∧ scheduler = target ∧ thread = at' then 1 else 0 := by
  by_cases here : scheduler = target
  · subst here
    simp only [System.pending, System.schedule, Function.update_self, scheduleNoLock,
      ScheduleTask.valid, Option.isSome_some, Bool.true_or, if_true, List.countP_append,
      List.countP_singleton]
    by_cases same : g = f ∧ thread = at'
    · rcases same with ⟨rfl, rfl⟩
      simp
      omega
    · have other : ¬ (f = g ∧ at' = thread) := fun equal => same ⟨equal.1.symm, equal.2.symm⟩
      simp [same, other]
  · simp [System.pending, System.schedule, here]

theorem pending_await (current : SchedulerId) :
    (s.await current f).pending g scheduler thread =
      s.pending g scheduler thread +
        if g = f ∧ scheduler = current ∧ thread = -1 then 1 else 0 := by
  by_cases any : thread = -1
  · subst any
    by_cases same : g = f ∧ scheduler = current
    · rcases same with ⟨rfl, rfl⟩
      simp [System.pending, System.await]
      omega
    · have other : ¬ (f, current) = (g, scheduler) := fun equal => by
        cases equal
        exact same ⟨rfl, rfl⟩
      simp [System.pending, System.await, same, other]
  · simp [System.pending, System.await, any]

/-- A wake-up is only passed on. -/
theorem pending_wake {s after : System} {i : Nat} (woken : s.wake i = some after)
    (g : FiberId) (scheduler : SchedulerId) (thread : ThreadId) :
    after.pending g scheduler thread = s.pending g scheduler thread := by
  unfold System.wake at woken
  cases found : s.waiting[i]? with
  | none =>
      rw [found] at woken
      cases woken
  | some entry =>
      rw [found] at woken
      cases woken
      rcases entry with ⟨f, current⟩
      rw [pending_schedule]
      rcases List.getElem?_eq_some_iff.mp found with ⟨bound, there⟩
      have whole := (List.getElem_cons_eraseIdx_perm bound).count_eq (g, scheduler)
      rw [there, List.count_cons] at whole
      by_cases any : thread = -1
      · subst any
        by_cases same : g = f ∧ scheduler = current
        · rcases same with ⟨rfl, rfl⟩
          simp [System.pending] at whole ⊢
          omega
        · have other : ¬ (f, current) = (g, scheduler) := fun equal => by
            cases equal
            exact same ⟨rfl, rfl⟩
          simp [System.pending, same, other] at whole ⊢
          omega
      · simp [System.pending, any]

/-- A take takes one resumption of the fiber it takes. -/
theorem pending_take (s : System) (current : SchedulerId) (w : ThreadId) :
    (∃ task left tickle_me, takeTask w (s.queue current) = (some task, left, tickle_me) ∧
      task.mayRun w = true ∧ ∀ g scheduler thread, s.pending g scheduler thread =
        ({ s with queue := Function.update s.queue current left } : System).pending g scheduler
            thread +
          if task.fiber = some g ∧ scheduler = current ∧ thread = task.threadId then 1 else 0) ∨
    ∃ tickle_me, takeTask w (s.queue current) = (none, s.queue current, tickle_me) := by
  rcases Scheduler.takeTask_cases w (s.queue current) with
    ⟨skipped, task, rest, queue, runs, _, found⟩ | ⟨_, found⟩
  · refine Or.inl ⟨task, skipped ++ rest, _, found, runs, ?_⟩
    intro g scheduler thread
    by_cases here : scheduler = current
    · subst here
      simp only [System.pending, Function.update_self, queue, List.countP_append,
        List.countP_cons]
      by_cases same : task.fiber = some g ∧ task.threadId = thread
      · rcases same with ⟨mine, rfl⟩
        simp [mine]
        omega
      · have other : ¬ (task.fiber = some g ∧ thread = task.threadId) :=
          fun equal => same ⟨equal.1, equal.2.symm⟩
        simp [same, other]
    · simp [System.pending, here]
  · exact Or.inr ⟨_, found⟩

end Pending

/-! What is left of a fiber. -/

def remaining : List Frame → Code → Place → List (Nat × Place)
  | [], code, here => code.points here
  | frame :: outer, code, here =>
      code.points here ++
        remaining outer frame.rest ((code.leaves here).switchTo frame.m_caller (-1))

def Strand.remaining (strand : Strand) (here : Place) : List (Nat × Place) :=
  Switching.remaining strand.frames strand.code here

theorem remaining_rest {code rest : Code} {here there : Place}
    (points : code.points here = rest.points there)
    (leaves : code.leaves here = rest.leaves there) (frames : List Frame) :
    remaining frames code here = remaining frames rest there := by
  cases frames with
  | nil => exact points
  | cons frame outer => rw [remaining, remaining, points, leaves]

theorem remaining_point (frames : List Frame) (label : Nat) (rest : Code) (here : Place) :
    remaining frames (.point label rest) here = (label, here) :: remaining frames rest here := by
  cases frames with
  | nil => rfl
  | cons frame outer => rfl

theorem remaining_within (frames : List Frame) (target : Option SchedulerId) (body rest : Code)
    (here : Place) :
    remaining frames (.within target body rest) here =
      remaining (⟨here.scheduler, rest⟩ :: frames)
        (match target with
          | some scheduler => .switchTo scheduler (-1) body
          | none => body) here := by
  cases target with
  | none =>
      cases frames with
      | nil => rfl
      | cons frame outer => exact List.append_assoc _ _ _
  | some scheduler =>
      cases frames with
      | nil => rfl
      | cons frame outer => exact List.append_assoc _ _ _

theorem remaining_done (frame : Frame) (outer : List Frame) (here : Place) :
    remaining (frame :: outer) .done here =
      remaining outer (.switchTo frame.m_caller (-1) frame.rest) here := by
  cases outer with
  | nil => rfl
  | cons next others => rfl

def Agrees (entry : Nat × SchedulerId × ThreadId) (point : Nat × Place) : Prop :=
  entry.1 = point.1 ∧ entry.2.1 = point.2.scheduler ∧
    ∀ thread, point.2.thread = some thread → entry.2.2 = thread

def Lexical (points : List (Nat × Place)) (strand : Strand) (here : Place) : Prop :=
  ∃ before, points = before ++ strand.remaining here ∧ List.Forall₂ Agrees strand.trace before

theorem Lexical.move {points : List (Nat × Place)} {strand next : Strand} {here there : Place}
    (lexical : Lexical points strand here) (trace : next.trace = strand.trace)
    (left : strand.remaining here = next.remaining there) : Lexical points next there := by
  rcases lexical with ⟨before, whole, agrees⟩
  exact ⟨before, by rw [whole, left], by rw [trace]; exact agrees⟩

/-! Where a fiber is. -/

def Unscheduled (s : System) (f : FiberId) : Prop :=
  ∀ scheduler thread, s.pending f scheduler thread = 0

def Awaits (s : System) (f : FiberId) (here : Place) : Prop :=
  ∃ target at', here = placeOf target at' ∧ ∀ scheduler thread,
    s.pending f scheduler thread = if scheduler = target ∧ thread = at' then 1 else 0

def Free (s : System) (f : FiberId) : Prop := ∀ v, (s.worker v).fiber ≠ some f

def Alone (s : System) (f : FiberId) (w : ThreadId) : Prop :=
  ∀ v, v ≠ w → (s.worker v).fiber ≠ some f

/-- How a fiber that leaves its thread with this state comes back. -/
def Goes (s : System) (f : FiberId) (current : SchedulerId) (here : Place) :
    Fibers.State → Prop
  | .hold => Awaits s f here
  | .ready => Unscheduled s f ∧ here = ⟨current, none⟩
  | .term | .except => Unscheduled s f
  | .init | .exec => False

section Invariant
variable (home : ThreadId → SchedulerId)

inductive Sits (s : System) (f : FiberId) (here : Place) : Prop where
  | away (none : Unscheduled s f) (free : Free s f)
      (still : (s.strand f).fiber.m_state ≠ .exec)
  | queued (awaits : Awaits s f here) (free : Free s f)
      (still : (s.strand f).fiber.m_state ≠ .exec)
      (live : (s.strand f).fiber.m_state.finished = false)
  | running (w : ThreadId) (pc : s.worker w = .running f) (alone : Alone s f w)
      (none : Unscheduled s f) (exec : (s.strand f).fiber.m_state = .exec)
      (scheduler : here.scheduler = home w) (thread : ∀ at', here.thread = some at' → w = at')
  | yielding (w : ThreadId) (target : Fibers.State) (pc : s.worker w = .yielding f target)
      (alone : Alone s f w) (exec : (s.strand f).fiber.m_state = .exec)
      (waits : target = .hold ∨ target = .ready) (goes : Goes s f (home w) here target)
  | leaving (w : ThreadId) (pc : s.worker w = .saving f ∨ s.worker w = .returned f)
      (alone : Alone s f w) (goes : Goes s f (home w) here (s.strand f).fiber.m_state)

structure Kept (points : List (Nat × Place)) (s : System) (f : FiberId) (here : Place) :
    Prop where
  lexical : Lexical points (s.strand f) here
  sits : Sits home s f here
  ended : (s.strand f).fiber.m_state.finished = true →
    (s.strand f).code = .done ∧ (s.strand f).frames = []

end Invariant

/-! One step. -/

structure Elsewhere (s after : System) (w : ThreadId) (f : FiberId) : Prop where
  strand : ∀ g, g ≠ f → after.strand g = s.strand g
  pending : ∀ g, g ≠ f → ∀ scheduler thread,
    after.pending g scheduler thread = s.pending g scheduler thread
  worker : ∀ v, v ≠ w → after.worker v = s.worker v
  hand : ∀ g, g ≠ f → (after.worker w).fiber ≠ some g

section Steps
variable {home : ThreadId → SchedulerId} {s after : System} {f g : FiberId} {w : ThreadId}
  {points : List (Nat × Place)} {here : Place}

theorem Unscheduled.congr (none : Unscheduled s f)
    (pending : ∀ scheduler thread, after.pending f scheduler thread =
      s.pending f scheduler thread) : Unscheduled after f :=
  fun scheduler thread => (pending scheduler thread).trans (none scheduler thread)

theorem Awaits.congr (awaits : Awaits s f here)
    (pending : ∀ scheduler thread, after.pending f scheduler thread =
      s.pending f scheduler thread) : Awaits after f here := by
  rcases awaits with ⟨target, at', place, once⟩
  exact ⟨target, at', place, fun scheduler thread =>
    (pending scheduler thread).trans (once scheduler thread)⟩

theorem Goes.congr {current : SchedulerId} {m_state : Fibers.State}
    (goes : Goes s f current here m_state)
    (pending : ∀ scheduler thread, after.pending f scheduler thread =
      s.pending f scheduler thread) : Goes after f current here m_state := by
  cases m_state with
  | hold => exact Awaits.congr goes pending
  | ready => exact ⟨goes.1.congr pending, goes.2⟩
  | term | except => exact Unscheduled.congr goes pending
  | init | exec => exact goes

theorem Free.alone (free : Free s f) (w : ThreadId) : Alone s f w := fun v _ => free v

theorem Alone.congr (alone : Alone s f w) (worker : ∀ v, v ≠ w → after.worker v = s.worker v) :
    Alone after f w := by
  intro v other
  rw [worker v other]
  exact alone v other

theorem Alone.free (alone : Alone s f w) (worker : ∀ v, v ≠ w → after.worker v = s.worker v)
    (hand : (after.worker w).fiber = none) : Free after f := by
  intro v
  by_cases same : v = w
  · rw [same, hand]
    intro held
    cases held
  · rw [worker v same]
    exact alone v same

/-- A fiber is where it was while its strand, its resumptions and its thread are. -/
theorem Kept.frame (kept : Kept home points s g here) (strand : after.strand g = s.strand g)
    (pending : ∀ scheduler thread,
      after.pending g scheduler thread = s.pending g scheduler thread)
    (worker : ∀ v, (s.worker v).fiber = some g ∨ (after.worker v).fiber = some g →
      after.worker v = s.worker v) : Kept home points after g here := by
  have holds : ∀ v pc, s.worker v = pc → pc.fiber = some g → after.worker v = pc := by
    intro v pc found mine
    rw [worker v (Or.inl (by rw [found]; exact mine)), found]
  have back : ∀ v, (after.worker v).fiber = some g → (s.worker v).fiber = some g := by
    intro v held
    rw [← worker v (Or.inr held)]
    exact held
  have alone : ∀ v, Alone s g v → Alone after g v :=
    fun v alone u away held => alone u away (back u held)
  have free : Free s g → Free after g := fun free v held => free v (back v held)
  constructor
  · rw [strand]
    exact kept.lexical
  · rcases kept.sits with ⟨none, unheld, still⟩ | ⟨awaits, unheld, still, live⟩ |
      ⟨v, pc, only, none, exec, scheduler, thread⟩ | ⟨v, target, pc, only, exec, waits, goes⟩ |
      ⟨v, pc, only, goes⟩
    · exact .away (none.congr pending) (free unheld) (by rw [strand]; exact still)
    · exact .queued (awaits.congr pending) (free unheld) (by rw [strand]; exact still)
        (by rw [strand]; exact live)
    · exact .running v (holds v _ pc rfl) (alone v only) (none.congr pending)
        (by rw [strand]; exact exec) scheduler thread
    · exact .yielding v target (holds v _ pc rfl) (alone v only) (by rw [strand]; exact exec)
        waits (goes.congr pending)
    · refine .leaving v ?_ (alone v only) (by rw [strand]; exact goes.congr pending)
      exact pc.imp (fun pc => holds v _ pc rfl) fun pc => holds v _ pc rfl
  · rw [strand]
    exact kept.ended

theorem Elsewhere.kept (elsewhere : Elsewhere s after w f) (other : g ≠ f)
    (hand : (s.worker w).fiber ≠ some g) (kept : Kept home points s g here) :
    Kept home points after g here := by
  refine kept.frame (elsewhere.strand g other) (elsewhere.pending g other) ?_
  intro v held
  by_cases same : v = w
  · subst same
    exact absurd held (not_or.mpr ⟨hand, elsewhere.hand g other⟩)
  · exact elsewhere.worker v same

theorem awaits_schedule (none : Unscheduled s f) (target : SchedulerId) (at' : ThreadId) :
    Awaits (s.schedule target { fiber := some f, threadId := at' }) f (placeOf target at') := by
  refine ⟨target, at', rfl, fun scheduler thread => ?_⟩
  rw [pending_schedule, none, Nat.zero_add]
  simp

theorem schedule_other (other : g ≠ f) (target scheduler : SchedulerId) (at' thread : ThreadId) :
    (s.schedule target { fiber := some f, threadId := at' }).pending g scheduler thread =
      s.pending g scheduler thread := by
  rw [pending_schedule, if_neg fun equal => other equal.1, Nat.add_zero]

theorem elsewhere_of (strand : ∀ g, g ≠ f → after.strand g = s.strand g)
    (pending : ∀ g, g ≠ f → ∀ scheduler thread,
      after.pending g scheduler thread = s.pending g scheduler thread)
    {pc : Pc} (worker : after.worker = Function.update s.worker w pc)
    (mine : pc.fiber = some f ∨ pc.fiber = none) : Elsewhere s after w f where
  strand := strand
  pending := pending
  worker := fun v other => by rw [worker, Function.update_of_ne other]
  hand := by
    intro g other
    rw [worker, Function.update_self]
    rcases mine with mine | mine
    · rw [mine]
      exact fun held => other (Option.some.inj held).symm
    · rw [mine]
      intro held
      cases held

theorem setStrand_other (other : g ≠ f) (strand : Strand) :
    (s.setStrand f strand).strand g = s.strand g := by
  simp [System.setStrand, other]

@[simp] theorem setStrand_self (strand : Strand) : (s.setStrand f strand).strand f = strand := by
  simp [System.setStrand]

@[simp] theorem setFiber_self (fiber : Fibers.Fiber) :
    (s.setFiber f fiber).strand f = { s.strand f with fiber := fiber } :=
  setStrand_self _

@[simp] theorem goto_strand (v : ThreadId) (pc : Pc) : (s.goto v pc).strand = s.strand := rfl

@[simp] theorem goto_self (pc : Pc) : (s.goto w pc).worker w = pc := by
  simp [System.goto]

theorem goto_other {v : ThreadId} (other : v ≠ w) (pc : Pc) :
    (s.goto w pc).worker v = s.worker v := by
  simp [System.goto, other]

theorem elsewhere_exec (pc : s.worker w = .running f) (current : SchedulerId) :
    Elsewhere s (s.exec current w f) w f := by
  have stays : s.worker = Function.update s.worker w (.running f) := by
    rw [← pc, Function.update_eq_self]
  cases code : (s.strand f).code with
  | done =>
      cases frames : (s.strand f).frames with
      | nil =>
          simp only [System.exec, code, frames]
          exact elsewhere_of (fun g other => setStrand_other other _) (fun _ _ _ _ => rfl) rfl
            (Or.inl rfl)
      | cons frame outer =>
          simp only [System.exec, code, frames]
          exact elsewhere_of (fun g other => setStrand_other other _) (fun _ _ _ _ => rfl) stays
            (Or.inl rfl)
  | point label rest =>
      simp only [System.exec, code]
      exact elsewhere_of (fun g other => setStrand_other other _) (fun _ _ _ _ => rfl) stays
        (Or.inl rfl)
  | wait rest =>
      simp only [System.exec, code]
      refine elsewhere_of (fun g other => setStrand_other other _) ?_ rfl (Or.inl rfl)
      intro g other scheduler thread
      have waited := pending_await s f g scheduler thread current
      rw [if_neg fun equal => other equal.1] at waited
      exact waited
  | ready rest =>
      simp only [System.exec, code]
      exact elsewhere_of (fun g other => setStrand_other other _) (fun _ _ _ _ => rfl) rfl
        (Or.inl rfl)
  | switchTo target thread rest =>
      simp only [System.exec, code, System.switchTo]
      split
      · exact elsewhere_of (fun g other => setStrand_other other _) (fun _ _ _ _ => rfl) stays
          (Or.inl rfl)
      · refine elsewhere_of (fun g other => setStrand_other other _) ?_ rfl (Or.inl rfl)
        intro g other scheduler at'
        exact schedule_other other target scheduler thread at'
  | within target body rest =>
      simp only [System.exec, code]
      exact elsewhere_of (fun g other => setStrand_other other _) (fun _ _ _ _ => rfl) stays
        (Or.inl rfl)

theorem Alone.eq {v : ThreadId} (alone : Alone s f v) (held : (s.worker w).fiber = some f) :
    w = v :=
  Classical.byContradiction fun other => alone w other held

theorem Sits.of_running (sits : Sits home s f here) (pc : s.worker w = .running f) :
    Alone s f w ∧ Unscheduled s f ∧ (s.strand f).fiber.m_state = .exec ∧
      here.scheduler = home w ∧ ∀ at', here.thread = some at' → w = at' := by
  have held : (s.worker w).fiber = some f := by rw [pc]; rfl
  rcases sits with ⟨_, free, _⟩ | ⟨_, free, _, _⟩ | ⟨v, _, alone, none, exec, scheduler, thread⟩ |
    ⟨v, target, other, alone, _, _, _⟩ | ⟨v, other, alone, _⟩
  · exact absurd held (free w)
  · exact absurd held (free w)
  · cases alone.eq held
    exact ⟨alone, none, exec, scheduler, thread⟩
  · cases alone.eq held
    rw [pc] at other
    cases other
  · cases alone.eq held
    rw [pc] at other
    rcases other with other | other <;> cases other

theorem Sits.of_yielding {target : Fibers.State} (sits : Sits home s f here)
    (pc : s.worker w = .yielding f target) :
    Alone s f w ∧ (s.strand f).fiber.m_state = .exec ∧ (target = .hold ∨ target = .ready) ∧
      Goes s f (home w) here target := by
  have held : (s.worker w).fiber = some f := by rw [pc]; rfl
  rcases sits with ⟨_, free, _⟩ | ⟨_, free, _, _⟩ | ⟨v, other, alone, _, _, _, _⟩ |
    ⟨v, found, other, alone, exec, waits, goes⟩ | ⟨v, other, alone, _⟩
  · exact absurd held (free w)
  · exact absurd held (free w)
  · cases alone.eq held
    rw [pc] at other
    cases other
  · cases alone.eq held
    rw [pc] at other
    cases other
    exact ⟨alone, exec, waits, goes⟩
  · cases alone.eq held
    rw [pc] at other
    rcases other with other | other <;> cases other

theorem Sits.of_leaving (sits : Sits home s f here)
    (pc : s.worker w = .saving f ∨ s.worker w = .returned f) :
    Alone s f w ∧ Goes s f (home w) here (s.strand f).fiber.m_state := by
  have held : (s.worker w).fiber = some f := by rcases pc with pc | pc <;> rw [pc] <;> rfl
  rcases sits with ⟨_, free, _⟩ | ⟨_, free, _, _⟩ | ⟨v, other, alone, _, _, _, _⟩ |
    ⟨v, found, other, alone, _, _, _⟩ | ⟨v, _, alone, goes⟩
  · exact absurd held (free w)
  · exact absurd held (free w)
  · cases alone.eq held
    rw [other] at pc
    rcases pc with pc | pc <;> cases pc
  · cases alone.eq held
    rw [other] at pc
    rcases pc with pc | pc <;> cases pc
  · cases alone.eq held
    exact ⟨alone, goes⟩

theorem kept_stays {there : Place} (kept : Kept home points s f here)
    (pc : s.worker w = .running f) {strand : Strand} (fiber : strand.fiber = (s.strand f).fiber)
    (lexical : Lexical points strand there) (scheduler : there.scheduler = home w)
    (thread : ∀ at', there.thread = some at' → w = at') :
    Kept home points (s.setStrand f strand) f there := by
  rcases kept.sits.of_running pc with ⟨alone, none, exec, _, _⟩
  constructor
  · rw [setStrand_self]
    exact lexical
  · refine .running w pc alone none ?_ scheduler thread
    rw [setStrand_self, fiber]
    exact exec
  · rw [setStrand_self, fiber, exec]
    intro finished
    cases finished

/-- A fiber that is about to yield, with what is left of its function. -/
theorem kept_yields {there : Place} {target : Fibers.State} {rest : Code}
    (kept : Kept home points s f here) (pc : s.worker w = .running f)
    (left : (s.strand f).remaining here = remaining (s.strand f).frames rest there)
    (strand : after.strand f = { s.strand f with code := rest })
    (worker : after.worker = Function.update s.worker w (.yielding f target))
    (waits : target = .hold ∨ target = .ready) (goes : Goes after f (home w) there target) :
    Kept home points after f there := by
  rcases kept.sits.of_running pc with ⟨alone, _, exec, _, _⟩
  have away : ∀ v, v ≠ w → after.worker v = s.worker v := fun v other => by
    rw [worker, Function.update_of_ne other]
  constructor
  · rw [strand]
    exact kept.lexical.move rfl left
  · refine .yielding w target ?_ (alone.congr away) ?_ waits goes
    · rw [worker, Function.update_self]
    · rw [strand]
      exact exec
  · rw [strand]
    intro finished
    change (s.strand f).fiber.m_state.finished = true at finished
    rw [exec] at finished
    cases finished

theorem kept_saves (kept : Kept home points s f here) (alone : Alone s f w)
    {fiber : Fibers.Fiber} (goes : Goes s f (home w) here fiber.m_state)
    (ended : fiber.m_state.finished = true →
      (s.strand f).code = .done ∧ (s.strand f).frames = []) :
    Kept home points ((s.setFiber f fiber).goto w (.saving f)) f here := by
  constructor
  · rw [goto_strand, setFiber_self]
    exact kept.lexical.move rfl rfl
  · refine .leaving w (Or.inl (goto_self _)) (alone.congr fun v other => goto_other other _) ?_
    rw [goto_strand, setFiber_self]
    exact goes
  · rw [goto_strand, setFiber_self]
    exact ended

theorem switchTo_same {target : SchedulerId} {at' : ThreadId}
    (same : home w = target ∧ (at' = -1 ∨ at' = w)) (scheduler : here.scheduler = home w)
    (thread : ∀ other, here.thread = some other → w = other) :
    (here.switchTo target at').scheduler = home w ∧
      ∀ other, (here.switchTo target at').thread = some other → w = other := by
  unfold Place.switchTo
  by_cases stays : target = here.scheduler ∧ at' = -1
  · rw [if_pos stays]
    exact ⟨scheduler, thread⟩
  · rw [if_neg stays]
    refine ⟨same.1.symm, fun other pinned => ?_⟩
    rcases same with ⟨rfl, rfl | rfl⟩
    · exact absurd ⟨scheduler.symm, rfl⟩ stays
    · unfold placeOf at pinned
      by_cases any : at' = -1
      · rw [if_pos any] at pinned
        cases pinned
      · rw [if_neg any] at pinned
        exact Option.some.inj pinned

theorem kept_exec (kept : Kept home points s f here) (pc : s.worker w = .running f) :
    ∃ there, Kept home points (s.exec (home w) w f) f there := by
  rcases kept.sits.of_running pc with ⟨alone, none, exec, scheduler, thread⟩
  have left : (s.strand f).remaining here =
      remaining (s.strand f).frames (s.strand f).code here := rfl
  cases code : (s.strand f).code with
  | done =>
      cases frames : (s.strand f).frames with
      | nil =>
          simp only [System.exec, code, frames]
          exact ⟨here, kept_saves kept alone none fun _ => ⟨code, frames⟩⟩
      | cons frame outer =>
          simp only [System.exec, code, frames]
          refine ⟨here, kept_stays kept pc rfl (kept.lexical.move rfl ?_) scheduler thread⟩
          rw [left, code, frames, remaining_done]
          rfl
  | point label rest =>
      simp only [System.exec, code]
      refine ⟨here, kept_stays kept pc rfl ?_ scheduler thread⟩
      rcases kept.lexical with ⟨before, whole, agrees⟩
      refine ⟨before ++ [(label, here)], ?_, ?_⟩
      · rw [whole, left, code, remaining_point, List.append_assoc]
        rfl
      · exact List.rel_append agrees
          (.cons ⟨rfl, scheduler.symm, thread⟩ .nil)
  | wait rest =>
      have rests : (s.strand f).remaining here =
          remaining (s.strand f).frames rest ⟨here.scheduler, .none⟩ := by
        rw [left, code]
        exact remaining_rest (by rfl) (by rfl) _
      simp only [System.exec, code]
      refine ⟨_, kept_yields kept pc rests (setStrand_self _) rfl (Or.inl rfl) ?_⟩
      refine ⟨home w, -1, by rw [scheduler]; rfl, fun target at' => ?_⟩
      have waited := pending_await (s.setStrand f { s.strand f with code := rest }) f f target at'
        (home w)
      rw [pending_setStrand, none, Nat.zero_add] at waited
      simpa using waited
  | ready rest =>
      have rests : (s.strand f).remaining here =
          remaining (s.strand f).frames rest ⟨here.scheduler, .none⟩ := by
        rw [left, code]
        exact remaining_rest (by rfl) (by rfl) _
      simp only [System.exec, code]
      exact ⟨_, kept_yields kept pc rests (setStrand_self _) rfl (Or.inr rfl)
        ⟨none, by rw [scheduler]⟩⟩
  | switchTo target at' rest =>
      have rests : (s.strand f).remaining here =
          remaining (s.strand f).frames rest (here.switchTo target at') := by
        rw [left, code]
        exact remaining_rest (by rfl) (by rfl) _
      simp only [System.exec, code, System.switchTo]
      refine ⟨here.switchTo target at', ?_⟩
      split
      · rename_i same
        rcases switchTo_same same scheduler thread with ⟨there, pinned⟩
        exact kept_stays kept pc rfl (kept.lexical.move rfl rests) there pinned
      · rename_i other
        refine kept_yields kept pc rests (setStrand_self _) rfl (Or.inl rfl) ?_
        have place : here.switchTo target at' = placeOf target at' := by
          refine if_neg fun same => other ⟨?_, Or.inl same.2⟩
          rw [same.1, scheduler]
        rw [place]
        exact awaits_schedule none target at'
  | within target body rest =>
      simp only [System.exec, code]
      refine ⟨here, kept_stays kept pc rfl (kept.lexical.move rfl ?_) scheduler thread⟩
      rw [left, code, remaining_within, scheduler]
      rfl

theorem kept_yield {target : Fibers.State} {fiber : Fibers.Fiber}
    (kept : Kept home points s f here) (pc : s.worker w = .yielding f target)
    (yields : (s.strand f).fiber.yieldTo target = some fiber) :
    Kept home points ((s.setFiber f fiber).goto w (.saving f)) f here := by
  rcases kept.sits.of_yielding pc with ⟨alone, exec, waits, goes⟩
  rw [Fibers.Fiber.yieldTo, if_pos exec] at yields
  cases yields
  refine kept_saves kept alone goes fun finished => ?_
  rcases waits with rfl | rfl <;> cases finished

theorem kept_saved (kept : Kept home points s f here) (pc : s.worker w = .saving f) :
    Kept home points (s.goto w (.returned f)) f here := by
  rcases kept.sits.of_leaving (Or.inl pc) with ⟨alone, goes⟩
  exact ⟨kept.lexical, .leaving w (Or.inr (goto_self _))
    (alone.congr fun v other => goto_other other _) goes, kept.ended⟩

theorem kept_inspect (kept : Kept home points s f here) (pc : s.worker w = .returned f) :
    Kept home points (s.inspect (home w) w f) f here := by
  rcases kept.sits.of_leaving (Or.inr pc) with ⟨alone, goes⟩
  have free : ∀ {after : System}, after.worker = Function.update s.worker w .scan →
      Free after f := by
    intro after worker
    refine alone.free (fun v other => ?_) ?_
    · rw [worker, Function.update_of_ne other]
    · rw [worker, Function.update_self]
      rfl
  cases m_state : (s.strand f).fiber.m_state with
  | ready =>
      rw [m_state] at goes
      simp only [System.inspect, m_state, if_true]
      refine ⟨kept.lexical, .queued ?_ (free rfl) ?_ ?_, kept.ended⟩
      · rw [goes.2]
        exact awaits_schedule goes.1 (home w) (-1)
      · change (s.strand f).fiber.m_state ≠ .exec
        rw [m_state]
        exact Fibers.State.noConfusion
      · change (s.strand f).fiber.m_state.finished = false
        rw [m_state]
        rfl
  | term | except =>
      rw [m_state] at goes
      simp only [System.inspect, m_state]
      refine ⟨kept.lexical, .away goes (free rfl) ?_, kept.ended⟩
      change (s.strand f).fiber.m_state ≠ .exec
      rw [m_state]
      exact Fibers.State.noConfusion
  | hold =>
      rw [m_state] at goes
      simp only [System.inspect, m_state]
      refine ⟨?_, .queued goes (free rfl) ?_ ?_, ?_⟩
      · change Lexical points ((s.setFiber f _).strand f) here
        rw [setFiber_self]
        exact kept.lexical.move rfl rfl
      · change ((s.setFiber f _).strand f).fiber.m_state ≠ .exec
        rw [setFiber_self]
        exact Fibers.State.noConfusion
      · change ((s.setFiber f _).strand f).fiber.m_state.finished = false
        rw [setFiber_self]
        rfl
      · change ((s.setFiber f _).strand f).fiber.m_state.finished = true → _
        rw [setFiber_self]
        intro finished
        cases finished
  | init | exec =>
      rw [m_state] at goes
      exact goes.elim

theorem elsewhere_inspect (current : SchedulerId) :
    Elsewhere s (s.inspect current w f) w f := by
  unfold System.inspect
  dsimp only
  split
  · exact elsewhere_of (fun _ _ => rfl)
      (fun g other scheduler thread => schedule_other other current scheduler (-1) thread) rfl
      (Or.inr rfl)
  · split
    · exact elsewhere_of (fun _ _ => rfl) (fun _ _ _ _ => rfl) rfl (Or.inr rfl)
    · exact elsewhere_of (fun g other => setStrand_other other _) (fun _ _ _ _ => rfl) rfl
        (Or.inr rfl)

theorem kept_taken {task : ScheduleTask} {left : List ScheduleTask}
    (kept : Kept home points s f here) (free : Free s f) (mine : task.fiber = some f)
    (pending : ∀ g scheduler thread, s.pending g scheduler thread =
      ({ s with queue := Function.update s.queue (home w) left } : System).pending g scheduler
          thread +
        if task.fiber = some g ∧ scheduler = home w ∧ thread = task.threadId then 1 else 0) :
    (s.strand f).fiber.m_state ≠ .exec ∧ (s.strand f).fiber.m_state.finished = false ∧
      here = placeOf (home w) task.threadId ∧
      Unscheduled { s with queue := Function.update s.queue (home w) left } f := by
  have once := pending f (home w) task.threadId
  rw [if_pos ⟨mine, rfl, rfl⟩] at once
  rcases kept.sits with ⟨none, _, _⟩ | ⟨⟨target, at', place, single⟩, _, still, live⟩ |
    ⟨v, pc, _, _, _, _, _⟩ | ⟨v, target, pc, _, _, _, _⟩ | ⟨v, pc, _, _⟩
  · rw [none] at once
    omega
  · have same : home w = target ∧ task.threadId = at' := by
      by_contra other
      rw [single, if_neg other] at once
      omega
    rcases same with ⟨rfl, rfl⟩
    refine ⟨still, live, place, fun scheduler thread => ?_⟩
    have whole := pending f scheduler thread
    rw [single] at whole
    by_cases same : scheduler = home w ∧ thread = task.threadId
    · rw [if_pos same, if_pos ⟨mine, same⟩] at whole
      omega
    · rw [if_neg same, if_neg fun equal => same equal.2] at whole
      omega
  · exact absurd (by rw [pc]; rfl) (free v)
  · exact absurd (by rw [pc]; rfl) (free v)
  · exact absurd (by rcases pc with pc | pc <;> rw [pc] <;> rfl) (free v)

theorem thread_of_mayRun {task : ScheduleTask} {scheduler : SchedulerId}
    (runs : task.mayRun w = true) (at' : ThreadId)
    (pinned : (placeOf scheduler task.threadId).thread = some at') : w = at' := by
  unfold placeOf at pinned
  by_cases any : task.threadId = -1
  · rw [if_pos any] at pinned
    cases pinned
  · rw [if_neg any] at pinned
    rw [← Option.some.inj pinned]
    simp [ScheduleTask.mayRun, any] at runs
    exact runs.symm

theorem take_other {v : ThreadId} {current : SchedulerId} (taken : s.take current w = some after)
    (other : v ≠ w) : after.worker v = s.worker v := by
  simp only [System.take] at taken
  split at taken
  · cases taken
    rfl
  · split at taken
    · cases taken
      rfl
    · rcases Option.map_eq_some_iff.mp taken with ⟨fiber, _, rfl⟩
      exact goto_other other _

theorem kept_take {threads : List ThreadId} (listed : ∀ v, s.worker v ≠ .scan → v ∈ threads)
    (idle : s.worker w = .scan) (clear : Clear threads home s (.take w))
    (taken : s.take (home w) w = some after)
    {texts : FiberId → List (Nat × Place)} (all : ∀ g, ∃ here, Kept home (texts g) s g here) :
    ∀ g, ∃ there, Kept home (texts g) after g there := by
  rcases pending_take s (home w) w with
    ⟨task, left, tickle_me, found, runs, pending⟩ | ⟨tickle_me, found⟩
  · cases fiber : task.fiber with
    | none =>
        simp only [System.take, found, Option.bind_some, fiber] at taken
        cases taken
        intro g
        rcases all g with ⟨here, kept⟩
        refine ⟨here, kept.frame rfl (fun scheduler thread => ?_) fun _ _ => rfl⟩
        have same := pending g scheduler thread
        rw [fiber] at same
        simpa using same.symm
    | some f =>
        have free : Free s f := by
          intro v held
          have busy : s.worker v ≠ .scan := by
            intro scans
            rw [scans] at held
            cases held
          simp only [Clear, Switching.clear, found, Option.bind_some, fiber, List.all_eq_true,
            bne_iff_ne] at clear
          exact clear v (listed v busy) held
        rcases all f with ⟨here, kept⟩
        rcases kept_taken kept free fiber pending with ⟨still, live, place, none⟩
        simp only [System.take, found, Option.bind_some, fiber, live] at taken
        rw [Fibers.Fiber.swapIn, if_neg still] at taken
        cases taken
        intro g
        by_cases same : g = f
        · subst same
          refine ⟨here, ?_, .running w (goto_self _) ?_ none ?_ ?_ ?_, ?_⟩
          · rw [goto_strand, setFiber_self]
            exact kept.lexical.move rfl rfl
          · exact (free.alone w).congr fun v other => goto_other other _
          · rw [goto_strand, setFiber_self]
          · rw [place]
            rfl
          · rw [place]
            exact thread_of_mayRun runs
          · rw [goto_strand, setFiber_self]
            intro finished
            cases finished
        · rcases all g with ⟨there, held⟩
          refine ⟨there, held.frame (setStrand_other same _) ?_ ?_⟩
          · intro scheduler thread
            have whole := pending g scheduler thread
            rw [fiber, if_neg fun equal => same (Option.some.inj equal.1).symm] at whole
            exact whole.symm
          · intro v mine
            refine goto_other ?_ _
            rintro rfl
            rw [goto_self, idle] at mine
            rcases mine with mine | mine
            · cases mine
            · exact same (Option.some.inj mine).symm
  · simp only [System.take, found, Option.bind_none, Function.update_eq_self] at taken
    cases taken
    exact all

end Steps

section Runs
variable {threads : List ThreadId} {home : ThreadId → SchedulerId} {program : FiberId → Code}
  {origin : FiberId → SchedulerId × ThreadId} {s after : System}

def text (program : FiberId → Code) (origin : FiberId → SchedulerId × ThreadId) (f : FiberId) :
    List (Nat × Place) :=
  (program f).points (placeOf (origin f).1 (origin f).2)

structure Placed (threads : List ThreadId) (home : ThreadId → SchedulerId)
    (texts : FiberId → List (Nat × Place)) (s : System) : Prop where
  listed : ∀ v, s.worker v ≠ .scan → v ∈ threads
  kept : ∀ f, ∃ here, Kept home (texts f) s f here

theorem placed_start (start : Starts program origin s) :
    Placed threads home (text program origin) s where
  listed := by
    intro v busy
    rw [start.worker] at busy
    exact absurd rfl busy
  kept := by
    intro f
    have strand : s.strand f = { code := program f } := by rw [start.strand]
    have free : Free s f := by
      intro v held
      rw [start.worker] at held
      cases held
    have still : (s.strand f).fiber.m_state ≠ .exec := by
      rw [strand]
      exact Fibers.State.noConfusion
    have single := start.single f
    refine ⟨placeOf (origin f).1 (origin f).2, ⟨[], ?_, ?_⟩, ?_, ?_⟩
    · rw [strand]
      rfl
    · rw [strand]
      exact .nil
    · by_cases there : s.pending f (origin f).1 (origin f).2 = 0
      · refine .away (fun scheduler thread => ?_) free still
        have most := single scheduler thread
        by_cases same : (scheduler, thread) = origin f
        · rw [← same] at there
          exact there
        · rw [if_neg same] at most
          exact Nat.le_zero.mp most
      · refine .queued ⟨_, _, rfl, fun scheduler thread => ?_⟩ free still (by rw [strand]; rfl)
        have most := single scheduler thread
        by_cases same : (scheduler, thread) = origin f
        · rw [if_pos same] at most
          rw [← same] at there ⊢
          rw [if_pos ⟨rfl, rfl⟩]
          exact Nat.le_antisymm most (Nat.one_le_iff_ne_zero.mpr there)
        · have other : ¬ (scheduler = (origin f).1 ∧ thread = (origin f).2) :=
            fun equal => same (Prod.ext equal.1 equal.2)
          rw [if_neg same] at most
          rw [if_neg other]
          exact Nat.le_zero.mp most
    · rw [strand]
      intro finished
      cases finished

theorem placed_worker {texts : FiberId → List (Nat × Place)} {w : ThreadId} {f : FiberId}
    (placed : Placed threads home texts s) (held : (s.worker w).fiber = some f)
    (elsewhere : Elsewhere s after w f)
    (moved : ∀ here, Kept home (texts f) s f here → ∃ there, Kept home (texts f) after f there) :
    Placed threads home texts after where
  listed := by
    intro v busy
    refine placed.listed v fun scans => ?_
    by_cases same : v = w
    · rw [same] at scans
      rw [scans] at held
      cases held
    · rw [elsewhere.worker v same] at busy
      exact busy scans
  kept := by
    intro g
    rcases placed.kept g with ⟨here, kept⟩
    by_cases same : g = f
    · subst same
      exact moved here kept
    · refine ⟨here, elsewhere.kept same ?_ kept⟩
      rw [held]
      exact fun equal => same (Option.some.inj equal).symm

theorem placed_step {texts : FiberId → List (Nat × Place)} {act : Act}
    (placed : Placed threads home texts s) (clear : Clear threads home s act)
    (moved : act.effect threads home s = some after) : Placed threads home texts after := by
  cases act with
  | take w =>
      simp only [Act.effect] at moved
      by_cases scans : w ∈ threads ∧ s.worker w = .scan
      · rw [if_pos scans] at moved
        refine ⟨fun v busy => ?_, kept_take placed.listed scans.2 clear moved placed.kept⟩
        by_cases same : v = w
        · rw [same]
          exact scans.1
        · refine placed.listed v fun idle => busy ?_
          rw [take_other moved same, idle]
      · rw [if_neg scans] at moved
        cases moved
  | exec w =>
      simp only [Act.effect] at moved
      split at moved
      · rename_i f pc
        cases moved
        refine placed_worker placed (by rw [pc]; rfl) (elsewhere_exec pc _) ?_
        exact fun here kept => kept_exec kept pc
      · cases moved
  | yield w =>
      simp only [Act.effect] at moved
      split at moved
      · rename_i f target pc
        rcases Option.map_eq_some_iff.mp moved with ⟨fiber, yields, rfl⟩
        refine placed_worker placed (by rw [pc]; rfl) (elsewhere_of
          (fun _ other => setStrand_other other _) (fun _ _ _ _ => rfl) rfl (Or.inl rfl)) ?_
        exact fun here kept => ⟨here, kept_yield kept pc yields⟩
      · cases moved
  | saved w =>
      simp only [Act.effect] at moved
      split at moved
      · rename_i f pc
        cases moved
        refine placed_worker placed (by rw [pc]; rfl) (elsewhere_of (fun _ _ => rfl)
          (fun _ _ _ _ => rfl) rfl (Or.inl rfl)) ?_
        exact fun here kept => ⟨here, kept_saved kept pc⟩
      · cases moved
  | inspect w =>
      simp only [Act.effect] at moved
      split at moved
      · rename_i f pc
        cases moved
        refine placed_worker placed (by rw [pc]; rfl) (elsewhere_inspect _) ?_
        exact fun here kept => ⟨here, kept_inspect kept pc⟩
      · cases moved
  | wake i =>
      have same : after.worker = s.worker ∧ after.strand = s.strand := by
        simp only [Act.effect, System.wake] at moved
        rcases Option.map_eq_some_iff.mp moved with ⟨entry, _, rfl⟩
        exact ⟨rfl, rfl⟩
      refine ⟨by rw [same.1]; exact placed.listed, fun g => ?_⟩
      rcases placed.kept g with ⟨here, kept⟩
      exact ⟨here, kept.frame (by rw [same.2]) (pending_wake moved g)
        fun v _ => by rw [same.1]⟩

/-- Every fiber reaches the points of its text in order, each in the scheduler and on the
thread that the text says, whatever the other fibers and threads do; a fiber that has
finished has reached all of them. -/
theorem switches_lexical
    (reached : Reach (switching threads home program origin) (Clear threads home) s)
    (f : FiberId) :
    ∃ before after, text program origin f = before ++ after ∧
      List.Forall₂ Agrees (s.strand f).trace before ∧
      ((s.strand f).fiber.m_state.finished = true → after = []) := by
  have placed : Placed threads home (text program origin) s := by
    apply reached.invariant fun s => Placed threads home (text program origin) s
    · intro state start
      exact placed_start start
    · intro before act after _ placed clear moved
      exact placed_step placed clear moved
  rcases placed.kept f with ⟨here, ⟨before, whole, agrees⟩, _, ended⟩
  refine ⟨before, _, whole, agrees, fun finished => ?_⟩
  rcases ended finished with ⟨code, frames⟩
  rw [Strand.remaining, code, frames]
  rfl

end Runs

/-- A fiber enters another scheduler, waits there, asks for the second thread of its own
scheduler and leaves the scope from there. -/
def errand : Code :=
  .point 1 (.within (some 1) (.point 2 (.wait (.point 3 (.switchTo 0 2 (.point 4 .done)))))
    (.point 5 .done))

def twoSchedulers : ThreadId → SchedulerId := fun w => if w = 3 then 1 else 0

def sent : System :=
  ({ queue := fun _ => [], strand := fun _ => { code := errand } } : System).schedule 0
    { fiber := some 7 }

theorem sent_starts : Starts (fun _ => errand) (fun _ => (0, -1)) sent where
  strand := rfl
  worker := rfl
  waiting := rfl
  single := by
    intro f target thread
    have none : ({ queue := fun _ => [], strand := fun _ => { code := errand } } : System).pending f
        target thread = 0 := by simp [System.pending]
    rw [sent, pending_schedule, none]
    split <;> split <;> simp_all

theorem switches_lexical_errand :
    text (fun _ => errand) (fun _ => (0, -1)) 7 =
        [(1, ⟨0, none⟩), (2, ⟨1, none⟩), (3, ⟨1, none⟩), (4, ⟨0, some 2⟩), (5, ⟨0, some 2⟩)] ∧
      ∃ s, run (switching [1, 2, 3] twoSchedulers (fun _ => errand) (fun _ => (0, -1))) sent
          [.take 1, .exec 1, .exec 1, .exec 1, .yield 1, .saved 1, .inspect 1,
            .take 3, .exec 3, .exec 3, .yield 3, .wake 0, .saved 3, .inspect 3,
            .take 3, .exec 3, .exec 3, .yield 3, .saved 3, .inspect 3,
            .take 2, .exec 2, .exec 2, .exec 2, .exec 2, .exec 2] = some s ∧
        (s.strand 7).trace = [(1, 0, 1), (2, 1, 3), (3, 1, 3), (4, 0, 2), (5, 0, 2)] ∧
        ∃ before after, text (fun _ => errand) (fun _ => (0, -1)) 7 = before ++ after ∧
          List.Forall₂ Agrees (s.strand 7).trace before ∧
          ((s.strand 7).fiber.m_state.finished = true → after = []) := by
  refine ⟨by decide, ?_⟩
  exact run_meets_where (Clear [1, 2, 3] twoSchedulers)
    (fun s => (s.strand 7).trace = [(1, 0, 1), (2, 1, 3), (3, 1, 3), (4, 0, 2), (5, 0, 2)])
    sent_starts (by decide) (by decide) fun _ reached good =>
      ⟨of_decide_eq_true good, switches_lexical reached 7⟩

end Ztyco.Switching
