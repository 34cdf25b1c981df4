import Ztyco.SchedulerSteps

/-!
A fiber on at most one worker. A worker holds a fiber from the take of its task
until its context is saved again. `run` takes whatever is in the queue, so a
fiber that is scheduled while it is still held (by its own trigger, `switchTo`
or a second `schedule()`) can be taken twice; as long as no take meets a held
fiber, each fiber has one holder and is entered only when nobody else is on it.
-/

namespace Ztyco.Scheduler

open Fibers (FiberId Fiber)
open Transition

/-- The fibers the task may be run on by a worker with the given `func_fiber`. -/
def ScheduleTask.uses (task : ScheduleTask) (kept : Option FiberId) : List FiberId :=
  task.fiber.toList ++ if task.func.isSome then kept.toList else []

def Next.holds (kept : Option FiberId) : Next → List FiberId
  | .branch (some task) => task.uses kept
  | .branch none | .scan => []

/-- The fibers the worker has taken, is executing or has not finished saving. -/
def Worker.holds (worker : Worker) : List FiberId :=
  match worker.pc with
  | .tickle next | .tickleWrite next => next.holds worker.func_fiber
  | .branch task => (Next.branch task).holds worker.func_fiber
  | .swapIn f _ | .running f _ | .saving f _ => [f]
  | .scan | .returned _ _ | .inspect _ _ | .requeue _ _ | .drop | .goIdle | .idle | .epollWait
  | .draining | .leaveIdle _ | .exit => []

def System.FreeFor (s : System) (w : ThreadId) (f : FiberId) : Prop :=
  ∀ v ∈ s.threads, v ≠ w → f ∉ (s.worker v).holds

/-- No worker takes a task for a fiber that another worker holds. -/
def System.SoleTake (s : System) : Act → Prop
  | .take w => ∀ task ∈ (takeTask w s.m_tasks).1, ∀ f ∈ task.uses (s.worker w).func_fiber,
      s.FreeFor w f
  | _ => True

-- a bounded check of the list: there is no deciding over all thread ids
instance System.FreeFor.decidable (s : System) (w : ThreadId) (f : FiberId) :
    Decidable (s.FreeFor w f) :=
  List.decidableBAll (fun v => v ≠ w → f ∉ (s.worker v).holds) s.threads

instance System.SoleTake.decidable (s : System) : (act : Act) → Decidable (s.SoleTake act)
  | .take w => inferInstanceAs (Decidable (∀ task ∈ (takeTask w s.m_tasks).1,
      ∀ f ∈ task.uses (s.worker w).func_fiber, s.FreeFor w f))
  | .start | .autoStop | .stop | .newFiber _ | .schedule _ | .tickleOutside | .writeOutside
  | .tickleElsewhere | .trigger _ | .addEvent _ _ _ | .switchTo _ _ _ _ | .tickle _ _
  | .tickleWrite _ _ | .branch _ _ | .swapIn _ _ _ | .yieldTo _ _ _ _ | .finish _ _ _ _
  | .swapOut _ _ _ | .decrement _ _ _ | .inspect _ _ _ | .requeue _ _ _ | .drop _ | .goIdle _
  | .checkStopping _ _ | .wake _ _ | .drain _ | .endDrain _ | .leaveIdle _ _ => .isTrue trivial

def Pc.runs (f : FiberId) : Pc → Bool
  | .running g _ => g = f
  | _ => false

def Pc.occupies (f : FiberId) : Pc → Bool
  | .running g _ | .saving g _ => g = f
  | _ => false

def System.exec (s : System) (f : FiberId) : Prop := (s.fibers f).m_state = .exec

def Worker.names (worker : Worker) (f : FiberId) : Prop :=
  worker.pc.carries f ∨ worker.func_fiber = some f

structure Exclusive (s : System) : Prop where
  queued : ∀ task ∈ s.m_tasks, ∀ f, task.fiber = some f → f < s.nextFiber
  stored : ∀ f ∈ s.registered, f < s.nextFiber
  named : ∀ w ∈ s.threads, ∀ f, (s.worker w).names f → f < s.nextFiber
  sole : ∀ w ∈ s.threads, ∀ v ∈ s.threads, ∀ f, f ∈ (s.worker w).holds →
    f ∈ (s.worker v).holds → w = v
  exec : ∀ f, s.exec f → ∃ w ∈ s.threads, (s.worker w).pc.runs f = true

theorem Next.pc_holds (next : Next) (worker : Worker) :
    { worker with pc := next.pc }.holds = next.holds worker.func_fiber := by
  cases next with
  | branch task => rfl
  | scan => rfl

theorem names_of_holds {worker : Worker} {f : FiberId} (holds : f ∈ worker.holds) :
    worker.names f := by
  have next : ∀ next : Next, f ∈ next.holds worker.func_fiber →
      next.carries f ∨ worker.func_fiber = some f := by
    intro next within
    cases next with
    | scan => cases within
    | branch task =>
        cases task with
        | none => cases within
        | some task =>
            rcases List.mem_append.mp within with fiber | kept
            · exact Or.inl (Option.mem_toList.mp fiber)
            · split at kept
              · exact Or.inr (Option.mem_toList.mp kept)
              · cases kept
  unfold Worker.holds at holds
  unfold Worker.names
  cases at_ : worker.pc with
  | tickle following => exact next following (by simpa [at_] using holds)
  | tickleWrite following => exact next following (by simpa [at_] using holds)
  | branch task => exact next (.branch task) (by simpa [at_] using holds)
  | swapIn g own =>
      have same : f = g := by simpa [at_] using holds
      exact Or.inl same.symm
  | running g own =>
      have same : f = g := by simpa [at_] using holds
      exact Or.inl same.symm
  | saving g own =>
      have same : f = g := by simpa [at_] using holds
      exact Or.inl same.symm
  | scan => simp [at_] at holds
  | returned g own => simp [at_] at holds
  | inspect g own => simp [at_] at holds
  | requeue g own => simp [at_] at holds
  | drop => simp [at_] at holds
  | goIdle => simp [at_] at holds
  | idle => simp [at_] at holds
  | epollWait => simp [at_] at holds
  | draining => simp [at_] at holds
  | leaveIdle term => simp [at_] at holds
  | exit => simp [at_] at holds

section Frames
variable {s s' : System} {w : ThreadId}

theorem exclusive_outside (exclusive : Exclusive s) (threads : s'.threads = s.threads)
    (worker : s'.worker = s.worker) (more : s.nextFiber ≤ s'.nextFiber)
    (queued : ∀ task ∈ s'.m_tasks, ∀ f, task.fiber = some f → f < s'.nextFiber)
    (stored : ∀ f ∈ s'.registered, f < s'.nextFiber) (exec : ∀ f, s'.exec f → s.exec f) :
    Exclusive s' := by
  constructor
  · exact queued
  · exact stored
  · rw [threads, worker]
    intro v mem f names
    exact Nat.lt_of_lt_of_le (exclusive.named v mem f names) more
  · rw [threads, worker]
    exact exclusive.sole
  · rw [threads, worker]
    intro f now
    exact exclusive.exec f (exec f now)

/-- One worker moves. It names existing fibers, holds only what it held or what
nobody else holds, and a fiber it stops running is not EXEC any more. -/
theorem exclusive_moves (exclusive : Exclusive s) (x : Worker) (mem : w ∈ s.threads)
    (threads : s'.threads = s.threads) (worker : s'.worker = Function.update s.worker w x)
    (more : s.nextFiber ≤ s'.nextFiber)
    (queued : ∀ task ∈ s'.m_tasks, ∀ f, task.fiber = some f → f < s'.nextFiber)
    (stored : ∀ f ∈ s'.registered, f < s'.nextFiber)
    (named : ∀ f, x.names f → f < s'.nextFiber)
    (sole : ∀ f ∈ x.holds, f ∈ (s.worker w).holds ∨
      ∀ v ∈ s.threads, v ≠ w → f ∉ (s.worker v).holds)
    (exec : ∀ f, s'.exec f → x.pc.runs f = true ∨ s.exec f ∧ (s.worker w).pc.runs f = false) :
    Exclusive s' := by
  have at_w : s'.worker w = x := by rw [worker, Function.update_self]
  have elsewhere : ∀ v, v ≠ w → s'.worker v = s.worker v := fun v other => by
    rw [worker, Function.update_of_ne other]
  -- what the moving worker holds afterwards nobody else holds
  have alone : ∀ v ∈ s.threads, v ≠ w → ∀ f, f ∈ x.holds → f ∉ (s.worker v).holds := by
    intro v mem_v other f holds also
    rcases sole f holds with before | nobody
    · exact other (exclusive.sole v mem_v w mem f also before)
    · exact nobody v mem_v other also
  constructor
  · exact queued
  · exact stored
  · rw [threads]
    intro v mem_v f names
    by_cases same : v = w
    · subst same
      rw [at_w] at names
      exact named f names
    · rw [elsewhere v same] at names
      exact Nat.lt_of_lt_of_le (exclusive.named v mem_v f names) more
  · rw [threads]
    intro u mem_u v mem_v f first second
    by_cases same_u : u = w
    · by_cases same_v : v = w
      · rw [same_u, same_v]
      · rw [same_u, at_w] at first
        rw [elsewhere v same_v] at second
        exact absurd second (alone v mem_v same_v f first)
    · rw [elsewhere u same_u] at first
      by_cases same_v : v = w
      · rw [same_v, at_w] at second
        exact absurd first (alone u mem_u same_u f second)
      · rw [elsewhere v same_v] at second
        exact exclusive.sole u mem_u v mem_v f first second
  · intro f now
    rw [threads]
    rcases exec f now with runs | ⟨before, left⟩
    · exact ⟨w, mem, by rw [at_w]; exact runs⟩
    · rcases exclusive.exec f before with ⟨v, mem_v, runs⟩
      have other : v ≠ w := by
        rintro rfl
        rw [left] at runs
        cases runs
      exact ⟨v, mem_v, by rw [elsewhere v other]; exact runs⟩

/-- A worker goes on without taking hold of anything new. -/
theorem exclusive_goto (exclusive : Exclusive s) {pc pc' : Pc} (mem : w ∈ s.threads)
    (at_ : (s.worker w).pc = pc) (carries : ∀ f, pc'.carries f → pc.carries f)
    (holds : { s.worker w with pc := pc' }.holds ⊆ { s.worker w with pc := pc }.holds)
    (still : ∀ f, pc.runs f = false) : Exclusive (s.goto w pc') := by
  refine exclusive_moves exclusive { s.worker w with pc := pc' } mem rfl rfl (Nat.le_refl _)
    exclusive.queued exclusive.stored ?_ ?_ ?_
  · intro f names
    apply exclusive.named w mem f
    rcases names with carried | kept
    · left
      rw [at_]
      exact carries f carried
    · exact Or.inr kept
  · intro f within
    left
    rw [← at_] at holds
    exact holds within
  · intro f now
    right
    rw [at_]
    exact ⟨now, still f⟩

theorem exec_setFiber {f g : FiberId} {fiber : Fiber} (now : (s.setFiber g fiber).exec f)
    (quiet : fiber.m_state ≠ .exec) : s.exec f ∧ f ≠ g := by
  by_cases same : f = g
  · subst same
    exact absurd (by simpa [System.exec, System.setFiber] using now) quiet
  · exact ⟨by simpa [System.exec, System.setFiber, same] using now, same⟩

theorem exclusive_sets (exclusive : Exclusive s) {pc pc' : Pc} {g : FiberId} {fiber : Fiber}
    (mem : w ∈ s.threads) (at_ : (s.worker w).pc = pc) (quiet : fiber.m_state ≠ .exec)
    (carries : ∀ f, pc'.carries f → pc.carries f ∨ (s.worker w).func_fiber = some f)
    (holds : { s.worker w with pc := pc' }.holds ⊆ { s.worker w with pc := pc }.holds)
    (still : ∀ f, f ≠ g → pc.runs f = false) : Exclusive ((s.setFiber g fiber).goto w pc') := by
  refine exclusive_moves exclusive { s.worker w with pc := pc' } mem rfl rfl (Nat.le_refl _)
    exclusive.queued exclusive.stored ?_ ?_ ?_
  · intro f names
    apply exclusive.named w mem f
    rcases names with carried | kept
    · rw [Worker.names, at_]
      exact carries f carried
    · exact Or.inr kept
  · intro f within
    left
    rw [← at_] at holds
    exact holds within
  · intro f now
    right
    rw [at_]
    rcases exec_setFiber now quiet with ⟨before, other⟩
    exact ⟨before, still f other⟩

theorem Exclusive.frame (exclusive : Exclusive s) (threads : s'.threads = s.threads)
    (worker : s'.worker = s.worker) (fresh : s'.nextFiber = s.nextFiber)
    (queue : s'.m_tasks = s.m_tasks) (registered : s'.registered = s.registered)
    (fibers : s'.fibers = s.fibers) : Exclusive s' := by
  apply exclusive_outside exclusive threads worker (Nat.le_of_eq fresh.symm)
  · rw [queue, fresh]
    exact exclusive.queued
  · rw [registered, fresh]
    exact exclusive.stored
  · intro f now
    simpa [System.exec, fibers] using now

theorem queued_known (exclusive : Exclusive s) {tasks : List ScheduleTask}
    (known : ∀ task ∈ tasks, ∀ f, task.fiber = some f → f < s.nextFiber) :
    ∀ task ∈ (s.push tasks).m_tasks, ∀ f, task.fiber = some f → f < s.nextFiber := by
  intro task mem f named
  simp only [System.push, scheduleAll_tasks] at mem
  rcases List.mem_append.mp mem with old | new
  · exact exclusive.queued task old f named
  · exact known task (List.mem_filter.mp new).1 f named

theorem exclusive_schedule (exclusive : Exclusive s) {tasks : List ScheduleTask}
    (known : ∀ task ∈ tasks, ∀ f, task.fiber = some f → f < s.nextFiber) :
    Exclusive (s.schedule tasks) := by
  refine exclusive_outside exclusive rfl rfl (Nat.le_refl _) (queued_known exclusive known)
    exclusive.stored ?_
  intro f now
  exact now

theorem single_known {f : FiberId} (thread : ThreadId) (known : f < s.nextFiber) :
    ∀ task ∈ [({ fiber := some f, threadId := thread } : ScheduleTask)],
      ∀ g, task.fiber = some g → g < s.nextFiber := by
  intro task mem g named
  obtain rfl := List.mem_singleton.mp mem
  cases named
  exact known

theorem carries_taken (task : Option ScheduleTask) (tickle_me : Bool) (f : FiberId) :
    (if tickle_me then Pc.tickle (.branch task) else .branch task).carries f ↔
      task.bind (·.fiber) = some f := by
  cases tickle_me with
  | true => rfl
  | false => rfl

theorem holds_taken (worker : Worker) (task : Option ScheduleTask) (tickle_me : Bool) :
    { worker with pc := if tickle_me then Pc.tickle (.branch task) else .branch task }.holds =
      (Next.branch task).holds worker.func_fiber := by
  cases tickle_me with
  | true => rfl
  | false => rfl

theorem exclusive_take (exclusive : Exclusive s) (mem : w ∈ s.threads)
    (at_ : (s.worker w).pc = .scan) (sole : s.SoleTake (.take w)) : Exclusive (s.take w) := by
  have still : ∀ f, s.exec f → s.exec f ∧ (s.worker w).pc.runs f = false := by
    intro f now
    rw [at_]
    exact ⟨now, rfl⟩
  -- both what is left and what is taken was queued before
  have pending : ∀ task ∈ (s.take w).m_tasks, task ∈ s.m_tasks := by
    intro task within
    rcases takeTask_cases w s.m_tasks with ⟨skipped, taken, rest, split, _, _, found⟩ | ⟨_, found⟩
    · have left : task ∈ skipped ++ rest := by
        simpa [System.take, System.goto, found] using within
      rw [split]
      rcases List.mem_append.mp left with early | late
      · exact List.mem_append_left _ early
      · exact List.mem_append_right _ (List.mem_cons_of_mem _ late)
    · simpa [System.take, System.goto, found] using within
  have known : ∀ task, (takeTask w s.m_tasks).1 = some task → task ∈ s.m_tasks := by
    intro task taken
    rcases takeTask_cases w s.m_tasks with ⟨skipped, first, rest, split, _, _, found⟩ | ⟨_, found⟩
    · rw [found] at taken
      cases taken
      rw [split]
      exact List.mem_append_right _ List.mem_cons_self
    · rw [found] at taken
      cases taken
  refine exclusive_moves exclusive _ mem rfl rfl (Nat.le_refl _)
    (fun task within => exclusive.queued task (pending task within)) exclusive.stored ?_ ?_
    (fun f now => Or.inr (still f now))
  · intro f names
    rcases names with carried | kept
    · rw [carries_taken] at carried
      cases taken : (takeTask w s.m_tasks).1 with
      | none =>
          rw [taken] at carried
          cases carried
      | some task =>
          rw [taken] at carried
          exact exclusive.queued task (known task taken) f carried
    · exact exclusive.named w mem f (Or.inr kept)
  · intro f holds
    right
    rw [holds_taken] at holds
    cases taken : (takeTask w s.m_tasks).1 with
    | none =>
        rw [taken] at holds
        cases holds
    | some task =>
        rw [taken] at holds
        exact sole task taken f holds

theorem exclusive_branch (exclusive : Exclusive s) {task : Option ScheduleTask}
    (mem : w ∈ s.threads) (at_ : (s.worker w).pc = .branch task)
    (done : s.branch w task = some s') : Exclusive s' := by
  rcases branch_cases done with ⟨t, g, rfl, named, _, rfl⟩ | ⟨t, func, rfl, called, _, run⟩ |
    ⟨t, rfl, _, _, rfl⟩ | ⟨rfl, rfl⟩
  · apply exclusive_goto exclusive mem at_
    · intro f carries
      exact named.trans (congrArg some carries)
    · intro f within
      have same : f = g := List.mem_singleton.mp within
      simp [Worker.holds, Next.holds, ScheduleTask.uses, named, same]
    · intro f
      rfl
  · rcases funcBranch_cases run with ⟨g, fiber, kept, reset, rfl⟩ | ⟨_, rfl⟩
    · have quiet : fiber.m_state ≠ .exec := by
        rw [resetFunc_state reset]
        intro running
        cases running
      apply exclusive_sets exclusive mem at_ quiet
      · intro f carries
        exact Or.inr (kept.trans (congrArg some carries))
      · intro f within
        have same : f = g := List.mem_singleton.mp within
        simp [Worker.holds, Next.holds, ScheduleTask.uses, called, kept, same]
      · intro f _
        rfl
    · -- the new fiber has an id that nobody knows yet
      refine exclusive_moves exclusive { s.worker w with
        pc := .swapIn s.nextFiber true, func_fiber := some s.nextFiber } mem rfl rfl
        (Nat.le_succ _) ?_ ?_ ?_ ?_ ?_
      · intro other within f fiber
        exact Nat.lt_succ_of_lt (exclusive.queued other within f fiber)
      · intro f within
        exact Nat.lt_succ_of_lt (exclusive.stored f within)
      · rintro f (carries | kept)
        · exact Nat.lt_succ_of_le (Nat.le_of_eq (Eq.symm carries))
        · exact Nat.lt_succ_of_le (Nat.le_of_eq (Option.some.inj kept).symm)
      · intro f within
        right
        intro v mem_v _ holds
        have same : f = s.nextFiber := List.mem_singleton.mp within
        have known := exclusive.named v mem_v f (names_of_holds holds)
        rw [same] at known
        exact Nat.lt_irrefl _ known
      · intro f now
        right
        rw [at_]
        exact ⟨(exec_setFiber now (fun running => by cases running)).1, rfl⟩
  · apply exclusive_goto exclusive mem at_
    · intro f carries
      cases carries
    · exact List.nil_subset _
    · intro f
      rfl
  · apply exclusive_goto exclusive mem at_
    · intro f carries
      split at carries <;> cases carries
    · cases (s.worker w).idleTerm with
      | true => exact List.nil_subset _
      | false => exact List.nil_subset _
    · intro f
      rfl

theorem exclusive_inspect (exclusive : Exclusive s) {g : FiberId} {own : Bool}
    (mem : w ∈ s.threads) (at_ : (s.worker w).pc = .inspect g own)
    (done : s.inspect w g own = some s') : Exclusive s' := by
  rcases inspect_cases done with ⟨_, rfl⟩ | ⟨finished, fiber, kind, rfl⟩ | rfl
  · apply exclusive_goto exclusive mem at_
    · intro f carries
      exact carries
    · exact List.nil_subset _
    · intro f
      rfl
  · have quiet : fiber.m_state ≠ .exec := by
      intro running
      rcases kind with rfl | init
      · rw [running] at finished
        cases finished
      · rw [init] at running
        cases running
    apply exclusive_sets exclusive mem at_ quiet
    · intro f carries
      cases carries
    · exact List.nil_subset _
    · intro f _
      rfl
  · refine exclusive_moves exclusive ((s.worker w).released own .scan) mem rfl rfl
      (Nat.le_refl _) exclusive.queued exclusive.stored ?_ ?_ ?_
    · rintro f (carries | kept)
      · cases carries
      · apply exclusive.named w mem f
        right
        cases own with
        | true => cases kept
        | false => exact kept
    · intro f within
      cases within
    · intro f now
      right
      rw [at_]
      exact ⟨(exec_setFiber now (fun running => by cases running)).1, rfl⟩

theorem holds_requeued (worker : Worker) (own need_tickle : Bool) :
    (worker.released own (if need_tickle then .tickle .scan else .scan)).holds = [] := by
  cases need_tickle with
  | true => rfl
  | false => rfl

theorem exclusive_requeue (exclusive : Exclusive s) {g : FiberId} {own : Bool}
    (mem : w ∈ s.threads) (at_ : (s.worker w).pc = .requeue g own) :
    Exclusive (s.requeue w g own) := by
  have known : g < s.nextFiber := by
    apply exclusive.named w mem g
    left
    rw [at_]
    rfl
  rw [requeue_eq]
  refine exclusive_moves exclusive ((s.worker w).released own
    (if s.needTickle [{ fiber := some g }] then .tickle .scan else .scan)) mem rfl rfl
    (Nat.le_refl _) (queued_known exclusive (single_known (-1) known)) exclusive.stored ?_ ?_ ?_
  · rintro f (carries | kept)
    · exfalso
      split at carries <;> cases carries
    · apply exclusive.named w mem f
      right
      cases own with
      | true => cases kept
      | false => exact kept
  · intro f within
    exfalso
    rw [holds_requeued] at within
    cases within
  · intro f now
    right
    rw [at_]
    exact ⟨now, rfl⟩

theorem exclusive_swapIn (exclusive : Exclusive s) {g : FiberId} {own : Bool}
    (mem : w ∈ s.threads) (at_ : (s.worker w).pc = .swapIn g own)
    (done : s.swapIn w g own = some s') : Exclusive s' := by
  rcases Option.map_eq_some_iff.mp done with ⟨fiber, _, rfl⟩
  refine exclusive_moves exclusive { s.worker w with pc := .running g own } mem rfl rfl
    (Nat.le_refl _) exclusive.queued exclusive.stored ?_ ?_ ?_
  · intro f names
    apply exclusive.named w mem f
    rw [Worker.names, at_]
    exact names
  · intro f within
    left
    simpa [Worker.holds, at_] using within
  · intro f now
    by_cases same : f = g
    · left
      exact decide_eq_true same.symm
    · right
      rw [at_]
      exact ⟨by simpa [System.exec, System.setFiber, System.goto, same] using now, rfl⟩

theorem Walk.still {pc pc' : Pc} (walk : Walk pc pc') (f : FiberId) : pc.runs f = false := by
  cases walk <;> rfl

theorem Walk.holds {pc : Pc} {x : Worker} (walk : Walk pc x.pc) : x.holds = [] := by
  rw [Worker.holds]
  generalize x.pc = pc' at walk ⊢
  cases walk <;> rfl

theorem exclusive_walk (exclusive : Exclusive s) {x : Worker} {active idle : UInt64}
    (mem : w ∈ s.threads) (walk : Walk (s.worker w).pc x.pc)
    (kept : x.func_fiber = (s.worker w).func_fiber) : Exclusive { s with
      worker := Function.update s.worker w x
      m_activeThreadCount := active
      m_idleThreadCount := idle } := by
  refine exclusive_moves exclusive x mem rfl rfl (Nat.le_refl _) exclusive.queued exclusive.stored
    ?_ ?_ ?_
  · intro f names
    apply exclusive.named w mem f
    rcases names with carried | stored
    · exact Or.inl ((walk.carries f).mp carried)
    · exact Or.inr (kept.symm.trans stored)
  · intro f within
    rw [walk.holds] at within
    cases within
  · intro f now
    exact Or.inr ⟨now, walk.still f⟩

theorem exclusive_saving (exclusive : Exclusive s) {g : FiberId} {own : Bool} {fiber : Fiber}
    (mem : w ∈ s.threads) (at_ : (s.worker w).pc = .running g own)
    (quiet : fiber.m_state ≠ .exec) :
    Exclusive ((s.setFiber g fiber).goto w (.saving g own)) := by
  apply exclusive_sets exclusive mem at_ quiet
  · intro f carries
    exact Or.inl carries
  · exact List.Subset.refl _
  · intro f other
    exact decide_eq_false other.symm

theorem running_known (exclusive : Exclusive s) {f : FiberId} {own : Bool}
    (mem : w ∈ s.threads) (at_ : (s.worker w).pc = .running f own) : f < s.nextFiber := by
  apply exclusive.named w mem f
  left
  rw [at_]
  rfl

theorem exclusive_newFiber (exclusive : Exclusive s) (func : Fibers.Func) :
    Exclusive { s.setFiber s.nextFiber { m_func := some func } with
      nextFiber := s.nextFiber + 1 } := by
  refine exclusive_outside exclusive rfl rfl (Nat.le_succ _) ?_ ?_ ?_
  · intro task within f named
    exact Nat.lt_succ_of_lt (exclusive.queued task within f named)
  · intro f within
    exact Nat.lt_succ_of_lt (exclusive.stored f within)
  · intro f now
    exact (exec_setFiber now (fun running => by cases running)).1

theorem exclusive_trigger (exclusive : Exclusive s) {f : FiberId} (stored : f ∈ s.registered) :
    Exclusive { s.schedule [{ fiber := some f }] with registered := s.registered.erase f } := by
  have known := single_known (-1) (exclusive.stored f stored)
  refine exclusive_outside exclusive rfl rfl (Nat.le_refl _) (queued_known exclusive known) ?_ ?_
  · intro g within
    exact exclusive.stored g (List.mem_of_mem_erase within)
  · intro g now
    exact now

theorem exclusive_addEvent (exclusive : Exclusive s) {f : FiberId} (known : f < s.nextFiber) :
    Exclusive { s with registered := s.registered ++ [f] } := by
  refine exclusive_outside exclusive rfl rfl (Nat.le_refl _) exclusive.queued ?_ ?_
  · intro g within
    rcases List.mem_append.mp within with old | new
    · exact exclusive.stored g old
    · rw [List.mem_singleton.mp new]
      exact known
  · intro g now
    exact now

theorem exclusive_switchTo (exclusive : Exclusive s) {f : FiberId} (thread : ThreadId)
    (known : f < s.nextFiber) : Exclusive (s.switchTo w f thread) := by
  unfold System.switchTo
  split
  · exact exclusive
  · exact exclusive_schedule exclusive (single_known thread known)

theorem exclusive_tickle (exclusive : Exclusive s) {next : Next} (mem : w ∈ s.threads)
    (at_ : (s.worker w).pc = .tickle next) :
    Exclusive (s.goto w (if s.m_idleThreadCount > 0 then .tickleWrite next else next.pc)) := by
  apply exclusive_goto exclusive mem at_
  · intro f carries
    split at carries
    · exact carries
    · exact (next.pc_carries f).mp carries
  · split
    · exact List.Subset.refl _
    · rw [next.pc_holds]
      exact List.Subset.refl _
  · intro f
    rfl

theorem exclusive_tickleWrite (exclusive : Exclusive s) {next : Next} (mem : w ∈ s.threads)
    (at_ : (s.worker w).pc = .tickleWrite next) :
    Exclusive ({ s with pipe := s.pipe + 1 }.goto w next.pc) := by
  have written : Exclusive { s with pipe := s.pipe + 1 } :=
    exclusive.frame rfl rfl rfl rfl rfl rfl
  apply exclusive_goto written mem at_
  · intro f carries
    exact (next.pc_carries f).mp carries
  · rw [next.pc_holds]
    exact List.Subset.refl _
  · intro f
    rfl

theorem exclusive_yieldTo (exclusive : Exclusive s) {g : FiberId} {own : Bool}
    {target : Fibers.State} (mem : w ∈ s.threads) (at_ : (s.worker w).pc = .running g own)
    (leaves : target = .ready ∨ target = .hold)
    (done : s.yieldTo w g own target = some s') : Exclusive s' := by
  rcases Option.map_eq_some_iff.mp done with ⟨fiber, yielded, rfl⟩
  apply exclusive_saving exclusive mem at_
  rw [Fiber.yieldTo] at yielded
  split at yielded
  · cases yielded
    rcases leaves with rfl | rfl
    · intro running
      cases running
    · intro running
      cases running
  · cases yielded

theorem exclusive_finish (exclusive : Exclusive s) {g : FiberId} {own : Bool} (threw : Bool)
    (mem : w ∈ s.threads) (at_ : (s.worker w).pc = .running g own) :
    Exclusive (s.finish w g own threw) := by
  apply exclusive_saving exclusive mem at_
  cases threw
  · intro running
    cases running
  · intro running
    cases running

theorem exclusive_effect {act : Act} (exclusive : Exclusive s) (able : act.enabled s)
    (sole : s.SoleTake act) (done : act.effect s = some s') : Exclusive s' := by
  have site := able.1
  have guard := able.2
  cases act with
  | start | autoStop | stop | tickleOutside | writeOutside | tickleElsewhere | drain _ =>
      cases done
      exact exclusive.frame rfl rfl rfl rfl rfl rfl
  | newFiber func =>
      cases done
      exact exclusive_newFiber exclusive func
  | schedule tasks =>
      cases done
      exact exclusive_schedule exclusive guard
  | trigger f =>
      cases done
      exact exclusive_trigger exclusive guard
  | addEvent w f own =>
      cases done
      rcases site _ rfl with ⟨mem, at_⟩
      exact exclusive_addEvent exclusive (running_known exclusive mem at_)
  | switchTo w f own thread =>
      cases done
      rcases site _ rfl with ⟨mem, at_⟩
      exact exclusive_switchTo exclusive thread (running_known exclusive mem at_)
  | take w =>
      cases done
      rcases site _ rfl with ⟨mem, at_⟩
      exact exclusive_take exclusive mem at_ sole
  | tickle w next =>
      cases done
      rcases site _ rfl with ⟨mem, at_⟩
      exact exclusive_tickle exclusive mem at_
  | tickleWrite w next =>
      cases done
      rcases site _ rfl with ⟨mem, at_⟩
      exact exclusive_tickleWrite exclusive mem at_
  | branch w task =>
      rcases site _ rfl with ⟨mem, at_⟩
      exact exclusive_branch exclusive mem at_ done
  | swapIn w g own =>
      rcases site _ rfl with ⟨mem, at_⟩
      exact exclusive_swapIn exclusive mem at_ done
  | yieldTo w g own target =>
      rcases site _ rfl with ⟨mem, at_⟩
      exact exclusive_yieldTo exclusive mem at_ guard done
  | finish w g own threw =>
      cases done
      rcases site _ rfl with ⟨mem, at_⟩
      exact exclusive_finish exclusive threw mem at_
  | inspect w g own =>
      rcases site _ rfl with ⟨mem, at_⟩
      exact exclusive_inspect exclusive mem at_ done
  | requeue w g own =>
      cases done
      rcases site _ rfl with ⟨mem, at_⟩
      exact exclusive_requeue exclusive mem at_
  | swapOut _ _ _ | decrement _ _ _ | drop _ | goIdle _ | checkStopping _ _ | wake _ _ | endDrain _
  | leaveIdle _ _ =>
      rcases walk_step able done rfl with ⟨w, x, active, idle, mem, walk, kept, rfl⟩
      exact exclusive_walk exclusive mem walk kept

end Frames

theorem reach_exclusive {s : System} (reached : Reach scheduler System.SoleTake s) :
    Exclusive s := by
  apply reached.invariant Exclusive
  · rintro _ ⟨threads, _, rfl⟩
    constructor
    · intro task mem
      cases mem
    · intro f mem
      cases mem
    · rintro w _ f (carries | kept)
      · cases carries
      · cases kept
    · intro w _ v _ f holds
      cases holds
    · intro f now
      cases now
  · intro before act after _ exclusive sole moved
    rcases scheduler_step moved with ⟨able, done⟩
    exact exclusive_effect exclusive able sole done

theorem holds_of_occupies {worker : Worker} {f : FiberId}
    (occupies : worker.pc.occupies f = true) : f ∈ worker.holds := by
  cases at_ : worker.pc with
  | running g own =>
      rw [at_] at occupies
      rw [Worker.holds, at_]
      exact List.mem_singleton.mpr (of_decide_eq_true occupies).symm
  | saving g own =>
      rw [at_] at occupies
      rw [Worker.holds, at_]
      exact List.mem_singleton.mpr (of_decide_eq_true occupies).symm
  | _ =>
      rw [at_] at occupies
      cases occupies

theorem occupies_of_runs {pc : Pc} {f : FiberId} (runs : pc.runs f = true) :
    pc.occupies f = true := by
  cases pc with
  | running g own => exact runs
  | _ => cases runs

/-- No two workers are on one fiber, and where a worker is about to enter one,
the assertion of `swapIn` holds and nobody else is on it. -/
def FiberExclusive (s : System) : Prop :=
  (∀ w ∈ s.threads, ∀ v ∈ s.threads, ∀ f, (s.worker w).pc.occupies f = true →
    (s.worker v).pc.occupies f = true → w = v) ∧
  ∀ w ∈ s.threads, ∀ f own, (s.worker w).pc = .swapIn f own →
    (s.swapIn w f own).isSome = true ∧
      ∀ v ∈ s.threads, (s.worker v).pc.occupies f = false

theorem fiber_exclusive {s : System} (reached : Reach scheduler System.SoleTake s) :
    FiberExclusive s := by
  have exclusive := reach_exclusive reached
  constructor
  · intro w mem_w v mem_v f first second
    exact exclusive.sole w mem_w v mem_v f (holds_of_occupies first) (holds_of_occupies second)
  · intro w mem f own at_
    have entering : f ∈ (s.worker w).holds := by
      rw [Worker.holds, at_]
      exact List.mem_singleton.mpr rfl
    -- a holder that is also on the fiber would be this worker, which has not entered yet
    have nobody : ∀ v ∈ s.threads, (s.worker v).pc.occupies f = false := by
      intro v mem_v
      cases occupies : (s.worker v).pc.occupies f with
      | false => rfl
      | true =>
          have same := exclusive.sole v mem_v w mem f (holds_of_occupies occupies) entering
          rw [same, at_] at occupies
          cases occupies
    have waiting : (s.fibers f).m_state ≠ .exec := by
      intro now
      rcases exclusive.exec f now with ⟨v, mem_v, runs⟩
      have occupies := occupies_of_runs runs
      rw [nobody v mem_v] at occupies
      cases occupies
    refine ⟨?_, nobody⟩
    simp [System.swapIn, Fiber.swapIn, waiting]

theorem fiber_exclusive_run :
    ∃ s, run scheduler { threads := [1, 2] }
        [.newFiber 5, .schedule [{ fiber := some 0 }], .tickleOutside, .take 1,
          .branch 1 (some { fiber := some 0 }), .swapIn 1 0 false, .addEvent 1 0 false,
          .yieldTo 1 0 false .ready, .swapOut 1 0 false, .decrement 1 0 false,
          .inspect 1 0 false, .requeue 1 0 false, .take 2,
          .branch 2 (some { fiber := some 0 }), .swapIn 2 0 false] = some s ∧
      FiberExclusive s :=
  run_meets System.SoleTake ⟨[1, 2], by decide, rfl⟩ (by decide) (by decide)
    fun _ reached => fiber_exclusive reached

/-- A running fiber registers itself and is triggered before it yields; the
other worker takes it and meets the assertion in `swapIn`. -/
theorem trigger_before_yield_enters_twice :
    ¬ ∀ s, Reach scheduler anyStep s → FiberExclusive s := by
  intro claim
  obtain ⟨s, reached, facts⟩ := reach_where scheduler anyStep { threads := [1, 2] }
    [.newFiber 5, .schedule [{ fiber := some 0 }], .tickleOutside, .take 1,
      .branch 1 (some { fiber := some 0 }), .swapIn 1 0 false, .addEvent 1 0 false, .trigger 0,
      .tickleOutside, .take 2, .branch 2 (some { fiber := some 0 })]
    (fun s => (s.threads = [1, 2] && (s.worker 2).pc = .swapIn 0 false) &&
      !(s.swapIn 2 0 false).isSome)
    ⟨[1, 2], by decide, rfl⟩ (by decide) (by decide)
  simp only [Bool.and_eq_true, decide_eq_true_eq, Bool.not_eq_true'] at facts
  rcases facts with ⟨⟨threads, at_⟩, failed⟩
  have entered := ((claim s reached).2 2 (by rw [threads]; decide) 0 false at_).1
  rw [failed] at entered
  cases entered

end Ztyco.Scheduler
