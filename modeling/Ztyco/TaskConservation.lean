import Ztyco.SchedulerSteps

/-!
Conservation of tasks. A pushed task is in the queue or has been taken once, by
a worker that may run it, and the active count is the number of workers between
a take and its decrement.
-/

namespace Ztyco.Scheduler

open Transition
open Tally

structure Conserved (s : System) : Prop where
  all : (s.m_tasks ++ s.taken.map (·.2)).Perm s.pushed
  eligible : ∀ entry ∈ s.taken, entry.1 ∈ s.threads ∧ entry.2.mayRun entry.1 = true
  valid : ∀ task ∈ s.pushed, task.valid = true

section Take
variable {s : System} {w : ThreadId}

theorem take_some {task : ScheduleTask} {left : List ScheduleTask} {tickle_me : Bool}
    (found : takeTask w s.m_tasks = (some task, left, tickle_me)) :
    (s.take w).m_tasks = left ∧ (s.take w).taken = s.taken ++ [(w, task)] := by
  constructor
  · simp [System.take, System.goto, found]
  · simp [System.take, System.goto, found]

theorem take_none {left : List ScheduleTask} {tickle_me : Bool}
    (found : takeTask w s.m_tasks = (none, left, tickle_me)) :
    (s.take w).m_tasks = left ∧ (s.take w).taken = s.taken := by
  constructor
  · simp [System.take, System.goto, found]
  · simp [System.take, System.goto, found]

theorem conserved_take (conserved : Conserved s) (mem : w ∈ s.threads) :
    Conserved (s.take w) := by
  rcases takeTask_cases w s.m_tasks with ⟨skipped, task, rest, split, runs, _, found⟩ | ⟨_, found⟩
  · rcases take_some found with ⟨queue, taken⟩
    constructor
    · -- the task goes from the middle of the queue to the end of the taken ones
      have moved : (skipped ++ rest ++ (s.taken.map (·.2) ++ [task])).Perm
          (skipped ++ task :: rest ++ s.taken.map (·.2)) := by
        rw [← List.append_assoc]
        apply List.perm_append_comm.trans
        rw [List.append_assoc skipped, List.append_assoc skipped]
        change (task :: (skipped ++ (rest ++ s.taken.map (·.2)))).Perm
          (skipped ++ task :: (rest ++ s.taken.map (·.2)))
        exact List.perm_middle.symm
      rw [queue, taken, List.map_append]
      apply moved.trans
      rw [← split]
      exact conserved.all
    · intro entry within
      rw [taken, List.mem_append, List.mem_singleton] at within
      rcases within with earlier | rfl
      · exact conserved.eligible entry earlier
      · exact ⟨mem, runs⟩
    · exact conserved.valid
  · rcases take_none found with ⟨queue, taken⟩
    constructor
    · rw [queue, taken]
      exact conserved.all
    · rw [taken]
      exact conserved.eligible
    · exact conserved.valid

end Take

theorem reach_conserved {allowed : System → Act → Prop} {s : System}
    (reached : Reach scheduler allowed s) : Conserved s := by
  apply reached.invariant Conserved
  · rintro _ ⟨threads, _, rfl⟩
    constructor
    · exact List.Perm.nil
    · intro entry mem
      cases mem
    · intro task mem
      cases mem
  · intro before act after _ conserved _ moved
    rcases scheduler_step moved with ⟨able, done⟩
    have threads : after.threads = before.threads := (effect_follow able done).1
    rcases effect_queue able done with ⟨queue, taken, pushed⟩ | ⟨new, valid, queue, taken, pushed⟩
      | ⟨w, mem, _, rfl⟩
    · constructor
      · rw [queue, taken, pushed]
        exact conserved.all
      · rw [taken, threads]
        exact conserved.eligible
      · rw [pushed]
        exact conserved.valid
    · constructor
      · rw [queue, taken, pushed, List.append_assoc]
        apply ((List.perm_append_comm.append_left before.m_tasks).trans _)
        rw [← List.append_assoc]
        exact conserved.all.append_right new
      · rw [taken, threads]
        exact conserved.eligible
      · intro task mem
        rw [pushed, List.mem_append] at mem
        rcases mem with earlier | added
        · exact conserved.valid task earlier
        · exact valid task added
    · exact conserved_take conserved mem

/-- The earliest task the worker may run is removed and the others keep their
order, or the worker may run none and nothing is removed. -/
def TakesEarliest (s : System) (w : ThreadId) (s' : System) : Prop :=
  (∃ skipped task rest, s.m_tasks = skipped ++ task :: rest ∧ task.mayRun w = true ∧
    (∀ other ∈ skipped, other.mayRun w = false) ∧ s'.m_tasks = skipped ++ rest ∧
    s'.taken = s.taken ++ [(w, task)]) ∨
  ((∀ task ∈ s.m_tasks, task.mayRun w = false) ∧ s'.m_tasks = s.m_tasks ∧ s'.taken = s.taken)

theorem take_earliest (s : System) (w : ThreadId) : TakesEarliest s w (s.take w) := by
  rcases takeTask_cases w s.m_tasks with ⟨skipped, task, rest, split, runs, passed, found⟩ |
    ⟨passed, found⟩
  · rcases take_some found with ⟨queue, taken⟩
    exact Or.inl ⟨skipped, task, rest, split, runs, passed, queue, taken⟩
  · rcases take_none found with ⟨queue, taken⟩
    exact Or.inr ⟨passed, queue, taken⟩

/-- The workers between a take and the decrement that belongs to it. -/
def System.activeWorkers (s : System) : Nat := tally Worker.busy s.threads s.worker

structure TasksConserved (s : System) : Prop where
  conserved : (s.m_tasks ++ s.taken.map (·.2)).Perm s.pushed
  eligible : ∀ entry ∈ s.taken, entry.1 ∈ s.threads ∧
    (entry.2.threadId = -1 ∨ entry.2.threadId = entry.1)
  earliest : ∀ w s', scheduler.step s (.take w) = some s' → TakesEarliest s w s'
  active : s.m_activeThreadCount.toNat = s.activeWorkers
  positive : ∀ w ∈ s.threads, (s.worker w).pc = .drop ∨
    (∃ f own, (s.worker w).pc = .returned f own) → 0 < s.m_activeThreadCount.toNat

theorem tasks_conserved {s : System} (reached : Reach scheduler anyStep s) :
    TasksConserved s := by
  have conserved := reach_conserved reached
  have counted := reach_counted reached
  constructor
  · exact conserved.all
  · intro entry mem
    rcases conserved.eligible entry mem with ⟨worker, runs⟩
    exact ⟨worker, by simpa [ScheduleTask.mayRun] using runs⟩
  · intro w s' moved
    rcases scheduler_step moved with ⟨_, done⟩
    cases done
    exact take_earliest s w
  · exact counted.active
  · intro w mem at_
    have busy : (s.worker w).busy = 1 := by
      rcases at_ with at_ | ⟨f, own, at_⟩
      · simp [Worker.busy, at_, Pc.busy]
      · simp [Worker.busy, at_, Pc.busy]
    have counts := weight_le_tally Worker.busy s.worker mem
    rw [counted.active]
    omega

theorem tasks_conserved_run :
    ∃ s, run scheduler { threads := [1, 2] }
        [.newFiber 5, .schedule [{ fiber := some 0, threadId := 2 }, { func := some 9 }, {}],
          .take 1, .tickle 1 (.branch (some { func := some 9 })),
          .branch 1 (some { func := some 9 }), .swapIn 1 1 true, .take 2,
          .branch 2 (some { fiber := some 0, threadId := 2 }), .finish 1 1 true false] = some s ∧
      TasksConserved s :=
  run_meets anyStep ⟨[1, 2], by decide, rfl⟩ (by decide) (by decide)
    fun _ reached => tasks_conserved reached

end Ztyco.Scheduler
