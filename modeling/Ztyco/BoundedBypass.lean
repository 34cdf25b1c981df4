import Ztyco.FirstFit
import Ztyco.TaskConservation

/-!
How long a task waits in `m_tasks`. The scan of `run` takes the first task that
the worker may run, so a task is passed over only by workers that are not named
by it, or for the tasks that were ahead of it when it was pushed.
-/

namespace Ztyco.Scheduler

open FirstFit (Served Waits turns)
open Transition

/-- What a task that had `ahead` before it has come to, with what was taken since. -/
def Followed (ahead : List ScheduleTask) (task : ScheduleTask)
    (since : List (ThreadId × ScheduleTask)) (s : System) : Prop :=
  ∃ new, s.taken = since ++ new ∧
    (Waits ScheduleTask.mayRun ahead task s.m_tasks new ∨ Served ahead task new)

section Steps
variable {ahead : List ScheduleTask} {task : ScheduleTask}
  {since : List (ThreadId × ScheduleTask)} {s after : System}

theorem Followed.take (followed : Followed ahead task since s) (w : ThreadId) :
    Followed ahead task since (s.take w) := by
  rcases followed with ⟨new, taken, outcome⟩
  rcases take_earliest s w with ⟨skipped, first, rest, queue, runs, passed, left, grown⟩ |
    ⟨_, queue, same⟩
  · refine ⟨new ++ [(w, first)], ?_, ?_⟩
    · rw [grown, taken, List.append_assoc]
    · rcases outcome with waits | served
      · rw [queue] at waits
        rw [left]
        exact waits.take runs passed
      · exact Or.inr (served.append _)
  · exact ⟨new, by rw [same, taken], by rw [queue]; exact outcome⟩

theorem Followed.step {act : Act} (followed : Followed ahead task since s)
    (moved : scheduler.step s act = some after) : Followed ahead task since after := by
  rcases scheduler_step moved with ⟨able, done⟩
  rcases effect_queue able done with ⟨queue, taken, _⟩ | ⟨new, _, queue, taken, _⟩ | ⟨w, _, _, rfl⟩
  · rcases followed with ⟨earlier, same, outcome⟩
    exact ⟨earlier, by rw [taken, same], by rw [queue]; exact outcome⟩
  · rcases followed with ⟨earlier, same, outcome⟩
    refine ⟨earlier, by rw [taken, same], ?_⟩
    rw [queue]
    exact outcome.imp_left fun waits => waits.append new
  · exact followed.take w

/-- A worker that may run what waits takes something. -/
theorem takes_of_waits {new : List (ThreadId × ScheduleTask)} {w : ThreadId}
    (waits : Waits ScheduleTask.mayRun ahead task s.m_tasks new) (runs : task.mayRun w = true)
    (moved : scheduler.step s (.take w) = some after) :
    after.taken.length = s.taken.length + 1 := by
  rcases scheduler_step moved with ⟨_, done⟩
  cases done
  rcases take_earliest s w with ⟨_, _, _, _, _, _, _, grown⟩ | ⟨none, _, _⟩
  · rw [grown, List.length_append, List.length_singleton]
  · rcases waits.finds runs with ⟨other, mem, found⟩
    rw [none other mem] at found
    cases found

end Steps

/-- With the tasks `ahead` of it, a task is taken at the latest when the workers that
may run it have taken one task more than there are ahead, and until then each of their
scans takes a task. -/
theorem bounded_bypass {allowed : System → Act → Prop} {s s' : System}
    (path : Path scheduler allowed s s') {ahead behind : List ScheduleTask} {task : ScheduleTask}
    (queued : s.m_tasks = ahead ++ task :: behind) :
    ∃ new, s'.taken = s.taken ++ new ∧ (Served ahead task new ∨
      turns ScheduleTask.mayRun task new ≤ ahead.length ∧ task ∈ s'.m_tasks ∧
        ∀ w after, task.mayRun w = true → scheduler.step s' (.take w) = some after →
          after.taken.length = s'.taken.length + 1) := by
  have start : Followed ahead task s.taken s := by
    refine ⟨[], by simp, Or.inl ?_⟩
    rw [queued]
    exact FirstFit.waits_start _ ahead task behind
  have followed := path.invariant (Followed ahead task s.taken)
    (fun _ _ _ holds _ moved => holds.step moved) start
  rcases followed with ⟨new, taken, waits | served⟩
  · refine ⟨new, taken, Or.inr ⟨waits.turns_le, ?_, fun w after runs moved =>
      takes_of_waits waits runs moved⟩⟩
    rcases waits with ⟨before, later, queue, _⟩
    rw [queue]
    simp
  · exact ⟨new, taken, Or.inl served⟩

def threeQueued : System :=
  { threads := [1, 2]
    m_tasks := [{ func := some 5 }, { func := some 6, threadId := 1 }, { func := some 7 }]
    pushed := [{ func := some 5 }, { func := some 6, threadId := 1 }, { func := some 7 }] }

theorem bounded_bypass_two :
    ∃ s', run scheduler threeQueued [.take 2, .take 1] = some s' ∧
      ∃ new, s'.taken = threeQueued.taken ++ new ∧
        (Served [{ func := some 5 }, { func := some 6, threadId := 1 }] { func := some 7 } new ∨
          turns ScheduleTask.mayRun { func := some 7 } new ≤ 2 ∧
            { func := some 7 } ∈ s'.m_tasks ∧
            ∀ w after, ({ func := some 7 } : ScheduleTask).mayRun w = true →
              scheduler.step s' (.take w) = some after →
                after.taken.length = s'.taken.length + 1) := by
  have follows : Follows scheduler anyStep threeQueued [.take 2, .take 1] := by decide
  have ends : (run scheduler threeQueued [.take 2, .take 1]).isSome = true := by decide
  obtain ⟨s', result⟩ := Option.isSome_iff_exists.mp ends
  exact ⟨s', result, bounded_bypass (path_of_follows follows result) rfl⟩

end Ztyco.Scheduler
