import Ztyco.SchedulerSteps

/-!
What `Scheduler::stopping()` can promise. A fiber that yielded with state READY
is in the queue or in some worker's hands until it runs again. `stopping()`
sees the queue and the active count; it does not see a worker that has counted
itself down and has yet to put its READY fiber back.
-/

namespace Ztyco.Scheduler

open Fibers (FiberId Fiber)
open Transition
open Tally

/-- The worker has decremented the active count and not yet put the fiber back. -/
def Pc.requeues (f : FiberId) : Pc → Bool
  | .inspect g _ | .requeue g _ => g = f
  | _ => false

/-- A fiber carried by a worker that is not busy is about to be put back. -/
theorem requeues_of_carries {pc : Pc} {f : FiberId} (carries : pc.carries f)
    (released : pc.busy = false) : pc.requeues f = true := by
  cases pc with
  | inspect g own => exact decide_eq_true carries
  | requeue g own => exact decide_eq_true carries
  | tickle next =>
      cases next with
      | branch task =>
          cases task with
          | none => cases carries
          | some task => cases released
      | scan => cases carries
  | tickleWrite next =>
      cases next with
      | branch task =>
          cases task with
          | none => cases carries
          | some task => cases released
      | scan => cases carries
  | branch task =>
      cases task with
      | none => cases carries
      | some task => cases released
  | swapIn g own => cases released
  | running g own => cases released
  | saving g own => cases released
  | returned g own => cases released
  | drop => cases released
  | scan => cases carries
  | goIdle => cases carries
  | idle => cases carries
  | epollWait => cases carries
  | draining => cases carries
  | leaveIdle term => cases carries
  | exit => cases carries

def System.ready (s : System) (f : FiberId) : Prop := (s.fibers f).m_state = .ready

def System.queued (s : System) (f : FiberId) : Prop := ∃ task ∈ s.m_tasks, task.fiber = some f

/-- No READY fiber is lost: it is queued or carried. -/
def ReadyHeld (s : System) : Prop :=
  ∀ f, s.ready f → s.queued f ∨ ∃ w ∈ s.threads, (s.worker w).pc.carries f

section Frames
variable {s s' : System} {w : ThreadId}

theorem ready_outside (held : ReadyHeld s) (threads : s'.threads = s.threads)
    (worker : s'.worker = s.worker) (queued : ∀ f, s.queued f → s'.queued f)
    (ready : ∀ f, s'.ready f → s.ready f) : ReadyHeld s' := by
  intro f now
  rcases held f (ready f now) with waiting | ⟨w, mem, carries⟩
  · exact Or.inl (queued f waiting)
  · refine Or.inr ⟨w, ?_, ?_⟩
    · rw [threads]
      exact mem
    · rw [worker]
      exact carries

theorem ReadyHeld.frame (held : ReadyHeld s) (threads : s'.threads = s.threads)
    (worker : s'.worker = s.worker) (queue : s'.m_tasks = s.m_tasks)
    (fibers : s'.fibers = s.fibers) : ReadyHeld s' := by
  apply ready_outside held threads worker
  · rintro f ⟨task, mem, named⟩
    exact ⟨task, queue ▸ mem, named⟩
  · intro f now
    simpa [System.ready, fibers] using now

/-- One worker moves. What it carried it goes on carrying or has queued, and a
fiber that becomes READY is in its hands. -/
theorem ready_moves (held : ReadyHeld s) (x : Worker) (mem : w ∈ s.threads)
    (threads : s'.threads = s.threads) (worker : s'.worker = Function.update s.worker w x)
    (queued : ∀ f, s.queued f → s'.queued f ∨ x.pc.carries f)
    (ready : ∀ f, s'.ready f → s.ready f ∨ x.pc.carries f)
    (kept : ∀ f, s'.ready f → (s.worker w).pc.carries f → x.pc.carries f ∨ s'.queued f) :
    ReadyHeld s' := by
  intro f now
  have inHand : x.pc.carries f → s'.queued f ∨ ∃ w ∈ s'.threads, (s'.worker w).pc.carries f := by
    intro carries
    refine Or.inr ⟨w, ?_, ?_⟩
    · rw [threads]
      exact mem
    · rw [worker, Function.update_self]
      exact carries
  rcases ready f now with before | carries
  · rcases held f before with waiting | ⟨v, mem_v, carries⟩
    · rcases queued f waiting with still | carries
      · exact Or.inl still
      · exact inHand carries
    · -- the carrier is the worker that moves, or another one and nothing changes
      by_cases same : v = w
      · subst same
        rcases kept f now carries with carries | waiting
        · exact inHand carries
        · exact Or.inl waiting
      · refine Or.inr ⟨v, ?_, ?_⟩
        · rw [threads]
          exact mem_v
        · rw [worker, Function.update_of_ne same]
          exact carries
  · exact inHand carries

theorem ready_goto (held : ReadyHeld s) {pc pc' : Pc} (mem : w ∈ s.threads)
    (at_ : (s.worker w).pc = pc) (kept : ∀ f, s.ready f → pc.carries f → pc'.carries f) :
    ReadyHeld (s.goto w pc') := by
  refine ready_moves held { s.worker w with pc := pc' } mem rfl rfl ?_ ?_ ?_
  · intro f waiting
    exact Or.inl waiting
  · intro f now
    exact Or.inl now
  · intro f now carries
    rw [at_] at carries
    exact Or.inl (kept f now carries)

theorem ready_setFiber {f g : FiberId} {fiber : Fiber} (now : (s.setFiber g fiber).ready f)
    (quiet : fiber.m_state ≠ .ready) : s.ready f ∧ f ≠ g := by
  by_cases same : f = g
  · subst same
    exact absurd (by simpa [System.ready, System.setFiber] using now) quiet
  · exact ⟨by simpa [System.ready, System.setFiber, same] using now, same⟩

theorem ready_sets (held : ReadyHeld s) {pc pc' : Pc} {g : FiberId} {fiber : Fiber}
    (mem : w ∈ s.threads) (at_ : (s.worker w).pc = pc) (quiet : fiber.m_state ≠ .ready)
    (kept : ∀ f, f ≠ g → s.ready f → pc.carries f → pc'.carries f) :
    ReadyHeld ((s.setFiber g fiber).goto w pc') := by
  refine ready_moves held { s.worker w with pc := pc' } mem rfl rfl ?_ ?_ ?_
  · intro f waiting
    exact Or.inl waiting
  · intro f now
    exact Or.inl (ready_setFiber now quiet).1
  · intro f now carries
    rw [at_] at carries
    rcases ready_setFiber now quiet with ⟨before, other⟩
    exact Or.inl (kept f other before carries)

theorem queued_push (tasks : List ScheduleTask) {f : FiberId} (waiting : s.queued f) :
    (s.push tasks).queued f := by
  rcases waiting with ⟨task, mem, named⟩
  refine ⟨task, ?_, named⟩
  simp only [System.push, scheduleAll_tasks]
  exact List.mem_append_left _ mem

theorem ready_schedule (held : ReadyHeld s) (tasks : List ScheduleTask) :
    ReadyHeld (s.schedule tasks) := by
  refine ready_outside held rfl rfl ?_ ?_
  · intro f waiting
    exact queued_push tasks waiting
  · intro f now
    exact now

theorem ready_take (held : ReadyHeld s) (mem : w ∈ s.threads)
    (at_ : (s.worker w).pc = .scan) : ReadyHeld (s.take w) := by
  refine ready_moves held _ mem rfl rfl ?_ ?_ ?_
  · intro f waiting
    rcases waiting with ⟨task, within, named⟩
    rcases takeTask_cases w s.m_tasks with ⟨skipped, taken, rest, split, _, _, found⟩ | ⟨_, found⟩
    · rw [split, List.mem_append, List.mem_cons] at within
      have stays : task ∈ skipped ++ rest → (s.take w).queued f := by
        intro within
        exact ⟨task, by simpa [System.take, System.goto, found] using within, named⟩
      rcases within with early | rfl | late
      · exact Or.inl (stays (List.mem_append_left rest early))
      · right
        simp only [found]
        cases !(skipped ++ rest).isEmpty
        · exact named
        · exact named
      · exact Or.inl (stays (List.mem_append_right skipped late))
    · exact Or.inl ⟨task, by simpa [System.take, System.goto, found] using within, named⟩
  · intro f now
    exact Or.inl now
  · intro f _ carries
    rw [at_] at carries
    cases carries

theorem ready_branch (held : ReadyHeld s) {task : Option ScheduleTask} (mem : w ∈ s.threads)
    (at_ : (s.worker w).pc = .branch task) (done : s.branch w task = some s') : ReadyHeld s' := by
  -- a task whose fiber has finished, or has none, has no READY fiber to lose
  have unready : ∀ t : ScheduleTask,
      (∀ f, t.fiber = some f → (s.fibers f).m_state.finished = true) →
      ∀ f, s.ready f → ¬ t.fiber = some f := by
    intro t finished f now named
    have ended := finished f named
    rw [show (s.fibers f).m_state = .ready from now] at ended
    cases ended
  rcases branch_cases done with ⟨t, g, rfl, named, _, rfl⟩ | ⟨t, func, rfl, _, finished, run⟩ |
    ⟨t, rfl, _, finished, rfl⟩ | ⟨rfl, rfl⟩
  · apply ready_goto held mem at_
    intro f _ carries
    exact Option.some.inj (named.symm.trans carries)
  · have bare : ∀ f, s.ready f → ¬ (Pc.branch (some t)).carries f := unready t finished
    rcases funcBranch_cases run with ⟨g, fiber, _, reset, rfl⟩ | ⟨_, rfl⟩
    · have quiet : fiber.m_state ≠ .ready := by
        rw [resetFunc_state reset]
        decide
      apply ready_sets held mem at_ quiet
      intro f _ now carries
      exact absurd carries (bare f now)
    · have fresh : ({ m_func := some func } : Fiber).m_state ≠ .ready := by
        intro ready
        cases ready
      refine ready_moves held { s.worker w with
        pc := .swapIn s.nextFiber true, func_fiber := some s.nextFiber } mem rfl rfl ?_ ?_ ?_
      · intro f waiting
        exact Or.inl waiting
      · intro f now
        exact Or.inl (ready_setFiber now fresh).1
      · intro f now carries
        rw [at_] at carries
        exact absurd carries (bare f (ready_setFiber now fresh).1)
  · apply ready_goto held mem at_
    intro f now carries
    exact unready t finished f now carries
  · apply ready_goto held mem at_
    intro f _ carries
    cases carries

/-- A fiber that comes back READY is put back; in the other cases it is not
READY when the worker lets go of it. -/
theorem ready_inspect (held : ReadyHeld s) {g : FiberId} {own : Bool} (mem : w ∈ s.threads)
    (at_ : (s.worker w).pc = .inspect g own) (done : s.inspect w g own = some s') :
    ReadyHeld s' := by
  rcases inspect_cases done with ⟨_, rfl⟩ | ⟨finished, fiber, kind, rfl⟩ | rfl
  · apply ready_goto held mem at_
    intro f _ carries
    exact carries
  · have quiet : fiber.m_state ≠ .ready := by
      intro ready
      rcases kind with rfl | init
      · rw [ready] at finished
        cases finished
      · rw [init] at ready
        cases ready
    apply ready_sets held mem at_ quiet
    intro f other _ carries
    exact absurd carries.symm other
  · have quiet : { s.fibers g with m_state := .hold }.m_state ≠ .ready := by
      intro ready
      cases ready
    refine ready_moves held ((s.worker w).released own .scan) mem rfl rfl ?_ ?_ ?_
    · intro f waiting
      exact Or.inl waiting
    · intro f now
      exact Or.inl (ready_setFiber now quiet).1
    · intro f now carries
      rw [at_] at carries
      exact absurd carries.symm (ready_setFiber now quiet).2

theorem ready_requeue (held : ReadyHeld s) {g : FiberId} {own : Bool} (mem : w ∈ s.threads)
    (at_ : (s.worker w).pc = .requeue g own) : ReadyHeld (s.requeue w g own) := by
  rw [requeue_eq]
  refine ready_moves held ((s.worker w).released own
    (if s.needTickle [{ fiber := some g }] then .tickle .scan else .scan)) mem rfl rfl ?_ ?_ ?_
  · intro f waiting
    exact Or.inl (queued_push [{ fiber := some g }] waiting)
  · intro f now
    exact Or.inl now
  · intro f _ carries
    rw [at_] at carries
    right
    refine ⟨{ fiber := some g }, ?_, congrArg some carries⟩
    simp [System.push, scheduleAll_tasks, ScheduleTask.valid]

theorem ready_walk (held : ReadyHeld s) {x : Worker} {active idle : UInt64} (mem : w ∈ s.threads)
    (walk : Walk (s.worker w).pc x.pc) : ReadyHeld { s with
      worker := Function.update s.worker w x
      m_activeThreadCount := active
      m_idleThreadCount := idle } := by
  refine ready_moves held x mem rfl rfl ?_ ?_ ?_
  · intro f waiting
    exact Or.inl waiting
  · intro f now
    exact Or.inl now
  · intro f _ carries
    exact Or.inl ((walk.carries f).mpr carries)

theorem ready_swapIn (held : ReadyHeld s) {g : FiberId} {own : Bool} (mem : w ∈ s.threads)
    (at_ : (s.worker w).pc = .swapIn g own) (done : s.swapIn w g own = some s') :
    ReadyHeld s' := by
  rcases Option.map_eq_some_iff.mp done with ⟨fiber, entered, rfl⟩
  have quiet : fiber.m_state ≠ .ready := by
    rw [Fiber.swapIn] at entered
    split at entered
    · cases entered
    · cases entered
      intro ready
      cases ready
  apply ready_sets held mem at_ quiet
  intro f _ _ carries
  exact carries

theorem ready_yieldTo (held : ReadyHeld s) {g : FiberId} {own : Bool} {target : Fibers.State}
    (mem : w ∈ s.threads) (at_ : (s.worker w).pc = .running g own)
    (done : s.yieldTo w g own target = some s') : ReadyHeld s' := by
  rcases Option.map_eq_some_iff.mp done with ⟨fiber, _, rfl⟩
  refine ready_moves held { s.worker w with pc := .saving g own } mem rfl rfl ?_ ?_ ?_
  · intro f waiting
    exact Or.inl waiting
  · intro f now
    by_cases same : f = g
    · exact Or.inr same.symm
    · exact Or.inl (by simpa [System.ready, System.setFiber, System.goto, same] using now)
  · intro f _ carries
    rw [at_] at carries
    exact Or.inl carries

theorem ready_finish (held : ReadyHeld s) {g : FiberId} {own : Bool} (threw : Bool)
    (mem : w ∈ s.threads) (at_ : (s.worker w).pc = .running g own) :
    ReadyHeld (s.finish w g own threw) := by
  have quiet : ((s.fibers g).finish threw).m_state ≠ .ready := by
    cases threw
    · intro ready
      cases ready
    · intro ready
      cases ready
  apply ready_sets held mem at_ quiet
  intro f _ _ carries
  exact carries

theorem ready_tickle (held : ReadyHeld s) {next : Next} (mem : w ∈ s.threads)
    (at_ : (s.worker w).pc = .tickle next) :
    ReadyHeld (s.goto w (if s.m_idleThreadCount > 0 then .tickleWrite next else next.pc)) := by
  apply ready_goto held mem at_
  intro f _ carries
  split
  · exact carries
  · exact (next.pc_carries f).mpr carries

theorem ready_effect {act : Act} (held : ReadyHeld s) (able : act.enabled s)
    (done : act.effect s = some s') : ReadyHeld s' := by
  have site := able.1
  have guard := able.2
  cases act with
  | start | autoStop | stop | tickleOutside | writeOutside | tickleElsewhere | addEvent _ _ _
  | drain _ =>
      cases done
      exact held.frame rfl rfl rfl rfl
  | newFiber func =>
      cases done
      refine ready_outside held rfl rfl ?_ ?_
      · intro f waiting
        exact waiting
      · intro f now
        exact (ready_setFiber now (fun ready => by cases ready)).1
  | schedule tasks =>
      cases done
      exact ready_schedule held tasks
  | trigger f =>
      cases done
      exact (ready_schedule held [{ fiber := some f }]).frame rfl rfl rfl rfl
  | switchTo w f own thread =>
      cases done
      unfold System.switchTo
      split
      · exact held
      · exact ready_schedule held _
  | take w =>
      cases done
      rcases site _ rfl with ⟨mem, at_⟩
      exact ready_take held mem at_
  | tickle w next =>
      cases done
      rcases site _ rfl with ⟨mem, at_⟩
      exact ready_tickle held mem at_
  | tickleWrite w next =>
      cases done
      rcases site _ rfl with ⟨mem, at_⟩
      have written : ReadyHeld { s with pipe := s.pipe + 1 } := held.frame rfl rfl rfl rfl
      apply ready_goto written mem at_
      intro f _ carries
      exact (next.pc_carries f).mpr carries
  | branch w task =>
      rcases site _ rfl with ⟨mem, at_⟩
      exact ready_branch held mem at_ done
  | swapIn w g own =>
      rcases site _ rfl with ⟨mem, at_⟩
      exact ready_swapIn held mem at_ done
  | yieldTo w g own target =>
      rcases site _ rfl with ⟨mem, at_⟩
      exact ready_yieldTo held mem at_ done
  | finish w g own threw =>
      cases done
      rcases site _ rfl with ⟨mem, at_⟩
      exact ready_finish held threw mem at_
  | inspect w g own =>
      rcases site _ rfl with ⟨mem, at_⟩
      exact ready_inspect held mem at_ done
  | requeue w g own =>
      cases done
      rcases site _ rfl with ⟨mem, at_⟩
      exact ready_requeue held mem at_
  | swapOut _ _ _ | decrement _ _ _ | drop _ | goIdle _ | checkStopping _ _ | wake _ _ | endDrain _
  | leaveIdle _ _ =>
      rcases walk_step able done rfl with ⟨w, x, active, idle, mem, walk, _, rfl⟩
      exact ready_walk held mem walk

end Frames

theorem reach_ready_held {allowed : System → Act → Prop} {s : System}
    (reached : Reach scheduler allowed s) : ReadyHeld s := by
  apply reached.invariant ReadyHeld
  · rintro _ ⟨threads, _, rfl⟩ f now
    cases now
  · intro before act after _ held _ moved
    rcases scheduler_step moved with ⟨able, done⟩
    exact ready_effect held able done

/-- No task is queued, no worker is executing one, and no fiber that yielded
READY has left its processor without being queued: there is no READY fiber. -/
def Quiet (s : System) : Prop :=
  s.m_tasks = [] ∧ (∀ w ∈ s.threads, (s.worker w).pc.busy = false) ∧
    ∀ f, (s.fibers f).m_state ≠ .ready

def Requeuing (s : System) : Prop :=
  ∃ w ∈ s.threads, ∃ f, (s.worker w).pc.requeues f = true ∧ (s.fibers f).m_state = .ready

theorem stopping_iff {s : System} : s.stopping = true ↔
    s.m_autoStop = true ∧ s.m_stopping = true ∧ s.m_tasks = [] ∧ s.m_activeThreadCount = 0 := by
  simp [System.stopping, and_assoc]

/-- Whenever `stopping()` returns true, nothing is left to run if and only if
no worker is about to put a READY fiber back. -/
theorem stopping_quiet_iff {s : System} (reached : Reach scheduler anyStep s)
    (stopped : s.stopping = true) : Quiet s ↔ ¬ Requeuing s := by
  rcases stopping_iff.mp stopped with ⟨_, _, empty, inactive⟩
  have idle : ∀ w ∈ s.threads, (s.worker w).pc.busy = false := by
    intro w mem
    have none_active := (count_zero (reach_counted reached).active).mp inactive
    have weight := tally_eq_zero.mp none_active w mem
    simpa [Worker.busy] using weight
  constructor
  · rintro ⟨_, _, unready⟩ ⟨w, _, f, _, ready⟩
    exact unready f ready
  · intro none_requeues
    refine ⟨empty, idle, ?_⟩
    intro f ready
    rcases reach_ready_held reached f ready with ⟨task, queued, _⟩ | ⟨w, mem, carries⟩
    · rw [empty] at queued
      cases queued
    · exact none_requeues ⟨w, mem, f, requeues_of_carries carries (idle w mem), ready⟩

theorem stopping_quiet_iff_run :
    ∃ s, run scheduler { threads := [1, 2] }
        [.newFiber 5, .schedule [{ fiber := some 0 }], .take 1,
          .branch 1 (some { fiber := some 0 }), .swapIn 1 0 false, .yieldTo 1 0 false .hold,
          .swapOut 1 0 false, .decrement 1 0 false,
          .inspect 1 0 false, .autoStop, .stop] = some s ∧
      s.stopping = true ∧ (Quiet s ↔ ¬ Requeuing s) :=
  run_meets_where anyStep System.stopping ⟨[1, 2], by decide, rfl⟩ (by decide) (by decide)
    fun _ reached stopped => ⟨stopped, stopping_quiet_iff reached stopped⟩

/-- A worker whose fiber yielded READY has decremented the active count and not
yet queued the fiber: `stopping()` returns true. -/
theorem stopping_overlooks_ready_fiber :
    ¬ ∀ s, Reach scheduler anyStep s → s.stopping = true → Quiet s := by
  intro claim
  obtain ⟨s, reached, facts⟩ := reach_where scheduler anyStep { threads := [1, 2] }
    [.newFiber 5, .schedule [{ fiber := some 0 }], .take 1, .branch 1 (some { fiber := some 0 }),
      .swapIn 1 0 false, .autoStop, .stop, .yieldTo 1 0 false .ready, .swapOut 1 0 false,
      .decrement 1 0 false]
    (fun s => s.stopping && (s.fibers 0).m_state = .ready)
    ⟨[1, 2], by decide, rfl⟩ (by decide) (by decide)
  simp only [Bool.and_eq_true, decide_eq_true_eq] at facts
  exact (claim s reached facts.1).2.2 0 facts.2

end Ztyco.Scheduler
