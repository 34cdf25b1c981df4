import Ztyco.SchedulerSteps

/-!
Who wakes a sleeping worker. A worker that finds nothing to take is asleep from
that scan until its `epoll_wait` returns, but it is counted as idle only from
`++m_idleThreadCount`: a tickle in between is dropped. `schedule()` tickles
only for an empty queue, and a byte in the pipe wakes and is read by any
worker, whoever the queued task is pinned to. Where none of the three cases
bites, each queued task has a tickle on its way or a worker that will scan the
queue before it sleeps.
-/

namespace Ztyco.Scheduler

open Fibers (FiberId)
open Transition
open Tally

/-- Between a scan that took nothing and `++m_idleThreadCount`. -/
def Pc.inWindow : Pc → Bool
  | .tickle (.branch none) | .tickleWrite (.branch none) | .branch none | .goIdle => true
  | _ => false

def Pc.awake : Pc → Bool
  | .tickle (.branch none) | .tickleWrite (.branch none) | .branch none | .goIdle | .idle
  | .epollWait | .exit => false
  | _ => true

def Pc.live : Pc → Bool
  | .exit => false
  | _ => true

def Pc.tickles : Pc → Bool
  | .tickle _ | .tickleWrite _ => true
  | _ => false

namespace System
variable (s : System)

def mayTake (task : ScheduleTask) (w : ThreadId) : Bool :=
  task.mayRun w && (s.worker w).pc.live

def TicklePending : Prop :=
  0 < s.tickling ∨ 0 < s.writing ∨ ∃ w ∈ s.threads, (s.worker w).pc.tickles = true

def Signalled : Prop := 0 < s.pipe ∨ s.TicklePending

def Served (task : ScheduleTask) : Prop :=
  (∃ w ∈ s.threads, s.mayTake task w = true) →
    ∃ w ∈ s.threads, s.mayTake task w = true ∧ (s.worker w).pc.awake = true

def OutsideWindow (task : ScheduleTask) : Prop :=
  (∃ w ∈ s.threads, s.mayTake task w = true) →
    ∃ w ∈ s.threads, s.mayTake task w = true ∧ (s.worker w).pc.inWindow = false

/-- A task pushed onto a queue that is not empty needs no tickle of its own: a
worker that is awake may take it, or it is not pinned and some queued task can
be taken. -/
def PushServed (task : ScheduleTask) : Prop :=
  s.Served task ∨
    task.threadId = -1 ∧ ∃ queued ∈ s.m_tasks, ∃ w ∈ s.threads, s.mayTake queued w = true

/-- A push that decides on no tickle, with none under way, leaves its tasks to
workers that are awake. -/
def PushHeard (tasks : List ScheduleTask) : Prop :=
  s.m_tasks ≠ [] → s.Signalled ∨ ∀ task ∈ tasks, task.valid = true → s.PushServed task

/-- The steps that may lose a wake-up, where they do not: a tickle that finds
nobody counted as idle, a push that decides on no tickle, a read of the last
bytes. -/
def Heard : Act → Prop
  | .tickle w next => s.m_idleThreadCount = 0 →
      (s.goto w next.pc).Signalled ∨ ∀ task ∈ s.m_tasks, s.OutsideWindow task
  | .tickleOutside => s.m_idleThreadCount = 0 →
      { s with tickling := s.tickling - 1 }.Signalled ∨ ∀ task ∈ s.m_tasks, s.OutsideWindow task
  | .schedule tasks => s.PushHeard tasks
  | .trigger f => s.PushHeard [{ fiber := some f }]
  | .switchTo _ f _ thread => s.PushHeard [{ fiber := some f, threadId := thread }]
  | .drain _ => 256 < s.pipe ∨ s.TicklePending ∨
      ∀ task ∈ s.m_tasks, task.threadId ≠ -1 → s.Served task
  | _ => True

instance TicklePending.decidable : Decidable s.TicklePending := by
  unfold TicklePending
  infer_instance

instance Signalled.decidable : Decidable s.Signalled := by
  unfold Signalled
  infer_instance

instance Served.decidable (task : ScheduleTask) : Decidable (s.Served task) := by
  unfold Served
  infer_instance

instance OutsideWindow.decidable (task : ScheduleTask) : Decidable (s.OutsideWindow task) := by
  unfold OutsideWindow
  infer_instance

instance PushHeard.decidable (tasks : List ScheduleTask) : Decidable (s.PushHeard tasks) := by
  unfold PushHeard PushServed
  infer_instance

instance Heard.decidable : (act : Act) → Decidable (s.Heard act)
  | .tickle w next => inferInstanceAs (Decidable (s.m_idleThreadCount = 0 →
      (s.goto w next.pc).Signalled ∨ ∀ task ∈ s.m_tasks, s.OutsideWindow task))
  | .tickleOutside => inferInstanceAs (Decidable (s.m_idleThreadCount = 0 →
      { s with tickling := s.tickling - 1 }.Signalled ∨ ∀ task ∈ s.m_tasks, s.OutsideWindow task))
  | .schedule tasks => inferInstanceAs (Decidable (s.PushHeard tasks))
  | .trigger f => inferInstanceAs (Decidable (s.PushHeard [{ fiber := some f }]))
  | .switchTo _ f _ thread =>
      inferInstanceAs (Decidable (s.PushHeard [{ fiber := some f, threadId := thread }]))
  | .drain _ => inferInstanceAs (Decidable (256 < s.pipe ∨ s.TicklePending ∨
      ∀ task ∈ s.m_tasks, task.threadId ≠ -1 → s.Served task))
  | .start | .autoStop | .stop | .newFiber _ | .writeOutside | .tickleElsewhere | .addEvent _ _ _
  | .take _ | .tickleWrite _ _ | .branch _ _ | .swapIn _ _ _ | .yieldTo _ _ _ _
  | .finish _ _ _ _ | .swapOut _ _ _ | .decrement _ _ _ | .inspect _ _ _ | .requeue _ _ _
  | .drop _ | .goIdle _ | .checkStopping _ _ | .wake _ _ | .endDrain _ | .leaveIdle _ _ =>
      .isTrue trivial

end System

/-- A byte is in the pipe or on its way, or every queued task is served. -/
def Covered (s : System) : Prop := s.Signalled ∨ ∀ task ∈ s.m_tasks, s.Served task

theorem live_of_awake {pc : Pc} (awake : pc.awake = true) : pc.live = true := by
  cases pc with
  | exit => cases awake
  | _ => rfl

theorem awake_of_outside {pc : Pc} (live : pc.live = true) (outside : pc.inWindow = false)
    (uncounted : pc.countedIdle = false) : pc.awake = true := by
  cases pc with
  | tickle next | tickleWrite next =>
      cases next with
      | scan => rfl
      | branch task =>
          cases task with
          | some task => rfl
          | none => cases outside
  | branch task =>
      cases task with
      | some task => rfl
      | none => cases outside
  | goIdle => cases outside
  | idle | epollWait => cases uncounted
  | exit => cases live
  | _ => rfl

section Moves
variable {s s' : System} {w : ThreadId} {task : ScheduleTask}

theorem mayTake_iff : s.mayTake task w = true ↔
    task.mayRun w = true ∧ (s.worker w).pc.live = true := by
  rw [System.mayTake, Bool.and_eq_true]

theorem served_moves (served : s.Served task) (x : Worker) (threads : s'.threads = s.threads)
    (worker : s'.worker = Function.update s.worker w x)
    (awake : (s.worker w).pc.awake = true → x.pc.awake = true)
    (live : (s.worker w).pc.live = true) : s'.Served task := by
  have at_w : s'.worker w = x := by rw [worker, Function.update_self]
  have elsewhere : ∀ v, v ≠ w → s'.worker v = s.worker v := fun v other => by
    rw [worker, Function.update_of_ne other]
  rintro ⟨v, mem_v, may_v⟩
  rw [mayTake_iff] at may_v
  have before : ∃ v ∈ s.threads, s.mayTake task v = true := by
    refine ⟨v, threads ▸ mem_v, mayTake_iff.mpr ⟨may_v.1, ?_⟩⟩
    by_cases same : v = w
    · rw [same]
      exact live
    · rw [← elsewhere v same]
      exact may_v.2
  rcases served before with ⟨u, mem_u, may_u, awake_u⟩
  have still : (s'.worker u).pc.awake = true := by
    by_cases same : u = w
    · rw [same, at_w]
      apply awake
      rw [← same]
      exact awake_u
    · rw [elsewhere u same]
      exact awake_u
  exact ⟨u, threads ▸ mem_u, mayTake_iff.mpr ⟨(mayTake_iff.mp may_u).1, live_of_awake still⟩, still⟩

theorem pending_moves (pending : s.TicklePending) (x : Worker) (threads : s'.threads = s.threads)
    (worker : s'.worker = Function.update s.worker w x) (tickling : s'.tickling = s.tickling)
    (writing : s'.writing = s.writing) (quiet : (s.worker w).pc.tickles = false) :
    s'.TicklePending := by
  rcases pending with outside | written | ⟨v, mem, tickles⟩
  · exact Or.inl (tickling ▸ outside)
  · exact Or.inr (Or.inl (writing ▸ written))
  · have other : v ≠ w := by
      rintro rfl
      rw [quiet] at tickles
      cases tickles
    refine Or.inr (Or.inr ⟨v, threads ▸ mem, ?_⟩)
    rw [worker, Function.update_of_ne other]
    exact tickles

theorem covered_moves (covered : Covered s) {pc : Pc} (at_ : (s.worker w).pc = pc) (x : Worker)
    (threads : s'.threads = s.threads) (worker : s'.worker = Function.update s.worker w x)
    (queue : s'.m_tasks = s.m_tasks) (pipe : s'.pipe = s.pipe)
    (tickling : s'.tickling = s.tickling) (writing : s'.writing = s.writing)
    (quiet : pc.tickles = false) (awake : pc.awake = true → x.pc.awake = true)
    (live : pc.live = true) : Covered s' := by
  subst at_
  rcases covered with (byte | pending) | served
  · left
    left
    rw [pipe]
    exact byte
  · left
    right
    exact pending_moves pending x threads worker tickling writing quiet
  · right
    intro task mem
    rw [queue] at mem
    exact served_moves (served task mem) x threads worker awake live

theorem served_frame (threads : s'.threads = s.threads) (worker : s'.worker = s.worker)
    (served : s.Served task) : s'.Served task := by
  simp only [System.Served, System.mayTake] at served ⊢
  rw [threads, worker]
  exact served

theorem Covered.frame (covered : Covered s) (threads : s'.threads = s.threads)
    (worker : s'.worker = s.worker) (queue : s'.m_tasks = s.m_tasks) (pipe : s.pipe ≤ s'.pipe)
    (tickling : s'.tickling = s.tickling) (writing : s'.writing = s.writing) : Covered s' := by
  rcases covered with (byte | pending) | served
  · exact Or.inl (Or.inl (Nat.lt_of_lt_of_le byte pipe))
  · left
    right
    rw [System.TicklePending, tickling, writing, threads, worker]
    exact pending
  · right
    rw [queue]
    intro task mem
    exact served_frame threads worker (served task mem)

/-- A worker that is awake serves every task it may run. -/
theorem served_by (mem : w ∈ s.threads) (runs : task.mayRun w = true)
    (awake : (s.worker w).pc.awake = true) : s.Served task := fun _ =>
  ⟨w, mem, mayTake_iff.mpr ⟨runs, live_of_awake awake⟩, awake⟩

theorem mayRun_unpinned (unpinned : task.threadId = -1) (w : ThreadId) :
    task.mayRun w = true := by
  simp [ScheduleTask.mayRun, unpinned]

/-- What is pushed without a tickle is served if the queue already was. -/
theorem served_of_push (served : ∀ queued ∈ s.m_tasks, s.Served queued)
    (pushed : s.PushServed task) : s.Served task := by
  rcases pushed with already | ⟨unpinned, queued, mem, able⟩
  · exact already
  · rcases served queued mem able with ⟨w, mem_w, _, awake⟩
    exact served_by mem_w (mayRun_unpinned unpinned w) awake

theorem needTickle_of_empty {tasks : List ScheduleTask} (empty : s.m_tasks = [])
    (some_task : tasks ≠ []) : s.needTickle tasks = true := by
  cases tasks with
  | nil => exact absurd rfl some_task
  | cons task rest => simp [System.needTickle, empty, scheduleAll, scheduleNoLock]

theorem covered_push (covered : Covered s) (tasks : List ScheduleTask)
    (heard : s.PushHeard tasks) (threads : s'.threads = s.threads) (worker : s'.worker = s.worker)
    (queue : s'.m_tasks = (s.push tasks).m_tasks) (pipe : s'.pipe = s.pipe)
    (tickling : s'.tickling = s.tickling + (s.needTickle tasks).toNat)
    (writing : s'.writing = s.writing) : Covered s' := by
  have signalled : s.Signalled → s'.Signalled := by
    rintro (byte | outside | later)
    · exact Or.inl (pipe ▸ byte)
    · refine Or.inr (Or.inl ?_)
      rw [tickling]
      exact Nat.lt_of_lt_of_le outside (Nat.le_add_right _ _)
    · right
      right
      rw [writing, threads, worker]
      exact later
  simp only [System.push, scheduleAll_tasks] at queue
  -- an empty queue is the only case in which schedule() tickles
  by_cases empty : s.m_tasks = []
  · by_cases nothing : tasks = []
    · right
      intro task mem
      rw [queue, empty, nothing] at mem
      cases mem
    · refine Or.inl (Or.inr (Or.inl ?_))
      rw [tickling, needTickle_of_empty empty nothing]
      exact Nat.succ_pos _
  · rcases heard empty with before | pushed
    · exact Or.inl (signalled before)
    · rcases covered with before | served
      · exact Or.inl (signalled before)
      · right
        intro task mem
        rw [queue] at mem
        apply served_frame threads worker
        rcases List.mem_append.mp mem with old | new
        · exact served task old
        · rcases List.mem_filter.mp new with ⟨within, valid⟩
          exact served_of_push served (pushed task within valid)

/-- The worker that leaves tasks behind tickles; otherwise the queue is empty. -/
theorem covered_take (mem : w ∈ s.threads) : Covered (s.take w) := by
  have tickles : (takeTask w s.m_tasks).2.2 = true → Covered (s.take w) := by
    intro tickle_me
    refine Or.inl (Or.inr (Or.inr (Or.inr ⟨w, mem, ?_⟩)))
    simp [System.take, System.goto, tickle_me, Pc.tickles]
  have empties : (takeTask w s.m_tasks).2.1 = [] → Covered (s.take w) := by
    intro empty
    right
    intro task within
    simp only [System.take, System.goto, empty] at within
    cases within
  rcases takeTask_cases w s.m_tasks with ⟨skipped, task, rest, _, _, _, found⟩ | ⟨_, found⟩
  · cases left : skipped ++ rest with
    | nil =>
        apply empties
        rw [found, left]
    | cons first others =>
        apply tickles
        rw [found, left]
        rfl
  · cases left : s.m_tasks with
    | nil =>
        apply empties
        rw [left]
        rfl
    | cons first others =>
        apply tickles
        rw [found, left]
        rfl

/-- A tickle that finds nobody counted as idle is dropped. -/
theorem dropped_served (counted : Counted s) (none_idle : s.m_idleThreadCount = 0)
    (outside : ∀ task ∈ s.m_tasks, s.OutsideWindow task) : ∀ task ∈ s.m_tasks, s.Served task := by
  intro task mem able
  rcases outside task mem able with ⟨v, mem_v, may, out⟩
  -- the counter is the number of workers counted as idle, so there is none
  have uncounted : (s.worker v).pc.countedIdle = false := by
    have weight := tally_eq_zero.mp ((count_zero counted.idle).mp none_idle) v mem_v
    simpa [Worker.countedIdle] using weight
  exact ⟨v, mem_v, may, awake_of_outside (mayTake_iff.mp may).2 out uncounted⟩

theorem covered_tickle (counted : Counted s) {next : Next} (mem : w ∈ s.threads)
    (at_ : (s.worker w).pc = .tickle next) (heard : s.Heard (.tickle w next)) :
    Covered (s.goto w (if s.m_idleThreadCount > 0 then .tickleWrite next else next.pc)) := by
  split
  · refine Or.inl (Or.inr (Or.inr (Or.inr ⟨w, mem, ?_⟩)))
    simp [System.goto, Pc.tickles]
  · rename_i unheard
    have none_idle : s.m_idleThreadCount = 0 := by
      simpa using unheard
    rcases heard none_idle with signalled | outside
    · exact Or.inl signalled
    · right
      intro task within
      have before := dropped_served counted none_idle outside task within
      refine served_moves before { s.worker w with pc := next.pc } rfl rfl ?_ ?_
      · rw [at_]
        cases next with
        | scan => exact id
        | branch found => cases found <;> exact id
      · rw [at_]
        rfl

/-- The reader may take every task that is not pinned. -/
theorem covered_drain (mem : w ∈ s.threads) (at_ : (s.worker w).pc = .draining)
    (heard : s.Heard (.drain w)) (threads : s'.threads = s.threads)
    (worker : s'.worker = s.worker) (queue : s'.m_tasks = s.m_tasks)
    (pipe : s'.pipe = s.pipe - 256) (tickling : s'.tickling = s.tickling)
    (writing : s'.writing = s.writing) : Covered s' := by
  rcases heard with bytes | pending | pinned
  · left
    left
    rw [pipe]
    exact Nat.sub_pos_of_lt bytes
  · left
    right
    rw [System.TicklePending, tickling, writing, threads, worker]
    exact pending
  · right
    intro task within
    rw [queue] at within
    apply served_frame threads worker
    by_cases unpinned : task.threadId = -1
    · apply served_by mem (mayRun_unpinned unpinned w)
      rw [at_]
      rfl
    · exact pinned task within unpinned

theorem covered_goto (covered : Covered s) {pc pc' : Pc} (at_ : (s.worker w).pc = pc)
    (quiet : pc.tickles = false) (awake : pc.awake = true → pc'.awake = true)
    (live : pc.live = true) : Covered (s.goto w pc') :=
  covered_moves covered at_ { s.worker w with pc := pc' } rfl rfl rfl rfl rfl rfl quiet awake live

theorem covered_branch (covered : Covered s) {task : Option ScheduleTask}
    (at_ : (s.worker w).pc = .branch task) (done : s.branch w task = some s') : Covered s' := by
  rcases branch_cases done with ⟨t, f, rfl, _, _, rfl⟩ | ⟨t, func, rfl, _, _, run⟩ |
    ⟨t, rfl, _, _, rfl⟩ | ⟨rfl, rfl⟩
  · exact covered_goto covered at_ rfl (fun _ => rfl) rfl
  · rcases funcBranch_cases run with ⟨f, fiber, _, _, rfl⟩ | ⟨_, rfl⟩
    · exact covered_moves covered at_ { s.worker w with pc := .swapIn f true } rfl rfl rfl rfl rfl
        rfl rfl (fun _ => rfl) rfl
    · exact covered_moves covered at_ { s.worker w with
        pc := .swapIn s.nextFiber true, func_fiber := some s.nextFiber } rfl rfl rfl rfl rfl rfl
        rfl (fun _ => rfl) rfl
  · exact covered_goto covered at_ rfl (fun _ => rfl) rfl
  · exact covered_goto covered at_ rfl (fun asleep => by cases asleep) rfl

theorem covered_inspect (covered : Covered s) {g : FiberId} {own : Bool}
    (at_ : (s.worker w).pc = .inspect g own) (done : s.inspect w g own = some s') :
    Covered s' := by
  rcases inspect_cases done with ⟨_, rfl⟩ | ⟨_, fiber, _, rfl⟩ | rfl
  · exact covered_goto covered at_ rfl (fun _ => rfl) rfl
  · exact covered_moves covered at_ { s.worker w with pc := .scan } rfl rfl rfl rfl rfl rfl rfl
      (fun _ => rfl) rfl
  · exact covered_moves covered at_ ((s.worker w).released own .scan) rfl rfl rfl rfl rfl rfl rfl
      (fun _ => rfl) rfl

/-- The worker that queues its fiber again scans the queue next. -/
theorem covered_requeue (covered : Covered s) {g : FiberId} {own : Bool} (mem : w ∈ s.threads)
    (at_ : (s.worker w).pc = .requeue g own) : Covered (s.requeue w g own) := by
  rw [requeue_eq]
  let x := (s.worker w).released own
    (if s.needTickle [{ fiber := some g }] then .tickle .scan else .scan)
  have awake : x.pc.awake = true := by
    change Pc.awake (if s.needTickle [{ fiber := some g }] then .tickle .scan else .scan) = true
    split <;> rfl
  have quiet : (s.worker w).pc.tickles = false := by
    rw [at_]
    rfl
  have live : (s.worker w).pc.live = true := by
    rw [at_]
    rfl
  -- without a tickle of its own the worker still scans before it sleeps
  rcases covered with (byte | pending) | served
  · exact Or.inl (Or.inl byte)
  · exact Or.inl (Or.inr (pending_moves pending x rfl rfl rfl rfl quiet))
  · right
    intro task within
    simp only [System.push, scheduleAll_tasks] at within
    rcases List.mem_append.mp within with old | new
    · exact served_moves (served task old) x rfl rfl (fun _ => awake) live
    · have task_eq := List.mem_singleton.mp (List.mem_filter.mp new).1
      refine served_by mem (mayRun_unpinned (by rw [task_eq]) w) ?_
      change (Function.update s.worker w x w).pc.awake = true
      rw [Function.update_self]
      exact awake

theorem Walk.quiet {pc pc' : Pc} (walk : Walk pc pc') : pc.tickles = false := by
  cases walk <;> rfl

theorem Walk.awake {pc pc' : Pc} (walk : Walk pc pc') (awake : pc.awake = true) :
    pc'.awake = true := by
  cases walk with
  | goIdle | quit | sleep | tickled | expired => cases awake
  | _ => rfl

theorem Walk.live {pc pc' : Pc} (walk : Walk pc pc') : pc.live = true := by
  cases walk <;> rfl

theorem covered_walk (covered : Covered s) {x : Worker} {active idle : UInt64}
    (walk : Walk (s.worker w).pc x.pc) : Covered { s with
      worker := Function.update s.worker w x
      m_activeThreadCount := active
      m_idleThreadCount := idle } :=
  covered_moves covered rfl x rfl rfl rfl rfl rfl rfl walk.quiet walk.awake walk.live

theorem covered_effect {act : Act} (covered : Covered s) (counted : Counted s)
    (able : act.enabled s) (heard : s.Heard act) (done : act.effect s = some s') :
    Covered s' := by
  have site := able.1
  cases act with
  | start | autoStop | stop | newFiber _ | addEvent _ _ _ =>
      cases done
      exact covered.frame rfl rfl rfl (Nat.le_refl _) rfl rfl
  | tickleElsewhere =>
      cases done
      exact covered.frame rfl rfl rfl (Nat.le_succ _) rfl rfl
  | writeOutside =>
      cases done
      exact Or.inl (Or.inl (Nat.succ_pos _))
  | tickleOutside =>
      cases done
      by_cases idle : s.m_idleThreadCount > 0
      · refine Or.inl (Or.inr (Or.inr (Or.inl ?_)))
        simp [idle]
      · rw [if_neg idle]
        have none_idle : s.m_idleThreadCount = 0 := by
          simpa using idle
        rcases heard none_idle with signalled | outside
        · exact Or.inl signalled
        · exact Or.inr fun task mem =>
            served_frame rfl rfl (dropped_served counted none_idle outside task mem)
  | schedule tasks =>
      cases done
      exact covered_push covered tasks heard rfl rfl rfl rfl rfl rfl
  | trigger f =>
      cases done
      exact covered_push covered [{ fiber := some f }] heard rfl rfl rfl rfl rfl rfl
  | switchTo w f own thread =>
      cases done
      unfold System.switchTo
      split
      · exact covered
      · exact covered_push covered _ heard rfl rfl rfl rfl rfl rfl
  | take w =>
      cases done
      exact covered_take (site _ rfl).1
  | tickle w next =>
      cases done
      rcases site _ rfl with ⟨mem, at_⟩
      exact covered_tickle counted mem at_ heard
  | tickleWrite w next =>
      cases done
      exact Or.inl (Or.inl (Nat.succ_pos _))
  | branch w task => exact covered_branch covered (site _ rfl).2 done
  | swapIn w f own =>
      rcases Option.map_eq_some_iff.mp done with ⟨fiber, _, rfl⟩
      have set : Covered (s.setFiber f fiber) := covered.frame rfl rfl rfl (Nat.le_refl _) rfl rfl
      exact covered_goto set (site _ rfl).2 rfl (fun _ => rfl) rfl
  | yieldTo w f own target =>
      rcases Option.map_eq_some_iff.mp done with ⟨fiber, _, rfl⟩
      have set : Covered (s.setFiber f fiber) := covered.frame rfl rfl rfl (Nat.le_refl _) rfl rfl
      exact covered_goto set (site _ rfl).2 rfl (fun _ => rfl) rfl
  | finish w f own threw =>
      cases done
      have set : Covered (s.setFiber f ((s.fibers f).finish threw)) :=
        covered.frame rfl rfl rfl (Nat.le_refl _) rfl rfl
      exact covered_goto set (site _ rfl).2 rfl (fun _ => rfl) rfl
  | inspect w f own => exact covered_inspect covered (site _ rfl).2 done
  | requeue w f own =>
      cases done
      rcases site _ rfl with ⟨mem, at_⟩
      exact covered_requeue covered mem at_
  | drain w =>
      cases done
      rcases site _ rfl with ⟨mem, at_⟩
      exact covered_drain mem at_ heard rfl rfl rfl rfl rfl rfl
  | swapOut _ _ _ | decrement _ _ _ | drop _ | goIdle _ | checkStopping _ _ | wake _ _ | endDrain _
  | leaveIdle _ _ =>
      rcases walk_step able done rfl with ⟨w, x, active, idle, _, walk, _, rfl⟩
      exact covered_walk covered walk

end Moves

theorem reach_covered {s : System} (reached : Reach scheduler System.Heard s) : Covered s := by
  apply reached.invariant Covered
  · rintro _ ⟨threads, _, rfl⟩
    right
    intro task mem
    cases mem
  · intro before act after prior covered heard moved
    rcases scheduler_step moved with ⟨able, done⟩
    exact covered_effect covered (reach_counted prior) able heard done

/-- Where a queued task may be taken and every worker that may take it is
blocked in `epoll_wait`, a byte is in the pipe or a tickle is to come. -/
def WakeUpPending (s : System) : Prop :=
  ∀ task ∈ s.m_tasks, (∃ w ∈ s.threads, s.mayTake task w = true) →
    (∀ w ∈ s.threads, s.mayTake task w = true → (s.worker w).pc = .epollWait) → s.Signalled

theorem wake_up_pending {s : System} (reached : Reach scheduler System.Heard s) :
    WakeUpPending s := by
  intro task mem able blocked
  rcases reach_covered reached with signalled | served
  · exact signalled
  · rcases served task mem able with ⟨w, mem_w, may, awake⟩
    rw [blocked w mem_w may] at awake
    cases awake

theorem wake_up_pending_run :
    ∃ s, run scheduler { threads := [1, 2] }
        [.take 1, .branch 1 none, .goIdle 1, .checkStopping 1 false,
          .schedule [{ func := some 9, threadId := 1 }], .tickleOutside, .writeOutside,
          .schedule [{ func := some 7 }], .take 2,
          .tickle 2 (.branch (some { func := some 7 })), .wake 1 true, .drain 1, .endDrain 1,
          .leaveIdle 1 false, .tickleWrite 2 (.branch (some { func := some 7 })),
          .take 1] = some s ∧
      WakeUpPending s :=
  run_meets System.Heard ⟨[1, 2], by decide, rfl⟩ (by decide) (by decide)
    fun _ reached => wake_up_pending reached

/-- A task is scheduled while the only worker is between its empty scan and
`++m_idleThreadCount`: the tickle is dropped and the worker goes to sleep. -/
theorem tickle_lost_before_idle :
    ¬ ∀ s, Reach scheduler anyStep s → WakeUpPending s := by
  intro claim
  obtain ⟨s, reached, facts⟩ := reach_where scheduler anyStep { threads := [1] }
    [.take 1, .branch 1 none, .schedule [{ func := some 9 }], .tickleOutside, .goIdle 1,
      .checkStopping 1 false]
    (fun s => (s.threads = [1] && s.m_tasks = [{ func := some 9 }]) &&
      ((s.worker 1).pc = .epollWait && !decide s.Signalled))
    ⟨[1], by decide, rfl⟩ (by decide) (by decide)
  simp only [Bool.and_eq_true, decide_eq_true_eq, Bool.not_eq_true', decide_eq_false_iff_not]
    at facts
  rcases facts with ⟨⟨threads, queue⟩, blocked, silent⟩
  have may : s.mayTake { func := some 9 } 1 = true :=
    mayTake_iff.mpr ⟨rfl, by rw [blocked]; rfl⟩
  apply silent
  apply claim s reached { func := some 9 }
  · rw [queue]
    exact List.mem_singleton.mpr rfl
  · exact ⟨1, by rw [threads]; exact List.mem_singleton.mpr rfl, may⟩
  · intro w mem _
    rw [threads] at mem
    rw [List.mem_singleton.mp mem]
    exact blocked

end Ztyco.Scheduler
