import Ztyco.Scheduler

/-!
The life of a `Scheduler` from its constructor through any calls of `start()`
and completed calls of `stop()`. A thread is known by the id the kernel gives
it; what the threads do meanwhile is left to the model of `run`. `start` puts
its threads into the places of `m_threads`, which nothing has made.
-/

namespace Ztyco.Lifecycle

open Scheduler (ThreadId)

/-- The fields that `start` and `stop` use. `m_rootFiber` tells whether there is
one; a place of `m_threads` may be null. -/
structure Scheduler where
  m_threads : List (Option ThreadId) := []
  m_threadIds : List ThreadId := []
  m_threadCount : Nat := 0
  m_stopping : Bool := true
  m_autoStop : Bool := false
  m_rootFiber : Bool := false
  m_rootThreadid : ThreadId := 0
  deriving DecidableEq, Repr

def Scheduler.constructed (threads : Nat) (use_caller : Bool) (caller : ThreadId) :
    Option Scheduler :=
  if 0 < threads then
    if use_caller then some
      { m_threadCount := threads - 1, m_rootFiber := true
        m_rootThreadid := caller, m_threadIds := [caller] }
    else some { m_threadCount := threads, m_rootThreadid := -1 }
  else none

namespace Scheduler

/-- One round of the loop of `start`, with the id of the new thread; `none` is
an index outside the vector. -/
def launch (scheduler : Scheduler) (i : Nat) (id : ThreadId) : Option Scheduler :=
  if i < scheduler.m_threads.length then some
    { scheduler with
      m_threads := scheduler.m_threads.set i (some id)
      m_threadIds := scheduler.m_threadIds ++ [id] }
  else none

def launchAll (ids : Nat → ThreadId) : Scheduler → Nat → Nat → Option Scheduler
  | scheduler, _, 0 => some scheduler
  | scheduler, i, left + 1 =>
      (scheduler.launch i (ids i)).bind fun next => launchAll ids next (i + 1) left

/-- `ids` are the ids of the threads this call creates. `none` is the assertion
or an index outside the vector. -/
def start (scheduler : Scheduler) (ids : Nat → ThreadId) : Option Scheduler :=
  if !scheduler.m_stopping then some scheduler
  else
    let scheduler := { scheduler with m_stopping := false }
    if scheduler.m_threads.isEmpty then launchAll ids scheduler 0 scheduler.m_threadCount
    else none

/-- A completed call. `resting` tells whether the state of the root fiber is TERM
or INIT, and `drained` that there is no task and no active thread. -/
def stop (scheduler : Scheduler) (resting drained : Bool) : Scheduler :=
  let scheduler := { scheduler with m_autoStop := true }
  if scheduler.m_rootFiber && scheduler.m_threadCount == 0 && resting && drained then
    { scheduler with m_stopping := true }
  else { scheduler with m_stopping := true, m_threads := [] }

end Scheduler

inductive Op where
  | start (ids : Nat → ThreadId)
  | stop (resting drained : Bool)

def Op.starts : Op → Bool
  | .start _ => true
  | .stop _ _ => false

/-- There are as many threads as there should be, and their ids and the caller's
are listed once each. -/
def Scheduler.Staffed (scheduler : Scheduler) : Prop :=
  ∃ threads : List ThreadId, scheduler.m_threads = threads.map some ∧
    threads.length = scheduler.m_threadCount ∧ scheduler.m_threadIds.Nodup ∧
    ∀ id, id ∈ scheduler.m_threadIds ↔
      id ∈ threads ∨ scheduler.m_rootFiber = true ∧ id = scheduler.m_rootThreadid

/-- Every `start` of the calls stays within `m_threads`; on a stopped scheduler
it creates its threads, on a running one it does nothing. -/
def Sound : Scheduler → List Op → Prop
  | _, [] => True
  | scheduler, .start ids :: rest => ∃ after, scheduler.start ids = some after ∧
      (scheduler.m_stopping = true → after.Staffed) ∧
      (scheduler.m_stopping = false → after = scheduler) ∧ Sound after rest
  | scheduler, .stop resting drained :: rest => Sound (scheduler.stop resting drained) rest

/-! Calls on a scheduler whose only thread is its caller, and on the others. -/

structure CallerOnly (scheduler : Scheduler) : Prop where
  threads : scheduler.m_threads = []
  count : scheduler.m_threadCount = 0
  root : scheduler.m_rootFiber = true
  ids : scheduler.m_threadIds = [scheduler.m_rootThreadid]

theorem CallerOnly.staffed {scheduler : Scheduler} (only : CallerOnly scheduler) :
    scheduler.Staffed := by
  refine ⟨[], only.threads, only.count.symm, ?_, ?_⟩
  · simp [only.ids]
  · simp [only.ids, only.root]

theorem CallerOnly.start {scheduler : Scheduler} (only : CallerOnly scheduler)
    (ids : Nat → ThreadId) :
    scheduler.start ids = some { scheduler with m_stopping := false } := by
  cases stopped : scheduler.m_stopping with
  | true => simp [Scheduler.start, stopped, only.threads, only.count, Scheduler.launchAll]
  | false =>
      have same : { scheduler with m_stopping := false } = scheduler := by rw [← stopped]
      simp [Scheduler.start, stopped, same]

theorem CallerOnly.stop {scheduler : Scheduler} (only : CallerOnly scheduler)
    (resting drained : Bool) : CallerOnly (scheduler.stop resting drained) := by
  unfold Scheduler.stop
  dsimp only
  split
  · exact ⟨only.threads, only.count, only.root, only.ids⟩
  · exact ⟨rfl, only.count, only.root, only.ids⟩

theorem CallerOnly.sound {scheduler : Scheduler} (only : CallerOnly scheduler) (ops : List Op) :
    Sound scheduler ops := by
  induction ops generalizing scheduler with
  | nil => trivial
  | cons op rest ih =>
      cases op with
      | stop resting drained => exact ih (only.stop resting drained)
      | start ids =>
          have running : CallerOnly { scheduler with m_stopping := false } :=
            ⟨only.threads, only.count, only.root, only.ids⟩
          refine ⟨_, only.start ids, fun _ => running.staffed, ?_, ih running⟩
          intro stopped
          rw [← stopped]

structure Unstaffed (scheduler : Scheduler) : Prop where
  threads : scheduler.m_threads = []
  count : 0 < scheduler.m_threadCount
  stopped : scheduler.m_stopping = true

/-- The first place there is to fill is past the end. -/
theorem Unstaffed.start {scheduler : Scheduler} (unstaffed : Unstaffed scheduler)
    (ids : Nat → ThreadId) : scheduler.start ids = none := by
  obtain ⟨left, count⟩ := Nat.exists_eq_succ_of_ne_zero (Nat.ne_of_gt unstaffed.count)
  simp [Scheduler.start, unstaffed.stopped, unstaffed.threads, count, Scheduler.launchAll,
    Scheduler.launch]

theorem Unstaffed.stop {scheduler : Scheduler} (unstaffed : Unstaffed scheduler)
    (resting drained : Bool) : Unstaffed (scheduler.stop resting drained) := by
  unfold Scheduler.stop
  dsimp only
  split
  · exact ⟨unstaffed.threads, unstaffed.count, rfl⟩
  · exact ⟨rfl, unstaffed.count, rfl⟩

theorem Unstaffed.sound_iff {scheduler : Scheduler} (unstaffed : Unstaffed scheduler)
    (ops : List Op) : Sound scheduler ops ↔ ∀ op ∈ ops, op.starts = false := by
  induction ops generalizing scheduler with
  | nil => exact iff_of_true trivial fun _ mem => absurd mem List.not_mem_nil
  | cons op rest ih =>
      rw [List.forall_mem_cons]
      cases op with
      | stop resting drained =>
          have tail : Sound scheduler (.stop resting drained :: rest) ↔
              Sound (scheduler.stop resting drained) rest := Iff.rfl
          rw [tail, ih (unstaffed.stop resting drained)]
          simp [Op.starts]
      | start ids =>
          refine iff_of_false ?_ (by simp [Op.starts])
          rintro ⟨after, started, _⟩
          rw [unstaffed.start ids] at started
          cases started

/-- The calls on a constructed scheduler are sound where its caller is its only
thread, or where it is never started. -/
theorem lifecycle_sound_iff {threads : Nat} {use_caller : Bool} {caller : ThreadId}
    {scheduler : Scheduler}
    (made : Scheduler.constructed threads use_caller caller = some scheduler) (ops : List Op) :
    Sound scheduler ops ↔
      (use_caller = true ∧ threads = 1) ∨ ∀ op ∈ ops, op.starts = false := by
  unfold Scheduler.constructed at made
  split at made
  · rename_i positive
    split at made
    · rename_i caller'
      cases made
      by_cases single : threads = 1
      · subst single
        have only : CallerOnly { m_threadCount := 1 - 1, m_rootFiber := true
                                 m_rootThreadid := caller, m_threadIds := [caller] } :=
          ⟨rfl, rfl, rfl, rfl⟩
        exact iff_of_true (only.sound ops) (Or.inl ⟨caller', rfl⟩)
      · have unstaffed : Unstaffed { m_threadCount := threads - 1, m_rootFiber := true
                                     m_rootThreadid := caller, m_threadIds := [caller] } :=
          ⟨rfl, Nat.sub_pos_of_lt (by omega), rfl⟩
        rw [unstaffed.sound_iff]
        simp [single]
    · rename_i plain
      cases made
      have unstaffed : Unstaffed { m_threadCount := threads, m_rootThreadid := -1 } :=
        ⟨rfl, positive, rfl⟩
      rw [unstaffed.sound_iff]
      simp [plain]
  · cases made

theorem lifecycle_sound_iff_caller :
    Sound { m_rootFiber := true, m_rootThreadid := 7, m_threadIds := [7] }
        [.start fun _ => 8, .start fun _ => 8, .stop true true, .start fun _ => 9] ↔
      (true = true ∧ 1 = 1) ∨ ∀ op ∈ [Op.start fun _ => 8, .start fun _ => 8, .stop true true,
        .start fun _ => 9], op.starts = false :=
  lifecycle_sound_iff rfl _

/-- A scheduler of two threads, one of them its caller's, writes past the end of
`m_threads` when it is started. -/
theorem start_out_of_range :
    ∃ scheduler, Scheduler.constructed 2 true 7 = some scheduler ∧
      scheduler.start (fun _ => 8) = none ∧ ¬ Sound scheduler [.start fun _ => 8] := by
  refine ⟨_, rfl, rfl, ?_⟩
  rintro ⟨after, started, _⟩
  cases started

end Ztyco.Lifecycle
