import Ztyco.TimerDeadlines

/-!
Idle workers and the timers of an IOManager. A worker reads the next deadline,
waits in `epoll_wait` for that long and then takes the expired timers. The
other threads move timers meanwhile, and announce an insertion at the front
only after they have dropped the lock. The reading of a new timer and that of
`listExpiredCb` precede the lock, so that they may be any reading up to the
present one; the others are made under it.
-/

namespace Ztyco.Timers

open Fibers (Func)
open Transition

/-- Where a worker is. It counts as idle everywhere but in `away`, where it
runs tasks; what `getNextTimer` read and answered goes with it into `epoll_wait`. -/
inductive Phase where
  | away
  | entered
  | polled (reading result : UInt64)
  | waiting (reading result : UInt64)
  | returned
  | expired
  deriving DecidableEq, Repr

structure Idlers where
  mgr : TimerManager
  clock : UInt64
  phase : Nat → Phase := fun _ => .away
  /-- Calls of `onTimerInsertedAtFront` still to be made, and notifications
  made and not delivered. -/
  announced : Nat := 0
  written : Nat := 0

inductive WorkerStep where
  | enter
  | poll
  | wait
  | wake
  | deliver (notifications : Nat)
  | expire (temp : Addr) (now : UInt64)
  | leave
  deriving DecidableEq, Repr

inductive Action where
  | tick (now : UInt64)
  | addTimer (timer : Addr) (ms : UInt64) (cb : Func) (recurring : Bool) (now : UInt64)
  | cancel (timer : Addr)
  | refresh (timer : Addr)
  | reset (timer : Addr) (ms : UInt64) (from_now : Bool)
  | getNextTimer
  | tickle
  | work (worker : Nat) (step : WorkerStep)
  deriving DecidableEq, Repr

namespace Idlers

/-- An operation has dropped the lock; `front` is whether it is to announce. -/
def unlocked (idlers : Idlers) (front : Bool) (mgr : TimerManager) : Idlers :=
  { idlers with mgr := mgr, announced := idlers.announced + front.toNat }

def move (idlers : Idlers) (worker : Nat) (phase : Phase) : Idlers :=
  { idlers with phase := Function.update idlers.phase worker phase }

def hasIdleThreads (idlers : Idlers) (count : Nat) : Bool :=
  (List.range count).any fun worker => idlers.phase worker != .away

def work (idlers : Idlers) (worker : Nat) : WorkerStep → Option Idlers
  | .enter => match idlers.phase worker with
      | .away => some (idlers.move worker .entered)
      | _ => none
  | .poll => match idlers.phase worker with
      | .entered =>
          let (result, mgr) := idlers.mgr.getNextTimer idlers.clock
          some ((idlers.unlocked false mgr).move worker (.polled idlers.clock result))
      | _ => none
  | .wait => match idlers.phase worker with
      | .polled reading result => some (idlers.move worker (.waiting reading result))
      | _ => none
  -- an event, a signal or the end of the time
  | .wake => match idlers.phase worker with
      | .waiting _ _ => some (idlers.move worker .returned)
      | _ => none
  | .deliver notifications => match idlers.phase worker with
      | .waiting _ _ =>
          if 0 < notifications ∧ notifications ≤ idlers.written then
            some ({ idlers with written := idlers.written - notifications }.move worker .returned)
          else none
      | _ => none
  | .expire temp now => match idlers.phase worker with
      | .returned =>
          if temp ∉ idlers.mgr.created ∧ now ≤ idlers.clock then
            some
              ((idlers.unlocked false (idlers.mgr.listExpiredCb temp now).2).move worker .expired)
          else none
      | _ => none
  | .leave => match idlers.phase worker with
      | .expired => some (idlers.move worker .away)
      | _ => none

end Idlers

def Idlers.act (count : Nat) (idlers : Idlers) : Action → Option Idlers
  | .tick now => if idlers.clock ≤ now then some { idlers with clock := now } else none
  | .addTimer timer ms cb recurring now =>
      if timer ∉ idlers.mgr.created ∧ now ≤ idlers.clock then
        let (front, mgr) := idlers.mgr.addTimer timer ms (some cb) recurring now
        some (idlers.unlocked front mgr)
      else none
  | .cancel timer =>
      if timer ∈ idlers.mgr.created then
        (idlers.mgr.cancel timer).map fun done => idlers.unlocked false done.2
      else none
  | .refresh timer =>
      if timer ∈ idlers.mgr.created then
        some (idlers.unlocked false (idlers.mgr.refresh timer idlers.clock).2)
      else none
  | .reset timer ms from_now =>
      if timer ∈ idlers.mgr.created then
        let (_, front, mgr) := idlers.mgr.resetLocked timer ms from_now idlers.clock
        some (idlers.unlocked front mgr)
      else none
  | .getNextTimer => some (idlers.unlocked false (idlers.mgr.getNextTimer idlers.clock).2)
  | .tickle =>
      if 0 < idlers.announced then
        let idlers := { idlers with announced := idlers.announced - 1 }
        some (if idlers.hasIdleThreads count then { idlers with written := idlers.written + 1 }
          else idlers)
      else none
  | .work worker step => if worker < count then idlers.work worker step else none

def idleWorkers (count : Nat) : Machine Idlers Action where
  initial idlers := ∃ now, idlers = { mgr := .constructed now, clock := now }
  step := Idlers.act count

def InRange (idlers : Idlers) : Action → Prop
  | .addTimer _ ms _ _ now => now.toNat + ms.toNat < UInt64.size
  | .refresh timer => (idlers.mgr.refresh timer idlers.clock).1 = true →
      idlers.clock.toNat + (idlers.mgr.heap timer).m_ms.toNat < UInt64.size
  | .reset timer ms from_now => (idlers.mgr.resetLocked timer ms from_now idlers.clock).1 = true →
      (idlers.mgr.start timer from_now idlers.clock).toNat + ms.toNat < UInt64.size
  | .work _ (.expire temp now) => ∀ timer ∈ idlers.mgr.expired temp now,
      idlers.mgr.recurring timer = true →
        now.toNat + (idlers.mgr.heap timer).m_ms.toNat < UInt64.size
  | _ => True

instance InRange.decidable (idlers : Idlers) : (action : Action) →
    Decidable (InRange idlers action)
  | .addTimer _ _ _ _ _ => inferInstanceAs (Decidable (_ < _))
  | .refresh _ => inferInstanceAs (Decidable (_ = true → _ < _))
  | .reset _ _ _ => inferInstanceAs (Decidable (_ = true → _ < _))
  | .work _ (.expire temp now) =>
      List.decidableBAll (fun timer => idlers.mgr.recurring timer = true →
        now.toNat + (idlers.mgr.heap timer).m_ms.toNat < UInt64.size) (idlers.mgr.expired temp now)
  | .tick _ | .cancel _ | .getNextTimer | .tickle => .isTrue trivial
  | .work _ .enter | .work _ .poll | .work _ .wait | .work _ .wake | .work _ (.deliver _)
  | .work _ .leave => .isTrue trivial

namespace Phase

def Blocked : Phase → Prop
  | waiting _ result => result ≠ 0
  | _ => False

instance Blocked.decidable : (phase : Phase) → Decidable phase.Blocked
  | waiting _ result => inferInstanceAs (Decidable (result ≠ 0))
  | away | entered | polled _ _ | returned | expired => .isFalse fun blocked => by cases blocked

def wakeUp : Phase → Option Nat
  | polled reading result | waiting reading result => some (reading.toNat + result.toNat)
  | _ => none

/-- The worker reads the next deadline again before it blocks. -/
def Awake : Phase → Prop
  | polled _ result | waiting _ result => result = 0
  | _ => True

theorem Blocked.not_awake {phase : Phase} (blocked : phase.Blocked) : ¬ phase.Awake := by
  cases phase with
  | waiting reading result => exact blocked
  | away => cases blocked
  | entered => cases blocked
  | polled => cases blocked
  | returned => cases blocked
  | expired => cases blocked

end Phase

def Stirring (count : Nat) (idlers : Idlers) : Prop :=
  0 < idlers.announced + idlers.written ∨ ∃ worker < count, (idlers.phase worker).Awake

def Covered (count : Nat) (idlers : Idlers) (date : UInt64) : Prop :=
  ∃ worker < count, ∃ wakeUp, (idlers.phase worker).wakeUp = some wakeUp ∧ wakeUp ≤ date.toNat

def Timer.StartedBy (timer : Timer) (clock : UInt64) : Prop :=
  timer.m_ms.toNat ≤ timer.m_next.toNat ∧ timer.m_next.toNat ≤ clock.toNat + timer.m_ms.toNat

def Started (mgr : TimerManager) (clock : UInt64) : Prop :=
  ∀ timer ∈ mgr.m_timers, (mgr.heap timer).StartedBy clock

structure Watched (count : Nat) (idlers : Idlers) : Prop where
  held : Held idlers.mgr []
  started : Started idlers.mgr idlers.clock
  tickled : idlers.mgr.m_tickled = true → Stirring count idlers
  covered : ∀ timer ∈ idlers.mgr.m_timers,
    Stirring count idlers ∨ Covered count idlers (idlers.mgr.heap timer).m_next

section Dates
variable {mgr after : TimerManager} {clock : UInt64}

theorem exact_sum {timer : Timer} {start : UInt64} (sum : timer.m_next = start + timer.m_ms)
    (inRange : start.toNat + timer.m_ms.toNat < UInt64.size) :
    timer.m_next.toNat = start.toNat + timer.m_ms.toNat := by
  rw [sum, UInt64.toNat_add]
  exact Nat.mod_eq_of_lt inRange

theorem startedBy_sum {timer : Timer} {start : UInt64}
    (sum : timer.m_next = start + timer.m_ms) (past : start ≤ clock)
    (inRange : start.toNat + timer.m_ms.toNat < UInt64.size) : timer.StartedBy clock := by
  have total := exact_sum sum inRange
  have early := UInt64.le_iff_toNat_le.mp past
  constructor
  · omega
  · omega

theorem Started.tick {later : UInt64} (started : Started mgr clock) (forward : clock ≤ later) :
    Started mgr later := by
  intro timer mem
  rcases started timer mem with ⟨low, high⟩
  have grown := UInt64.le_iff_toNat_le.mp forward
  exact ⟨low, by omega⟩

theorem Started.start_le {timer : Addr} (started : Started mgr clock)
    (pending : timer ∈ mgr.m_timers) (from_now : Bool) :
    mgr.start timer from_now clock ≤ clock := by
  cases from_now with
  | true => exact UInt64.le_refl clock
  | false =>
      rcases started timer pending with ⟨low, high⟩
      have difference : ((mgr.heap timer).m_next - (mgr.heap timer).m_ms).toNat =
          (mgr.heap timer).m_next.toNat - (mgr.heap timer).m_ms.toNat :=
        UInt64.toNat_sub_of_le _ _ (UInt64.le_iff_toNat_le.mpr low)
      apply UInt64.le_iff_toNat_le.mpr
      simp only [TimerManager.start, Bool.false_eq_true, ↓reduceIte, difference]
      omega

theorem Started.rearm (val : Addr) (started : Started mgr clock)
    (others : ∀ timer ∈ after.m_timers, timer ≠ val →
      timer ∈ mgr.m_timers ∧ after.heap timer = mgr.heap timer)
    (self : (after.heap val).StartedBy clock) : Started after clock := by
  intro timer mem
  by_cases same : timer = val
  · rw [same]
    exact self
  · rcases others timer mem same with ⟨pending, unchanged⟩
    rw [unchanged]
    exact started timer pending

theorem mem_addTimerLocked (mgr : TimerManager) (val timer : Addr) :
    timer ∈ (mgr.addTimerLocked val).2.m_timers ↔ timer = val ∨ timer ∈ mgr.m_timers := by
  have inserted : timer ∈ OrderedSet.insert (timerLess mgr.heap) val mgr.m_timers ↔ _ :=
    OrderedSet.mem_insert (timerLess_order mgr.heap) val timer
  simp only [TimerManager.addTimerLocked]
  split
  · exact inserted
  · exact inserted

theorem addTimerLocked_front (mgr : TimerManager) (val : Addr) :
    (mgr.addTimerLocked val).1 = true ∨ mgr.m_tickled = true ∨
      ∃ other ∈ mgr.m_timers, (mgr.heap other).m_next ≤ (mgr.heap val).m_next := by
  cases on : mgr.m_tickled with
  | true => exact Or.inr (Or.inl rfl)
  | false =>
      cases pending : mgr.m_timers with
      | nil =>
          apply Or.inl
          simp [TimerManager.addTimerLocked, OrderedSet.lowerBound, pending, on]
      | cons first rest =>
          cases ahead : timerLess mgr.heap first val with
          | false =>
              apply Or.inl
              simp [TimerManager.addTimerLocked, OrderedSet.lowerBound, pending, on, ahead]
          | true =>
              refine Or.inr (Or.inr ⟨first, List.mem_cons_self, ?_⟩)
              rcases timerLess_iff.mp ahead with below | ⟨equal, _⟩
              · exact UInt64.le_of_lt below
              · exact UInt64.le_of_eq equal

theorem addTimerLocked_tickled (mgr : TimerManager) (val : Addr)
    (on : (mgr.addTimerLocked val).2.m_tickled = true) :
    (mgr.addTimerLocked val).1 = true ∨ mgr.m_tickled = true := by
  simp only [TimerManager.addTimerLocked] at on ⊢
  split at on
  · rename_i front
    exact Or.inl front
  · exact Or.inr on

/-- `refresh` and `reset` erase the timer they find before they change it. -/
theorem erased_others {timer : Addr} {it : Nat} (held : Held mgr [])
    (found : mgr.find timer = some it) (contents : Timer) :
    ∀ other ∈ ((mgr.erase it).write timer contents).m_timers, other ∈ mgr.m_timers ∧
      ((mgr.erase it).write timer contents).heap other = mgr.heap other := by
  intro other mem
  rcases (OrderedSet.mem_erase (timerLess_order mgr.heap) held.sorted found other).mp mem with
    ⟨different, pending⟩
  constructor
  · exact pending
  · simp [TimerManager.write, TimerManager.erase, different]

theorem emitAll_pending (mgr : TimerManager) (now_ms : UInt64) (flight : List Addr)
    {timer : Addr} (mem : timer ∈ (mgr.emitAll now_ms flight).2.m_timers) :
    timer ∈ mgr.m_timers ∨ timer ∈ flight := by
  induction flight generalizing mgr with
  | nil => exact Or.inl mem
  | cons shot rest ih =>
      rcases ih (mgr.emit now_ms shot) mem with pending | later
      · simp only [TimerManager.emit] at pending
        split at pending
        · rcases (OrderedSet.mem_insert (timerLess_order _) shot timer).mp pending with same | old
          · exact Or.inr (List.mem_cons.mpr (Or.inl same))
          · exact Or.inl old
        · exact Or.inl pending
      · exact Or.inr (List.mem_cons_of_mem shot later)

theorem Started.listExpiredCb {temp : Addr} {now : UInt64} (started : Started mgr clock)
    (past : now ≤ clock)
    (inRange : ∀ timer ∈ mgr.expired temp now, mgr.recurring timer = true →
      now.toNat + (mgr.heap timer).m_ms.toNat < UInt64.size) :
    Started (mgr.listExpiredCb temp now).2 clock := by
  intro timer mem
  rcases listExpiredCb_dates mgr temp now timer with ⟨delay, date⟩
  by_cases again : timer ∈ mgr.expired temp now ∧ mgr.recurring timer = true
  · rw [if_pos again, ← delay] at date
    apply startedBy_sum date past
    rw [delay]
    exact inRange timer again.1 again.2
  · rw [if_neg again] at date
    rcases listExpiredCb_emits mgr temp now with ⟨start, _, _, cut, result⟩
    rw [result] at mem
    have pending : timer ∈ mgr.m_timers := by
      rw [cut, List.mem_append]
      exact (emitAll_pending start now _ mem).symm
    unfold Timer.StartedBy
    rw [delay, date]
    exact started timer pending

end Dates

section Workers
variable {count : Nat} {idlers : Idlers}

/-- As long as a worker is awake nothing can be missed. -/
theorem Watched.of_awake {worker : Nat} (isWorker : worker < count)
    (awake : (idlers.phase worker).Awake) (held : Held idlers.mgr [])
    (started : Started idlers.mgr idlers.clock) : Watched count idlers := by
  have stirring : Stirring count idlers := Or.inr ⟨worker, isWorker, awake⟩
  constructor
  · exact held
  · exact started
  · intro _
    exact stirring
  · intro timer _
    exact Or.inl stirring

/-- A timer that goes in is announced, or it is behind another one, or a
notification is on its way already. -/
theorem Watched.unlocked {front : Bool} {mgr : TimerManager} (watched : Watched count idlers)
    (held : Held mgr []) (started : Started mgr idlers.clock)
    (tickled : mgr.m_tickled = true → front = true ∨ idlers.mgr.m_tickled = true)
    (covered : ∀ timer ∈ mgr.m_timers, front = true ∨ idlers.mgr.m_tickled = true ∨
      ∃ other ∈ idlers.mgr.m_timers,
        (idlers.mgr.heap other).m_next ≤ (mgr.heap timer).m_next) :
    Watched count (idlers.unlocked front mgr) := by
  have announces : front = true → Stirring count (idlers.unlocked front mgr) := by
    rintro rfl
    apply Or.inl
    simp only [Idlers.unlocked, Bool.toNat_true]
    omega
  have stirs : Stirring count idlers → Stirring count (idlers.unlocked front mgr) := by
    rintro (notified | awake)
    · apply Or.inl
      simp only [Idlers.unlocked]
      omega
    · exact Or.inr awake
  constructor
  · exact held
  · exact started
  · intro on
    rcases tickled on with inserted | before
    · exact announces inserted
    · exact stirs (watched.tickled before)
  · intro timer mem
    rcases covered timer mem with inserted | before | ⟨other, mem_other, ahead⟩
    · exact Or.inl (announces inserted)
    · exact Or.inl (stirs (watched.tickled before))
    · rcases watched.covered other mem_other with
        stirring | ⟨worker, isWorker, wakeUp, wakes, by_then⟩
      · exact Or.inl (stirs stirring)
      · have later := UInt64.le_iff_toNat_le.mp ahead
        exact Or.inr ⟨worker, isWorker, wakeUp, wakes, Nat.le_trans by_then later⟩

end Workers

section Operations
variable {count : Nat} {idlers : Idlers}

theorem Watched.inserted {prior : TimerManager} {val : Addr} (watched : Watched count idlers)
    (held : Held prior [val]) (tickled : prior.m_tickled = idlers.mgr.m_tickled)
    (others : ∀ timer ∈ prior.m_timers, timer ∈ idlers.mgr.m_timers ∧
      prior.heap timer = idlers.mgr.heap timer)
    (self : (prior.heap val).StartedBy idlers.clock) :
    Watched count
      (idlers.unlocked (prior.addTimerLocked val).1 (prior.addTimerLocked val).2) := by
  apply watched.unlocked (held_addTimerLocked held)
  · apply watched.started.rearm val
    · intro timer mem different
      rw [mem_addTimerLocked] at mem
      rw [addTimerLocked_heap]
      exact others timer (mem.resolve_left different)
    · rw [addTimerLocked_heap]
      exact self
  · intro on
    rw [← tickled]
    exact addTimerLocked_tickled prior val on
  · intro timer mem
    rw [addTimerLocked_heap, ← tickled]
    rcases (mem_addTimerLocked prior val timer).mp mem with rfl | pending
    · rcases addTimerLocked_front prior timer with front | on | ⟨other, mem_other, ahead⟩
      · exact Or.inl front
      · exact Or.inr (Or.inl on)
      · rcases others other mem_other with ⟨known, unchanged⟩
        exact Or.inr (Or.inr ⟨other, known, unchanged ▸ ahead⟩)
    · rcases others timer pending with ⟨known, unchanged⟩
      exact Or.inr (Or.inr ⟨timer, known, UInt64.le_of_eq (congrArg _ unchanged.symm)⟩)

theorem Watched.addTimer {timer : Addr} {ms now : UInt64} (watched : Watched count idlers)
    (fresh : timer ∉ idlers.mgr.created) (past : now ≤ idlers.clock)
    (inRange : now.toNat + ms.toNat < UInt64.size) (cb : Func) (recurring : Bool) :
    Watched count (idlers.unlocked (idlers.mgr.addTimer timer ms (some cb) recurring now).1
      (idlers.mgr.addTimer timer ms (some cb) recurring now).2) := by
  let contents : Timer :=
    { m_recurring := recurring, m_ms := ms, m_next := now + ms, m_cb := some cb }
  let created : TimerManager :=
    { idlers.mgr.write timer contents with created := idlers.mgr.created ++ [timer] }
  have held : Held (created.record (.added timer)) [timer] :=
    (held_create contents watched.held fresh rfl).frame rfl rfl rfl
  refine watched.inserted held rfl ?_ ?_
  · intro other pending
    have different : other ≠ timer := by
      rintro rfl
      exact fresh (watched.held.known other (Or.inl pending))
    exact ⟨pending, by simp [TimerManager.record, TimerManager.write, different]⟩
  · have itself : (created.record (.added timer)).heap timer = contents := by
      simp [created, TimerManager.record, TimerManager.write]
    have started : ((created.record (.added timer)).heap timer).StartedBy idlers.clock := by
      rw [itself]
      exact startedBy_sum rfl past inRange
    exact started

theorem Watched.cancel {timer : Addr} {answer : Bool} {after : TimerManager}
    (watched : Watched count idlers) (known : timer ∈ idlers.mgr.created)
    (done : idlers.mgr.cancel timer = some (answer, after)) :
    Watched count (idlers.unlocked false after) := by
  have dates := cancel_dates done
  have kept : after.m_tickled = idlers.mgr.m_tickled ∧
      ∀ other ∈ after.m_timers, other ∈ idlers.mgr.m_timers := by
    cases callback : (idlers.mgr.heap timer).m_cb.isSome with
    | false =>
        rw [cancel_spent callback] at done
        cases done
        exact ⟨rfl, fun _ mem => mem⟩
    | true =>
        rcases cancel_armed watched.held known callback with ⟨it, _, result⟩
        rw [result] at done
        cases done
        exact ⟨rfl, fun _ mem => List.mem_of_mem_eraseIdx mem⟩
  apply watched.unlocked (held_cancel watched.held known done)
  · intro other mem
    rcases dates other with ⟨delay, date⟩
    unfold Timer.StartedBy
    rw [delay, date]
    exact watched.started other (kept.2 other mem)
  · rw [kept.1]
    exact Or.inr
  · intro other mem
    exact Or.inr (Or.inr ⟨other, kept.2 other mem, UInt64.le_of_eq (dates other).2.symm⟩)

/-- The clock only goes forward, so `refresh` needs no announcement. -/
theorem Watched.refresh {timer : Addr} (watched : Watched count idlers)
    (inRange : (idlers.mgr.refresh timer idlers.clock).1 = true →
      idlers.clock.toNat + (idlers.mgr.heap timer).m_ms.toNat < UInt64.size) :
    Watched count (idlers.unlocked false (idlers.mgr.refresh timer idlers.clock).2) := by
  have held : Held (idlers.mgr.refresh timer idlers.clock).2 [] :=
    held_refresh watched.held idlers.clock
  rcases refresh_cases idlers.mgr timer idlers.clock with result | ⟨it, found, callback, result⟩
  · rw [result]
    exact watched.unlocked watched.held watched.started Or.inr
      fun other mem => Or.inr (Or.inr ⟨other, mem, UInt64.le_refl _⟩)
  · let contents : Timer :=
      { idlers.mgr.heap timer with
        m_next := idlers.clock + (idlers.mgr.heap timer).m_ms }
    have others := erased_others watched.held found contents
    have itself : ((idlers.mgr.erase it).write timer contents).heap timer = contents := by
      simp [TimerManager.write]
    have pending := find_pending found
    have started : contents.StartedBy idlers.clock :=
      startedBy_sum rfl (UInt64.le_refl _) (inRange (by rw [result]))
    have members : ∀ other, other ∈ (((idlers.mgr.erase it).write timer contents).insert
        timer).m_timers ↔ other = timer ∨
          other ∈ ((idlers.mgr.erase it).write timer contents).m_timers :=
      OrderedSet.mem_insert (timerLess_order _) timer
    rw [result] at held ⊢
    apply watched.unlocked held
    · apply watched.started.rearm timer
      · intro other mem different
        exact others other (((members other).mp mem).resolve_left different)
      · exact itself ▸ started
    · exact Or.inr
    · intro other mem
      refine Or.inr (Or.inr ⟨other, ?_, ?_⟩)
      · rcases (members other).mp mem with rfl | old
        · exact pending
        · exact (others other old).1
      · by_cases same : other = timer
        · have late : (idlers.mgr.heap timer).m_next ≤ contents.m_next := by
            apply UInt64.le_iff_toNat_le.mpr
            have total : contents.m_next.toNat = _ := exact_sum rfl (inRange (by rw [result]))
            exact Nat.le_trans (watched.started timer pending).2 (Nat.le_of_eq total.symm)
          rw [same]
          exact itself ▸ late
        · have old := ((members other).mp mem).resolve_left same
          exact UInt64.le_of_eq (congrArg _ (others other old).2.symm)

theorem Watched.reset {timer : Addr} {ms : UInt64} {from_now : Bool}
    (watched : Watched count idlers)
    (inRange : (idlers.mgr.resetLocked timer ms from_now idlers.clock).1 = true →
      (idlers.mgr.start timer from_now idlers.clock).toNat + ms.toNat < UInt64.size) :
    Watched count (idlers.unlocked (idlers.mgr.resetLocked timer ms from_now idlers.clock).2.1
      (idlers.mgr.resetLocked timer ms from_now idlers.clock).2.2) := by
  rcases resetLocked_cases idlers.mgr timer ms from_now idlers.clock with
    result | ⟨it, found, callback, result⟩
  · rw [result]
    exact watched.unlocked watched.held watched.started Or.inr
      fun other mem => Or.inr (Or.inr ⟨other, mem, UInt64.le_refl _⟩)
  · let contents : Timer :=
      { idlers.mgr.heap timer with
        m_ms := ms, m_next := idlers.mgr.start timer from_now idlers.clock + ms }
    have others := erased_others watched.held found contents
    have held : Held ((idlers.mgr.erase it).write timer contents) [timer] :=
      held_write contents (held_erase watched.held found) callback
    have itself : ((idlers.mgr.erase it).write timer contents).heap timer = contents := by
      simp [TimerManager.write]
    have pending := find_pending found
    have past := watched.started.start_le pending from_now
    rw [result]
    apply watched.inserted held rfl others
    rw [itself]
    exact startedBy_sum rfl past (inRange (by rw [result]))

theorem getNextTimer_wakes {mgr : TimerManager} (held : Held mgr []) {now_ms : UInt64}
    (later : (mgr.getNextTimer now_ms).1 ≠ 0) :
    ∀ timer ∈ mgr.m_timers, now_ms.toNat + (mgr.getNextTimer now_ms).1.toNat ≤
      (mgr.heap timer).m_next.toNat := by
  intro timer mem
  cases pending : mgr.m_timers with
  | nil =>
      rw [pending] at mem
      cases mem
  | cons first rest =>
      have least : (mgr.heap first).m_next ≤ (mgr.heap timer).m_next := by
        rw [pending] at mem
        rcases List.mem_cons.mp mem with rfl | mem
        · exact UInt64.le_refl _
        · have sorted := (List.pairwise_cons.mp (pending ▸ held.sorted)).1
          rcases timerLess_iff.mp (sorted timer mem) with below | ⟨equal, _⟩
          · exact UInt64.le_of_lt below
          · exact UInt64.le_of_eq equal
      have bound := UInt64.le_iff_toNat_le.mp least
      by_cases due : now_ms ≥ (mgr.heap first).m_next
      · simp [TimerManager.getNextTimer, pending, due] at later
      · have ahead : now_ms ≤ (mgr.heap first).m_next := UInt64.le_of_lt (UInt64.not_le.mp due)
        have remaining := UInt64.toNat_sub_of_le _ _ ahead
        have order := UInt64.le_iff_toNat_le.mp ahead
        have result : (mgr.getNextTimer now_ms).1 = (mgr.heap first).m_next - now_ms := by
          simp [TimerManager.getNextTimer, pending, due]
        rw [result, remaining]
        omega

theorem Watched.poll {worker : Nat} (watched : Watched count idlers) (isWorker : worker < count) :
    Watched count ((idlers.unlocked false (idlers.mgr.getNextTimer idlers.clock).2).move worker
      (.polled idlers.clock (idlers.mgr.getNextTimer idlers.clock).1)) := by
  have held : Held (idlers.mgr.getNextTimer idlers.clock).2 [] :=
    held_getNextTimer watched.held idlers.clock
  have set := getNextTimer_set idlers.mgr idlers.clock
  have started : Started (idlers.mgr.getNextTimer idlers.clock).2 idlers.clock := by
    rw [set]
    exact watched.started
  by_cases due : (idlers.mgr.getNextTimer idlers.clock).1 = 0
  · apply Watched.of_awake isWorker _ held started
    simpa [Idlers.move, Phase.Awake] using due
  · constructor
    · exact held
    · exact started
    · intro on
      simp [Idlers.move, Idlers.unlocked, set] at on
    · intro timer mem
      change timer ∈ (idlers.mgr.getNextTimer idlers.clock).2.m_timers at mem
      rw [set] at mem
      refine Or.inr ⟨worker, isWorker,
        idlers.clock.toNat + (idlers.mgr.getNextTimer idlers.clock).1.toNat, ?_, ?_⟩
      · simp [Idlers.move, Phase.wakeUp]
      · change _ ≤ ((idlers.mgr.getNextTimer idlers.clock).2.heap timer).m_next.toNat
        rw [set]
        exact getNextTimer_wakes watched.held due timer mem

/-- Calling `epoll_wait` changes nothing of what the worker goes by. -/
theorem Watched.wait {worker : Nat} {reading result : UInt64} (watched : Watched count idlers)
    (polled : idlers.phase worker = .polled reading result) :
    Watched count (idlers.move worker (.waiting reading result)) := by
  have awake : ∀ other, (idlers.phase other).Awake →
      ((idlers.move worker (.waiting reading result)).phase other).Awake := by
    intro other awake
    by_cases same : other = worker
    · rw [same, polled] at awake
      simpa [Idlers.move, same, Phase.Awake] using awake
    · simpa [Idlers.move, same] using awake
  have wakeUp : ∀ other, ((idlers.move worker (.waiting reading result)).phase other).wakeUp =
      (idlers.phase other).wakeUp := by
    intro other
    by_cases same : other = worker
    · rw [same, polled]
      simp [Idlers.move, Phase.wakeUp]
    · simp [Idlers.move, same]
  have stirs : Stirring count idlers →
      Stirring count (idlers.move worker (.waiting reading result)) := by
    rintro (notified | ⟨other, isWorker, stirring⟩)
    · exact Or.inl notified
    · exact Or.inr ⟨other, isWorker, awake other stirring⟩
  constructor
  · exact watched.held
  · exact watched.started
  · intro on
    exact stirs (watched.tickled on)
  · intro timer mem
    rcases watched.covered timer mem with stirring | ⟨other, isWorker, time, wakes, by_then⟩
    · exact Or.inl (stirs stirring)
    · exact Or.inr ⟨other, isWorker, time, (wakeUp other).trans wakes, by_then⟩

end Operations

section Runs
variable {count : Nat} {before after : Idlers}

theorem watched_work {worker : Nat} {step : WorkerStep} (watched : Watched count before)
    (inRange : InRange before (.work worker step)) (isWorker : worker < count)
    (moved : before.work worker step = some after) : Watched count after := by
  have unmoved : ∀ phase : Phase, phase.Awake → ∀ written,
      Watched count ({ before with written := written }.move worker phase) := by
    intro phase awake written
    apply Watched.of_awake isWorker
    · simpa [Idlers.move] using awake
    · exact watched.held
    · exact watched.started
  cases step with
  | enter =>
      simp only [Idlers.work] at moved
      split at moved
      · cases moved
        exact unmoved .entered trivial before.written
      · cases moved
  | poll =>
      simp only [Idlers.work] at moved
      split at moved
      · cases moved
        exact watched.poll isWorker
      · cases moved
  | wait =>
      simp only [Idlers.work] at moved
      split at moved
      · rename_i reading result polled
        cases moved
        exact watched.wait polled
      · cases moved
  | wake =>
      simp only [Idlers.work] at moved
      split at moved
      · cases moved
        exact unmoved .returned trivial before.written
      · cases moved
  | deliver notifications =>
      simp only [Idlers.work] at moved
      split at moved
      · split at moved
        · cases moved
          exact unmoved .returned trivial _
        · cases moved
      · cases moved
  | expire temp now =>
      simp only [Idlers.work] at moved
      split at moved
      · split at moved
        · rename_i returned admitted
          cases moved
          apply Watched.of_awake isWorker
          · simp [Idlers.move, Phase.Awake]
          · exact held_listExpiredCb watched.held temp now
          · exact watched.started.listExpiredCb admitted.2 inRange
        · cases moved
      · cases moved
  | leave =>
      simp only [Idlers.work] at moved
      split at moved
      · cases moved
        exact unmoved .away trivial before.written
      · cases moved

/-- A notification is dropped only where every worker is away. -/
theorem watched_tickle (workers : 0 < count) (watched : Watched count before)
    (moved : before.act count .tickle = some after) : Watched count after := by
  simp only [Idlers.act] at moved
  split at moved
  · rename_i announced
    split at moved
    · cases moved
      have stirs : Stirring count before → Stirring count { before with
          announced := before.announced - 1, written := before.written + 1 } := by
        rintro (notified | awake)
        · apply Or.inl
          change 0 < before.announced - 1 + (before.written + 1)
          omega
        · exact Or.inr awake
      constructor
      · exact watched.held
      · exact watched.started
      · intro on
        exact stirs (watched.tickled on)
      · intro timer mem
        exact (watched.covered timer mem).imp stirs id
    · rename_i away
      cases moved
      have first_away : before.phase 0 = .away := by
        simpa using List.any_eq_false.mp (Bool.eq_false_iff.mpr away) 0 (List.mem_range.mpr workers)
      apply Watched.of_awake workers
      · change (before.phase 0).Awake
        rw [first_away]
        trivial
      · exact watched.held
      · exact watched.started
  · cases moved

theorem watched_step {action : Action} (workers : 0 < count) (watched : Watched count before)
    (inRange : InRange before action)
    (moved : before.act count action = some after) : Watched count after := by
  cases action with
  | tick now =>
      simp only [Idlers.act] at moved
      split at moved
      · rename_i forward
        cases moved
        constructor
        · exact watched.held
        · exact watched.started.tick forward
        · exact watched.tickled
        · exact watched.covered
      · cases moved
  | addTimer timer ms cb recurring now =>
      simp only [Idlers.act] at moved
      split at moved
      · rename_i admitted
        cases moved
        exact watched.addTimer admitted.1 admitted.2 inRange cb recurring
      · cases moved
  | cancel timer =>
      simp only [Idlers.act] at moved
      split at moved
      · rename_i known
        rcases Option.map_eq_some_iff.mp moved with ⟨⟨answer, _⟩, done, rfl⟩
        exact watched.cancel known done
      · cases moved
  | refresh timer =>
      simp only [Idlers.act] at moved
      split at moved
      · cases moved
        exact watched.refresh inRange
      · cases moved
  | reset timer ms from_now =>
      simp only [Idlers.act] at moved
      split at moved
      · cases moved
        exact watched.reset inRange
      · cases moved
  | getNextTimer =>
      cases moved
      have held : Held (before.mgr.getNextTimer before.clock).2 [] :=
        held_getNextTimer watched.held before.clock
      rw [getNextTimer_set] at held ⊢
      apply watched.unlocked held watched.started
      · intro on
        cases on
      · intro timer mem
        exact Or.inr (Or.inr ⟨timer, mem, UInt64.le_refl _⟩)
  | tickle => exact watched_tickle workers watched moved
  | work worker step =>
      simp only [Idlers.act] at moved
      split at moved
      · rename_i isWorker
        exact watched_work watched inRange isWorker moved
      · cases moved

theorem reach_watched (workers : 0 < count) {idlers : Idlers}
    (reached : Reach (idleWorkers count) InRange idlers) : Watched count idlers := by
  apply reached.invariant (Watched count)
  · rintro start ⟨now, rfl⟩
    apply Watched.of_awake workers
    · trivial
    · exact .constructed now
    · intro timer mem
      cases mem
  · intro before action after _ watched inRange moved
    exact watched_step workers watched inRange moved

end Runs

def Settled (count : Nat) (idlers : Idlers) : Prop :=
  (∀ worker < count, (idlers.phase worker).Blocked) ∧ idlers.announced = 0 ∧ idlers.written = 0

instance Settled.decidable (count : Nat) (idlers : Idlers) : Decidable (Settled count idlers) :=
  inferInstanceAs (Decidable (_ ∧ _))

def NoLostTimer (count : Nat) (idlers : Idlers) : Prop :=
  Settled count idlers → ∀ timer ∈ idlers.mgr.m_timers,
    Covered count idlers (idlers.mgr.heap timer).m_next

theorem no_lost_timer {count : Nat} (workers : 0 < count) {idlers : Idlers}
    (reached : Reach (idleWorkers count) InRange idlers) : NoLostTimer count idlers := by
  have watched := reach_watched workers reached
  rintro ⟨blocked, issued, delivered⟩ timer mem
  rcases watched.covered timer mem with (notified | ⟨worker, isWorker, awake⟩) | covered
  · omega
  · exact absurd awake (blocked worker isWorker).not_awake
  · exact covered

/-- Both workers are blocked again once the first one has been told of a timer
that neither of them had seen. -/
theorem no_lost_timer_run :
    ∃ idlers, run (idleWorkers 2) { mgr := .constructed 1000, clock := 1000 }
        [.work 0 .enter, .work 0 .poll, .work 0 .wait, .work 1 .enter, .work 1 .poll,
          .addTimer 8 50 1 false 1000, .work 1 .wait, .tickle, .work 0 (.deliver 1), .tick 1010,
          .work 0 (.expire 9 1010), .work 0 .leave, .work 0 .enter, .work 0 .poll,
          .work 0 .wait] = some idlers ∧ Covered 2 idlers (idlers.mgr.heap 8).m_next := by
  apply run_meets_where InRange
    (fun idlers => decide (Settled 2 idlers) && decide (8 ∈ idlers.mgr.m_timers))
  · exact ⟨1000, rfl⟩
  · decide
  · decide
  · intro idlers reached ends
    rcases Bool.and_eq_true_iff.mp ends with ⟨settled, pending⟩
    exact no_lost_timer (by decide) reached (of_decide_eq_true settled) 8
      (of_decide_eq_true pending)

end Ztyco.Timers
