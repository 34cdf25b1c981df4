import Ztyco.TimerHistory

/-!
When a timer fires. The deadline of a timer is the reading it was last armed
at plus its delay, as an exact number; the timer itself keeps that sum modulo
2^64. `listExpiredCb` takes the pending timers whose kept sum is at most its
reading, or all of them where it finds that the clock has been set back.
-/

namespace Ztyco.Timers

open OrderedSet (Sorted)
open Transition

def Happening.fired : Happening → Option Addr
  | .emitted timer _ => some timer
  | .added _ | .cancelled _ => none

def TimerManager.expired (mgr : TimerManager) (temp : Addr) (now_ms : UInt64) : List Addr :=
  ((mgr.listExpiredCb temp now_ms).2.history.drop mgr.history.length).filterMap Happening.fired

/-- A callback pushed at the reading `now`, with `m_previousTime` as it was before. -/
structure Firing where
  timer : Addr
  deadline : Nat
  now : UInt64
  previous : UInt64
  deriving DecidableEq, Repr

def Firing.Punctual (firing : Firing) : Prop :=
  firing.deadline ≤ firing.now.toNat ∨ firing.now.toNat + 3600000 < firing.previous.toNat

instance Firing.Punctual.decidable (firing : Firing) : Decidable firing.Punctual :=
  inferInstanceAs (Decidable (_ ∨ _))

/-- A TimerManager, the reading each timer was last armed at, and its firings. -/
structure Clocked where
  mgr : TimerManager
  armed : Addr → UInt64 := fun _ => 0
  firings : List Firing := []

namespace Clocked

def deadline (clocked : Clocked) (timer : Addr) : Nat :=
  (clocked.armed timer).toNat + (clocked.mgr.heap timer).m_ms.toNat

def firing (clocked : Clocked) (now : UInt64) (timer : Addr) : Firing :=
  { timer := timer, deadline := clocked.deadline timer, now := now,
    previous := clocked.mgr.m_previousTime }

/-- `reset` without `from_now` keeps the reading the timer was armed at, and a
recurring timer is armed again when it fires. -/
def follow (clocked : Clocked) (after : TimerManager) : Op → Clocked
  | .addTimer timer _ _ _ now =>
      { clocked with mgr := after, armed := Function.update clocked.armed timer now }
  | .refresh timer now =>
      if (clocked.mgr.refresh timer now).1 then
        { clocked with mgr := after, armed := Function.update clocked.armed timer now }
      else { clocked with mgr := after }
  | .reset timer ms from_now now =>
      if from_now && (clocked.mgr.reset timer ms from_now now).1 then
        { clocked with mgr := after, armed := Function.update clocked.armed timer now }
      else { clocked with mgr := after }
  | .listExpiredCb temp now =>
      let expired := clocked.mgr.expired temp now
      { mgr := after
        armed := fun timer =>
          if timer ∈ expired ∧ clocked.mgr.recurring timer = true then now
          else clocked.armed timer
        firings := clocked.firings ++ expired.map (clocked.firing now) }
  | .cancel _ | .getNextTimer _ => { clocked with mgr := after }

end Clocked

def clocked : Machine Clocked Op where
  initial state := ∃ now, state = { mgr := .constructed now }
  step state op := (timers.step state.mgr op).map fun after => state.follow after op

theorem clocked_step {before after : Clocked} {op : Op}
    (moved : clocked.step before op = some after) :
    ∃ mgr, timers.step before.mgr op = some mgr ∧ after = before.follow mgr op := by
  rcases Option.map_eq_some_iff.mp moved with ⟨mgr, taken, rfl⟩
  exact ⟨mgr, taken, rfl⟩

theorem follow_mgr (state : Clocked) (after : TimerManager) (op : Op) :
    (state.follow after op).mgr = after := by
  cases op with
  | addTimer => rfl
  | cancel => rfl
  | refresh =>
      simp only [Clocked.follow]
      split <;> rfl
  | reset =>
      simp only [Clocked.follow]
      split <;> rfl
  | getNextTimer => rfl
  | listExpiredCb => rfl

theorem reach_mgr {allowed : Clocked → Op → Prop} {state : Clocked}
    (reached : Reach clocked allowed state) : Reach timers anyStep state.mgr := by
  apply reached.invariant (fun state => Reach timers anyStep state.mgr)
  · rintro state ⟨now, rfl⟩
    exact .start ⟨now, rfl⟩
  · intro before op after _ prior _ moved
    rcases clocked_step moved with ⟨mgr, taken, rfl⟩
    rw [follow_mgr]
    exact prior.extend (.single op trivial taken)

/-! Which timers `listExpiredCb` takes. -/

section Expired
variable {mgr : TimerManager} {heap : Addr → Timer} {pending : List Addr} {now : UInt64}

theorem emitAll_fired (mgr : TimerManager) (now_ms : UInt64) (flight : List Addr) :
    ∃ shots, (mgr.emitAll now_ms flight).2.history = mgr.history ++ shots ∧
      shots.filterMap Happening.fired = flight := by
  induction flight generalizing mgr with
  | nil => exact ⟨[], (List.append_nil _).symm, rfl⟩
  | cons timer rest ih =>
      rcases ih (mgr.emit now_ms timer) with ⟨shots, history, fired⟩
      refine ⟨.emitted timer (mgr.heap timer).m_cb :: shots, ?_, ?_⟩
      · simp [TimerManager.emitAll, history, emit_history]
      · simp [Happening.fired, fired]

theorem mem_take_skipEqual
    (ordered : pending.Pairwise fun a b => (heap a).m_next ≤ (heap b).m_next)
    (notBelow : ∀ timer ∈ pending, now ≤ (heap timer).m_next) (timer : Addr) :
    timer ∈ pending.take (TimerManager.skipEqual heap now pending) ↔
      timer ∈ pending ∧ (heap timer).m_next ≤ now := by
  induction pending with
  | nil => simp
  | cons head rest ih =>
      rcases List.pairwise_cons.mp ordered with ⟨least, later⟩
      have rest_iff := ih later fun other mem => notBelow other (List.mem_cons_of_mem head mem)
      by_cases equal : (heap head).m_next = now
      · simp only [TimerManager.skipEqual, equal, ↓reduceIte, List.take_succ_cons,
          List.mem_cons, rest_iff]
        constructor
        · rintro (rfl | ⟨mem, below⟩)
          · exact ⟨Or.inl rfl, UInt64.le_of_eq equal⟩
          · exact ⟨Or.inr mem, below⟩
        · rintro ⟨rfl | mem, below⟩
          · exact Or.inl rfl
          · exact Or.inr ⟨mem, below⟩
      · have above : ∀ other ∈ head :: rest, (heap head).m_next ≤ (heap other).m_next := by
          intro other mem
          rcases List.mem_cons.mp mem with rfl | mem
          · exact UInt64.le_refl _
          · exact least other mem
        simp only [TimerManager.skipEqual, equal, ↓reduceIte, List.take_zero, List.not_mem_nil,
          false_iff]
        rintro ⟨mem, below⟩
        have low := UInt64.le_trans (above timer mem) below
        exact equal (UInt64.le_antisymm low (notBelow head List.mem_cons_self))

/-- The cut is where the keys pass the reading, wherever the temporary timer
falls among those that equal it. -/
theorem mem_take_expired (now : UInt64) {temp : Addr} (sorted : Sorted (timerLess heap) pending)
    (outside : temp ∉ pending) (timer : Addr) :
    let it := OrderedSet.lowerBound
      (timerLess (Function.update heap temp { m_next := now })) temp pending
    timer ∈ pending.take (it + TimerManager.skipEqual heap now (pending.drop it)) ↔
      timer ∈ pending ∧ (heap timer).m_next ≤ now := by
  induction pending with
  | nil => simp
  | cons head rest ih =>
      rcases List.pairwise_cons.mp sorted with ⟨least, later⟩
      have other : head ≠ temp := fun same => outside (same ▸ List.mem_cons_self)
      have rest_iff := ih later fun mem => outside (List.mem_cons_of_mem head mem)
      have first_iff : timerLess (Function.update heap temp { m_next := now }) head temp = true ↔
          (heap head).m_next < now ∨ (heap head).m_next = now ∧ head < temp := by
        simp [timerLess_iff, other]
      cases first : timerLess (Function.update heap temp { m_next := now }) head temp with
      | true =>
          have below : (heap head).m_next ≤ now := by
            rcases first_iff.mp first with below | ⟨equal, _⟩
            · exact UInt64.le_of_lt below
            · exact UInt64.le_of_eq equal
          simp only [OrderedSet.lowerBound, first, ↓reduceIte, List.drop_succ_cons,
            Nat.add_right_comm _ 1, List.take_succ_cons, List.mem_cons, rest_iff]
          constructor
          · rintro (rfl | ⟨mem, low⟩)
            · exact ⟨Or.inl rfl, below⟩
            · exact ⟨Or.inr mem, low⟩
          · rintro ⟨rfl | mem, low⟩
            · exact Or.inl rfl
            · exact Or.inr ⟨mem, low⟩
      | false =>
          have notBelow : now ≤ (heap head).m_next := by
            apply UInt64.not_lt.mp
            intro below
            rw [first_iff.mpr (Or.inl below)] at first
            cases first
          have ordered : (head :: rest).Pairwise fun a b => (heap a).m_next ≤ (heap b).m_next := by
            apply List.Pairwise.imp _ sorted
            intro a b below
            rcases timerLess_iff.mp below with below | ⟨equal, _⟩
            · exact UInt64.le_of_lt below
            · exact UInt64.le_of_eq equal
          simp only [OrderedSet.lowerBound, first, Bool.false_eq_true, ↓reduceIte, List.drop_zero,
            Nat.zero_add]
          apply mem_take_skipEqual ordered
          intro one mem
          rcases List.mem_cons.mp mem with rfl | mem
          · exact notBelow
          · exact UInt64.le_trans notBelow ((List.pairwise_cons.mp ordered).1 one mem)

theorem rollover_iff :
    (mgr.detectClockRollover now).1 = true ↔ now.toNat < mgr.m_previousTime.toNat ∧
      (mgr.m_previousTime.toNat < 3600000 ∨ now.toNat + 3600000 < mgr.m_previousTime.toNat) := by
  have hour : (60 * 60 * 1000 : UInt64).toNat = 3600000 := rfl
  have now_size := now.toNat_lt
  have previous_size := mgr.m_previousTime.toNat_lt
  simp only [TimerManager.detectClockRollover, Bool.and_eq_true, decide_eq_true_eq,
    UInt64.lt_iff_toNat_lt, UInt64.toNat_sub, hour]
  omega

theorem expired_of_emitAll {start : TimerManager} {temp : Addr} {flight : List Addr}
    (result : mgr.listExpiredCb temp now = start.emitAll now flight)
    (history : start.history = mgr.history) :
    mgr.expired temp now = flight := by
  rcases emitAll_fired start now flight with ⟨shots, pushed, fired⟩
  rw [TimerManager.expired, result, pushed, history, List.drop_left, fired]

theorem listExpiredCb_cons {first : Addr} {rest : List Addr} (temp : Addr)
    (pending : mgr.m_timers = first :: rest) :
    mgr.listExpiredCb temp now =
      if !(mgr.detectClockRollover now).1 && (mgr.heap first).m_next > now then
        (mgr.detectClockRollover now).2.emitAll now []
      else
        { (mgr.detectClockRollover now).2 with
            m_timers := mgr.m_timers.drop
              (mgr.expiredEnd temp (mgr.detectClockRollover now).1 now) }.emitAll now
          (mgr.m_timers.take (mgr.expiredEnd temp (mgr.detectClockRollover now).1 now)) := by
  unfold TimerManager.listExpiredCb
  split
  · rename_i empty
    rw [pending] at empty
    cases empty
  · rename_i head tail shape
    rw [pending] at shape
    cases shape
    rfl

theorem listExpiredCb_reached {first : Addr} {rest : List Addr} (temp : Addr)
    (pending : mgr.m_timers = first :: rest)
    (reached : (mgr.detectClockRollover now).1 = true ∨ (mgr.heap first).m_next ≤ now) :
    mgr.listExpiredCb temp now =
      { (mgr.detectClockRollover now).2 with
          m_timers := mgr.m_timers.drop
            (mgr.expiredEnd temp (mgr.detectClockRollover now).1 now) }.emitAll now
        (mgr.m_timers.take (mgr.expiredEnd temp (mgr.detectClockRollover now).1 now)) := by
  have taken : ¬ (!(mgr.detectClockRollover now).1 &&
      decide ((mgr.heap first).m_next > now)) = true := by
    rcases reached with rollover | due
    · simp [rollover]
    · simp [UInt64.not_lt.mpr due]
  rw [listExpiredCb_cons temp pending, if_neg taken]

theorem listExpiredCb_early {first : Addr} {rest : List Addr} (temp : Addr)
    (pending : mgr.m_timers = first :: rest) (rollover : (mgr.detectClockRollover now).1 = false)
    (early : now < (mgr.heap first).m_next) :
    mgr.listExpiredCb temp now = (mgr.detectClockRollover now).2.emitAll now [] := by
  have untaken : (!(mgr.detectClockRollover now).1 &&
      decide ((mgr.heap first).m_next > now)) = true := by
    simp [rollover, early]
  rw [listExpiredCb_cons temp pending, if_pos untaken]

theorem listExpiredCb_emits (mgr : TimerManager) (temp : Addr) (now : UInt64) :
    ∃ start : TimerManager, start.heap = mgr.heap ∧ start.created = mgr.created ∧
      mgr.m_timers = mgr.expired temp now ++ start.m_timers ∧
      mgr.listExpiredCb temp now = start.emitAll now (mgr.expired temp now) := by
  cases pending : mgr.m_timers with
  | nil =>
      have result : mgr.listExpiredCb temp now = mgr.emitAll now [] := by
        simp [TimerManager.listExpiredCb, TimerManager.emitAll, pending]
      have none := expired_of_emitAll result rfl
      rw [none, result]
      exact ⟨mgr, rfl, rfl, pending.symm, rfl⟩
  | cons first rest =>
      rw [← pending]
      by_cases reached : (mgr.detectClockRollover now).1 = true ∨ (mgr.heap first).m_next ≤ now
      · have result := listExpiredCb_reached temp pending reached
        rw [expired_of_emitAll result rfl, result]
        refine ⟨_, ?_, ?_, ?_, rfl⟩
        · rfl
        · rfl
        · exact (List.take_append_drop _ _).symm
      · rcases not_or.mp reached with ⟨rollover, due⟩
        have result := listExpiredCb_early temp pending (Bool.eq_false_iff.mpr rollover)
          (UInt64.not_le.mp due)
        have none := expired_of_emitAll result rfl
        rw [none, result]
        refine ⟨_, ?_, ?_, ?_, rfl⟩
        · rfl
        · rfl
        · rfl

theorem mem_expired_sorted (sorted : Sorted (timerLess mgr.heap) mgr.m_timers) {temp : Addr}
    (outside : temp ∉ mgr.m_timers) (timer : Addr) :
    timer ∈ mgr.expired temp now ↔ timer ∈ mgr.m_timers ∧
      ((mgr.detectClockRollover now).1 = true ∨ (mgr.heap timer).m_next ≤ now) := by
  cases pending : mgr.m_timers with
  | nil => simp [TimerManager.expired, TimerManager.listExpiredCb, pending]
  | cons first rest =>
      rw [← pending]
      cases rollover : (mgr.detectClockRollover now).1 with
      | true =>
          have whole : mgr.m_timers.length ≤ mgr.expiredEnd temp true now := Nat.le_add_right _ _
          have result := listExpiredCb_reached temp pending (Or.inl rollover)
          rw [expired_of_emitAll result rfl, rollover, List.take_of_length_le whole]
          simp
      | false =>
          by_cases due : (mgr.heap first).m_next ≤ now
          · have result := listExpiredCb_reached temp pending (Or.inr due)
            rw [expired_of_emitAll result rfl, rollover]
            simpa [TimerManager.expiredEnd] using mem_take_expired now sorted outside timer
          · have early := UInt64.not_le.mp due
            have result := listExpiredCb_early temp pending rollover early
            have least := (List.pairwise_cons.mp (pending ▸ sorted)).1
            rw [expired_of_emitAll result rfl, pending]
            simp only [List.not_mem_nil, Bool.false_eq_true, false_or, false_iff]
            rintro ⟨mem, low⟩
            apply UInt64.not_lt.mpr low
            rcases List.mem_cons.mp mem with rfl | mem
            · exact early
            · rcases timerLess_iff.mp (least timer mem) with below | ⟨equal, _⟩
              · exact UInt64.lt_trans early below
              · exact equal ▸ early

theorem mem_expired (held : Held mgr []) {temp : Addr} (fresh : temp ∉ mgr.created)
    (timer : Addr) :
    timer ∈ mgr.expired temp now ↔ timer ∈ mgr.m_timers ∧
      ((mgr.detectClockRollover now).1 = true ∨ (mgr.heap timer).m_next ≤ now) :=
  mem_expired_sorted held.sorted (fun mem => fresh (held.known temp (Or.inl mem))) timer

end Expired

/-! The kept sum is the deadline modulo 2^64. -/

def Dated (state : Clocked) : Prop :=
  ∀ timer, (state.mgr.heap timer).m_next =
    state.armed timer + (state.mgr.heap timer).m_ms

section Dates
variable {mgr : TimerManager}

theorem emit_dates (mgr : TimerManager) (now_ms : UInt64) (shot timer : Addr) :
    let after := (mgr.emit now_ms shot).heap timer
    after.m_ms = (mgr.heap timer).m_ms ∧ after.m_recurring = (mgr.heap timer).m_recurring ∧
      after.m_next = if timer = shot ∧ (mgr.heap timer).m_recurring = true
        then now_ms + (mgr.heap timer).m_ms else (mgr.heap timer).m_next := by
  by_cases same : timer = shot
  · subst same
    cases kind : (mgr.heap timer).m_recurring <;>
      simp [TimerManager.emit, TimerManager.record, TimerManager.write, TimerManager.insert, kind]
  · cases kind : (mgr.heap shot).m_recurring <;>
      simp [TimerManager.emit, TimerManager.record, TimerManager.write, TimerManager.insert, kind,
        same]

theorem emitAll_dates (mgr : TimerManager) (now_ms : UInt64) (flight : List Addr) (timer : Addr) :
    let after := (mgr.emitAll now_ms flight).2.heap timer
    after.m_ms = (mgr.heap timer).m_ms ∧
      after.m_next = if timer ∈ flight ∧ (mgr.heap timer).m_recurring = true
        then now_ms + (mgr.heap timer).m_ms else (mgr.heap timer).m_next := by
  induction flight generalizing mgr with
  | nil => simp [TimerManager.emitAll]
  | cons shot rest ih =>
      rcases emit_dates mgr now_ms shot timer with ⟨delay, kind, date⟩
      rcases ih (mgr.emit now_ms shot) with ⟨delay_after, date_after⟩
      constructor
      · exact delay_after.trans delay
      · apply date_after.trans
        rw [delay, kind, date]
        by_cases recurring : (mgr.heap timer).m_recurring = true
        · by_cases later : timer ∈ rest <;> simp [recurring, later]
        · simp [recurring]

theorem listExpiredCb_dates (mgr : TimerManager) (temp : Addr) (now_ms : UInt64) (timer : Addr) :
    let after := (mgr.listExpiredCb temp now_ms).2.heap timer
    after.m_ms = (mgr.heap timer).m_ms ∧
      after.m_next = if timer ∈ mgr.expired temp now_ms ∧ mgr.recurring timer = true
        then now_ms + (mgr.heap timer).m_ms else (mgr.heap timer).m_next := by
  rcases listExpiredCb_emits mgr temp now_ms with ⟨start, heap, _, _, result⟩
  have dates := emitAll_dates start now_ms (mgr.expired temp now_ms) timer
  rw [heap] at dates
  rw [result]
  exact dates

theorem cancel_dates {after : TimerManager} {target : Addr} {answer : Bool}
    (done : mgr.cancel target = some (answer, after)) (timer : Addr) :
    (after.heap timer).m_ms = (mgr.heap timer).m_ms ∧
      (after.heap timer).m_next = (mgr.heap timer).m_next := by
  rcases cancel_cases done with ⟨_, rfl, _⟩ | ⟨it, _, rfl⟩
  · exact ⟨rfl, rfl⟩
  · by_cases same : timer = target
    · simp [TimerManager.record, TimerManager.erase, TimerManager.write, same]
    · simp [TimerManager.record, TimerManager.erase, TimerManager.write, same]

theorem dated_step {before after : Clocked} {op : Op} (dated : Dated before)
    (moved : clocked.step before op = some after) : Dated after := by
  rcases clocked_step moved with ⟨mgr, taken, rfl⟩
  rcases timers_step taken with ⟨_, done⟩
  intro timer
  cases op with
  | addTimer created ms cb recurring now =>
      cases done
      simp only [Clocked.follow, TimerManager.addTimer, addTimerLocked_heap]
      by_cases same : timer = created
      · simp [TimerManager.write, TimerManager.record, same]
      · simpa [TimerManager.write, TimerManager.record, same] using dated timer
  | cancel target =>
      rcases Option.map_eq_some_iff.mp done with ⟨⟨answer, _⟩, cancelled, rfl⟩
      rcases cancel_dates cancelled timer with ⟨delay, date⟩
      exact (date.trans (dated timer)).trans (congrArg _ delay.symm)
  | refresh target now =>
      cases done
      rcases refresh_cases before.mgr target now with result | ⟨it, _, _, result⟩
      · simpa [Clocked.follow, result] using dated timer
      · simp only [Clocked.follow, result, ↓reduceIte]
        by_cases same : timer = target
        · simp [TimerManager.insert, TimerManager.write, same]
        · simpa [TimerManager.insert, TimerManager.write, TimerManager.erase, same]
            using dated timer
  | reset target ms from_now now =>
      cases done
      simp only [Clocked.follow, reset_eq]
      split
      · rename_i unchanged
        have kept : from_now = false := by simpa using (Bool.and_eq_true_iff.mp unchanged).2
        simpa [kept] using dated timer
      · rcases resetLocked_cases before.mgr target ms from_now now with
          result | ⟨it, _, _, result⟩
        · simpa [result] using dated timer
        · have start := dated target
          by_cases same : timer = target
          · subst same
            cases from_now with
            | true => simp [result, addTimerLocked_heap, TimerManager.write, TimerManager.start]
            | false =>
                simp [result, addTimerLocked_heap, TimerManager.write, TimerManager.start, start]
          · cases from_now with
            | true =>
                simpa [result, addTimerLocked_heap, TimerManager.write, TimerManager.erase, same]
                  using dated timer
            | false =>
                simpa [result, addTimerLocked_heap, TimerManager.write, TimerManager.erase, same]
                  using dated timer
  | getNextTimer now =>
      cases done
      simpa [Clocked.follow, getNextTimer_set] using dated timer
  | listExpiredCb temp now =>
      cases done
      rcases listExpiredCb_dates before.mgr temp now timer with ⟨delay, date⟩
      simp only [Clocked.follow]
      rw [date, delay]
      split
      · rfl
      · exact dated timer

end Dates

theorem reach_dated {allowed : Clocked → Op → Prop} {state : Clocked}
    (reached : Reach clocked allowed state) : Dated state := by
  apply reached.invariant Dated
  · rintro start ⟨now, rfl⟩ timer
    rfl
  · intro before op after _ dated _ moved
    exact dated_step dated moved

/-! No callback is pushed before its deadline, as long as no deadline that has
gone through 2^64 is due, and the test of the clock does not go through 0. -/

def Punctual (state : Clocked) : Prop :=
  ∀ firing ∈ state.firings, firing.Punctual

instance Punctual.decidable (state : Clocked) : Decidable (Punctual state) :=
  List.decidableBAll (fun firing : Firing => firing.Punctual) state.firings

/-- Where the stored reading is below an hour, its subtraction wraps around and
any step back of the clock counts as a rollover. -/
def Timely (state : Clocked) : Op → Prop
  | .listExpiredCb _ now =>
      now.toNat + 3600000 < state.mgr.m_previousTime.toNat ∨
        if now.toNat < state.mgr.m_previousTime.toNat ∧
            state.mgr.m_previousTime.toNat < 3600000 then
          ∀ timer ∈ state.mgr.m_timers, state.deadline timer ≤ now.toNat
        else
          ∀ timer ∈ state.mgr.m_timers, state.deadline timer < UInt64.size ∨
            now.toNat < state.deadline timer - UInt64.size
  | .addTimer _ _ _ _ _ | .cancel _ | .refresh _ _ | .reset _ _ _ _ | .getNextTimer _ => True

theorem due_iff {state : Clocked} (dated : Dated state) (timer : Addr) (now : UInt64) :
    (state.mgr.heap timer).m_next ≤ now ↔ state.deadline timer ≤ now.toNat ∨
      UInt64.size ≤ state.deadline timer ∧ state.deadline timer - UInt64.size ≤ now.toNat := by
  have size : UInt64.size = 18446744073709551616 := rfl
  have armed_size := (state.armed timer).toNat_lt_size
  have delay_size := (state.mgr.heap timer).m_ms.toNat_lt_size
  have now_size := now.toNat_lt_size
  rw [dated timer, UInt64.le_iff_toNat_le, UInt64.toNat_add, Clocked.deadline]
  omega

theorem timely_iff {state : Clocked} (dated : Dated state) (held : Held state.mgr [])
    {temp : Addr} (fresh : temp ∉ state.mgr.created) (now : UInt64) :
    Timely state (.listExpiredCb temp now) ↔
      ∀ timer ∈ state.mgr.expired temp now, (state.firing now timer).Punctual := by
  have now_size := now.toNat_lt_size
  have taken : ∀ timer, timer ∈ state.mgr.expired temp now ↔ _ := mem_expired held fresh
  simp only [taken, rollover_iff, due_iff dated, Timely, Firing.Punctual, Clocked.firing]
  by_cases setBack : now.toNat + 3600000 < state.mgr.m_previousTime.toNat
  · simp [setBack]
  · by_cases wrapped : now.toNat < state.mgr.m_previousTime.toNat ∧
        state.mgr.m_previousTime.toNat < 3600000
    · simp [setBack, wrapped]
    · simp only [setBack, wrapped, false_or, or_false, ↓reduceIte]
      constructor
      · rintro unwrapped timer ⟨mem, due | past⟩
        · exact due
        · rcases unwrapped timer mem with small | above
          · omega
          · omega
      · intro punctual timer mem
        by_cases past : UInt64.size ≤ state.deadline timer ∧
            state.deadline timer - UInt64.size ≤ now.toNat
        · have due := punctual timer ⟨mem, Or.inr past⟩
          omega
        · omega

theorem follow_firings (state : Clocked) (after : TimerManager) (op : Op) :
    (∃ temp now, op = .listExpiredCb temp now ∧ (state.follow after op).firings =
      state.firings ++ (state.mgr.expired temp now).map (state.firing now)) ∨
      (state.follow after op).firings = state.firings ∧ Timely state op := by
  cases op with
  | addTimer => exact Or.inr ⟨rfl, trivial⟩
  | cancel => exact Or.inr ⟨rfl, trivial⟩
  | refresh =>
      simp only [Clocked.follow]
      split
      · exact Or.inr ⟨rfl, trivial⟩
      · exact Or.inr ⟨rfl, trivial⟩
  | reset =>
      simp only [Clocked.follow]
      split
      · exact Or.inr ⟨rfl, trivial⟩
      · exact Or.inr ⟨rfl, trivial⟩
  | getNextTimer => exact Or.inr ⟨rfl, trivial⟩
  | listExpiredCb temp now => exact Or.inl ⟨temp, now, rfl, rfl⟩

theorem punctual_step {before after : Clocked} {op : Op} (dated : Dated before)
    (held : Held before.mgr []) (moved : clocked.step before op = some after) :
    Punctual after ↔ Punctual before ∧ Timely before op := by
  rcases clocked_step moved with ⟨mgr, taken, rfl⟩
  rcases timers_step taken with ⟨admitted, _⟩
  rcases follow_firings before mgr op with ⟨temp, now, rfl, firings⟩ | ⟨firings, timely⟩
  · rw [timely_iff dated held (of_decide_eq_true admitted), Punctual, firings]
    constructor
    · intro punctual
      constructor
      · intro firing mem
        exact punctual firing (List.mem_append_left _ mem)
      · intro timer mem
        exact punctual _ (List.mem_append_right _ (List.mem_map_of_mem mem))
    · rintro ⟨earlier, pushed⟩ firing mem
      rcases List.mem_append.mp mem with mem | mem
      · exact earlier firing mem
      · rcases List.mem_map.mp mem with ⟨timer, expired, rfl⟩
        exact pushed timer expired
  · rw [Punctual, firings]
    exact (and_iff_left timely).symm

/-- The runs that push no callback early are exactly the timely ones. -/
theorem timely_iff_punctual (state : Clocked) :
    Reach clocked Timely state ↔ Reach clocked anyStep state ∧ Punctual state := by
  constructor
  · intro reached
    constructor
    · rcases reached with ⟨start, initial, path⟩
      exact ⟨start, initial, path.mono fun _ _ _ => trivial⟩
    · apply reached.invariant Punctual
      · rintro start ⟨now, rfl⟩ firing mem
        cases mem
      · intro before op after prior punctual timely moved
        exact (punctual_step (reach_dated prior) (reach_held (reach_mgr prior)) moved).mpr
          ⟨punctual, timely⟩
  · rintro ⟨⟨start, initial, path⟩, punctual⟩
    induction path with
    | refl => exact .start initial
    | next op prior _ moved ih =>
        have reached : Reach clocked anyStep _ := ⟨start, initial, prior⟩
        rcases (punctual_step (reach_dated reached) (reach_held (reach_mgr reached)) moved).mp
          punctual with ⟨earlier, timely⟩
        exact (ih earlier).extend (.single op timely moved)

theorem longest_delay_at_once :
    ∃ state, run clocked { mgr := .constructed 1000 }
        [.addTimer 8 18446744073709551615 1 false 1000, .listExpiredCb 9 1000] = some state ∧
      Reach clocked anyStep state ∧ ¬ Punctual state :=
  run_meets_where anyStep (fun state => !decide (Punctual state)) ⟨1000, rfl⟩ (by decide)
    (by decide) fun _ reached early => ⟨reached, by simpa using early⟩

/-- Below an hour a step back of one millisecond fires a timer 101 ms early. -/
example : (run clocked { mgr := .constructed 5000 }
    [.addTimer 8 100 1 false 5000, .listExpiredCb 9 4999]).any
      (fun state => state.firings = [⟨8, 5100, 4999, 5000⟩] &&
        !decide (Punctual state)) = true := by
  decide

end Ztyco.Timers
