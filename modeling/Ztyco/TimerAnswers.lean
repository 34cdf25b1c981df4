import Ztyco.TimerSet

/-!
What `refresh` and `reset` answer. Both look the timer up under the lock, except
that `reset` answers first where neither the delay nor its start would change.
That answer is true whether or not the timer is still pending.
-/

namespace Ztyco.Timers

open Transition

/-- What a rearming of a timer, which is to leave it with `contents`, has to
answer and do. -/
structure Truthful (mgr : TimerManager) (timer : Addr) (contents : Timer) (answer : Bool)
    (after : TimerManager) : Prop where
  answers : answer = true ↔ timer ∈ mgr.m_timers
  rearmed : answer = true → after.m_timers.count timer = 1 ∧ after.heap timer = contents
  others : answer = true → ∀ other, other ≠ timer →
    after.m_timers.count other = mgr.m_timers.count other ∧ after.heap other = mgr.heap other
  refused : answer = false → after = mgr

def Timer.refreshed (timer : Timer) (now : UInt64) : Timer :=
  { timer with m_next := now + timer.m_ms }

def Timer.resetBy (timer : Timer) (ms : UInt64) (from_now : Bool) (now : UInt64) : Timer :=
  { timer with
    m_ms := ms
    m_next := if from_now then now + ms else timer.m_next - timer.m_ms + ms }

section Rearming
variable {mgr after : TimerManager} {timer : Addr} {contents : Timer}

theorem pending_iff (held : Held mgr []) (known : timer ∈ mgr.created) :
    timer ∈ mgr.m_timers ↔ (mgr.heap timer).m_cb.isSome = true := by
  have armed := held.armed timer known
  simpa using armed

theorem refused_truthful (held : Held mgr []) (known : timer ∈ mgr.created)
    (spent : (mgr.heap timer).m_cb = none) : Truthful mgr timer contents false mgr := by
  have gone : timer ∉ mgr.m_timers := by
    rw [pending_iff held known, spent]
    exact Bool.false_ne_true
  constructor
  · simp [gone]
  · intro impossible
    cases impossible
  · intro impossible
    cases impossible
  · exact fun _ => rfl

theorem kept_truthful (held : Held mgr []) (pending : timer ∈ mgr.m_timers)
    (same : contents = mgr.heap timer) : Truthful mgr timer contents true mgr := by
  have nodup := held.sorted.nodup (timerLess_order mgr.heap)
  constructor
  · simp [pending]
  · exact fun _ => ⟨List.count_eq_one_of_mem nodup pending, same.symm⟩
  · exact fun _ _ _ => ⟨rfl, rfl⟩
  · intro impossible
    cases impossible

/-- Erasing a timer, changing it and inserting it again moves no other one. -/
theorem rearmed_truthful {it : Nat} (held : Held mgr []) (found : mgr.find timer = some it)
    (callback : contents.m_cb.isSome = true) (heap : after.heap = (mgr.write timer contents).heap)
    (set : after.m_timers = (((mgr.erase it).write timer contents).insert timer).m_timers) :
    Truthful mgr timer contents true after := by
  have order := timerLess_order ((mgr.erase it).write timer contents).heap
  have landed : Held (((mgr.erase it).write timer contents).insert timer) [] :=
    held_insert (held_write contents (held_erase held found) callback)
  have nodup : after.m_timers.Nodup := by
    rw [set]
    exact landed.sorted.nodup order
  have nodup_before := held.sorted.nodup (timerLess_order mgr.heap)
  have members : ∀ other, other ∈ after.m_timers ↔
      other = timer ∨ other ≠ timer ∧ other ∈ mgr.m_timers := by
    intro other
    rw [set, ← OrderedSet.mem_erase (timerLess_order mgr.heap) held.sorted found]
    exact OrderedSet.mem_insert order timer other
  constructor
  · simp [find_pending found]
  · intro _
    constructor
    · exact List.count_eq_one_of_mem nodup ((members timer).mpr (Or.inl rfl))
    · rw [heap]
      exact Function.update_self timer contents mgr.heap
  · intro _ other different
    constructor
    · by_cases mem : other ∈ mgr.m_timers
      · rw [List.count_eq_one_of_mem nodup_before mem]
        exact List.count_eq_one_of_mem nodup ((members other).mpr (Or.inr ⟨different, mem⟩))
      · rw [List.count_eq_zero_of_not_mem mem]
        apply List.count_eq_zero_of_not_mem
        rw [members other]
        rintro (same | ⟨_, within⟩)
        · exact different same
        · exact mem within
    · rw [heap]
      exact Function.update_of_ne different contents mgr.heap
  · intro impossible
    cases impossible

theorem refresh_truthful (held : Held mgr []) (known : timer ∈ mgr.created) (now : UInt64) :
    Truthful mgr timer ((mgr.heap timer).refreshed now) (mgr.refresh timer now).1
      (mgr.refresh timer now).2 := by
  cases callback : (mgr.heap timer).m_cb with
  | none =>
      have result : mgr.refresh timer now = (false, mgr) := by
        simp [TimerManager.refresh, callback]
      rw [result]
      exact refused_truthful held known callback
  | some cb =>
      have has : (mgr.heap timer).m_cb.isSome = true := by rw [callback]; rfl
      rcases find_armed held known has with ⟨it, found⟩
      have result : mgr.refresh timer now = (true, ((mgr.erase it).write timer
          ((mgr.heap timer).refreshed now)).insert timer) := by
        simp [TimerManager.refresh, callback, found, TimerManager.erase, Timer.refreshed]
      rw [result]
      exact rearmed_truthful held found has rfl rfl

theorem resetLocked_truthful (held : Held mgr []) (known : timer ∈ mgr.created) (ms : UInt64)
    (from_now : Bool) (now : UInt64) :
    Truthful mgr timer ((mgr.heap timer).resetBy ms from_now now)
      (mgr.resetLocked timer ms from_now now).1 (mgr.resetLocked timer ms from_now now).2.2 := by
  cases callback : (mgr.heap timer).m_cb with
  | none =>
      have result : mgr.resetLocked timer ms from_now now = (false, false, mgr) := by
        simp [TimerManager.resetLocked, callback]
      rw [result]
      exact refused_truthful held known callback
  | some cb =>
      have has : (mgr.heap timer).m_cb.isSome = true := by rw [callback]; rfl
      rcases find_armed held known has with ⟨it, found⟩
      have date : mgr.start timer from_now now + ms =
          ((mgr.heap timer).resetBy ms from_now now).m_next := by
        cases from_now <;> rfl
      have result : mgr.resetLocked timer ms from_now now = (true, ((mgr.erase it).write timer
          ((mgr.heap timer).resetBy ms from_now now)).addTimerLocked timer) := by
        simp [TimerManager.resetLocked, callback, found, date, Timer.resetBy]
      rw [result]
      apply rearmed_truthful held found
      · exact has
      · exact addTimerLocked_heap _ timer
      · simp only [TimerManager.addTimerLocked]
        split
        · rfl
        · rfl

theorem resetBy_same (timer : Timer) (now : UInt64) :
    timer.resetBy timer.m_ms false now = timer := by
  simp only [Timer.resetBy, Bool.false_eq_true, ↓reduceIte, UInt64.sub_add_cancel]

end Rearming

/-- `refresh` is truthful, and `reset` is but for its answer about a timer that
is no longer pending, asked to keep its delay and its start. -/
theorem rearming_truthful {mgr : TimerManager} (reached : Reach timers anyStep mgr) {timer : Addr}
    (known : timer ∈ mgr.created) (ms : UInt64) (from_now : Bool) (now : UInt64) :
    Truthful mgr timer ((mgr.heap timer).refreshed now) (mgr.refresh timer now).1
        (mgr.refresh timer now).2 ∧
      (Truthful mgr timer ((mgr.heap timer).resetBy ms from_now now)
          (mgr.reset timer ms from_now now).1 (mgr.reset timer ms from_now now).2.2 ↔
        ¬ (ms = (mgr.heap timer).m_ms ∧ from_now = false ∧ timer ∉ mgr.m_timers)) := by
  have held := reach_held reached
  refine ⟨refresh_truthful held known now, ?_⟩
  by_cases unchanged : ms = (mgr.heap timer).m_ms ∧ from_now = false
  · rcases unchanged with ⟨rfl, rfl⟩
    have early : mgr.reset timer (mgr.heap timer).m_ms false now = (true, false, mgr) := by
      simp [TimerManager.reset]
    rw [early, resetBy_same]
    constructor
    · rintro truthful ⟨_, _, gone⟩
      exact gone (truthful.answers.mp rfl)
    · intro pending
      apply kept_truthful held _ rfl
      by_contra gone
      exact pending ⟨rfl, rfl, gone⟩
  · have locked : mgr.reset timer ms from_now now = mgr.resetLocked timer ms from_now now := by
      rw [reset_eq, if_neg]
      simpa using unchanged
    rw [locked]
    constructor
    · rintro _ ⟨same, past, _⟩
      exact unchanged ⟨same, past⟩
    · exact fun _ => resetLocked_truthful held known ms from_now now

theorem rearming_truthful_fired :
    ∃ mgr, run timers (.constructed 1000) [.addTimer 8 50 1 false 1000, .listExpiredCb 9 1050] =
        some mgr ∧
      Truthful mgr 8 ((mgr.heap 8).refreshed 1060) (mgr.refresh 8 1060).1 (mgr.refresh 8 1060).2 ∧
      Truthful mgr 8 ((mgr.heap 8).resetBy 60 false 1060) (mgr.reset 8 60 false 1060).1
        (mgr.reset 8 60 false 1060).2.2 := by
  refine run_meets_where anyStep
    (fun mgr => decide (8 ∈ mgr.created) && decide ((mgr.heap 8).m_ms = 50)) ⟨1000, rfl⟩
    (by decide) (by decide) ?_
  intro mgr reached good
  rcases Bool.and_eq_true_iff.mp good with ⟨known, delay⟩
  have truthful := rearming_truthful reached (of_decide_eq_true known) 60 false 1060
  refine ⟨truthful.1, truthful.2.mpr ?_⟩
  rintro ⟨same, _⟩
  rw [of_decide_eq_true delay] at same
  cases same

/-- A one-shot timer of 50 ms that has fired: it is not pending, and
`reset(50, false)` answers true. -/
theorem reset_fired_answers_true :
    ∃ mgr, Reach timers anyStep mgr ∧ 8 ∈ mgr.created ∧
      ¬ Truthful mgr 8 ((mgr.heap 8).resetBy 50 false 1060) (mgr.reset 8 50 false 1060).1
        (mgr.reset 8 50 false 1060).2.2 := by
  rcases reach_where timers anyStep (.constructed 1000)
    [.addTimer 8 50 1 false 1000, .listExpiredCb 9 1050]
    (fun mgr => decide (8 ∈ mgr.created) && decide (8 ∉ mgr.m_timers) &&
      (mgr.reset 8 50 false 1060).1) ⟨1000, rfl⟩ (by decide) (by decide) with ⟨mgr, reached, good⟩
  rcases Bool.and_eq_true_iff.mp good with ⟨good, answer⟩
  rcases Bool.and_eq_true_iff.mp good with ⟨known, gone⟩
  refine ⟨mgr, reached, of_decide_eq_true known, ?_⟩
  intro truthful
  exact of_decide_eq_true gone (truthful.answers.mp answer)

end Ztyco.Timers
