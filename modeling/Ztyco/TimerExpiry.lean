import Ztyco.TimerDeadlines

/-!
What one call of `listExpiredCb` does to every timer. The set need only be
sorted: nothing is asked of the callbacks, of the timers outside the set or of
how the state came about, so the facts hold of states no run has led to. The
temporary timer may have any address at which no timer of the set lives.
-/

namespace Ztyco.Timers

open OrderedSet (Sorted)

/-- The timers a call at this reading has to take, in the order of the set. -/
def TimerManager.due (mgr : TimerManager) (now_ms : UInt64) : List Addr :=
  if (mgr.detectClockRollover now_ms).1 then mgr.m_timers
  else mgr.m_timers.filter fun timer => decide ((mgr.heap timer).m_next ≤ now_ms)

def Timer.spent (timer : Timer) (now_ms : UInt64) : Timer :=
  if timer.m_recurring then { timer with m_next := now_ms + timer.m_ms }
  else { timer with m_cb := none }

theorem mem_due {mgr : TimerManager} {now_ms : UInt64} {timer : Addr} :
    timer ∈ mgr.due now_ms ↔ timer ∈ mgr.m_timers ∧
      ((mgr.detectClockRollover now_ms).1 = true ∨ (mgr.heap timer).m_next ≤ now_ms) := by
  unfold TimerManager.due
  cases (mgr.detectClockRollover now_ms).1 <;> simp

theorem due_sublist (mgr : TimerManager) (now_ms : UInt64) :
    (mgr.due now_ms).Sublist mgr.m_timers := by
  unfold TimerManager.due
  split
  · exact List.Sublist.refl _
  · exact List.filter_sublist

/-! The last loop. -/

section Emit

theorem emit_heap (mgr : TimerManager) (now_ms : UInt64) (shot : Addr) :
    (mgr.emit now_ms shot).heap =
      Function.update mgr.heap shot ((mgr.heap shot).spent now_ms) := by
  cases kind : (mgr.heap shot).m_recurring <;>
    simp [TimerManager.emit, TimerManager.record, TimerManager.write, TimerManager.insert,
      Timer.spent, kind]

theorem mem_emit (mgr : TimerManager) (now_ms : UInt64) (shot timer : Addr) :
    timer ∈ (mgr.emit now_ms shot).m_timers ↔
      timer ∈ mgr.m_timers ∨ timer = shot ∧ (mgr.heap shot).m_recurring = true := by
  simp only [TimerManager.emit]
  split
  · rename_i recurring
    have recurs : (mgr.heap shot).m_recurring = true := recurring
    rw [Or.comm, recurs, and_iff_left rfl]
    exact OrderedSet.mem_insert (timerLess_order _) shot timer
  · rename_i oneShot
    have once : ¬ (mgr.heap shot).m_recurring = true := oneShot
    rw [or_iff_left fun both => once both.2]
    rfl

theorem emit_sorted {mgr : TimerManager} (now_ms : UInt64) {shot : Addr}
    (sorted : Sorted (timerLess mgr.heap) mgr.m_timers) (outside : shot ∉ mgr.m_timers) :
    Sorted (timerLess (mgr.emit now_ms shot).heap) (mgr.emit now_ms shot).m_timers := by
  have kept := fun contents => sorted_write contents sorted outside
  simp only [TimerManager.emit]
  split
  · exact Sorted.insert (timerLess_order _) (kept _) shot
  · exact kept _

theorem emitAll_heap (mgr : TimerManager) (now_ms : UInt64) {flight : List Addr}
    (nodup : flight.Nodup) (timer : Addr) :
    (mgr.emitAll now_ms flight).2.heap timer =
      if timer ∈ flight then (mgr.heap timer).spent now_ms else mgr.heap timer := by
  induction flight generalizing mgr with
  | nil => rfl
  | cons shot rest ih =>
      rcases List.nodup_cons.mp nodup with ⟨fresh, later⟩
      have after := ih (mgr.emit now_ms shot) later
      rw [emit_heap] at after
      apply after.trans
      by_cases same : timer = shot
      · subst same
        simp [fresh]
      · simp [same]

theorem emitAll_pushed (mgr : TimerManager) (now_ms : UInt64) {flight : List Addr}
    (nodup : flight.Nodup) :
    (mgr.emitAll now_ms flight).1 = flight.map fun timer => (mgr.heap timer).m_cb := by
  induction flight generalizing mgr with
  | nil => rfl
  | cons shot rest ih =>
      rcases List.nodup_cons.mp nodup with ⟨fresh, later⟩
      have after := ih (mgr.emit now_ms shot) later
      simp only [TimerManager.emitAll, after, List.map_cons, List.cons.injEq, true_and]
      apply List.map_congr_left
      intro timer mem
      have other : timer ≠ shot := fun same => fresh (same ▸ mem)
      rw [emit_heap, Function.update_of_ne other]

theorem mem_emitAll (mgr : TimerManager) (now_ms : UInt64) {flight : List Addr}
    (nodup : flight.Nodup) (timer : Addr) :
    timer ∈ (mgr.emitAll now_ms flight).2.m_timers ↔
      timer ∈ mgr.m_timers ∨ timer ∈ flight ∧ (mgr.heap timer).m_recurring = true := by
  induction flight generalizing mgr with
  | nil => simp [TimerManager.emitAll]
  | cons shot rest ih =>
      rcases List.nodup_cons.mp nodup with ⟨fresh, later⟩
      have after := ih (mgr.emit now_ms shot) later
      rw [mem_emit, emit_heap] at after
      apply after.trans
      rw [List.mem_cons]
      by_cases same : timer = shot
      · subst same
        simp [fresh]
      · simp [same]

theorem emitAll_sorted {mgr : TimerManager} (now_ms : UInt64) {flight : List Addr}
    (nodup : flight.Nodup) (sorted : Sorted (timerLess mgr.heap) mgr.m_timers)
    (apart : ∀ timer ∈ flight, timer ∉ mgr.m_timers) :
    let after := (mgr.emitAll now_ms flight).2
    Sorted (timerLess after.heap) after.m_timers := by
  induction flight generalizing mgr with
  | nil => exact sorted
  | cons shot rest ih =>
      rcases List.nodup_cons.mp nodup with ⟨fresh, later⟩
      apply ih later
      · exact emit_sorted now_ms sorted (apart shot List.mem_cons_self)
      · intro timer mem pending
        rcases (mem_emit mgr now_ms shot timer).mp pending with old | ⟨same, _⟩
        · exact apart timer (List.mem_cons_of_mem shot mem) old
        · exact fresh (same ▸ mem)

end Emit

section Call
variable {mgr : TimerManager} {temp : Addr}

/-- A call takes the timers that are due off the front of the set. -/
theorem expired_eq_due (now_ms : UInt64) (sorted : Sorted (timerLess mgr.heap) mgr.m_timers)
    (outside : temp ∉ mgr.m_timers) : mgr.expired temp now_ms = mgr.due now_ms := by
  have nodup := sorted.nodup (timerLess_order mgr.heap)
  have taken : ∀ timer, timer ∈ mgr.expired temp now_ms ↔ timer ∈ mgr.due now_ms := by
    intro timer
    rw [mem_expired_sorted sorted outside, mem_due]
  rcases listExpiredCb_emits mgr temp now_ms with ⟨start, _, _, cut, _⟩
  have prefixed : (mgr.expired temp now_ms).Sublist mgr.m_timers := by
    rw [cut]
    exact List.sublist_append_left _ _
  -- two sublists of one list without repetitions that hold the same elements
  have same := (List.perm_ext_iff_of_nodup (prefixed.nodup nodup)
    ((due_sublist mgr now_ms).nodup nodup)).mpr taken
  apply same.eq_of_pairwise _ (sorted.sublist prefixed) (sorted.sublist (due_sublist mgr now_ms))
  intro a b _ _ below above
  have loop := (timerLess_order mgr.heap).trans a b a below above
  rw [(timerLess_order mgr.heap).irrefl] at loop
  cases loop

theorem listExpiredCb_takes (now_ms : UInt64) (sorted : Sorted (timerLess mgr.heap) mgr.m_timers)
    (outside : temp ∉ mgr.m_timers) :
    ∃ start : TimerManager, start.heap = mgr.heap ∧
      mgr.m_timers = mgr.due now_ms ++ start.m_timers ∧
      mgr.listExpiredCb temp now_ms = start.emitAll now_ms (mgr.due now_ms) := by
  rcases listExpiredCb_emits mgr temp now_ms with ⟨start, heap, _, cut, result⟩
  rw [expired_eq_due now_ms sorted outside] at cut result
  exact ⟨start, heap, cut, result⟩

end Call

/-- What the callbacks pushed and the state after a call have to be. -/
structure ExactExpiry (mgr : TimerManager) (now_ms : UInt64) (cbs : List (Option Fibers.Func))
    (after : TimerManager) : Prop where
  ordered : Sorted (timerLess mgr.heap) (mgr.due now_ms)
  pushed : cbs = (mgr.due now_ms).map fun timer => (mgr.heap timer).m_cb
  recurring : ∀ timer ∈ mgr.due now_ms, (mgr.heap timer).m_recurring = true →
    after.m_timers.count timer = 1 ∧
      after.heap timer = { mgr.heap timer with m_next := now_ms + (mgr.heap timer).m_ms }
  oneShot : ∀ timer ∈ mgr.due now_ms, (mgr.heap timer).m_recurring = false →
    timer ∉ after.m_timers ∧ after.heap timer = { mgr.heap timer with m_cb := none }
  pending : ∀ timer ∈ mgr.m_timers, timer ∉ mgr.due now_ms →
    after.m_timers.count timer = 1 ∧ after.heap timer = mgr.heap timer
  outside : ∀ timer, timer ∉ mgr.m_timers →
    timer ∉ after.m_timers ∧ after.heap timer = mgr.heap timer
  sorted : Sorted (timerLess after.heap) after.m_timers

theorem expiry_exact (mgr : TimerManager) (temp : Addr) (now_ms : UInt64)
    (sorted : Sorted (timerLess mgr.heap) mgr.m_timers) (outside : temp ∉ mgr.m_timers) :
    ExactExpiry mgr now_ms (mgr.listExpiredCb temp now_ms).1
      (mgr.listExpiredCb temp now_ms).2 := by
  have due_nodup := (due_sublist mgr now_ms).nodup (sorted.nodup (timerLess_order mgr.heap))
  rcases listExpiredCb_takes now_ms sorted outside with ⟨start, heap, cut, result⟩
  have start_sorted : Sorted (timerLess start.heap) start.m_timers := by
    rw [heap]
    apply List.Pairwise.sublist _ sorted
    rw [cut]
    exact List.sublist_append_right _ _
  have apart : ∀ timer ∈ mgr.due now_ms, timer ∉ start.m_timers := by
    have nodup := sorted.nodup (timerLess_order mgr.heap)
    rw [cut] at nodup
    intro timer taken left
    exact (List.nodup_append.mp nodup).2.2 timer taken timer left rfl
  have sorted_after := emitAll_sorted now_ms due_nodup start_sorted apart
  have mem_after := mem_emitAll start now_ms due_nodup
  have heap_after := emitAll_heap start now_ms due_nodup
  have cbs := emitAll_pushed start now_ms due_nodup
  rw [← result, heap] at cbs
  rw [← result] at sorted_after mem_after heap_after
  simp only [heap] at mem_after heap_after
  have nodup_after := sorted_after.nodup (timerLess_order _)
  constructor
  · exact List.Pairwise.sublist (due_sublist mgr now_ms) sorted
  · exact cbs
  · intro timer taken recurs
    constructor
    · apply List.count_eq_one_of_mem nodup_after
      exact (mem_after timer).mpr (Or.inr ⟨taken, recurs⟩)
    · rw [heap_after, if_pos taken, Timer.spent, if_pos recurs]
  · intro timer taken once
    constructor
    · rw [mem_after, once]
      rintro (left | ⟨_, impossible⟩)
      · exact apart timer taken left
      · cases impossible
    · rw [heap_after, if_pos taken, Timer.spent, if_neg (Bool.eq_false_iff.mp once)]
  · intro timer mem untaken
    constructor
    · rw [cut] at mem
      have left := (List.mem_append.mp mem).resolve_left untaken
      apply List.count_eq_one_of_mem nodup_after
      exact (mem_after timer).mpr (Or.inl left)
    · rw [heap_after, if_neg untaken]
  · intro timer absent
    have untaken : timer ∉ mgr.due now_ms :=
      fun taken => absent ((due_sublist mgr now_ms).mem taken)
    constructor
    · rw [mem_after]
      rintro (left | ⟨taken, _⟩)
      · apply absent
        rw [cut]
        exact List.mem_append_right _ left
      · exact untaken taken
    · rw [heap_after, if_neg untaken]
  · exact sorted_after

/-- Four timers, two of them with the reading as their date and the temporary
timer's address between theirs; the first recurs without a delay. -/
theorem expiry_exact_tie :
    let mgr : TimerManager :=
      { m_timers := [7, 2, 5, 1]
        m_previousTime := 30
        heap := fun timer =>
          if timer = 7 then { m_recurring := true, m_next := 20, m_cb := some 1 }
          else if timer = 2 then { m_recurring := true, m_ms := 9, m_next := 40, m_cb := some 2 }
          else if timer = 5 then { m_next := 40, m_cb := some 3 }
          else { m_next := 60, m_cb := some 4 } }
    (mgr.listExpiredCb 4 40).1 = [some 1, some 2, some 3] ∧
      ExactExpiry mgr 40 (mgr.listExpiredCb 4 40).1 (mgr.listExpiredCb 4 40).2 :=
  ⟨by decide, expiry_exact _ 4 40 (by unfold Sorted; decide) (by decide)⟩

end Ztyco.Timers
