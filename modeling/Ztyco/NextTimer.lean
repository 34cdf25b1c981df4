import Ztyco.TimerExpiry

/-!
`getNextTimer` beside `listExpiredCb`: one looks at the first timer of the set,
the other searches the whole of it. The distance that the first returns is how
long the second has nothing to push, and `~0ull` is kept for the empty set. As
in the exact expiry, the set need only be sorted.
-/

namespace Ztyco.Timers

open OrderedSet (Sorted)

def distance (now_ms date : UInt64) : UInt64 := if date ≤ now_ms then 0 else date - now_ms

theorem distance_toNat (now_ms date : UInt64) :
    (distance now_ms date).toNat = date.toNat - now_ms.toNat := by
  unfold distance
  split
  · rename_i come
    have low := UInt64.le_iff_toNat_le.mp come
    rw [Nat.sub_eq_zero_of_le low]
    rfl
  · rename_i future
    have high := UInt64.not_le.mp future
    exact UInt64.toNat_sub_of_le _ _ (UInt64.le_of_lt high)

theorem getNextTimer_nil {mgr : TimerManager} (empty : mgr.m_timers = []) (now_ms : UInt64) :
    (mgr.getNextTimer now_ms).1 = ~~~0 := by
  simp [TimerManager.getNextTimer, empty]

theorem getNextTimer_cons {mgr : TimerManager} {first : Addr} {rest : List Addr}
    (pending : mgr.m_timers = first :: rest) (now_ms : UInt64) :
    (mgr.getNextTimer now_ms).1 = distance now_ms (mgr.heap first).m_next := by
  simp only [TimerManager.getNextTimer, pending, distance, ge_iff_le]
  split <;> rfl

/-- A positive reading keeps the distance of every date off `~0ull`. -/
theorem distance_ne_reserved {now_ms : UInt64} (positive : 0 < now_ms) (date : UInt64) :
    distance now_ms date ≠ ~~~0 := by
  intro same
  have size := date.toNat_lt
  have above : 0 < now_ms.toNat := UInt64.lt_iff_toNat_lt.mp positive
  have reserved : (~~~0 : UInt64).toNat = 2 ^ 64 - 1 := rfl
  have length := distance_toNat now_ms date
  rw [same, reserved] at length
  omega

theorem distance_le_iff {now_ms n : UInt64} (later : now_ms ≤ n) (date : UInt64) :
    distance now_ms date ≤ n - now_ms ↔ date ≤ n := by
  rw [UInt64.le_iff_toNat_le, UInt64.le_iff_toNat_le, distance_toNat,
    UInt64.toNat_sub_of_le _ _ later]
  have order := UInt64.le_iff_toNat_le.mp later
  omega

theorem sorted_first {mgr : TimerManager} {first : Addr} {rest : List Addr}
    (sorted : Sorted (timerLess mgr.heap) mgr.m_timers) (pending : mgr.m_timers = first :: rest) :
    ∀ timer ∈ mgr.m_timers, (mgr.heap first).m_next ≤ (mgr.heap timer).m_next := by
  rw [pending] at sorted ⊢
  intro timer mem
  rcases List.mem_cons.mp mem with rfl | mem
  · exact UInt64.le_refl _
  · rcases timerLess_iff.mp ((List.pairwise_cons.mp sorted).1 timer mem) with below | ⟨equal, _⟩
    · exact UInt64.le_of_lt below
    · exact UInt64.le_of_eq equal

theorem rollover_none {mgr : TimerManager} {now_ms : UInt64}
    (later : mgr.m_previousTime ≤ now_ms) : (mgr.detectClockRollover now_ms).1 = false := by
  have not_below : ¬ now_ms < mgr.m_previousTime := UInt64.not_lt.mpr later
  simp [TimerManager.detectClockRollover, not_below]

/-- Where the clock has not been set back, a call pushes something exactly when
the first date has come. -/
theorem pushes_iff {mgr : TimerManager} {temp first : Addr} {rest : List Addr} {n : UInt64}
    (sorted : Sorted (timerLess mgr.heap) mgr.m_timers) (pending : mgr.m_timers = first :: rest)
    (outside : temp ∉ mgr.m_timers) (later : mgr.m_previousTime ≤ n) :
    (mgr.listExpiredCb temp n).1 ≠ [] ↔ (mgr.heap first).m_next ≤ n := by
  have nodup := (due_sublist mgr n).nodup (sorted.nodup (timerLess_order mgr.heap))
  rcases listExpiredCb_takes n sorted outside with ⟨start, _, _, result⟩
  rw [result, emitAll_pushed start n nodup, Ne, List.map_eq_nil_iff]
  constructor
  · intro some_due
    rcases List.exists_mem_of_ne_nil _ some_due with ⟨timer, taken⟩
    rcases mem_due.mp taken with ⟨mem, rollover | come⟩
    · rw [rollover_none later] at rollover
      cases rollover
    · exact UInt64.le_trans (sorted_first sorted pending timer mem) come
  · intro come
    apply List.ne_nil_of_mem
    apply mem_due.mpr
    exact ⟨pending ▸ List.mem_cons_self, Or.inr come⟩

/-- Sleeping for the distance is neither too short nor too long, in the state
before `getNextTimer` and in the one it leaves. -/
theorem next_timer_agrees (mgr : TimerManager) (now_ms : UInt64)
    (sorted : Sorted (timerLess mgr.heap) mgr.m_timers) (positive : 0 < now_ms)
    (ahead : mgr.m_previousTime ≤ now_ms) :
    let d := (mgr.getNextTimer now_ms).1
    let left := (mgr.getNextTimer now_ms).2
    (d = ~~~0 ↔ mgr.m_timers = []) ∧
      (mgr.m_timers ≠ [] → ∀ temp, temp ∉ mgr.m_timers → ∀ n, now_ms ≤ n →
        (d ≤ n - now_ms →
          1 ≤ (mgr.listExpiredCb temp n).1.length ∧ 1 ≤ (left.listExpiredCb temp n).1.length) ∧
        (n - now_ms < d →
          (mgr.listExpiredCb temp n).1 = [] ∧ (left.listExpiredCb temp n).1 = [])) := by
  cases pending : mgr.m_timers with
  | nil => simp [getNextTimer_nil pending]
  | cons first rest =>
      intro d left
      have length : d = distance now_ms (mgr.heap first).m_next := getNextTimer_cons pending now_ms
      have same : left = { mgr with m_tickled := false } := getNextTimer_set mgr now_ms
      rw [length, same]
      refine ⟨?_, fun _ temp outside n later => ?_⟩
      · have kept := distance_ne_reserved positive (mgr.heap first).m_next
        exact ⟨fun reserved => absurd reserved kept, nofun⟩
      · rw [← pending] at outside
        have recent := UInt64.le_trans ahead later
        have before := pushes_iff sorted pending outside recent
        -- the state left has the same set, heap and last reading
        have after :
            (({ mgr with m_tickled := false } : TimerManager).listExpiredCb temp n).1 ≠ [] ↔
              (mgr.heap first).m_next ≤ n := pushes_iff sorted pending outside recent
        rw [← distance_le_iff later] at before after
        constructor
        · intro slept
          exact ⟨List.length_pos_of_ne_nil (before.mpr slept),
            List.length_pos_of_ne_nil (after.mpr slept)⟩
        · intro short
          have not_slept := UInt64.not_le.mpr short
          constructor
          · by_contra pushed
            exact not_slept (before.mp pushed)
          · by_contra pushed
            exact not_slept (after.mp pushed)

theorem next_timer_agrees_pair :
    let mgr : TimerManager :=
      { m_timers := [5, 2]
        m_previousTime := 30
        heap := fun timer =>
          if timer = 5 then { m_next := 70, m_cb := some 1 } else { m_next := 90, m_cb := some 2 } }
    (mgr.getNextTimer 40).1 = 30 ∧ (mgr.listExpiredCb 4 69).1 = [] ∧
      1 ≤ (mgr.listExpiredCb 4 70).1.length :=
  have agrees := next_timer_agrees
    { m_timers := [5, 2]
      m_previousTime := 30
      heap := fun timer =>
        if timer = 5 then { m_next := 70, m_cb := some 1 } else { m_next := 90, m_cb := some 2 } }
    40 (by unfold Sorted; decide) (by decide) (by decide)
  have calls := agrees.2 (by decide) 4 (by decide)
  ⟨by decide, (calls 69 (by decide)).2 (by decide) |>.1, (calls 70 (by decide)).1 (by decide) |>.1⟩

end Ztyco.Timers
