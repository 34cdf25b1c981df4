import Ztyco.Timers

/-!
The set of pending timers. Between its erasure and its next insertion a timer
is in flight; with the timers in flight named, one invariant holds before and
after every step of every operation. A timer's key is changed only in flight,
and a timer is pending or in flight exactly as long as it has a callback.
-/

namespace Ztyco.Timers

open Fibers (Func)
open OrderedSet (Sorted)
open Transition

/-! What an operation can do. -/

/-- The reading a timer's new delay is counted from: the one it was armed at,
where `from_now` is not given. -/
def TimerManager.start (mgr : TimerManager) (timer : Addr) (from_now : Bool) (now : UInt64) :
    UInt64 :=
  if from_now then now else (mgr.heap timer).m_next - (mgr.heap timer).m_ms

def TimerManager.resetLocked (mgr : TimerManager) (timer : Addr) (ms : UInt64) (from_now : Bool)
    (now : UInt64) : Bool × Bool × TimerManager :=
  if (mgr.heap timer).m_cb.isNone then (false, false, mgr) else
  match mgr.find timer with
  | none => (false, false, mgr)
  | some it =>
      let contents :=
        { mgr.heap timer with m_ms := ms, m_next := mgr.start timer from_now now + ms }
      (true, ((mgr.erase it).write timer contents).addTimerLocked timer)

theorem reset_eq (mgr : TimerManager) (timer : Addr) (ms : UInt64) (from_now : Bool)
    (now : UInt64) :
    mgr.reset timer ms from_now now =
      if ms == (mgr.heap timer).m_ms && !from_now then (true, false, mgr)
      else mgr.resetLocked timer ms from_now now := rfl

section Outcomes
variable {mgr : TimerManager}

theorem addTimerLocked_heap (mgr : TimerManager) (val : Addr) :
    (mgr.addTimerLocked val).2.heap = mgr.heap := by
  simp only [TimerManager.addTimerLocked]
  split
  · rfl
  · rfl

theorem addTimerLocked_created (mgr : TimerManager) (val : Addr) :
    (mgr.addTimerLocked val).2.created = mgr.created := by
  simp only [TimerManager.addTimerLocked]
  split
  · rfl
  · rfl

theorem addTimer_heap (mgr : TimerManager) (timer : Addr) (ms : UInt64) (cb : Option Func)
    (recurring : Bool) (now : UInt64) :
    (mgr.addTimer timer ms cb recurring now).2.heap timer =
      { m_recurring := recurring, m_ms := ms, m_next := now + ms, m_cb := cb } := by
  simp [TimerManager.addTimer, addTimerLocked_heap, TimerManager.record, TimerManager.write]

theorem mem_addTimer (mgr : TimerManager) (timer : Addr) (ms : UInt64) (cb : Option Func)
    (recurring : Bool) (now : UInt64) :
    timer ∈ (mgr.addTimer timer ms cb recurring now).2.m_timers := by
  have mem : ∀ before : TimerManager, timer ∈ (before.addTimerLocked timer).2.m_timers := by
    intro before
    have inserted : timer ∈ (before.insert timer).m_timers :=
      (OrderedSet.mem_insert (timerLess_order before.heap) timer timer).mpr (Or.inl rfl)
    simp only [TimerManager.addTimerLocked]
    split
    · exact inserted
    · exact inserted
  exact mem _

theorem cancel_cases {after : TimerManager} {timer : Addr} {answer : Bool}
    (done : mgr.cancel timer = some (answer, after)) :
    (answer = false ∧ after = mgr ∧ (mgr.heap timer).m_cb = none) ∨
      ∃ it, answer = true ∧ after = ((mgr.write timer
        { mgr.heap timer with m_cb := none }).erase it).record (.cancelled timer) := by
  unfold TimerManager.cancel at done
  split at done
  · dsimp only at done
    split at done
    · rename_i it _
      cases done
      exact Or.inr ⟨it, rfl, rfl⟩
    · cases done
  · rename_i spent
    cases done
    exact Or.inl ⟨rfl, rfl, by simpa using spent⟩

theorem refresh_cases (mgr : TimerManager) (timer : Addr) (now : UInt64) :
    mgr.refresh timer now = (false, mgr) ∨
      ∃ it, mgr.find timer = some it ∧ (mgr.heap timer).m_cb.isSome = true ∧
        mgr.refresh timer now = (true, ((mgr.erase it).write timer
          { mgr.heap timer with m_next := now + (mgr.heap timer).m_ms }).insert timer) := by
  unfold TimerManager.refresh
  split
  · exact Or.inl rfl
  · rename_i callback
    split
    · exact Or.inl rfl
    · rename_i it found
      exact Or.inr ⟨it, found, by simpa [Option.isSome_iff_ne_none] using callback, rfl⟩

theorem resetLocked_cases (mgr : TimerManager) (timer : Addr) (ms : UInt64) (from_now : Bool)
    (now : UInt64) :
    mgr.resetLocked timer ms from_now now = (false, false, mgr) ∨
      ∃ it, mgr.find timer = some it ∧ (mgr.heap timer).m_cb.isSome = true ∧
        mgr.resetLocked timer ms from_now now = (true, ((mgr.erase it).write timer
          { mgr.heap timer with
            m_ms := ms
            m_next := mgr.start timer from_now now + ms }).addTimerLocked timer) := by
  unfold TimerManager.resetLocked
  split
  · exact Or.inl rfl
  · rename_i callback
    split
    · exact Or.inl rfl
    · rename_i it found
      exact Or.inr ⟨it, found, by simpa [Option.isSome_iff_ne_none] using callback, rfl⟩

theorem reset_cases (mgr : TimerManager) (timer : Addr) (ms : UInt64) (from_now : Bool)
    (now : UInt64) :
    (mgr.reset timer ms from_now now).2 = (false, mgr) ∨
      ∃ it, mgr.find timer = some it ∧ (mgr.heap timer).m_cb.isSome = true ∧
        (mgr.reset timer ms from_now now).2 = ((mgr.erase it).write timer
          { mgr.heap timer with
            m_ms := ms
            m_next := mgr.start timer from_now now + ms }).addTimerLocked timer := by
  rw [reset_eq]
  split
  · exact Or.inl rfl
  · rcases resetLocked_cases mgr timer ms from_now now with result | ⟨it, found, callback, result⟩
    · exact Or.inl (congrArg (·.2) result)
    · exact Or.inr ⟨it, found, callback, congrArg (·.2) result⟩

theorem getNextTimer_set (mgr : TimerManager) (now_ms : UInt64) :
    (mgr.getNextTimer now_ms).2 = { mgr with m_tickled := false } := by
  simp only [TimerManager.getNextTimer]
  split
  · rfl
  · split
    · rfl
    · rfl

end Outcomes

/-! The invariant. -/

structure Held (mgr : TimerManager) (flight : List Addr) : Prop where
  sorted : Sorted (timerLess mgr.heap) mgr.m_timers
  apart : ∀ timer ∈ flight, timer ∉ mgr.m_timers
  nodup : flight.Nodup
  known : ∀ timer, timer ∈ mgr.m_timers ∨ timer ∈ flight → timer ∈ mgr.created
  armed : ∀ timer ∈ mgr.created,
    (timer ∈ mgr.m_timers ∨ timer ∈ flight) ↔ (mgr.heap timer).m_cb.isSome = true

theorem Held.frame {mgr other : TimerManager} {flight : List Addr} (held : Held mgr flight)
    (set : other.m_timers = mgr.m_timers) (heap : other.heap = mgr.heap)
    (created : other.created = mgr.created) : Held other flight := by
  constructor
  · rw [set, heap]
    exact held.sorted
  · rw [set]
    exact held.apart
  · exact held.nodup
  · rw [set, created]
    exact held.known
  · rw [set, heap, created]
    exact held.armed

theorem Held.constructed (now : UInt64) : Held (.constructed now) [] := by
  constructor
  · exact List.Pairwise.nil
  · intro timer mem
    cases mem
  · exact List.nodup_nil
  · rintro timer (mem | mem) <;> cases mem
  · intro timer mem
    cases mem

/-- The order of the set does not depend on a timer outside it. -/
theorem sorted_write {mgr : TimerManager} {timer : Addr} (contents : Timer)
    (sorted : Sorted (timerLess mgr.heap) mgr.m_timers) (outside : timer ∉ mgr.m_timers) :
    Sorted (timerLess (mgr.write timer contents).heap) mgr.m_timers := by
  apply sorted.congr
  intro a mem_a b mem_b
  have other_a : a ≠ timer := fun same => outside (same ▸ mem_a)
  have other_b : b ≠ timer := fun same => outside (same ▸ mem_b)
  simp [TimerManager.write, timerLess, Comparator, other_a, other_b]

section Steps
variable {mgr : TimerManager} {timer : Addr} {flight : List Addr}

theorem find_pending {it : Nat} (found : mgr.find timer = some it) : timer ∈ mgr.m_timers :=
  List.mem_of_getElem? (OrderedSet.find_getElem (timerLess_order mgr.heap) found)

/-- Erasing a timer puts it in flight. -/
theorem held_erase {it : Nat} (held : Held mgr flight) (found : mgr.find timer = some it) :
    Held (mgr.erase it) (timer :: flight) := by
  have order := timerLess_order mgr.heap
  have mem := find_pending found
  have rest := OrderedSet.mem_erase order held.sorted found
  constructor
  · exact held.sorted.erase it
  · intro other within
    change other ∉ mgr.m_timers.eraseIdx it
    rw [rest]
    rintro ⟨different, still⟩
    rcases List.mem_cons.mp within with same | flying
    · exact different same
    · exact held.apart other flying still
  · apply List.nodup_cons.mpr
    constructor
    · intro flying
      exact held.apart timer flying mem
    · exact held.nodup
  · rintro other (within | within)
    · exact held.known other (Or.inl ((rest other).mp within).2)
    · rcases List.mem_cons.mp within with rfl | flying
      · exact held.known other (Or.inl mem)
      · exact held.known other (Or.inr flying)
  · intro other known
    change other ∈ mgr.m_timers.eraseIdx it ∨ other ∈ timer :: flight ↔ _
    rw [rest, List.mem_cons]
    change _ ↔ (mgr.heap other).m_cb.isSome = true
    rw [← held.armed other known]
    by_cases same : other = timer
    · subst same
      simp [mem]
    · simp [same]

/-- A timer in flight may change, its key too, as long as it keeps a callback. -/
theorem held_write (contents : Timer) (held : Held mgr (timer :: flight))
    (callback : contents.m_cb.isSome = true) :
    Held (mgr.write timer contents) (timer :: flight) := by
  have outside := held.apart timer List.mem_cons_self
  constructor
  · exact sorted_write contents held.sorted outside
  · exact held.apart
  · exact held.nodup
  · exact held.known
  · intro other known
    change other ∈ mgr.m_timers ∨ other ∈ timer :: flight ↔ _
    by_cases same : other = timer
    · subst same
      simp [TimerManager.write, callback]
    · simpa [TimerManager.write, same] using held.armed other known

/-- Inserting a timer ends its flight. -/
theorem held_insert (held : Held mgr (timer :: flight)) : Held (mgr.insert timer) flight := by
  have order := timerLess_order mgr.heap
  have all : ∀ other, (other ∈ (mgr.insert timer).m_timers ∨ other ∈ flight) ↔
      (other ∈ mgr.m_timers ∨ other ∈ timer :: flight) := by
    intro other
    change other ∈ OrderedSet.insert (timerLess mgr.heap) timer mgr.m_timers ∨ _ ↔ _
    rw [OrderedSet.mem_insert order, List.mem_cons]
    tauto
  constructor
  · exact held.sorted.insert order timer
  · intro other flying within
    rcases (OrderedSet.mem_insert order timer other).mp within with rfl | within
    · exact (List.nodup_cons.mp held.nodup).1 flying
    · exact held.apart other (List.mem_cons_of_mem timer flying) within
  · exact (List.nodup_cons.mp held.nodup).2
  · intro other within
    exact held.known other ((all other).mp within)
  · intro other known
    rw [all]
    exact held.armed other known

theorem held_retire (contents : Timer) (held : Held mgr (timer :: flight))
    (callback : contents.m_cb = none) : Held (mgr.write timer contents) flight := by
  have outside := held.apart timer List.mem_cons_self
  rcases List.nodup_cons.mp held.nodup with ⟨landed, nodup⟩
  constructor
  · exact sorted_write contents held.sorted outside
  · intro other flying
    exact held.apart other (List.mem_cons_of_mem timer flying)
  · exact nodup
  · rintro other (within | flying)
    · exact held.known other (Or.inl within)
    · exact held.known other (Or.inr (List.mem_cons_of_mem timer flying))
  · intro other known
    change other ∈ mgr.m_timers ∨ other ∈ flight ↔ _
    by_cases same : other = timer
    · subst same
      simp [TimerManager.write, callback, outside, landed]
    · simpa [TimerManager.write, same] using held.armed other known

theorem held_create (contents : Timer) (held : Held mgr flight) (fresh : timer ∉ mgr.created)
    (callback : contents.m_cb.isSome = true) :
    Held { mgr.write timer contents with created := mgr.created ++ [timer] } (timer :: flight) := by
  have outside : timer ∉ mgr.m_timers := fun within => fresh (held.known timer (Or.inl within))
  constructor
  · exact sorted_write contents held.sorted outside
  · intro other within
    rcases List.mem_cons.mp within with rfl | flying
    · exact outside
    · exact held.apart other flying
  · apply List.nodup_cons.mpr
    constructor
    · intro flying
      exact fresh (held.known timer (Or.inr flying))
    · exact held.nodup
  · intro other within
    change other ∈ mgr.created ++ [timer]
    change other ∈ mgr.m_timers ∨ other ∈ timer :: flight at within
    rw [List.mem_cons] at within
    rw [List.mem_append, List.mem_singleton]
    rcases within with within | same | flying
    · exact Or.inl (held.known other (Or.inl within))
    · exact Or.inr same
    · exact Or.inl (held.known other (Or.inr flying))
  · intro other known
    change other ∈ mgr.m_timers ∨ other ∈ timer :: flight ↔ _
    by_cases same : other = timer
    · subst same
      simp [TimerManager.write, callback]
    · have old : other ∈ mgr.created := by simpa [same] using known
      simpa [TimerManager.write, same] using held.armed other old

end Steps

/-! The operations keep the invariant, with nothing in flight between them. -/

section Operations
variable {mgr : TimerManager} {timer : Addr}

theorem held_addTimerLocked {flight : List Addr} (held : Held mgr (timer :: flight)) :
    Held (mgr.addTimerLocked timer).2 flight := by
  have inserted := held_insert held
  simp only [TimerManager.addTimerLocked]
  split
  · exact inserted.frame rfl rfl rfl
  · exact inserted

theorem held_addTimer (held : Held mgr []) (fresh : timer ∉ mgr.created) (ms : UInt64)
    (cb : Fibers.Func) (recurring : Bool) (now : UInt64) :
    Held (mgr.addTimer timer ms (some cb) recurring now).2 [] := by
  have created := held_create
    { m_recurring := recurring, m_ms := ms, m_next := now + ms, m_cb := some cb } held fresh rfl
  apply held_addTimerLocked
  exact created.frame rfl rfl rfl

theorem find_armed (held : Held mgr []) (known : timer ∈ mgr.created)
    (callback : (mgr.heap timer).m_cb.isSome = true) : ∃ it, mgr.find timer = some it := by
  apply OrderedSet.find_of_mem (timerLess_order mgr.heap) held.sorted
  rcases (held.armed timer known).mpr callback with within | flying
  · exact within
  · cases flying

theorem find_write_cb (mgr : TimerManager) (timer : Addr) (cb : Option Fibers.Func) :
    (mgr.write timer { mgr.heap timer with m_cb := cb }).find timer = mgr.find timer := by
  have unmoved : timerLess (mgr.write timer { mgr.heap timer with m_cb := cb }).heap =
      timerLess mgr.heap := by
    funext a b
    by_cases same_a : a = timer <;> by_cases same_b : b = timer <;>
      simp [timerLess, Comparator, TimerManager.write, same_a, same_b]
  simp only [TimerManager.find, unmoved]
  rfl

theorem cancel_armed (held : Held mgr []) (known : timer ∈ mgr.created)
    (callback : (mgr.heap timer).m_cb.isSome = true) :
    ∃ it, mgr.find timer = some it ∧ mgr.cancel timer =
      some (true, ((mgr.write timer { mgr.heap timer with m_cb := none }).erase it).record
        (.cancelled timer)) := by
  rcases find_armed held known callback with ⟨it, found⟩
  refine ⟨it, found, ?_⟩
  simp only [TimerManager.cancel, callback, ↓reduceIte, find_write_cb, found]

theorem cancel_spent (spent : (mgr.heap timer).m_cb.isSome = false) :
    mgr.cancel timer = some (false, mgr) := by
  simp [TimerManager.cancel, spent]

theorem held_cancel (held : Held mgr []) (known : timer ∈ mgr.created) {answer : Bool}
    {after : TimerManager} (done : mgr.cancel timer = some (answer, after)) : Held after [] := by
  cases callback : (mgr.heap timer).m_cb.isSome with
  | false =>
      rw [cancel_spent callback] at done
      cases done
      exact held
  | true =>
      rcases cancel_armed held known callback with ⟨it, found, result⟩
      rw [result] at done
      cases done
      -- the write comes first in the source; it does not touch the order of the set
      have erased := held_retire { mgr.heap timer with m_cb := none } (held_erase held found) rfl
      exact erased.frame rfl rfl rfl

/-- `cancel` never erases `end()`. -/
theorem cancel_total (held : Held mgr []) (known : timer ∈ mgr.created) :
    ∃ answer after, mgr.cancel timer = some (answer, after) := by
  cases callback : (mgr.heap timer).m_cb.isSome with
  | false => exact ⟨false, mgr, cancel_spent callback⟩
  | true =>
      rcases cancel_armed held known callback with ⟨it, _, result⟩
      exact ⟨true, _, result⟩

theorem held_refresh (held : Held mgr []) (now : UInt64) : Held (mgr.refresh timer now).2 [] := by
  rcases refresh_cases mgr timer now with result | ⟨it, found, callback, result⟩
  · rw [result]
    exact held
  · rw [result]
    apply held_insert
    exact held_write _ (held_erase held found) callback

theorem held_reset (held : Held mgr []) (ms : UInt64) (from_now : Bool) (now : UInt64) :
    Held (mgr.reset timer ms from_now now).2.2 [] := by
  rcases reset_cases mgr timer ms from_now now with result | ⟨it, found, callback, result⟩
  · rw [result]
    exact held
  · rw [result]
    apply held_addTimerLocked
    exact held_write _ (held_erase held found) callback

theorem held_getNextTimer (held : Held mgr []) (now : UInt64) :
    Held (mgr.getNextTimer now).2 [] := by
  rw [getNextTimer_set]
  exact held.frame rfl rfl rfl

theorem held_emit {flight : List Addr} (held : Held mgr (timer :: flight)) (now_ms : UInt64) :
    Held (mgr.emit now_ms timer) flight := by
  have callback : (mgr.heap timer).m_cb.isSome = true :=
    (held.armed timer (held.known timer (Or.inr List.mem_cons_self))).mp
      (Or.inr List.mem_cons_self)
  have recorded : Held (mgr.record (.emitted timer (mgr.heap timer).m_cb)) (timer :: flight) :=
    held.frame rfl rfl rfl
  simp only [TimerManager.emit]
  split
  · apply held_insert
    exact held_write _ recorded callback
  · exact held_retire _ recorded rfl

theorem held_emitAll {flight : List Addr} (held : Held mgr flight) (now_ms : UInt64) :
    Held (mgr.emitAll now_ms flight).2 [] := by
  induction flight generalizing mgr with
  | nil => exact held
  | cons timer rest ih => exact ih (held_emit held now_ms)

theorem held_take (held : Held mgr []) (it : Nat) :
    Held { mgr with m_timers := mgr.m_timers.drop it } (mgr.m_timers.take it) := by
  have order := timerLess_order mgr.heap
  have whole := List.take_append_drop it mgr.m_timers
  have nodup : (mgr.m_timers.take it ++ mgr.m_timers.drop it).Nodup := by
    rw [whole]
    exact held.sorted.nodup order
  have all : ∀ other, (other ∈ mgr.m_timers.drop it ∨ other ∈ mgr.m_timers.take it) ↔
      other ∈ mgr.m_timers := by
    intro other
    rw [Or.comm, ← List.mem_append, whole]
  constructor
  · exact List.Pairwise.sublist (List.drop_sublist it mgr.m_timers) held.sorted
  · intro other taken left
    exact (List.nodup_append.mp nodup).2.2 other taken other left rfl
  · exact (List.nodup_append.mp nodup).1
  · intro other within
    exact held.known other (Or.inl ((all other).mp within))
  · intro other known
    rw [all]
    simpa using held.armed other known

theorem held_listExpiredCb (held : Held mgr []) (temp : Addr) (now_ms : UInt64) :
    Held (mgr.listExpiredCb temp now_ms).2 [] := by
  unfold TimerManager.listExpiredCb
  split
  · exact held
  · have read : Held (mgr.detectClockRollover now_ms).2 [] := held.frame rfl rfl rfl
    dsimp only
    split
    · exact read
    · apply held_emitAll
      exact held_take read _

end Operations

theorem timers_step {mgr after : TimerManager} {op : Op} (moved : timers.step mgr op = some after) :
    mgr.admits op = true ∧ mgr.perform op = some after := by
  simp only [timers] at moved
  split at moved
  · rename_i admitted
    exact ⟨admitted, moved⟩
  · cases moved

theorem reach_held {allowed : TimerManager → Op → Prop} {mgr : TimerManager}
    (reached : Reach timers allowed mgr) : Held mgr [] := by
  apply reached.invariant (Held · [])
  · rintro state ⟨now, rfl⟩
    exact .constructed now
  · intro before op after _ held _ moved
    rcases timers_step moved with ⟨admitted, done⟩
    cases op with
    | addTimer timer ms cb recurring now =>
        cases done
        exact held_addTimer held (of_decide_eq_true admitted) ms cb recurring now
    | cancel timer =>
        rcases Option.map_eq_some_iff.mp done with ⟨⟨answer, _⟩, cancelled, rfl⟩
        exact held_cancel held (of_decide_eq_true admitted) cancelled
    | refresh timer now =>
        cases done
        exact held_refresh held now
    | reset timer ms from_now now =>
        cases done
        exact held_reset held ms from_now now
    | getNextTimer now =>
        cases done
        exact held_getNextTimer held now
    | listExpiredCb temp now =>
        cases done
        exact held_listExpiredCb held temp now

/-- The set is strictly sorted by the timers' current keys and holds exactly
the timers that have a callback, so that `cancel` never erases `end()`. -/
def TimerSetSound (mgr : TimerManager) : Prop :=
  mgr.m_timers.Pairwise (fun a b => (mgr.heap a).m_next < (mgr.heap b).m_next ∨
    (mgr.heap a).m_next = (mgr.heap b).m_next ∧ a < b) ∧
  mgr.m_timers.Nodup ∧
  (∀ timer ∈ mgr.m_timers, timer ∈ mgr.created) ∧
  (∀ timer ∈ mgr.created, timer ∈ mgr.m_timers ↔ (mgr.heap timer).m_cb ≠ none) ∧
  ∀ timer ∈ mgr.created, ∃ answer after, mgr.cancel timer = some (answer, after)

theorem timer_set_sound {mgr : TimerManager} (reached : Reach timers anyStep mgr) :
    TimerSetSound mgr := by
  have held := reach_held reached
  refine ⟨?_, held.sorted.nodup (timerLess_order mgr.heap), ?_, ?_, ?_⟩
  · apply List.Pairwise.imp _ held.sorted
    intro a b below
    exact timerLess_iff.mp below
  · intro timer within
    exact held.known timer (Or.inl within)
  · intro timer known
    have armed := held.armed timer known
    rw [Option.isSome_iff_ne_none] at armed
    simpa using armed
  · exact fun _ known => cancel_total held known

theorem timer_set_sound_run :
    ∃ mgr, run timers (.constructed 1000)
        [.addTimer 8 50 1 false 1000, .addTimer 3 20 2 true 1010, .addTimer 5 20 3 false 1010,
          .refresh 8 1020, .listExpiredCb 9 1030, .reset 3 100 true 1040, .cancel 8,
          .cancel 5] = some mgr ∧ TimerSetSound mgr :=
  run_meets anyStep ⟨1000, rfl⟩ (by decide) (by decide) fun _ reached => timer_set_sound reached

end Ztyco.Timers
