import Mathlib.Logic.Function.Basic
import Ztyco.Fibers
import Ztyco.OrderedSet
import Ztyco.Transition

/-!
timer.cc. Timers are heap objects, compared through their pointers, so a timer
whose `m_next` changes while it is in the set would silently leave its place.
Every operation runs under the manager's lock and takes the clock readings it
makes as arguments. A timer's back pointer to its manager is left out: there is
one manager. `created` and `history` are read by no operation.
-/

namespace Ztyco.Timers

open Fibers (Func)
open Transition

abbrev Addr := Nat

structure Timer where
  m_recurring : Bool := false
  m_ms : UInt64 := 0
  m_next : UInt64 := 0
  m_cb : Option Func := none
  deriving DecidableEq, Repr

inductive Happening where
  | added (timer : Addr)
  | emitted (timer : Addr) (cb : Option Func)
  | cancelled (timer : Addr)
  deriving DecidableEq, Repr

structure TimerManager where
  m_timers : List Addr := []
  m_tickled : Bool := false
  m_previousTime : UInt64
  heap : Addr → Timer := fun _ => {}
  created : List Addr := []
  history : List Happening := []

/-- `Timer::Comparator::operator()` on two shared pointers. -/
def Comparator (heap : Addr → Timer) : Option Addr → Option Addr → Bool
  | none, none => false
  | none, some _ => true
  | some _, none => false
  | some lhs, some rhs =>
      if (heap lhs).m_next < (heap rhs).m_next then true
      else if (heap rhs).m_next < (heap lhs).m_next then false
      else lhs < rhs

def timerLess (heap : Addr → Timer) (lhs rhs : Addr) : Bool := Comparator heap (some lhs) (some rhs)

namespace TimerManager

def constructed (now : UInt64) : TimerManager := { m_previousTime := now }

def write (mgr : TimerManager) (timer : Addr) (contents : Timer) : TimerManager :=
  { mgr with heap := Function.update mgr.heap timer contents }

def record (mgr : TimerManager) (happening : Happening) : TimerManager :=
  { mgr with history := mgr.history ++ [happening] }

/-- `m_timers.find(timer)`; `none` is `end()`. -/
def find (mgr : TimerManager) (timer : Addr) : Option Nat :=
  OrderedSet.find (timerLess mgr.heap) timer mgr.m_timers

def erase (mgr : TimerManager) (it : Nat) : TimerManager :=
  { mgr with m_timers := mgr.m_timers.eraseIdx it }

def insert (mgr : TimerManager) (timer : Addr) : TimerManager :=
  { mgr with m_timers := OrderedSet.insert (timerLess mgr.heap) timer mgr.m_timers }

def addTimerLocked (mgr : TimerManager) (val : Addr) : Bool × TimerManager :=
  let it := OrderedSet.lowerBound (timerLess mgr.heap) val mgr.m_timers
  let atFront := it == 0 && !mgr.m_tickled
  let mgr := mgr.insert val
  (atFront, if atFront then { mgr with m_tickled := true } else mgr)

def addTimer (mgr : TimerManager) (timer : Addr) (ms : UInt64) (cb : Option Func)
    (recurring : Bool) (now : UInt64) : Bool × TimerManager :=
  let mgr := mgr.write timer
    { m_recurring := recurring, m_ms := ms, m_next := now + ms, m_cb := cb }
  ({ mgr with created := mgr.created ++ [timer] }.record (.added timer)).addTimerLocked timer

/-- `none` is `erase(end())`. -/
def cancel (mgr : TimerManager) (timer : Addr) : Option (Bool × TimerManager) :=
  if (mgr.heap timer).m_cb.isSome then
    let mgr := mgr.write timer { mgr.heap timer with m_cb := none }
    match mgr.find timer with
    | some it => some (true, (mgr.erase it).record (.cancelled timer))
    | none => none
  else some (false, mgr)

def refresh (mgr : TimerManager) (timer : Addr) (now : UInt64) : Bool × TimerManager :=
  if (mgr.heap timer).m_cb.isNone then (false, mgr) else
  match mgr.find timer with
  | none => (false, mgr)
  | some it =>
      let mgr := mgr.erase it
      let mgr := mgr.write timer { mgr.heap timer with m_next := now + (mgr.heap timer).m_ms }
      (true, mgr.insert timer)

/-- The answer, whether `onTimerInsertedAtFront` is called, and the state. -/
def reset (mgr : TimerManager) (timer : Addr) (ms : UInt64) (from_now : Bool) (now : UInt64) :
    Bool × Bool × TimerManager :=
  if ms == (mgr.heap timer).m_ms && !from_now then (true, false, mgr) else
  if (mgr.heap timer).m_cb.isNone then (false, false, mgr) else
  match mgr.find timer with
  | none => (false, false, mgr)
  | some it =>
      let mgr := mgr.erase it
      -- the old start is computed from the old delay
      let start := if from_now then now else (mgr.heap timer).m_next - (mgr.heap timer).m_ms
      let mgr := mgr.write timer { mgr.heap timer with m_ms := ms, m_next := start + ms }
      (true, mgr.addTimerLocked timer)

def getNextTimer (mgr : TimerManager) (now_ms : UInt64) : UInt64 × TimerManager :=
  let mgr := { mgr with m_tickled := false }
  match mgr.m_timers with
  | [] => (~~~0, mgr)
  | next :: _ =>
      if now_ms ≥ (mgr.heap next).m_next then (0, mgr)
      else ((mgr.heap next).m_next - now_ms, mgr)

def detectClockRollover (mgr : TimerManager) (now_ms : UInt64) : Bool × TimerManager :=
  (now_ms < mgr.m_previousTime && now_ms < mgr.m_previousTime - 60 * 60 * 1000,
    { mgr with m_previousTime := now_ms })

def skipEqual (heap : Addr → Timer) (now_ms : UInt64) : List Addr → Nat
  | [] => 0
  | timer :: rest => if (heap timer).m_next = now_ms then skipEqual heap now_ms rest + 1 else 0

def emit (mgr : TimerManager) (now_ms : UInt64) (timer : Addr) : TimerManager :=
  let mgr := mgr.record (.emitted timer (mgr.heap timer).m_cb)
  if (mgr.heap timer).m_recurring then
    (mgr.write timer
      { mgr.heap timer with m_next := now_ms + (mgr.heap timer).m_ms }).insert timer
  else mgr.write timer { mgr.heap timer with m_cb := none }

def emitAll (mgr : TimerManager) (now_ms : UInt64) :
    List Addr → List (Option Func) × TimerManager
  | [] => ([], mgr)
  | timer :: expired =>
      let (cbs, after) := (mgr.emit now_ms timer).emitAll now_ms expired
      ((mgr.heap timer).m_cb :: cbs, after)

/-- The end of the expired timers, with the temporary `now_timer` at `temp`. -/
def expiredEnd (mgr : TimerManager) (temp : Addr) (rollover : Bool) (now_ms : UInt64) : Nat :=
  let heap := Function.update mgr.heap temp { m_next := now_ms }
  let it := if rollover then mgr.m_timers.length
    else OrderedSet.lowerBound (timerLess heap) temp mgr.m_timers
  it + skipEqual mgr.heap now_ms (mgr.m_timers.drop it)

def listExpiredCb (mgr : TimerManager) (temp : Addr) (now_ms : UInt64) :
    List (Option Func) × TimerManager :=
  match mgr.m_timers with
  | [] => ([], mgr)
  | first :: _ =>
      let (rollover, mgr) := mgr.detectClockRollover now_ms
      if !rollover && (mgr.heap first).m_next > now_ms then ([], mgr) else
      -- the first loop only cuts the set; the callbacks come from the second
      let it := mgr.expiredEnd temp rollover now_ms
      { mgr with m_timers := mgr.m_timers.drop it }.emitAll now_ms (mgr.m_timers.take it)

end TimerManager

inductive Op where
  | addTimer (timer : Addr) (ms : UInt64) (cb : Func) (recurring : Bool) (now : UInt64)
  | cancel (timer : Addr)
  | refresh (timer : Addr) (now : UInt64)
  | reset (timer : Addr) (ms : UInt64) (from_now : Bool) (now : UInt64)
  | getNextTimer (now : UInt64)
  | listExpiredCb (temp : Addr) (now : UInt64)
  deriving DecidableEq, Repr

/-- A new timer, the temporary one too, is allocated where no other timer is;
a timer is used only after `addTimer` has returned it. -/
def TimerManager.admits (mgr : TimerManager) : Op → Bool
  | .addTimer timer _ _ _ _ | .listExpiredCb timer _ => timer ∉ mgr.created
  | .cancel timer | .refresh timer _ | .reset timer _ _ _ => timer ∈ mgr.created
  | .getNextTimer _ => true

def TimerManager.perform (mgr : TimerManager) : Op → Option TimerManager
  | .addTimer timer ms cb recurring now => some (mgr.addTimer timer ms (some cb) recurring now).2
  | .cancel timer => (mgr.cancel timer).map (·.2)
  | .refresh timer now => some (mgr.refresh timer now).2
  | .reset timer ms from_now now => some (mgr.reset timer ms from_now now).2.2
  | .getNextTimer now => some (mgr.getNextTimer now).2
  | .listExpiredCb temp now => some (mgr.listExpiredCb temp now).2

def timers : Machine TimerManager Op where
  initial mgr := ∃ now, mgr = .constructed now
  step mgr op := if mgr.admits op then mgr.perform op else none

theorem timerLess_iff {heap : Addr → Timer} {a b : Addr} :
    timerLess heap a b = true ↔
      (heap a).m_next < (heap b).m_next ∨ (heap a).m_next = (heap b).m_next ∧ a < b := by
  simp only [timerLess, Comparator]
  by_cases below : (heap a).m_next < (heap b).m_next
  · simp [below]
  · by_cases above : (heap b).m_next < (heap a).m_next
    · have different : (heap a).m_next ≠ (heap b).m_next := fun same => by
        rw [same] at above
        exact UInt64.lt_irrefl _ above
      simp [below, above, different]
    · have same : (heap a).m_next = (heap b).m_next :=
        UInt64.le_antisymm (UInt64.not_lt.mp above) (UInt64.not_lt.mp below)
      simp [same]

theorem timerLess_order (heap : Addr → Timer) : OrderedSet.StrictTotal (timerLess heap) := by
  constructor
  · intro a
    apply Bool.eq_false_iff.mpr
    rw [Ne, timerLess_iff]
    rintro (below | ⟨_, below⟩)
    · exact UInt64.lt_irrefl _ below
    · exact Nat.lt_irrefl a below
  · intro a b c
    rw [timerLess_iff, timerLess_iff, timerLess_iff]
    rintro (first | ⟨first, low⟩) (second | ⟨second, high⟩)
    · exact Or.inl (UInt64.lt_trans first second)
    · exact Or.inl (second ▸ first)
    · exact Or.inl (first ▸ second)
    · exact Or.inr ⟨first.trans second, Nat.lt_trans low high⟩
  · intro a b left right
    have not_left := Bool.eq_false_iff.mp left
    have not_right := Bool.eq_false_iff.mp right
    rw [Ne, timerLess_iff] at not_left not_right
    have same : (heap a).m_next = (heap b).m_next := by
      apply UInt64.le_antisymm
      · exact UInt64.not_lt.mp fun above => not_right (Or.inl above)
      · exact UInt64.not_lt.mp fun below => not_left (Or.inl below)
    apply Nat.le_antisymm
    · exact Nat.not_lt.mp fun above => not_right (Or.inr ⟨same.symm, above⟩)
    · exact Nat.not_lt.mp fun below => not_left (Or.inr ⟨same, below⟩)

end Ztyco.Timers
