import Mathlib.Algebra.Ring.Int.Defs
import Mathlib.Algebra.Ring.Nat
import Ztyco.NextTimer

/-!
iomanager.cc, `IOManager::idle`: from the distance of the next timer to the
timeouts that `epoll_wait` is given. The distance has 64 bits and unsigned, the
timeout 32 and a sign, and both are kept in `next_timeout`: it is narrowed for
the minimum, widened when the minimum is stored, and narrowed again for the call.
-/

namespace Ztyco.IdleTimeouts

open Timers
open Transition

def EINTR : Int32 := 4

def toInt (n : UInt64) : Int32 := n.toInt64.toInt32

def ofInt (n : Int32) : UInt64 := n.toInt64.toUInt64

def MAX_TIMEOUT : Int32 := 5000

def capped (next_timeout : UInt64) : UInt64 :=
  if next_timeout ≠ ~~~0 then
    ofInt (if MAX_TIMEOUT < toInt next_timeout then MAX_TIMEOUT else toInt next_timeout)
  else ofInt MAX_TIMEOUT

structure Answer where
  ret : Int32
  errno : Int32 := 0
  deriving DecidableEq, Repr

/-- The timeouts passed, on these answers; the loop goes round again at `EINTR`. -/
def timeouts (next_timeout : UInt64) : List Answer → List Int32
  | [] => []
  | answer :: answers =>
      let next_timeout := capped next_timeout
      toInt next_timeout ::
        if answer.ret < 0 ∧ answer.errno = EINTR then timeouts next_timeout answers else []

/-- A timeout that neither blocks without limit nor passes the next timer. -/
def InTime (d : UInt64) (timeout : Int32) : Prop :=
  0 ≤ timeout.toInt ∧ timeout.toInt ≤ 5000 ∧ timeout.toInt ≤ d.toNat

instance InTime.decidable (d : UInt64) (timeout : Int32) : Decidable (InTime d timeout) :=
  inferInstanceAs (Decidable (_ ∧ _))

@[simp] theorem toInt_ofInt (n : Int32) : toInt (ofInt n) = n := by simp [toInt, ofInt]

/-- The narrowing keeps the low 32 bits, and takes 2^32 off where bit 31 is set. -/
theorem toInt_toInt (n : UInt64) :
    (toInt n).toInt = if n.toNat % 2 ^ 32 < 2 ^ 31 then (n.toNat % 2 ^ 32 : Int)
      else (n.toNat % 2 ^ 32 : Int) - 2 ^ 32 := by
  have signed : n.toInt64.toInt = (n.toNat : Int).bmod (2 ^ 64) := by
    rw [Int64.toInt, UInt64.toBitVec_toInt64, BitVec.toInt_eq_toNat_bmod, UInt64.toNat_toBitVec]
  have narrowed : (toInt n).toInt = (n.toNat : Int).bmod (2 ^ 32) := by
    have whole : 2 ^ 32 ∣ 2 ^ 64 := by decide
    rw [toInt, Int64.toInt_toInt32, signed, Int.bmod_bmod_of_dvd whole]
  rw [narrowed, Int.bmod_def]
  split <;> split <;> omega

theorem toInt_min (n : Int32) :
    (if MAX_TIMEOUT < n then MAX_TIMEOUT else n).toInt = min n.toInt 5000 := by
  have most : MAX_TIMEOUT.toInt = 5000 := rfl
  split
  · rename_i above
    have order := Int32.lt_iff_toInt_lt.mp above
    omega
  · rename_i within
    have order := Int32.le_iff_toInt_le.mp (Int32.not_lt.mp within)
    omega

theorem toInt_capped (n : UInt64) :
    (toInt (capped n)).toInt = if n = ~~~0 then 5000 else min (toInt n).toInt 5000 := by
  unfold capped
  by_cases unlimited : n = ~~~0
  · rw [if_neg (not_not.mpr unlimited), if_pos unlimited, toInt_ofInt]
    rfl
  · rw [if_pos unlimited, if_neg unlimited, toInt_ofInt, toInt_min]

theorem capped_kept {n : UInt64} (bounded : 0 ≤ (toInt (capped n)).toInt) :
    capped (capped n) = capped n := by
  have widened : ∃ m, capped n = ofInt m := by
    unfold capped
    split
    · exact ⟨_, rfl⟩
    · exact ⟨_, rfl⟩
  have low : (toInt (capped n)).toInt ≤ 5000 := by
    rw [toInt_capped]
    split <;> omega
  rcases widened with ⟨m, stored⟩
  rw [stored, toInt_ofInt] at bounded low
  rw [stored]
  have limited : ofInt m ≠ ~~~0 := by
    intro same
    have ones : m = toInt (~~~0) := by rw [← same, toInt_ofInt]
    rw [ones] at bounded
    exact absurd bounded (by decide)
  have short : ¬ MAX_TIMEOUT < m := by
    rw [Int32.lt_iff_toInt_lt]
    exact Int.not_lt.mpr low
  rw [capped, if_pos limited, toInt_ofInt, if_neg short]

/-- However often the call is interrupted, it is given the first timeout again. -/
theorem timeouts_kept {n : UInt64} (bounded : 0 ≤ (toInt (capped n)).toInt)
    (answers : List Answer) : ∀ timeout ∈ timeouts n answers, timeout = toInt (capped n) := by
  induction answers generalizing n with
  | nil =>
      intro timeout mem
      cases mem
  | cons answer answers ih =>
      intro timeout mem
      simp only [timeouts] at mem
      rcases List.mem_cons.mp mem with same | mem
      · exact same
      · split at mem
        · -- the retry starts from the capped value, and caps it to itself
          have kept := capped_kept bounded
          have later := ih (kept.symm ▸ bounded) timeout mem
          rw [kept] at later
          exact later
        · cases mem

/-- `idle` gives every call a timeout in time exactly where there is no timer
or bit 31 of the distance is clear. -/
theorem idle_in_time_iff (d : UInt64) :
    (∀ answers, ∀ timeout ∈ timeouts d answers, InTime d timeout) ↔
      d = ~~~0 ∨ d.toNat % 2 ^ 32 < 2 ^ 31 := by
  have first := toInt_capped d
  have low := toInt_toInt d
  constructor
  · intro inTime
    by_contra neither
    rcases not_or.mp neither with ⟨limited, high⟩
    rw [if_neg limited] at first
    rw [if_neg high] at low
    have passed := (inTime [{ ret := 0 }] (toInt (capped d)) List.mem_cons_self).1
    omega
  · intro either answers timeout mem
    have bounds : InTime d (toInt (capped d)) := by
      unfold InTime
      rcases either with unlimited | clear
      · rw [if_pos unlimited] at first
        rw [first, unlimited]
        decide
      · rw [if_pos clear] at low
        have size := Nat.mod_le d.toNat (2 ^ 32)
        by_cases unlimited : d = ~~~0
        · rw [if_pos unlimited] at first
          rw [first, unlimited]
          decide
        · rw [if_neg unlimited] at first
          omega
    rw [timeouts_kept bounds.1 answers timeout mem]
    exact bounds

/-- Every distance is returned by `getNextTimer` at some moment of some run:
one timer of that many milliseconds is enough. -/
theorem distance_returned {now d : UInt64} (inRange : now.toNat + d.toNat < 2 ^ 64) :
    ∃ mgr, Reach timers anyStep mgr ∧ (mgr.getNextTimer now).1 = d := by
  have added : timers.step (.constructed now) (.addTimer 0 d 0 false now) =
      some ((TimerManager.constructed now).addTimer 0 d (some 0) false now).2 := rfl
  refine ⟨_, .extend (.start ⟨now, rfl⟩) (.single _ trivial added), ?_⟩
  have pending : ((TimerManager.constructed now).addTimer 0 d (some 0) false now).2.m_timers =
      [0] := rfl
  have date : (((TimerManager.constructed now).addTimer 0 d (some 0) false now).2.heap 0).m_next =
      now + d := rfl
  rw [getNextTimer_cons pending, date]
  apply UInt64.toNat_inj.mp
  rw [distance_toNat, UInt64.toNat_add]
  omega

/-- One timer, 2^31 ms away: the worker would sleep without limit. -/
theorem idle_oversleeps :
    ∃ mgr, Reach timers anyStep mgr ∧ (mgr.getNextTimer 1700000000000).1 = 2147483648 ∧
      ∃ timeout ∈ timeouts (mgr.getNextTimer 1700000000000).1 [{ ret := 0 }],
        timeout = -2147483648 ∧ ¬ InTime (mgr.getNextTimer 1700000000000).1 timeout := by
  have inRange : (1700000000000 : UInt64).toNat + (2147483648 : UInt64).toNat < 2 ^ 64 := by decide
  rcases distance_returned inRange with ⟨mgr, reached, distance⟩
  refine ⟨mgr, reached, distance, -2147483648, ?_, rfl, ?_⟩
  · rw [distance]
    decide
  · rw [distance]
    decide

end Ztyco.IdleTimeouts
