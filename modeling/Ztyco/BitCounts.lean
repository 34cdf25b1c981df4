import Mathlib.Algebra.BigOperators.Fin
import Mathlib.Data.Fintype.Fin

/-!
The set bits of a word of any width, and the bit that `value &&& (value - 1)` clears.
A word of 2 ^ t and a multiple of 2 ^ (t + 1) has its lowest set bit at t.
-/

namespace Ztyco.BitCounts

variable {w : Nat}

def setBits (value : BitVec w) : Finset (Fin w) :=
  Finset.univ.filter fun i => value.getLsbD i = true

@[simp] theorem mem_setBits {value : BitVec w} {i : Fin w} :
    i ∈ setBits value ↔ value.getLsbD i = true := by
  simp [setBits]

theorem setBits_eq_empty_iff {value : BitVec w} : setBits value = ∅ ↔ value = 0 := by
  constructor
  · intro empty
    refine BitVec.eq_of_getLsbD_eq fun i inside => ?_
    have absent : (⟨i, inside⟩ : Fin w) ∉ setBits value := empty ▸ Finset.notMem_empty _
    simpa using absent
  · rintro rfl
    ext i
    simp

section Lowest
variable {value : BitVec w} {t : Nat}

structure Lowest (value : BitVec w) (t : Nat) : Prop where
  set : value.getLsbD t = true
  clear : ∀ i < t, value.getLsbD i = false

theorem exists_lowest (nonzero : value ≠ 0) : ∃ t, Lowest value t := by
  have some_set : ∃ i, value.getLsbD i = true := by
    by_contra none_set
    refine nonzero (BitVec.eq_of_getLsbD_eq fun i _ => ?_)
    simpa using fun set => none_set ⟨i, set⟩
  refine ⟨Nat.find some_set, Nat.find_spec some_set, ?_⟩
  intro i below
  simpa using Nat.find_min some_set below

theorem Lowest.inside (lowest : Lowest value t) : t < w := BitVec.lt_of_getLsbD lowest.set

theorem Lowest.toNat_eq (lowest : Lowest value t) :
    value.toNat = 2 ^ (t + 1) * (value.toNat / 2 ^ (t + 1)) + 2 ^ t := by
  have low : value.toNat % 2 ^ (t + 1) = 2 ^ t := by
    refine Nat.eq_of_testBit_eq fun i => ?_
    rw [Nat.testBit_mod_two_pow, Nat.testBit_two_pow, BitVec.testBit_toNat]
    rcases Nat.lt_trichotomy i t with below | rfl | above
    · rw [lowest.clear i below, Bool.and_false, decide_eq_false (Nat.ne_of_gt below)]
    · rw [lowest.set, decide_eq_true (Nat.lt_succ_self i), decide_eq_true rfl]
      rfl
    · rw [decide_eq_false (by omega), decide_eq_false (Nat.ne_of_lt above), Bool.false_and]
  have parts := Nat.div_add_mod value.toNat (2 ^ (t + 1))
  rw [low] at parts
  exact parts.symm

theorem Lowest.toNat_sub_one (lowest : Lowest value t) :
    (value - 1).toNat = 2 ^ (t + 1) * (value.toNat / 2 ^ (t + 1)) + (2 ^ t - 1) := by
  have power := Nat.two_pow_pos t
  have wide : 1 < 2 ^ w := Nat.one_lt_two_pow (Nat.ne_zero_of_lt lowest.inside)
  have one : (1 : BitVec w).toNat = 1 := Nat.mod_eq_of_lt wide
  have value_eq := lowest.toNat_eq
  rw [BitVec.toNat_sub_of_le (BitVec.le_def.mpr (by omega)), one]
  omega

theorem Lowest.getLsbD_clear (lowest : Lowest value t) (i : Nat) :
    (value &&& (value - 1)).getLsbD i = (value.getLsbD i && decide (i ≠ t)) := by
  have power := Nat.two_pow_pos t
  have double : 2 ^ (t + 1) = 2 ^ t * 2 := Nat.pow_succ 2 t
  have value_eq := lowest.toNat_eq
  have less_eq := lowest.toNat_sub_one
  generalize value.toNat / 2 ^ (t + 1) = high at value_eq less_eq
  rw [BitVec.getLsbD_and, ← BitVec.testBit_toNat, ← BitVec.testBit_toNat, less_eq, value_eq,
    Nat.testBit_two_pow_mul_add _ (by omega), Nat.testBit_two_pow_mul_add _ (by omega)]
  split
  · rw [Nat.testBit_two_pow, Nat.testBit_two_pow_sub_one, ← Bool.decide_and, ← Bool.decide_and]
    exact decide_eq_decide.mpr (by omega)
  · rw [Bool.and_self, decide_eq_true (by omega), Bool.and_true]

end Lowest

/-- A step of the count: a word other than 0 loses one set bit. -/
theorem exists_erase {value : BitVec w} (nonzero : value ≠ 0) :
    ∃ t ∈ setBits value, setBits (value &&& (value - 1)) = (setBits value).erase t := by
  obtain ⟨t, lowest⟩ := exists_lowest nonzero
  refine ⟨⟨t, lowest.inside⟩, mem_setBits.mpr lowest.set, ?_⟩
  ext i
  rw [mem_setBits, lowest.getLsbD_clear, Bool.and_eq_true, decide_eq_true_iff, Finset.mem_erase,
    mem_setBits, and_comm, ne_eq, ne_eq, Fin.ext_iff]

theorem card_clear {value : BitVec w} (nonzero : value ≠ 0) :
    (setBits (value &&& (value - 1))).card + 1 = (setBits value).card := by
  obtain ⟨t, set, erased⟩ := exists_erase nonzero
  rw [erased, Finset.card_erase_add_one set]

/-- The bits that are first in some order of all bits. -/
theorem card_first {value : BitVec w} (order : Fin w ≃ Fin w) {p : Nat}
    (bits : ∀ k, value.getLsbD (order k) = decide (k.val < p)) :
    (setBits value).card = min w p := by
  rw [← Fin.card_filter_val_lt]
  refine (Finset.card_equiv order fun k => ?_).symm
  rw [Finset.mem_filter, mem_setBits, bits, decide_eq_true_iff]
  exact and_iff_right (Finset.mem_univ k)

theorem card_leading {value : BitVec w} {p : Nat}
    (bits : ∀ k < w, value.getMsbD k = decide (k < p)) : (setBits value).card = min w p := by
  refine card_first Fin.revPerm fun k => ?_
  rw [← bits k k.isLt, BitVec.getMsbD_eq_getLsbD, decide_eq_true k.isLt, Bool.true_and,
    Fin.revPerm_apply, Fin.val_rev]
  exact congrArg value.getLsbD (by omega)

theorem sum_leading (w p n : Nat) :
    ∑ j ∈ Finset.range n, min w (p - w * j) = min (w * n) p := by
  induction n with
  | zero => simp
  | succ n ih =>
      rw [Finset.sum_range_succ, ih, Nat.mul_succ]
      omega

end Ztyco.BitCounts
