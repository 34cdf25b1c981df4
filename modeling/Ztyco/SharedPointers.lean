import Mathlib.Algebra.Order.BigOperators.Group.List
import Mathlib.Algebra.Order.Group.Nat
import Mathlib.Algebra.Ring.Nat

/-!
Counted pointers. A block counts the pointers to an object, which is destroyed
with the last of them. Those who have pointers stand in lists, each with so many:
`Counts` ties the counter of the block to the sum over the lists.
-/

namespace Ztyco.SharedPointers

universe u
variable {Holder : Type u}

/-- Of an object that has been made, with one pointer to it. -/
structure Block where
  use : Nat := 1
  destroyed : Nat := 0
  deriving DecidableEq, Repr

namespace Block

def copies (block : Block) (n : Nat) : Block := { block with use := block.use + n }

def drop (block : Block) : Block :=
  if block.use = 1 then { use := 0, destroyed := block.destroyed + 1 }
  else { block with use := block.use - 1 }

structure Counts (block : Block) (holders : Nat) : Prop where
  use : block.use = holders
  once : block.destroyed = if holders = 0 then 1 else 0

variable {block : Block} {holders : Nat}

theorem counts_made : ({} : Block).Counts 1 := ⟨rfl, rfl⟩

/-- Only who has a pointer can copy it. -/
theorem Counts.copies (counts : block.Counts holders) (n : Nat) (held : n = 0 ∨ 0 < holders) :
    (block.copies n).Counts (holders + n) := by
  refine ⟨congrArg (· + n) counts.use, ?_⟩
  have same : (block.copies n).destroyed = block.destroyed := rfl
  rw [same, counts.once]
  rcases held with rfl | some
  · rfl
  · rw [if_neg (by omega), if_neg (by omega)]

theorem Counts.drop (counts : block.Counts (holders + 1)) : block.drop.Counts holders := by
  have alive : block.destroyed = 0 := counts.once
  unfold Block.drop
  rw [counts.use]
  split
  · rename_i last
    have none : holders = 0 := by omega
    exact ⟨none.symm, by rw [if_pos none, alive]⟩
  · rename_i more
    exact ⟨Nat.add_sub_cancel .., by rw [if_neg fun none => more (congrArg (· + 1) none), alive]⟩

theorem Counts.destroyed_le (counts : block.Counts holders) : block.destroyed ≤ 1 := by
  rw [counts.once]
  split
  · exact Nat.le_refl 1
  · exact Nat.zero_le 1

theorem Counts.alive_iff (counts : block.Counts holders) :
    block.destroyed = 0 ↔ 0 < holders := by
  rw [counts.once]
  split
  · simp [*]
  · omega

end Block

/-! What the members of a list weigh together. -/

theorem sum_map_set (weight : Holder → Nat) {holders : List Holder} {holder : Holder} {i : Nat}
    (found : holders[i]? = some holder) (next : Holder) :
    ((holders.set i next).map weight).sum + weight holder =
      (holders.map weight).sum + weight next := by
  induction holders generalizing i with
  | nil => cases found
  | cons head rest ih =>
      cases i with
      | zero =>
          cases found
          simp only [List.set_cons_zero, List.map_cons, List.sum_cons]
          omega
      | succ i =>
          have later := ih (i := i) found
          simp only [List.set_cons_succ, List.map_cons, List.sum_cons]
          omega

end Ztyco.SharedPointers
