import Mathlib.Logic.Function.Basic

/-!
A tally: the sum of a weight over the members of a fixed list, each with a
state of its own, and what a change of one member's state does to it. Counters
kept in machine words follow it as long as they do not wrap.
-/

namespace Ztyco.Tally

universe u v
variable {Member : Type u} {State : Type v}

def tally (weight : State → Nat) : List Member → (Member → State) → Nat
  | [], _ => 0
  | member :: members, state => weight (state member) + tally weight members state

variable {weight : State → Nat} {members : List Member} {state : Member → State}

@[simp] theorem tally_nil : tally weight [] state = 0 := rfl

@[simp] theorem tally_cons (member : Member) :
    tally weight (member :: members) state = weight (state member) + tally weight members state :=
  rfl

theorem tally_congr {other : Member → State}
    (agree : ∀ member ∈ members, weight (state member) = weight (other member)) :
    tally weight members state = tally weight members other := by
  induction members with
  | nil => rfl
  | cons head rest ih =>
      rw [tally_cons, tally_cons, agree head List.mem_cons_self,
        ih fun member within => agree member (List.mem_cons_of_mem head within)]

theorem tally_eq_zero :
    tally weight members state = 0 ↔ ∀ member ∈ members, weight (state member) = 0 := by
  induction members with
  | nil => simp
  | cons head rest ih => simp [ih]

theorem weight_le_tally (weight : State → Nat) (state : Member → State) {member : Member}
    (mem : member ∈ members) : weight (state member) ≤ tally weight members state := by
  induction members with
  | nil => cases mem
  | cons head rest ih =>
      rw [tally_cons]
      rcases List.mem_cons.mp mem with rfl | later
      · omega
      · have := ih later
        omega

theorem tally_le {bound : Nat} (each : ∀ state, weight state ≤ bound) :
    tally weight members state ≤ bound * members.length := by
  induction members with
  | nil => simp
  | cons head rest ih =>
      have := each (state head)
      rw [tally_cons, List.length_cons, Nat.mul_succ]
      omega

variable [DecidableEq Member]

theorem tally_update (weight : State → Nat) (state : Member → State) {member : Member}
    (nodup : members.Nodup) (mem : member ∈ members) (next : State) :
    tally weight members (Function.update state member next) + weight (state member) =
      tally weight members state + weight next := by
  induction members with
  | nil => cases mem
  | cons head rest ih =>
      obtain ⟨apart, later⟩ := List.nodup_cons.mp nodup
      rw [tally_cons, tally_cons]
      rcases List.mem_cons.mp mem with rfl | within
      · have unchanged : tally weight rest (Function.update state member next) =
            tally weight rest state :=
          tally_congr fun other holds => by
            have distinct : other ≠ member := fun same => apart (same ▸ holds)
            simp [distinct]
        rw [unchanged, Function.update_self]
        omega
      · have distinct : head ≠ member := fun same => apart (same ▸ within)
        have := ih later within
        rw [Function.update_of_ne distinct]
        omega

/-! Counters in a machine word. -/

theorem count_up {count : UInt64} {total : Nat} (counts : count.toNat = total)
    (room : total + 1 < UInt64.size) : (count + 1).toNat = total + 1 := by
  rw [UInt64.toNat_add]
  simp only [UInt64.reduceToNat, counts]
  exact Nat.mod_eq_of_lt room

theorem count_down {count : UInt64} {total : Nat} (counts : count.toNat = total)
    (positive : 0 < total) : (count - 1).toNat = total - 1 := by
  have le : (1 : UInt64) ≤ count := by
    rw [UInt64.le_iff_toNat_le, counts]
    exact positive
  rw [UInt64.toNat_sub_of_le _ _ le, counts]
  rfl

theorem count_zero {count : UInt64} {total : Nat} (counts : count.toNat = total) :
    count = 0 ↔ total = 0 := by
  rw [← counts]
  exact UInt64.toNat_inj.symm

end Ztyco.Tally
