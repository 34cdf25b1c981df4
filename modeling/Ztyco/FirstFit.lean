import Mathlib.Data.List.Basic
import Mathlib.Data.List.Count

/-!
A queue from which a party takes the first item it may have, and to which items
are added at the end. An item waits behind the items that were ahead of it when
it came to be looked at; a party that may have it takes one of those, or the item
itself, so the item is passed over by no more of these parties' turns than there
are items ahead. Copies of one item are told apart by their number.
-/

namespace Ztyco.FirstFit

universe u v
variable {Party : Type u} {Item : Type v}

def turns (may : Item → Party → Bool) (item : Item) (taken : List (Party × Item)) : Nat :=
  taken.countP fun entry => may item entry.1

theorem turns_append (may : Item → Party → Bool) (item : Item) (taken : List (Party × Item))
    (party : Party) (other : Item) :
    turns may item (taken ++ [(party, other)]) =
      turns may item taken + if may item party then 1 else 0 := by
  simp [turns, List.countP_append, List.countP_singleton]

/-- Where the first item that a party may have stands beside the one that waits. -/
theorem split_cases {ahead behind skipped rest : List Item} {first : Item}
    (same : ahead ++ item :: behind = skipped ++ first :: rest) :
    (∃ middle, ahead = skipped ++ first :: middle ∧ rest = middle ++ item :: behind) ∨
      (skipped = ahead ∧ first = item ∧ rest = behind) ∨
      ∃ middle, skipped = ahead ++ item :: middle ∧ behind = middle ++ first :: rest := by
  rcases List.append_eq_append_iff.mp same with ⟨gap, skips, tail⟩ | ⟨gap, leads, tail⟩
  · cases gap with
    | nil =>
        cases tail
        exact Or.inr (Or.inl ⟨by simpa using skips, rfl, rfl⟩)
    | cons head middle =>
        cases tail
        exact Or.inr (Or.inr ⟨middle, skips, rfl⟩)
  · cases gap with
    | nil =>
        cases tail
        exact Or.inr (Or.inl ⟨by simpa using leads.symm, rfl, rfl⟩)
    | cons head middle =>
        cases tail
        exact Or.inl ⟨middle, leads, rfl⟩

section Waiting
variable [DecidableEq Item]

def copies (item : Item) (taken : List (Party × Item)) : Nat := (taken.map (·.2)).count item

/-- The item is still there, behind what is left of the items that were ahead. -/
def Waits (may : Item → Party → Bool) (start : List Item) (item : Item) (items : List Item)
    (taken : List (Party × Item)) : Prop :=
  ∃ ahead behind, items = ahead ++ item :: behind ∧
    turns may item taken + ahead.length ≤ start.length ∧
    copies item taken + ahead.count item = start.count item

/-- It was taken, and with it the copies ahead of it. -/
def Served (start : List Item) (item : Item) (taken : List (Party × Item)) : Prop :=
  start.count item < copies item taken

variable {may : Item → Party → Bool} {start items : List Item} {item : Item}
  {taken : List (Party × Item)}

theorem waits_start (may : Item → Party → Bool) (start : List Item) (item : Item)
    (behind : List Item) : Waits may start item (start ++ item :: behind) [] :=
  ⟨start, behind, rfl, by simp [turns], by simp [copies]⟩

theorem Waits.finds (waits : Waits may start item items taken) {party : Party}
    (eligible : may item party = true) : ∃ other ∈ items, may other party = true := by
  rcases waits with ⟨ahead, behind, rfl, _⟩
  exact ⟨item, by simp, eligible⟩

theorem Waits.turns_le (waits : Waits may start item items taken) :
    turns may item taken ≤ start.length := by
  rcases waits with ⟨ahead, behind, _, bound, _⟩
  exact Nat.le_trans (Nat.le_add_right _ _) bound

theorem Waits.append (waits : Waits may start item items taken) (new : List Item) :
    Waits may start item (items ++ new) taken := by
  rcases waits with ⟨ahead, behind, rfl, bound, count⟩
  exact ⟨ahead, behind ++ new, by simp, bound, count⟩

theorem Served.append (served : Served start item taken) (more : List (Party × Item)) :
    Served start item (taken ++ more) := by
  unfold Served copies at *
  rw [List.map_append, List.count_append]
  omega

theorem copies_append (item : Item) (taken : List (Party × Item)) (party : Party) (other : Item) :
    copies item (taken ++ [(party, other)]) =
      copies item taken + if other = item then 1 else 0 := by
  simp [copies, List.count_append, List.count_singleton]

/-- One turn: the item still waits, or it is what the party has taken. -/
theorem Waits.take {skipped rest : List Item} {first : Item} {party : Party}
    (waits : Waits may start item (skipped ++ first :: rest) taken)
    (eligible : may first party = true)
    (passed : ∀ other ∈ skipped, may other party = false) :
    Waits may start item (skipped ++ rest) (taken ++ [(party, first)]) ∨
      Served start item (taken ++ [(party, first)]) := by
  rcases waits with ⟨ahead, behind, split, bound, count⟩
  rcases split_cases split.symm with ⟨middle, rfl, rfl⟩ | ⟨rfl, rfl, rfl⟩ | ⟨middle, rfl, rfl⟩
  · left
    refine ⟨skipped ++ middle, behind, by simp, ?_, ?_⟩
    · rw [turns_append]
      simp only [List.length_append, List.length_cons] at bound ⊢
      split <;> omega
    · rw [copies_append]
      simp only [List.count_append, List.count_cons, beq_iff_eq] at count ⊢
      omega
  · -- a copy that is still ahead would have been taken instead
    have none : skipped.count first = 0 := by
      rw [List.count_eq_zero]
      intro copy
      rw [passed first copy] at eligible
      cases eligible
    right
    rw [Served, copies_append, if_pos rfl]
    omega
  · -- the party may not have the item, which it has passed over
    have refused : may item party = false := passed item (by simp)
    have other : first ≠ item := by
      intro same
      rw [same, refused] at eligible
      cases eligible
    left
    refine ⟨ahead, middle ++ rest, by simp, ?_, ?_⟩
    · rw [turns_append, refused]
      simpa using bound
    · rw [copies_append, if_neg other]
      simpa using count

end Waiting

end Ztyco.FirstFit
