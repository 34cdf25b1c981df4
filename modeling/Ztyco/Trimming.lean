import Mathlib.Algebra.Ring.Nat
import Mathlib.Data.List.Induction

/-!
`StringUtil::Trim`, `TrimLeft` and `TrimRight` of util.cc. A position that a
search does not find is `none`, for `npos`. A string that is not all delimiters
is cut once into what the functions are to remove and what they are to keep.
-/

namespace Ztyco.StringUtil

abbrev Text := List Char

def findFirstNotOf (str delimit : Text) : Option Nat :=
  str.findIdx? fun c => c ∉ delimit

def findLastNotOf (str delimit : Text) : Option Nat :=
  (str.reverse.findIdx? fun c => c ∉ delimit).map fun back => str.length - 1 - back

def substr (str : Text) (pos n : Nat) : Text := (str.drop pos).take n

def trim (str delimit : Text) : Text :=
  match findFirstNotOf str delimit, findLastNotOf str delimit with
  | some first, some last => substr str first (last - first + 1)
  | _, _ => []

def trimLeft (str delimit : Text) : Text :=
  match findFirstNotOf str delimit with
  | some first => str.drop first
  | none => []

def trimRight (str delimit : Text) : Text :=
  match findLastNotOf str delimit with
  | some last => substr str 0 last
  | none => []

def LeftTrimmed (str delimit rest : Text) : Prop :=
  ∃ removed, str = removed ++ rest ∧ (∀ c ∈ removed, c ∈ delimit) ∧
    ∀ c, rest.head? = some c → c ∉ delimit

def RightTrimmed (str delimit rest : Text) : Prop :=
  ∃ removed, str = rest ++ removed ∧ (∀ c ∈ removed, c ∈ delimit) ∧
    ∀ c, rest.getLast? = some c → c ∉ delimit

structure TrimsExactly (str delimit : Text) : Prop where
  left : LeftTrimmed str delimit (trimLeft str delimit)
  right : RightTrimmed str delimit (trimRight str delimit)
  right_left : trim str delimit = trimLeft (trimRight str delimit) delimit
  left_right : trim str delimit = trimRight (trimLeft str delimit) delimit
  trim_twice : trim (trim str delimit) delimit = trim str delimit
  left_twice : trimLeft (trimLeft str delimit) delimit = trimLeft str delimit
  right_twice : trimRight (trimRight str delimit) delimit = trimRight str delimit

/-! Strings of delimiters. -/

section Delimiters
variable {str delimit : Text} (all : ∀ c ∈ str, c ∈ delimit)
include all

theorem first_of_all : findFirstNotOf str delimit = none :=
  List.findIdx?_eq_none_iff.mpr fun c mem => by simp [all c mem]

theorem last_of_all : findLastNotOf str delimit = none := by
  have reversed : ∀ c ∈ str.reverse, c ∈ delimit := fun c mem => all c (List.mem_reverse.mp mem)
  have nowhere := first_of_all reversed
  unfold findFirstNotOf at nowhere
  rw [findLastNotOf, nowhere, Option.map_none]

theorem trim_of_all : trim str delimit = [] := by
  rw [trim, first_of_all all]

theorem trimLeft_of_all : trimLeft str delimit = [] := by
  rw [trimLeft, first_of_all all]

theorem trimRight_of_all : trimRight str delimit = [] := by
  rw [trimRight, last_of_all all]

end Delimiters

/-! Other strings. -/

/-- It begins and ends with a character that is no delimiter. -/
structure Kept (delimit core : Text) : Prop where
  nonempty : core ≠ []
  first : ∀ c, core.head? = some c → c ∉ delimit
  last : ∀ c, core.getLast? = some c → c ∉ delimit

structure Cut (str delimit left core right : Text) : Prop where
  whole : str = left ++ core ++ right
  left : ∀ c ∈ left, c ∈ delimit
  right : ∀ c ∈ right, c ∈ delimit
  kept : Kept delimit core

theorem cut_right {delimit : Text} {c : Char} (first : c ∉ delimit) (rest : Text) :
    ∃ core right, Cut (c :: rest) delimit [] (c :: core) right := by
  induction rest using List.reverseRecOn with
  | nil =>
      have kept : Kept delimit [c] := ⟨by simp, by simpa using first, by simpa using first⟩
      exact ⟨[], [], rfl, by simp, by simp, kept⟩
  | append_singleton rest x ih =>
      by_cases removed : x ∈ delimit
      · rcases ih with ⟨core, right, whole, _, others, kept⟩
        refine ⟨core, right ++ [x], ?_, by simp, ?_, kept⟩
        · rw [List.nil_append] at whole ⊢
          rw [← List.cons_append, whole, List.append_assoc]
        · simpa [or_imp, forall_and] using ⟨others, removed⟩
      · have kept : Kept delimit (c :: (rest ++ [x])) := by
          refine ⟨by simp, by simpa using first, ?_⟩
          rw [← List.cons_append, List.getLast?_concat]
          simpa using removed
        exact ⟨rest ++ [x], [], by simp, by simp, by simp, kept⟩

theorem cut_or_all (str delimit : Text) :
    (∀ c ∈ str, c ∈ delimit) ∨ ∃ left core right, Cut str delimit left core right := by
  induction str with
  | nil => exact Or.inl fun c mem => absurd mem List.not_mem_nil
  | cons c rest ih =>
      by_cases removed : c ∈ delimit
      · rcases ih with all | ⟨left, core, right, whole, before, after, kept⟩
        · exact Or.inl (List.forall_mem_cons.mpr ⟨removed, all⟩)
        · refine Or.inr ⟨c :: left, core, right, ?_, ?_, after, kept⟩
          · rw [whole, List.cons_append, List.cons_append]
          · exact List.forall_mem_cons.mpr ⟨removed, before⟩
      · rcases cut_right removed rest with ⟨core, right, cut⟩
        exact Or.inr ⟨[], c :: core, right, cut⟩

theorem findIdx_append {p : Char → Bool} {before : Text} {c : Char} (rest : Text)
    (skips : ∀ x ∈ before, p x = false) (stops : p c = true) :
    (before ++ c :: rest).findIdx? p = some before.length := by
  induction before with
  | nil => simp [List.findIdx?_cons, stops]
  | cons x before ih =>
      rcases List.forall_mem_cons.mp skips with ⟨first, later⟩
      simp [List.findIdx?_cons, first, ih later]

section Cutting
variable {str delimit left core right : Text} (cut : Cut str delimit left core right)
include cut

theorem Cut.findFirst : findFirstNotOf str delimit = some left.length := by
  obtain ⟨whole, before, _, kept⟩ := cut
  cases core with
  | nil => exact absurd rfl kept.nonempty
  | cons c core =>
      have stops := kept.first c rfl
      rw [whole, List.append_assoc, findFirstNotOf]
      exact findIdx_append _ (by simpa using before) (by simpa using stops)

theorem Cut.findLast :
    findLastNotOf str delimit = some (left.length + core.length - 1) := by
  obtain ⟨whole, _, after, kept⟩ := cut
  rcases List.eq_nil_or_concat core with empty | ⟨core, c, rfl⟩
  · exact absurd empty kept.nonempty
  · have stops := kept.last c (by simp)
    have reversed : str.reverse = right.reverse ++ c :: (left ++ core).reverse := by
      simp [whole]
    have back : (str.reverse.findIdx? fun c => c ∉ delimit) = some right.reverse.length := by
      rw [reversed]
      exact findIdx_append _ (by simpa using after) (by simpa using stops)
    rw [findLastNotOf, back, Option.map_some, whole]
    simp only [List.length_append, List.length_reverse]
    congr 1
    omega

theorem Cut.trim : trim str delimit = core := by
  have positive : 0 < core.length := List.length_pos_iff.mpr cut.kept.nonempty
  have size : left.length + core.length - 1 - left.length + 1 = core.length := by omega
  rw [StringUtil.trim, cut.findFirst, cut.findLast]
  simp only [substr, size, cut.whole, List.append_assoc, List.drop_left, List.take_left]

theorem Cut.trimLeft : trimLeft str delimit = core ++ right := by
  rw [StringUtil.trimLeft, cut.findFirst]
  simp only [cut.whole, List.append_assoc, List.drop_left]

/-- The last character that is to be kept is removed too. -/
theorem Cut.trimRight : trimRight str delimit = left ++ core.dropLast := by
  have positive : 0 < core.length := List.length_pos_iff.mpr cut.kept.nonempty
  have size : left.length + core.length - 1 = left.length + (core.length - 1) := by omega
  rw [StringUtil.trimRight, cut.findLast]
  simp only [substr, List.drop_zero, cut.whole, List.append_assoc, size,
    List.take_length_add_append]
  rw [List.take_append_of_le_length (Nat.sub_le _ _), ← List.dropLast_eq_take]

end Cutting

/-- The functions are exact and agree where all characters are delimiters. -/
theorem trims_iff (str delimit : Text) :
    TrimsExactly str delimit ↔ ∀ c ∈ str, c ∈ delimit := by
  constructor
  · intro exact
    rcases cut_or_all str delimit with all | ⟨left, core, right, cut⟩
    · exact all
    · rcases exact.right with ⟨removed, whole, others, _⟩
      rcases List.eq_nil_or_concat core with empty | ⟨core, c, rfl⟩
      · exact absurd empty cut.kept.nonempty
      · -- the last kept character would be among the removed ones
        rw [cut.trimRight] at whole
        have same : left ++ core ++ (c :: right) = left ++ core ++ removed := by
          rw [cut.whole] at whole
          simpa using whole
        have mem : c ∈ removed := List.append_cancel_left same ▸ List.mem_cons_self
        exact absurd (others c mem) (cut.kept.last c (by simp))
  · intro all
    have none : ∀ c ∈ ([] : Text), c ∈ delimit := fun c mem => absurd mem List.not_mem_nil
    have trimmed := trim_of_all all
    have left := trimLeft_of_all all
    have right := trimRight_of_all all
    constructor
    · exact ⟨str, by rw [left, List.append_nil], all, by simp [left]⟩
    · exact ⟨str, by rw [right, List.nil_append], all, by simp [right]⟩
    · rw [trimmed, right, trimLeft_of_all none]
    · rw [trimmed, left, trimRight_of_all none]
    · rw [trimmed, trim_of_all none]
    · rw [left, trimLeft_of_all none]
    · rw [right, trimRight_of_all none]

/-- A string without delimiters loses its last character. -/
theorem trimRight_shortens :
    trimRight ['a', 'b'] [' '] = ['a'] ∧ ¬ TrimsExactly ['a', 'b'] [' '] := by
  refine ⟨rfl, fun exact => ?_⟩
  have same : ['a', 'b'] = trimLeft ['a'] [' '] := exact.right_left
  exact absurd same (by decide)

end Ztyco.StringUtil
