import Mathlib.Logic.Function.Basic

/-!
Parents that lend what they have to those of their children that have nothing of
their own. What a child uses is one field, whether it is borrowed or its own, and
a parent lends once, when the child is attached: a child that has borrowed is
told apart from one that has chosen in the specification only. `Allows` is the
exact condition under which a change keeps the rule of inheritance.
-/

namespace Ztyco

universe u v w
variable {Parent : Type u} {Child : Type v} {Format : Type w}

structure Lending (Parent : Type u) (Child : Type v) (Format : Type w) where
  current : Parent → Option Format
  children : Parent → List Child
  effective : Child → Option Format
  chosen : Child → Option Format

inductive Change (Parent : Type u) (Child : Type v) (Format : Type w) where
  | adopt (parent : Parent) (format : Format)
  | attach (parent : Parent) (child : Child)
  | keep (parent : Parent) (rest : List Child)
  | choose (child : Child) (format : Format)

namespace Lending
variable [DecidableEq Parent] [DecidableEq Child]

/-- A parent lends once, when a child without a format is attached. -/
def apply (s : Lending Parent Child Format) :
    Change Parent Child Format → Lending Parent Child Format
  | .adopt parent format => { s with current := Function.update s.current parent (some format) }
  | .attach parent child => { s with
      children := Function.update s.children parent (s.children parent ++ [child])
      effective := Function.update s.effective child ((s.effective child).or (s.current parent)) }
  | .keep parent rest => { s with children := Function.update s.children parent rest }
  | .choose child format => { s with
      effective := Function.update s.effective child (some format)
      chosen := Function.update s.chosen child (some format) }

/-- A child uses its own format, or else its parent's current one. -/
def Inherits (s : Lending Parent Child Format) : Prop :=
  ∀ parent, ∀ child ∈ s.children parent, s.effective child ≠ none ∧
    s.effective child = (s.chosen child).or (s.current parent)

def Honest (s : Lending Parent Child Format) : Prop :=
  ∀ child format, s.chosen child = some format → s.effective child = some format

def Proper (s : Lending Parent Child Format) : Change Parent Child Format → Prop
  | .attach parent _ => s.current parent ≠ none
  | .keep parent rest => ∀ child ∈ rest, child ∈ s.children parent
  | _ => True

/-- The changes that do not rely on what the parent hands down later. -/
def Allows (s : Lending Parent Child Format) : Change Parent Child Format → Prop
  | .adopt parent format =>
      ∀ child ∈ s.children parent, s.chosen child ≠ none ∨ s.current parent = some format
  | .attach parent child =>
      s.chosen child ≠ none ∨ s.effective child = none ∨ s.effective child = s.current parent
  | _ => True

variable {s : Lending Parent Child Format}

theorem adopt_inherits (inherits : s.Inherits) (parent : Parent) (format : Format) :
    (s.apply (.adopt parent format)).Inherits ↔ s.Allows (.adopt parent format) := by
  constructor
  · intro after child listed
    cases own : s.chosen child with
    | some other => exact Or.inl (Option.some_ne_none other)
    | none =>
        right
        have before := (inherits parent child listed).2
        have now : s.effective child = (s.chosen child).or
            (Function.update s.current parent (some format) parent) :=
          (after parent child listed).2
        rw [own, Option.none_or] at before
        rw [own, Option.none_or, Function.update_self] at now
        exact before.symm.trans now
  · intro allowed other child listed
    refine ⟨(inherits other child listed).1, ?_⟩
    have before := (inherits other child listed).2
    change s.effective child = (s.chosen child).or
      (Function.update s.current parent (some format) other)
    by_cases same : other = parent
    · subst same
      rw [Function.update_self]
      rcases allowed child listed with own | already
      · obtain ⟨mine, found⟩ := Option.ne_none_iff_exists'.mp own
        rw [before, found, Option.some_or, Option.some_or]
      · rw [← already]
        exact before
    · rw [Function.update_of_ne same]
      exact before

theorem attach_others (inherits : s.Inherits) (parent : Parent) {other : Parent}
    {child added : Child} (listed : child ∈ s.children other) :
    (s.apply (.attach parent added)).effective child = s.effective child := by
  change Function.update s.effective added ((s.effective added).or (s.current parent)) child = _
  by_cases same : child = added
  · subst same
    obtain ⟨format, found⟩ := Option.ne_none_iff_exists'.mp (inherits other child listed).1
    rw [Function.update_self, found, Option.some_or]
  · exact Function.update_of_ne same _ _

theorem attach_inherits (inherits : s.Inherits) (honest : s.Honest) {parent : Parent}
    (supplied : s.current parent ≠ none) (added : Child) :
    (s.apply (.attach parent added)).Inherits ↔ s.Allows (.attach parent added) := by
  have lent : (s.apply (.attach parent added)).effective added =
      (s.effective added).or (s.current parent) := Function.update_self _ _ _
  have mine : added ∈ (s.apply (.attach parent added)).children parent := by
    simp [apply]
  constructor
  · intro after
    have now : (s.apply (.attach parent added)).effective added =
        (s.chosen added).or (s.current parent) := (after parent added mine).2
    rw [lent] at now
    cases own : s.chosen added with
    | some format => exact Or.inl (Option.ne_none_iff_exists'.mpr ⟨format, own⟩)
    | none =>
        right
        cases found : s.effective added with
        | none => exact Or.inl rfl
        | some format =>
            right
            rwa [own, found, Option.some_or, Option.none_or] at now
  · intro allowed other child listed
    have before : child ∈ s.children other ∨ other = parent ∧ child = added := by
      by_cases same : other = parent
      · subst same
        have split : child ∈ s.children other ++ [added] := by simpa [apply] using listed
        rcases List.mem_append.mp split with old | new
        · exact Or.inl old
        · exact Or.inr ⟨rfl, List.mem_singleton.mp new⟩
      · left
        simpa [apply, same] using listed
    rcases before with old | ⟨rfl, rfl⟩
    · rw [attach_others inherits parent old]
      exact inherits other child old
    · rw [lent]
      change _ ∧ _ = (s.chosen child).or (s.current other)
      constructor
      · simp [Option.or_eq_none_iff, supplied]
      · rcases allowed with own | bare | already
        · obtain ⟨format, found⟩ := Option.ne_none_iff_exists'.mp own
          rw [honest child format found, found, Option.some_or]
        · cases own : s.chosen child with
          | none => rw [bare]
          | some format =>
              rw [honest child format own] at bare
              cases bare
        · cases own : s.chosen child with
          | none => simp [already]
          | some format => rw [honest child format own, Option.some_or]

theorem keep_inherits (inherits : s.Inherits) {parent : Parent} {rest : List Child}
    (old : ∀ child ∈ rest, child ∈ s.children parent) : (s.apply (.keep parent rest)).Inherits := by
  intro other child listed
  apply inherits other child
  by_cases same : other = parent
  · subst same
    apply old
    simpa [apply] using listed
  · simpa [apply, same] using listed

theorem choose_inherits (inherits : s.Inherits) (child : Child) (format : Format) :
    (s.apply (.choose child format)).Inherits := by
  intro parent other listed
  by_cases same : other = child
  · subst same
    simp [apply]
  · simpa [apply, same] using inherits parent other listed

/-- A change keeps the rule just where it does not need anything handed down. -/
theorem apply_inherits (inherits : s.Inherits) (honest : s.Honest)
    {change : Change Parent Child Format} (proper : s.Proper change) :
    (s.apply change).Inherits ↔ s.Allows change := by
  cases change with
  | adopt parent format => exact adopt_inherits inherits parent format
  | attach parent child => exact attach_inherits inherits honest proper child
  | keep parent rest => exact iff_of_true (keep_inherits inherits proper) trivial
  | choose child format => exact iff_of_true (choose_inherits inherits child format) trivial

end Lending

end Ztyco
