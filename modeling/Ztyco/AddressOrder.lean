import Mathlib.Algebra.Order.Ring.Int
import Mathlib.Data.UInt

/-!
`operator<`, `operator==` and `operator!=` of Address, which compare what
`getAddr` points to up to `getAddrLen`. The order is that of the byte strings.
-/

namespace Ztyco.Addresses

/-- `sockaddr` is what `getAddr` points to, and `addrLen` what `getAddrLen`
returns. -/
structure Address where
  sockaddr : List UInt8
  addrLen : Nat
  within : addrLen ≤ sockaddr.length

/-- The difference of the first two bytes that differ among the first `n`. -/
def memcmp : Nat → List UInt8 → List UInt8 → Int
  | n + 1, x :: xs, y :: ys => if x = y then memcmp n xs ys else (x.toNat : Int) - y.toNat
  | _, _, _ => 0

namespace Address

def less (addr rhs : Address) : Bool :=
  let minlen := min addr.addrLen rhs.addrLen
  let result := memcmp minlen addr.sockaddr rhs.sockaddr
  if result < 0 then true
  else if result > 0 then false
  else if addr.addrLen < rhs.addrLen then true
  else false

def equals (addr rhs : Address) : Bool :=
  addr.addrLen = rhs.addrLen && memcmp addr.addrLen addr.sockaddr rhs.sockaddr = 0

def differs (addr rhs : Address) : Bool := !addr.equals rhs

def bytes (addr : Address) : List UInt8 := addr.sockaddr.take addr.addrLen

end Address

def ExactlyOne (first second third : Prop) : Prop :=
  first ∧ ¬ second ∧ ¬ third ∨ ¬ first ∧ second ∧ ¬ third ∨
    ¬ first ∧ ¬ second ∧ third

/-! Comparing byte strings. -/

theorem memcmp_take {n left right : Nat} (xs ys : List UInt8) (below : n ≤ left)
    (below' : n ≤ right) : memcmp n (xs.take left) (ys.take right) = memcmp n xs ys := by
  induction n generalizing left right xs ys with
  | zero => simp [memcmp]
  | succ n ih =>
      obtain ⟨left, rfl⟩ :=
        Nat.exists_eq_add_of_le' (Nat.le_trans (Nat.le_add_left 1 n) below)
      obtain ⟨right, rfl⟩ :=
        Nat.exists_eq_add_of_le' (Nat.le_trans (Nat.le_add_left 1 n) below')
      cases xs with
      | nil => simp [memcmp]
      | cons x xs =>
          cases ys with
          | nil => simp [memcmp]
          | cons y ys =>
              simp only [List.take_succ_cons, memcmp]
              rw [ih xs ys (by omega) (by omega)]

theorem difference_neg (x y : UInt8) : (x.toNat : Int) - y.toNat < 0 ↔ x < y := by
  rw [UInt8.lt_iff_toNat_lt]
  omega

theorem difference_ne_zero {x y : UInt8} (other : x ≠ y) : (x.toNat : Int) - y.toNat ≠ 0 := by
  intro zero
  exact other (UInt8.toNat_inj.mp (by omega))

theorem memcmp_eq_zero {xs ys : List UInt8} (size : xs.length = ys.length) :
    memcmp xs.length xs ys = 0 ↔ xs = ys := by
  induction xs generalizing ys with
  | nil =>
      have empty : ys = [] := List.length_eq_zero_iff.mp size.symm
      simp [memcmp, empty]
  | cons x xs ih =>
      cases ys with
      | nil => cases size
      | cons y ys =>
          simp only [List.length_cons, memcmp]
          by_cases same : x = y
          · subst same
            rw [if_pos rfl, ih (Nat.succ.inj size)]
            simp
          · rw [if_neg same]
            simp [difference_ne_zero same, same]

theorem memcmp_lt (xs ys : List UInt8) :
    (memcmp (min xs.length ys.length) xs ys < 0 ∨
      memcmp (min xs.length ys.length) xs ys = 0 ∧ xs.length < ys.length) ↔ xs < ys := by
  induction xs generalizing ys with
  | nil =>
      cases ys with
      | nil => simp [memcmp]
      | cons y ys => simp [memcmp]
  | cons x xs ih =>
      cases ys with
      | nil => simp [memcmp]
      | cons y ys =>
          rw [List.cons_lt_cons_iff, ← ih ys]
          simp only [List.length_cons, Nat.add_min_add_right, memcmp, Nat.add_lt_add_iff_right]
          by_cases same : x = y
          · subst same
            simp
          · rw [if_neg same]
            simp only [difference_neg, difference_ne_zero same, same, false_and, or_false]

/-! The order of addresses. -/

theorem length_bytes (addr : Address) : addr.bytes.length = addr.addrLen :=
  List.length_take_of_le addr.within

theorem less_iff (addr rhs : Address) : addr.less rhs = true ↔ addr.bytes < rhs.bytes := by
  have compared : memcmp (min addr.addrLen rhs.addrLen) addr.bytes rhs.bytes =
      memcmp (min addr.addrLen rhs.addrLen) addr.sockaddr rhs.sockaddr :=
    memcmp_take _ _ (Nat.min_le_left _ _) (Nat.min_le_right _ _)
  have order := memcmp_lt addr.bytes rhs.bytes
  rw [length_bytes, length_bytes, compared] at order
  rw [← order]
  unfold Address.less
  dsimp only
  split
  · rename_i below
    simp [below]
  · rename_i notBelow
    split
    · rename_i above
      have nonzero := Int.ne_of_gt above
      simp [notBelow, nonzero]
    · rename_i notAbove
      have zero := Int.le_antisymm (Int.not_lt.mp notAbove) (Int.not_lt.mp notBelow)
      simp [zero]

theorem equals_iff (addr rhs : Address) : addr.equals rhs = true ↔ addr.bytes = rhs.bytes := by
  rw [Address.equals, Bool.and_eq_true, decide_eq_true_eq, decide_eq_true_eq]
  by_cases size : addr.addrLen = rhs.addrLen
  · have sizes : addr.bytes.length = rhs.bytes.length := by
      rw [length_bytes, length_bytes, size]
    have compared : memcmp addr.bytes.length addr.bytes rhs.bytes =
        memcmp addr.addrLen addr.sockaddr rhs.sockaddr := by
      rw [length_bytes]
      exact memcmp_take _ _ (Nat.le_refl _) (Nat.le_of_eq size)
    rw [← compared, memcmp_eq_zero sizes]
    simp [size]
  · have different : addr.bytes ≠ rhs.bytes := by
      intro same
      have sizes := congrArg List.length same
      rw [length_bytes, length_bytes] at sizes
      exact size sizes
    simp [size, different]

theorem differs_iff (addr rhs : Address) :
    addr.differs rhs = true ↔ addr.bytes ≠ rhs.bytes := by
  rw [Address.differs, Bool.not_eq_true', ne_eq, ← equals_iff, Bool.not_eq_true]

theorem exactlyOne_bytes (xs ys : List UInt8) : ExactlyOne (xs < ys) (ys < xs) (xs = ys) := by
  have irreflexive : ¬ xs < xs := List.lt_irrefl xs
  rcases Std.lt_trichotomy xs ys with below | same | above
  · refine Or.inl ⟨below, List.lt_asymm below, ?_⟩
    rintro rfl
    exact irreflexive below
  · subst same
    exact Or.inr (Or.inr ⟨irreflexive, irreflexive, rfl⟩)
  · refine Or.inr (Or.inl ⟨List.lt_asymm above, above, ?_⟩)
    rintro rfl
    exact irreflexive above

/-- The operators order addresses strictly and totally, as their byte strings
are ordered. -/
theorem address_order (a b c : Address) :
    ExactlyOne (a.less b = true) (b.less a = true) (a.equals b = true) ∧
      (a.less b = true → b.less c = true → a.less c = true) ∧
      (a.less b = true ↔ a.bytes < b.bytes) ∧ (a.differs b = true ↔ a.bytes ≠ b.bytes) := by
  refine ⟨?_, ?_, less_iff a b, differs_iff a b⟩
  · rw [less_iff, less_iff, equals_iff]
    exact exactlyOne_bytes a.bytes b.bytes
  · rw [less_iff, less_iff, less_iff]
    exact List.lt_trans

end Ztyco.Addresses
