import Mathlib.Algebra.Ring.Nat
import Mathlib.Data.UInt

/-!
UnixAddress of address.cc: its constructor from a path, `getPath` and `insert`.
A path is a byte string, which may hold NUL bytes; `sun_path` has 108 bytes. The
length is a `socklen_t` of 32 bits and the size of a path is not.
-/

namespace Ztyco.Addresses

abbrev Bytes := List UInt8

abbrev SunPath := { bytes : Bytes // bytes.length = 108 }

structure UnixAddress where
  sun_path : SunPath
  m_len : UInt32

/-- The constructor throws, writes outside `sun_path`, or is done. -/
inductive Constructed where
  | threw
  | outside
  | made (address : UnixAddress)

def SunPath.zeros : SunPath := ⟨List.replicate 108 0, List.length_replicate⟩

def SunPath.memcpy (dest : SunPath) (src : Bytes) (n : Nat) : Option SunPath :=
  if inside : n ≤ 108 ∧ n ≤ src.length then some
    ⟨src.take n ++ dest.val.drop n, by
      rw [List.length_append, List.length_take_of_le inside.2, List.length_drop, dest.property]
      omega⟩
  else none

namespace UnixAddress

def offset : UInt32 := 2

def constructed (path : Bytes) : Constructed :=
  let m_len := UInt32.ofNat (path.length + 1)
  let m_len := if path.head? = some 0 then m_len - 1 else m_len
  if m_len.toNat > 108 then .threw
  else
    -- `path.c_str()` has a terminator
    match SunPath.zeros.memcpy (path ++ [0]) m_len.toNat with
    | some sun_path => .made { sun_path := sun_path, m_len := m_len + offset }
    | none => .outside

def cString (bytes : Bytes) : Option Bytes :=
  if 0 ∈ bytes then some (bytes.takeWhile (· ≠ 0)) else none

def abstractMark : Bytes := [92, 48]

def getPath (address : UnixAddress) : Option Bytes :=
  if address.m_len > offset ∧ address.sun_path.val.head? = some 0 then
    let n := address.m_len.toNat - offset.toNat - 1
    if n ≤ 107 then some (abstractMark ++ (address.sun_path.val.drop 1).take n) else none
  else cString address.sun_path.val

def insert (address : UnixAddress) : Option Bytes :=
  if address.m_len > offset ∧ address.sun_path.val.head? = some 0 then
    let n := address.m_len.toNat - offset.toNat - 1
    if n ≤ 107 then some (abstractMark ++ (address.sun_path.val.drop 1).take n) else none
  else cString address.sun_path.val

end UnixAddress

open UnixAddress (constructed getPath abstractMark)

def needed (path : Bytes) : Nat :=
  if path.head? = some 0 then path.length else path.length + 1

/-- The constructor throws exactly where the path does not fit, else it stays
within `sun_path` and the path comes back: as it is where it has no NUL byte, and
with its first one spelt out where it begins with one. -/
def KeepsPath (path : Bytes) : Prop :=
  (constructed path = .threw ↔ 108 < needed path) ∧
    (constructed path ≠ .threw → ∃ address, constructed path = .made address ∧
      (0 ∉ path → address.getPath = some path) ∧
      ∀ rest, path = 0 :: rest → address.getPath = some (abstractMark ++ rest))

/-! What is constructed. -/

theorem insert_eq_getPath (address : UnixAddress) : address.insert = address.getPath := rfl

/-- The length is kept in 32 bits. -/
theorem stored_length (path : Bytes) :
    (if path.head? = some 0 then UInt32.ofNat (path.length + 1) - 1
      else UInt32.ofNat (path.length + 1)).toNat = needed path % 4294967296 := by
  unfold needed
  split
  · have same : UInt32.ofNat (path.length + 1) - 1 = UInt32.ofNat path.length := by
      rw [UInt32.ofNat_add]
      exact UInt32.add_sub_cancel _ _
    rw [same]
    exact UInt32.toNat_ofNat'
  · exact UInt32.toNat_ofNat'

theorem constructed_long {path : Bytes} (long : 108 < needed path % 4294967296) :
    constructed path = .threw := by
  unfold constructed
  dsimp only
  rw [stored_length, if_pos long]

/-- It stays within `sun_path`, and within the path and its terminator. -/
theorem constructed_short {path : Bytes} (short : needed path % 4294967296 ≤ 108) :
    ∃ address, constructed path = .made address ∧
      address.sun_path.val = (path ++ [0]).take (needed path % 4294967296) ++
        SunPath.zeros.val.drop (needed path % 4294967296) ∧
      address.m_len.toNat = needed path % 4294967296 + 2 := by
  have stored := stored_length path
  have within : needed path % 4294967296 ≤ (path ++ [0]).length := by
    refine Nat.le_trans (Nat.mod_le _ _) ?_
    rw [List.length_append, List.length_singleton]
    unfold needed
    split
    · exact Nat.le_succ _
    · exact Nat.le_refl _
  unfold constructed SunPath.memcpy
  dsimp only
  rw [stored, if_neg (Nat.not_lt.mpr short), dif_pos ⟨short, within⟩]
  refine ⟨_, rfl, rfl, ?_⟩
  rw [UInt32.toNat_add, stored]
  have two : UnixAddress.offset.toNat = 2 := rfl
  rw [two]
  omega

theorem copied_path {path : Bytes} (fits : needed path ≤ 108) :
    (path ++ [0]).take (needed path) ++ SunPath.zeros.val.drop (needed path) =
      path ++ List.replicate (108 - path.length) 0 := by
  unfold needed SunPath.zeros at *
  split at fits
  · rename_i first
    rw [if_pos first, List.take_left, List.drop_replicate]
  · rename_i first
    have terminator : List.replicate (108 - path.length) (0 : UInt8) =
        0 :: List.replicate (108 - (path.length + 1)) 0 := by
      rw [← List.replicate_succ]
      congr 1
      omega
    have whole : (path ++ [0]).take (path.length + 1) = path ++ [0] :=
      List.take_of_length_le (by simp)
    rw [if_neg first, whole, terminator, List.drop_replicate, List.append_assoc]
    rfl

theorem constructed_fits {path : Bytes} (fits : needed path ≤ 108) :
    ∃ address, constructed path = .made address ∧
      address.sun_path.val = path ++ List.replicate (108 - path.length) 0 ∧
      address.m_len.toNat = needed path + 2 := by
  have small : needed path % 4294967296 = needed path := Nat.mod_eq_of_lt (by omega)
  have short : needed path % 4294967296 ≤ 108 := by rwa [small]
  rcases constructed_short short with ⟨address, made, bytes, length⟩
  rw [small] at bytes length
  exact ⟨address, made, bytes.trans (copied_path fits), length⟩

/-! What is read back. -/

/-- Something that begins with a NUL byte is read up to the stored length. -/
theorem getPath_nul {path : Bytes} {address : UnixAddress}
    (length : address.m_len.toNat = needed path + 2) (fits : needed path ≤ 108)
    (first : address.sun_path.val.head? = some 0) (positive : 0 < needed path) :
    address.getPath =
      some (abstractMark ++ (address.sun_path.val.drop 1).take (needed path - 1)) := by
  have two : UnixAddress.offset.toNat = 2 := rfl
  have above : address.m_len > UnixAddress.offset := by
    rw [gt_iff_lt, UInt32.lt_iff_toNat_lt, length, two]
    omega
  have n : address.m_len.toNat - UnixAddress.offset.toNat - 1 = needed path - 1 := by
    rw [length, two, Nat.add_sub_cancel]
  have inside : needed path - 1 ≤ 107 := by omega
  simp only [getPath, if_pos (And.intro above first), n, if_pos inside]

section Paths
variable {path : Bytes} {address : UnixAddress}
  (bytes : address.sun_path.val = path ++ List.replicate (108 - path.length) 0)
  (length : address.m_len.toNat = needed path + 2) (fits : needed path ≤ 108)
include bytes length fits

/-- The empty path is taken for one that begins with a NUL byte. -/
theorem getPath_empty (empty : path = []) : address.getPath = some abstractMark := by
  subst empty
  have first : address.sun_path.val.head? = some 0 := by
    rw [bytes]
    rfl
  rw [getPath_nul length fits first (by decide)]
  rfl

theorem getPath_abstract {rest : Bytes} (nul : path = 0 :: rest) :
    address.getPath = some (abstractMark ++ rest) := by
  subst nul
  have first : address.sun_path.val.head? = some 0 := by
    rw [bytes]
    rfl
  have size : needed (0 :: rest) = rest.length + 1 := rfl
  rw [getPath_nul length fits first (by omega), bytes, size]
  simp

theorem getPath_plain (plain : 0 ∉ path) (nonempty : path ≠ []) :
    address.getPath = some path := by
  obtain ⟨c, rest, rfl⟩ := List.exists_cons_of_ne_nil nonempty
  have other : c ≠ 0 := fun same => plain (same ▸ List.mem_cons_self)
  have first : ¬ address.sun_path.val.head? = some 0 := by
    rw [bytes]
    simpa using other
  have room : 0 < 108 - (c :: rest).length := by
    have size : needed (c :: rest) = (c :: rest).length + 1 := if_neg (by simpa using other)
    omega
  have ends : (0 : UInt8) ∈ address.sun_path.val := by
    rw [bytes]
    exact List.mem_append_right _ (List.mem_replicate.mpr ⟨Nat.ne_of_gt room, rfl⟩)
  have all : ∀ b ∈ c :: rest, decide (b ≠ 0) = true := fun b mem =>
    decide_eq_true fun zero => plain (zero ▸ mem)
  rw [getPath, if_neg fun both => first both.2, UnixAddress.cString, if_pos ends, bytes,
    List.takeWhile_append_of_pos all]
  obtain ⟨zeros, more⟩ := Nat.exists_eq_succ_of_ne_zero (Nat.ne_of_gt room)
  rw [more, List.replicate_succ]
  simp

end Paths

/-- A path is kept where it is not empty and its size is not lost in 32 bits. -/
theorem keeps_path_iff (path : Bytes) :
    KeepsPath path ↔
      path ≠ [] ∧ (needed path < 4294967296 ∨ 108 < needed path % 4294967296) := by
  constructor
  · rintro ⟨throws, keeps⟩
    constructor
    · intro empty
      have fits : needed path ≤ 108 := by
        rw [empty]
        decide
      rcases constructed_fits fits with ⟨address, made, bytes, length⟩
      rcases keeps (by simp [made]) with ⟨address', made', plain, _⟩
      obtain rfl : address' = address := by
        rw [made] at made'
        cases made'
        rfl
      have read := plain (by simp [empty])
      rw [getPath_empty bytes length fits empty, empty] at read
      cases read
    · by_contra lost
      rw [not_or, Nat.not_lt, Nat.not_lt] at lost
      rcases constructed_short lost.2 with ⟨address, made, _⟩
      have threw := throws.mpr (by omega)
      rw [made] at threw
      cases threw
  · rintro ⟨nonempty, kept⟩
    by_cases fits : needed path ≤ 108
    · rcases constructed_fits fits with ⟨address, made, bytes, length⟩
      refine ⟨iff_of_false (by simp [made]) (Nat.not_lt.mpr fits), fun _ => ?_⟩
      refine ⟨address, made, fun plain => ?_, fun rest nul => ?_⟩
      · exact getPath_plain bytes length fits plain nonempty
      · exact getPath_abstract bytes length fits nul
    · have long : 108 < needed path % 4294967296 := by
        rcases kept with small | long
        · rw [Nat.mod_eq_of_lt small]
          exact Nat.not_le.mp fits
        · exact long
      have threw := constructed_long long
      exact ⟨iff_of_true threw (Nat.not_le.mp fits), fun other => absurd threw other⟩

theorem empty_path_changes :
    (∃ address, constructed [] = .made address ∧ address.getPath = some [92, 48]) ∧
      ¬ KeepsPath [] := by
  have fits : needed [] ≤ 108 := by decide
  rcases constructed_fits fits with ⟨address, made, bytes, length⟩
  have read := getPath_empty bytes length fits rfl
  refine ⟨⟨address, made, read⟩, ?_⟩
  rintro ⟨_, keeps⟩
  rcases keeps (by simp [made]) with ⟨address', made', plain, _⟩
  rw [made] at made'
  cases made'
  rw [plain List.not_mem_nil] at read
  cases read

end Ztyco.Addresses
