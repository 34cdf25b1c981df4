import Ztyco.IpPrefixes

/-!
`broadcastAddress`, `networkAddress` and `subnetMask` of IPv4Address in address.cc,
on a little-endian machine, and the lengths that they and their counterparts of
IPv6Address refuse. A pointer is `none` when it is null; a shift or an access
outside its range has no result.
-/

namespace Ztyco.IpAddresses

/-- The fields in network order are what the machine reads of their bytes. -/
structure SockAddrIn where
  sin_family : UInt16
  sin_port : BitVec 16
  s_addr : BitVec 32
  sin_zero : BitVec 64

def AF_INET : UInt16 := 2

/-- What the difference of two ints comes to when it is out of range. -/
inductive Overflow where
  | wraps | undefined
  deriving DecidableEq, Repr

namespace IPv4Address

def byteswapOnLittleEndian (value : BitVec 32) : BitVec 32 :=
  value.extractLsb' 0 8 ++ value.extractLsb' 8 8 ++ value.extractLsb' 16 8 ++
    value.extractLsb' 24 8

/-- `CreateMask<uint32_t>`, which takes 1 from the least int when it shifts by 31. -/
def createMask (overflow : Overflow) (bits : UInt32) : Option (BitVec 32) :=
  let shift := (BitVec.ofNat 64 32 - BitVec.ofNat 64 bits.toNat).toNat
  if overflow = .undefined ∧ (1#32 <<< shift).ssubOverflow 1#32 then none
  else IpAddresses.createMask 32 bits.toNat

def broadcastAddress (overflow : Overflow) (addr : SockAddrIn) (prefix_len : UInt32) :
    Option (Option SockAddrIn) :=
  if prefix_len > 32 then some none else
  (createMask overflow prefix_len).map fun mask =>
    some { addr with s_addr := addr.s_addr ||| byteswapOnLittleEndian mask }

def networkAddress (overflow : Overflow) (addr : SockAddrIn) (prefix_len : UInt32) :
    Option (Option SockAddrIn) :=
  if prefix_len > 32 then some none else
  (createMask overflow prefix_len).map fun mask =>
    some { addr with s_addr := addr.s_addr &&& byteswapOnLittleEndian (~~~mask) }

/-- The length is not checked. -/
def subnetMask (overflow : Overflow) (prefix_len : UInt32) : Option (Option SockAddrIn) :=
  (createMask overflow prefix_len).map fun mask =>
    some {
      sin_family := AF_INET
      sin_port := 0
      s_addr := ~~~byteswapOnLittleEndian mask
      sin_zero := 0 }

def bit (s_addr : BitVec 32) (k : Fin 32) : Bool :=
  (s_addr.extractLsb' (8 * (k / 8)) 8).getMsbD (k % 8)

def IsMask (prefix_len : UInt32) (mask : BitVec 32) : Prop :=
  ∀ k : Fin 32, bit mask k = decide (k.val < prefix_len.toNat)

theorem getLsbD_byteswap (value : BitVec 32) {i : Nat} (inside : i < 32) :
    (byteswapOnLittleEndian value).getLsbD i = value.getLsbD (8 * (3 - i / 8) + i % 8) := by
  unfold byteswapOnLittleEndian
  simp only [BitVec.getLsbD_append, BitVec.getLsbD_extractLsb']
  -- one case for each byte
  repeat' split
  all_goals
    rw [decide_eq_true (by omega), Bool.true_and]
    exact congrArg value.getLsbD (by omega)

theorem bit_eq (s_addr : BitVec 32) (k : Fin 32) :
    bit s_addr k = s_addr.getLsbD (8 * (k / 8) + (7 - k % 8)) := by
  rw [bit, BitVec.getMsbD_eq_getLsbD, BitVec.getLsbD_extractLsb', decide_eq_true (by omega),
    decide_eq_true (by omega), Bool.true_and, Bool.true_and]

theorem bit_byteswap (value : BitVec 32) (k : Fin 32) :
    bit (byteswapOnLittleEndian value) k = value.getMsbD k := by
  rw [bit_eq, getLsbD_byteswap value (by omega), BitVec.getMsbD_eq_getLsbD,
    decide_eq_true k.isLt, Bool.true_and]
  exact congrArg value.getLsbD (by omega)

theorem byteswap_not (value : BitVec 32) :
    byteswapOnLittleEndian (~~~value) = ~~~byteswapOnLittleEndian value := by
  refine BitVec.eq_of_getLsbD_eq fun i inside => ?_
  rw [getLsbD_byteswap _ inside, BitVec.getLsbD_not, BitVec.getLsbD_not,
    getLsbD_byteswap _ inside, decide_eq_true inside, decide_eq_true (by omega)]

/-! When the mask is defined. -/

theorem overflow_iff {shift : Nat} (below : shift < 32) :
    (1#32 <<< shift).ssubOverflow 1#32 = true ↔ shift = 31 := by
  have all : ∀ i : Fin 32, (1#32 <<< i.val).ssubOverflow 1#32 = decide (i.val = 31) := by decide
  rw [all ⟨shift, below⟩, decide_eq_true_iff]

/-- The lengths with a mask: the shift is by less than 32, and by 31 for the length 1. -/
def Defined (overflow : Overflow) (prefix_len : UInt32) : Prop :=
  0 < prefix_len.toNat ∧ prefix_len.toNat ≤ 32 ∧ ¬ (overflow = .undefined ∧ prefix_len.toNat = 1)

theorem shift_eq {prefix_len : UInt32} (within : prefix_len.toNat ≤ 32) :
    (BitVec.ofNat 64 32 - BitVec.ofNat 64 prefix_len.toNat).toNat = 32 - prefix_len.toNat := by
  rw [BitVec.toNat_sub, BitVec.toNat_ofNat, BitVec.toNat_ofNat]
  omega

theorem shift_wide {prefix_len : UInt32}
    (outside : prefix_len.toNat = 0 ∨ 32 < prefix_len.toNat) :
    32 ≤ (BitVec.ofNat 64 32 - BitVec.ofNat 64 prefix_len.toNat).toNat := by
  have bounded := prefix_len.toNat_lt
  rw [BitVec.toNat_sub, BitVec.toNat_ofNat, BitVec.toNat_ofNat]
  omega

theorem createMask_defined {overflow : Overflow} {prefix_len : UInt32}
    (defined : Defined overflow prefix_len) :
    ∃ mask, createMask overflow prefix_len = some mask ∧
      IsMask prefix_len (~~~byteswapOnLittleEndian mask) := by
  rcases defined with ⟨positive, within, fits⟩
  obtain ⟨mask, made, bits⟩ := createMask_spec within (by omega) (Nat.le_refl 32)
  refine ⟨mask, ?_, ?_⟩
  · simp only [createMask, shift_eq within]
    rw [if_neg, made]
    rintro ⟨undefined, least⟩
    have shift := (overflow_iff (by omega)).mp least
    exact fits ⟨undefined, by omega⟩
  · intro k
    rw [← byteswap_not, bit_byteswap, BitVec.getMsbD_not, bits, decide_eq_true k.isLt,
      Bool.and_true, Bool.true_and, ← decide_not]
    exact decide_eq_decide.mpr Nat.not_le

theorem createMask_undefined {overflow : Overflow} {prefix_len : UInt32}
    (undefined : ¬ Defined overflow prefix_len) : createMask overflow prefix_len = none := by
  by_cases inside : 0 < prefix_len.toNat ∧ prefix_len.toNat ≤ 32
  · have least : overflow = .undefined ∧ prefix_len.toNat = 1 := by
      by_contra fits
      exact undefined ⟨inside.1, inside.2, fits⟩
    simp only [createMask, shift_eq inside.2]
    rw [if_pos]
    exact ⟨least.1, (overflow_iff (by omega)).mpr (by omega)⟩
  · have wide := @shift_wide prefix_len (by omega)
    unfold createMask IpAddresses.createMask
    dsimp only
    rw [if_neg (Nat.not_lt.mpr wide), ite_self]

end IPv4Address

/-! The three functions of both classes. -/

inductive Derived where
  | broadcastAddress | networkAddress | subnetMask
  deriving DecidableEq, Repr

def IPv4Address.derive (overflow : Overflow) (addr : SockAddrIn) (prefix_len : UInt32) :
    Derived → Option (Option SockAddrIn)
  | .broadcastAddress => broadcastAddress overflow addr prefix_len
  | .networkAddress => networkAddress overflow addr prefix_len
  | .subnetMask => subnetMask overflow prefix_len

/-- No function of IPv6Address returns null. -/
def IPv6Address.derive (addr : SockAddrIn6) (prefix_len : UInt32) :
    Derived → Option (Option SockAddrIn6)
  | .broadcastAddress => (broadcastAddress addr prefix_len).map some
  | .networkAddress => (networkAddress addr prefix_len).map some
  | .subnetMask => (subnetMask prefix_len).map some

def IPv4Address.meant (addr : SockAddrIn) (mask : BitVec 32) : Derived → SockAddrIn
  | .broadcastAddress => { addr with s_addr := addr.s_addr ||| ~~~mask }
  | .networkAddress => { addr with s_addr := addr.s_addr &&& mask }
  | .subnetMask => { sin_family := AF_INET, sin_port := 0, s_addr := mask, sin_zero := 0 }

def IPv4Address.Guards (overflow : Overflow) (addr : SockAddrIn) (prefix_len : UInt32)
    (function : Derived) : Prop :=
  if prefix_len > 32 then derive overflow addr prefix_len function = some none
  else ∃ mask, IsMask prefix_len mask ∧
    derive overflow addr prefix_len function = some (some (meant addr mask function))

def IPv6Address.Guards (addr : SockAddrIn6) (prefix_len : UInt32) (function : Derived) : Prop :=
  if prefix_len > 128 then derive addr prefix_len function = some none
  else (derive addr prefix_len function).isSome

namespace IPv4Address
variable {overflow : Overflow} {prefix_len : UInt32}

theorem within_iff : ¬ prefix_len > 32 ↔ prefix_len.toNat ≤ 32 := by
  rw [gt_iff_lt, UInt32.not_lt, UInt32.le_iff_toNat_le]
  rfl

theorem derive_defined (defined : Defined overflow prefix_len) (addr : SockAddrIn)
    (function : Derived) : ∃ mask, IsMask prefix_len mask ∧
      derive overflow addr prefix_len function = some (some (meant addr mask function)) := by
  obtain ⟨mask, made, bits⟩ := createMask_defined defined
  have within := within_iff.mpr defined.2.1
  refine ⟨_, bits, ?_⟩
  cases function with
  | broadcastAddress =>
      simp only [derive, broadcastAddress, if_neg within, made, Option.map_some, meant,
        BitVec.not_not]
  | networkAddress =>
      simp only [derive, networkAddress, if_neg within, made, Option.map_some, meant, byteswap_not]
  | subnetMask => simp only [derive, subnetMask, made, Option.map_some, meant]

theorem derive_undefined (undefined : ¬ Defined overflow prefix_len) (addr : SockAddrIn)
    (function : Derived) : derive overflow addr prefix_len function =
      if prefix_len > 32 ∧ function ≠ .subnetMask then some none else none := by
  have none_made := createMask_undefined undefined
  by_cases wide : prefix_len > 32
  · cases function with
    | broadcastAddress | networkAddress =>
        simp [derive, broadcastAddress, networkAddress, wide]
    | subnetMask => simp [derive, subnetMask, none_made]
  · cases function with
    | broadcastAddress | networkAddress | subnetMask =>
        simp [derive, broadcastAddress, networkAddress, subnetMask, wide, none_made]

theorem defined_iff (within : ¬ prefix_len > 32) :
    Defined overflow prefix_len ↔ prefix_len ≠ 0 ∧ ¬ (overflow = .undefined ∧ prefix_len = 1) := by
  have zero : prefix_len = 0 ↔ prefix_len.toNat = 0 := UInt32.toNat_inj.symm
  have one : prefix_len = 1 ↔ prefix_len.toNat = 1 := UInt32.toNat_inj.symm
  rw [Defined, ne_eq, zero, one, Nat.pos_iff_ne_zero]
  exact and_congr_right fun _ => and_iff_right (within_iff.mp within)

theorem guards_iff (overflow : Overflow) (addr : SockAddrIn) (prefix_len : UInt32)
    (function : Derived) : Guards overflow addr prefix_len function ↔
      prefix_len ≠ 0 ∧ (function = .subnetMask → prefix_len ≤ 32) ∧
        ¬ (overflow = .undefined ∧ prefix_len = 1) := by
  unfold Guards
  by_cases wide : prefix_len > 32
  · have undefined : ¬ Defined overflow prefix_len := fun defined =>
      within_iff.mpr defined.2.1 wide
    rw [if_pos wide, derive_undefined undefined]
    by_cases checked : function = .subnetMask
    · rw [if_neg fun both => both.2 checked]
      refine iff_of_false ?_ fun guarded => UInt32.not_le.mpr wide (guarded.2.1 checked)
      intro null
      cases null
    · rw [if_pos ⟨wide, checked⟩]
      refine iff_of_true rfl ⟨?_, fun same => absurd same checked, ?_⟩
      · rintro rfl
        exact absurd wide (by decide)
      · rintro ⟨_, rfl⟩
        exact absurd wide (by decide)
  · have condition : (prefix_len ≠ 0 ∧ (function = .subnetMask → prefix_len ≤ 32) ∧
        ¬ (overflow = .undefined ∧ prefix_len = 1)) ↔ Defined overflow prefix_len := by
      rw [defined_iff wide, and_iff_right fun _ => UInt32.not_lt.mp wide]
    rw [if_neg wide, condition]
    by_cases defined : Defined overflow prefix_len
    · exact iff_of_true (derive_defined defined addr function) defined
    · refine iff_of_false ?_ defined
      rintro ⟨mask, _, result⟩
      rw [derive_undefined defined, if_neg fun both => wide both.1] at result
      cases result

end IPv4Address

namespace IPv6Address

theorem derive_below {prefix_len : UInt32} (below : prefix_len < 128) (addr : SockAddrIn6)
    (function : Derived) : (derive addr prefix_len function).isSome = true := by
  obtain ⟨mask, made, _⟩ := boundary_mask prefix_len
  cases function with
  | broadcastAddress =>
      obtain ⟨after, result, _⟩ := broadcast_bytes below made addr
      rw [derive, result]
      rfl
  | networkAddress =>
      obtain ⟨after, result, _⟩ := network_bytes below made addr
      rw [derive, result]
      rfl
  | subnetMask =>
      obtain ⟨subnet, result, _⟩ := subnet_bytes below made
      rw [derive, result]
      rfl

/-- From 128 on the byte at the boundary is none of the 16. -/
theorem derive_past {prefix_len : UInt32} (past : ¬ prefix_len < 128) (addr : SockAddrIn6)
    (function : Derived) : derive addr prefix_len function = none := by
  obtain ⟨mask, made, _⟩ := boundary_mask prefix_len
  have outside : ¬ prefix_len.toNat / 8 < 16 := by
    have least := UInt32.le_iff_toNat_le.mp (UInt32.not_lt.mp past)
    simp only [UInt32.toNat_ofNat] at least
    omega
  have refused : ∀ (bytes : In6Addr) f, modify bytes (prefix_len.toNat / 8) f = none := fun _ _ =>
    dif_neg outside
  cases function with
  | broadcastAddress | networkAddress | subnetMask =>
      simp only [derive, broadcastAddress, networkAddress, subnetMask, made, refused,
        Option.bind_eq_bind, Option.bind_some, Option.bind_none, Option.map_none]

theorem guards_iff (addr : SockAddrIn6) (prefix_len : UInt32) (function : Derived) :
    Guards addr prefix_len function ↔ prefix_len < 128 := by
  unfold Guards
  by_cases below : prefix_len < 128
  · rw [if_neg (UInt32.lt_asymm below)]
    exact iff_of_true (derive_below below addr function) below
  · rw [derive_past below]
    refine iff_of_false ?_ below
    split
    · intro null
      cases null
    · exact Bool.false_ne_true

end IPv6Address

/-- Which lengths each of the six functions is right for. -/
theorem prefix_guards_iff (overflow : Overflow) (addr : SockAddrIn) (addr6 : SockAddrIn6)
    (prefix_len : UInt32) (function : Derived) :
    (IPv4Address.Guards overflow addr prefix_len function ↔
        prefix_len ≠ 0 ∧ (function = .subnetMask → prefix_len ≤ 32) ∧
          ¬ (overflow = .undefined ∧ prefix_len = 1)) ∧
      (IPv6Address.Guards addr6 prefix_len function ↔ prefix_len < 128) :=
  ⟨IPv4Address.guards_iff overflow addr prefix_len function,
    IPv6Address.guards_iff addr6 prefix_len function⟩

def loopback : SockAddrIn :=
  { sin_family := AF_INET, sin_port := 0, s_addr := 0x0100007f, sin_zero := 0 }

/-- A shift by 32, a shift by 2 ^ 64 - 1, and an access past the last byte. -/
theorem zero_and_wide_unguarded :
    ¬ IPv4Address.Guards .wraps loopback 0 .broadcastAddress ∧
      ¬ IPv4Address.Guards .wraps loopback 33 .subnetMask ∧
      ¬ IPv6Address.Guards documentation 129 .broadcastAddress := by
  rw [IPv4Address.guards_iff, IPv4Address.guards_iff, IPv6Address.guards_iff]
  decide

end Ztyco.IpAddresses
