import Mathlib.Data.UInt
import Ztyco.BitCounts
import Ztyco.PrefixGuards

/-!
`CountBytes` of address.cc, for an unsigned type of any width, and the prefix lengths
that `GetInterfaceAddresses` counts in the netmasks of the interfaces.
-/

namespace Ztyco.IpAddresses

open BitCounts

variable {w : Nat}

/-- `value &= value - 1`. A type narrower than an `int` is promoted to one. -/
def clearLowest (value : BitVec w) : BitVec w :=
  let promoted := value.setWidth (max w 32)
  (promoted &&& (promoted - 1)).setWidth w

theorem clearLowest_eq (value : BitVec w) : clearLowest value = value &&& (value - 1) := by
  have narrow : w ≤ max w 32 := Nat.le_max_left w 32
  have same : (value.setWidth (max w 32)).setWidth w = value := by
    rw [BitVec.setWidth_setWidth_of_le _ narrow, BitVec.setWidth_eq]
  have one : (1 : BitVec (max w 32)).setWidth w = 1 := BitVec.setWidth_ofNat_of_le narrow 1
  have less : (value.setWidth (max w 32) - 1).setWidth w = value - 1 := by
    rw [BitVec.sub_eq_add_neg, BitVec.setWidth_add _ _ narrow, BitVec.setWidth_neg_of_le narrow,
      one, same, ← BitVec.sub_eq_add_neg]
  simp only [clearLowest, BitVec.setWidth_and, same, less]

theorem card_clearLowest (value : BitVec w) :
    (setBits (clearLowest value)).card = (setBits value).card - 1 := by
  rw [clearLowest_eq]
  by_cases zero : value = 0
  · subst zero
    have cleared : (0 : BitVec w) &&& (0 - 1) = 0 := BitVec.zero_and
    rw [cleared, setBits_eq_empty_iff.mpr rfl]
    rfl
  · rw [← card_clear zero, Nat.add_sub_cancel]

def countLoop (value : BitVec w) (result : UInt32) : UInt32 :=
  if value = 0 then result else countLoop (clearLowest value) (result + 1)
termination_by (setBits value).card
decreasing_by
  rename_i nonzero
  rw [card_clearLowest]
  have some_set := Finset.card_ne_zero.mpr
    (Finset.nonempty_iff_ne_empty.mpr (mt setBits_eq_empty_iff.mp nonzero))
  omega

def countBytes (value : BitVec w) : UInt32 := countLoop value 0

/-! The interfaces. -/

def AF_UNSPEC : Int := 0

/-- What `ifa_addr` and `ifa_netmask` point to, by the family of the address. -/
inductive IfaAddr where
  | inet (addr netmask : SockAddrIn)
  | inet6 (addr netmask : SockAddrIn6)
  | other (sa_family : UInt16) (unhandled : sa_family ≠ AF_INET ∧ sa_family ≠ AF_INET6)

structure IfAddrs where
  ifa_name : List Char
  ifa_addr : IfaAddr

inductive InterfaceAddress where
  | ipv4 (m_addr : SockAddrIn)
  | ipv6 (m_addr : SockAddrIn6)

def countEach (netmask : In6Addr) : UInt32 :=
  (List.finRange 16).foldl (fun prefix_len i => prefix_len + countBytes (netmask.get i)) 0

def IfaAddr.sa_family : IfaAddr → UInt16
  | .inet .. => AF_INET
  | .inet6 .. => AF_INET6
  | .other sa_family _ => sa_family

def IfAddrs.entry (next : IfAddrs) (family : Int) :
    Option (List Char × InterfaceAddress × UInt32) :=
  if family ≠ AF_UNSPEC ∧ family ≠ next.ifa_addr.sa_family.toNat then none
  else match next.ifa_addr with
    | .inet addr netmask => some (next.ifa_name, .ipv4 addr, countBytes netmask.s_addr)
    | .inet6 addr netmask => some (next.ifa_name, .ipv6 addr, countEach netmask.s6_addr)
    | .other .. => none

/-- `GetInterfaceAddresses`, with the insertions into the multimap in their order;
`none` is a `getifaddrs` that fails. -/
def getInterfaceAddresses (getifaddrs : Option (List IfAddrs))
    (result : List (List Char × InterfaceAddress × UInt32)) (family : Int) :
    Bool × List (List Char × InterfaceAddress × UInt32) :=
  match getifaddrs with
  | none => (false, result)
  | some results =>
      let result := result ++ results.filterMap fun next => next.entry family
      (!result.isEmpty, result)

/-! The count. -/

theorem countLoop_eq (value : BitVec w) (result : UInt32) :
    countLoop value result = result + UInt32.ofNat (setBits value).card := by
  fun_induction countLoop value result with
  | case1 result =>
      rw [setBits_eq_empty_iff.mpr rfl]
      simp
  | case2 value result nonzero ih =>
      have step := card_clear nonzero
      rw [ih, clearLowest_eq, ← step, UInt32.ofNat_add, UInt32.add_assoc]
      exact congrArg (result + ·) (UInt32.add_comm _ _)

theorem countBytes_eq (value : BitVec w) :
    countBytes value = UInt32.ofNat (setBits value).card := by
  rw [countBytes, countLoop_eq, UInt32.zero_add]

/-- One round for each set bit, and no other. -/
theorem card_rounds (value : BitVec w) (rounds : Nat) :
    (setBits (clearLowest^[rounds] value)).card = (setBits value).card - rounds := by
  induction rounds with
  | zero => rfl
  | succ rounds ih =>
      rw [Function.iterate_succ_apply', card_clearLowest, ih]
      omega

theorem rounds_iff (value : BitVec w) (rounds : Nat) :
    clearLowest^[rounds] value = 0 ↔ (setBits value).card ≤ rounds := by
  rw [← setBits_eq_empty_iff, ← Finset.card_eq_zero, card_rounds]
  omega

theorem countBytes_leading {p : Nat} (within : p ≤ w) {mask : BitVec w}
    (bits : ∀ k < w, mask.getMsbD k = decide (k < p)) : countBytes mask = UInt32.ofNat p := by
  rw [countBytes_eq, card_leading bits, Nat.min_eq_right within]

/-! The netmasks. -/

def networkOrder : Fin 32 ≃ Fin 32 :=
  Function.Involutive.toPerm (fun k => ⟨8 * (k / 8) + (7 - k % 8), by omega⟩) (by
    intro k
    apply Fin.ext
    dsimp only
    omega)

theorem countBytes_netmask {p : Nat} (within : p ≤ 32) {s_addr : BitVec 32}
    (bits : ∀ k : Fin 32, IPv4Address.bit s_addr k = decide (k.val < p)) :
    countBytes s_addr = UInt32.ofNat p := by
  have counted := card_first networkOrder fun k =>
    (IPv4Address.bit_eq s_addr k).symm.trans (bits k)
  rw [countBytes_eq, counted, Nat.min_eq_right within]

theorem fold_count (bytes : List (Fin 16)) (netmask : In6Addr) (prefix_len : UInt32) :
    bytes.foldl (fun prefix_len i => prefix_len + countBytes (netmask.get i)) prefix_len =
      prefix_len + UInt32.ofNat (bytes.map fun i => (setBits (netmask.get i)).card).sum := by
  induction bytes generalizing prefix_len with
  | nil => simp
  | cons i rest ih =>
      rw [List.foldl_cons, ih, countBytes_eq, List.map_cons, List.sum_cons, UInt32.ofNat_add,
        UInt32.add_assoc]

theorem countEach_netmask {p : Nat} (within : p ≤ 128) {netmask : SockAddrIn6}
    (bits : ∀ k : Fin 128, netmask.bit k = decide (k.val < p)) :
    countEach netmask.s6_addr = UInt32.ofNat p := by
  have byte : ∀ j : Fin 16, (setBits (netmask.s6_addr.get j)).card = min 8 (p - 8 * j) := by
    intro j
    refine card_leading fun i inside => ?_
    rw [← bit_of_byte netmask j inside, bits]
    refine decide_eq_decide.mpr ?_
    dsimp only
    omega
  have total :
      ((List.finRange 16).map fun j => (setBits (netmask.s6_addr.get j)).card).sum = p := by
    simp only [byte]
    rw [← Fin.sum_univ_def, Fin.sum_univ_eq_sum_range fun j => min 8 (p - 8 * j), sum_leading]
    exact Nat.min_eq_right within
  rw [countEach, fold_count, total, UInt32.zero_add]

/-- The mask that is made of a length has that length. -/
theorem countBytes_subnetMask {overflow : Overflow} {prefix_len : UInt32}
    (defined : IPv4Address.Defined overflow prefix_len) :
    ∃ subnet, IPv4Address.subnetMask overflow prefix_len = some (some subnet) ∧
      countBytes subnet.s_addr = prefix_len := by
  obtain ⟨mask, made, bits⟩ := IPv4Address.createMask_defined defined
  refine ⟨_, by rw [IPv4Address.subnetMask, made]; rfl, ?_⟩
  exact (countBytes_netmask defined.2.1 bits).trans UInt32.ofNat_toNat

theorem countEach_subnetMask {prefix_len : UInt32} (below : prefix_len < 128) :
    ∃ subnet, subnetMask prefix_len = some subnet ∧ countEach subnet.s6_addr = prefix_len := by
  obtain ⟨subnet, made, bits⟩ := subnet_bits below
  refine ⟨subnet, made, ?_⟩
  have within : prefix_len.toNat ≤ 128 := Nat.le_of_lt (UInt32.lt_iff_toNat_lt.mp below)
  exact (countEach_netmask within bits).trans UInt32.ofNat_toNat

def IfaAddr.HasPrefix (p : Nat) : IfaAddr → Prop
  | .inet _ netmask => p ≤ 32 ∧
      ∀ k : Fin 32, IPv4Address.bit netmask.s_addr k = decide (k.val < p)
  | .inet6 _ netmask => p ≤ 128 ∧ ∀ k : Fin 128, netmask.bit k = decide (k.val < p)
  | .other .. => False

theorem entry_prefix {next : IfAddrs} {family : Int} {p : Nat}
    {entry : List Char × InterfaceAddress × UInt32} (masked : next.ifa_addr.HasPrefix p)
    (inserted : next.entry family = some entry) : entry.2.2 = UInt32.ofNat p := by
  rcases next with ⟨name, addr⟩
  unfold IfAddrs.entry at inserted
  split at inserted
  · cases inserted
  · cases addr with
    | inet addr netmask =>
        cases inserted
        exact countBytes_netmask masked.1 masked.2
    | inet6 addr netmask =>
        cases inserted
        exact countEach_netmask masked.1 masked.2
    | other sa_family unhandled => exact absurd masked not_false

/-- What `GetInterfaceAddresses` adds comes from an interface, with the length of its
netmask. -/
theorem inserted_prefixes {results : List IfAddrs} {family : Int}
    {result : List (List Char × InterfaceAddress × UInt32)}
    {entry : List Char × InterfaceAddress × UInt32}
    (mem : entry ∈ (getInterfaceAddresses (some results) result family).2) :
    entry ∈ result ∨ ∃ next ∈ results, next.entry family = some entry ∧
      ∀ p, next.ifa_addr.HasPrefix p → entry.2.2 = UInt32.ofNat p := by
  rcases List.mem_append.mp mem with old | new
  · exact Or.inl old
  · obtain ⟨next, listed, inserted⟩ := List.mem_filterMap.mp new
    exact Or.inr ⟨next, listed, inserted, fun p masked => entry_prefix masked inserted⟩

theorem countBytes_counts :
    (∀ (w : Nat) (value : BitVec w),
      (∀ rounds, clearLowest^[rounds] value = 0 ↔ (setBits value).card ≤ rounds) ∧
        countBytes value = UInt32.ofNat (setBits value).card ∧
        (w < 2 ^ 32 → (countBytes value).toNat = (setBits value).card)) ∧
      (∀ (w p : Nat) (mask : BitVec w), p ≤ w → (∀ k < w, mask.getMsbD k = decide (k < p)) →
        countBytes mask = UInt32.ofNat p) ∧
      (∀ (p : Nat) (netmask : SockAddrIn6), p ≤ 128 →
        (∀ k : Fin 128, netmask.bit k = decide (k.val < p)) →
        (countEach netmask.s6_addr).toNat = p) := by
  refine ⟨?_, ?_, ?_⟩
  · intro w value
    refine ⟨rounds_iff value, countBytes_eq value, fun narrow => ?_⟩
    have most : (setBits value).card ≤ w := by simpa using (setBits value).card_le_univ
    rw [countBytes_eq, UInt32.toNat_ofNat_of_lt' (Nat.lt_of_le_of_lt most narrow)]
  · intro w p mask within bits
    exact countBytes_leading within bits
  · intro p netmask within bits
    rw [countEach_netmask within bits]
    exact UInt32.toNat_ofNat_of_lt' (Nat.lt_of_le_of_lt within (by decide))

def halfMask : SockAddrIn6 :=
  { documentation with
    s6_addr := #v[0xff, 0xff, 0xff, 0xff, 0xff, 0xff, 0xff, 0xff, 0, 0, 0, 0, 0, 0, 0, 0] }

theorem countBytes_counts_halfMask :
    countBytes (0xe0 : Byte) = 3 ∧ (countEach halfMask.s6_addr).toNat = 64 :=
  ⟨countBytes_counts.2.1 8 3 0xe0 (by decide) (by decide),
    countBytes_counts.2.2 64 halfMask (by decide) (by decide)⟩

end Ztyco.IpAddresses
