import Ztyco.PrefixGuards

/-!
The addresses of an IPv4 subnet. `networkAddress` and `broadcastAddress` of
IPv4Address work on the bytes in network order; as numbers in host order, which is
how `insert` reads them, their results are the ends of the range of the addresses
that have the same network address.
-/

namespace Ztyco.IpAddresses

namespace IPv4Address

def host (s_addr : BitVec 32) : Nat := (byteswapOnLittleEndian s_addr).toNat

theorem byteswap_twice (value : BitVec 32) :
    byteswapOnLittleEndian (byteswapOnLittleEndian value) = value := by
  refine BitVec.eq_of_getLsbD_eq fun i inside => ?_
  rw [getLsbD_byteswap _ inside, getLsbD_byteswap _ (by omega)]
  exact congrArg value.getLsbD (by omega)

theorem testBit_host (s_addr : BitVec 32) {j : Nat} (inside : j < 32) :
    (host s_addr).testBit j = bit s_addr ⟨31 - j, by omega⟩ := by
  have swapped := bit_byteswap (byteswapOnLittleEndian s_addr) ⟨31 - j, by omega⟩
  rw [byteswap_twice] at swapped
  have back : 32 - 1 - (31 - j) = j := by omega
  rw [swapped, BitVec.getMsbD_eq_getLsbD, decide_eq_true (by simp only; omega), Bool.true_and,
    back]
  rfl

theorem host_lt (s_addr : BitVec 32) : host s_addr < 2 ^ 32 := BitVec.isLt _

theorem testBit_host_wide (s_addr : BitVec 32) {j : Nat} (outside : 32 ≤ j) :
    (host s_addr).testBit j = false := by
  apply Nat.testBit_lt_two_pow
  exact Nat.lt_of_lt_of_le (host_lt s_addr) (Nat.pow_le_pow_right (by decide) outside)

section Range
variable {prefix_len : UInt32} {mask : BitVec 32}

/-- The first bits as a number, zeros after them. -/
theorem host_network (bits : IsMask prefix_len mask) (within : prefix_len.toNat ≤ 32)
    (s_addr : BitVec 32) :
    host (s_addr &&& mask) =
      2 ^ (32 - prefix_len.toNat) * (host s_addr / 2 ^ (32 - prefix_len.toNat)) := by
  apply Nat.eq_of_testBit_eq
  intro j
  rw [Nat.testBit_two_pow_mul, Nat.testBit_div_two_pow]
  by_cases inside : j < 32
  · have masked := bits ⟨31 - j, by omega⟩
    rw [testBit_host _ inside, bit_eq, BitVec.getLsbD_and, ← bit_eq, ← bit_eq, masked]
    by_cases high : 32 - prefix_len.toNat ≤ j
    · rw [decide_eq_true (by simp only; omega), decide_eq_true high, Bool.and_true, Bool.true_and,
        Nat.sub_add_cancel high, testBit_host _ inside]
    · rw [decide_eq_false (by simp only; omega), decide_eq_false high, Bool.and_false,
        Bool.false_and]
  · rw [testBit_host_wide _ (Nat.not_lt.mp inside)]
    by_cases high : 32 - prefix_len.toNat ≤ j
    · rw [Nat.sub_add_cancel high, testBit_host_wide _ (Nat.not_lt.mp inside), Bool.and_false]
    · rw [decide_eq_false high, Bool.false_and]

theorem host_broadcast (bits : IsMask prefix_len mask) (within : prefix_len.toNat ≤ 32)
    (s_addr : BitVec 32) :
    host (s_addr ||| ~~~mask) =
      2 ^ (32 - prefix_len.toNat) * (host s_addr / 2 ^ (32 - prefix_len.toNat)) +
        (2 ^ (32 - prefix_len.toNat) - 1) := by
  have less : 2 ^ (32 - prefix_len.toNat) - 1 < 2 ^ (32 - prefix_len.toNat) :=
    Nat.sub_lt (Nat.two_pow_pos _) (by decide)
  apply Nat.eq_of_testBit_eq
  intro j
  rw [Nat.testBit_two_pow_mul_add _ less, Nat.testBit_two_pow_sub_one, Nat.testBit_div_two_pow]
  by_cases inside : j < 32
  · have masked := bits ⟨31 - j, by omega⟩
    rw [testBit_host _ inside, bit_eq, BitVec.getLsbD_or, BitVec.getLsbD_not, ← bit_eq, ← bit_eq,
      masked, decide_eq_true (by simp only; omega), Bool.true_and]
    by_cases high : 32 - prefix_len.toNat ≤ j
    · rw [decide_eq_true (by simp only; omega), if_neg (by omega), Bool.not_true, Bool.or_false,
        Nat.sub_add_cancel high, testBit_host _ inside]
    · rw [decide_eq_false (by simp only; omega), if_pos (by omega), Bool.not_false, Bool.or_true,
        decide_eq_true (by omega)]
  · have outside := Nat.not_lt.mp inside
    rw [testBit_host_wide _ outside, if_neg (by omega), Nat.sub_add_cancel (by omega),
      testBit_host_wide _ outside]

theorem host_injective {left right : BitVec 32} (same : host left = host right) :
    left = right := by
  rw [← byteswap_twice left, ← byteswap_twice right]
  exact congrArg byteswapOnLittleEndian (BitVec.eq_of_toNat_eq same)

end Range

/-- Wherever the mask is defined, an address has the network address of another one if
and only if it lies between that one's network address and its broadcast address, which
are as far apart as the bits that are left allow. -/
theorem subnet_range {overflow : Overflow} {prefix_len : UInt32}
    (defined : Defined overflow prefix_len) (addr : SockAddrIn) :
    ∃ network broadcast, networkAddress overflow addr prefix_len = some (some network) ∧
      broadcastAddress overflow addr prefix_len = some (some broadcast) ∧
      host broadcast.s_addr + 1 = host network.s_addr + 2 ^ (32 - prefix_len.toNat) ∧
      ∀ other : SockAddrIn, ∃ its, networkAddress overflow other prefix_len = some (some its) ∧
        (its.s_addr = network.s_addr ↔ host network.s_addr ≤ host other.s_addr ∧
          host other.s_addr ≤ host broadcast.s_addr) := by
  rcases createMask_defined defined with ⟨mask, made, bits⟩
  have within := defined.2.1
  have narrow := within_iff.mpr within
  have size := Nat.two_pow_pos (32 - prefix_len.toNat)
  refine ⟨{ addr with s_addr := addr.s_addr &&& ~~~byteswapOnLittleEndian mask },
    { addr with s_addr := addr.s_addr ||| byteswapOnLittleEndian mask }, ?_, ?_, ?_, ?_⟩
  · simp only [networkAddress, if_neg narrow, made, Option.map_some, byteswap_not]
  · simp only [broadcastAddress, if_neg narrow, made, Option.map_some]
  · have last := host_broadcast bits within addr.s_addr
    rw [BitVec.not_not] at last
    rw [host_network bits within, last]
    omega
  · intro other
    refine ⟨{ other with s_addr := other.s_addr &&& ~~~byteswapOnLittleEndian mask }, ?_, ?_⟩
    · simp only [networkAddress, if_neg narrow, made, Option.map_some, byteswap_not]
    · have last := host_broadcast bits within addr.s_addr
      rw [BitVec.not_not] at last
      have same_iff : other.s_addr &&& ~~~byteswapOnLittleEndian mask =
          addr.s_addr &&& ~~~byteswapOnLittleEndian mask ↔
            host other.s_addr / 2 ^ (32 - prefix_len.toNat) =
              host addr.s_addr / 2 ^ (32 - prefix_len.toNat) := by
        constructor
        · intro same
          have hosts := congrArg host same
          rw [host_network bits within, host_network bits within] at hosts
          exact Nat.eq_of_mul_eq_mul_left size hosts
        · intro same
          apply host_injective
          rw [host_network bits within, host_network bits within, same]
      rw [same_iff, host_network bits within, last, Nat.div_eq_iff size]
      constructor
      · rintro ⟨low, high⟩
        rw [Nat.mul_comm]
        exact ⟨low, by omega⟩
      · rintro ⟨low, high⟩
        rw [Nat.mul_comm] at low high
        exact ⟨low, by omega⟩

theorem subnet_range_loopback :
    ∃ network broadcast, networkAddress .undefined loopback 8 = some (some network) ∧
      broadcastAddress .undefined loopback 8 = some (some broadcast) ∧
      host broadcast.s_addr + 1 = host network.s_addr + 2 ^ (32 - (8 : UInt32).toNat) ∧
      ∀ other : SockAddrIn, ∃ its, networkAddress .undefined other 8 = some (some its) ∧
        (its.s_addr = network.s_addr ↔ host network.s_addr ≤ host other.s_addr ∧
          host other.s_addr ≤ host broadcast.s_addr) :=
  subnet_range ⟨by decide, by decide, by decide⟩ loopback

end IPv4Address

end Ztyco.IpAddresses
