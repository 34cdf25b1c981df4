import Mathlib.Algebra.Ring.Nat
import Mathlib.Data.Nat.Bitwise

/-!
`broadcastAddress`, `networkAddress` and `subnetMask` of IPv6Address in
address.cc. A shift or an access outside its range has no result. The bits of an
address are counted in network order.
-/

namespace Ztyco.IpAddresses

abbrev Byte := BitVec 8

abbrev In6Addr := Vector Byte 16

/-- The port is in network order. -/
structure SockAddrIn6 where
  sin6_family : UInt16
  sin6_port : BitVec 16
  sin6_flowinfo : UInt32
  s6_addr : In6Addr
  sin6_scope_id : UInt32

def AF_INET6 : UInt16 := 10

/-- `CreateMask` for a type of `w` bits: the width is a `size_t`, and the shifted
1 an `int`. -/
def createMask (w bits : Nat) : Option (BitVec w) :=
  let shift := (BitVec.ofNat 64 w - BitVec.ofNat 64 bits).toNat
  if shift < 32 then some ((1#32 <<< shift - 1#32).setWidth w) else none

def modify (addr : In6Addr) (i : Nat) (f : Byte → Byte) : Option In6Addr :=
  if inside : i < 16 then some (addr.set i (f addr[i])) else none

def setEach (value : Byte) (i : Nat) : Nat → In6Addr → Option In6Addr
  | 0, addr => some addr
  | count + 1, addr => (modify addr i fun _ => value).bind (setEach value (i + 1) count)

def broadcastAddress (addr : SockAddrIn6) (prefix_len : UInt32) : Option SockAddrIn6 := do
  let boundary := prefix_len.toNat / 8
  let mask ← createMask 8 (prefix_len.toNat % 8)
  let s6_addr ← modify addr.s6_addr boundary (· ||| mask)
  let s6_addr ← setEach 0xff (boundary + 1) (16 - (boundary + 1)) s6_addr
  some { addr with s6_addr := s6_addr }

def networkAddress (addr : SockAddrIn6) (prefix_len : UInt32) : Option SockAddrIn6 := do
  let boundary := prefix_len.toNat / 8
  let mask ← createMask 8 (prefix_len.toNat % 8)
  -- the mask of the bits after the prefix, as it is
  let s6_addr ← modify addr.s6_addr boundary (· &&& mask)
  let s6_addr ← setEach 0x00 (boundary + 1) (16 - (boundary + 1)) s6_addr
  some { addr with s6_addr := s6_addr }

def subnetMask (prefix_len : UInt32) : Option SockAddrIn6 := do
  let boundary := prefix_len.toNat / 8
  let mask ← createMask 8 (prefix_len.toNat % 8)
  let s6_addr ← modify (Vector.replicate 16 0) boundary fun _ => ~~~mask
  let s6_addr ← setEach 0xff 0 boundary s6_addr
  some {
    sin6_family := AF_INET6
    sin6_port := 0
    sin6_flowinfo := 0
    s6_addr := s6_addr
    sin6_scope_id := 0 }

def SockAddrIn6.bit (addr : SockAddrIn6) (k : Fin 128) : Bool :=
  (addr.s6_addr.get ⟨k / 8, by omega⟩).getMsbD (k % 8)

structure PrefixArithmetic (addr : SockAddrIn6) (prefix_len : UInt32) : Prop where
  mask : ∃ subnet, subnetMask prefix_len = some subnet ∧
    ∀ k : Fin 128, subnet.bit k = decide (k.val < prefix_len.toNat)
  network : ∃ network, networkAddress addr prefix_len = some network ∧
    ∀ k : Fin 128, network.bit k = (decide (k.val < prefix_len.toNat) && addr.bit k)
  broadcast : ∃ broadcast, broadcastAddress addr prefix_len = some broadcast ∧
    ∀ k : Fin 128, broadcast.bit k = (!decide (k.val < prefix_len.toNat) || addr.bit k)
  network_and : ∃ subnet, subnetMask prefix_len = some subnet ∧
    networkAddress addr prefix_len = some { addr with
      s6_addr := addr.s6_addr.zipWith (· &&& ·) subnet.s6_addr }
  broadcast_or : ∃ subnet, subnetMask prefix_len = some subnet ∧
    broadcastAddress addr prefix_len = some { addr with
      s6_addr := addr.s6_addr.zipWith (fun byte mask => byte ||| ~~~mask) subnet.s6_addr }
  network_twice : (networkAddress addr prefix_len).bind (networkAddress · prefix_len) =
    networkAddress addr prefix_len
  broadcast_twice : (broadcastAddress addr prefix_len).bind (broadcastAddress · prefix_len) =
    broadcastAddress addr prefix_len

/-! The mask. -/

theorem mask_bit {shift : Nat} (below : shift < 32) (i : Nat) :
    (1#32 <<< shift - 1#32).getLsbD i = decide (i < shift) := by
  have power : 2 ^ shift < 2 ^ 32 := Nat.pow_lt_pow_right (by decide) below
  have positive : 0 < 2 ^ shift := Nat.two_pow_pos shift
  have value : (1#32 <<< shift - 1#32).toNat = 2 ^ shift - 1 := by
    rw [BitVec.toNat_sub, BitVec.toNat_shiftLeft, Nat.shiftLeft_eq]
    simp only [BitVec.toNat_ofNat]
    omega
  rw [BitVec.getLsbD, value, Nat.testBit_two_pow_sub_one]

theorem createMask_spec {w bits : Nat} (fits : bits ≤ w) (narrow : w - bits < 32) (small : w ≤ 32) :
    ∃ mask, createMask w bits = some mask ∧
      ∀ i, mask.getMsbD i = (decide (bits ≤ i) && decide (i < w)) := by
  have shift : (BitVec.ofNat 64 w - BitVec.ofNat 64 bits).toNat = w - bits := by
    rw [BitVec.toNat_sub, BitVec.toNat_ofNat, BitVec.toNat_ofNat]
    omega
  refine ⟨_, by rw [createMask]; simp only [shift]; rw [if_pos narrow], ?_⟩
  intro i
  rw [BitVec.getMsbD_eq_getLsbD, BitVec.getLsbD_setWidth, mask_bit narrow]
  by_cases inside : i < w
  · simp only [inside, decide_true, Bool.true_and, Bool.and_true]
    rw [decide_eq_true (by omega), Bool.true_and]
    exact decide_eq_decide.mpr (by omega)
  · simp [inside]

/-! The bytes that are stored. -/

theorem modify_spec (addr : In6Addr) {i : Nat} (inside : i < 16) (f : Byte → Byte) :
    ∃ after, modify addr i f = some after ∧
      ∀ j : Fin 16, after.get j = if j.val = i then f (addr.get j) else addr.get j := by
  refine ⟨_, dif_pos inside, ?_⟩
  intro j
  change (addr.set i (f addr[i]))[j.val] = if j.val = i then f addr[j.val] else addr[j.val]
  rw [Vector.getElem_set]
  by_cases same : i = j.val
  · subst same
    simp
  · rw [if_neg same, if_neg (Ne.symm same)]

theorem setEach_spec (value : Byte) (i count : Nat) (addr : In6Addr) (inside : i + count ≤ 16) :
    ∃ after, setEach value i count addr = some after ∧
      ∀ j : Fin 16, after.get j =
        if i ≤ j.val ∧ j.val < i + count then value else addr.get j := by
  induction count generalizing i addr with
  | zero =>
      refine ⟨addr, rfl, ?_⟩
      intro j
      rw [if_neg (by omega)]
  | succ count ih =>
      obtain ⟨first, stored, bytes⟩ := modify_spec addr (i := i) (by omega) fun _ => value
      obtain ⟨after, rest, others⟩ := ih (i + 1) first (by omega)
      refine ⟨after, by rw [setEach, stored]; exact rest, ?_⟩
      intro j
      rw [others, bytes]
      -- stored by a later round, by the first, or not at all
      by_cases later : i + 1 ≤ j.val ∧ j.val < i + 1 + count
      · rw [if_pos later, if_pos (by omega)]
      · rw [if_neg later]
        by_cases same : j.val = i
        · rw [if_pos same, if_pos (by omega)]
        · rw [if_neg same, if_neg (by omega)]

/-! The bytes of the three results, below, at and above the boundary. -/

theorem boundary_lt {prefix_len : UInt32} (below : prefix_len < 128) :
    prefix_len.toNat / 8 < 16 := by
  have small := UInt32.lt_iff_toNat_lt.mp below
  simp only [UInt32.toNat_ofNat] at small
  omega

theorem boundary_mask (prefix_len : UInt32) :
    ∃ mask, createMask 8 (prefix_len.toNat % 8) = some mask ∧
      ∀ i < 8, mask.getMsbD i = decide (prefix_len.toNat % 8 ≤ i) := by
  have fits : prefix_len.toNat % 8 ≤ 8 := by omega
  obtain ⟨mask, made, bits⟩ := createMask_spec fits (by omega) (by omega)
  refine ⟨mask, made, ?_⟩
  intro i inside
  rw [bits, decide_eq_true inside, Bool.and_true]

/-- `value` is what the loop stores above the boundary. -/
theorem stored_bytes {prefix_len : UInt32} (below : prefix_len < 128) (addr : In6Addr)
    (f : Byte → Byte) (value : Byte) :
    ∃ middle after, modify addr (prefix_len.toNat / 8) f = some middle ∧
      setEach value (prefix_len.toNat / 8 + 1) (16 - (prefix_len.toNat / 8 + 1)) middle =
        some after ∧
      ∀ j : Fin 16, after.get j =
        if j.val < prefix_len.toNat / 8 then addr.get j
        else if j.val = prefix_len.toNat / 8 then f (addr.get j) else value := by
  have inside := boundary_lt below
  obtain ⟨middle, stored, bytes⟩ := modify_spec addr inside f
  obtain ⟨after, rest, others⟩ := setEach_spec value (prefix_len.toNat / 8 + 1)
    (16 - (prefix_len.toNat / 8 + 1)) middle (by omega)
  refine ⟨middle, after, stored, rest, ?_⟩
  intro j
  rw [others, bytes]
  by_cases before : j.val < prefix_len.toNat / 8
  · rw [if_neg (by omega), if_neg (by omega), if_pos before]
  · rw [if_neg before]
    by_cases at_boundary : j.val = prefix_len.toNat / 8
    · rw [if_neg (by omega), if_pos at_boundary, if_pos at_boundary]
    · rw [if_pos (by omega), if_neg at_boundary]

section Prefix
variable {prefix_len : UInt32} (below : prefix_len < 128)
variable {mask : Byte} (made : createMask 8 (prefix_len.toNat % 8) = some mask)
include below made

theorem broadcast_bytes (addr : SockAddrIn6) :
    ∃ after, broadcastAddress addr prefix_len = some { addr with s6_addr := after } ∧
      ∀ j : Fin 16, after.get j =
        if j.val < prefix_len.toNat / 8 then addr.s6_addr.get j
        else if j.val = prefix_len.toNat / 8 then addr.s6_addr.get j ||| mask else 0xff := by
  obtain ⟨middle, after, stored, rest, bytes⟩ := stored_bytes below addr.s6_addr (· ||| mask) 0xff
  exact ⟨after, by simp only [broadcastAddress, made, stored, rest,
    Option.bind_eq_bind, Option.bind_some], bytes⟩

/-- The bits after the prefix are kept at the boundary, and not those before. -/
theorem network_bytes (addr : SockAddrIn6) :
    ∃ after, networkAddress addr prefix_len = some { addr with s6_addr := after } ∧
      ∀ j : Fin 16, after.get j =
        if j.val < prefix_len.toNat / 8 then addr.s6_addr.get j
        else if j.val = prefix_len.toNat / 8 then addr.s6_addr.get j &&& mask else 0x00 := by
  obtain ⟨middle, after, stored, rest, bytes⟩ := stored_bytes below addr.s6_addr (· &&& mask) 0x00
  exact ⟨after, by simp only [networkAddress, made, stored, rest,
    Option.bind_eq_bind, Option.bind_some], bytes⟩

theorem subnet_bytes :
    ∃ subnet, subnetMask prefix_len = some subnet ∧
      ∀ j : Fin 16, subnet.s6_addr.get j =
        if j.val < prefix_len.toNat / 8 then 0xff
        else if j.val = prefix_len.toNat / 8 then ~~~mask else 0x00 := by
  have inside := boundary_lt below
  obtain ⟨middle, stored, bytes⟩ := modify_spec (Vector.replicate 16 0) inside fun _ => ~~~mask
  obtain ⟨after, rest, others⟩ := setEach_spec 0xff 0 (prefix_len.toNat / 8) middle (by omega)
  refine ⟨_, by simp only [subnetMask, made, stored, rest, Option.bind_eq_bind,
    Option.bind_some]; rfl, ?_⟩
  intro j
  change after.get j = _
  have empty : (Vector.replicate 16 0 : In6Addr).get j = 0 := Vector.getElem_replicate _
  rw [others, bytes, empty]
  by_cases before : j.val < prefix_len.toNat / 8
  · rw [if_pos (by omega), if_pos before]
  · rw [if_neg (by omega), if_neg before]

end Prefix

theorem bits_of_bytes {prefix_len : UInt32} {after : In6Addr} {low middle : Fin 16 → Byte}
    {high : Byte}
    (bytes : ∀ j : Fin 16, after.get j =
      if j.val < prefix_len.toNat / 8 then low j
      else if j.val = prefix_len.toNat / 8 then middle j else high)
    (boundary : ∀ j : Fin 16, j.val = prefix_len.toNat / 8 → ∀ i < 8, (middle j).getMsbD i =
      if i < prefix_len.toNat % 8 then (low j).getMsbD i else high.getMsbD i) (k : Fin 128) :
    (after.get ⟨k / 8, by omega⟩).getMsbD (k % 8) =
      if k.val < prefix_len.toNat then (low ⟨k / 8, by omega⟩).getMsbD (k % 8)
      else high.getMsbD (k % 8) := by
  rw [bytes]
  by_cases before : k.val / 8 < prefix_len.toNat / 8
  · rw [if_pos before, if_pos (by omega)]
  · rw [if_neg before]
    by_cases same : k.val / 8 = prefix_len.toNat / 8
    · rw [if_pos same, boundary _ same _ (by omega)]
      by_cases inside : k.val < prefix_len.toNat
      · rw [if_pos inside, if_pos (by omega)]
      · rw [if_neg inside, if_neg (by omega)]
    · rw [if_neg same, if_neg (by omega)]

theorem ones_bit {i : Nat} (inside : i < 8) : (0xff : Byte).getMsbD i = true := by
  rw [show (0xff : Byte) = BitVec.allOnes 8 from rfl, BitVec.getMsbD_allOnes]
  exact decide_eq_true inside

theorem zeros_bit (i : Nat) : (0x00 : Byte).getMsbD i = false := BitVec.getMsbD_zero

theorem ext_bytes {left right : In6Addr} (same : ∀ j : Fin 16, left.get j = right.get j) :
    left = right :=
  Vector.ext fun j inside => same ⟨j, inside⟩

theorem zipWith_byte (f : Byte → Byte → Byte) (left right : In6Addr) (j : Fin 16) :
    (left.zipWith f right).get j = f (left.get j) (right.get j) :=
  Vector.getElem_zipWith _

/-- A second call stores the same bytes. -/
theorem bytes_twice {prefix_len : UInt32} {addr after twice : In6Addr} {f : Byte → Byte}
    {value : Byte} (idempotent : ∀ byte, f (f byte) = f byte)
    (bytes : ∀ j : Fin 16, after.get j =
      if j.val < prefix_len.toNat / 8 then addr.get j
      else if j.val = prefix_len.toNat / 8 then f (addr.get j) else value)
    (bytes' : ∀ j : Fin 16, twice.get j =
      if j.val < prefix_len.toNat / 8 then after.get j
      else if j.val = prefix_len.toNat / 8 then f (after.get j) else value) :
    twice = after := by
  refine ext_bytes fun j => ?_
  rw [bytes', bytes]
  by_cases before : j.val < prefix_len.toNat / 8
  · simp only [if_pos before]
  · simp only [if_neg before]
    by_cases at_boundary : j.val = prefix_len.toNat / 8
    · simp only [if_pos at_boundary, idempotent]
    · simp only [if_neg at_boundary]

/-! What is right for every address. -/

section Right
variable {prefix_len : UInt32} (below : prefix_len < 128)
include below

theorem subnet_bits : ∃ subnet, subnetMask prefix_len = some subnet ∧
    ∀ k : Fin 128, subnet.bit k = decide (k.val < prefix_len.toNat) := by
  obtain ⟨mask, made, bits⟩ := boundary_mask prefix_len
  obtain ⟨subnet, result, bytes⟩ := subnet_bytes below made
  refine ⟨subnet, result, ?_⟩
  intro k
  have cut := @bits_of_bytes prefix_len _ (fun _ => 0xff) (fun _ => ~~~mask) _ bytes (by
    intro j _ i inside
    rw [BitVec.getMsbD_not, decide_eq_true inside, bits i inside, Bool.true_and]
    by_cases kept : i < prefix_len.toNat % 8
    · rw [if_pos kept, ones_bit inside, decide_eq_false (Nat.not_le.mpr kept)]
      rfl
    · rw [if_neg kept, zeros_bit, decide_eq_true (Nat.not_lt.mp kept)]
      rfl) k
  rw [SockAddrIn6.bit, cut]
  by_cases inside : k.val < prefix_len.toNat
  · rw [if_pos inside, ones_bit (Nat.mod_lt _ (by decide)), decide_eq_true inside]
  · rw [if_neg inside, zeros_bit, decide_eq_false inside]

theorem broadcast_bits (addr : SockAddrIn6) :
    ∃ broadcast, broadcastAddress addr prefix_len = some broadcast ∧
      ∀ k : Fin 128, broadcast.bit k = (!decide (k.val < prefix_len.toNat) || addr.bit k) := by
  obtain ⟨mask, made, bits⟩ := boundary_mask prefix_len
  obtain ⟨after, result, bytes⟩ := broadcast_bytes below made addr
  refine ⟨_, result, ?_⟩
  intro k
  have cut := bits_of_bytes bytes (by
    intro j _ i inside
    rw [BitVec.getMsbD_or, bits i inside]
    by_cases kept : i < prefix_len.toNat % 8
    · rw [if_pos kept, decide_eq_false (Nat.not_le.mpr kept), Bool.or_false]
    · rw [if_neg kept, ones_bit inside, decide_eq_true (Nat.not_lt.mp kept), Bool.or_true]) k
  rw [SockAddrIn6.bit, cut]
  by_cases inside : k.val < prefix_len.toNat
  · rw [if_pos inside, decide_eq_true inside]
    rfl
  · rw [if_neg inside, ones_bit (Nat.mod_lt _ (by decide)), decide_eq_false inside]
    rfl

theorem broadcast_or (addr : SockAddrIn6) : ∃ subnet, subnetMask prefix_len = some subnet ∧
    broadcastAddress addr prefix_len = some { addr with
      s6_addr := addr.s6_addr.zipWith (fun byte mask => byte ||| ~~~mask) subnet.s6_addr } := by
  obtain ⟨mask, made, _⟩ := boundary_mask prefix_len
  obtain ⟨after, result, bytes⟩ := broadcast_bytes below made addr
  obtain ⟨subnet, masked, mask_bytes⟩ := subnet_bytes below made
  refine ⟨subnet, masked, ?_⟩
  have same : after =
      addr.s6_addr.zipWith (fun byte mask => byte ||| ~~~mask) subnet.s6_addr := by
    refine ext_bytes fun j => ?_
    rw [zipWith_byte, bytes, mask_bytes]
    by_cases before : j.val < prefix_len.toNat / 8
    · rw [if_pos before, if_pos before]
      exact BitVec.or_zero.symm
    · rw [if_neg before, if_neg before]
      by_cases at_boundary : j.val = prefix_len.toNat / 8
      · rw [if_pos at_boundary, if_pos at_boundary, BitVec.not_not]
      · rw [if_neg at_boundary, if_neg at_boundary]
        exact BitVec.or_allOnes.symm
  rw [result, same]

theorem broadcast_twice (addr : SockAddrIn6) :
    (broadcastAddress addr prefix_len).bind (broadcastAddress · prefix_len) =
      broadcastAddress addr prefix_len := by
  obtain ⟨mask, made, _⟩ := boundary_mask prefix_len
  obtain ⟨after, result, bytes⟩ := broadcast_bytes below made addr
  obtain ⟨twice, result', bytes'⟩ := broadcast_bytes below made { addr with s6_addr := after }
  have idempotent : ∀ byte : Byte, byte ||| mask ||| mask = byte ||| mask := by
    intro byte
    rw [BitVec.or_assoc, BitVec.or_self]
  have same : twice = after := bytes_twice (f := (· ||| mask)) idempotent bytes bytes'
  rw [result, Option.bind_some, result', same]

theorem network_twice (addr : SockAddrIn6) :
    (networkAddress addr prefix_len).bind (networkAddress · prefix_len) =
      networkAddress addr prefix_len := by
  obtain ⟨mask, made, _⟩ := boundary_mask prefix_len
  obtain ⟨after, result, bytes⟩ := network_bytes below made addr
  obtain ⟨twice, result', bytes'⟩ := network_bytes below made { addr with s6_addr := after }
  have idempotent : ∀ byte : Byte, byte &&& mask &&& mask = byte &&& mask := by
    intro byte
    rw [BitVec.and_assoc, BitVec.and_self]
  have same : twice = after := bytes_twice (f := (· &&& mask)) idempotent bytes bytes'
  rw [result, Option.bind_some, result', same]

end Right

/-! What is right of networkAddress when the byte at the boundary is 0. -/

section Network
variable {prefix_len : UInt32} (below : prefix_len < 128) {addr : SockAddrIn6}

theorem byte_zero {byte : Byte} (bits : ∀ i < 8, byte.getMsbD i = false) : byte = 0 := by
  refine BitVec.eq_of_getMsbD_eq fun i inside => ?_
  rw [bits i inside, zeros_bit]

theorem zero_and_byte (byte : Byte) : 0 &&& byte = 0 := BitVec.zero_and

theorem bit_of_byte (addr : SockAddrIn6) (j : Fin 16) {i : Nat} (inside : i < 8) :
    addr.bit ⟨8 * j + i, by omega⟩ = (addr.s6_addr.get j).getMsbD i := by
  have byte_index : (8 * j.val + i) / 8 = j.val := by omega
  have bit_index : (8 * j.val + i) % 8 = i := by omega
  simp only [SockAddrIn6.bit, byte_index, bit_index]

include below

theorem network_bits (zero : ∀ j : Fin 16, j.val = prefix_len.toNat / 8 → addr.s6_addr.get j = 0) :
    ∃ network, networkAddress addr prefix_len = some network ∧
      ∀ k : Fin 128, network.bit k = (decide (k.val < prefix_len.toNat) && addr.bit k) := by
  obtain ⟨mask, made, _⟩ := boundary_mask prefix_len
  obtain ⟨after, result, bytes⟩ := network_bytes below made addr
  refine ⟨_, result, ?_⟩
  intro k
  have cut := bits_of_bytes bytes (by
    intro j same i _
    rw [zero j same, zero_and_byte, zeros_bit]
    by_cases kept : i < prefix_len.toNat % 8
    · rw [if_pos kept]
    · rw [if_neg kept]) k
  rw [SockAddrIn6.bit, cut]
  by_cases inside : k.val < prefix_len.toNat
  · rw [if_pos inside, decide_eq_true inside, Bool.true_and]
    rfl
  · rw [if_neg inside, zeros_bit, decide_eq_false inside, Bool.false_and]

theorem network_and (zero : ∀ j : Fin 16, j.val = prefix_len.toNat / 8 → addr.s6_addr.get j = 0) :
    ∃ subnet, subnetMask prefix_len = some subnet ∧
      networkAddress addr prefix_len = some { addr with
        s6_addr := addr.s6_addr.zipWith (· &&& ·) subnet.s6_addr } := by
  obtain ⟨mask, made, _⟩ := boundary_mask prefix_len
  obtain ⟨after, result, bytes⟩ := network_bytes below made addr
  obtain ⟨subnet, masked, mask_bytes⟩ := subnet_bytes below made
  refine ⟨subnet, masked, ?_⟩
  have same : after = addr.s6_addr.zipWith (· &&& ·) subnet.s6_addr := by
    refine ext_bytes fun j => ?_
    rw [zipWith_byte, bytes, mask_bytes]
    by_cases before : j.val < prefix_len.toNat / 8
    · rw [if_pos before, if_pos before]
      exact BitVec.and_allOnes.symm
    · rw [if_neg before, if_neg before]
      by_cases at_boundary : j.val = prefix_len.toNat / 8
      · rw [if_pos at_boundary, zero j at_boundary, zero_and_byte, zero_and_byte]
      · rw [if_neg at_boundary, if_neg at_boundary]
        exact BitVec.and_zero.symm
  rw [result, same]

/-- The bits before the boundary are cleared and those after it are kept, so that
all must be 0. -/
theorem boundary_zero (bits : ∃ network, networkAddress addr prefix_len = some network ∧
      ∀ k : Fin 128, network.bit k = (decide (k.val < prefix_len.toNat) && addr.bit k))
    (j : Fin 16) (same : j.val = prefix_len.toNat / 8) : addr.s6_addr.get j = 0 := by
  obtain ⟨mask, made, mask_bits⟩ := boundary_mask prefix_len
  obtain ⟨after, result, bytes⟩ := network_bytes below made addr
  obtain ⟨network, result', meant⟩ := bits
  rw [result] at result'
  cases result'
  refine byte_zero fun i inside => ?_
  -- the bit of the address with this number, in the byte at the boundary
  have kept := meant ⟨8 * j + i, by omega⟩
  have stored : after.get j = addr.s6_addr.get j &&& mask := by
    rw [bytes, if_neg (by omega), if_pos same]
  rw [bit_of_byte _ j inside, bit_of_byte _ j inside, stored, BitVec.getMsbD_and,
    mask_bits i inside] at kept
  by_cases before : i < prefix_len.toNat % 8
  · have kept_bit : 8 * j.val + i < prefix_len.toNat := by omega
    rw [decide_eq_false (Nat.not_le.mpr before), decide_eq_true kept_bit, Bool.and_false,
      Bool.true_and] at kept
    exact kept.symm
  · have cleared_bit : ¬ 8 * j.val + i < prefix_len.toNat := by omega
    rw [decide_eq_true (Nat.not_lt.mp before), decide_eq_false cleared_bit, Bool.and_true,
      Bool.false_and] at kept
    exact kept

end Network

theorem prefixArithmetic_iff (addr : SockAddrIn6) (prefix_len : UInt32)
    (below : prefix_len < 128) :
    PrefixArithmetic addr prefix_len ↔
      ∀ j : Fin 16, j.val = prefix_len.toNat / 8 → addr.s6_addr.get j = 0 := by
  constructor
  · intro arithmetic
    exact boundary_zero below arithmetic.network
  · intro zero
    exact {
      mask := subnet_bits below
      network := network_bits below zero
      broadcast := broadcast_bits below addr
      network_and := network_and below zero
      broadcast_or := broadcast_or below addr
      network_twice := network_twice below addr
      broadcast_twice := broadcast_twice below addr }

def documentation : SockAddrIn6 :=
  { sin6_family := AF_INET6
    sin6_port := 0
    sin6_flowinfo := 0
    s6_addr := #v[0x20, 0x01, 0x0d, 0xb8, 0, 0, 0, 0, 0, 0, 0, 0, 0, 0, 0, 0]
    sin6_scope_id := 0 }

theorem prefixArithmetic_documentation : PrefixArithmetic documentation 64 :=
  (prefixArithmetic_iff documentation 64 (by decide)).mpr (by decide)

/-- In `2001:db8::` and 12 the byte at the boundary is 1, which is kept. -/
theorem network_keeps_host : ¬ PrefixArithmetic documentation 12 := by
  intro arithmetic
  exact absurd (boundary_zero (by decide) arithmetic.network 1 (by decide)) (by decide)

end Ztyco.IpAddresses
