import Ztyco.HostSplitting
import Ztyco.IpText
import Ztyco.Ipv4Subnets

/-!
From an IP address to its text and back. `insert` writes an address and its port,
`Address::Lookup` cuts such a text into a node and a service, and the `Create` of the
address's class reads the node. `inet_pton` is a parameter for either family, of which
four octets in decimal and the texts that IpText reads are used. An address that copies a
sockaddr may hold more than its text says.
-/

namespace Ztyco.IpAddresses

namespace IPv4Address

def part (value : BitVec 32) (n : Nat) : Nat := ((value >>> n) &&& 0xff).toNat

def insert (addr : SockAddrIn) (os : OStream) : OStream :=
  let value := byteswapOnLittleEndian addr.s_addr
  let os := ((os.number (part value 24)).put ['.']).number (part value 16)
  let os := (((os.put ['.']).number (part value 8)).put ['.']).number (part value 0)
  (os.put [':']).number (IpAddresses.byteswapOnLittleEndian addr.sin_port).toNat

def create (inet_pton : Text → Option (BitVec 32)) (address : Text) (port : Word) :
    Option SockAddrIn :=
  (inet_pton address).map fun s_addr => {
    sin_family := AF_INET
    sin_port := IpAddresses.byteswapOnLittleEndian port
    s_addr := s_addr
    sin_zero := 0 }

def octets (value : BitVec 32) : List Byte :=
  [value.extractLsb' 24 8, value.extractLsb' 16 8, value.extractLsb' 8 8, value.extractLsb' 0 8]

def dotted (value : BitVec 32) : Text :=
  ['.'].intercalate ((octets value).map fun byte => Nat.toDigits 10 byte.toNat)

theorem part_eq (value : BitVec 32) (n : Nat) : part value n = (value.extractLsb' n 8).toNat := by
  rw [part, BitVec.toNat_and, BitVec.toNat_ushiftRight, BitVec.extractLsb'_toNat]
  exact Nat.and_two_pow_sub_one_eq_mod _ 8

theorem not_mem_decimal {c : Char} (other : c.isDigit = false) (n : Nat) :
    c ∉ Nat.toDigits 10 n := by
  intro mem
  have digit := Nat.isDigit_of_mem_toDigits (by decide) (by decide) mem
  rw [other] at digit
  cases digit

theorem not_mem_dotted {c : Char} (other : c.isDigit = false) (noDot : c ≠ '.')
    (value : BitVec 32) : c ∉ dotted value := by
  have digits := not_mem_decimal other
  simp [dotted, octets, List.intercalate_cons_cons, digits, noDot]

theorem insert_text (addr : SockAddrIn) (before : Text) :
    (insert addr { text := before }).text = before ++
      (dotted (byteswapOnLittleEndian addr.s_addr) ++
        ':' :: Nat.toDigits 10 (IpAddresses.byteswapOnLittleEndian addr.sin_port).toNat) := by
  simp only [insert, part_eq, OStream.number, OStream.put, dotted, octets, List.map_cons,
    List.map_nil, List.intercalate_cons_cons, List.intercalate_singleton]
  simp

/-- What `inet_pton(AF_INET, ..)` is documented to read: the bytes in network order. -/
def ReadsDotted (inet_pton : Text → Option (BitVec 32)) : Prop :=
  ∀ first second third fourth : Byte, inet_pton (['.'].intercalate
    ([first, second, third, fourth].map fun byte => Nat.toDigits 10 byte.toNat)) =
      some (fourth ++ third ++ second ++ first)

theorem reads_dotted {inet_pton : Text → Option (BitVec 32)} (reads : ReadsDotted inet_pton)
    (value : BitVec 32) : inet_pton (dotted value) = some (byteswapOnLittleEndian value) :=
  reads (value.extractLsb' 24 8) (value.extractLsb' 16 8) (value.extractLsb' 8 8)
    (value.extractLsb' 0 8)

end IPv4Address

/-! IPv6. -/

def IPv6Address.create (inet_pton : Text → Option In6Addr) (address : Text) (port : Word) :
    Option SockAddrIn6 :=
  (inet_pton address).map fun s6_addr => {
    sin6_family := AF_INET6
    sin6_port := byteswapOnLittleEndian port
    sin6_flowinfo := 0
    s6_addr := s6_addr
    sin6_scope_id := 0 }

/-- What `inet_pton(AF_INET6, ..)` is documented to read. -/
def IPv6Address.ReadsGroups (inet_pton : Text → Option In6Addr) : Prop :=
  ∀ text addr, parse text = some addr.toList → inet_pton text = some addr

theorem insert_parses (addr : SockAddrIn6) :
    ∃ body, (insert addr { text := [] }).text = '[' :: (body ++ ']' :: ':' ::
        Nat.toDigits 10 (byteswapOnLittleEndian addr.sin6_port).toNat) ∧
      (∀ c, hexDigit c = none → c ≠ ':' → c ∉ body) ∧ parse body = some addr.s6_addr.toList := by
  rcases insert_body addr [] with ⟨body, text, shape⟩
  have eight : (words addr.s6_addr).length = 8 := List.length_ofFn
  refine ⟨body, text, ?_, ?_⟩
  · intro c other noColon
    rcases shape with rfl | ⟨left, n, right, _, rfl⟩
    · exact not_mem_joined other noColon _
    · simp [not_mem_joined other noColon, noColon]
  · have groups : parseGroups body = some ((words addr.s6_addr).map byteswapOnLittleEndian) := by
      rcases shape with rfl | ⟨left, n, right, split, rfl⟩
      · exact parseGroups_full eight
      · rw [split, List.length_append, List.length_append, List.length_replicate] at eight
        have run : 8 - (left.length + right.length) = n + 1 := by omega
        rw [parseGroups_compressed (by omega), run, split]
        simp only [List.map_append, List.map_replicate, List.append_assoc]
        rfl
    rw [parse, groups, Option.map_some, words_bytes]

/-! Both classes. -/

inductive IPAddress where
  | v4 (m_addr : SockAddrIn)
  | v6 (m_addr : SockAddrIn6)

namespace IPAddress

/-- `Address::toString`, with the `insert` of the class. -/
def toString : IPAddress → Text
  | .v4 addr => (IPv4Address.insert addr { text := [] }).text
  | .v6 addr => (IpAddresses.insert addr { text := [] }).text

def getPort : IPAddress → Word
  | .v4 addr => byteswapOnLittleEndian addr.sin_port
  | .v6 addr => byteswapOnLittleEndian addr.sin6_port

def create (inet_pton : Text → Option (BitVec 32)) (inet_pton6 : Text → Option In6Addr)
    (address : Text) (port : Word) : IPAddress → Option IPAddress
  | .v4 _ => (IPv4Address.create inet_pton address port).map .v4
  | .v6 _ => (IPv6Address.create inet_pton6 address port).map .v6

def asWritten : IPAddress → IPAddress
  | .v4 addr => .v4 { addr with sin_family := AF_INET, sin_zero := 0 }
  | .v6 addr => .v6 { addr with
      sin6_family := AF_INET6, sin6_flowinfo := 0, sin6_scope_id := 0 }

def Plain : IPAddress → Prop
  | .v4 addr => addr.sin_family = AF_INET ∧ addr.sin_zero = 0
  | .v6 addr => addr.sin6_family = AF_INET6 ∧ addr.sin6_flowinfo = 0 ∧ addr.sin6_scope_id = 0

theorem asWritten_iff (address : IPAddress) : address.asWritten = address ↔ address.Plain := by
  cases address with
  | v4 addr =>
      cases addr
      simp only [asWritten, Plain, IPAddress.v4.injEq, SockAddrIn.mk.injEq, true_and]
      exact and_congr eq_comm eq_comm
  | v6 addr =>
      cases addr
      simp only [asWritten, Plain, IPAddress.v6.injEq, SockAddrIn6.mk.injEq, true_and]
      exact and_congr eq_comm (and_congr eq_comm eq_comm)

end IPAddress

theorem nul_not_decimal (n : Nat) : Lookups.nul ∉ Nat.toDigits 10 n :=
  IPv4Address.not_mem_decimal rfl n

/-- What `toString` writes of an address is cut by `Address::Lookup` into a node and its
port in decimal, and the node is read as the address but for what the text does not say. -/
theorem printed_reads_back (inet_pton : Text → Option (BitVec 32))
    (inet_pton6 : Text → Option In6Addr) (dotted : IPv4Address.ReadsDotted inet_pton)
    (groups : IPv6Address.ReadsGroups inet_pton6)
    (address : IPAddress) :
    ∃ node, Lookups.split address.toString =
        (node, some (Nat.toDigits 10 address.getPort.toNat)) ∧
      address.create inet_pton inet_pton6 node address.getPort = some address.asWritten ∧
      (address.create inet_pton inet_pton6 node address.getPort = some address ↔
        address.Plain) := by
  have same : ∀ node, address.create inet_pton inet_pton6 node address.getPort =
      some address.asWritten → (address.create inet_pton inet_pton6 node address.getPort =
        some address ↔ address.Plain) := by
    intro node read
    rw [read, Option.some.injEq]
    exact IPAddress.asWritten_iff address
  suffices reads : ∃ node, Lookups.split address.toString =
      (node, some (Nat.toDigits 10 address.getPort.toNat)) ∧
      address.create inet_pton inet_pton6 node address.getPort = some address.asWritten by
    rcases reads with ⟨node, split, read⟩
    exact ⟨node, split, read, same node read⟩
  cases address with
  | v4 addr =>
      have text := IPv4Address.insert_text addr []
      have plain := fun c other noDot => IPv4Address.not_mem_dotted (c := c) other noDot
        (IPv4Address.byteswapOnLittleEndian addr.s_addr)
      have first := nul_not_decimal (byteswapOnLittleEndian addr.sin_port).toNat
      have single := IPv4Address.not_mem_decimal (c := ':') rfl
        (byteswapOnLittleEndian addr.sin_port).toNat
      refine ⟨IPv4Address.dotted (IPv4Address.byteswapOnLittleEndian addr.s_addr), ?_, ?_⟩
      · rw [IPAddress.toString, text, List.nil_append]
        apply Lookups.split_nameService (plain ':' rfl (by decide)) (plain '[' rfl (by decide))
        · simp [IPv4Address.dotted, IPv4Address.octets, List.intercalate_cons_cons]
        · exact single
        · have none := plain Lookups.nul rfl (by decide)
          rw [List.mem_append, List.mem_cons]
          rintro (mem | same | mem)
          · exact none mem
          · exact absurd same (by decide)
          · exact first mem
      · rw [IPAddress.create, IPv4Address.create, IPv4Address.reads_dotted dotted,
          IPv4Address.byteswap_twice, IPAddress.getPort, byteswap_twice]
        rfl
  | v6 addr =>
      rcases insert_parses addr with ⟨body, text, plain, parses⟩
      refine ⟨body, ?_, ?_⟩
      · rw [IPAddress.toString, text]
        apply Lookups.split_bracketed
        · rintro rfl
          cases parses
        · exact plain ']' (by decide) (by decide)
        · have none := plain Lookups.nul (by decide) (by decide)
          have port := nul_not_decimal (byteswapOnLittleEndian addr.sin6_port).toNat
          simp only [List.mem_cons, List.mem_append]
          rintro (same | mem | same | same | mem)
          · exact absurd same (by decide)
          · exact none mem
          · exact absurd same (by decide)
          · exact absurd same (by decide)
          · exact port mem
        · rfl
      · rw [IPAddress.create, IPv6Address.create, groups body addr.s6_addr parses,
          IPAddress.getPort, byteswap_twice]
        rfl

/-! The readers of the example. -/

def octet (text : Text) : Option Byte :=
  if text.all Char.isDigit && text ≠ [] && (text.head? ≠ some '0' || text = ['0']) then
    let value := Nat.ofDigitChars 10 text 0
    if value ≤ 255 then some (BitVec.ofNat 8 value) else none
  else none

/-- `inet_pton(AF_INET, ..)`: four octets, as the machine reads the bytes they make. -/
def readOctets (text : Text) : Option (BitVec 32) :=
  match (text.splitOn '.').mapM octet with
  | some [first, second, third, fourth] => some (fourth ++ third ++ second ++ first)
  | _ => none

theorem octet_digits (byte : Byte) : octet (Nat.toDigits 10 byte.toNat) = some byte := by
  have all : ∀ n : Fin 256, octet (Nat.toDigits 10 n.val) = some (BitVec.ofNat 8 n.val) := by
    decide +kernel
  have one := all ⟨byte.toNat, byte.isLt⟩
  rw [BitVec.ofNat_toNat, BitVec.setWidth_eq] at one
  exact one

theorem readOctets_dotted : IPv4Address.ReadsDotted readOctets := by
  intro first second third fourth
  have plain : ∀ text ∈ [first, second, third, fourth].map fun byte =>
      Nat.toDigits 10 byte.toNat, '.' ∉ text := by
    intro text mem
    rcases List.mem_map.mp mem with ⟨byte, _, rfl⟩
    exact IPv4Address.not_mem_decimal rfl _
  have read : ([first, second, third, fourth].map fun byte => Nat.toDigits 10 byte.toNat).mapM
      octet = some [first, second, third, fourth] := by
    simp only [List.map_cons, List.map_nil, List.mapM_cons, List.mapM_nil, octet_digits]
    rfl
  rw [readOctets, List.splitOn_intercalate '.' plain (by simp), read]

def readGroups (text : Text) : Option In6Addr :=
  (parse text).bind fun bytes =>
    if sixteen : bytes.toArray.size = 16 then some ⟨bytes.toArray, sixteen⟩ else none

theorem readGroups_reads : IPv6Address.ReadsGroups readGroups := by
  intro text addr read
  have size : addr.toList.toArray.size = 16 := by simp
  rw [readGroups, read, Option.bind_some, dif_pos size]
  simp [Vector.toList]

/-- fe80::1 with the index of an interface, as the resolver answers. -/
def linkLocal : SockAddrIn6 :=
  { sin6_family := AF_INET6
    sin6_port := byteswapOnLittleEndian 8020
    sin6_flowinfo := 0
    s6_addr := #v[0xfe, 0x80, 0, 0, 0, 0, 0, 0, 0, 0, 0, 0, 0, 0, 0, 1]
    sin6_scope_id := 2 }

theorem printed_reads_back_local :
    ∃ node, Lookups.split (IPAddress.v6 linkLocal).toString =
        (node, some (Nat.toDigits 10 (IPAddress.v6 linkLocal).getPort.toNat)) ∧
      (IPAddress.v6 linkLocal).create readOctets readGroups node
          (IPAddress.v6 linkLocal).getPort = some (IPAddress.v6 linkLocal).asWritten ∧
      ((IPAddress.v6 linkLocal).create readOctets readGroups node
          (IPAddress.v6 linkLocal).getPort = some (.v6 linkLocal) ↔
        (IPAddress.v6 linkLocal).Plain) :=
  printed_reads_back readOctets readGroups readOctets_dotted readGroups_reads (.v6 linkLocal)

example : ¬ (IPAddress.v6 linkLocal).Plain := fun plain => absurd plain.2.2 (by decide)

end Ztyco.IpAddresses
