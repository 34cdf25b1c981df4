import Ztyco.HostSplitting

/-!
`Address::Lookup` and `IPAddress::Create` of address.cc, with what they do to the
list of `getaddrinfo`. The resolver and which conversions run out of memory are
parameters. On an error the resolver stores nothing in `results`.
-/

namespace Ztyco.Lookups

structure SockAddr where
  sa_family : UInt16
  sa_data : List UInt8

structure AddrInfo where
  ai_family : Int
  ai_socktype : Int
  ai_addr : Option SockAddr

structure Hints where
  ai_flags : Int
  ai_family : Int
  ai_socktype : Int
  ai_protocol : Int

inductive Resolved where
  | error (code : Int) (failed : code ≠ 0)
  | found (list : List AddrInfo)

abbrev Resolver := Text → Option Text → Hints → Resolved

/-- An `addrinfo *`; the null pointer is the list without nodes. -/
inductive Pointer where
  | indeterminate
  | hints
  | list (nodes : List AddrInfo)

inductive Event where
  | reads (pointer : Pointer)
  | frees (pointer : Pointer)

inductive Ended (α : Type) where
  | returned (value : α)
  | threw
  | undefined

inductive Address where
  | ipv4 (m_addr : SockAddr)
  | ipv6 (m_addr : SockAddr)
  | unknown (m_addr : SockAddr)

def AF_INET : UInt16 := 2

def AF_INET6 : UInt16 := 10

def Address.create : Option SockAddr → Option Address
  | none => none
  | some addr =>
      if addr.sa_family = AF_INET then some (.ipv4 addr)
      else if addr.sa_family = AF_INET6 then some (.ipv6 addr)
      else some (.unknown addr)

def SockAddr.setPort (addr : SockAddr) (port : UInt16) : SockAddr :=
  { addr with sa_data := (port >>> 8).toUInt8 :: port.toUInt8 :: addr.sa_data.drop 2 }

def Address.withPort (port : UInt16) : Address → Option Address
  | .ipv4 addr => some (.ipv4 (addr.setPort port))
  | .ipv6 addr => some (.ipv6 (addr.setPort port))
  | .unknown _ => none

/-- A list of the resolver can be freed, and nothing else. -/
def freeaddrinfo {α : Type} (pointer : Pointer) (value : α) : List Event × Ended α :=
  ([.frees pointer], match pointer with | .list _ => .returned value | _ => .undefined)

/-- The loop of `Lookup` over the nodes from the one at position `i` on, until a
conversion throws. -/
def walk (throws : Nat → Bool) (i : Nat) (result : List (Option Address)) :
    List AddrInfo → List Event × List (Option Address) × Bool
  | [] => ([], result, false)
  | next :: rest =>
      if throws i then ([.reads (.list (next :: rest))], result, true)
      else
        let (events, result, threw) :=
          walk throws (i + 1) (result ++ [Address.create next.ai_addr]) rest
        (.reads (.list (next :: rest)) :: events, result, threw)

def lookupHints (family type protocol : Int) : Hints :=
  { ai_flags := 0, ai_family := family, ai_socktype := type, ai_protocol := protocol }

/-- `Address::Lookup`, with the vector that the caller is left with. -/
def lookup (getaddrinfo : Resolver) (throws : Nat → Bool) (result : List (Option Address))
    (host : Text) (family type protocol : Int) :
    List Event × List (Option Address) × Ended Bool :=
  match getaddrinfo (split host).1 (split host).2 (lookupHints family type protocol) with
  -- the error is logged, and `next = results` is next
  | .error _ _ => ([.reads .indeterminate], result, .undefined)
  | .found results =>
      let (events, result, threw) := walk throws 0 result results
      if threw then (events, result, .threw)
      else
        let (freed, ended) := freeaddrinfo (.list results) !result.isEmpty
        (events ++ freed, result, ended)

def AI_NUMERICHOST : Int := 4

def AF_UNSPEC : Int := 0

def numericHints : Hints :=
  { ai_flags := AI_NUMERICHOST, ai_family := AF_UNSPEC, ai_socktype := 0, ai_protocol := 0 }

def ipAddressCreate (getaddrinfo : Resolver) (throws : Bool) (address : Text) (port : UInt16) :
    List Event × Ended (Option Address) :=
  match getaddrinfo (cString address) none numericHints with
  | .error _ _ => ([], .returned none)
  -- `results->ai_addr` of a null pointer
  | .found [] => ([.reads (.list [])], .undefined)
  | .found (results :: rest) =>
      let made := if throws then none
        else (Address.create results.ai_addr).bind (Address.withPort port)
      -- on both ways out
      let (freed, ended) := freeaddrinfo .hints made
      (.reads (.list (results :: rest)) :: freed, ended)

def FreedOnce (results : List AddrInfo) (events : List Event) : Prop :=
  ∃ read : List (List AddrInfo), (∀ nodes ∈ read, nodes <:+ results ∧ nodes ≠ []) ∧
    events = read.map (fun nodes => .reads (.list nodes)) ++ [.frees (.list results)]

/-- What a call may do with an answer of the resolver: nothing on an error, for
which it returns `failure` with the vector as it was. -/
def UsesResults {α : Type} (resolved : Resolved) (failure : α) (before : List (Option Address))
    (events : List Event) (after : List (Option Address)) (ended : Ended α) : Prop :=
  match resolved with
  | .error _ _ => events = [] ∧ after = before ∧ ended = .returned failure
  | .found results => FreedOnce results events

def LookupUsesResults (getaddrinfo : Resolver) (throws : Nat → Bool)
    (result : List (Option Address)) (host : Text) (family type protocol : Int) : Prop :=
  let (events, after, ended) := lookup getaddrinfo throws result host family type protocol
  UsesResults (getaddrinfo (split host).1 (split host).2 (lookupHints family type protocol))
    false result events after ended

def CreateUsesResults (getaddrinfo : Resolver) (throws : Bool) (address : Text)
    (port : UInt16) : Prop :=
  let (events, ended) := ipAddressCreate getaddrinfo throws address port
  UsesResults (getaddrinfo (cString address) none numericHints) none [] events [] ended

/-! The walk over the list. -/

theorem walk_reads (throws : Nat → Bool) (i : Nat) (result : List (Option Address))
    (nodes : List AddrInfo) :
    ∃ read : List (List AddrInfo), (∀ suffix ∈ read, suffix <:+ nodes ∧ suffix ≠ []) ∧
      (walk throws i result nodes).1 = read.map fun suffix => .reads (.list suffix) := by
  induction nodes generalizing i result with
  | nil => exact ⟨[], fun _ mem => absurd mem List.not_mem_nil, rfl⟩
  | cons next rest ih =>
      have first : next :: rest <:+ next :: rest ∧ next :: rest ≠ [] :=
        ⟨List.suffix_rfl, List.cons_ne_nil _ _⟩
      by_cases now : throws i = true
      · refine ⟨[next :: rest], ?_, by rw [walk, if_pos now]; rfl⟩
        intro suffix mem
        rw [List.mem_singleton.mp mem]
        exact first
      · obtain ⟨read, suffixes, events⟩ := ih (i + 1) (result ++ [Address.create next.ai_addr])
        refine ⟨(next :: rest) :: read, ?_, by rw [walk, if_neg now, List.map_cons, ← events]⟩
        intro suffix mem
        rcases List.mem_cons.mp mem with rfl | later
        · exact first
        · have shorter := suffixes suffix later
          exact ⟨shorter.1.trans (List.suffix_cons _ _), shorter.2⟩

theorem walk_quiet_iff (throws : Nat → Bool) (i : Nat) (result : List (Option Address))
    (nodes : List AddrInfo) :
    (walk throws i result nodes).2.2 = false ↔ ∀ k < nodes.length, throws (i + k) = false := by
  induction nodes generalizing i result with
  | nil =>
      simp [walk]
  | cons next rest ih =>
      by_cases now : throws i = true
      · rw [walk, if_pos now]
        constructor
        · intro quiet
          cases quiet
        · intro quiet
          exact absurd now (Bool.eq_false_iff.mp (quiet 0 (Nat.succ_pos _)))
      · rw [walk, if_neg now]
        change (walk throws (i + 1) _ rest).2.2 = false ↔ _
        rw [ih]
        constructor
        · intro quiet k below
          rcases k with _ | k
          · exact Bool.eq_false_iff.mpr now
          · have later := quiet k (Nat.lt_of_succ_lt_succ below)
            rwa [Nat.add_assoc, Nat.add_comm 1 k] at later
        · intro quiet k below
          have later := quiet (k + 1) (Nat.succ_lt_succ below)
          rwa [Nat.add_assoc, Nat.add_comm 1 k]

theorem FreedOnce.mem {results : List AddrInfo} {events : List Event}
    (freed : FreedOnce results events) : .frees (.list results) ∈ events := by
  obtain ⟨read, _, rfl⟩ := freed
  exact List.mem_append_right _ List.mem_cons_self

theorem not_freedOnce_walk (throws : Nat → Bool) (result : List (Option Address))
    (results : List AddrInfo) : ¬ FreedOnce results (walk throws 0 result results).1 := by
  intro freed
  have mem := freed.mem
  obtain ⟨read, _, reads⟩ := walk_reads throws 0 result results
  rw [reads] at mem
  obtain ⟨_, _, other⟩ := List.mem_map.mp mem
  cases other

/-! What the two functions do with an answer. -/

theorem lookupUsesResults_iff (getaddrinfo : Resolver) (throws : Nat → Bool)
    (result : List (Option Address)) (host : Text) (family type protocol : Int) :
    LookupUsesResults getaddrinfo throws result host family type protocol ↔
      ∃ results, getaddrinfo (split host).1 (split host).2 (lookupHints family type protocol) =
          .found results ∧ ∀ i < results.length, throws i = false := by
  rw [LookupUsesResults, lookup]
  cases answer : getaddrinfo (split host).1 (split host).2
      (lookupHints family type protocol) with
  | error code failed =>
      constructor
      · rintro ⟨quiet, _⟩
        cases quiet
      · rintro ⟨results, other, _⟩
        cases other
  | found results =>
      have quiet_iff := walk_quiet_iff throws 0 result results
      simp only [Nat.zero_add] at quiet_iff
      obtain ⟨read, suffixes, events⟩ := walk_reads throws 0 result results
      cases threw : (walk throws 0 result results).2.2 with
      | true =>
          -- the exception leaves before the list is freed
          have leaked := not_freedOnce_walk throws result results
          simp only [threw, if_true]
          constructor
          · intro freed
            exact absurd freed leaked
          · rintro ⟨_, same, quiet⟩
            cases same
            rw [quiet_iff.mpr quiet] at threw
            cases threw
      | false =>
          simp only [threw, Bool.false_eq_true, if_false, events]
          constructor
          · intro _
            exact ⟨results, rfl, quiet_iff.mp threw⟩
          · intro _
            exact ⟨read, suffixes, rfl⟩

/-- The hints are freed in place of the list, and the null pointer is read. -/
theorem createUsesResults_iff (getaddrinfo : Resolver) (throws : Bool) (address : Text)
    (port : UInt16) :
    CreateUsesResults getaddrinfo throws address port ↔
      ∃ code failed, getaddrinfo (cString address) none numericHints = .error code failed := by
  rw [CreateUsesResults, ipAddressCreate]
  rcases getaddrinfo (cString address) none numericHints with ⟨code, failed⟩ | (_ | ⟨node, rest⟩)
  · exact iff_of_true ⟨rfl, rfl, rfl⟩ ⟨code, failed, rfl⟩
  · constructor
    · intro freed
      rcases List.mem_singleton.mp (FreedOnce.mem freed) with other
      cases other
    · rintro ⟨_, _, other⟩
      cases other
  · constructor
    · intro freed
      rcases List.mem_cons.mp (FreedOnce.mem freed) with other | mem
      · cases other
      · cases List.mem_singleton.mp mem
    · rintro ⟨_, _, other⟩
      cases other

/-- Both functions, each with its own answer of the resolver. -/
theorem usesResults_iff (getaddrinfo : Resolver) :
    (∀ throws result host family type protocol,
      LookupUsesResults getaddrinfo throws result host family type protocol ↔
        ∃ results, getaddrinfo (split host).1 (split host).2
          (lookupHints family type protocol) = .found results ∧
            ∀ i < results.length, throws i = false) ∧
    ∀ throws address port,
      CreateUsesResults getaddrinfo throws address port ↔
        ∃ code failed,
          getaddrinfo (cString address) none numericHints = .error code failed :=
  ⟨lookupUsesResults_iff getaddrinfo, createUsesResults_iff getaddrinfo⟩

def noName : Resolver := fun _ _ _ => .error (-2) (by decide)

def loopback : Resolver := fun _ _ _ =>
  .found [
    { ai_family := 2
      ai_socktype := 1
      ai_addr := some { sa_family := AF_INET, sa_data := [0, 80, 127, 0, 0, 1] } }]

theorem results_misused :
    ¬ LookupUsesResults noName (fun _ => false) [] "localhost:80".toList 2 1 0 ∧
      ¬ CreateUsesResults loopback false "127.0.0.1".toList 80 := by
  constructor
  · rintro ⟨quiet, _⟩
    cases quiet
  · intro uses
    obtain ⟨_, _, other⟩ := (createUsesResults_iff _ _ _ _).mp uses
    cases other

end Ztyco.Lookups
