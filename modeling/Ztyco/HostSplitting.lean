import Mathlib.Algebra.Ring.Nat
import Mathlib.Data.List.Basic
import Mathlib.Data.List.TakeWhile

/-!
`Address::Lookup` of address.cc cuts its host into the node and the service that
it passes to `getaddrinfo`. A position stands for a pointer into `host.c_str()`.
The two searches share the variables `node` and `service`.
-/

namespace Ztyco.Lookups

abbrev Text := List Char

def nul : Char := Char.ofNat 0

def memchr (host : Text) (start : Nat) (c : Char) : Option Nat :=
  ((host.drop start).findIdx? (· = c)).map (start + ·)

def bracketed (host : Text) : Text × Option Nat :=
  if host.head? = some '[' then
    match memchr host 1 ']' with
    | some endipv6 =>
        ((host.drop 1).take (endipv6 - 1),
          if host[endipv6 + 1]? = some ':' then some (endipv6 + 2) else none)
    | none => ([], none)
  else ([], none)

def separated (host : Text) : Text × Option Nat :=
  match memchr host 0 ':' with
  | some service =>
      match memchr host (service + 1) ':' with
      | none => (host.take service, some (service + 1))
      -- the position of the first colon is kept
      | some _ => ([], some service)
  | none => ([], none)

/-- What a C function reads of a string. -/
def cString (text : Text) : Text := text.takeWhile (· ≠ nul)

/-- The node and the service of the call of `getaddrinfo`. -/
def split (host : Text) : Text × Option Text :=
  let (node, service) := bracketed host
  -- a service of the first search is lost when its node is empty
  let (node, service) := if node = [] then separated host else (node, service)
  let node := if node = [] then host else node
  (cString node, service.map fun pos => cString (host.drop pos))

/-- The node and the service that a host stands for. -/
inductive StandsFor : Text → Text → Option Text → Prop where
  | name (node : Text) (plain : ':' ∉ node) (unbracketed : '[' ∉ node) :
      StandsFor node node none
  | nameService (node service : Text) (plain : ':' ∉ node) (unbracketed : '[' ∉ node)
      (nonempty : node ≠ []) (single : ':' ∉ service) :
      StandsFor (node ++ ':' :: service) node (some service)
  | brackets (node : Text) (nonempty : node ≠ []) (unclosed : ']' ∉ node) :
      StandsFor ('[' :: (node ++ [']'])) node none
  | bracketsService (node service : Text) (nonempty : node ≠ []) (unclosed : ']' ∉ node) :
      StandsFor ('[' :: (node ++ ']' :: ':' :: service)) node (some service)
  | address (node : Text) (unbracketed : node.head? ≠ some '[') (colons : 2 ≤ node.count ':') :
      StandsFor node node none

def SplitsAsMeant (host : Text) : Prop :=
  ∀ node service, StandsFor host node service → split host = (node, service)

/-! The searches. -/

theorem findIdx_absent {text : Text} {c : Char} (absent : c ∉ text) :
    text.findIdx? (· = c) = none :=
  List.findIdx?_eq_none_iff.mpr fun _ mem => decide_eq_false fun same => absent (same ▸ mem)

theorem memchr_found {start before after : Text} {c : Char} (absent : c ∉ before) :
    memchr (start ++ (before ++ c :: after)) start.length c =
      some (start.length + before.length) := by
  rw [memchr, List.drop_left, List.findIdx?_append, findIdx_absent absent, Option.none_or,
    List.findIdx?_cons]
  simp [Nat.add_comm]

theorem memchr_absent {start after : Text} {c : Char} (absent : c ∉ after) :
    memchr (start ++ after) start.length c = none := by
  rw [memchr, List.drop_left, findIdx_absent absent, Option.map_none]

theorem cString_eq {text : Text} (terminated : nul ∉ text) : cString text = text := by
  rw [cString, List.takeWhile_eq_self_iff]
  intro c mem
  exact decide_eq_true fun same => terminated (same ▸ mem)

theorem bracketed_nothing {host : Text} (unbracketed : host.head? ≠ some '[') :
    bracketed host = ([], none) := by
  rw [bracketed, if_neg unbracketed]

/-- What follows the bracket decides about the service. -/
theorem bracketed_node {node rest : Text} (unclosed : ']' ∉ node) :
    bracketed ('[' :: (node ++ ']' :: rest)) =
      (node, if rest.head? = some ':' then some (node.length + 3) else none) := by
  have found : memchr ('[' :: (node ++ ']' :: rest)) 1 ']' = some (1 + node.length) :=
    @memchr_found ['['] node rest ']' unclosed
  have next : ('[' :: (node ++ ']' :: rest))[1 + node.length + 1]? = rest.head? := by
    rw [List.head?_eq_getElem?, Nat.add_comm 1, List.getElem?_cons_succ,
      List.getElem?_append_right (Nat.le_succ _), Nat.succ_sub (Nat.le_refl _), Nat.sub_self,
      List.getElem?_cons_succ]
  have back : 1 + node.length + 2 = node.length + 3 := by omega
  rw [bracketed, if_pos List.head?_cons, found]
  simp only [next, back, Nat.add_sub_cancel_left, List.drop_one, List.tail_cons, List.take_left]

theorem separated_plain {host : Text} (plain : ':' ∉ host) : separated host = ([], none) := by
  rw [separated, show memchr host 0 ':' = none from @memchr_absent [] host ':' plain]

theorem separated_once {node service : Text} (plain : ':' ∉ node) (single : ':' ∉ service) :
    separated (node ++ ':' :: service) = (node, some (node.length + 1)) := by
  have first : memchr (node ++ ':' :: service) 0 ':' = some node.length := by
    simpa using @memchr_found [] node service ':' plain
  have second : memchr (node ++ ':' :: service) (node.length + 1) ':' = none := by
    -- the search starts behind the colon
    have absent := @memchr_absent (node ++ [':']) service ':' single
    rwa [List.append_assoc, List.length_append] at absent
  rw [separated, first]
  simp only [second, List.take_left]

theorem separated_twice {host : Text} (colons : 2 ≤ host.count ':') :
    ∃ service, separated host = ([], some service) := by
  have mem : ':' ∈ host := List.count_pos_iff.mp (by omega)
  obtain ⟨before, after, rfl, plain⟩ := List.eq_append_cons_of_mem mem
  rw [List.count_append, List.count_eq_zero.mpr plain, List.count_cons_self] at colons
  have again : ':' ∈ after := List.count_pos_iff.mp (by omega)
  obtain ⟨between, rest, rfl, absent⟩ := List.eq_append_cons_of_mem again
  have first : memchr (before ++ ':' :: (between ++ ':' :: rest)) 0 ':' = some before.length := by
    simpa using @memchr_found [] before (between ++ ':' :: rest) ':' plain
  have second : memchr (before ++ ':' :: (between ++ ':' :: rest)) (before.length + 1) ':' =
      some (before.length + 1 + between.length) := by
    have found := @memchr_found (before ++ [':']) between rest ':' absent
    rwa [List.append_assoc, List.length_append] at found
  refine ⟨before.length, ?_⟩
  rw [separated, first]
  simp only [second]

/-! The hosts of each form. -/

theorem split_bracketed {node rest : Text} {service : Option Text} (nonempty : node ≠ [])
    (unclosed : ']' ∉ node) (terminated : nul ∉ '[' :: (node ++ ']' :: rest))
    (after : service = if rest.head? = some ':' then some rest.tail else none) :
    split ('[' :: (node ++ ']' :: rest)) = (node, service) := by
  have mem_node : nul ∉ node := fun mem => terminated (by simp [mem])
  have mem_rest : nul ∉ rest := fun mem => terminated (by simp [mem])
  rw [split, bracketed_node unclosed]
  simp only [if_neg nonempty, cString_eq mem_node, after]
  by_cases colon : rest.head? = some ':'
  · have skipped : ('[' :: (node ++ ']' :: rest)).drop (node.length + 3) = rest.tail := by
      rw [List.drop_succ_cons, List.drop_append]
      simp
    have mem_tail : nul ∉ rest.tail := fun mem => mem_rest (List.mem_of_mem_tail mem)
    simp only [if_pos colon, Option.map_some, skipped, cString_eq mem_tail]
  · simp only [if_neg colon, Option.map_none]

theorem split_unbracketed {host : Text} (unbracketed : host.head? ≠ some '[')
    (terminated : nul ∉ host) : split host =
      (if (separated host).1 = [] then host else cString (separated host).1,
        (separated host).2.map fun pos => cString (host.drop pos)) := by
  rw [split, bracketed_nothing unbracketed]
  by_cases empty : (separated host).1 = []
  · simp only [if_pos, empty, cString_eq terminated]
  · simp only [if_pos, if_neg empty]

theorem split_name {node : Text} (plain : ':' ∉ node) (unbracketed : '[' ∉ node)
    (terminated : nul ∉ node) : split node = (node, none) := by
  have starts : node.head? ≠ some '[' := fun first => unbracketed (List.mem_of_head? first)
  rw [split_unbracketed starts terminated, separated_plain plain]
  rfl

theorem split_nameService {node service : Text} (plain : ':' ∉ node) (unbracketed : '[' ∉ node)
    (nonempty : node ≠ []) (single : ':' ∉ service) (terminated : nul ∉ node ++ ':' :: service) :
    split (node ++ ':' :: service) = (node, some service) := by
  have starts : (node ++ ':' :: service).head? ≠ some '[' := by
    intro first
    rw [List.head?_append_of_ne_nil _ nonempty] at first
    exact unbracketed (List.mem_of_head? first)
  have mem_node : nul ∉ node := fun mem => terminated (by simp [mem])
  have mem_service : nul ∉ service := fun mem => terminated (by simp [mem])
  have skipped : (node ++ ':' :: service).drop (node.length + 1) = service := by
    rw [List.drop_append]
    simp
  rw [split_unbracketed starts terminated, separated_once plain single]
  simp only [if_neg nonempty, Option.map_some, skipped, cString_eq mem_node,
    cString_eq mem_service]

/-- A host of several colons keeps a service that it does not name. -/
theorem split_address {host : Text} (unbracketed : host.head? ≠ some '[')
    (terminated : nul ∉ host) (colons : 2 ≤ host.count ':') :
    split host ≠ (host, none) := by
  obtain ⟨service, separates⟩ := separated_twice colons
  rw [split_unbracketed unbracketed terminated, separates]
  intro same
  exact Option.some_ne_none _ (Prod.mk.inj same).2

theorem splitsAsMeant_iff (host : Text) (terminated : nul ∉ host) :
    SplitsAsMeant host ↔ host.head? = some '[' ∨ host.count ':' ≤ 1 := by
  constructor
  · intro splits
    by_contra other
    rw [not_or, Nat.not_le] at other
    exact split_address other.1 terminated other.2 (splits _ _ (.address host other.1 other.2))
  · intro other node service stands
    cases stands with
    | name _ plain unbracketed => exact split_name plain unbracketed terminated
    | nameService _ service plain unbracketed nonempty single =>
        exact split_nameService plain unbracketed nonempty single terminated
    | brackets _ nonempty unclosed => exact split_bracketed nonempty unclosed terminated rfl
    | bracketsService _ service nonempty unclosed =>
        exact split_bracketed nonempty unclosed terminated rfl
    | address _ unbracketed colons =>
        rcases other with bracket | few
        · exact absurd bracket unbracketed
        · omega

theorem splitsAsMeant_local : SplitsAsMeant "localhost:80".toList :=
  (splitsAsMeant_iff _ (by decide)).mpr (Or.inr (by decide))

theorem loopback_keeps_service : ¬ SplitsAsMeant "::1".toList := by
  intro splits
  have meant := splits _ _ (.address "::1".toList (by decide) (by decide))
  exact absurd meant (by decide)

end Ztyco.Lookups
