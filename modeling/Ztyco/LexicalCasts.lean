import Ztyco.OrderedSet
import Ztyco.YamlConfig

/-!
`LexicalCast` of config.h between values and their YAML text, for integers,
strings and containers of them. The casts for containers load the text of every
element before they emit the whole, and emit every element before they read it
back, so an element goes through yaml-cpp twice as often as its container is
nested. A set is the list of its elements in order, a map that of its entries.
-/

namespace Ztyco.Config

/-- yaml-cpp: `operator<<` on a node, and `YAML::Load`. -/
structure Yaml where
  emit : Node → Text
  Load : Text → Node

namespace Node

def isKey (key : Text) : Node → Bool
  | .scalar text => text = key
  | _ => false

def setEntry (key : Text) (value : Node) : List (Node × Node) → List (Node × Node)
  | [] => [(.scalar key, value)]
  | entry :: rest =>
      if entry.1.isKey key then (entry.1, value) :: rest else entry :: setEntry key value rest

def decimal (n : Nat) : Text := Nat.toDigits 10 n

/-- `node[key] = value`. A sequence becomes the map of its indices; a scalar, on
which yaml-cpp throws, is left. -/
def assign (node : Node) (key : Text) (value : Node) : Node :=
  match node with
  | .null => .map [(.scalar key, value)]
  | .scalar text => .scalar text
  | .sequence items =>
      .map (setEntry key value (items.zipIdx.map fun item => (.scalar (decimal item.2), item.1)))
  | .map entries => .map (setEntry key value entries)

/-- `node[i]` for `i < node.size()`. A map, in which that looks for keys, is left out. -/
def elements : Node → Option (List Node)
  | .sequence items => some items
  | .null | .scalar _ => some []
  | .map _ => none

/-- From `begin()` to `end()`, as entries; elements that are none are `none`. -/
def entries : Node → Option (List (Node × Node))
  | .map entries => some entries
  | .null | .scalar _ | .sequence [] => some []
  | .sequence (_ :: _) => none

end Node

open Node (decimal)

/-- `boost::lexical_cast` to an integer; `none` is `bad_lexical_cast`. -/
def readDecimal (text : Text) : Option Nat :=
  if !text.isEmpty && text.all Char.isDigit then some (Nat.ofDigitChars 10 text 0) else none

theorem readDecimal_decimal (n : Nat) : readDecimal (decimal n) = some n := by
  have digits : (decimal n).all Char.isDigit = true :=
    List.all_eq_true.mpr fun c mem => Nat.isDigit_of_mem_toDigits (by decide) (by decide) mem
  have some : decimal n ≠ [] := Nat.toDigits_ne_nil
  have value : Nat.ofDigitChars 10 (decimal n) 0 = n :=
    Nat.ofDigitChars_toDigits (by decide) (by decide)
  simp only [readDecimal, digits, List.isEmpty_eq_false_iff.mpr some, Bool.not_false,
    Bool.and_self, ↓reduceIte, value]

inductive Ty where
  | int
  | string
  | vector (element : Ty)
  | list (element : Ty)
  | set (element : Ty)
  | map (element : Ty)
  deriving DecidableEq, Repr

def lexLess {Item : Type} (less : Item → Item → Bool) : List Item → List Item → Bool
  | _, [] => false
  | [], _ :: _ => true
  | a :: as, b :: bs => if less a b then true else if less b a then false else lexLess less as bs

def textLess : Text → Text → Bool := lexLess fun a b => a < b

namespace Ty

def Carrier : Ty → Type
  | .int => Nat
  | .string => Text
  | .vector t | .list t | .set t => List t.Carrier
  | .map t => List (Text × t.Carrier)

def pairLess {Item : Type} (less : Item → Item → Bool) (a b : Text × Item) : Bool :=
  textLess a.1 b.1 || (!textLess b.1 a.1 && less a.2 b.2)

def keyLess {Item : Type} (a b : Text × Item) : Bool := textLess a.1 b.1

def less : (t : Ty) → t.Carrier → t.Carrier → Bool
  | .int => fun (a b : Nat) => decide (a < b)
  | .string => textLess
  | .vector t | .list t | .set t => lexLess t.less
  | .map t => lexLess (pairLess t.less)

/-- The elements of a set and the entries of a map are in order, each once. -/
def Valid : (t : Ty) → t.Carrier → Prop
  | .int | .string => fun _ => True
  | .vector t | .list t => fun (v : List t.Carrier) => ∀ it ∈ v, t.Valid it
  | .set t => fun (v : List t.Carrier) =>
      OrderedSet.Sorted t.less v ∧ ∀ it ∈ v, t.Valid it
  | .map t => fun (v : List (Text × t.Carrier)) =>
      OrderedSet.Sorted keyLess v ∧ ∀ it ∈ v, t.Valid it.2

section Casts
variable (yaml : Yaml)

def toText : (t : Ty) → t.Carrier → Text
  | .int => decimal
  | .string => id
  | .vector t | .list t | .set t => fun (v : List t.Carrier) =>
      yaml.emit (.sequence (v.map fun it => yaml.Load (t.toText it)))
  | .map t => fun (v : List (Text × t.Carrier)) =>
      yaml.emit (v.foldl (fun node it => node.assign it.1 (yaml.Load (t.toText it.2)))
        (.sequence []))

def fromText : (t : Ty) → Text → Option t.Carrier
  | .int => readDecimal
  | .string => some
  | .vector t | .list t => fun v =>
      (yaml.Load v).elements.bind fun items => items.mapM fun it => t.fromText (yaml.emit it)
  | .set t => fun v =>
      ((yaml.Load v).elements.bind fun items => items.mapM fun it => t.fromText (yaml.emit it)).map
        (OrderedSet.insertAll t.less)
  | .map t => fun v =>
      ((yaml.Load v).entries.bind fun entries => entries.mapM fun it =>
        (t.fromText (yaml.emit it.2)).map fun value => (it.1.Scalar, value)).map
          (OrderedSet.insertAll keyLess)

end Casts

end Ty

/-! What comes back. -/

namespace Ty

def rereadText (v : Text) : Text := if v = [] then ['~'] else v

/-- The value that is read back: every empty string has become a `~`. -/
def reread : (t : Ty) → t.Carrier → t.Carrier
  | .int => id
  | .string => rereadText
  | .vector t | .list t => fun (v : List t.Carrier) => v.map t.reread
  | .set t => fun (v : List t.Carrier) => OrderedSet.insertAll t.less (v.map t.reread)
  | .map t => fun (v : List (Text × t.Carrier)) =>
      OrderedSet.insertAll keyLess (v.map fun it => (it.1, t.reread it.2))

def NoEmpty : (t : Ty) → t.Carrier → Prop
  | .int => fun _ => True
  | .string => fun (v : Text) => v ≠ []
  | .vector t | .list t | .set t => fun (v : List t.Carrier) => ∀ it ∈ v, t.NoEmpty it
  | .map t => fun (v : List (Text × t.Carrier)) => ∀ it ∈ v, t.NoEmpty it.2

def container : Ty → Bool
  | .int | .string => false
  | .vector _ | .list _ | .set _ | .map _ => true

def mapNode (yaml : Yaml) (t : Ty) (v : List (Text × t.Carrier)) : Node :=
  if v.isEmpty then .sequence []
  else .map (v.map fun it => (.scalar it.1, yaml.Load (t.toText yaml it.2)))

/-- yaml-cpp does with the nodes of this value what it does in general: it loads
the sequences and maps it has emitted, loads and emits a plain scalar as its
text, loads the empty text as null and emits null as `~`. -/
def Handled (yaml : Yaml) : (t : Ty) → t.Carrier → Prop
  | .int => fun (v : Nat) => yaml.Load (decimal v) = .scalar (decimal v) ∧
      yaml.emit (.scalar (decimal v)) = decimal v
  | .string => fun (v : Text) =>
      if v = [] then yaml.Load [] = .null ∧ yaml.emit .null = ['~']
      else yaml.Load v = .scalar v ∧ yaml.emit (.scalar v) = v
  | .vector t | .list t | .set t => fun (v : List t.Carrier) =>
      yaml.Load (yaml.emit (.sequence (v.map fun it => yaml.Load (t.toText yaml it)))) =
        .sequence (v.map fun it => yaml.Load (t.toText yaml it)) ∧
      ∀ it ∈ v, t.Handled yaml it
  | .map t => fun (v : List (Text × t.Carrier)) =>
      yaml.Load (yaml.emit (t.mapNode yaml v)) = t.mapNode yaml v ∧
      ∀ it ∈ v, t.Handled yaml it.2

end Ty

/-- yaml-cpp in general; `plain` tells the texts that are plain scalars. -/
structure Yaml.Faithful (yaml : Yaml) (plain : Text → Prop) : Prop where
  sequence : ∀ items, yaml.Load (yaml.emit (.sequence items)) = .sequence items
  map : ∀ entries, yaml.Load (yaml.emit (.map entries)) = .map entries
  load_plain : ∀ text, plain text → yaml.Load text = .scalar text
  emit_plain : ∀ text, plain text → yaml.emit (.scalar text) = text
  decimal : ∀ n, plain (Node.decimal n)
  load_empty : yaml.Load [] = .null
  emit_null : yaml.emit .null = ['~']

def Ty.Plain (plain : Text → Prop) : (t : Ty) → t.Carrier → Prop
  | .int => fun _ => True
  | .string => fun (v : Text) => v = [] ∨ plain v
  | .vector t | .list t | .set t => fun (v : List t.Carrier) => ∀ it ∈ v, t.Plain plain it
  | .map t => fun (v : List (Text × t.Carrier)) => ∀ it ∈ v, t.Plain plain it.2

theorem Yaml.Faithful.handled {yaml : Yaml} {plain : Text → Prop}
    (faithful : yaml.Faithful plain) :
    ∀ (t : Ty) (v : t.Carrier), t.Plain plain v → t.Handled yaml v := by
  intro t
  induction t with
  | int => exact fun v _ => ⟨faithful.load_plain _ (faithful.decimal v),
      faithful.emit_plain _ (faithful.decimal v)⟩
  | string =>
      intro v text
      simp only [Ty.Handled]
      split
      · exact ⟨faithful.load_empty, faithful.emit_null⟩
      · rename_i some
        have scalar : plain v := text.resolve_left some
        exact ⟨faithful.load_plain v scalar, faithful.emit_plain v scalar⟩
  | vector t ih | list t ih | set t ih =>
      exact fun v texts => ⟨faithful.sequence _, fun it mem => ih it (texts it mem)⟩
  | map t ih =>
      intro v texts
      refine ⟨?_, fun it mem => ih it.2 (texts it mem)⟩
      unfold Ty.mapNode
      split
      · exact faithful.sequence []
      · exact faithful.map _

/-! The entries of a map. -/

theorem setEntry_new {key : Text} (value : Node) {entries : List (Node × Node)}
    (new : ∀ entry ∈ entries, entry.1.isKey key = false) :
    Node.setEntry key value entries = entries ++ [(.scalar key, value)] := by
  induction entries with
  | nil => rfl
  | cons entry rest ih =>
      rcases List.forall_mem_cons.mp new with ⟨other, later⟩
      simp [Node.setEntry, other, ih later]

theorem textLess_irrefl (text : Text) : textLess text text = false := by
  induction text with
  | nil => rfl
  | cons c rest ih => simpa [textLess, lexLess] using ih

/-- Entries whose keys are in order are added one after another. -/
theorem foldl_assign (yaml : Yaml) (t : Ty) (v : List (Text × t.Carrier))
    (sorted : OrderedSet.Sorted Ty.keyLess v) :
    v.foldl (fun (node : Node) it => node.assign it.1 (yaml.Load (t.toText yaml it.2)))
      (.sequence []) = t.mapNode yaml v := by
  let entry : Text × t.Carrier → Node × Node :=
    fun it => (.scalar it.1, yaml.Load (t.toText yaml it.2))
  have all : ∀ (rest before : List (Text × t.Carrier)),
      OrderedSet.Sorted Ty.keyLess (before ++ rest) →
        rest.foldl (fun (node : Node) it => node.assign it.1 (yaml.Load (t.toText yaml it.2)))
          (Node.map (before.map entry)) = Node.map ((before ++ rest).map entry) := by
    intro rest
    induction rest with
    | nil => intro before _; simp
    | cons it rest ih =>
        intro before sorted
        have new : ∀ other ∈ before.map entry, other.1.isKey it.1 = false := by
          intro other mem
          rcases List.mem_map.mp mem with ⟨earlier, known, rfl⟩
          have below := (List.pairwise_append.mp sorted).2.2 earlier known it List.mem_cons_self
          refine decide_eq_false fun same => ?_
          have irreflexive := textLess_irrefl it.1
          simp [Ty.keyLess, same, irreflexive] at below
        rw [List.foldl_cons, Node.assign, setEntry_new _ new]
        have next := ih (before ++ [it]) (by simpa using sorted)
        simpa [entry] using next
  cases v with
  | nil => rfl
  | cons it rest =>
      have start : (Node.sequence []).assign it.1 (yaml.Load (t.toText yaml it.2)) =
          Node.map ([it].map entry) := rfl
      rw [List.foldl_cons, start, all rest [it] sorted]
      rfl

/-! The round trip. -/

theorem mapM_some {Item Result : Type} {f : Item → Option Result} {g : Item → Result}
    {items : List Item} (each : ∀ it ∈ items, f it = some (g it)) :
    items.mapM f = some (items.map g) := by
  induction items with
  | nil => rfl
  | cons it rest ih =>
      rcases List.forall_mem_cons.mp each with ⟨first, later⟩
      simp [List.mapM_cons, first, ih later]

section RoundTrip
variable {yaml : Yaml}

theorem emit_load_container {t : Ty} {v : t.Carrier} (container : t.container = true)
    (valid : t.Valid v) (handled : t.Handled yaml v) :
    yaml.emit (yaml.Load (t.toText yaml v)) = t.toText yaml v := by
  cases t with
  | int | string => cases container
  | vector t | list t | set t => exact congrArg yaml.emit handled.1
  | map t =>
      simp only [Ty.toText]
      rw [foldl_assign yaml t v valid.1]
      exact congrArg yaml.emit handled.1

theorem elements_fromText {t : Ty} {v : List t.Carrier}
    (each : ∀ it ∈ v, t.fromText yaml (yaml.emit (yaml.Load (t.toText yaml it))) =
      some (t.reread it)) :
    ((Node.sequence (v.map fun it => yaml.Load (t.toText yaml it))).elements.bind fun items =>
      items.mapM fun it => t.fromText yaml (yaml.emit it)) = some (v.map t.reread) := by
  simp only [Node.elements, Option.bind_some, List.mapM_map]
  exact mapM_some each

theorem entries_fromText {t : Ty} {v : List (Text × t.Carrier)}
    (each : ∀ it ∈ v, t.fromText yaml (yaml.emit (yaml.Load (t.toText yaml it.2))) =
      some (t.reread it.2)) :
    ((t.mapNode yaml v).entries.bind fun entries => entries.mapM fun it =>
      (t.fromText yaml (yaml.emit it.2)).map fun value => (it.1.Scalar, value)) =
        some (v.map fun it => (it.1, t.reread it.2)) := by
  cases v with
  | nil => rfl
  | cons it rest =>
      simp only [Ty.mapNode, List.isEmpty_cons, Bool.false_eq_true, ↓reduceIte, Node.entries,
        Option.bind_some, List.mapM_map]
      apply mapM_some
      intro it mem
      simp only [Node.Scalar, Function.comp_apply]
      rw [each it mem, Option.map_some]

/-- What is read back of a value's text, once it has been loaded and emitted. -/
theorem fromText_emit_load (t : Ty) (v : t.Carrier) (valid : t.Valid v)
    (handled : t.Handled yaml v) :
    t.fromText yaml (yaml.emit (yaml.Load (t.toText yaml v))) = some (t.reread v) := by
  induction t with
  | int =>
      obtain ⟨load, emit⟩ := handled
      have same : yaml.emit (yaml.Load (decimal v)) = decimal v := by rw [load, emit]
      simp only [Ty.toText, Ty.fromText, same]
      exact readDecimal_decimal v
  | string =>
      simp only [Ty.Handled] at handled
      change some (yaml.emit (yaml.Load v)) = some (Ty.rereadText v)
      split at handled
      · rename_i empty
        rw [empty, handled.1, handled.2]
        rfl
      · rename_i characters
        rw [handled.1, handled.2]
        exact congrArg some (if_neg characters).symm
  | vector t ih | list t ih =>
      rw [emit_load_container rfl valid handled]
      simp only [Ty.fromText, Ty.toText, handled.1]
      exact elements_fromText fun it mem => ih it (valid it mem) (handled.2 it mem)
  | set t ih =>
      rw [emit_load_container rfl valid handled]
      have items := elements_fromText fun it mem => ih it (valid.2 it mem) (handled.2 it mem)
      simp only [Ty.fromText, Ty.toText, handled.1]
      rw [items]
      rfl
  | map t ih =>
      rw [emit_load_container rfl valid handled]
      have items := @entries_fromText yaml t v fun it mem =>
        ih it.2 (valid.2 it mem) (handled.2 it mem)
      simp only [Ty.fromText, Ty.toText]
      rw [foldl_assign yaml t v valid.1, handled.1, items]
      rfl

end RoundTrip

theorem rereadText_ne_nil (v : Text) : Ty.rereadText v ≠ [] := by
  unfold Ty.rereadText
  split
  · exact List.cons_ne_nil _ _
  · assumption

theorem reread_noEmpty (t : Ty) (v : t.Carrier) : t.NoEmpty (t.reread v) := by
  induction t with
  | int => trivial
  | string => exact rereadText_ne_nil v
  | vector t ih | list t ih =>
      intro it mem
      rcases List.mem_map.mp mem with ⟨original, -, rfl⟩
      exact ih original
  | set t ih =>
      intro it mem
      rcases List.mem_map.mp (OrderedSet.mem_of_mem_insertAll mem) with ⟨original, -, rfl⟩
      exact ih original
  | map t ih =>
      intro it mem
      rcases List.mem_map.mp (OrderedSet.mem_of_mem_insertAll mem) with ⟨original, -, rfl⟩
      exact ih original.2

theorem map_eq_self {Item : Type} {f : Item → Item} {items : List Item}
    (same : ∀ it ∈ items, f it = it) : items.map f = items :=
  (List.map_congr_left same).trans items.map_id

/-- A value without empty strings is read back as it was. -/
theorem reread_eq (t : Ty) (v : t.Carrier) (valid : t.Valid v) (noEmpty : t.NoEmpty v) :
    t.reread v = v := by
  induction t with
  | int => rfl
  | string => exact if_neg noEmpty
  | vector t ih | list t ih =>
      exact map_eq_self fun it mem => ih it (valid it mem) (noEmpty it mem)
  | set t ih =>
      have same : List.map t.reread v = v :=
        map_eq_self fun it mem => ih it (valid.2 it mem) (noEmpty it mem)
      simp only [Ty.reread, same]
      exact OrderedSet.insertAll_sorted valid.1
  | map t ih =>
      have same : List.map (fun it => (it.1, t.reread it.2)) v = v :=
        map_eq_self fun it mem => by rw [ih it.2 (valid.2 it mem) (noEmpty it mem)]
      simp only [Ty.reread, same]
      exact OrderedSet.insertAll_sorted valid.1

theorem container_roundTrips_iff {yaml : Yaml} (t : Ty) (container : t.container = true)
    (v : t.Carrier) (valid : t.Valid v) (handled : t.Handled yaml v) :
    t.fromText yaml (t.toText yaml v) = some v ↔ t.NoEmpty v := by
  have read := fromText_emit_load t v valid handled
  rw [emit_load_container container valid handled] at read
  rw [read, Option.some_inj]
  constructor
  · intro same
    rw [← same]
    exact reread_noEmpty t v
  · exact reread_eq t v valid

def oneItem : Yaml where
  emit
    | .null => "~".toList
    | .sequence [.null] => "- ~".toList
    | .scalar text => text
    | .sequence [.scalar text] => "- ".toList ++ text
    | _ => []
  Load
    | [] => .null
    | '-' :: ' ' :: text => .sequence [if text = "~".toList then .null else .scalar text]
    | text => .scalar text

theorem container_roundTrips_iff_oneItem :
    (Ty.set .int).fromText oneItem ((Ty.set .int).toText oneItem [(8020 : Nat)]) =
      some [(8020 : Nat)] ↔ (Ty.set .int).NoEmpty [(8020 : Nat)] := by
  have sorted : (Ty.set .int).Valid [(8020 : Nat)] :=
    ⟨List.pairwise_singleton _ _, fun _ _ => trivial⟩
  have loads : Ty.int.Handled oneItem (8020 : Nat) := by
    constructor <;> rfl
  have handled : (Ty.set .int).Handled oneItem [(8020 : Nat)] := by
    refine ⟨rfl, fun it mem => ?_⟩
    rcases List.mem_singleton.mp mem with rfl
    exact loads
  exact container_roundTrips_iff (.set .int) rfl _ sorted handled

theorem empty_string_changes :
    (Ty.vector .string).Valid [([] : Text)] ∧
    (Ty.vector .string).Handled oneItem [([] : Text)] ∧
    (Ty.vector .string).toText oneItem [([] : Text)] = "- ~".toList ∧
    (Ty.vector .string).fromText oneItem "- ~".toList ≠ some [([] : Text)] := by
  refine ⟨fun _ _ => trivial, ⟨rfl, fun it mem => ?_⟩, rfl, ?_⟩
  · rcases List.mem_singleton.mp mem with rfl
    exact ⟨rfl, rfl⟩
  · have read : (Ty.vector .string).fromText oneItem "- ~".toList = some ["~".toList] := rfl
    rw [read]
    intro same
    cases same

end Ztyco.Config
