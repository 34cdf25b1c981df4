import Ztyco.LexicalCasts
import Ztyco.LogConfig

/-!
`LexicalCast` of log.cc between a LogDefine and its YAML text. The node is
written field by field, a level only where it is known and a formatter only
where there is one; it is read field by field too, and an appender that has no
type, another type or no file is skipped.
-/

namespace Ztyco.Config.Node

def get (node : Node) (key : Text) : Option Node :=
  match node with
  | .map entries => (entries.find? fun entry => entry.1.isKey key).map Prod.snd
  | _ => none

/-- A scalar or a map, on which yaml-cpp throws, is left. -/
def push_back (node item : Node) : Node :=
  match node with
  | .null => .sequence [item]
  | .sequence items => .sequence (items ++ [item])
  | .scalar text => .scalar text
  | .map entries => .map entries

/-- `as<std::string>()`; `none` is an exception, which a null node gives too. -/
def asString : Node → Option Text
  | .scalar text => some text
  | _ => none

def isScalar : Node → Bool
  | .scalar _ => true
  | .null | .sequence _ | .map _ => false

def keyed : Node → Bool
  | .null | .map _ => true
  | .scalar _ | .sequence _ => false

theorem not_isScalar_of_keyed {node : Node} (keyed : node.keyed = true) :
    node.isScalar = false := by
  cases node with
  | null | map _ => rfl
  | scalar _ | sequence _ => cases keyed

theorem isKey_of_isKey {key other : Text} {node : Node} (same : node.isKey key = true)
    (different : other ≠ key) : node.isKey other = false := by
  cases node with
  | scalar text =>
      refine decide_eq_false fun equal => different ?_
      rw [← equal]
      exact of_decide_eq_true same
  | null | sequence _ | map _ => rfl

theorem find_setEntry_self (key : Text) (value : Node) (entries : List (Node × Node)) :
    ((setEntry key value entries).find? fun entry => entry.1.isKey key).map Prod.snd =
      some value := by
  induction entries with
  | nil => simp [setEntry, isKey]
  | cons entry rest ih => cases same : entry.1.isKey key <;> simp [setEntry, same, ih]

theorem find_setEntry_other {key other : Text} (different : other ≠ key) (value : Node)
    (entries : List (Node × Node)) :
    ((setEntry key value entries).find? fun entry => entry.1.isKey other).map Prod.snd =
      (entries.find? fun entry => entry.1.isKey other).map Prod.snd := by
  induction entries with
  | nil => simp [setEntry, isKey, different.symm]
  | cons entry rest ih =>
      cases same : entry.1.isKey key with
      | true => simp [setEntry, same, isKey_of_isKey same different]
      | false => cases hit : entry.1.isKey other <;> simp [setEntry, same, hit, ih]

theorem keyed_assign {node : Node} (keyed : node.keyed = true) (key : Text)
    (value : Node) : (node.assign key value).keyed = true := by
  cases node <;> first | rfl | cases keyed

theorem get_assign_self {node : Node} (keyed : node.keyed = true) (key : Text) (value : Node) :
    (node.assign key value).get key = some value := by
  cases node with
  | null => exact find_setEntry_self key value []
  | map entries => exact find_setEntry_self key value entries
  | scalar _ | sequence _ => cases keyed

theorem get_assign_other {node : Node} (keyed : node.keyed = true) {key other : Text}
    (different : other ≠ key) (value : Node) :
    (node.assign key value).get other = node.get other := by
  cases node with
  | null => exact find_setEntry_other different value []
  | map entries => exact find_setEntry_other different value entries
  | scalar _ | sequence _ => cases keyed

end Ztyco.Config.Node

namespace Ztyco.Logging

open Config (Node Yaml)

def Level.FromString (str : Text) : Level :=
  if str = "debug".toList then .DEBUG
  else if str = "info".toList then .INFO
  else if str = "warn".toList then .WARN
  else if str = "error".toList then .ERROR
  else if str = "fatal".toList then .FATAL
  else if str = "DEBUG".toList then .DEBUG
  else if str = "INFO".toList then .INFO
  else if str = "WARN".toList then .WARN
  else if str = "ERROR".toList then .ERROR
  else if str = "FATAL".toList then .FATAL
  else .UNKNOW

/-! `LexicalCast<LogDefine, std::string>`. -/

def assignIf (present : Bool) (key value : Text) (n : Node) : Node :=
  if present then n.assign key (.scalar value) else n

def withLevel (level : Level) : Node → Node :=
  assignIf (level ≠ .UNKNOW) "level".toList level.ToString

def withFormatter (formatter : Text) : Node → Node :=
  assignIf (!formatter.isEmpty) "formatter".toList formatter

def LogAppenderDefine.typeNode (a : LogAppenderDefine) : Node :=
  let na := Node.null
  if a.type = 1 then
    (na.assign "type".toList (.scalar "FileLogAppender".toList)).assign "file".toList
      (.scalar a.file)
  else if a.type = 2 then na.assign "type".toList (.scalar "StdoutLogAppender".toList)
  else na

def LogAppenderDefine.toNode (a : LogAppenderDefine) : Node :=
  withFormatter a.formatter (withLevel a.level a.typeNode)

def pushAppender (n : Node) (a : LogAppenderDefine) : Node :=
  n.assign "appenders".toList (((n.get "appenders".toList).getD .null).push_back a.toNode)

def LogDefine.toNode (i : LogDefine) : Node :=
  let n := Node.null.assign "name".toList (.scalar i.name)
  i.appenders.foldl pushAppender (withFormatter i.formatter (withLevel i.level n))

def LogDefine.toText (yaml : Yaml) (i : LogDefine) : Text := yaml.emit i.toNode

/-! `LexicalCast<std::string, LogDefine>`; `none` is an exception. -/

def fieldText (n : Node) (key : Text) : Option Text :=
  match n.get key with
  | none => some []
  | some value => value.asString

/-- One round of the loop over the appenders; the inner `none` is `continue`. -/
def LogAppenderDefine.fromNode (a : Node) : Option (Option LogAppenderDefine) :=
  -- `a["type"]` of a scalar throws
  if a.isScalar then none
  else
    match a.get "type".toList with
    | none => some none
    | some type => do
        let type ← type.asString
        if type = "FileLogAppender".toList then
          match a.get "file".toList with
          | none => pure none
          | some file => do
              let file ← file.asString
              let formatter ← fieldText a "formatter".toList
              pure (some { type := 1, file := file, formatter := formatter })
        else if type = "StdoutLogAppender".toList then do
          let formatter ← fieldText a "formatter".toList
          pure (some { type := 2, formatter := formatter })
        else pure none

def appendersFromNode (n : Node) : Option (List LogAppenderDefine) :=
  match n.get "appenders".toList with
  | none => some []
  | some appenders => do
      let items ← appenders.elements
      let read ← items.mapM LogAppenderDefine.fromNode
      pure (read.filterMap id)

def LogDefine.fromNode (n : Node) : Option LogDefine := do
  let name ← n.get "name".toList
  let name ← name.asString
  let level ← fieldText n "level".toList
  let formatter ← fieldText n "formatter".toList
  let appenders ← appendersFromNode n
  pure { name := name, level := Level.FromString level, formatter := formatter,
         appenders := appenders }

def LogDefine.fromText (yaml : Yaml) (v : Text) : Option LogDefine :=
  LogDefine.fromNode (yaml.Load v)

/-! What is read back. -/

/-- Levels of appenders are not read. -/
def LogAppenderDefine.unlevelled (a : LogAppenderDefine) : LogAppenderDefine :=
  { a with level := .UNKNOW }

def LogAppenderDefine.Typed (a : LogAppenderDefine) : Prop :=
  a.type = 1 ∨ a.type = 2 ∧ a.file = []

theorem fieldText_unset {n : Node} {key : Text} (unset : n.get key = none) :
    fieldText n key = some [] := by
  rw [fieldText, unset]

theorem fieldText_scalar {n : Node} {key text : Text} (set : n.get key = some (.scalar text)) :
    fieldText n key = some text := by
  rw [fieldText, set]
  rfl

section Fields
variable {n : Node} (keyed : n.keyed = true)
include keyed

theorem assignIf_keyed (present : Bool) (key value : Text) :
    (assignIf present key value n).keyed = true := by
  cases present with
  | false => exact keyed
  | true => exact Node.keyed_assign keyed _ _

theorem get_assignIf_other (present : Bool) {key other : Text} (different : other ≠ key)
    (value : Text) : (assignIf present key value n).get other = n.get other := by
  cases present with
  | false => rfl
  | true => exact Node.get_assign_other keyed different _

theorem fieldText_assignIf (present : Bool) {key : Text} (value : Text)
    (unset : n.get key = none) :
    fieldText (assignIf present key value n) key = some (if present then value else []) := by
  cases present with
  | false => exact fieldText_unset unset
  | true => exact fieldText_scalar (Node.get_assign_self keyed _ _)

theorem fieldText_withLevel (level : Level) (unset : n.get "level".toList = none) :
    (fieldText (withLevel level n) "level".toList).map Level.FromString = some level := by
  rw [withLevel, fieldText_assignIf keyed _ _ unset, Option.map_some]
  cases level <;> rfl

theorem fieldText_withFormatter (formatter : Text) (unset : n.get "formatter".toList = none) :
    fieldText (withFormatter formatter n) "formatter".toList = some formatter := by
  rw [withFormatter, fieldText_assignIf keyed _ _ unset]
  cases formatter <;> rfl

end Fields

/-! An appender. -/

theorem typeNode_keyed (a : LogAppenderDefine) : a.typeNode.keyed = true := by
  unfold LogAppenderDefine.typeNode
  split
  · rfl
  · split <;> rfl

theorem typeNode_formatter (a : LogAppenderDefine) :
    a.typeNode.get "formatter".toList = none := by
  unfold LogAppenderDefine.typeNode
  split
  · rfl
  · split <;> rfl

theorem appender_get (a : LogAppenderDefine) {key : Text} (level : key ≠ "level".toList)
    (formatter : key ≠ "formatter".toList) : a.toNode.get key = a.typeNode.get key := by
  have levelled : (withLevel a.level a.typeNode).keyed = true :=
    assignIf_keyed (typeNode_keyed a) _ _ _
  exact (get_assignIf_other levelled _ formatter _).trans
    (get_assignIf_other (typeNode_keyed a) _ level _)

theorem appender_formatter (a : LogAppenderDefine) :
    fieldText a.toNode "formatter".toList = some a.formatter := by
  have keyed := typeNode_keyed a
  have unset : (withLevel a.level a.typeNode).get "formatter".toList = none :=
    (get_assignIf_other keyed _ (by decide) _).trans (typeNode_formatter a)
  exact fieldText_withFormatter (assignIf_keyed keyed _ _ _) _ unset

/-- The fields of an appender are in its node, and all but the level are read. -/
theorem appender_fromNode_toNode {a : LogAppenderDefine} (typed : a.Typed) :
    LogAppenderDefine.fromNode a.toNode = some (some a.unlevelled) := by
  have keyed : a.toNode.keyed = true :=
    assignIf_keyed (assignIf_keyed (typeNode_keyed a) _ _ _) _ _ _
  have type : a.toNode.get "type".toList = a.typeNode.get "type".toList :=
    appender_get a (by decide) (by decide)
  have file : a.toNode.get "file".toList = a.typeNode.get "file".toList :=
    appender_get a (by decide) (by decide)
  have formatter := appender_formatter a
  unfold LogAppenderDefine.fromNode
  rw [Node.not_isScalar_of_keyed keyed, type, file, formatter]
  rcases typed with isFile | ⟨isStdout, noFile⟩
  · have node : a.typeNode =
        ((Node.null.assign "type".toList (.scalar "FileLogAppender".toList)).assign "file".toList
          (.scalar a.file)) := if_pos isFile
    have same : a.unlevelled = { type := 1, file := a.file, formatter := a.formatter } := by
      rw [← isFile]
      rfl
    rw [node, same]
    rfl
  · have node : a.typeNode =
        Node.null.assign "type".toList (.scalar "StdoutLogAppender".toList) := by
      rw [LogAppenderDefine.typeNode, isStdout]
      rfl
    have same : a.unlevelled = { type := 2, formatter := a.formatter } := by
      rw [← isStdout, ← noFile]
      rfl
    rw [node, same]
    rfl

/-! All appenders. -/

def pushItem (n item : Node) : Node :=
  n.assign "appenders".toList (((n.get "appenders".toList).getD .null).push_back item)

theorem foldl_pushAppender (appenders : List LogAppenderDefine) (n : Node) :
    appenders.foldl pushAppender n =
      (appenders.map LogAppenderDefine.toNode).foldl pushItem n := by
  rw [List.foldl_map]
  rfl

theorem pushItem_keyed {n : Node} (keyed : n.keyed = true) (item : Node) :
    (pushItem n item).keyed = true :=
  Node.keyed_assign keyed _ _

/-- Pushed items come after those that are there. -/
theorem get_foldl_pushItem (items : List Node) {n : Node} {before : List Node}
    (keyed : n.keyed = true) (there : n.get "appenders".toList = some (.sequence before)) :
    (items.foldl pushItem n).get "appenders".toList = some (.sequence (before ++ items)) := by
  induction items generalizing n before with
  | nil => simpa using there
  | cons item rest ih =>
      have pushed : (pushItem n item).get "appenders".toList =
          some (.sequence (before ++ [item])) := by
        rw [pushItem, Node.get_assign_self keyed, there]
        rfl
      rw [List.foldl_cons, ih (pushItem_keyed keyed item) pushed]
      simp

theorem get_foldl_pushItem_other (items : List Node) {n : Node} (keyed : n.keyed = true)
    {key : Text} (other : key ≠ "appenders".toList) :
    (items.foldl pushItem n).get key = n.get key := by
  induction items generalizing n with
  | nil => rfl
  | cons item rest ih =>
      rw [List.foldl_cons, ih (pushItem_keyed keyed item), pushItem,
        Node.get_assign_other keyed other]

/-- Every pushed item is read. -/
theorem appendersFromNode_pushed {items : List Node} {n : Node} (keyed : n.keyed = true)
    (unset : n.get "appenders".toList = none) :
    appendersFromNode (items.foldl pushItem n) =
      (items.mapM LogAppenderDefine.fromNode).map (List.filterMap id) := by
  cases items with
  | nil =>
      unfold appendersFromNode
      rw [List.foldl_nil, unset]
      rfl
  | cons item rest =>
      have pushed : (pushItem n item).get "appenders".toList = some (.sequence [item]) := by
        rw [pushItem, Node.get_assign_self keyed, unset]
        rfl
      unfold appendersFromNode
      rw [List.foldl_cons, get_foldl_pushItem rest (pushItem_keyed keyed item) pushed]
      exact Option.map_eq_bind.symm

theorem mapM_fromNode {Item : Type} {toNode : Item → Node} {read : Item → LogAppenderDefine}
    {items : List Item}
    (each : ∀ item ∈ items, LogAppenderDefine.fromNode (toNode item) = some (some (read item))) :
    ((items.map toNode).mapM LogAppenderDefine.fromNode).map (List.filterMap id) =
      some (items.map read) := by
  have results : items.mapM (LogAppenderDefine.fromNode ∘ toNode) =
      some (items.map fun item => some (read item)) := Config.mapM_some each
  rw [List.mapM_map, results, Option.map_some, List.filterMap_map]
  exact congrArg (fun f => some (f items)) List.filterMap_eq_map'

theorem fromNode_toNode {i : LogDefine} (typed : ∀ a ∈ i.appenders, a.Typed) :
    LogDefine.fromNode i.toNode =
      some { i with appenders := i.appenders.map LogAppenderDefine.unlevelled } := by
  let named := Node.null.assign "name".toList (.scalar i.name)
  let levelled := withLevel i.level named
  let formatted := withFormatter i.formatter levelled
  have named_keyed : named.keyed = true := rfl
  have levelled_keyed : levelled.keyed = true := assignIf_keyed named_keyed _ _ _
  have formatted_keyed : formatted.keyed = true := assignIf_keyed levelled_keyed _ _ _
  have field : ∀ key : Text, key ≠ "appenders".toList →
      i.toNode.get key = formatted.get key := fun key other =>
    (congrArg (Node.get · key) (foldl_pushAppender i.appenders formatted)).trans
      (get_foldl_pushItem_other _ formatted_keyed other)
  have unset : ∀ key : Text, key ≠ "level".toList → key ≠ "formatter".toList →
      formatted.get key = named.get key := fun key level formatter =>
    (get_assignIf_other levelled_keyed _ formatter _).trans
      (get_assignIf_other named_keyed _ level _)
  have name : i.toNode.get "name".toList = some (.scalar i.name) :=
    (field _ (by decide)).trans (unset _ (by decide) (by decide))
  have level_read : (fieldText i.toNode "level".toList).map Level.FromString = some i.level := by
    have get : i.toNode.get "level".toList = levelled.get "level".toList :=
      (field _ (by decide)).trans (get_assignIf_other levelled_keyed _ (by decide) _)
    rw [fieldText, get]
    exact fieldText_withLevel named_keyed i.level rfl
  rcases Option.map_eq_some_iff.mp level_read with ⟨level, level_text, same⟩
  have formatter_read : fieldText i.toNode "formatter".toList = some i.formatter := by
    have without : levelled.get "formatter".toList = none :=
      get_assignIf_other named_keyed _ (by decide) _
    rw [fieldText, field _ (by decide)]
    exact fieldText_withFormatter levelled_keyed i.formatter without
  have appenders_read : appendersFromNode i.toNode =
      some (i.appenders.map LogAppenderDefine.unlevelled) := by
    change appendersFromNode (i.appenders.foldl pushAppender formatted) = _
    rw [foldl_pushAppender,
      appendersFromNode_pushed formatted_keyed (unset _ (by decide) (by decide))]
    exact mapM_fromNode fun a mem => appender_fromNode_toNode (typed a mem)
  simp only [LogDefine.fromNode, name, level_text, formatter_read, appenders_read, Node.asString,
    Option.bind_eq_bind, Option.bind_some, same]
  rfl

theorem define_roundTrips_iff {yaml : Yaml} {i : LogDefine} (typed : ∀ a ∈ i.appenders, a.Typed)
    (loads : yaml.Load (yaml.emit i.toNode) = i.toNode) :
    LogDefine.fromText yaml (i.toText yaml) = some i ↔
      ∀ a ∈ i.appenders, a.level = .UNKNOW := by
  unfold LogDefine.fromText LogDefine.toText
  rw [loads, fromNode_toNode typed, Option.some_inj]
  constructor
  · intro same a mem
    have appenders : i.appenders.map LogAppenderDefine.unlevelled = i.appenders :=
      congrArg LogDefine.appenders same
    rw [← appenders] at mem
    rcases List.mem_map.mp mem with ⟨original, -, rfl⟩
    rfl
  · intro unknown
    have appenders : i.appenders.map LogAppenderDefine.unlevelled = i.appenders :=
      Config.map_eq_self fun a mem => by
        rw [LogAppenderDefine.unlevelled, ← unknown a mem]
    rw [appenders]

def stdoutDefine (level : Level) : LogDefine where
  name := "system".toList
  appenders := [{ type := 2, level := level }]

def entryText : Node × Node → Text
  | (.scalar key, .scalar value) => key ++ ": ".toList ++ value
  | _ => []

def stdoutYaml : Yaml where
  emit
    | .map [name, (.scalar appenders, .sequence [.map fields])] =>
        entryText name ++ "\n".toList ++ appenders ++ ":\n  - ".toList ++
          List.intercalate "\n    ".toList (fields.map entryText)
    | _ => []
  Load text :=
    if text = "name: system\nappenders:\n  - type: StdoutLogAppender".toList
    then (stdoutDefine .UNKNOW).toNode
    else if text =
        "name: system\nappenders:\n  - type: StdoutLogAppender\n    level: DEBUG".toList
    then (stdoutDefine .DEBUG).toNode
    else .null

theorem stdoutDefine_typed (level : Level) : ∀ a ∈ (stdoutDefine level).appenders, a.Typed := by
  intro a mem
  rcases List.mem_singleton.mp mem with rfl
  exact Or.inr ⟨rfl, rfl⟩

theorem stdoutYaml_emits : stdoutYaml.emit (stdoutDefine .DEBUG).toNode =
    "name: system\nappenders:\n  - type: StdoutLogAppender\n    level: DEBUG".toList := by
  decide +kernel

theorem stdoutYaml_loads : ∀ level, level = .UNKNOW ∨ level = .DEBUG →
    stdoutYaml.Load (stdoutYaml.emit (stdoutDefine level).toNode) =
      (stdoutDefine level).toNode := by
  rintro level (rfl | rfl)
  · rfl
  · rw [stdoutYaml_emits]
    rfl

theorem define_roundTrips_iff_stdout :
    LogDefine.fromText stdoutYaml ((stdoutDefine .UNKNOW).toText stdoutYaml) =
      some (stdoutDefine .UNKNOW) ↔
        ∀ a ∈ (stdoutDefine .UNKNOW).appenders, a.level = .UNKNOW :=
  define_roundTrips_iff (stdoutDefine_typed .UNKNOW) (stdoutYaml_loads .UNKNOW (Or.inl rfl))

/-- The level of the appender is written, and not read. -/
theorem appender_level_unread :
    (∀ a ∈ (stdoutDefine .DEBUG).appenders, a.Typed) ∧
    stdoutYaml.Load (stdoutYaml.emit (stdoutDefine .DEBUG).toNode) = (stdoutDefine .DEBUG).toNode ∧
    (stdoutDefine .DEBUG).toText stdoutYaml =
      "name: system\nappenders:\n  - type: StdoutLogAppender\n    level: DEBUG".toList ∧
    LogDefine.fromText stdoutYaml ((stdoutDefine .DEBUG).toText stdoutYaml) =
      some (stdoutDefine .UNKNOW) ∧
    stdoutDefine .UNKNOW ≠ stdoutDefine .DEBUG := by
  have loads := stdoutYaml_loads .DEBUG (Or.inr rfl)
  refine ⟨stdoutDefine_typed .DEBUG, loads, stdoutYaml_emits, ?_, by decide⟩
  unfold LogDefine.fromText LogDefine.toText
  rw [loads, fromNode_toNode (stdoutDefine_typed .DEBUG)]
  rfl

end Ztyco.Logging
