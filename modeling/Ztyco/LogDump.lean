import Ztyco.LogCodec

/-!
What `LoggerManager::toYamlString` of log.cc puts out, read back as the definitions of the
`logs` variable. The nodes of Loggers hold what the three `toYamlString` functions write; here
each is built, emitted and, under the node above it, loaded again. yaml-cpp is a parameter that
reads back what it has written in the course of the dump. The pattern of an appender is written
under a key that the cast to a definition does not read, and its level is not written.
-/

namespace Ztyco.Logging

open Config (Node Yaml)
open ScopedLocks (Held)
open ScopedLocks.Call

def assignSome (value : Option Text) (key : Text) (node : Node) : Node :=
  match value with
  | some text => node.assign key (.scalar text)
  | none => node

def LogAppender.Node.toNode (i : LogAppender.Node) : Config.Node :=
  let node := Config.Node.null.assign "type".toList (.scalar i.type)
  (assignSome i.file "file".toList node).assign "pattern".toList (.scalar i.pattern)

section Dump
variable (yaml : Yaml)

def LogAppender.Node.toText (i : LogAppender.Node) : Text := yaml.emit i.toNode

/-- The node of `Logger::toYamlString`, which loads the text of every appender. -/
def Logger.Node.toNode (n : Logger.Node) : Config.Node :=
  let node := Config.Node.null.assign "name".toList (.scalar n.name)
  let node := assignSome n.level "level".toList node
  let node := assignSome n.formatter "formatter".toList node
  (n.appenders.map fun i => yaml.Load (i.toText yaml)).foldl pushItem node

def Logger.Node.toText (n : Logger.Node) : Text := yaml.emit (n.toNode yaml)

namespace LoggerManager

def toNode (nodes : List Logger.Node) : Config.Node :=
  nodes.foldl (fun node n => node.push_back (yaml.Load (n.toText yaml))) .null

def toText (nodes : List Logger.Node) : Text := yaml.emit (toNode yaml nodes)

end LoggerManager

def definesFromText (v : Text) : Option (List LogDefine) :=
  (yaml.Load v).elements.bind fun items =>
    items.mapM fun item => LogDefine.fromText yaml (yaml.emit item)

/-- yaml-cpp reads back what it writes in the course of a dump. -/
structure Reloads (nodes : List Logger.Node) : Prop where
  appenders : ∀ n ∈ nodes, ∀ i ∈ n.appenders, yaml.Load (i.toText yaml) = i.toNode
  loggers : ∀ n ∈ nodes, yaml.Load (n.toText yaml) = n.toNode yaml
  dump : yaml.Load (LoggerManager.toText yaml nodes) = LoggerManager.toNode yaml nodes

end Dump

/-! Reading the nodes. -/

theorem assignSome_eq (value : Option Text) (key : Text) (node : Node) :
    assignSome value key node = assignIf value.isSome key (value.getD []) node := by
  cases value <;> rfl

theorem fieldText_assignSome {node : Node} (keyed : node.keyed = true) (value : Option Text)
    {key : Text} (unset : node.get key = none) :
    fieldText (assignSome value key node) key = some (value.getD []) := by
  rw [assignSome_eq, fieldText_assignIf keyed _ _ unset]
  cases value <;> rfl

def Kind.define : Kind → LogAppenderDefine
  | .stdout => { type := 2 }
  | .file m_filename => { type := 1, file := m_filename }

def Kind.dump (kind : Kind) (pattern : Text) : LogAppender.Node :=
  match kind with
  | .stdout => { type := "StdoutLogAppender".toList, pattern := pattern }
  | .file m_filename =>
      { type := "FileLogAppender".toList, file := some m_filename, pattern := pattern }

/-- The pattern is not read. -/
theorem fromNode_dump (kind : Kind) (pattern : Text) :
    LogAppenderDefine.fromNode (kind.dump pattern).toNode = some (some kind.define) := by
  cases kind with
  | stdout => rfl
  | file m_filename => rfl

/-- A logger's node is read as its name, level, formatter and the kinds of its appenders. -/
theorem fromNode_logger {yaml : Yaml} {n : Logger.Node} {level : Level}
    {appenders : List (Kind × Text)}
    (levels : n.level = if level = .UNKNOW then none else some level.ToString)
    (dumped : n.appenders = appenders.map fun a => a.1.dump a.2)
    (loads : ∀ i ∈ n.appenders, yaml.Load (i.toText yaml) = i.toNode) :
    LogDefine.fromNode (n.toNode yaml) = some {
      name := n.name
      level := level
      formatter := n.formatter.getD []
      appenders := appenders.map fun a => a.1.define } := by
  let named := Node.null.assign "name".toList (.scalar n.name)
  let levelled := assignSome n.level "level".toList named
  let formatted := assignSome n.formatter "formatter".toList levelled
  let items := n.appenders.map fun i => yaml.Load (i.toText yaml)
  let whole := items.foldl pushItem formatted
  have other_field : ∀ {node : Node}, node.keyed = true → ∀ (value : Option Text)
      {key other : Text}, other ≠ key → (assignSome value key node).get other = node.get other := by
    intro node keyed value key other different
    rw [assignSome_eq]
    exact get_assignIf_other keyed _ different _
  have levelled_keyed : levelled.keyed = true := by
    simp only [levelled, assignSome_eq]
    exact assignIf_keyed rfl _ _ _
  have formatted_keyed : formatted.keyed = true := by
    simp only [formatted, assignSome_eq]
    exact assignIf_keyed levelled_keyed _ _ _
  have field : ∀ key : Text, key ≠ "appenders".toList → whole.get key = formatted.get key :=
    fun key other => get_foldl_pushItem_other items formatted_keyed other
  have unset : ∀ key : Text, key ≠ "level".toList → key ≠ "formatter".toList →
      formatted.get key = named.get key := fun key noLevel noFormatter =>
    (other_field levelled_keyed _ noFormatter).trans (other_field rfl _ noLevel)
  have name_read : whole.get "name".toList = some (.scalar n.name) :=
    (field _ (by decide)).trans (unset _ (by decide) (by decide))
  have level_read : fieldText whole "level".toList = some (n.level.getD []) := by
    have get : whole.get "level".toList = levelled.get "level".toList :=
      (field _ (by decide)).trans (other_field levelled_keyed _ (by decide))
    rw [fieldText, get]
    exact fieldText_assignSome rfl n.level rfl
  have known : Level.FromString (n.level.getD []) = level := by
    rw [levels]
    cases level <;> rfl
  have formatter_read : fieldText whole "formatter".toList = some (n.formatter.getD []) := by
    have without : levelled.get "formatter".toList = none := other_field rfl _ (by decide)
    rw [fieldText, field _ (by decide)]
    exact fieldText_assignSome levelled_keyed n.formatter without
  have loaded : items = appenders.map fun a => (a.1.dump a.2).toNode := by
    simp only [items, List.map_congr_left loads, dumped, List.map_map]
    rfl
  have appenders_read : appendersFromNode whole = some (appenders.map fun a => a.1.define) := by
    simp only [whole]
    rw [appendersFromNode_pushed formatted_keyed (unset _ (by decide) (by decide)), loaded]
    exact mapM_fromNode fun a _ => fromNode_dump a.1 a.2
  change LogDefine.fromNode whole = _
  simp only [LogDefine.fromNode, name_read, level_read, formatter_read, appenders_read,
    Node.asString, Option.bind_eq_bind, Option.bind_some, known]
  rfl

/-! From the heap. -/

theorem pattern_ok {a : AppenderPtr} {held : Held Lock} {h after : Heap} {text : Text}
    (done : LogAppender.pattern a held h = .ok (text, after)) :
    after = h ∧ ∃ p, (h.appender a).m_formatter = some p ∧ text = (h.formatter p).m_pattern := by
  rcases bind_ok.mp done with ⟨formatter, middle, first, second⟩
  rcases read_ok.mp first with ⟨rfl, rfl⟩
  cases found : (middle.appender a).m_formatter with
  | none =>
      rw [found] at second
      exact absurd second raise_ok
  | some p =>
      rw [found] at second
      rcases read_ok.mp second with ⟨rfl, rfl⟩
      exact ⟨rfl, p, rfl, rfl⟩

theorem appenderYaml_ok {a : AppenderPtr} {held : Held Lock} {h after : Heap}
    {node : LogAppender.Node} (done : LogAppender.toYamlString a held h = .ok (node, after)) :
    after = h ∧ ∃ pattern, node = (h.appender a).kind.dump pattern := by
  rcases bind_ok.mp (locking_ok done) with ⟨kind, first, one, rest⟩
  rcases read_ok.mp one with ⟨rfl, rfl⟩
  rcases bind_ok.mp rest with ⟨pattern, second, two, last⟩
  rcases pattern_ok two with ⟨rfl, _⟩
  cases kind : (second.appender a).kind with
  | stdout =>
      rw [kind] at last
      rcases pure_ok.mp last with ⟨rfl, rfl⟩
      exact ⟨rfl, pattern, rfl⟩
  | file m_filename =>
      rw [kind] at last
      rcases pure_ok.mp last with ⟨rfl, rfl⟩
      exact ⟨rfl, pattern, rfl⟩

theorem mapEach_reads {Item Result : Type} {body : Item → Op Result} {Good : Item → Result → Prop}
    {h : Heap} (round : ∀ item held result after, body item held h = .ok (result, after) →
      after = h ∧ Good item result) {items : List Item} {held : Held Lock} {results : List Result}
    {after : Heap} (done : mapEach body items held h = .ok (results, after)) :
    after = h ∧ List.Forall₂ Good items results := by
  induction items generalizing results after with
  | nil =>
      rcases pure_ok.mp done with ⟨rfl, rfl⟩
      exact ⟨rfl, .nil⟩
  | cons item rest ih =>
      rcases bind_ok.mp done with ⟨result, first, one, others⟩
      rcases round item held result first one with ⟨rfl, good⟩
      rcases bind_ok.mp others with ⟨tail, second, two, collected⟩
      rcases ih two with ⟨rfl, later⟩
      rcases pure_ok.mp collected with ⟨rfl, rfl⟩
      exact ⟨rfl, .cons good later⟩

/-- The definition that says of a logger what a dump does. -/
def Heap.defined (h : Heap) (l : LoggerPtr) : LogDefine where
  name := (h.logger l).m_name
  level := (h.logger l).m_level
  formatter := ((h.logger l).m_formatter.map fun p => (h.formatter p).m_pattern).getD []
  appenders := (h.logger l).m_appenders.map fun a => (h.appender a).kind.define

theorem dumps_of_forall {h : Heap} {appenders : List AppenderPtr} {nodes : List LogAppender.Node}
    (each : List.Forall₂ (fun a node => ∃ pattern, node = (h.appender a).kind.dump pattern)
      appenders nodes) :
    ∃ pairs : List (Kind × Text), nodes = pairs.map (fun a => a.1.dump a.2) ∧
      pairs.map (fun a => a.1.define) = appenders.map fun a => (h.appender a).kind.define := by
  induction each with
  | nil => exact ⟨[], rfl, rfl⟩
  | @cons a _ _ _ first _ ih =>
      rcases first with ⟨pattern, rfl⟩
      rcases ih with ⟨pairs, rfl, same⟩
      exact ⟨((h.appender a).kind, pattern) :: pairs, rfl, congrArg _ same⟩

theorem loggerYaml_ok {l : LoggerPtr} {held : Held Lock} {h after : Heap} {node : Logger.Node}
    (done : Logger.toYamlString l held h = .ok (node, after)) :
    after = h ∧ ∀ yaml : Yaml, (∀ i ∈ node.appenders, yaml.Load (i.toText yaml) = i.toNode) →
      LogDefine.fromNode (node.toNode yaml) = some (h.defined l) := by
  rcases bind_ok.mp (locking_ok done) with ⟨logger, first, one, rest⟩
  rcases read_ok.mp one with ⟨rfl, rfl⟩
  rcases bind_ok.mp rest with ⟨formatter, second, two, rest⟩
  rcases read_ok.mp two with ⟨rfl, rfl⟩
  rcases bind_ok.mp rest with ⟨nodes, third, three, last⟩
  have reads : ∀ a held node after, LogAppender.toYamlString a held second = .ok (node, after) →
      after = second ∧ ∃ pattern, node = (second.appender a).kind.dump pattern :=
    fun _ _ _ _ dumped => appenderYaml_ok dumped
  rcases mapEach_reads reads three with ⟨rfl, each⟩
  rcases pure_ok.mp last with ⟨rfl, rfl⟩
  rcases dumps_of_forall each with ⟨pairs, dumped, same⟩
  refine ⟨rfl, fun yaml loads => ?_⟩
  rw [fromNode_logger rfl dumped loads, Heap.defined, ← same]

theorem foldl_push_back {Item : Type} (load : Item → Node) (items : List Item)
    (before : List Node) :
    items.foldl (fun node item => Node.push_back node (load item)) (Node.sequence before) =
      Node.sequence (before ++ items.map load) := by
  induction items generalizing before with
  | nil => simp
  | cons item rest ih =>
      rw [List.foldl_cons]
      exact (ih (before ++ [load item])).trans (by simp)

/-- The elements of a dump are the nodes of its loggers. -/
theorem elements_dump {yaml : Yaml} {nodes : List Logger.Node} (reloads : Reloads yaml nodes) :
    (yaml.Load (LoggerManager.toText yaml nodes)).elements =
      some (nodes.map (Logger.Node.toNode yaml)) := by
  rw [reloads.dump, LoggerManager.toNode]
  cases nodes with
  | nil => rfl
  | cons n rest =>
      have pushed := foldl_push_back (fun n => yaml.Load (n.toText yaml)) rest
        [yaml.Load (n.toText yaml)]
      rw [List.foldl_cons]
      exact (congrArg Node.elements pushed).trans
        (congrArg some (List.map_congr_left reloads.loggers))

def dumpedHeap : Heap where
  formatter := fun _ => { m_pattern := "line %m%n".toList }
  formatters := 1
  appender := fun a =>
    { kind := if a = 0 then .stdout else .file "a.log".toList, m_formatter := some 0 }
  appenders := 2
  logger := fun _ =>
    { m_name := "system".toList, m_level := .INFO, m_formatter := some 0, m_appenders := [0, 1] }
  loggers := 1
  m_loggers := [("system".toList, 0)]

/-- The lines of a node in block style, as yaml-cpp writes plain scalars. -/
def blockLines : Nat → Node → List Text
  | 0, _ => []
  | depth + 1, .map entries => entries.flatMap fun
      | (.scalar key, .scalar value) => [key ++ ": ".toList ++ value]
      | (.scalar key, value) => (key ++ [':']) :: (blockLines depth value).map ("  ".toList ++ ·)
      | _ => []
  | depth + 1, .sequence items => items.flatMap fun item =>
      match blockLines depth item with
      | [] => []
      | first :: rest => ("- ".toList ++ first) :: rest.map ("  ".toList ++ ·)
  | _ + 1, .scalar text => [text]
  | _ + 1, .null => [['~']]

def blockText (node : Node) : Text := List.intercalate ['\n'] (blockLines 6 node)

def dumpedLogger : Logger.Node where
  name := "system".toList
  level := some "INFO".toList
  formatter := some "line %m%n".toList
  appenders := [Kind.stdout.dump "line %m%n".toList,
    (Kind.file "a.log".toList).dump "line %m%n".toList]

def systemNode : Node :=
  .map [(.scalar "name".toList, .scalar "system".toList),
    (.scalar "level".toList, .scalar "INFO".toList),
    (.scalar "formatter".toList, .scalar "line %m%n".toList),
    (.scalar "appenders".toList, .sequence (dumpedLogger.appenders.map LogAppender.Node.toNode))]

def dumpYaml : Yaml where
  emit := blockText
  Load text :=
    ((systemNode :: .sequence [systemNode] ::
      dumpedLogger.appenders.map LogAppender.Node.toNode).find? fun node =>
        blockText node = text).getD .null

theorem reloads_dump : Reloads dumpYaml [dumpedLogger] := by
  have appenders : ∀ i ∈ dumpedLogger.appenders, dumpYaml.Load (i.toText dumpYaml) = i.toNode := by
    refine List.forall_mem_cons.mpr ⟨rfl, ?_⟩
    exact List.forall_mem_singleton.mpr rfl
  have node : dumpedLogger.toNode dumpYaml = systemNode := rfl
  have logger : dumpYaml.Load (dumpedLogger.toText dumpYaml) = dumpedLogger.toNode dumpYaml := by
    rw [Logger.Node.toText, node]
    simp [dumpYaml]
  have whole : LoggerManager.toNode dumpYaml [dumpedLogger] = Node.sequence [systemNode] :=
    congrArg (fun node => Node.sequence [node]) (logger.trans node)
  have other : blockText systemNode ≠ blockText (.sequence [systemNode]) := by decide +kernel
  refine ⟨List.forall_mem_singleton.mpr appenders, List.forall_mem_singleton.mpr logger, ?_⟩
  rw [LoggerManager.toText, whole]
  simp [dumpYaml, other]

example : dumpedHeap.defined 0 =
    { name := "system".toList
      level := .INFO
      formatter := "line %m%n".toList
      appenders := [{ type := 2 }, { type := 1, file := "a.log".toList }] } := by
  decide

end Ztyco.Logging
