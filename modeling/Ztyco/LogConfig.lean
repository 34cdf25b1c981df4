import Ztyco.LoggerEffects

/-!
The `logs` ConfigVar and its listener, which makes the loggers what the new set
of definitions says: loggers whose definition is new or has changed are set up
again, those whose definition is gone are emptied. The formatter of a logger is
only ever replaced by a valid one, so a definition without one leaves the
logger what the last valid one of an earlier set gave it.
-/

namespace Ztyco.Logging

open ScopedLocks (Held)
open ScopedLocks.Call

structure LogAppenderDefine where
  /-- 1: file, 2: stdout. -/
  type : Int := 0
  level : Level := .UNKNOW
  formatter : Text := []
  file : Text := []
  deriving DecidableEq, Repr

structure LogDefine where
  name : Text
  level : Level := .UNKNOW
  formatter : Text := []
  appenders : List LogAppenderDefine := []
  deriving DecidableEq, Repr

structure LogDefines where
  items : List LogDefine
  sorted : items.Pairwise fun left right => left.name < right.name
  deriving DecidableEq

def LogDefines.find (set : LogDefines) (name : Text) : Option LogDefine :=
  set.items.find? (·.name = name)

def LogDefines.empty : LogDefines := { items := [], sorted := .nil }

/-! The listener. -/

def Level.value : Level → Nat
  | .UNKNOW => 0
  | .DEBUG => 1
  | .INFO => 2
  | .WARN => 3
  | .ERROR => 4
  | .FATAL => 5

def logInfo (now : UInt64) (text : Text) : Op Unit := do
  let m_root ← read Heap.m_root
  let level ← read fun h => (h.logger m_root).m_level
  if level.value ≤ Level.INFO.value
  then Logger.log 2 m_root { m_time := now, m_content := text } else pure ()

def formatDefined (a : LogAppenderDefine) (ap : AppenderPtr) : Op Unit :=
  if a.formatter.isEmpty then pure ()
  else do
    let fmt ← makeFormatter a.formatter
    let isError ← read fun h => (h.formatter fmt).m_error
    if isError then pure () else LogAppender.setFormatter ap (some fmt)

def addMade (l : LoggerPtr) (a : LogAppenderDefine) (ap : AppenderPtr) : Op Unit := do
  LogAppender.setLevel ap a.level
  formatDefined a ap
  Logger.addAppender l ap

/-- One round of that loop; `d` is `EnvMgr::GetInstance()->has("d")`. -/
def addDefined (d : Bool) (l : LoggerPtr) (a : LogAppenderDefine) : Op Unit :=
  if a.type = 1 then do
    let ap ← makeAppender (.file a.file)
    addMade l a ap
  else if a.type = 2 then
    if d then pure ()
    else do
      let ap ← makeAppender .stdout
      addMade l a ap
  -- `ap` is null, and `ap->setLevel` follows it
  else raise .nullPointer

def setUp (d : Bool) (l : LoggerPtr) (i : LogDefine) : Op Unit := do
  Logger.setLevel l i.level
  -- without a formatter, or with an invalid one, the pattern stays
  (if i.formatter.isEmpty then pure () else Logger.setPattern l i.formatter)
  Logger.clearAppender l
  forEach (addDefined d l) i.appenders

def configure (d : Bool) (old_value : LogDefines) (i : LogDefine) : Op Unit :=
  if old_value.find i.name = some i then pure ()
  else do
    let logger ← LoggerManager.getLogger i.name
    setUp d logger i

def shutDown (l : LoggerPtr) : Op Unit := do
  Logger.setLevel l .UNKNOW
  Logger.clearAppender l

def remove (new_value : LogDefines) (i : LogDefine) : Op Unit :=
  if (new_value.find i.name).isSome then pure ()
  else do
    let logger ← LoggerManager.getLogger i.name
    shutDown logger

def listener (d : Bool) (now : UInt64) (old_value new_value : LogDefines) : Op Unit := do
  logInfo now "on_logger_conf_changed".toList
  forEach (configure d old_value) new_value.items
  forEach (remove new_value) old_value.items

def setValue (d : Bool) (now : UInt64) (m_val v : LogDefines) : Op LogDefines :=
  if v = m_val then pure m_val
  else do
    listener d now m_val v
    pure v

def assign (d : Bool) : LogDefines → List (UInt64 × LogDefines) → Op LogDefines
  | m_val, [] => pure m_val
  | m_val, (now, v) :: rest => do
      let next ← setValue d now m_val v
      assign d next rest

/-! What is configured. -/

structure AppenderView where
  kind : Kind
  level : Level
  pattern : Option Text
  deriving DecidableEq, Repr

structure LoggerView where
  level : Level
  pattern : Option Text
  appenders : List AppenderView
  deriving DecidableEq, Repr

namespace Heap

def pattern (h : Heap) (formatter : Option FormatterPtr) : Option Text :=
  formatter.map fun p => (h.formatter p).m_pattern

def appenderView (h : Heap) (a : AppenderPtr) : AppenderView where
  kind := (h.appender a).kind
  level := (h.appender a).m_level
  pattern := h.pattern (h.appender a).m_formatter

def loggerView (h : Heap) (l : LoggerPtr) : LoggerView where
  level := (h.logger l).m_level
  pattern := h.pattern (h.logger l).m_formatter
  appenders := (h.logger l).m_appenders.map h.appenderView

def config (h : Heap) (name : Text) : Option LoggerView :=
  (h.m_loggers.lookup name).map h.loggerView

def patternOf (h : Heap) (name : Text) : Option Text :=
  match h.m_loggers.lookup name with
  | some l => h.pattern (h.logger l).m_formatter
  | none => some defaultPattern

end Heap

/-- A formatter that is used, and not left out or refused. -/
def usable (formatter : Text) : Bool :=
  !formatter.isEmpty && (LogFormatter.init formatter).any (!·.m_error)

def replaces (formatter : Text) (pattern : Option Text) : Option Text :=
  if usable formatter then some formatter else pattern

/-- The pattern that values assigned one after another leave a logger. -/
def leftPattern (name : Text) (values : List LogDefines) (pattern : Option Text) : Option Text :=
  values.foldl (fun pattern v => match v.find name with
    | some i => replaces i.formatter pattern
    | none => pattern) pattern

def defineView (d : Bool) (pattern : Option Text) (a : LogAppenderDefine) : Option AppenderView :=
  if a.type = 1
  then some { kind := .file a.file, level := a.level, pattern := replaces a.formatter pattern }
  else if a.type = 2 ∧ d = false
  then some { kind := .stdout, level := a.level, pattern := replaces a.formatter pattern }
  else none

def LogDefine.view (d : Bool) (i : LogDefine) (pattern : Option Text) : LoggerView where
  level := i.level
  pattern := pattern
  appenders := i.appenders.filterMap (defineView d pattern)

end Ztyco.Logging
