import Mathlib.Logic.Function.Basic
import Ztyco.LogFormatter
import Ztyco.ScopedLocks
import Ztyco.Transition

/-!
Loggers, their appenders and the LoggerManager of log.cc. Objects are on a heap
and named by their pointers; formatters do not change once they are made. The
locks are those of ScopedLocks, one for each appender, each logger and the
manager. What `reopen` does to its stream is in FileLog; `written` records
which formatter an appender has put an event through. A node that a
`toYamlString` emits stands for its text.
-/

namespace Ztyco.Logging

open ScopedLocks (Held Fault)
open ScopedLocks.Call (read modify raise locking mapEach forEach)
open Transition

inductive Level where
  | UNKNOW | DEBUG | INFO | WARN | ERROR | FATAL
  deriving DecidableEq, Repr

def Level.ToString : Level → Text
  | .UNKNOW => "UNKNOW".toList
  | .DEBUG => "DEBUG".toList
  | .INFO => "INFO".toList
  | .WARN => "WARN".toList
  | .ERROR => "ERROR".toList
  | .FATAL => "FATAL".toList

structure LogEvent where
  m_time : UInt64
  m_content : Text
  deriving DecidableEq, Repr

abbrev FormatterPtr := Nat
abbrev AppenderPtr := Nat
abbrev LoggerPtr := Nat

inductive Kind where
  | stdout
  | file (m_filename : Text)
  deriving DecidableEq, Repr

structure LogAppender where
  kind : Kind := .stdout
  m_level : Level := .DEBUG
  m_formatter : Option FormatterPtr := none
  m_hasFormatter : Bool := false
  m_lastTime : UInt64 := 0
  deriving DecidableEq, Repr

structure Logger where
  m_name : Text := "root".toList
  m_level : Level := .DEBUG
  m_appenders : List AppenderPtr := []
  m_formatter : Option FormatterPtr := none
  m_root : Option LoggerPtr := none
  deriving DecidableEq, Repr

structure Heap where
  formatter : FormatterPtr → LogFormatter := fun _ => { m_pattern := [] }
  formatters : Nat := 0
  appender : AppenderPtr → LogAppender := fun _ => {}
  appenders : Nat := 0
  logger : LoggerPtr → Logger := fun _ => {}
  loggers : Nat := 0
  m_loggers : List (Text × LoggerPtr) := []
  m_root : LoggerPtr := 0
  written : List (AppenderPtr × FormatterPtr × LogEvent) := []

inductive Lock where
  | manager
  | logger (l : LoggerPtr)
  | appender (a : AppenderPtr)
  deriving DecidableEq, Repr

/-- A null pointer is followed, a pattern is read past its end, or `log` goes
from root to root for ever. -/
inductive Misuse where
  | nullPointer | outOfRange | endless
  deriving DecidableEq, Repr

abbrev Op (Result : Type) := ScopedLocks.Call Lock Heap Misuse Result

namespace Heap

def setAppender (h : Heap) (a : AppenderPtr) (appender : LogAppender) : Heap :=
  { h with appender := Function.update h.appender a appender }

def setLogger (h : Heap) (l : LoggerPtr) (logger : Logger) : Heap :=
  { h with logger := Function.update h.logger l logger }

end Heap

/-! LogAppender. -/

namespace LogAppender

def setLevel (a : AppenderPtr) (level : Level) : Op Unit :=
  modify fun h => h.setAppender a { h.appender a with m_level := level }

def setFormatter (a : AppenderPtr) (val : Option FormatterPtr) : Op Unit :=
  locking (.appender a) do
    modify fun h => h.setAppender a { h.appender a with m_formatter := val }
    modify fun h =>
      if (h.appender a).m_formatter.isSome
      then h.setAppender a { h.appender a with m_hasFormatter := true } else h

def getFormatter (a : AppenderPtr) : Op (Option FormatterPtr) :=
  locking (.appender a) (read fun h => (h.appender a).m_formatter)

def reopen (a : AppenderPtr) : Op Bool := locking (.appender a) (pure true)

def format (a : AppenderPtr) (event : LogEvent) : Op Unit := do
  match ← read fun h => (h.appender a).m_formatter with
  | none => raise .nullPointer
  | some p => modify fun h => { h with written := h.written ++ [(a, p, event)] }

/-- The part of `FileLogAppender::log` before its own lock. -/
def reopenAfter (a : AppenderPtr) (m_lastTime now : UInt64) : Op Unit :=
  if now ≥ m_lastTime + 3 then do
    let _ ← reopen a
    modify fun h => h.setAppender a { h.appender a with m_lastTime := now }
  else pure ()

def log (a : AppenderPtr) (event : LogEvent) : Op Unit := do
  let appender ← read fun h => h.appender a
  match appender.kind with
  | .stdout => locking (.appender a) (format a event)
  | .file _ => do
      reopenAfter a appender.m_lastTime event.m_time
      locking (.appender a) (format a event)

def pattern (a : AppenderPtr) : Op Text := do
  match ← read fun h => (h.appender a).m_formatter with
  | none => raise .nullPointer
  | some p => read fun h => (h.formatter p).m_pattern

structure Node where
  type : Text
  file : Option Text := none
  pattern : Text
  deriving DecidableEq, Repr

def toYamlString (a : AppenderPtr) : Op Node :=
  locking (.appender a) do
    let kind ← read fun h => (h.appender a).kind
    let pattern ← pattern a
    match kind with
    | .stdout => pure { type := "StdoutLogAppender".toList, pattern := pattern }
    | .file m_filename =>
        pure { type := "FileLogAppender".toList, file := some m_filename, pattern := pattern }

end LogAppender

/-! Making objects. -/

def makeFormatter (pattern : Text) : Op FormatterPtr := do
  match LogFormatter.init pattern with
  | none => raise .outOfRange
  | some formatter => do
      let p ← read Heap.formatters
      modify fun h => { h with
        formatter := Function.update h.formatter p formatter
        formatters := p + 1 }
      pure p

def defaultPattern : Text :=
  "%d\x7b%Y-%m-%d %H:%M:%S\x7d%T%t%T%N%T%F%T[%p]%T[%c]%T%f:%l%T%m%n".toList

def makeLogger (name : Text) : Op LoggerPtr := do
  let formatter ← makeFormatter defaultPattern
  let l ← read Heap.loggers
  modify fun h => { h.setLogger l { m_name := name, m_formatter := some formatter } with
    loggers := l + 1 }
  pure l

def makeAppender (kind : Kind) : Op AppenderPtr := do
  let a ← read Heap.appenders
  modify fun h => { h.setAppender a { kind := kind } with appenders := a + 1 }
  match kind with
  | .stdout => pure a
  | .file _ => do
      let _ ← LogAppender.reopen a
      pure a

/-! Logger. -/

namespace Logger

def setLevel (l : LoggerPtr) (level : Level) : Op Unit :=
  modify fun h => h.setLogger l { h.logger l with m_level := level }

def getFormatter (l : LoggerPtr) : Op (Option FormatterPtr) :=
  locking (.logger l) (read fun h => (h.logger l).m_formatter)

def handDown (l : LoggerPtr) (it : AppenderPtr) : Op Unit :=
  locking (.appender it) (modify fun h =>
    if (h.appender it).m_hasFormatter then h
    else h.setAppender it { h.appender it with m_formatter := (h.logger l).m_formatter })

def setFormatter (l : LoggerPtr) (val : Option FormatterPtr) : Op Unit :=
  locking (.logger l) do
    modify fun h => h.setLogger l { h.logger l with m_formatter := val }
    let m_appenders ← read fun h => (h.logger l).m_appenders
    forEach (handDown l) m_appenders

def setPattern (l : LoggerPtr) (val : Text) : Op Unit := do
  let handleVal ← makeFormatter val
  let isError ← read fun h => (h.formatter handleVal).m_error
  if isError then pure () else setFormatter l (some handleVal)

/-- The branch of `addAppender` for an appender without a formatter. -/
def lend (l : LoggerPtr) (a : AppenderPtr) : Op Unit :=
  locking (.appender a) do
    let m_formatter ← read fun h => (h.logger l).m_formatter
    -- which locks the appender again, and sets its flag
    LogAppender.setFormatter a m_formatter

def addAppender (l : LoggerPtr) (a : AppenderPtr) : Op Unit :=
  locking (.logger l) do
    let formatter ← LogAppender.getFormatter a
    (if formatter.isNone then lend l a else pure ())
    modify fun h => h.setLogger l { h.logger l with
      m_appenders := (h.logger l).m_appenders ++ [a] }

def delAppender (l : LoggerPtr) (a : AppenderPtr) : Op Unit :=
  locking (.logger l) (modify fun h => h.setLogger l { h.logger l with
    m_appenders := (h.logger l).m_appenders.erase a })

def clearAppender (l : LoggerPtr) : Op Unit :=
  locking (.logger l) (modify fun h => h.setLogger l { h.logger l with m_appenders := [] })

/-- `log`, with a bound on the number of root loggers it goes through. -/
def log : Nat → LoggerPtr → LogEvent → Op Unit
  | 0, _, _ => raise .endless
  | depth + 1, l, event =>
      locking (.logger l) do
        let logger ← read fun h => h.logger l
        if logger.m_appenders.isEmpty then
          match logger.m_root with
          | some m_root => log depth m_root event
          | none => pure ()
        else forEach (fun it => LogAppender.log it event) logger.m_appenders

structure Node where
  name : Text
  level : Option Text
  formatter : Option Text
  appenders : List LogAppender.Node
  deriving DecidableEq, Repr

def toYamlString (l : LoggerPtr) : Op Node :=
  locking (.logger l) do
    let logger ← read fun h => h.logger l
    let formatter ← read fun h => logger.m_formatter.map fun p => (h.formatter p).m_pattern
    let appenders ← mapEach LogAppender.toYamlString logger.m_appenders
    pure
      { name := logger.m_name
        level := if logger.m_level = .UNKNOW then none else some logger.m_level.ToString
        formatter := formatter
        appenders := appenders }

end Logger

/-! LoggerManager. -/

namespace LoggerManager

def insert (name : Text) (logger : LoggerPtr) : List (Text × LoggerPtr) → List (Text × LoggerPtr)
  | [] => [(name, logger)]
  | (key, other) :: rest =>
      if key < name then (key, other) :: insert name logger rest
      else if key = name then (name, logger) :: rest
      else (name, logger) :: (key, other) :: rest

def getLogger (name : Text) : Op LoggerPtr :=
  locking .manager do
    match ← read fun h => h.m_loggers.lookup name with
    | some l => pure l
    | none => do
        let l ← makeLogger name
        modify fun h => h.setLogger l { h.logger l with m_root := some h.m_root }
        modify fun h => { h with m_loggers := insert name l h.m_loggers }
        pure l

def toYamlString : Op (List Logger.Node) :=
  locking .manager do
    let m_loggers ← read Heap.m_loggers
    mapEach (fun entry => Logger.toYamlString entry.2) m_loggers

def construct : Op Unit := do
  let m_root ← makeLogger "root".toList
  modify fun h => { h with m_root := m_root }
  -- this appender has no formatter, so it is lent the root's
  let stdout ← makeAppender .stdout
  Logger.addAppender m_root stdout
  modify fun h => { h with
    m_loggers := insert (h.logger h.m_root).m_name h.m_root h.m_loggers }

end LoggerManager

/-! The operations of a program. -/

inductive Act where
  | newFormatter (pattern : Text)
  | newAppender (kind : Kind)
  | newLogger (name : Text)
  | getLogger (name : Text)
  | managerYaml
  | setLevel (l : LoggerPtr) (level : Level)
  | getFormatter (l : LoggerPtr)
  | setFormatter (l : LoggerPtr) (val : Option FormatterPtr)
  | setPattern (l : LoggerPtr) (val : Text)
  | addAppender (l : LoggerPtr) (a : AppenderPtr)
  | delAppender (l : LoggerPtr) (a : AppenderPtr)
  | clearAppender (l : LoggerPtr)
  | log (l : LoggerPtr) (event : LogEvent)
  | loggerYaml (l : LoggerPtr)
  | setAppenderLevel (a : AppenderPtr) (level : Level)
  | getAppenderFormatter (a : AppenderPtr)
  | setAppenderFormatter (a : AppenderPtr) (val : Option FormatterPtr)
  | appenderLog (a : AppenderPtr) (event : LogEvent)
  | reopen (a : AppenderPtr)
  | appenderYaml (a : AppenderPtr)
  deriving DecidableEq, Repr

def ignore {Result : Type} (op : Op Result) : Op Unit := do
  let _ ← op
  pure ()

def Act.op : Act → Op Unit
  | .newFormatter pattern => ignore (makeFormatter pattern)
  | .newAppender kind => ignore (makeAppender kind)
  | .newLogger name => ignore (makeLogger name)
  | .getLogger name => ignore (LoggerManager.getLogger name)
  | .managerYaml => ignore LoggerManager.toYamlString
  | .setLevel l level => Logger.setLevel l level
  | .getFormatter l => ignore (Logger.getFormatter l)
  | .setFormatter l val => Logger.setFormatter l val
  | .setPattern l val => Logger.setPattern l val
  | .addAppender l a => Logger.addAppender l a
  | .delAppender l a => Logger.delAppender l a
  | .clearAppender l => Logger.clearAppender l
  -- a logger whose root has no root itself
  | .log l event => Logger.log 2 l event
  | .loggerYaml l => ignore (Logger.toYamlString l)
  | .setAppenderLevel a level => LogAppender.setLevel a level
  | .getAppenderFormatter a => ignore (LogAppender.getFormatter a)
  | .setAppenderFormatter a val => LogAppender.setFormatter a val
  | .appenderLog a event => LogAppender.log a event
  | .reopen a => ignore (LogAppender.reopen a)
  | .appenderYaml a => ignore (LogAppender.toYamlString a)

def Act.valid (h : Heap) : Act → Bool
  | .newFormatter _ | .newAppender _ | .newLogger _ | .getLogger _ | .managerYaml => true
  | .setLevel l _ | .getFormatter l | .setPattern l _ | .clearAppender l | .log l _
  | .loggerYaml l => l < h.loggers
  | .setFormatter l val => l < h.loggers && val.all (· < h.formatters)
  | .addAppender l a | .delAppender l a => l < h.loggers && a < h.appenders
  | .setAppenderLevel a _ | .getAppenderFormatter a | .appenderLog a _ | .reopen a
  | .appenderYaml a => a < h.appenders
  | .setAppenderFormatter a val => a < h.appenders && val.all (· < h.formatters)

def Act.effect (held : Held Lock) (h : Heap) (act : Act) : Option Heap :=
  match act.op held h with
  | .ok (_, after) => some after
  | .error _ => none

end Ztyco.Logging
