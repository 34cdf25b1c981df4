import Mathlib.Data.List.Basic
import Ztyco.FileLog
import Ztyco.LogRendering
import Ztyco.Transition

/-!
Threads that log at the same time. `Logger::log` holds the logger's lock while it goes over the
appenders, `LogAppender::log` holds the appender's while it puts the items of the formatter out,
one after another, and a logger without appenders passes the event to the root logger with its
own lock held. Appenders are added and dropped and formatters are changed meanwhile, in sections
of the same locks; a logger that hands its formatter on is such a section for each appender. All
stdout appenders write to one stream, whatever lock they hold. So do the file appenders, each of
which has a deaf stream of its own from its construction on: they report every event as an error.
Appenders in a list have formatters, files can be opened, and `std::cout` takes everything.
-/

namespace Ztyco.LogLines

open Logging
open Transition
open FileLog (FileLogAppender Deaf constructed_deaf reopen_deaf)

abbrev ThreadId := Nat

/-- An event on its way to the appenders that a logger has when it is locked. -/
structure Call where
  thread : ThreadId
  logger : LoggerPtr
  appenders : List AppenderPtr
  record : LogRecord
  deriving DecidableEq, Repr

structure Line where
  call : Call
  formatter : LogFormatter

inductive Pc where
  | ready
  | locking (l : LoggerPtr) (record : LogRecord)
  | looking (l : LoggerPtr) (record : LogRecord)
  -- in the loop, with the appenders that are left
  | sending (call : Call) (rest : List AppenderPtr)
  -- the three seconds are over
  | reopening (call : Call) (a : AppenderPtr) (rest : List AppenderPtr)
  | reopened (call : Call) (a : AppenderPtr) (rest : List AppenderPtr)
  | entering (call : Call) (a : AppenderPtr) (rest : List AppenderPtr)
  -- in the appender's section, with the items that are left
  | writing (call : Call) (a : AppenderPtr) (formatter : LogFormatter) (items : List FormatItem)
      (rest : List AppenderPtr)
  -- there too, with what is left of the message of failure
  | reporting (call : Call) (a : AppenderPtr) (formatter : LogFormatter) (texts : List Text)
      (rest : List AppenderPtr)
  | leaving

/-- The loggers that a thread has locked, the last one first. -/
structure Worker where
  pc : Pc := .ready
  held : List LoggerPtr := []

structure State where
  m_appenders : LoggerPtr → List AppenderPtr
  m_root : LoggerPtr → Option LoggerPtr
  kind : AppenderPtr → Kind
  m_formatter : AppenderPtr → LogFormatter
  file : AppenderPtr → FileLogAppender
  owner : LoggerPtr → Option ThreadId := fun _ => none
  writer : AppenderPtr → Option ThreadId := fun _ => none
  worker : ThreadId → Worker := fun _ => {}
  -- each text with the appender that put it out
  cout : List (AppenderPtr × Text) := []
  -- what was begun and what was written, in this order
  begun : List Call := []
  written : AppenderPtr → List Line := fun _ => []

def bytes (text : Text) : FileLog.Bytes := text.map Char.toUInt8

def insert (appender : FileLogAppender) (text : Text) : FileLogAppender :=
  { appender with m_filestream := appender.m_filestream.write (bytes text) }

def formatError : List Text := ["[ERROR] FileLogAppender::log() format error".toList, ['\n']]

namespace State

def setWorker (s : State) (t : ThreadId) (worker : Worker) : State :=
  { s with worker := Function.update s.worker t worker }

@[simp] theorem setWorker_written (s : State) (t : ThreadId) (worker : Worker) :
    (s.setWorker t worker).written = s.written := rfl

@[simp] theorem setWorker_begun (s : State) (t : ThreadId) (worker : Worker) :
    (s.setWorker t worker).begun = s.begun := rfl

def due (s : State) (a : AppenderPtr) (record : LogRecord) : Bool :=
  match s.kind a with
  | .stdout => false
  | .file _ => record.m_time ≥ (s.file a).m_lastTime + 3

def failed (s : State) (a : AppenderPtr) : Bool :=
  match s.kind a with
  | .stdout => false
  | .file _ => (s.file a).m_filestream.failbit

def print (s : State) (a : AppenderPtr) (text : Text) : State :=
  { s with cout := s.cout ++ [(a, text)] }

def put (s : State) (a : AppenderPtr) (text : Text) : State :=
  match s.kind a with
  | .stdout => s.print a text
  | .file _ => { s with file := Function.update s.file a (insert (s.file a) text) }

def unlock (s : State) (t : ThreadId) (line : Line) (a : AppenderPtr) (rest : List AppenderPtr)
    (held : List LoggerPtr) : State :=
  { s.setWorker t ⟨.sending line.call rest, held⟩ with
    writer := Function.update s.writer a none
    written := Function.update s.written a (s.written a ++ [line]) }

variable (strftime : Text → UInt64 → Text)

def advance (s : State) (t : ThreadId) : Option State :=
  match s.worker t with
  | ⟨.ready, _⟩ => none
  | ⟨.locking l record, held⟩ =>
      if s.owner l = none then
        some { s.setWorker t ⟨.looking l record, l :: held⟩ with
          owner := Function.update s.owner l (some t) }
      else none
  | ⟨.looking l record, held⟩ =>
      if (s.m_appenders l).isEmpty then
        match s.m_root l with
        | some root => some (s.setWorker t ⟨.locking root record, held⟩)
        | none => some (s.setWorker t ⟨.leaving, held⟩)
      else
        some { s.setWorker t ⟨.sending ⟨t, l, s.m_appenders l, record⟩ (s.m_appenders l), held⟩ with
          begun := s.begun ++ [⟨t, l, s.m_appenders l, record⟩] }
  | ⟨.sending _ [], held⟩ => some (s.setWorker t ⟨.leaving, held⟩)
  | ⟨.sending call (a :: rest), held⟩ =>
      if s.due a call.record then some (s.setWorker t ⟨.reopening call a rest, held⟩)
      else some (s.setWorker t ⟨.entering call a rest, held⟩)
  | ⟨.reopening call a rest, held⟩ =>
      -- `reopen` is a section of its own
      if s.writer a = none then
        some { s.setWorker t ⟨.reopened call a rest, held⟩ with
          file := Function.update s.file a (s.file a).reopen.2 }
      else none
  | ⟨.reopened call a rest, held⟩ =>
      some { s.setWorker t ⟨.entering call a rest, held⟩ with
        file := Function.update s.file a { s.file a with m_lastTime := call.record.m_time } }
  | ⟨.entering call a rest, held⟩ =>
      if s.writer a = none then
        some { s.setWorker t
            ⟨.writing call a (s.m_formatter a) (s.m_formatter a).m_items rest, held⟩ with
          writer := Function.update s.writer a (some t) }
      else none
  | ⟨.writing call a formatter (item :: items) rest, held⟩ =>
      some ((s.put a (item.format_ss strftime call.record)).setWorker t
        ⟨.writing call a formatter items rest, held⟩)
  | ⟨.writing call a formatter [] rest, held⟩ =>
      if s.failed a then some (s.setWorker t ⟨.reporting call a formatter formatError rest, held⟩)
      else some (s.unlock t ⟨call, formatter⟩ a rest held)
  | ⟨.reporting call a formatter (text :: texts) rest, held⟩ =>
      some ((s.print a text).setWorker t ⟨.reporting call a formatter texts rest, held⟩)
  | ⟨.reporting call a formatter [] rest, held⟩ => some (s.unlock t ⟨call, formatter⟩ a rest held)
  | ⟨.leaving, l :: held⟩ =>
      some { s.setWorker t ⟨.leaving, held⟩ with owner := Function.update s.owner l none }
  | ⟨.leaving, []⟩ => some (s.setWorker t ⟨.ready, []⟩)

end State

inductive Act where
  | log (t : ThreadId) (l : LoggerPtr) (record : LogRecord)
  | advance (t : ThreadId)
  | addAppender (l : LoggerPtr) (a : AppenderPtr)
  | delAppender (l : LoggerPtr) (a : AppenderPtr)
  | clearAppender (l : LoggerPtr)
  | setFormatter (a : AppenderPtr) (val : LogFormatter)
  | reopen (a : AppenderPtr)

section Machine
variable (strftime : Text → UInt64 → Text)

def Act.effect (s : State) : Act → Option State
  | .log t l record =>
      match s.worker t with
      | ⟨.ready, held⟩ => some (s.setWorker t ⟨.locking l record, held⟩)
      | _ => none
  | .advance t => s.advance strftime t
  | .addAppender l a =>
      -- `getFormatter` locks the appender
      if s.owner l = none ∧ s.writer a = none then
        some { s with m_appenders := Function.update s.m_appenders l (s.m_appenders l ++ [a]) }
      else none
  | .delAppender l a =>
      if s.owner l = none then
        some { s with m_appenders := Function.update s.m_appenders l ((s.m_appenders l).erase a) }
      else none
  | .clearAppender l =>
      if s.owner l = none then
        some { s with m_appenders := Function.update s.m_appenders l [] }
      else none
  | .setFormatter a val =>
      if s.writer a = none then
        some { s with m_formatter := Function.update s.m_formatter a val }
      else none
  | .reopen a =>
      if s.writer a = none then
        some { s with file := Function.update s.file a (s.file a).reopen.2 }
      else none

/-- Any loggers and appenders, with nothing logged yet, over files with any content. -/
def logging : Machine State Act where
  initial s := ∃ m_appenders m_root kind m_formatter, ∃ content : AppenderPtr → FileLog.Bytes,
    s = { m_appenders, m_root, kind, m_formatter, file := fun a => .constructed (content a) }
  step s act := act.effect strftime s

def Line.text (kind : Kind) (line : Line) : Text :=
  match kind with
  | .stdout => line.formatter.format_str strftime line.call.record
  | .file _ => formatError.flatten

end Machine

/-- How often the event of a call is meant for an appender. -/
def Call.copies (a : AppenderPtr) (call : Call) : List Call :=
  List.replicate (call.appenders.count a) call

/-- What an appender has put on `std::cout`, without what others put there in between. -/
def State.printed (s : State) (a : AppenderPtr) : Text :=
  (s.cout.filter fun part => part.1 = a).flatMap Prod.snd

/-- The lines of an appender are whole, and they are what was logged, in its order, over each
logger and by each thread. -/
structure Whole (strftime : Text → UInt64 → Text) (s : State) : Prop where
  lines : ∀ a, s.writer a = none →
    s.printed a = (s.written a).flatMap (Line.text strftime (s.kind a))
  last : ∀ a t, s.writer a = some t → ∃ (line : Line) (part : Text),
    line.call.thread = t ∧ part <+: line.text strftime (s.kind a) ∧
      s.printed a = (s.written a).flatMap (Line.text strftime (s.kind a)) ++ part
  alone : ∀ a, (∀ b ≠ a, s.writer b = none ∧ s.written b = []) →
    s.cout.flatMap Prod.snd = s.printed a
  deaf : ∀ a, Deaf (s.file a) []
  byLogger : ∀ a l, s.owner l = none →
    ((s.written a).map Line.call).filter (fun call => call.logger = l) =
      (s.begun.filter fun call => call.logger = l).flatMap (Call.copies a)
  byThread : ∀ a t, (s.worker t).pc = .ready →
    ((s.written a).map Line.call).filter (fun call => call.thread = t) =
      (s.begun.filter fun call => call.thread = t).flatMap (Call.copies a)

/-! One step. -/

def Pc.logger : Pc → Option LoggerPtr
  | .looking l _ => some l
  | .sending call _ => some call.logger
  | .reopening call _ _ | .reopened call _ _ | .entering call _ _ => some call.logger
  | .writing call _ _ _ _ | .reporting call _ _ _ _ => some call.logger
  | _ => none

def Pc.line : Pc → Option (AppenderPtr × Line)
  | .writing call a formatter _ _ | .reporting call a formatter _ _ => some (a, ⟨call, formatter⟩)
  | _ => none

def Pc.writes (pc : Pc) : Option AppenderPtr := pc.line.map Prod.fst

def Pc.running : Pc → Option (Call × List AppenderPtr)
  | .sending call rest => some (call, rest)
  | .reopening call a rest | .reopened call a rest | .entering call a rest => some (call, a :: rest)
  | .writing call a _ _ rest | .reporting call a _ _ rest => some (call, a :: rest)
  | _ => none

section Moves
variable (strftime : Text → UInt64 → Text)

/-- What a thread has still to put on `std::cout` for the line that it is at. -/
def Pc.coming (kind : AppenderPtr → Kind) : Pc → Text
  | .writing call a _ items _ =>
      match kind a with
      | .stdout => items.flatMap (FormatItem.format_ss strftime call.record)
      | .file _ => formatError.flatten
  | .reporting _ _ _ texts _ => texts.flatten
  | _ => []

inductive Moved (s : State) (t : ThreadId) : State → Prop where
  | change (m_appenders : LoggerPtr → List AppenderPtr) (m_formatter : AppenderPtr → LogFormatter)
      (file : AppenderPtr → FileLogAppender) (deaf : ∀ a, Deaf (file a) []) :
      Moved s t { s with m_appenders, m_formatter, file }
  | pass {before after : Pc} {held : List LoggerPtr} (found : s.worker t = ⟨before, held⟩)
      (through : ∀ call rest, before.running = some (call, rest) → rest = [])
      (silent : before.writes = none) (outside : after.logger = none)
      (idle : after.running = none) (quiet : after.writes = none) :
      Moved s t (s.setWorker t ⟨after, held⟩)
  | enter {l : LoggerPtr} {record : LogRecord} {held : List LoggerPtr}
      (found : s.worker t = ⟨.locking l record, held⟩) (free : s.owner l = none) :
      Moved s t { s.setWorker t ⟨.looking l record, l :: held⟩ with
        owner := Function.update s.owner l (some t) }
  | begin {l : LoggerPtr} {record : LogRecord} {held : List LoggerPtr}
      (found : s.worker t = ⟨.looking l record, held⟩) :
      Moved s t
        { s.setWorker t ⟨.sending ⟨t, l, s.m_appenders l, record⟩ (s.m_appenders l), held⟩ with
          begun := s.begun ++ [⟨t, l, s.m_appenders l, record⟩] }
  -- before the appender is locked
  | prepare {before after : Pc} {held : List LoggerPtr} {file : AppenderPtr → FileLogAppender}
      (found : s.worker t = ⟨before, held⟩) (logger : after.logger = before.logger)
      (running : after.running = before.running) (silent : before.writes = none)
      (quiet : after.writes = none) (deaf : ∀ a, Deaf (file a) []) :
      Moved s t { s.setWorker t ⟨after, held⟩ with file }
  | take {call : Call} {a : AppenderPtr} {rest : List AppenderPtr} {held : List LoggerPtr}
      (found : s.worker t = ⟨.entering call a rest, held⟩) (free : s.writer a = none) :
      Moved s t { s.setWorker t
          ⟨.writing call a (s.m_formatter a) (s.m_formatter a).m_items rest, held⟩ with
        writer := Function.update s.writer a (some t) }
  | put {before after : Pc} {held : List LoggerPtr} {a : AppenderPtr} {line : Line}
      {parts : List (AppenderPtr × Text)} {file : AppenderPtr → FileLogAppender}
      (found : s.worker t = ⟨before, held⟩) (at_line : before.line = some (a, line))
      (same : after.line = before.line) (logger : after.logger = before.logger)
      (running : after.running = before.running) (own : ∀ part ∈ parts, part.1 = a)
      (paid : before.coming strftime s.kind =
        parts.flatMap Prod.snd ++ after.coming strftime s.kind)
      (deaf : ∀ a, Deaf (file a) []) :
      Moved s t { s.setWorker t ⟨after, held⟩ with cout := s.cout ++ parts, file }
  | give {before : Pc} {line : Line} {a : AppenderPtr} {rest : List AppenderPtr}
      {held : List LoggerPtr} (found : s.worker t = ⟨before, held⟩)
      (at_line : before.line = some (a, line)) (logger : before.logger = some line.call.logger)
      (running : before.running = some (line.call, a :: rest))
      (paid : before.coming strftime s.kind = []) :
      Moved s t (s.unlock t line a rest held)
  | leave {l : LoggerPtr} {held : List LoggerPtr} (found : s.worker t = ⟨.leaving, l :: held⟩) :
      Moved s t { s.setWorker t ⟨.leaving, held⟩ with owner := Function.update s.owner l none }

variable {strftime} {s after : State} {t : ThreadId}

theorem deaf_update {file : AppenderPtr → FileLogAppender} (deaf : ∀ a, Deaf (file a) [])
    (a : AppenderPtr) {appender : FileLogAppender} (still : Deaf appender []) (b : AppenderPtr) :
    Deaf (Function.update file a appender b) [] := by
  by_cases same : b = a
  · subst same
    rwa [Function.update_self]
  · rw [Function.update_of_ne same]
    exact deaf b

theorem insert_deaf {appender : FileLogAppender} (deaf : Deaf appender []) (text : Text) :
    Deaf (insert appender text) [] := by
  unfold Deaf at deaf
  simp [Deaf, insert, deaf, FileLog.FileStream.write]

theorem moved_of_silent {before next : Pc} {held : List LoggerPtr} {a : AppenderPtr} {line : Line}
    {file : AppenderPtr → FileLogAppender} (found : s.worker t = ⟨before, held⟩)
    (at_line : before.line = some (a, line)) (same : next.line = before.line)
    (logger : next.logger = before.logger) (running : next.running = before.running)
    (paid : before.coming strftime s.kind = next.coming strftime s.kind)
    (deaf : ∀ a, Deaf (file a) []) :
    Moved strftime s t { s.setWorker t ⟨next, held⟩ with file } := by
  have moved : Moved strftime s t
      { s.setWorker t ⟨next, held⟩ with cout := s.cout ++ [], file } :=
    .put found at_line same logger running (fun _ mem => by cases mem) paid deaf
  rwa [List.append_nil] at moved

theorem moved_of_put (deaf : ∀ a, Deaf (s.file a) []) {call : Call} {a : AppenderPtr}
    {formatter : LogFormatter} {item : FormatItem} {items : List FormatItem}
    {rest : List AppenderPtr} {held : List LoggerPtr}
    (found : s.worker t = ⟨.writing call a formatter (item :: items) rest, held⟩) :
    Moved strftime s t ((s.put a (item.format_ss strftime call.record)).setWorker t
      ⟨.writing call a formatter items rest, held⟩) := by
  unfold State.put
  split
  · rename_i out
    refine .put found rfl rfl rfl rfl (by simp) ?_ deaf
    simp [Pc.coming, out]
  · rename_i name out
    exact moved_of_silent found rfl rfl rfl rfl (by simp [Pc.coming, out])
      (deaf_update deaf a (insert_deaf (deaf a) _))

theorem moved_of_advance (deaf : ∀ a, Deaf (s.file a) [])
    (done : s.advance strftime t = some after) : Moved strftime s t after := by
  unfold State.advance at done
  split at done
  · cases done
  · rename_i l record held found
    split at done
    · rename_i free
      cases done
      exact .enter found free
    · cases done
  · rename_i l record held found
    split at done
    · split at done
      · cases done
        exact .pass found (fun _ _ run => by cases run) rfl rfl rfl rfl
      · cases done
        exact .pass found (fun _ _ run => by cases run) rfl rfl rfl rfl
    · cases done
      exact .begin found
  · rename_i call held found
    cases done
    exact .pass found (fun _ _ run => by cases run; rfl) rfl rfl rfl rfl
  · rename_i call a rest held found
    split at done
    · cases done
      exact .prepare found rfl rfl rfl rfl deaf
    · cases done
      exact .prepare found rfl rfl rfl rfl deaf
  · rename_i call a rest held found
    split at done
    · cases done
      exact .prepare found rfl rfl rfl rfl (deaf_update deaf a (reopen_deaf (deaf a)))
    · cases done
  · rename_i call a rest held found
    cases done
    exact .prepare found rfl rfl rfl rfl (deaf_update deaf a (deaf a))
  · rename_i call a rest held found
    split at done
    · rename_i free
      cases done
      exact .take found free
    · cases done
  · rename_i found
    cases done
    exact moved_of_put deaf found
  · rename_i call a formatter rest held found
    cases kind : s.kind a with
    | stdout =>
        rw [if_neg (by simp [State.failed, kind])] at done
        cases done
        exact .give found rfl rfl rfl (by simp [Pc.coming, kind])
    | file name =>
        have failed : s.failed a = true := by
          have stream := deaf a
          unfold Deaf at stream
          simp [State.failed, kind, stream]
        rw [if_pos failed] at done
        cases done
        exact moved_of_silent found rfl rfl rfl rfl (by simp [Pc.coming, kind]) deaf
  · rename_i call a formatter text texts rest held found
    cases done
    exact .put found rfl rfl rfl rfl (by simp) (by simp [Pc.coming]) deaf
  · rename_i found
    cases done
    exact .give found rfl rfl rfl rfl
  · rename_i found
    cases done
    exact .leave found
  · rename_i found
    cases done
    exact .pass found (fun _ _ run => by cases run) rfl rfl rfl rfl

theorem moved_of_effect (deaf : ∀ a, Deaf (s.file a) []) {act : Act}
    (done : act.effect strftime s = some after) : ∃ t, Moved strftime s t after := by
  cases act with
  | advance t => exact ⟨t, moved_of_advance deaf done⟩
  | log t l record =>
      simp only [Act.effect] at done
      split at done
      · rename_i held found
        cases done
        exact ⟨t, .pass found (fun _ _ run => by cases run) rfl rfl rfl rfl⟩
      · cases done
  | addAppender l a | delAppender l a | clearAppender l | setFormatter a val =>
      simp only [Act.effect] at done
      split at done
      · cases done
        exact ⟨0, .change _ _ _ deaf⟩
      · cases done
  | reopen a =>
      simp only [Act.effect] at done
      split at done
      · cases done
        exact ⟨0, .change _ _ _ (deaf_update deaf a (reopen_deaf (deaf a)))⟩
      · cases done

theorem deaf_moved (deaf : ∀ a, Deaf (s.file a) []) (moved : Moved strftime s t after)
    (a : AppenderPtr) : Deaf (after.file a) [] := by
  cases moved with
  | change _ _ _ still | prepare _ _ _ _ _ still | put _ _ _ _ _ _ _ still => exact still a
  | pass | enter | begin | take | give | leave => exact deaf a

end Moves

/-! Who holds what. -/

/-- A lock of a logger is held by the thread that has it on its list, the lock of an appender
by the thread that writes to it. -/
structure Fits (s : State) (t : ThreadId) (worker : Worker) : Prop where
  owned : ∀ l ∈ worker.held, s.owner l = some t
  apart : worker.held.Nodup
  inside : ∀ l, worker.pc.logger = some l → l ∈ worker.held
  writer : ∀ a, worker.pc.writes = some a ↔ s.writer a = some t
  named : ∀ call rest, worker.pc.running = some (call, rest) → call.thread = t

def Locked (s : State) : Prop := ∀ t, Fits s t (s.worker t)

theorem running_logger {pc : Pc} {call : Call} {rest : List AppenderPtr}
    (run : pc.running = some (call, rest)) : pc.logger = some call.logger := by
  cases pc with
  | sending | reopening | reopened | entering | writing | reporting =>
      cases run
      rfl
  | ready | locking | looking | leaving => cases run

theorem line_writes {pc : Pc} {a : AppenderPtr} {line : Line} (at_line : pc.line = some (a, line)) :
    pc.writes = some a := by
  rw [Pc.writes, at_line]
  rfl

theorem line_running {pc : Pc} {a : AppenderPtr} {line : Line}
    (at_line : pc.line = some (a, line)) : ∃ rest, pc.running = some (line.call, a :: rest) := by
  cases pc with
  | writing call b formatter items rest | reporting call b formatter texts rest =>
      cases at_line
      exact ⟨rest, rfl⟩
  | ready | locking | looking | sending | reopening | reopened | entering | leaving => cases at_line

section Locks
variable {strftime : Text → UInt64 → Text} {s after : State} {t : ThreadId}

theorem locked_update {worker : Worker} (locked : Locked s)
    (changed : after.worker = Function.update s.worker t worker) (fits : Fits after t worker)
    (owner : ∀ u ≠ t, ∀ l, s.owner l = some u → after.owner l = some u)
    (writer : ∀ u ≠ t, ∀ a, s.writer a = some u ↔ after.writer a = some u) : Locked after := by
  intro u
  rw [changed]
  by_cases same : u = t
  · subst same
    rw [Function.update_self]
    exact fits
  · rw [Function.update_of_ne same]
    have before := locked u
    exact ⟨fun l mem => owner u same l (before.owned l mem), before.apart, before.inside,
      fun a => (before.writer a).trans (writer u same a), before.named⟩

/-- A lock that is free is taken, or one that the thread holds is given up. -/
theorem other_owner {Key : Type} [DecidableEq Key] {owner : Key → Option ThreadId} {key other : Key}
    {value : Option ThreadId} {u : ThreadId} (mine : owner key = none ∨ owner key = some t)
    (set : value = none ∨ value = some t) (apart : u ≠ t) :
    owner other = some u ↔ Function.update owner key value other = some u := by
  by_cases same : other = key
  · subst same
    rw [Function.update_self]
    rcases mine with mine | mine <;> rcases set with rfl | rfl <;> simp [mine, apart.symm]
  · rw [Function.update_of_ne same]

/-- A thread goes on with the locks it has. -/
theorem locked_goes {before next : Pc} {held : List LoggerPtr} (locked : Locked s)
    (found : s.worker t = ⟨before, held⟩)
    (changed : after.worker = Function.update s.worker t ⟨next, held⟩)
    (owner : after.owner = s.owner) (writer : after.writer = s.writer)
    (inside : ∀ l, next.logger = some l → before.logger = some l)
    (writes : next.writes = before.writes)
    (named : ∀ call rest, next.running = some (call, rest) → call.thread = t) :
    Locked after := by
  have fits := locked t
  rw [found] at fits
  refine locked_update locked changed ⟨?_, fits.apart, ?_, ?_, named⟩ ?_ ?_
  · rw [owner]
    exact fits.owned
  · intro l in_next
    exact fits.inside l (inside l in_next)
  · intro a
    rw [writes, writer]
    exact fits.writer a
  · rw [owner]
    exact fun _ _ _ owned => owned
  · rw [writer]
    exact fun _ _ _ => Iff.rfl

theorem locked_enter {l : LoggerPtr} {record : LogRecord} {held : List LoggerPtr}
    (locked : Locked s) (found : s.worker t = ⟨.locking l record, held⟩)
    (free : s.owner l = none) : Locked { s.setWorker t ⟨.looking l record, l :: held⟩ with
      owner := Function.update s.owner l (some t) } := by
  have fits := locked t
  rw [found] at fits
  have fresh : l ∉ held := by
    intro mem
    rw [fits.owned l mem] at free
    cases free
  refine locked_update locked rfl ⟨?_, List.nodup_cons.mpr ⟨fresh, fits.apart⟩, ?_,
    fits.writer, ?_⟩ (fun u apart other => (other_owner (.inl free) (.inr rfl) apart).mp)
    fun _ _ _ => Iff.rfl
  · intro other mem
    by_cases same : other = l
    · subst same
      exact Function.update_self ..
    · rcases List.mem_cons.mp mem with equal | mem
      · exact absurd equal same
      · exact (Function.update_of_ne same ..).trans (fits.owned other mem)
  · intro other inside
    cases inside
    exact List.mem_cons_self ..
  · intro call rest run
    cases run

theorem locked_take {call : Call} {a : AppenderPtr} {rest : List AppenderPtr}
    {held : List LoggerPtr} (locked : Locked s)
    (found : s.worker t = ⟨.entering call a rest, held⟩) (free : s.writer a = none) :
    Locked { s.setWorker t
        ⟨.writing call a (s.m_formatter a) (s.m_formatter a).m_items rest, held⟩ with
      writer := Function.update s.writer a (some t) } := by
  have fits := locked t
  rw [found] at fits
  refine locked_update locked rfl ⟨fits.owned, fits.apart, fits.inside, ?_, fits.named⟩
    (fun _ _ _ owned => owned) fun u apart other => other_owner (.inl free) (.inr rfl) apart
  intro other
  by_cases same : other = a
  · subst same
    simp [Pc.writes, Pc.line]
  · have none := fits.writer other
    simp only [Pc.writes, Pc.line, Function.update_of_ne same] at none ⊢
    simpa [Ne.symm same] using none

theorem locked_give {before : Pc} {line : Line} {a : AppenderPtr} {rest : List AppenderPtr}
    {held : List LoggerPtr} (locked : Locked s) (found : s.worker t = ⟨before, held⟩)
    (at_line : before.line = some (a, line)) (logger : before.logger = some line.call.logger)
    (running : before.running = some (line.call, a :: rest)) :
    Locked (s.unlock t line a rest held) := by
  have fits := locked t
  rw [found] at fits
  have mine : s.writer a = some t := (fits.writer a).mp (line_writes at_line)
  refine locked_update locked rfl ⟨fits.owned, fits.apart, ?_, ?_, ?_⟩
    (fun _ _ _ owned => owned) fun u apart other => other_owner (.inr mine) (.inl rfl) apart
  · intro l inside
    exact fits.inside l (logger.trans inside)
  · intro other
    by_cases same : other = a
    · subst same
      simp [Pc.writes, Pc.line, State.unlock]
    · have only := fits.writer other
      rw [line_writes at_line] at only
      simp only [State.unlock, Function.update_of_ne same] at only ⊢
      simpa [Pc.writes, Pc.line, Ne.symm same] using only
  · intro _ _ run
    cases run
    exact fits.named line.call (a :: rest) running

theorem locked_leave {l : LoggerPtr} {held : List LoggerPtr} (locked : Locked s)
    (found : s.worker t = ⟨.leaving, l :: held⟩) :
    Locked { s.setWorker t ⟨.leaving, held⟩ with
      owner := Function.update s.owner l none } := by
  have fits := locked t
  rw [found] at fits
  have mine : s.owner l = some t := fits.owned l (List.mem_cons_self ..)
  rcases List.nodup_cons.mp fits.apart with ⟨gone, apart⟩
  refine locked_update locked rfl ⟨?_, apart, ?_, fits.writer, ?_⟩
    (fun u apart other => (other_owner (.inr mine) (.inl rfl) apart).mp) fun _ _ _ => Iff.rfl
  · intro other mem
    have differs : other ≠ l := fun same => gone (same ▸ mem)
    exact (Function.update_of_ne differs ..).trans (fits.owned other (List.mem_cons_of_mem _ mem))
  · intro other inside
    cases inside
  · intro call rest run
    cases run

theorem locked_moved (locked : Locked s) (moved : Moved strftime s t after) : Locked after := by
  have named := (locked t).named
  cases moved with
  | change m_appenders m_formatter file deaf =>
      exact fun u => ⟨(locked u).owned, (locked u).apart, (locked u).inside, (locked u).writer,
        (locked u).named⟩
  | pass found through silent outside idle quiet =>
      refine locked_goes locked found rfl rfl rfl ?_ (quiet.trans silent.symm) ?_
      · intro l inside
        rw [outside] at inside
        cases inside
      · intro call rest run
        rw [idle] at run
        cases run
  | enter found free => exact locked_enter locked found free
  | begin found =>
      refine locked_goes locked found rfl rfl rfl (fun _ inside => inside) rfl ?_
      intro call rest run
      cases run
      rfl
  | prepare found logger running silent quiet deaf =>
      rw [found] at named
      refine locked_goes locked found rfl rfl rfl ?_ (quiet.trans silent.symm) ?_
      · intro l inside
        exact logger.symm.trans inside
      · intro call rest run
        exact named call rest (running.symm.trans run)
  | take found free => exact locked_take locked found free
  | put found at_line same logger running own paid deaf =>
      rw [found] at named
      refine locked_goes locked found rfl rfl rfl ?_ ?_ ?_
      · intro l inside
        exact logger.symm.trans inside
      · rw [Pc.writes, Pc.writes, same]
      · intro call rest run
        exact named call rest (running.symm.trans run)
  | give found at_line logger running paid =>
      exact locked_give locked found at_line logger running
  | leave found => exact locked_leave locked found

end Locks

/-! What is put on `std::cout`. -/

section Streams
variable {strftime : Text → UInt64 → Text} {s after : State} {t : ThreadId} {a : AppenderPtr}

def State.whole (strftime : Text → UInt64 → Text) (s : State) (a : AppenderPtr) : Text :=
  (s.written a).flatMap (Line.text strftime (s.kind a))

/-- Besides its whole lines an appender has put out what its writer has not still to put out. -/
structure Streamed (strftime : Text → UInt64 → Text) (s : State) (a : AppenderPtr) : Prop where
  partly : ∀ t line, (s.worker t).pc.line = some (a, line) → ∃ part,
    part ++ (s.worker t).pc.coming strftime s.kind = line.text strftime (s.kind a) ∧
      s.printed a = s.whole strftime a ++ part
  wholly : (∀ t, (s.worker t).pc.writes ≠ some a) → s.printed a = s.whole strftime a

theorem sole_writer (locked : Locked s) {u : ThreadId} (mine : (s.worker t).pc.writes = some a)
    (other : (s.worker u).pc.writes = some a) : u = t := by
  have first := ((locked t).writer a).mp mine
  have second := ((locked u).writer a).mp other
  rw [first] at second
  exact (Option.some.inj second).symm

/-- A thread that does not write to the appender before or after leaves it alone. -/
theorem streamed_update {worker : Worker} (streamed : Streamed strftime s a)
    (changed : after.worker = Function.update s.worker t worker)
    (before : (s.worker t).pc.writes ≠ some a) (later : worker.pc.writes ≠ some a)
    (kind : after.kind = s.kind) (printed : after.printed a = s.printed a)
    (written : after.written a = s.written a) : Streamed strftime after a := by
  have whole : after.whole strftime a = s.whole strftime a := by
    rw [State.whole, State.whole, written, kind]
  constructor
  · intro u line at_line
    rw [changed] at at_line ⊢
    by_cases same : u = t
    · subst same
      rw [Function.update_self] at at_line
      exact absurd (line_writes at_line) later
    · rw [Function.update_of_ne same] at at_line ⊢
      rw [printed, whole, kind]
      exact streamed.partly u line at_line
  · intro silent
    rw [printed, whole]
    apply streamed.wholly
    intro u
    by_cases same : u = t
    · subst same
      exact before
    · have still := silent u
      rwa [changed, Function.update_of_ne same] at still

/-- The writer goes on; no other thread writes to the appender. -/
theorem streamed_writer {worker : Worker} {line : Line} {part : Text}
    (changed : after.worker = Function.update s.worker t worker) (locked : Locked after)
    (at_line : worker.pc.line = some (a, line))
    (split : part ++ worker.pc.coming strftime after.kind = line.text strftime (after.kind a))
    (printed : after.printed a = after.whole strftime a ++ part) : Streamed strftime after a := by
  have now : after.worker t = worker := by rw [changed, Function.update_self]
  have mine : (after.worker t).pc.writes = some a := by
    rw [now]
    exact line_writes at_line
  constructor
  · intro u line' at_line'
    have same : u = t := sole_writer locked mine (line_writes at_line')
    subst same
    rw [now, at_line] at at_line'
    cases at_line'
    rw [now]
    exact ⟨part, split, printed⟩
  · intro silent
    exact absurd mine (silent t)

theorem printed_append {parts : List (AppenderPtr × Text)} (cout : after.cout = s.cout ++ parts) :
    after.printed a = s.printed a ++ (parts.filter fun part => part.1 = a).flatMap Prod.snd := by
  rw [State.printed, cout, List.filter_append, List.flatMap_append]
  rfl

theorem writing_coming (kind : AppenderPtr → Kind) (call : Call) (a : AppenderPtr)
    (formatter : LogFormatter) (rest : List AppenderPtr) :
    (Pc.writing call a formatter formatter.m_items rest).coming strftime kind =
      Line.text strftime (kind a) ⟨call, formatter⟩ := by
  cases put : kind a with
  | stdout =>
      simp only [Pc.coming, Line.text, put]
      exact (format_str_eq strftime formatter call.record).symm
  | file name => simp only [Pc.coming, Line.text, put]

theorem streamed_moved (locked : Locked s) (streamed : Streamed strftime s a)
    (moved : Moved strftime s t after) : Streamed strftime after a := by
  have locked' := locked_moved locked moved
  cases moved with
  | change m_appenders m_formatter file deaf => exact ⟨streamed.partly, streamed.wholly⟩
  | pass found through silent outside idle quiet =>
      exact streamed_update streamed rfl (by simp [found, silent]) (by simp [quiet]) rfl rfl rfl
  | prepare found logger running silent quiet deaf =>
      exact streamed_update streamed rfl (by simp [found, silent]) (by simp [quiet]) rfl rfl rfl
  | enter found free | begin found | leave found =>
      exact streamed_update streamed rfl (by simp [found, Pc.writes, Pc.line])
        (by simp [Pc.writes, Pc.line]) rfl rfl rfl
  | @take call b rest held found free =>
      by_cases same : b = a
      · subst same
        have split : [] ++ (Pc.writing call b (s.m_formatter b) (s.m_formatter b).m_items
            rest).coming strftime s.kind = Line.text strftime (s.kind b) ⟨call, s.m_formatter b⟩ :=
          writing_coming s.kind call b _ rest
        refine streamed_writer rfl locked' rfl split ?_
        rw [List.append_nil]
        apply streamed.wholly
        intro u writes
        rw [((locked u).writer b).mp writes] at free
        cases free
      · exact streamed_update streamed rfl (by simp [found, Pc.writes, Pc.line])
          (by simp [Pc.writes, Pc.line, same]) rfl rfl rfl
  | @put before next held b line parts file found at_line same logger running own paid deaf =>
      have printed : State.printed { s.setWorker t ⟨next, held⟩ with cout := s.cout ++ parts, file }
          a = s.printed a ++ (parts.filter fun part => part.1 = a).flatMap Prod.snd :=
        printed_append rfl
      by_cases equal : b = a
      · subst equal
        rcases streamed.partly t line (by rw [found]; exact at_line) with ⟨part, split, out⟩
        rw [found, paid, ← List.append_assoc] at split
        refine streamed_writer rfl locked' (same.trans at_line) split ?_
        rw [printed, out, List.filter_eq_self.mpr fun part mem => decide_eq_true (own part mem),
          List.append_assoc]
        rfl
      · have none : (parts.filter fun part => part.1 = a) = [] := by
          apply List.filter_eq_nil_iff.mpr
          intro part mem
          rw [own part mem]
          simpa using equal
        rw [none, List.flatMap_nil, List.append_nil] at printed
        have elsewhere : before.writes ≠ some a := by
          rw [line_writes at_line]
          simpa using equal
        refine streamed_update streamed rfl (by rwa [found]) ?_ rfl printed rfl
        rwa [Pc.writes, same]
  | @give before line b rest held found at_line logger running paid =>
      by_cases same : b = a
      · subst same
        rcases streamed.partly t line (by rw [found]; exact at_line) with ⟨part, split, out⟩
        rw [found, paid, List.append_nil] at split
        have whole : (s.unlock t line b rest held).printed b =
            (s.unlock t line b rest held).whole strftime b := by
          have written : (s.unlock t line b rest held).written b = s.written b ++ [line] :=
            Function.update_self ..
          rw [State.whole, written, List.flatMap_append, List.flatMap_singleton]
          exact split ▸ out
        refine ⟨?_, fun _ => whole⟩
        intro u line' at_line'
        have mine := sole_writer locked (t := t) (a := b) (u := u)
          (by rw [found]; exact line_writes at_line)
        by_cases still : u = t
        · subst still
          simp [State.setWorker, State.unlock, Pc.line] at at_line'
        · rw [show ((s.unlock t line b rest held).worker u) = s.worker u from
            Function.update_of_ne still ..] at at_line'
          exact absurd (mine (line_writes at_line')) still
      · refine streamed_update streamed rfl ?_ (by simp [Pc.writes, Pc.line]) rfl rfl
          (Function.update_of_ne (Ne.symm same) ..)
        rw [found, line_writes at_line]
        simpa using same

end Streams

/-! What was begun and what was written. -/

def State.calls (s : State) (p : Call → Bool) (a : AppenderPtr) : List Call :=
  ((s.written a).map Line.call).filter p

def State.meant (s : State) (p : Call → Bool) (a : AppenderPtr) : List Call :=
  (s.begun.filter p).flatMap (Call.copies a)

def Pc.left (p : Call → Bool) (a : AppenderPtr) (pc : Pc) : List Call :=
  match pc.running with
  | some (call, rest) => if p call then List.replicate (rest.count a) call else []
  | none => []

def Pc.among (p : Call → Bool) (pc : Pc) : Prop :=
  ∃ call rest, pc.running = some (call, rest) ∧ p call

def Serial (s : State) (p : Call → Bool) : Prop :=
  ∀ t u, (s.worker t).pc.among p → (s.worker u).pc.among p → t = u

structure Settled (s : State) (p : Call → Bool) (a : AppenderPtr) : Prop where
  within : ∀ t, (s.worker t).pc.among p →
    s.calls p a ++ (s.worker t).pc.left p a = s.meant p a
  between : (∀ t, ¬ (s.worker t).pc.among p) → s.calls p a = s.meant p a

section Ledger
variable {strftime : Text → UInt64 → Text} {s after : State} {t : ThreadId} {a : AppenderPtr}
  {p : Call → Bool}

theorem left_of_not_among {pc : Pc} (none : ¬ pc.among p) : pc.left p a = [] := by
  unfold Pc.left
  split
  · rename_i call rest run
    split
    · rename_i good
      exact absurd ⟨call, rest, run, good⟩ none
    · rfl
  · rfl

theorem serial_logger (locked : Locked s) (l : LoggerPtr) :
    Serial s fun call => call.logger = l := by
  rintro t u ⟨call, rest, run, here⟩ ⟨other, rest', run', there⟩
  have mine := (locked t).owned _ ((locked t).inside _ (running_logger run))
  have yours := (locked u).owned _ ((locked u).inside _ (running_logger run'))
  rw [of_decide_eq_true here] at mine
  rw [of_decide_eq_true there, mine] at yours
  exact Option.some.inj yours

theorem serial_thread (locked : Locked s) (v : ThreadId) :
    Serial s fun call => call.thread = v := by
  rintro t u ⟨call, rest, run, here⟩ ⟨other, rest', run', there⟩
  rw [← (locked t).named call rest run, ← (locked u).named other rest' run',
    of_decide_eq_true here, of_decide_eq_true there]

theorem unlock_calls (s : State) (t : ThreadId) (line : Line) (b : AppenderPtr)
    (rest : List AppenderPtr) (held : List LoggerPtr) :
    (s.unlock t line b rest held).calls p a =
      s.calls p a ++ if b = a ∧ p line.call then [line.call] else [] := by
  by_cases same : b = a
  · subst same
    have written : (s.unlock t line b rest held).written b = s.written b ++ [line] :=
      Function.update_self ..
    rw [State.calls, written, List.map_append, List.filter_append]
    by_cases good : p line.call
    · simp [State.calls, good]
    · simp [State.calls, good]
  · have written : (s.unlock t line b rest held).written a = s.written a :=
      Function.update_of_ne (Ne.symm same) ..
    rw [State.calls, written, if_neg fun both => same both.1, List.append_nil]
    rfl

/-- A step of one thread: if it is in one of these calls, what it writes is what it owes. -/
theorem settled_update {worker : Worker} (settled : Settled s p a) (serial : Serial s p)
    (later : Serial after p) (changed : after.worker = Function.update s.worker t worker)
    (pays : s.calls p a ++ (s.worker t).pc.left p a = s.meant p a →
      after.calls p a ++ worker.pc.left p a = after.meant p a)
    (apart : ¬ (s.worker t).pc.among p → ¬ worker.pc.among p →
      after.calls p a = s.calls p a ∧ after.meant p a = s.meant p a) : Settled after p a := by
  have mine : (after.worker t).pc = worker.pc := by rw [changed, Function.update_self]
  have others : ∀ u ≠ t, after.worker u = s.worker u := by
    intro u differs
    rw [changed, Function.update_of_ne differs]
  -- what the thread had still to write, if no other one was in such a call
  have owing : (∀ u ≠ t, ¬ (s.worker u).pc.among p) →
      s.calls p a ++ (s.worker t).pc.left p a = s.meant p a := by
    intro alone
    by_cases was : (s.worker t).pc.among p
    · exact settled.within t was
    · rw [left_of_not_among was, List.append_nil]
      apply settled.between
      intro u
      by_cases same : u = t
      · exact same ▸ was
      · exact alone u same
  constructor
  · intro u now
    by_cases same : u = t
    · subst same
      rw [mine]
      apply pays
      apply owing
      intro v differs running
      exact differs (later v u (by rwa [others v differs]) now)
    · rw [others u same] at now ⊢
      have outside : ¬ (s.worker t).pc.among p := fun was => same (serial u t now was)
      have still : ¬ worker.pc.among p := by
        rw [← mine]
        exact fun running => same (later u t (by rwa [others u same]) running)
      rw [(apart outside still).1, (apart outside still).2]
      exact settled.within u now
  · intro none
    have paid := pays (owing fun u differs => by rw [← others u differs]; exact none u)
    rwa [left_of_not_among (by rw [← mine]; exact none t), List.append_nil] at paid

theorem settled_same {worker : Worker} (settled : Settled s p a) (serial : Serial s p)
    (later : Serial after p) (changed : after.worker = Function.update s.worker t worker)
    (running : worker.pc.running = (s.worker t).pc.running) (begun : after.begun = s.begun)
    (written : after.written = s.written) : Settled after p a := by
  have calls : after.calls p a = s.calls p a := by rw [State.calls, written]; rfl
  have meant : after.meant p a = s.meant p a := by rw [State.meant, begun]; rfl
  refine settled_update settled serial later changed ?_ fun _ _ => ⟨calls, meant⟩
  intro owed
  rwa [calls, meant, Pc.left, running]

theorem settled_moved (locked : Locked s) (settled : Settled s p a)
    (serials : ∀ s, Locked s → Serial s p) (moved : Moved strftime s t after) :
    Settled after p a := by
  have serial := serials s locked
  have later := serials after (locked_moved locked moved)
  cases moved with
  | change m_appenders m_formatter file deaf => exact ⟨settled.within, settled.between⟩
  | @pass before next held found through silent outside idle quiet =>
      refine settled_update settled serial later rfl ?_ fun _ _ => ⟨rfl, rfl⟩
      intro owed
      have nothing : before.left p a = [] := by
        unfold Pc.left
        split
        · rename_i call rest run
          simp [through call rest run]
        · rfl
      have none : next.left p a = [] := by rw [Pc.left, idle]
      rw [found, nothing] at owed
      rw [none]
      exact owed
  | enter found free => exact settled_same settled serial later rfl (by rw [found]; rfl) rfl rfl
  | take found free => exact settled_same settled serial later rfl (by rw [found]; rfl) rfl rfl
  | prepare found logger running silent quiet deaf =>
      exact settled_same settled serial later rfl (by rw [found]; exact running) rfl rfl
  | put found at_line same logger running own paid deaf =>
      exact settled_same settled serial later rfl (by rw [found]; exact running) rfl rfl
  | leave found => exact settled_same settled serial later rfl (by rw [found]) rfl rfl
  | @begin l record held found =>
      refine settled_update settled serial later rfl ?_ ?_
      · intro owed
        rw [found] at owed
        by_cases good : p ⟨t, l, s.m_appenders l, record⟩
        · simp only [State.calls, State.meant, Pc.left, Pc.running, good, State.setWorker_written,
            List.filter_append, List.filter_cons, List.filter_nil, List.flatMap_append,
            List.flatMap_singleton, List.append_nil, ↓reduceIte] at owed ⊢
          rw [owed]
          rfl
        · simpa [State.calls, State.meant, Pc.left, Pc.running, good] using owed
      · intro _ none
        have other : ¬ p ⟨t, l, s.m_appenders l, record⟩ := fun good => none ⟨_, _, rfl, good⟩
        exact ⟨rfl, by simp [State.meant, other]⟩
  | @give before line b rest held found at_line logger running paid =>
      have written := unlock_calls (p := p) (a := a) s t line b rest held
      refine settled_update settled serial later rfl ?_ ?_
      · intro owed
        rw [found, Pc.left, running] at owed
        rw [written, ← show s.meant p a = (s.unlock t line b rest held).meant p a from rfl, ← owed,
          List.append_assoc]
        by_cases good : p line.call
        · by_cases same : b = a
          · simp [Pc.left, Pc.running, good, same, List.replicate_succ]
          · simp [Pc.left, Pc.running, good, same]
        · simp [Pc.left, Pc.running, good]
      · intro was _
        rw [found] at was
        have other : ¬ p line.call := fun good => was ⟨_, _, running, good⟩
        refine ⟨?_, rfl⟩
        rw [written, if_neg fun both => other both.2, List.append_nil]

end Ledger

section Runs
variable {strftime : Text → UInt64 → Text} {s : State}

theorem deaf_reach (reached : Reach (logging strftime) anyStep s) (a : AppenderPtr) :
    Deaf (s.file a) [] := by
  refine reached.invariant (fun s => ∀ a, Deaf (s.file a) []) ?_ ?_ a
  · rintro _ ⟨m_appenders, m_root, kind, m_formatter, content, rfl⟩ a
    exact constructed_deaf (content a)
  · intro before act after _ deaf _ done
    rcases moved_of_effect deaf done with ⟨t, moved⟩
    exact deaf_moved deaf moved

theorem moved_of_reach {act : Act} {after : State} (reached : Reach (logging strftime) anyStep s)
    (done : (logging strftime).step s act = some after) : ∃ t, Moved strftime s t after :=
  moved_of_effect (deaf_reach reached) done

theorem locked_reach (reached : Reach (logging strftime) anyStep s) : Locked s := by
  refine reached.invariant Locked ?_ ?_
  · rintro _ ⟨m_appenders, m_root, kind, m_formatter, content, rfl⟩ t
    refine ⟨?_, List.nodup_nil, ?_, ?_, ?_⟩
    · intro l mem
      cases mem
    · intro l inside
      cases inside
    · intro a
      simp [Pc.writes, Pc.line]
    · intro call rest run
      cases run
  · intro before act after reached locked _ done
    rcases moved_of_reach reached done with ⟨t, moved⟩
    exact locked_moved locked moved

theorem streamed_reach (reached : Reach (logging strftime) anyStep s) (a : AppenderPtr) :
    Streamed strftime s a := by
  refine reached.invariant (fun s => Streamed strftime s a) ?_ ?_
  · rintro _ ⟨m_appenders, m_root, kind, m_formatter, content, rfl⟩
    refine ⟨?_, fun _ => rfl⟩
    intro t line at_line
    cases at_line
  · intro before act after reached streamed _ done
    rcases moved_of_reach reached done with ⟨t, moved⟩
    exact streamed_moved (locked_reach reached) streamed moved

theorem settled_reach (reached : Reach (logging strftime) anyStep s) (p : Call → Bool)
    (serials : ∀ s, Locked s → Serial s p) (a : AppenderPtr) : Settled s p a := by
  refine reached.invariant (fun s => Settled s p a) ?_ ?_
  · rintro _ ⟨m_appenders, m_root, kind, m_formatter, content, rfl⟩
    refine ⟨?_, fun _ => rfl⟩
    rintro t ⟨call, rest, run, _⟩
    cases run
  · intro before act after reached settled _ done
    rcases moved_of_reach reached done with ⟨t, moved⟩
    exact settled_moved (locked_reach reached) settled serials moved

theorem printed_free (reached : Reach (logging strftime) anyStep s) {a : AppenderPtr}
    (free : s.writer a = none) : s.printed a = s.whole strftime a := by
  apply (streamed_reach reached a).wholly
  intro t writes
  rw [((locked_reach reached t).writer a).mp writes] at free
  cases free

theorem printed_writing (reached : Reach (logging strftime) anyStep s) {a : AppenderPtr}
    {t : ThreadId} (mine : s.writer a = some t) : ∃ (line : Line) (part : Text),
      line.call.thread = t ∧ part <+: line.text strftime (s.kind a) ∧
        s.printed a = s.whole strftime a ++ part := by
  have locked := locked_reach reached t
  rcases Option.map_eq_some_iff.mp ((locked.writer a).mpr mine) with ⟨⟨b, line⟩, at_line, rfl⟩
  rcases (streamed_reach reached b).partly t line at_line with ⟨part, split, printed⟩
  rcases line_running at_line with ⟨rest, running⟩
  exact ⟨line, part, locked.named line.call _ running, split ▸ List.prefix_append .., printed⟩

theorem cout_alone (reached : Reach (logging strftime) anyStep s) {a : AppenderPtr}
    (alone : ∀ b ≠ a, s.writer b = none ∧ s.written b = []) :
    s.cout.flatMap Prod.snd = s.printed a := by
  have silent : ∀ part ∈ s.cout, part.1 ≠ a → part.2 = [] := by
    intro part mem other
    have nothing : s.printed part.1 = [] := by
      rw [printed_free reached (alone part.1 other).1, State.whole, (alone part.1 other).2]
      rfl
    exact List.flatMap_eq_nil_iff.mp nothing part (List.mem_filter.mpr ⟨mem, by simp⟩)
  rw [State.printed]
  generalize s.cout = cout at silent ⊢
  induction cout with
  | nil => rfl
  | cons part rest ih =>
      have later := ih fun other mem => silent other (List.mem_cons_of_mem _ mem)
      by_cases own : part.1 = a
      · simp [own, later]
      · simp [own, later, silent part (List.mem_cons_self ..) own]

/-- Logging is atomic: however the threads interleave, with each other and with changes of the
appenders and the formatters. -/
theorem lines_whole (reached : Reach (logging strftime) anyStep s) : Whole strftime s := by
  have locked := locked_reach reached
  refine ⟨fun a => printed_free reached, fun a t => printed_writing reached,
    fun a => cout_alone reached, deaf_reach reached, ?_, ?_⟩
  · intro a l free
    apply (settled_reach reached _ (fun s locked => serial_logger locked l) a).between
    rintro t ⟨call, rest, run, here⟩
    have mine := (locked t).owned _ ((locked t).inside _ (running_logger run))
    rw [of_decide_eq_true here, free] at mine
    cases mine
  · intro a t idle
    apply (settled_reach reached _ (fun s locked => serial_thread locked t) a).between
    rintro u ⟨call, rest, run, here⟩
    have same : u = t := ((locked u).named call rest run).symm.trans (of_decide_eq_true here)
    subst same
    rw [idle] at run
    cases run

end Runs

def said (content : Text) : LogRecord where
  m_time := 3
  m_content := content
  m_filename := []
  m_line := 0
  m_threadid := 0
  m_threadname := []
  m_fiberid := 0
  m_loggername := []
  m_level := .INFO

def twoLoggers : State where
  m_appenders _ := [0, 1]
  m_root _ := none
  kind a := if a = 1 then .file [] else .stdout
  m_formatter _ := { m_pattern := ['%', 'm', '%', 'n'], m_items := [.message, .newLine] }
  file _ := .constructed []

/-- The second thread begins before the first has ended its line. -/
def crossing : List Act :=
  [.log 0 0 (said ['a']), .log 1 1 (said ['b'])] ++
    List.replicate 4 (.advance 0) ++ List.replicate 2 (.advance 1) ++
    List.replicate 10 (.advance 0) ++ List.replicate 3 (.advance 1)

theorem lines_whole_shared :
    ∃ s, run (logging fun _ _ => []) twoLoggers crossing = some s ∧
      s.printed 0 = ['a', '\n', 'b'] ∧ Whole (fun _ _ => []) s := by
  refine run_meets_where anyStep (fun s => s.printed 0 = ['a', '\n', 'b'])
    ⟨_, _, _, _, fun _ => [], rfl⟩ (by decide) (by decide) ?_
  intro s reached printed
  exact ⟨of_decide_eq_true printed, lines_whole reached⟩

-- what two appenders put out mixes
example : (run (logging fun _ _ => []) twoLoggers
    ([.log 0 0 (said ['a']), .log 1 1 (said ['b'])] ++ List.replicate 15 (.advance 0) ++
      List.replicate 5 (.advance 1))).any
      (fun s => s.cout.flatMap Prod.snd =
        "a\n[ERROR] FileLogAppender::log() format errorb".toList) = true := by
  decide

end Ztyco.LogLines
