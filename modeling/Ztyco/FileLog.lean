/-!
FileLogAppender of log.cc, over `std::ofstream` and its file. `open` in the
default mode truncates the file, a successful `open` clears the failbit, `open`
on an open stream sets it and does nothing else, and a stream with the failbit
set drops what is written to it. The file can always be opened. An appender is
given by what it reads of an event: the time, and the text the formatter makes
of it, whatever its pattern.
-/

namespace Ztyco.FileLog

universe u

abbrev Bytes := List UInt8

inductive OpenMode where
  | out | app
  deriving DecidableEq, Repr

structure FileStream where
  is_open : Bool := false
  failbit : Bool := false
  file : Bytes
  deriving DecidableEq, Repr

namespace FileStream

def «open» (ofs : FileStream) (mode : OpenMode) : FileStream :=
  if ofs.is_open then { ofs with failbit := true }
  else match mode with
    | .out => { is_open := true, failbit := false, file := [] }
    | .app => { is_open := true, failbit := false, file := ofs.file }

/-- Closing a stream that is not open fails too. -/
def close (ofs : FileStream) : FileStream :=
  if ofs.is_open then { ofs with is_open := false } else { ofs with failbit := true }

def write (ofs : FileStream) (text : Bytes) : FileStream :=
  if ofs.failbit then ofs
  else if ofs.is_open then { ofs with file := ofs.file ++ text }
  else { ofs with failbit := true }

/-- `FSUtil::OpenForWrite`. The test for the second `open` is that the first one
went well. -/
def OpenForWrite (ofs : FileStream) (mode : OpenMode) : Bool × FileStream :=
  let ofs := ofs.open .out
  let ofs := if ofs.is_open then ofs.open mode else ofs
  (ofs.is_open, ofs)

end FileStream

structure LogFormatter (LogEvent : Type u) where
  getTime : LogEvent → UInt64
  format : LogEvent → Bytes

structure FileLogAppender where
  m_filestream : FileStream
  m_lastTime : UInt64 := 0
  deriving DecidableEq, Repr

variable {LogEvent : Type u}

namespace FileLogAppender

def reopen (appender : FileLogAppender) : Bool × FileLogAppender :=
  -- a stream tests as true while its failbit is clear
  let m_filestream := if !appender.m_filestream.failbit then appender.m_filestream.close
    else appender.m_filestream
  let (done, m_filestream) := m_filestream.OpenForWrite .app
  (done, { appender with m_filestream := m_filestream })

def constructed (content : Bytes) : FileLogAppender :=
  ({ m_filestream := { file := content } } : FileLogAppender).reopen.2

def log (m_formatter : LogFormatter LogEvent) (appender : FileLogAppender) (event : LogEvent) :
    FileLogAppender :=
  let now := m_formatter.getTime event
  let appender := if now ≥ appender.m_lastTime + 3
    then { appender.reopen.2 with m_lastTime := now } else appender
  { appender with m_filestream := appender.m_filestream.write (m_formatter.format event) }

def logAll (m_formatter : LogFormatter LogEvent) :
    FileLogAppender → List LogEvent → FileLogAppender
  | appender, [] => appender
  | appender, event :: rest => logAll m_formatter (appender.log m_formatter event) rest

end FileLogAppender

def texts (m_formatter : LogFormatter LogEvent) : List LogEvent → Bytes
  | [] => []
  | event :: rest => m_formatter.format event ++ texts m_formatter rest

/-- The file has its old content and every event's text. -/
def LogComplete (m_formatter : LogFormatter LogEvent) (content : Bytes)
    (events : List LogEvent) : Prop :=
  ((FileLogAppender.constructed content).logAll m_formatter events).m_filestream.file =
    content ++ texts m_formatter events

/-- The stream is open and takes nothing any more. -/
def Deaf (appender : FileLogAppender) (content : Bytes) : Prop :=
  appender.m_filestream = { is_open := true, failbit := true, file := content }

/-- The constructor truncates the file and opens the open stream again. -/
theorem constructed_deaf (content : Bytes) : Deaf (.constructed content) [] := rfl

/-- No reopening helps: the stream is not closed, as its failbit is set. -/
theorem reopen_deaf {appender : FileLogAppender} {content : Bytes} (deaf : Deaf appender content) :
    Deaf appender.reopen.2 content := by
  cases appender
  cases deaf
  rfl

theorem log_deaf (m_formatter : LogFormatter LogEvent) {appender : FileLogAppender}
    {content : Bytes} (deaf : Deaf appender content) (event : LogEvent) :
    Deaf (appender.log m_formatter event) content := by
  have written : ∀ other : FileLogAppender, Deaf other content →
      Deaf { other with m_filestream :=
        other.m_filestream.write (m_formatter.format event) } content := by
    intro other still
    cases other
    cases still
    rfl
  unfold FileLogAppender.log
  apply written
  split
  · exact reopen_deaf deaf
  · exact deaf

theorem logAll_deaf (m_formatter : LogFormatter LogEvent) {appender : FileLogAppender}
    {content : Bytes} (deaf : Deaf appender content) (events : List LogEvent) :
    Deaf (appender.logAll m_formatter events) content := by
  induction events generalizing appender with
  | nil => exact deaf
  | cons event rest ih => exact ih (log_deaf m_formatter deaf event)

/-- After the constructor the file is empty, whatever is logged. -/
theorem file_empty (m_formatter : LogFormatter LogEvent) (content : Bytes)
    (events : List LogEvent) :
    ((FileLogAppender.constructed content).logAll m_formatter events).m_filestream.file = [] := by
  rw [logAll_deaf m_formatter (constructed_deaf content) events]

theorem texts_empty_iff (m_formatter : LogFormatter LogEvent) (events : List LogEvent) :
    texts m_formatter events = [] ↔ ∀ event ∈ events, m_formatter.format event = [] := by
  induction events with
  | nil => simp [texts]
  | cons event rest ih => simp [texts, ih]

/-- The file is complete exactly if there was nothing in it and nothing to write. -/
theorem log_complete_iff (m_formatter : LogFormatter LogEvent) (content : Bytes)
    (events : List LogEvent) :
    LogComplete m_formatter content events ↔
      content = [] ∧ ∀ event ∈ events, m_formatter.format event = [] := by
  unfold LogComplete
  rw [file_empty, ← texts_empty_iff, eq_comm]
  exact List.append_eq_nil_iff

theorem log_loses_event :
    ¬ ∀ (m_formatter : LogFormatter UInt64) (content : Bytes) (events : List UInt64),
      (events.map m_formatter.getTime).Pairwise (· ≤ ·) →
        LogComplete m_formatter content events := by
  intro all
  have complete := all ⟨id, fun _ => [97]⟩ [] [1000] (List.pairwise_singleton _ _)
  unfold LogComplete at complete
  rw [file_empty] at complete
  exact absurd complete (by decide)

end Ztyco.FileLog
