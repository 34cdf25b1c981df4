/-!
`LogFormatter::init` of log.cc. The loop over the pattern is a state machine
that takes a character at a time; after `%d` it looks at the next character
before it goes on. A string is the list of its characters. Reading `m_pattern`
past its terminator, which a `%d` at the very end does, is `none`.
-/

namespace Ztyco.Logging

abbrev Text := List Char

inductive FormatItem where
  | message | level | loggerName | threadId | threadName | newLine
  | dateTime (m_format : Text)
  | fileName | line | tab | fiberId | percentSign
  | string (m_str : Text)
  deriving DecidableEq, Repr

def FormatItem.date (format : Text) : FormatItem :=
  .dateTime (if format.isEmpty then "%Y-%m-%d %H:%M:%S".toList else format)

/-- `s_format_items`; its entry for `d` is never looked up. -/
def formatItem : Char → Option FormatItem
  | 'm' => some .message
  | 'p' => some .level
  | 'c' => some .loggerName
  | 't' => some .threadId
  | 'N' => some .threadName
  | 'n' => some .newLine
  | 'd' => some (.date ['d'])
  | 'f' => some .fileName
  | 'l' => some .line
  | 'T' => some .tab
  | 'F' => some .fiberId
  | '%' => some .percentSign
  | _ => none

/-- `parsing_string`, or what has been met since. -/
inductive Mode where
  | string | item | date | dateFormat
  deriving DecidableEq, Repr

/-- An entry of `vec`: a pair with 0, or one with 1. -/
inductive Piece where
  | string (text : Text)
  | item (c : Char)
  deriving DecidableEq, Repr

structure Scan where
  mode : Mode := .string
  vec : List Piece := []
  tmp : Text := []
  dateFormat : Text := []
  deriving DecidableEq, Repr

def Scan.flush (scan : Scan) : Scan :=
  { scan with
    vec := if scan.tmp.isEmpty then scan.vec else scan.vec ++ [.string scan.tmp]
    tmp := [] }

def Scan.string (scan : Scan) (c : Char) : Scan :=
  if c = '%' then { scan.flush with mode := .item }
  else { scan with mode := .string, tmp := scan.tmp ++ [c] }

def Scan.next (scan : Scan) (c : Char) : Scan :=
  match scan.mode with
  | .string => scan.string c
  | .item =>
      { scan with vec := scan.vec ++ [.item c], mode := if c = 'd' then .date else .string }
  | .date => if c = '{' then { scan with mode := .dateFormat } else scan.string c
  -- the format is collected over all the groups of the pattern
  | .dateFormat =>
      if c = '}' then { scan with mode := .string }
      else { scan with dateFormat := scan.dateFormat ++ [c] }

/-- The second loop: the items it makes, and `error`. -/
def makeItems (dateFormat : Text) : List Piece → List FormatItem × Bool
  | [] => ([], false)
  | .string text :: rest =>
      let (items, error) := makeItems dateFormat rest
      (.string text :: items, error)
  | .item c :: rest =>
      match if c = 'd' then some (.date dateFormat) else formatItem c with
      | some item =>
          let (items, error) := makeItems dateFormat rest
          (item :: items, error)
      | none => ([], true)

structure LogFormatter where
  m_pattern : Text
  m_items : List FormatItem := []
  m_error : Bool := false
  deriving DecidableEq, Repr

def LogFormatter.init (m_pattern : Text) : Option LogFormatter :=
  let scan := m_pattern.foldl Scan.next {}
  match scan.mode with
  | .date => none
  -- '{' not closed
  | .dateFormat => some { m_pattern := m_pattern, m_error := true }
  | .string | .item =>
      let (m_items, m_error) := makeItems scan.dateFormat scan.flush.vec
      some { m_pattern := m_pattern, m_items := m_items, m_error := m_error }

theorem init_pattern {m_pattern : Text} {formatter : LogFormatter}
    (done : LogFormatter.init m_pattern = some formatter) :
    formatter.m_pattern = m_pattern := by
  unfold LogFormatter.init at done
  dsimp only at done
  split at done
  · cases done
  · cases done
    rfl
  · cases done
    rfl
  · cases done
    rfl

theorem foldl_string (text : Text) (scan : Scan) (mode : scan.mode = .string)
    (plain : '%' ∉ text) :
    text.foldl Scan.next scan = { scan with tmp := scan.tmp ++ text } := by
  induction text generalizing scan with
  | nil => simp
  | cons c rest ih =>
      have other : c ≠ '%' := fun same => plain (same ▸ List.mem_cons_self)
      have later : '%' ∉ rest := fun mem => plain (List.mem_cons_of_mem c mem)
      have step : scan.next c = { scan with tmp := scan.tmp ++ [c] } := by
        simp [Scan.next, Scan.string, mode, other]
      rw [List.foldl_cons, step, ih { scan with tmp := scan.tmp ++ [c] } mode later]
      simp

end Ztyco.Logging
