import Ztyco.LogPatterns

/-!
Printing a pattern and parsing it back. A pattern is printed from segments; what
`LogFormatter::init` makes of it has an item for each of them, in order, and
every date has the one format that all the groups of the pattern make up.
-/

namespace Ztyco.Logging

/-- `item` is any letter of the table but `d`, `%` too. A date is `%d`, or `%d`
and its format in braces. -/
inductive Segment where
  | literal (text : Text)
  | item (c : Char)
  | date (format : Option Text)
  deriving DecidableEq, Repr

namespace Segment

def print : Segment → Text
  | .literal text => text
  | .item c => ['%', c]
  | .date none => ['%', 'd']
  | .date (some format) => '%' :: 'd' :: '{' :: (format ++ ['}'])

def Valid : Segment → Prop
  | .literal text => text ≠ [] ∧ '%' ∉ text
  | .item c => c ≠ 'd' ∧ Listed c
  | .date none => True
  | .date (some format) => '}' ∉ format

/-- No literal comes after a literal, and a bare date comes before something
that does not open a group. -/
def Before : Segment → List Segment → Prop
  | .literal _, .literal _ :: _ => False
  | .date none, [] => False
  | .date none, .literal text :: _ => text.head? ≠ some '{'
  | _, _ => True

def format : Segment → Text
  | .literal _ | .item _ => []
  | .date format => format.getD []

def itemWith (dateFormat : Text) : Segment → FormatItem
  | .literal text => .string text
  | .item c => (formatItem c).getD .percentSign
  | .date _ => .date dateFormat

def own (segment : Segment) : FormatItem := segment.itemWith segment.format

def piece : Segment → Piece
  | .literal text => .string text
  | .item c => .item c
  | .date _ => .item 'd'

end Segment

def Printable : List Segment → Prop
  | [] => True
  | segment :: rest => segment.Valid ∧ segment.Before rest ∧ Printable rest

def printed (segments : List Segment) : Text := segments.flatMap Segment.print

/-- What all the groups of the pattern make up. -/
def sharedFormat (segments : List Segment) : Text := segments.flatMap Segment.format

def RoundTrips (segments : List Segment) : Prop :=
  LogFormatter.init (printed segments) = some
    { m_pattern := printed segments, m_items := segments.map Segment.own, m_error := false }

def SharesFormat (segments : List Segment) : Prop :=
  ∀ format, .date format ∈ segments →
    FormatItem.date (format.getD []) = FormatItem.date (sharedFormat segments)

instance SharesFormat.decidable (segments : List Segment) : Decidable (SharesFormat segments) :=
  decidable_of_iff
    (∀ segment ∈ segments, segment.own = segment.itemWith (sharedFormat segments)) (by
    constructor
    · intro all format mem
      exact all _ mem
    · intro all segment mem
      cases segment with
      | literal text => rfl
      | item c => rfl
      | date format => exact all format mem)

/-! Scanning what is printed. -/

theorem printed_cons (segment : Segment) (rest : List Segment) :
    printed (segment :: rest) = segment.print ++ printed rest := rfl

/-- What comes after a bare date is no group. -/
theorem printed_after_date {rest : List Segment} (before : Segment.Before (.date none) rest)
    (printable : Printable rest) : ∃ c text, printed rest = c :: text ∧ c ≠ '{' := by
  cases rest with
  | nil => exact absurd before (by simp [Segment.Before])
  | cons segment rest =>
      cases segment with
      | literal text =>
          cases text with
          | nil => exact absurd rfl printable.1.1
          | cons c text =>
              refine ⟨c, text ++ printed rest, rfl, ?_⟩
              simpa [Segment.Before] using before
      | item c => exact ⟨'%', c :: printed rest, rfl, by decide⟩
      | date format =>
          cases format with
          | none => exact ⟨'%', 'd' :: printed rest, rfl, by decide⟩
          | some format => exact ⟨'%', _, rfl, by decide⟩

theorem foldl_printed (segments : List Segment) (scan : Scan) (mode : scan.mode = .string)
    (printable : Printable segments)
    (apart : scan.tmp = [] ∨ ∀ text rest, segments ≠ .literal text :: rest) :
    ((printed segments).foldl Scan.next scan).mode = .string ∧
      ((printed segments).foldl Scan.next scan).flush.vec =
        scan.flush.vec ++ segments.map Segment.piece ∧
      ((printed segments).foldl Scan.next scan).dateFormat =
        scan.dateFormat ++ sharedFormat segments := by
  induction segments generalizing scan with
  | nil => simp [printed, sharedFormat, mode]
  | cons segment rest ih =>
      obtain ⟨valid, before, later⟩ := printable
      rw [printed_cons]
      cases segment with
      | literal text =>
          have empty : scan.tmp = [] := apart.resolve_right fun none => none text rest rfl
          have separate : ∀ text' rest', rest ≠ .literal text' :: rest' := by
            rintro text' rest' rfl
            exact before
          have read := foldl_string text scan mode valid.2
          have flushed : Scan.flush { scan with tmp := scan.tmp ++ text } =
              { scan with vec := scan.vec ++ [.string text], tmp := [] } := by
            simp [Scan.flush, empty, valid.1]
          have whole := ih { scan with tmp := scan.tmp ++ text } mode later (Or.inr separate)
          rw [flushed] at whole
          have plain : scan.flush.vec = scan.vec := by simp [Scan.flush, empty]
          rw [Segment.print, List.foldl_append, read, plain]
          simpa [sharedFormat, Segment.format, Segment.piece] using whole
      | item c =>
          have whole := ih
            { scan.flush with vec := scan.flush.vec ++ [.item c], mode := .string } rfl later
            (Or.inl rfl)
          rw [Segment.print, List.cons_append, List.cons_append, List.nil_append,
            foldl_item scan c _ mode, if_neg valid.1]
          simpa [sharedFormat, Segment.format, Segment.piece, Scan.flush] using whole
      | date format =>
          cases format with
          | none =>
              rcases printed_after_date before later with ⟨c, text, read, other⟩
              have whole := ih
                { scan.flush with vec := scan.flush.vec ++ [.item 'd'], mode := .string } rfl
                later (Or.inl rfl)
              rw [Segment.print, List.cons_append, List.cons_append, List.nil_append,
                foldl_item scan 'd' _ mode, if_pos rfl, read, foldl_date text rfl other, ← read]
              simpa [sharedFormat, Segment.format, Segment.piece, Scan.flush] using whole
          | some format =>
              have whole := ih
                { scan.flush with
                  vec := scan.flush.vec ++ [.item 'd'], mode := .string
                  dateFormat := scan.dateFormat ++ format } rfl later (Or.inl rfl)
              have group := foldl_group scan format ('}' :: printed rest) mode valid
              have text : Segment.print (.date (some format)) ++ printed rest =
                  '%' :: 'd' :: '{' :: (format ++ '}' :: printed rest) := by
                simp [Segment.print]
              rw [text, group, List.foldl_cons]
              simpa [sharedFormat, Segment.format, Segment.piece, Scan.flush, Scan.next] using
                whole

theorem makeItems_pieces (dateFormat : Text) (segments : List Segment)
    (printable : Printable segments) :
    makeItems dateFormat (segments.map Segment.piece) =
      (segments.map (Segment.itemWith dateFormat), false) := by
  induction segments with
  | nil => rfl
  | cons segment rest ih =>
      obtain ⟨valid, _, later⟩ := printable
      cases segment with
      | literal text => simp [makeItems, Segment.piece, Segment.itemWith, ih later]
      | date format => simp [makeItems, Segment.piece, Segment.itemWith, ih later]
      | item c =>
          obtain ⟨other, listed⟩ := valid
          rcases Option.isSome_iff_exists.mp listed with ⟨item, found⟩
          simp [makeItems, Segment.piece, Segment.itemWith, ih later, other, found]

/-- What `init` makes of a printed pattern: the dates share one format. -/
theorem init_printed {segments : List Segment} (printable : Printable segments) :
    LogFormatter.init (printed segments) = some
      { m_pattern := printed segments
        m_items := segments.map (Segment.itemWith (sharedFormat segments)) } := by
  rcases foldl_printed segments {} rfl printable (Or.inl rfl) with ⟨mode, vec, dateFormat⟩
  have items := makeItems_pieces (sharedFormat segments) segments printable
  simp only [LogFormatter.init, mode]
  rw [vec, dateFormat]
  have empty : ({} : Scan).flush.vec = [] := rfl
  have none : ({} : Scan).dateFormat = [] := rfl
  rw [empty, none, List.nil_append, List.nil_append, items]

/-- A printed pattern is parsed to the items of its segments where every date has
the format that all of them make up. -/
theorem roundTrips_iff {segments : List Segment} (printable : Printable segments) :
    RoundTrips segments ↔ SharesFormat segments := by
  have same : RoundTrips segments ↔
      segments.map (Segment.itemWith (sharedFormat segments)) = segments.map Segment.own := by
    rw [RoundTrips, init_printed printable]
    simp
  rw [same, List.map_inj_left]
  constructor
  · intro all format mem
    exact (all _ mem).symm
  · intro shares segment mem
    cases segment with
    | literal text => rfl
    | item c => rfl
    | date format => exact (shares format mem).symm

def timeAndDate : List Segment :=
  [.date (some ['%', 'H']), .literal [' '], .date (some ['%', 'F'])]

def oneDate : List Segment :=
  [.date (some ['%', 'H']), .item 'T', .item 't', .literal [' ', '['], .item 'p', .item '%']

theorem oneDate_printable : Printable oneDate := by
  simp [oneDate, Printable, Segment.Valid, Segment.Before, Listed, formatItem]

theorem roundTrips_iff_oneDate : RoundTrips oneDate ↔ SharesFormat oneDate :=
  roundTrips_iff oneDate_printable

theorem timeAndDate_shared :
    Printable timeAndDate ∧ ¬ RoundTrips timeAndDate ∧
      (LogFormatter.init (printed timeAndDate)).map (·.m_items) = some
        [.date ['%', 'H', '%', 'F'], .string [' '], .date ['%', 'H', '%', 'F']] := by
  refine ⟨?_, ?_, by decide⟩
  · simp [timeAndDate, Printable, Segment.Valid, Segment.Before]
  · unfold RoundTrips
    decide

end Ztyco.Logging
