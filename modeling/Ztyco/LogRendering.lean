import Ztyco.LogSegments
import Ztyco.Loggers

/-!
What a pattern of log.cc puts out for an event. `LogFormatter::init` turns the text
of a pattern into items and `format_str` runs the items one after another; here the
letters have a meaning of their own, read off the pattern without the items, and the
two are compared for every pattern that is taken. What localtime_r and strftime leave
in the buffer of a date item is a parameter.
-/

namespace Ztyco.Logging

/-- What the format items read of an event, with the fields that LogEvent has. -/
structure LogRecord extends LogEvent where
  m_filename : Text
  m_line : UInt32
  m_threadid : UInt32
  m_threadname : Text
  m_fiberid : UInt32
  m_loggername : Text
  m_level : Level
  deriving DecidableEq, Repr

def shown (number : UInt32) : Text := Nat.toDigits 10 number.toNat

section Rendering
variable (strftime : Text → UInt64 → Text)

def FormatItem.format_ss (record : LogRecord) : FormatItem → Text
  | .message => record.m_content
  | .level => record.m_level.ToString
  | .loggerName => record.m_loggername
  | .threadId => shown record.m_threadid
  | .threadName => record.m_threadname
  | .newLine => ['\n']
  | .dateTime m_format => strftime m_format record.m_time
  | .fileName => record.m_filename
  | .line => shown record.m_line
  | .tab => ['\t']
  | .fiberId => shown record.m_fiberid
  | .percentSign => ['%']
  | .string m_str => m_str

/-- The loop over `m_items`, into an empty stream. -/
def LogFormatter.format_str (formatter : LogFormatter) (record : LogRecord) : Text :=
  formatter.m_items.foldl (fun ss item => ss ++ item.format_ss strftime record) []

theorem format_str_eq (formatter : LogFormatter) (record : LogRecord) :
    formatter.format_str strftime record =
      formatter.m_items.flatMap (FormatItem.format_ss strftime record) := by
  have streamed : ∀ (items : List FormatItem) (ss : Text),
      items.foldl (fun ss item => ss ++ item.format_ss strftime record) ss =
        ss ++ items.flatMap (FormatItem.format_ss strftime record) := by
    intro items
    induction items with
    | nil => simp
    | cons item rest ih =>
        intro ss
        simp [ih]
  exact streamed formatter.m_items []

/-! The meaning of a pattern. -/

def meaning (record : LogRecord) : Char → Text
  | 'm' => record.m_content
  | 'p' => record.m_level.ToString
  | 'c' => record.m_loggername
  | 't' => shown record.m_threadid
  | 'N' => record.m_threadname
  | 'F' => shown record.m_fiberid
  | 'f' => record.m_filename
  | 'l' => shown record.m_line
  | 'n' => ['\n']
  | 'T' => ['\t']
  | '%' => ['%']
  | _ => []

/-- Dates are shown in this format, or the usual one where it is empty. -/
def Segment.shows (dateFormat : Text) (record : LogRecord) : Segment → Text
  | .literal text => text
  | .item c => meaning record c
  | .date _ => strftime
      (if dateFormat = [] then "%Y-%m-%d %H:%M:%S".toList else dateFormat) record.m_time

theorem format_item {c : Char} {item : FormatItem} (record : LogRecord) (other : c ≠ 'd')
    (found : formatItem c = some item) :
    item.format_ss strftime record = meaning record c := by
  unfold formatItem at found
  split at found
  case h_7 => exact absurd rfl other
  case h_13 => cases found
  all_goals
    cases found
    rfl

theorem format_segment (dateFormat : Text) (record : LogRecord) {segment : Segment}
    (valid : segment.Valid) :
    (segment.itemWith dateFormat).format_ss strftime record =
      segment.shows strftime dateFormat record := by
  cases segment with
  | literal text => rfl
  | item c =>
      rcases valid with ⟨other, listed⟩
      rcases Option.isSome_iff_exists.mp listed with ⟨item, found⟩
      rw [Segment.itemWith, found]
      exact format_item strftime record other found
  | date format =>
      cases dateFormat <;> rfl

theorem valid_of_mem {segments : List Segment} (printable : Printable segments) :
    ∀ segment ∈ segments, segment.Valid := by
  induction segments with
  | nil =>
      intro segment mem
      cases mem
  | cons first rest ih =>
      intro segment mem
      rcases List.mem_cons.mp mem with rfl | within
      · exact printable.1
      · exact ih printable.2.2 segment within

/-- The output of a printed pattern is what its segments show. -/
theorem format_printed {segments : List Segment} (printable : Printable segments)
    (record : LogRecord) :
    ∃ formatter, LogFormatter.init (printed segments) = some formatter ∧
      formatter.m_error = false ∧ formatter.format_str strftime record =
        segments.flatMap (Segment.shows strftime (sharedFormat segments) record) := by
  refine ⟨_, init_printed printable, rfl, ?_⟩
  rw [format_str_eq, List.flatMap_map, List.flatMap_def, List.flatMap_def]
  congr 1
  apply List.map_congr_left
  intro segment mem
  exact format_segment strftime _ record (valid_of_mem printable segment mem)

end Rendering

/-! Every pattern that is taken is a print of segments. -/

/-- A character in front goes to the literal that is there, or is one of its own. -/
def addChar (c : Char) : List Segment → List Segment
  | .literal text :: rest => .literal (c :: text) :: rest
  | segments => .literal [c] :: segments

theorem addChar_printed (c : Char) (segments : List Segment) :
    printed (addChar c segments) = c :: printed segments := by
  cases segments with
  | nil => rfl
  | cons first rest => cases first <;> rfl

theorem addChar_shared (c : Char) (segments : List Segment) :
    sharedFormat (addChar c segments) = sharedFormat segments := by
  cases segments with
  | nil => rfl
  | cons first rest => cases first <;> rfl

theorem addChar_shows (strftime : Text → UInt64 → Text) (dateFormat : Text) (record : LogRecord)
    (c : Char) (segments : List Segment) :
    (addChar c segments).flatMap (Segment.shows strftime dateFormat record) =
      c :: segments.flatMap (Segment.shows strftime dateFormat record) := by
  cases segments with
  | nil => rfl
  | cons first rest => cases first <;> rfl

theorem addChar_printable {c : Char} {segments : List Segment} (plain : c ≠ '%')
    (printable : Printable segments) : Printable (addChar c segments) := by
  have alone : (Segment.literal [c]).Valid := ⟨by simp, by simpa using plain.symm⟩
  cases segments with
  | nil => exact ⟨alone, trivial, trivial⟩
  | cons first rest =>
      cases first with
      | literal text =>
          rcases printable with ⟨⟨_, none⟩, before, later⟩
          refine ⟨⟨by simp, ?_⟩, ?_, later⟩
          · intro mem
            rcases List.mem_cons.mp mem with same | within
            · exact plain same.symm
            · exact none within
          · cases rest with
            | nil => exact trivial
            | cons second others => cases second <;> exact before
      | item letter => exact ⟨alone, trivial, printable⟩
      | date format => exact ⟨alone, trivial, printable⟩

theorem printable_date {c : Char} {rest : Text} {segments : List Segment} (other : c ≠ '{')
    (printable : Printable segments) (text : printed segments = c :: rest) :
    Printable (.date none :: segments) := by
  refine ⟨trivial, ?_, printable⟩
  cases segments with
  | nil => cases text
  | cons first later =>
      cases first with
      | literal part =>
          cases part with
          | nil => exact absurd rfl printable.1.1
          | cons head tail =>
              cases text
              simpa [Segment.Before] using other
      | item letter => exact trivial
      | date format => exact trivial

theorem printable_of_cut {pattern : Text} {items : List Char} {ending : Ending}
    (cut : Cut pattern items ending) (ends : ending = .complete)
    (listed : ∀ c ∈ items, Listed c) :
    ∃ segments, Printable segments ∧ printed segments = pattern := by
  induction cut with
  | nil => exact ⟨[], trivial, rfl⟩
  | lone | bare | unclosed _ => cases ends
  | char plain _ ih =>
      rcases ih ends listed with ⟨segments, printable, rfl⟩
      exact ⟨addChar _ segments, addChar_printable plain printable, addChar_printed _ segments⟩
  | @item c _ _ _ other _ ih =>
      rcases ih ends fun c mem => listed c (List.mem_cons_of_mem _ mem) with
        ⟨segments, printable, rfl⟩
      exact ⟨.item c :: segments,
        ⟨⟨other, listed c List.mem_cons_self⟩, trivial, printable⟩, rfl⟩
  | date other _ ih =>
      rcases ih ends fun c mem => listed c (List.mem_cons_of_mem _ mem) with
        ⟨segments, printable, text⟩
      refine ⟨.date none :: segments, printable_date other printable text, ?_⟩
      rw [printed_cons, text]
      rfl
  | @group format _ _ _ closed _ ih =>
      rcases ih ends fun c mem => listed c (List.mem_cons_of_mem _ mem) with
        ⟨segments, printable, rfl⟩
      refine ⟨.date (some format) :: segments, ⟨closed, trivial, printable⟩, ?_⟩
      rw [printed_cons]
      simp [Segment.print]

theorem accepted_printed {pattern : Text} (accepted : Accepted pattern)
    (ends : ¬ EndsBare pattern) : ∃ segments, Printable segments ∧ printed segments = pattern := by
  rcases cut_total pattern with ⟨items, ending, cut⟩
  rcases (accepted_iff cut).mp accepted with ⟨complete | bare, listed⟩
  · exact printable_of_cut cut complete listed
  · exact absurd ((endsBare_iff cut).mpr bare) ends

theorem message_accepted : Accepted ['%', 'm'] ∧ ¬ EndsBare ['%', 'm'] := by
  have cut : Cut ['%', 'm'] ['m'] .complete := .item (by decide) .nil
  refine ⟨(accepted_iff cut).mpr ⟨Or.inl rfl, ?_⟩, ?_⟩
  · intro c mem
    rw [List.mem_singleton.mp mem]
    rfl
  · intro bare
    cases (endsBare_iff cut).mp bare

def escape : Text → Text
  | [] => []
  | c :: rest => if c = '%' then '%' :: '%' :: escape rest else c :: escape rest

def pieces : Text → List Segment
  | [] => []
  | c :: rest => if c = '%' then .item '%' :: pieces rest else addChar c (pieces rest)

/-- `more` goes on after what `segments` prints with what prints as `suffix` and shows
as `text`. -/
def Continues (segments : List Segment) (suffix text : Text) (more : List Segment) : Prop :=
  Printable more ∧ printed more = printed segments ++ suffix ∧
    sharedFormat more = sharedFormat segments ∧
    ∀ strftime dateFormat record,
      more.flatMap (Segment.shows strftime dateFormat record) =
        segments.flatMap (Segment.shows strftime dateFormat record) ++ text

theorem continues_pieces (text : Text) : Continues [] (escape text) text (pieces text) := by
  induction text with
  | nil => exact ⟨trivial, rfl, rfl, fun _ _ _ => rfl⟩
  | cons c rest ih =>
      rcases ih with ⟨printable, text, shared, shows⟩
      unfold pieces escape
      by_cases percent : c = '%'
      · subst percent
        refine ⟨⟨⟨by decide, rfl⟩, trivial, printable⟩, ?_, shared, ?_⟩
        · rw [if_pos rfl, if_pos rfl, printed_cons, text]
          rfl
        · intro strftime dateFormat record
          rw [if_pos rfl, List.flatMap_cons, shows]
          rfl
      · rw [if_neg percent, if_neg percent]
        refine ⟨addChar_printable percent printable, ?_, ?_, ?_⟩
        · rw [addChar_printed, text]
          rfl
        · rw [addChar_shared, shared]
        · intro strftime dateFormat record
          rw [addChar_shows, shows]
          rfl

/-- A literal in front, character by character. -/
theorem continues_literal {segments more : List Segment} {suffix shown : Text} (text : Text)
    (plain : '%' ∉ text) (continues : Continues segments suffix shown more) :
    ∃ whole, Continues (.literal text :: segments) suffix shown whole := by
  induction text with
  | nil => exact ⟨more, continues⟩
  | cons c rest ih =>
      rcases ih fun mem => plain (List.mem_cons_of_mem c mem) with
        ⟨whole, printable, text, shared, shows⟩
      have other : c ≠ '%' := fun same => plain (same ▸ List.mem_cons_self)
      refine ⟨addChar c whole, addChar_printable other printable, ?_, ?_, ?_⟩
      · rw [addChar_printed, text]
        rfl
      · rw [addChar_shared, shared]
        rfl
      · intro strftime dateFormat record
        rw [addChar_shows, shows]
        rfl

theorem continues_printable {segments : List Segment} (printable : Printable segments)
    (text : Text) : ∃ more, Continues segments (escape text) text more := by
  induction segments with
  | nil => exact ⟨pieces text, continues_pieces text⟩
  | cons first rest ih =>
      rcases printable with ⟨valid, before, later⟩
      rcases ih later with ⟨more, continues⟩
      cases first with
      | literal part => exact continues_literal part valid.2 continues
      | item c =>
          rcases continues with ⟨printable, text, shared, shows⟩
          refine ⟨.item c :: more, ⟨valid, trivial, printable⟩, ?_, shared, ?_⟩
          · rw [printed_cons, printed_cons, text, List.append_assoc]
          · intro strftime dateFormat record
            rw [List.flatMap_cons, List.flatMap_cons, shows, List.append_assoc]
      | date format =>
          rcases continues with ⟨printable, text, shared, shows⟩
          have whole : Printable (.date format :: more) := by
            cases format with
            | none =>
                -- the bare date still comes before the character it came before
                rcases printed_after_date before later with ⟨c, tail, read, other⟩
                exact printable_date other printable (by rw [text, read]; rfl)
            | some format => exact ⟨valid, trivial, printable⟩
          refine ⟨.date format :: more, whole, ?_, ?_, ?_⟩
          · rw [printed_cons, printed_cons, text, List.append_assoc]
          · simp only [sharedFormat, List.flatMap_cons] at shared ⊢
            rw [shared]
          · intro strftime dateFormat record
            rw [List.flatMap_cons, List.flatMap_cons, shows, List.append_assoc]

end Ztyco.Logging
