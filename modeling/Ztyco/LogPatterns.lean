import Ztyco.LogFormatter

/-!
What `LogFormatter::init` makes of a pattern, stated without its scanner: the
patterns it takes, and the items of a printed list of segments. A pattern is cut
into parts from the left, and the scanner's state after a part depends on that
part alone, but for the formats of the dates, which all go to one string.
-/

namespace Ztyco.Logging

/-! Scanning a part. -/

theorem next_date {scan : Scan} {c : Char} (mode : scan.mode = .date) (other : c ≠ '{') :
    scan.next c = { scan with mode := .string }.next c := by
  simp only [Scan.next, mode, if_neg other, Scan.string]
  rfl

theorem foldl_date {scan : Scan} {c : Char} (rest : Text) (mode : scan.mode = .date)
    (other : c ≠ '{') :
    (c :: rest).foldl Scan.next scan =
      (c :: rest).foldl Scan.next { scan with mode := .string } := by
  rw [List.foldl_cons, List.foldl_cons, next_date mode other]

theorem foldl_item (scan : Scan) (c : Char) (rest : Text) (mode : scan.mode = .string) :
    ('%' :: c :: rest).foldl Scan.next scan = rest.foldl Scan.next
      { scan.flush with
        vec := scan.flush.vec ++ [.item c], mode := if c = 'd' then .date else .string } := by
  simp only [List.foldl_cons, Scan.next, mode, Scan.string, ↓reduceIte]

theorem foldl_format (format : Text) (scan : Scan) (mode : scan.mode = .dateFormat)
    (opened : '}' ∉ format) :
    format.foldl Scan.next scan = { scan with dateFormat := scan.dateFormat ++ format } := by
  induction format generalizing scan with
  | nil => simp
  | cons c rest ih =>
      have other : c ≠ '}' := fun same => opened (same ▸ List.mem_cons_self)
      have later : '}' ∉ rest := fun mem => opened (List.mem_cons_of_mem c mem)
      have step : scan.next c = { scan with dateFormat := scan.dateFormat ++ [c] } := by
        simp [Scan.next, mode, other]
      rw [List.foldl_cons, step, ih { scan with dateFormat := scan.dateFormat ++ [c] } mode later]
      simp

theorem foldl_group (scan : Scan) (format rest : Text) (mode : scan.mode = .string)
    (opened : '}' ∉ format) :
    ('%' :: 'd' :: '{' :: (format ++ rest)).foldl Scan.next scan = rest.foldl Scan.next
      { scan.flush with
        vec := scan.flush.vec ++ [.item 'd'], mode := .dateFormat
        dateFormat := scan.dateFormat ++ format } := by
  rw [foldl_item scan 'd' _ mode, List.foldl_cons, List.foldl_append]
  simp only [↓reduceIte, Scan.next]
  rw [foldl_format format _ rfl opened]
  rfl

/-! The patterns that are taken. -/

/-- Characters other than `%`, items whose letter is `known`, and closed groups;
a `{` after `%d` is no character but opens a group. -/
inductive Grammar (known : Char → Prop) : Text → Prop where
  | nil : Grammar known []
  | char {c : Char} {rest : Text} (plain : c ≠ '%') (tail : Grammar known rest) :
      Grammar known (c :: rest)
  | item {c : Char} {rest : Text} (listed : known c) (bare : c = 'd' → rest.head? ≠ some '{')
      (tail : Grammar known rest) : Grammar known ('%' :: c :: rest)
  | group {format rest : Text} (listed : known 'd') (closed : '}' ∉ format)
      (tail : Grammar known rest) :
      Grammar known ('%' :: 'd' :: '{' :: (format ++ '}' :: rest))

def Listed (c : Char) : Prop := (formatItem c).isSome = true

def Accepted (pattern : Text) : Prop := Grammar Listed pattern

def EndsBare (pattern : Text) : Prop :=
  ∃ before, Grammar (fun _ => True) before ∧ pattern = before ++ ['%', 'd']

/-- The pattern would be taken without the `%` it ends in. -/
def EndsLone (pattern : Text) : Prop := ∃ before, Accepted before ∧ pattern = before ++ ['%']

/-! How a pattern is cut. -/

inductive Ending where
  | complete | bare | lone | unclosed
  deriving DecidableEq, Repr

def Ending.mode : Ending → Mode
  | .complete => .string
  | .bare => .date
  | .lone => .item
  | .unclosed => .dateFormat

/-- The letters of the items of a pattern, and how it ends. -/
inductive Cut : Text → List Char → Ending → Prop where
  | nil : Cut [] [] .complete
  | lone : Cut ['%'] [] .lone
  | bare : Cut ['%', 'd'] ['d'] .bare
  | unclosed {format : Text} (opened : '}' ∉ format) :
      Cut ('%' :: 'd' :: '{' :: format) ['d'] .unclosed
  | char {c : Char} {rest : Text} {items : List Char} {ending : Ending} (plain : c ≠ '%')
      (tail : Cut rest items ending) : Cut (c :: rest) items ending
  | item {c : Char} {rest : Text} {items : List Char} {ending : Ending} (other : c ≠ 'd')
      (tail : Cut rest items ending) : Cut ('%' :: c :: rest) (c :: items) ending
  | date {c : Char} {rest : Text} {items : List Char} {ending : Ending} (other : c ≠ '{')
      (tail : Cut (c :: rest) items ending) : Cut ('%' :: 'd' :: c :: rest) ('d' :: items) ending
  | group {format rest : Text} {items : List Char} {ending : Ending} (closed : '}' ∉ format)
      (tail : Cut rest items ending) :
      Cut ('%' :: 'd' :: '{' :: (format ++ '}' :: rest)) ('d' :: items) ending

theorem split_group (text : Text) :
    '}' ∉ text ∨ ∃ format rest, '}' ∉ format ∧ text = format ++ '}' :: rest := by
  induction text with
  | nil => exact Or.inl List.not_mem_nil
  | cons c rest ih =>
      by_cases same : c = '}'
      · subst same
        exact Or.inr ⟨[], rest, List.not_mem_nil, rfl⟩
      · rcases ih with opened | ⟨format, later, opened, rfl⟩
        · refine Or.inl fun mem => ?_
          rcases List.mem_cons.mp mem with first | tail
          · exact same first.symm
          · exact opened tail
        · refine Or.inr ⟨c :: format, later, fun mem => ?_, rfl⟩
          rcases List.mem_cons.mp mem with first | tail
          · exact same first.symm
          · exact opened tail

theorem cut_total (pattern : Text) : ∃ items ending, Cut pattern items ending := by
  induction length : pattern.length using Nat.strongRecOn generalizing pattern with
  | ind size ih =>
      have shorter : ∀ rest : Text, rest.length < pattern.length →
          ∃ items ending, Cut rest items ending :=
        fun rest less => ih rest.length (length ▸ less) rest rfl
      match pattern with
      | [] => exact ⟨_, _, .nil⟩
      | c :: rest =>
          by_cases plain : c = '%'
          · subst plain
            match rest with
            | [] => exact ⟨_, _, .lone⟩
            | c :: rest =>
                by_cases letter : c = 'd'
                · subst letter
                  match rest with
                  | [] => exact ⟨_, _, .bare⟩
                  | c :: rest =>
                      by_cases opening : c = '{'
                      · subst opening
                        rcases split_group rest with opened | ⟨format, later, closed, rfl⟩
                        · exact ⟨_, _, .unclosed opened⟩
                        · have less : later.length <
                              ('%' :: 'd' :: '{' :: (format ++ '}' :: later)).length := by
                            simp only [List.length_cons, List.length_append]
                            omega
                          rcases shorter later less with ⟨items, ending, tail⟩
                          exact ⟨_, _, .group closed tail⟩
                      · rcases shorter (c :: rest) (by simp) with ⟨items, ending, tail⟩
                        exact ⟨_, _, .date opening tail⟩
                · have less : rest.length < ('%' :: c :: rest).length := by
                    simp only [List.length_cons]
                    omega
                  rcases shorter rest less with ⟨items, ending, tail⟩
                  exact ⟨_, _, .item letter tail⟩
          · rcases shorter rest (by simp) with ⟨items, ending, tail⟩
            exact ⟨_, _, .char plain tail⟩

theorem cut_of_grammar {known : Char → Prop} {pattern : Text} (derived : Grammar known pattern) :
    ∃ items ending, Cut pattern items ending ∧ (ending = .complete ∨ ending = .bare) ∧
      ∀ c ∈ items, known c := by
  induction derived with
  | nil => exact ⟨_, _, .nil, Or.inl rfl, fun _ mem => absurd mem List.not_mem_nil⟩
  | char plain tail ih =>
      rcases ih with ⟨items, ending, cut, ends, listed⟩
      exact ⟨_, _, .char plain cut, ends, listed⟩
  | @item c rest listed bare tail ih =>
      rcases ih with ⟨items, ending, cut, ends, others⟩
      have all : ∀ letter ∈ c :: items, known letter :=
        List.forall_mem_cons.mpr ⟨listed, others⟩
      by_cases letter : c = 'd'
      · subst letter
        match rest with
        | [] =>
            refine ⟨_, _, .bare, Or.inr rfl, ?_⟩
            exact List.forall_mem_cons.mpr ⟨listed, fun _ mem => absurd mem List.not_mem_nil⟩
        | c :: rest =>
            have other : c ≠ '{' := fun same => bare rfl (by rw [same]; rfl)
            exact ⟨_, _, .date other cut, ends, all⟩
      · exact ⟨_, _, .item letter cut, ends, all⟩
  | group listed closed tail ih =>
      rcases ih with ⟨items, ending, cut, ends, others⟩
      exact ⟨_, _, .group closed cut, ends, List.forall_mem_cons.mpr ⟨listed, others⟩⟩

theorem grammar_of_cut {known : Char → Prop} {pattern : Text} {items : List Char}
    {ending : Ending} (cut : Cut pattern items ending)
    (ends : ending = .complete ∨ ending = .bare) (listed : ∀ c ∈ items, known c) :
    Grammar known pattern := by
  induction cut with
  | nil => exact .nil
  | lone => simp at ends
  | unclosed opened => simp at ends
  | bare => exact .item (listed 'd' List.mem_cons_self) (by simp) .nil
  | char plain tail ih => exact .char plain (ih ends listed)
  | item other tail ih =>
      rcases List.forall_mem_cons.mp listed with ⟨first, others⟩
      exact .item first (fun same => absurd same other) (ih ends others)
  | date other tail ih =>
      rcases List.forall_mem_cons.mp listed with ⟨first, others⟩
      exact .item first (by simpa using other) (ih ends others)
  | group closed tail ih =>
      rcases List.forall_mem_cons.mp listed with ⟨first, others⟩
      exact .group first closed (ih ends others)

/-- A `%` and more after a pattern that is cut to its end. -/
theorem Cut.append {pattern rest : Text} {items more : List Char} {ending last : Ending}
    (cut : Cut pattern items ending) (ends : ending = .complete ∨ ending = .bare)
    (tail : Cut ('%' :: rest) more last) : Cut (pattern ++ '%' :: rest) (items ++ more) last := by
  induction cut with
  | nil => exact tail
  | lone => simp at ends
  | unclosed opened => simp at ends
  | bare => exact .date (by decide) tail
  | char plain _ ih => exact .char plain (ih ends)
  | item other _ ih => exact .item other (ih ends)
  | date other _ ih => exact .date other (ih ends)
  | group closed _ ih => simpa using Cut.group closed (ih ends)

def Ending.text : Ending → Text
  | .bare => ['%', 'd']
  | .lone => ['%']
  | .complete | .unclosed => []

def Ending.letters : Ending → List Char
  | .bare => ['d']
  | .lone | .complete | .unclosed => []

/-- What stands before a `%` or `%d` at the end is cut to its end. -/
theorem Cut.before {pattern : Text} {items : List Char} {last : Ending}
    (cut : Cut pattern items last) (ends : last = .lone ∨ last = .bare) :
    ∃ before items' ending, pattern = before ++ last.text ∧ items = items' ++ last.letters ∧
      Cut before items' ending ∧ (ending = .complete ∨ ending = .bare) := by
  induction cut with
  | nil => simp at ends
  | unclosed opened => simp at ends
  | lone => exact ⟨[], [], _, rfl, rfl, .nil, Or.inl rfl⟩
  | bare => exact ⟨[], [], _, rfl, rfl, .nil, Or.inl rfl⟩
  | char plain _ ih =>
      rcases ih ends with ⟨before, items, ending, rfl, rfl, cut, done⟩
      exact ⟨_ :: before, _, ending, rfl, rfl, .char plain cut, done⟩
  | item other _ ih =>
      rcases ih ends with ⟨before, items, ending, rfl, rfl, cut, done⟩
      exact ⟨'%' :: _ :: before, _ :: items, ending, rfl, rfl, .item other cut, done⟩
  | date other _ ih =>
      rcases ih ends with ⟨before, items, ending, split, rfl, cut, done⟩
      rw [split]
      match before with
      | [] =>
          cases cut
          exact ⟨['%', 'd'], ['d'], .bare, rfl, rfl, .bare, Or.inr rfl⟩
      | c :: before =>
          cases split
          exact ⟨'%' :: 'd' :: _ :: before, 'd' :: items, ending, rfl, rfl, .date other cut, done⟩
  | group closed _ ih =>
      rcases ih ends with ⟨before, items, ending, rfl, rfl, cut, done⟩
      exact ⟨_, 'd' :: items, ending, (by simp), rfl, .group closed cut, done⟩

/-! The scanner follows the cut. -/

def Piece.letter : Piece → Option Char
  | .string _ => none
  | .item c => some c

def letters (vec : List Piece) : List Char := vec.filterMap Piece.letter

@[simp] theorem letters_nil : letters [] = [] := rfl

@[simp] theorem letters_append (vec more : List Piece) :
    letters (vec ++ more) = letters vec ++ letters more := List.filterMap_append

@[simp] theorem letters_item (c : Char) : letters [.item c] = [c] := rfl

@[simp] theorem letters_flush (scan : Scan) : letters scan.flush.vec = letters scan.vec := by
  unfold Scan.flush
  split
  · rfl
  · simp [letters, Piece.letter]

theorem foldl_cut {pattern : Text} {items : List Char} {ending : Ending}
    (cut : Cut pattern items ending) (scan : Scan) (mode : scan.mode = .string) :
    (pattern.foldl Scan.next scan).mode = ending.mode ∧
      letters (pattern.foldl Scan.next scan).vec = letters scan.vec ++ items := by
  induction cut generalizing scan with
  | nil => simpa [Ending.mode] using mode
  | lone => simp [Scan.next, mode, Scan.string, Ending.mode]
  | bare => simp [foldl_item scan 'd' [] mode, Ending.mode]
  | unclosed opened =>
      rename_i format
      have group := foldl_group scan format [] mode opened
      rw [List.append_nil] at group
      simp [group, Ending.mode]
  | @char c rest items ending plain tail ih =>
      have step : scan.next c = { scan with tmp := scan.tmp ++ [c] } := by
        simp [Scan.next, Scan.string, mode, plain]
      rw [List.foldl_cons, step]
      exact ih { scan with tmp := scan.tmp ++ [c] } mode
  | @item c rest items ending other tail ih =>
      rw [foldl_item scan c rest mode, if_neg other]
      simpa using ih { scan.flush with vec := scan.flush.vec ++ [.item c], mode := .string } rfl
  | @date c rest items ending other tail ih =>
      rw [foldl_item scan 'd' _ mode, if_pos rfl, foldl_date rest rfl other]
      simpa using ih { scan.flush with vec := scan.flush.vec ++ [.item 'd'], mode := .string } rfl
  | @group format rest items ending closed tail ih =>
      rw [foldl_group scan format _ mode closed, List.foldl_cons]
      simpa [Scan.next] using ih
        { scan.flush with
          vec := scan.flush.vec ++ [.item 'd'], mode := .string
          dateFormat := scan.dateFormat ++ format } rfl

theorem cut_unique {pattern : Text} {items items' : List Char} {ending ending' : Ending}
    (cut : Cut pattern items ending) (cut' : Cut pattern items' ending') :
    items = items' ∧ ending = ending' := by
  rcases foldl_cut cut {} rfl with ⟨mode, letters⟩
  rcases foldl_cut cut' {} rfl with ⟨mode', letters'⟩
  refine ⟨List.append_cancel_left (letters.symm.trans letters'), ?_⟩
  have same : ending.mode = ending'.mode := mode.symm.trans mode'
  revert same
  cases ending <;> cases ending' <;> decide

theorem makeItems_error (dateFormat : Text) (vec : List Piece) :
    (makeItems dateFormat vec).2 = false ↔ ∀ c ∈ letters vec, Listed c := by
  induction vec with
  | nil => simp [makeItems, letters]
  | cons piece rest ih =>
      cases piece with
      | string text => simpa [makeItems, letters, Piece.letter] using ih
      | item c =>
          have tail : letters (.item c :: rest) = c :: letters rest := rfl
          rw [tail, List.forall_mem_cons, ← ih]
          by_cases letter : c = 'd'
          · subst letter
            simp [makeItems, Listed, formatItem]
          · cases found : formatItem c with
            | none => simp [makeItems, letter, found, Listed]
            | some item => simp [makeItems, letter, found, Listed]

section Init
variable {pattern : Text} {items : List Char}

/-- The test after a `%d` at the end reads past the terminator. -/
theorem init_bare (cut : Cut pattern items .bare) : LogFormatter.init pattern = none := by
  have mode : (pattern.foldl Scan.next {}).mode = .date := (foldl_cut cut {} rfl).1
  simp only [LogFormatter.init, mode]

theorem init_unclosed (cut : Cut pattern items .unclosed) :
    LogFormatter.init pattern = some { m_pattern := pattern, m_error := true } := by
  have mode : (pattern.foldl Scan.next {}).mode = .dateFormat := (foldl_cut cut {} rfl).1
  simp only [LogFormatter.init, mode]

theorem init_ended {ending : Ending} (cut : Cut pattern items ending)
    (ends : ending = .complete ∨ ending = .lone) :
    ∃ formatter, LogFormatter.init pattern = some formatter ∧
      (formatter.m_error = false ↔ ∀ c ∈ items, Listed c) := by
  rcases foldl_cut cut {} rfl with ⟨mode, all⟩
  have error := makeItems_error (pattern.foldl Scan.next {}).dateFormat
    (pattern.foldl Scan.next {}).flush.vec
  rw [letters_flush, all, letters_nil, List.nil_append] at error
  rcases ends with rfl | rfl
  · simp only [LogFormatter.init, mode, Ending.mode]
    exact ⟨_, rfl, error⟩
  · simp only [LogFormatter.init, mode, Ending.mode]
    exact ⟨_, rfl, error⟩

theorem accepted_iff {ending : Ending} (cut : Cut pattern items ending) :
    Accepted pattern ↔
      (ending = .complete ∨ ending = .bare) ∧ ∀ c ∈ items, Listed c := by
  constructor
  · intro accepted
    rcases cut_of_grammar accepted with ⟨items', ending', cut', ends, listed⟩
    rcases cut_unique cut cut' with ⟨rfl, rfl⟩
    exact ⟨ends, listed⟩
  · rintro ⟨ends, listed⟩
    exact grammar_of_cut cut ends listed

theorem endsBare_iff {ending : Ending} (cut : Cut pattern items ending) :
    EndsBare pattern ↔ ending = .bare := by
  constructor
  · rintro ⟨before, derived, rfl⟩
    rcases cut_of_grammar derived with ⟨_, _, cut', ends, _⟩
    exact (cut_unique cut (cut'.append ends .bare)).2
  · rintro rfl
    rcases cut.before (Or.inr rfl) with ⟨before, _, _, split, _, cut', ends⟩
    exact ⟨before, grammar_of_cut cut' ends fun _ _ => trivial, split⟩

theorem endsLone_iff {ending : Ending} (cut : Cut pattern items ending) :
    EndsLone pattern ↔ ending = .lone ∧ ∀ c ∈ items, Listed c := by
  constructor
  · rintro ⟨before, accepted, rfl⟩
    rcases cut_of_grammar accepted with ⟨_, _, cut', ends, listed⟩
    rcases cut_unique cut (cut'.append ends .lone) with ⟨rfl, rfl⟩
    exact ⟨rfl, by simpa using listed⟩
  · rintro ⟨rfl, listed⟩
    rcases cut.before (Or.inl rfl) with ⟨before, items', _, split, same, cut', ends⟩
    rw [same, Ending.letters, List.append_nil] at listed
    exact ⟨before, grammar_of_cut cut' ends listed, split⟩

end Init

/-- `init` reads within the pattern and takes the grammar, where the pattern
does not end in a bare `%d` and is not one of the grammar but for a last `%`. -/
theorem init_accepts_iff (pattern : Text) :
    (∃ formatter, LogFormatter.init pattern = some formatter ∧
      (formatter.m_error = false ↔ Accepted pattern)) ↔
        ¬ EndsBare pattern ∧ ¬ EndsLone pattern := by
  rcases cut_total pattern with ⟨items, ending, cut⟩
  rw [accepted_iff cut, endsBare_iff cut, endsLone_iff cut]
  cases ending with
  | complete =>
      rcases init_ended cut (Or.inl rfl) with ⟨formatter, done, error⟩
      exact iff_of_true ⟨formatter, done, by simpa using error⟩ (by simp)
  | bare =>
      rw [init_bare cut]
      simp
  | lone =>
      rcases init_ended cut (Or.inr rfl) with ⟨formatter, done, error⟩
      simp only [done, Option.some.injEq, exists_eq_left', reduceCtorEq, or_self, false_and,
        iff_false, not_false_eq_true, true_and, error]
  | unclosed =>
      rw [init_unclosed cut]
      simp

/-- A date at the end is read past the pattern, and a lone `%` is no error. -/
theorem init_accepts_fails :
    (LogFormatter.init ['%', 'd'] = none ∧ Accepted ['%', 'd']) ∧
      LogFormatter.init ['%'] = some { m_pattern := ['%'] } ∧ ¬ Accepted ['%'] := by
  refine ⟨⟨by decide, .item rfl (by simp) .nil⟩, by decide, fun accepted => ?_⟩
  cases accepted with
  | char plain _ => exact plain rfl

end Ztyco.Logging
