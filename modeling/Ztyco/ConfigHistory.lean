import Ztyco.LogConfig
import Ztyco.ManagedLoggers

/-!
What a sequence of assignments to `logs` leaves of the loggers. A logger that
is set up has appenders that no other logger has, so setting up another one
does not reach it; its level and its appenders are what its definition says,
and its pattern is the last valid one that any set gave it.
-/

namespace Ztyco.Logging

open ScopedLocks (Held)
open ScopedLocks.Call
open Transition

/-! What setting up one logger leaves alone. -/

structure Elsewhere (l : LoggerPtr) (h after : Heap) : Prop where
  formatters : h.formatters ≤ after.formatters
  patterns : ∀ p, p < h.formatters → after.formatter p = h.formatter p
  appenders : h.appenders ≤ after.appenders
  others : ∀ k, k ≠ l → after.logger k = h.logger k
  views : ∀ a, a < h.appenders → a ∉ (h.logger l).m_appenders →
    (after.appender a).kind = (h.appender a).kind ∧
    (after.appender a).m_level = (h.appender a).m_level ∧
    (after.appender a).m_formatter = (h.appender a).m_formatter
  lists : ∀ a ∈ (after.logger l).m_appenders,
    h.appenders ≤ a ∨ a ∈ (h.logger l).m_appenders
  names : after.m_loggers = h.m_loggers

section Elsewhere
variable {l : LoggerPtr} {h mid : Heap}

theorem Elsewhere.refl (l : LoggerPtr) (h : Heap) : Elsewhere l h h where
  formatters := Nat.le_refl _
  patterns _ _ := rfl
  appenders := Nat.le_refl _
  others _ _ := rfl
  views _ _ _ := ⟨rfl, rfl, rfl⟩
  lists _ mem := Or.inr mem
  names := rfl

theorem Elsewhere.addFormatter (elsewhere : Elsewhere l h mid) (formatter : LogFormatter) :
    Elsewhere l h (mid.addFormatter formatter) where
  formatters := Nat.le_succ_of_le elsewhere.formatters
  patterns p old := by
    have other : p ≠ mid.formatters := Nat.ne_of_lt (Nat.lt_of_lt_of_le old elsewhere.formatters)
    exact (Function.update_of_ne other _ _).trans (elsewhere.patterns p old)
  appenders := elsewhere.appenders
  others := elsewhere.others
  views := elsewhere.views
  lists := elsewhere.lists
  names := elsewhere.names

theorem Elsewhere.setLogger (elsewhere : Elsewhere l h mid) {logger : Logger}
    (lists : ∀ a ∈ logger.m_appenders, h.appenders ≤ a ∨ a ∈ (h.logger l).m_appenders) :
    Elsewhere l h (mid.setLogger l logger) where
  formatters := elsewhere.formatters
  patterns := elsewhere.patterns
  appenders := elsewhere.appenders
  others k other := (Function.update_of_ne other _ _).trans (elsewhere.others k other)
  views := elsewhere.views
  lists a mem := by
    apply lists a
    simpa [Heap.setLogger] using mem
  names := elsewhere.names

theorem Elsewhere.newLogger (elsewhere : Elsewhere mid.loggers h mid) {logger : Logger}
    (empty : logger.m_appenders = []) : Elsewhere mid.loggers h (mid.addLogger logger) := by
  have set : Elsewhere mid.loggers h (mid.setLogger mid.loggers logger) := by
    apply elsewhere.setLogger
    intro a mem
    rw [empty] at mem
    cases mem
  exact ⟨set.formatters, set.patterns, set.appenders, set.others, set.views, set.lists,
    set.names⟩

theorem Elsewhere.handed (elsewhere : Elsewhere l h mid) (val : Option FormatterPtr)
    {items : List AppenderPtr}
    (lists : ∀ a ∈ items, h.appenders ≤ a ∨ a ∈ (h.logger l).m_appenders) :
    Elsewhere l h (mid.handed val items) where
  formatters := elsewhere.formatters
  patterns := elsewhere.patterns
  appenders := elsewhere.appenders
  others := elsewhere.others
  views a old unlisted := by
    have skipped : ¬ (a ∈ items ∧ (mid.appender a).m_hasFormatter = false) := by
      rintro ⟨mem, _⟩
      rcases lists a mem with new | listed
      · exact Nat.not_lt.mpr new old
      · exact unlisted listed
    simp only [Heap.handed, if_neg skipped]
    exact elsewhere.views a old unlisted
  lists := elsewhere.lists
  names := elsewhere.names

theorem Elsewhere.cleared (elsewhere : Elsewhere l h mid) : Elsewhere l h (mid.listed l []) :=
  elsewhere.setLogger fun _ mem => absurd mem List.not_mem_nil

theorem Elsewhere.reformatted (elsewhere : Elsewhere l h mid) (val : Option FormatterPtr) :
    Elsewhere l h (mid.reformatted l val) := by
  have set : Elsewhere l h (mid.setLogger l { mid.logger l with m_formatter := val }) :=
    elsewhere.setLogger elsewhere.lists
  exact set.handed val elsewhere.lists

theorem elsewhere_undisturbed (l : LoggerPtr) (h : Heap) : Undisturbed (Elsewhere l h) where
  written _ _ elsewhere := ⟨elsewhere.formatters, elsewhere.patterns, elsewhere.appenders,
    elsewhere.others, elsewhere.views, elsewhere.lists, elsewhere.names⟩
  lastTime mid a now elsewhere := by
    refine ⟨elsewhere.formatters, elsewhere.patterns, elsewhere.appenders, elsewhere.others,
      ?_, elsewhere.lists, elsewhere.names⟩
    intro b old unlisted
    by_cases same : b = a
    · subst same
      simpa [Heap.setAppender] using elsewhere.views b old unlisted
    · simpa [Heap.setAppender, same] using elsewhere.views b old unlisted

end Elsewhere

/-! The formatter of a definition. -/

section Formatters
variable {held : Held Lock} {h after : Heap}

theorem usable_scanned {text : Text} {formatter : LogFormatter} (given : text.isEmpty = false)
    (scanned : LogFormatter.init text = some formatter) : usable text = !formatter.m_error := by
  simp [usable, given, scanned]

theorem formatDefined_ok {a : LogAppenderDefine} {ap : AppenderPtr}
    (done : formatDefined a ap held h = .ok ((), after)) :
    usable a.formatter = false ∧
        (after = h ∨ ∃ formatter, after = h.addFormatter formatter) ∨
      usable a.formatter = true ∧ ∃ formatter, formatter.m_pattern = a.formatter ∧
        after = (h.addFormatter formatter).given ap (some h.formatters) := by
  unfold formatDefined at done
  cases empty : a.formatter.isEmpty with
  | true =>
      rw [empty] at done
      exact Or.inl ⟨by simp [usable, empty], Or.inl (pure_ok.mp done).2⟩
  | false =>
      rw [empty] at done
      rcases bind_ok.mp done with ⟨fmt, middle, making, rest⟩
      rcases makeFormatter_ok making with ⟨formatter, scanned, rfl, rfl⟩
      rcases bind_ok.mp rest with ⟨isError, same, asking, choice⟩
      rcases read_ok.mp asking with ⟨rfl, rfl⟩
      have found : (h.addFormatter formatter).formatter h.formatters = formatter :=
        Function.update_self _ _ _
      rw [found] at choice
      rw [usable_scanned empty scanned]
      cases error : formatter.m_error with
      | true =>
          rw [error] at choice
          exact Or.inl ⟨rfl, Or.inr ⟨formatter, (pure_ok.mp choice).2⟩⟩
      | false =>
          rw [error] at choice
          exact Or.inr ⟨rfl, formatter, init_pattern scanned, setAppenderFormatter_ok choice⟩

theorem patternDefined_ok {l : LoggerPtr} {text : Text}
    (done : (if text.isEmpty then pure () else Logger.setPattern l text : Op Unit) held h =
      .ok ((), after)) :
    usable text = false ∧ (after = h ∨ ∃ formatter, after = h.addFormatter formatter) ∨
      usable text = true ∧ ∃ formatter, formatter.m_pattern = text ∧
        after = (h.addFormatter formatter).reformatted l (some h.formatters) := by
  cases empty : text.isEmpty with
  | true =>
      rw [empty] at done
      exact Or.inl ⟨by simp [usable, empty], Or.inl (pure_ok.mp done).2⟩
  | false =>
      rw [empty] at done
      rcases setPattern_ok done with ⟨formatter, scanned, rfl⟩
      rw [usable_scanned empty scanned]
      cases formatter.m_error with
      | true => exact Or.inl ⟨rfl, Or.inr ⟨formatter, rfl⟩⟩
      | false => exact Or.inr ⟨rfl, formatter, init_pattern scanned, rfl⟩

end Formatters

/-! One appender of a definition. -/

structure Made (h after : Heap) (appender : LogAppender) : Prop where
  managed : Managed after
  formatters : h.formatters ≤ after.formatters
  patterns : ∀ p, p < h.formatters → after.formatter p = h.formatter p
  appenders : after.appenders = h.appenders + 1
  appender : after.appender = Function.update h.appender h.appenders appender
  logger : after.logger = h.logger
  names : after.m_loggers = h.m_loggers

structure Added (l : LoggerPtr) (h after : Heap) (view : AppenderView) : Prop where
  managed : Managed after
  formatters : h.formatters ≤ after.formatters
  patterns : ∀ p, p < h.formatters → after.formatter p = h.formatter p
  appenders : after.appenders = h.appenders + 1
  others : ∀ b, b ≠ h.appenders → after.appender b = h.appender b
  logger : after.logger = Function.update h.logger l
    { h.logger l with m_appenders := (h.logger l).m_appenders ++ [h.appenders] }
  names : after.m_loggers = h.m_loggers
  view : after.appenderView h.appenders = view

section Appenders
variable {held : Held Lock} {h mid after : Heap} {appender : LogAppender}

theorem Managed.made_level (managed : Managed h) (kind : Kind) (level : Level) :
    Made h ((h.addAppender kind).setAppender h.appenders
      { (h.addAppender kind).appender h.appenders with m_level := level })
      { kind := kind, m_level := level } where
  managed := by
    apply (managed.addAppender kind).setAppender
    intro p found
    simp [Heap.addAppender, Heap.setAppender] at found
  formatters := Nat.le_refl _
  patterns _ _ := rfl
  appenders := rfl
  appender := by simp [Heap.addAppender, Heap.setAppender]
  logger := rfl
  names := rfl

theorem Made.addFormatter (made : Made h mid appender) (formatter : LogFormatter) :
    Made h (mid.addFormatter formatter) appender where
  managed := made.managed.addFormatter formatter
  formatters := Nat.le_succ_of_le made.formatters
  patterns p old := by
    have other : p ≠ mid.formatters := Nat.ne_of_lt (Nat.lt_of_lt_of_le old made.formatters)
    exact (Function.update_of_ne other _ _).trans (made.patterns p old)
  appenders := made.appenders
  appender := made.appender
  logger := made.logger
  names := made.names

theorem Made.given (made : Made h mid appender) {p : FormatterPtr} (known : p < mid.formatters) :
    Made h (mid.given h.appenders (some p))
      { appender with m_formatter := some p, m_hasFormatter := true } where
  managed := by
    apply made.managed.given
    intro q found
    cases found
    exact known
  formatters := made.formatters
  patterns := made.patterns
  appenders := made.appenders
  appender := by simp [Heap.given, Heap.setAppender, made.appender]
  logger := made.logger
  names := made.names

/-- A formatter that had been made has the pattern it had. -/
theorem pattern_kept (patterns : ∀ p, p < h.formatters → after.formatter p = h.formatter p)
    {formatter : Option FormatterPtr} (known : ∀ p, formatter = some p → p < h.formatters) :
    after.pattern formatter = h.pattern formatter := by
  cases formatter with
  | none => rfl
  | some p =>
      have same := patterns p (known p rfl)
      exact congrArg (fun found => some (LogFormatter.m_pattern found)) same

theorem pattern_addFormatter (h : Heap) (formatter : LogFormatter) :
    (h.addFormatter formatter).pattern (some h.formatters) = some formatter.m_pattern := by
  simp [Heap.pattern, Heap.addFormatter]

theorem Made.appended (made : Made h mid appender) (before : Managed h) (l : LoggerPtr) :
    Added l h (mid.appended l h.appenders)
      { kind := appender.kind
        level := appender.m_level
        pattern := match appender.m_formatter with
          | some p => mid.pattern (some p)
          | none => h.pattern (h.logger l).m_formatter } where
  managed := made.managed.appended l (made.appenders ▸ Nat.lt_succ_self _)
  formatters := by
    unfold Heap.appended
    split <;> exact made.formatters
  patterns p old := by
    unfold Heap.appended
    split <;> exact made.patterns p old
  appenders := by
    unfold Heap.appended
    split <;> exact made.appenders
  others b other := by
    unfold Heap.appended
    split
    · simp [Heap.listed, Heap.setLogger, Heap.given, Heap.setAppender, made.appender, other]
    · simp [Heap.listed, Heap.setLogger, made.appender, other]
  logger := by
    unfold Heap.appended
    split <;> simp [Heap.listed, Heap.setLogger, Heap.given, Heap.setAppender, made.logger]
  names := by
    unfold Heap.appended
    split <;> exact made.names
  view := by
    have known := before.current l
    have same := pattern_kept made.patterns known
    cases found : appender.m_formatter with
    | none =>
        have bare : (mid.appender h.appenders).m_formatter = none := by
          rw [made.appender, Function.update_self]
          exact found
        unfold Heap.appended
        rw [if_pos bare]
        simp only [Heap.appenderView, Heap.listed, Heap.setLogger, Heap.given, Heap.setAppender,
          made.appender, made.logger, Function.update_self]
        exact congrArg _ same
    | some p =>
        have own : (mid.appender h.appenders).m_formatter = some p := by
          rw [made.appender, Function.update_self]
          exact found
        unfold Heap.appended
        rw [if_neg (own ▸ Option.some_ne_none p)]
        simp only [Heap.appenderView, Heap.listed, Heap.setLogger, made.appender,
          Function.update_self, found]
        rfl

theorem addMade_ok (managed : Managed h) {l : LoggerPtr} {a : LogAppenderDefine} {kind : Kind}
    (done : addMade l a h.appenders held (h.addAppender kind) = .ok ((), after)) :
    Added l h after
      { kind := kind
        level := a.level
        pattern := replaces a.formatter (h.pattern (h.logger l).m_formatter) } := by
  rcases bind_ok.mp done with ⟨_, leveled, setting, rest⟩
  have made : Made h leveled { kind := kind, m_level := a.level } :=
    setAppenderLevel_ok setting ▸ managed.made_level kind a.level
  rcases bind_ok.mp rest with ⟨_, formatted, formatting, adding⟩
  rcases addAppender_ok adding with rfl
  rcases formatDefined_ok formatting with ⟨unusable, plain⟩ | ⟨good, formatter, named, rfl⟩
  · have lent : replaces a.formatter (h.pattern (h.logger l).m_formatter) =
        h.pattern (h.logger l).m_formatter := by simp [replaces, unusable]
    rw [lent]
    -- a refused formatter has been made all the same
    rcases plain with rfl | ⟨formatter, rfl⟩
    · exact made.appended managed l
    · exact (made.addFormatter formatter).appended managed l
  · have added := ((made.addFormatter formatter).given (Nat.lt_succ_self _)).appended managed l
    have own : replaces a.formatter (h.pattern (h.logger l).m_formatter) =
        (leveled.addFormatter formatter).pattern (some leveled.formatters) := by
      rw [pattern_addFormatter, named]
      simp [replaces, good]
    rw [own]
    exact added

theorem addDefined_ok (managed : Managed h) {d : Bool} {l : LoggerPtr} {a : LogAppenderDefine}
    (done : addDefined d l a held h = .ok ((), after)) :
    defineView d (h.pattern (h.logger l).m_formatter) a = none ∧ after = h ∨
      ∃ view, defineView d (h.pattern (h.logger l).m_formatter) a = some view ∧
        Added l h after view := by
  unfold addDefined at done
  unfold defineView
  by_cases file : a.type = 1
  · rw [if_pos file] at done ⊢
    rcases bind_ok.mp done with ⟨ap, made, making, rest⟩
    rcases makeAppender_ok making with ⟨rfl, rfl⟩
    exact Or.inr ⟨_, rfl, addMade_ok managed rest⟩
  · rw [if_neg file] at done ⊢
    by_cases stdout : a.type = 2
    · rw [if_pos stdout] at done
      cases d with
      | true =>
          left
          exact ⟨by simp, (pure_ok.mp done).2⟩
      | false =>
          rw [if_pos ⟨stdout, rfl⟩]
          rcases bind_ok.mp done with ⟨ap, made, making, rest⟩
          rcases makeAppender_ok making with ⟨rfl, rfl⟩
          exact Or.inr ⟨_, rfl, addMade_ok managed rest⟩
    · rw [if_neg stdout] at done
      exact absurd done raise_ok

end Appenders

/-! A logger is set up. -/

section SetUp
variable {held : Held Lock} {h mid after : Heap} {l : LoggerPtr} {d : Bool}

theorem Added.elsewhere {view : AppenderView} (added : Added l mid after view)
    (elsewhere : Elsewhere l h mid) : Elsewhere l h after where
  formatters := Nat.le_trans elsewhere.formatters added.formatters
  patterns p old :=
    (added.patterns p (Nat.lt_of_lt_of_le old elsewhere.formatters)).trans
      (elsewhere.patterns p old)
  appenders := added.appenders ▸ Nat.le_succ_of_le elsewhere.appenders
  others k other := by
    rw [added.logger, Function.update_of_ne other]
    exact elsewhere.others k other
  views a old unlisted := by
    rw [added.others a (Nat.ne_of_lt (Nat.lt_of_lt_of_le old elsewhere.appenders))]
    exact elsewhere.views a old unlisted
  lists a mem := by
    rw [added.logger, Function.update_self] at mem
    rcases List.mem_append.mp mem with old | new
    · exact elsewhere.lists a old
    · rw [List.mem_singleton.mp new]
      exact Or.inl elsewhere.appenders
  names := added.names.trans elsewhere.names

theorem Added.view_kept {view : AppenderView} (added : Added l mid after view)
    (managed : Managed mid) {a : AppenderPtr} (old : a < mid.appenders) :
    after.appenderView a = mid.appenderView a := by
  simp only [Heap.appenderView, added.others a (Nat.ne_of_lt old)]
  rw [pattern_kept added.patterns (managed.effective a)]

structure Filling (d : Bool) (l : LoggerPtr) (i : LogDefine) (pattern : Option Text)
    (h mid : Heap) (done : List LogAppenderDefine) : Prop where
  managed : Managed mid
  elsewhere : Elsewhere l h mid
  level : (mid.logger l).m_level = i.level
  patterned : mid.pattern (mid.logger l).m_formatter = pattern
  views : (mid.logger l).m_appenders.map mid.appenderView = done.filterMap (defineView d pattern)
  new : ∀ a ∈ (mid.logger l).m_appenders, h.appenders ≤ a

theorem Filling.round {i : LogDefine} {pattern : Option Text} {done : List LogAppenderDefine}
    (filling : Filling d l i pattern h mid done) {a : LogAppenderDefine}
    (round : addDefined d l a held mid = .ok ((), after)) :
    Filling d l i pattern h after (done ++ [a]) := by
  have managed := filling.managed
  rcases addDefined_ok managed round with ⟨skipped, rfl⟩ | ⟨view, shown, added⟩
  · rw [filling.patterned] at skipped
    refine ⟨managed, filling.elsewhere, filling.level, filling.patterned, ?_, filling.new⟩
    rw [filling.views, List.filterMap_append]
    simp [skipped]
  · rw [filling.patterned] at shown
    have logger : after.logger l = { mid.logger l with
        m_appenders := (mid.logger l).m_appenders ++ [mid.appenders] } := by
      rw [added.logger, Function.update_self]
    refine ⟨added.managed, added.elsewhere filling.elsewhere, ?_, ?_, ?_, ?_⟩
    · rw [logger]
      exact filling.level
    · rw [logger, ← filling.patterned]
      exact pattern_kept added.patterns (managed.current l)
    · have kept : (mid.logger l).m_appenders.map after.appenderView =
          (mid.logger l).m_appenders.map mid.appenderView :=
        List.map_congr_left fun b mem => added.view_kept managed (managed.made l b mem)
      rw [logger, List.map_append, kept, filling.views, List.filterMap_append]
      simp [shown, added.view]
    · intro b mem
      rw [logger] at mem
      rcases List.mem_append.mp mem with old | last
      · exact filling.new b old
      · rw [List.mem_singleton.mp last]
        exact filling.elsewhere.appenders

theorem Filling.rounds {i : LogDefine} {pattern : Option Text}
    {done : List LogAppenderDefine} (rest : List LogAppenderDefine)
    (filling : Filling d l i pattern h mid done)
    (loop : forEach (addDefined d l) rest held mid = .ok ((), after)) :
    Filling d l i pattern h after (done ++ rest) := by
  induction rest generalizing mid done with
  | nil =>
      rcases forEach_nil loop with rfl
      rwa [List.append_nil]
  | cons a rest ih =>
      rcases forEach_cons loop with ⟨next, round, later⟩
      have filled := ih (filling.round round) later
      rwa [List.append_assoc] at filled

structure SetUp (d : Bool) (l : LoggerPtr) (i : LogDefine) (h after : Heap) : Prop where
  managed : Managed after
  elsewhere : Elsewhere l h after
  view : after.loggerView l =
    i.view d (replaces i.formatter (h.pattern (h.logger l).m_formatter))
  new : ∀ a ∈ (after.logger l).m_appenders, h.appenders ≤ a

/-- A logger and its pattern before its appenders are cleared. -/
structure Formatted (l : LoggerPtr) (i : LogDefine) (h mid : Heap) : Prop where
  managed : Managed mid
  elsewhere : Elsewhere l h mid
  level : (mid.logger l).m_level = i.level
  pattern : mid.pattern (mid.logger l).m_formatter =
    replaces i.formatter (h.pattern (h.logger l).m_formatter)

theorem formatted_of {i : LogDefine} (managed : Managed h)
    (done : (if i.formatter.isEmpty then pure () else Logger.setPattern l i.formatter : Op Unit)
      held (h.setLogger l { h.logger l with m_level := i.level }) = .ok ((), mid)) :
    Formatted l i h mid := by
  have leveled : Managed (h.setLogger l { h.logger l with m_level := i.level }) :=
    managed.setLogger l (managed.current l) (managed.made l)
  have elsewhere : Elsewhere l h (h.setLogger l { h.logger l with m_level := i.level }) :=
    (Elsewhere.refl l h).setLogger fun a mem => Or.inr mem
  rcases patternDefined_ok done with ⟨unusable, plain⟩ | ⟨good, formatter, named, rfl⟩
  · have same : replaces i.formatter (h.pattern (h.logger l).m_formatter) =
        h.pattern (h.logger l).m_formatter := by simp [replaces, unusable]
    rcases plain with rfl | ⟨formatter, rfl⟩
    · refine ⟨leveled, elsewhere, ?_, ?_⟩
      · simp [Heap.setLogger]
      · rw [same]
        simp [Heap.setLogger, Heap.pattern]
    · refine ⟨leveled.addFormatter formatter, elsewhere.addFormatter formatter, ?_, ?_⟩
      · simp [Heap.setLogger, Heap.addFormatter]
      · rw [same]
        have kept := pattern_kept ((Elsewhere.refl l h).addFormatter formatter).patterns
          (managed.current l)
        simpa [Heap.setLogger, Heap.addFormatter, Heap.pattern] using kept
  · refine ⟨?_, (elsewhere.addFormatter formatter).reformatted _, ?_, ?_⟩
    · apply (leveled.addFormatter formatter).reformatted
      intro p found
      cases found
      exact Nat.lt_succ_self _
    · simp [Heap.reformatted, Heap.handed, Heap.setLogger, Heap.addFormatter]
    · simp [Heap.reformatted, Heap.handed, Heap.setLogger, Heap.addFormatter, Heap.pattern,
        replaces, good, named]

theorem setUp_ok {i : LogDefine} (managed : Managed h)
    (done : setUp d l i held h = .ok ((), after)) : SetUp d l i h after := by
  rcases bind_ok.mp done with ⟨_, leveled, leveling, rest⟩
  rcases setLevel_ok leveling with rfl
  rcases bind_ok.mp rest with ⟨_, mid, formatting, clearing⟩
  have formatted := formatted_of managed formatting
  rcases bind_ok.mp clearing with ⟨_, cleared, clear, loop⟩
  rcases clearAppender_ok clear with rfl
  have cleared : Filling d l i (replaces i.formatter (h.pattern (h.logger l).m_formatter)) h
      (mid.listed l []) [] := by
    refine ⟨?_, ?_, ?_, ?_, ?_, ?_⟩
    · exact formatted.managed.listed l fun a mem => absurd mem List.not_mem_nil
    · exact formatted.elsewhere.cleared
    · simpa [Heap.listed, Heap.setLogger] using formatted.level
    · rw [← formatted.pattern]
      simp [Heap.listed, Heap.setLogger, Heap.pattern]
    · simp [Heap.listed, Heap.setLogger]
    · intro a mem
      simp [Heap.listed, Heap.setLogger] at mem
  have filled := cleared.rounds i.appenders loop
  rw [List.nil_append] at filled
  refine ⟨filled.managed, filled.elsewhere, ?_, filled.new⟩
  simp only [Heap.loggerView, LogDefine.view, filled.level, filled.patterned, filled.views]

end SetUp

/-! All the loggers of the set. -/

def Owned (h : Heap) (l : LoggerPtr) : Prop :=
  ∀ a ∈ (h.logger l).m_appenders, ∀ k, a ∈ (h.logger k).m_appenders → k = l

/-- The loggers of these names are what these definitions say, and any logger
has the pattern it was left with. -/
structure Tracks (d : Bool) (current : Text → Option LogDefine) (left : Text → Option Text)
    (h : Heap) : Prop where
  managed : Managed h
  patterns : ∀ name, h.patternOf name = left name
  settled : ∀ name i, current name = some i → replaces i.formatter (left name) = left name
  configured : ∀ name i, current name = some i → ∃ l, h.m_loggers.lookup name = some l ∧
    h.loggerView l = i.view d (left name) ∧ Owned h l

section Tracks
variable {held : Held Lock} {h after : Heap} {d : Bool} {current : Text → Option LogDefine}
  {left : Text → Option Text} {name : Text} {l : LoggerPtr}

theorem replaces_twice (formatter : Text) (pattern : Option Text) :
    replaces formatter (replaces formatter pattern) = replaces formatter pattern := by
  unfold replaces
  split <;> rfl

theorem Tracks.weaken (tracks : Tracks d current left h) {fewer : Text → Option LogDefine}
    (implied : ∀ name i, fewer name = some i → current name = some i) :
    Tracks d fewer left h where
  managed := tracks.managed
  patterns := tracks.patterns
  settled name i found := tracks.settled name i (implied name i found)
  configured name i found := tracks.configured name i (implied name i found)

theorem Elsewhere.pattern {k : LoggerPtr} (elsewhere : Elsewhere l h after)
    (managed : Managed h) (other : k ≠ l) :
    after.pattern (after.logger k).m_formatter = h.pattern (h.logger k).m_formatter := by
  rw [elsewhere.others k other]
  exact pattern_kept elsewhere.patterns (managed.current k)

/-- A logger whose appenders are its own is not reached from another one. -/
theorem Elsewhere.loggerView {k : LoggerPtr} (elsewhere : Elsewhere l h after)
    (managed : Managed h) (other : k ≠ l) (owned : Owned h k) :
    after.loggerView k = h.loggerView k := by
  have views : (h.logger k).m_appenders.map after.appenderView =
      (h.logger k).m_appenders.map h.appenderView := by
    apply List.map_congr_left
    intro a mem
    have unlisted : a ∉ (h.logger l).m_appenders := fun shared =>
      other (owned a mem l shared).symm
    rcases elsewhere.views a (managed.made k a mem) unlisted with ⟨kind, level, formatter⟩
    simp only [Heap.appenderView, kind, level, formatter]
    rw [pattern_kept elsewhere.patterns (managed.effective a)]
  unfold Heap.loggerView
  rw [elsewhere.pattern managed other, elsewhere.others k other, views]

theorem Elsewhere.owned {k : LoggerPtr} (elsewhere : Elsewhere l h after) (managed : Managed h)
    (other : k ≠ l) (owned : Owned h k) : Owned after k := by
  intro a mem j shared
  rw [elsewhere.others k other] at mem
  by_cases same : j = l
  · subst same
    rcases elsewhere.lists a shared with new | old
    · exact absurd (managed.made k a mem) (Nat.not_lt.mpr new)
    · exact owned a mem j old
  · rw [elsewhere.others j same] at shared
    exact owned a mem j shared

theorem other_name {other : Text} {i : LogDefine} (untracked : current name = none)
    (found : current other = some i) : other ≠ name := by
  rintro rfl
  rw [untracked] at found
  cases found

/-- One logger, which is not tracked, is changed. -/
theorem Tracks.elsewhere (tracks : Tracks d current left h) (untracked : current name = none)
    (known : h.m_loggers.lookup name = some l) (elsewhere : Elsewhere l h after)
    (managed : Managed after) :
    Tracks d current (Function.update left name (after.pattern (after.logger l).m_formatter))
      after where
  managed := managed
  patterns other := by
    unfold Heap.patternOf
    rw [elsewhere.names]
    by_cases same : other = name
    · subst same
      rw [known, Function.update_self]
    · -- another name is another logger's
      rw [Function.update_of_ne same, ← tracks.patterns other]
      unfold Heap.patternOf
      cases found : h.m_loggers.lookup other with
      | none => rfl
      | some k =>
          have different : k ≠ l := by
            rintro rfl
            exact same (tracks.managed.distinct other name k found known)
          exact elsewhere.pattern tracks.managed different
  settled other i found := by
    rw [Function.update_of_ne (other_name untracked found)]
    exact tracks.settled other i found
  configured other i found := by
    have different := other_name untracked found
    rcases tracks.configured other i found with ⟨k, named, view, owned⟩
    have away : k ≠ l := by
      rintro rfl
      exact different (tracks.managed.distinct other name k named known)
    rw [elsewhere.names, Function.update_of_ne different]
    refine ⟨k, named, ?_, elsewhere.owned tracks.managed away owned⟩
    rw [elsewhere.loggerView tracks.managed away owned]
    exact view

theorem Tracks.left_of (tracks : Tracks d current left h)
    (known : h.m_loggers.lookup name = some l) :
    h.pattern (h.logger l).m_formatter = left name := by
  have pattern := tracks.patterns name
  unfold Heap.patternOf at pattern
  rw [known] at pattern
  exact pattern

theorem Tracks.setUp (tracks : Tracks d current left h) {i : LogDefine}
    (known : h.m_loggers.lookup i.name = some l) (done : SetUp d l i h after) :
    Tracks d (Function.update current i.name (some i))
      (Function.update left i.name (replaces i.formatter (left i.name))) after := by
  have fewer : Tracks d (Function.update current i.name none) left h := by
    apply tracks.weaken
    intro name j found
    by_cases same : name = i.name
    · subst same
      rw [Function.update_self] at found
      cases found
    · rwa [Function.update_of_ne same] at found
  have moved := fewer.elsewhere (Function.update_self _ _ _) known done.elsewhere done.managed
  have view := done.view
  rw [tracks.left_of known] at view
  have pattern : after.pattern (after.logger l).m_formatter =
      replaces i.formatter (left i.name) := congrArg LoggerView.pattern view
  rw [pattern] at moved
  refine ⟨moved.managed, moved.patterns, ?_, ?_⟩
  · intro name j found
    by_cases same : name = i.name
    · subst same
      rw [Function.update_self] at found
      cases found
      rw [Function.update_self]
      exact replaces_twice _ _
    · apply moved.settled name j
      rwa [Function.update_of_ne same] at found ⊢
  · intro name j found
    by_cases same : name = i.name
    · subst same
      rw [Function.update_self] at found
      cases found
      rw [Function.update_self, done.elsewhere.names]
      refine ⟨l, known, view, ?_⟩
      -- its appenders are younger than any list of another logger
      intro a mem k shared
      by_contra other
      rw [done.elsewhere.others k other] at shared
      exact Nat.not_lt.mpr (done.new a mem) (tracks.managed.made k a shared)
    · apply moved.configured name j
      rwa [Function.update_of_ne same] at found ⊢

theorem Tracks.getLogger (tracks : Tracks d current left h)
    (done : LoggerManager.getLogger name held h = .ok (l, after)) :
    Tracks d current left after ∧ after.m_loggers.lookup name = some l := by
  have managed := managed_getLogger tracks.managed done
  rcases getLogger_ok done with ⟨known, rfl⟩ | ⟨unknown, rfl, formatter, scanned, rfl⟩
  · exact ⟨tracks, known⟩
  · have before : Elsewhere (h.addFormatter formatter).loggers h (h.addFormatter formatter) :=
      (Elsewhere.refl h.loggers h).addFormatter formatter
    have elsewhere : Elsewhere h.loggers h ((h.addFormatter formatter).addLogger
        { m_name := name, m_formatter := some h.formatters, m_root := some h.m_root }) :=
      before.newLogger rfl
    have away : ∀ other k, h.m_loggers.lookup other = some k → k ≠ h.loggers :=
      fun other k found => Nat.ne_of_lt (tracks.managed.known other k found)
    refine ⟨⟨managed, ?_, tracks.settled, ?_⟩, ?_⟩
    · intro other
      rw [← tracks.patterns other]
      unfold Heap.patternOf
      rw [lookup_insert]
      by_cases same : other = name
      · subst same
        rw [if_pos rfl, unknown]
        simp [Heap.pattern, Heap.addLogger, Heap.setLogger, Heap.addFormatter,
          init_pattern scanned]
      · rw [if_neg same]
        cases found : h.m_loggers.lookup other with
        | none => rfl
        | some k =>
            exact elsewhere.pattern tracks.managed (away other k found)
    · intro other i found
      rcases tracks.configured other i found with ⟨k, named, view, owned⟩
      have different : other ≠ name := by
        rintro rfl
        rw [unknown] at named
        cases named
      refine ⟨k, ?_, ?_, ?_⟩
      · rw [lookup_insert, if_neg different]
        exact named
      · exact (elsewhere.loggerView tracks.managed (away other k named) owned).trans view
      · exact elsewhere.owned tracks.managed (away other k named) owned
    · rw [lookup_insert, if_pos rfl]

theorem Tracks.quiet (tracks : Tracks d current left h) (elsewhere : ∀ l, Elsewhere l h after)
    (managed : Managed after) : Tracks d current left after where
  managed := managed
  patterns name := by
    rw [← tracks.patterns name]
    unfold Heap.patternOf
    rw [(elsewhere 0).names]
    cases found : h.m_loggers.lookup name with
    | none => rfl
    | some k => exact (elsewhere (k + 1)).pattern tracks.managed (Nat.ne_of_lt (Nat.lt_succ_self k))
  settled := tracks.settled
  configured name i found := by
    rcases tracks.configured name i found with ⟨k, named, view, owned⟩
    have away : k ≠ k + 1 := Nat.ne_of_lt (Nat.lt_succ_self k)
    rw [(elsewhere 0).names]
    refine ⟨k, named, ?_, (elsewhere (k + 1)).owned tracks.managed away owned⟩
    rw [(elsewhere (k + 1)).loggerView tracks.managed away owned]
    exact view

theorem tracks_undisturbed : Undisturbed (Tracks d current left) where
  written h events tracks := by
    apply tracks.quiet
    · intro l
      exact (elsewhere_undisturbed l h).written h events (Elsewhere.refl l h)
    · exact managed_undisturbed.written h events tracks.managed
  lastTime h a now tracks := by
    apply tracks.quiet
    · intro l
      exact (elsewhere_undisturbed l h).lastTime h a now (Elsewhere.refl l h)
    · exact managed_undisturbed.lastTime h a now tracks.managed

theorem keeps_logInfo (now : UInt64) (text : Text) :
    Keeps (Tracks d current left) (logInfo now text) := by
  apply keeps_bind (keeps_read _)
  intro m_root
  apply keeps_bind (keeps_read _)
  intro level
  split
  · exact keeps_log tracks_undisturbed 2 m_root _
  · exact keeps_pure ()

theorem Tracks.shutDown (tracks : Tracks d current left h) (untracked : current name = none)
    (known : h.m_loggers.lookup name = some l)
    (done : shutDown l held h = .ok ((), after)) : Tracks d current left after := by
  rcases bind_ok.mp done with ⟨_, leveled, leveling, clearing⟩
  rcases setLevel_ok leveling with rfl
  rcases clearAppender_ok clearing with rfl
  have managed := tracks.managed
  have leveled : Managed (h.setLogger l { h.logger l with m_level := .UNKNOW }) :=
    managed.setLogger l (managed.current l) (managed.made l)
  have elsewhere : Elsewhere l h (h.setLogger l { h.logger l with m_level := .UNKNOW }) :=
    (Elsewhere.refl l h).setLogger fun a mem => Or.inr mem
  have moved := tracks.elsewhere untracked known elsewhere.cleared
    (leveled.listed l fun a mem => absurd mem List.not_mem_nil)
  have pattern : ((h.setLogger l { h.logger l with m_level := .UNKNOW }).listed l []).pattern
      (((h.setLogger l { h.logger l with m_level := .UNKNOW }).listed l []).logger
        l).m_formatter = left name := by
    rw [← tracks.left_of known]
    simp [Heap.listed, Heap.setLogger, Heap.pattern]
  rw [pattern, Function.update_eq_self] at moved
  exact moved

end Tracks

/-! The listener. -/

def leaves (v : LogDefines) (left : Text → Option Text) (name : Text) : Option Text :=
  match v.find name with
  | some i => replaces i.formatter (left name)
  | none => left name

section Listener
variable {held : Held Lock} {h after : Heap} {d : Bool} {current : Text → Option LogDefine}
  {left : Text → Option Text}

theorem Tracks.configure (tracks : Tracks d current left h) {old_value : LogDefines}
    {i : LogDefine} (skip : old_value.find i.name = some i → current i.name = some i)
    (done : configure d old_value i held h = .ok ((), after)) :
    Tracks d (Function.update current i.name (some i))
      (Function.update left i.name (replaces i.formatter (left i.name))) after := by
  unfold Logging.configure at done
  by_cases same : old_value.find i.name = some i
  · rw [if_pos same] at done
    rcases pure_ok.mp done with ⟨_, rfl⟩
    -- the round is skipped: what the old value left is what this one says
    have already := skip same
    rw [tracks.settled i.name i already, Function.update_eq_self, ← already,
      Function.update_eq_self]
    exact tracks
  · rw [if_neg same] at done
    rcases bind_ok.mp done with ⟨logger, mid, getting, setting⟩
    rcases tracks.getLogger getting with ⟨got, known⟩
    exact got.setUp known (setUp_ok got.managed setting)

theorem find_none {items : List LogDefine} {name : Text}
    (others : ∀ i ∈ items, i.name ≠ name) : items.find? (·.name = name) = none := by
  apply List.find?_eq_none.mpr
  intro i mem
  simpa using others i mem

theorem names_differ {i : LogDefine} {rest : List LogDefine}
    (first : ∀ j ∈ rest, i.name < j.name) : ∀ j ∈ rest, j.name ≠ i.name := by
  intro j mem same
  have before := first j mem
  rw [same] at before
  exact List.lt_irrefl _ before

theorem Tracks.configureAll {old_value : LogDefines} (items : List LogDefine)
    (sorted : items.Pairwise fun left right => left.name < right.name)
    (tracks : Tracks d current left h)
    (skip : ∀ i ∈ items, old_value.find i.name = some i → current i.name = some i)
    (done : forEach (Logging.configure d old_value) items held h = .ok ((), after)) :
    Tracks d (fun name => (items.find? (·.name = name)).or (current name))
      (fun name => match items.find? (·.name = name) with
        | some i => replaces i.formatter (left name)
        | none => left name) after := by
  -- each round sets one name of `current` and of `left`
  induction items generalizing h current left with
  | nil =>
      rcases forEach_nil done with rfl
      exact tracks
  | cons i rest ih =>
      rcases List.pairwise_cons.mp sorted with ⟨first, later⟩
      rcases forEach_cons done with ⟨mid, round, loop⟩
      have different := names_differ first
      have one := tracks.configure (skip i List.mem_cons_self) round
      have skipRest : ∀ j ∈ rest, old_value.find j.name = some j →
          Function.update current i.name (some i) j.name = some j := by
        intro j mem found
        rw [Function.update_of_ne (different j mem)]
        exact skip j (List.mem_cons_of_mem i mem) found
      have all := ih later one skipRest loop
      have currents : (fun name => ((i :: rest).find? (·.name = name)).or (current name)) =
          fun name => (rest.find? (·.name = name)).or
            (Function.update current i.name (some i) name) := by
        funext name
        by_cases same : i.name = name
        · subst same
          simp [find_none different]
        · simp [same, Function.update_of_ne (Ne.symm same)]
      have lefts : (fun name => match (i :: rest).find? (·.name = name) with
          | some j => replaces j.formatter (left name)
          | none => left name) = fun name => match rest.find? (·.name = name) with
          | some j => replaces j.formatter
              (Function.update left i.name (replaces i.formatter (left i.name)) name)
          | none => Function.update left i.name (replaces i.formatter (left i.name)) name := by
        funext name
        by_cases same : i.name = name
        · subst same
          simp [find_none different]
        · simp [same, Function.update_of_ne (Ne.symm same)]
      rw [currents, lefts]
      exact all

theorem Tracks.remove {new_value : LogDefines} (tracks : Tracks d new_value.find left h)
    {i : LogDefine} (done : remove new_value i held h = .ok ((), after)) :
    Tracks d new_value.find left after := by
  unfold Logging.remove at done
  cases found : new_value.find i.name with
  | some other =>
      rw [found] at done
      rcases pure_ok.mp done with ⟨_, rfl⟩
      exact tracks
  | none =>
      rw [found] at done
      rcases bind_ok.mp done with ⟨logger, mid, getting, shutting⟩
      rcases tracks.getLogger getting with ⟨got, known⟩
      exact got.shutDown found known shutting

theorem Tracks.removeAll {new_value : LogDefines} (items : List LogDefine)
    (tracks : Tracks d new_value.find left h)
    (done : forEach (Logging.remove new_value) items held h = .ok ((), after)) :
    Tracks d new_value.find left after := by
  induction items generalizing h with
  | nil =>
      rcases forEach_nil done with rfl
      exact tracks
  | cons i rest ih =>
      rcases forEach_cons done with ⟨mid, round, loop⟩
      exact ih (tracks.remove round) loop

theorem Tracks.listener {now : UInt64} {old_value new_value : LogDefines}
    (tracks : Tracks d old_value.find left h)
    (done : listener d now old_value new_value held h = .ok ((), after)) :
    Tracks d new_value.find (leaves new_value left) after := by
  rcases bind_ok.mp done with ⟨_, noted, logging, rest⟩
  have logged := keeps_logInfo now _ held h () noted tracks logging
  rcases bind_ok.mp rest with ⟨_, configured, adding, removing⟩
  -- the old definitions still hold of the loggers that are then emptied
  have all := logged.configureAll new_value.items new_value.sorted
    (fun i _ found => found) adding
  have fewer : Tracks d new_value.find (leaves new_value left) configured := by
    apply all.weaken
    intro name i found
    exact Option.or_eq_some_iff.mpr (Or.inl found)
  exact fewer.removeAll old_value.items removing

theorem Tracks.leaves_same {v : LogDefines} (tracks : Tracks d v.find left h) :
    leaves v left = left := by
  funext name
  unfold leaves
  cases found : v.find name with
  | none => rfl
  | some i => exact tracks.settled name i found

theorem Tracks.setValue {now : UInt64} {m_val v next : LogDefines}
    (tracks : Tracks d m_val.find left h)
    (done : setValue d now m_val v held h = .ok (next, after)) :
    next = v ∧ Tracks d v.find (leaves v left) after := by
  unfold Logging.setValue at done
  by_cases same : v = m_val
  · rw [if_pos same] at done
    rcases pure_ok.mp done with ⟨rfl, rfl⟩
    subst same
    rw [tracks.leaves_same]
    exact ⟨rfl, tracks⟩
  · rw [if_neg same] at done
    rcases bind_ok.mp done with ⟨_, mid, listening, returned⟩
    rcases pure_ok.mp returned with ⟨rfl, rfl⟩
    exact ⟨rfl, tracks.listener listening⟩

theorem Tracks.assign {m_val : LogDefines} (values : List (UInt64 × LogDefines))
    {now : UInt64} {last final : LogDefines} (tracks : Tracks d m_val.find left h)
    (done : assign d m_val (values ++ [(now, last)]) held h = .ok (final, after)) :
    Tracks d last.find (fun name =>
      leftPattern name (values.map Prod.snd ++ [last]) (left name)) after := by
  induction values generalizing h m_val left with
  | nil =>
      rcases bind_ok.mp done with ⟨next, mid, setting, returned⟩
      rcases pure_ok.mp returned with ⟨rfl, rfl⟩
      exact (tracks.setValue setting).2
  | cons value rest ih =>
      obtain ⟨time, v⟩ := value
      rcases bind_ok.mp done with ⟨next, mid, setting, later⟩
      rcases tracks.setValue setting with ⟨rfl, one⟩
      exact ih one later

end Listener

/-! The result. -/

section Result
variable {held : Held Lock} {h : Heap} {d : Bool}

/-- Before any value has been assigned. -/
theorem Managed.tracks (managed : Managed h) (d : Bool) :
    Tracks d LogDefines.empty.find h.patternOf h where
  managed := managed
  patterns _ := rfl
  settled _ _ found := by cases found
  configured _ _ found := by cases found

theorem find_item {v : LogDefines} {i : LogDefine} (mem : i ∈ v.items) :
    v.find i.name = some i := by
  obtain ⟨items, sorted⟩ := v
  change items.find? (·.name = i.name) = some i
  induction items with
  | nil => cases mem
  | cons j rest ih =>
      rcases List.pairwise_cons.mp sorted with ⟨first, later⟩
      rcases List.mem_cons.mp mem with rfl | tail
      · simp
      · have different := names_differ first i tail
        rw [List.find?_cons_of_neg (by simpa using different.symm)]
        exact ih later tail

theorem leftPattern_last {name : Text} {i : LogDefine} {last : LogDefines}
    (found : last.find name = some i) (values : List LogDefines) (pattern : Option Text) :
    leftPattern name (values ++ [last]) pattern =
      replaces i.formatter (leftPattern name values pattern) := by
  unfold leftPattern
  rw [List.foldl_append, List.foldl_cons, found]
  rfl

/-- What the logger of a definition in the last value is in the end. -/
theorem assign_config (managed : Managed h) {values : List (UInt64 × LogDefines)}
    {now : UInt64} {last final : LogDefines} {after : Heap}
    (done : assign d .empty (values ++ [(now, last)]) held h = .ok (final, after))
    {i : LogDefine} (mem : i ∈ last.items) :
    after.config i.name = some (i.view d (replaces i.formatter
      (leftPattern i.name (values.map Prod.snd) (h.patternOf i.name)))) := by
  have found := find_item mem
  have tracks := (managed.tracks d).assign values done
  rcases tracks.configured i.name i found with ⟨l, known, view, _⟩
  unfold Heap.config
  rw [known, Option.map_some, view, leftPattern_last found]

theorem assign_reached {program : Held Lock}
    (reached : Reach (managing program) anyStep h) {values : List (UInt64 × LogDefines)}
    {now : UInt64} {last final : LogDefines} {after : Heap}
    (done : assign d .empty (values ++ [(now, last)]) held h = .ok (final, after))
    {i : LogDefine} (mem : i ∈ last.items) :
    after.config i.name = some (i.view d (replaces i.formatter
      (leftPattern i.name (values.map Prod.snd) (h.patternOf i.name)))) :=
  assign_config (managed_reached reached) done mem

/-- A definition with a formatter of its own does not depend on what was left. -/
theorem view_eq_iff (i : LogDefine) (one two : Option Text) :
    i.view d (replaces i.formatter one) = i.view d (replaces i.formatter two) ↔
      (usable i.formatter = false → one = two) := by
  have patterns : i.view d (replaces i.formatter one) = i.view d (replaces i.formatter two) ↔
      replaces i.formatter one = replaces i.formatter two := by
    constructor
    · intro same
      exact congrArg LoggerView.pattern same
    · intro same
      rw [same]
  rw [patterns]
  unfold replaces
  cases usable i.formatter with
  | true => simp
  | false => simp

end Result

/-- Two sequences of values that end in the same one leave its loggers the same
if and only if they leave the same pattern to each of them whose definition has
no formatter of its own. -/
theorem configuration_history {held : Held Lock} {h one two : Heap} (managed : Managed h)
    (d : Bool) (first second : List (UInt64 × LogDefines)) (now later : UInt64)
    (last final other : LogDefines)
    (firstDone : assign d .empty (first ++ [(now, last)]) held h = .ok (final, one))
    (secondDone : assign d .empty (second ++ [(later, last)]) held h = .ok (other, two)) :
    (∀ i ∈ last.items, one.config i.name = two.config i.name) ↔
      ∀ i ∈ last.items, usable i.formatter = false →
        leftPattern i.name (first.map Prod.snd) (h.patternOf i.name) =
          leftPattern i.name (second.map Prod.snd) (h.patternOf i.name) := by
  have each : ∀ i ∈ last.items, one.config i.name = two.config i.name ↔
      (usable i.formatter = false →
        leftPattern i.name (first.map Prod.snd) (h.patternOf i.name) =
          leftPattern i.name (second.map Prod.snd) (h.patternOf i.name)) := by
    intro i mem
    rw [assign_config managed firstDone mem, assign_config managed secondDone mem,
      Option.some_inj, view_eq_iff]
  constructor
  · intro same i mem
    exact (each i mem).mp (same i mem)
  · intro same i mem
    exact (each i mem).mpr (same i mem)

/-! A logger that has been given a formatter once. -/

/-- The loggers after the manager was made, locks being ignored. -/
def started : Heap :=
  match LoggerManager.construct none {} with
  | .ok (_, h) => h
  | .error _ => {}

theorem started_managed : Managed started := by
  unfold started
  split
  · rename_i h done
    exact managed_construct done
  · exact managed_empty

def defines (formatter : String) : LogDefines where
  items := [{ name := "web".toList, level := .INFO, formatter := formatter.toList }]
  sorted := List.pairwise_singleton _ _

theorem ends_of {Value Error : Type} (result : Except Error Value)
    (ends : result.isOk = true) : ∃ value, result = .ok value := by
  cases result with
  | ok value => exact ⟨value, rfl⟩
  | error fault => cases ends

theorem configuration_history_formatted :
    ∃ one two : LogDefines × Heap,
      assign false .empty ([(0, defines "%m")] ++ [(1, defines "%p")]) (some []) started =
        .ok one ∧
      assign false .empty ([] ++ [(1, defines "%p")]) (some []) started = .ok two ∧
      ((∀ i ∈ (defines "%p").items, one.2.config i.name = two.2.config i.name) ↔
        ∀ i ∈ (defines "%p").items, usable i.formatter = false →
          leftPattern i.name [defines "%m"] (started.patternOf i.name) =
            leftPattern i.name [] (started.patternOf i.name)) := by
  obtain ⟨one, firstDone⟩ := ends_of
    (assign false .empty ([(0, defines "%m")] ++ [(1, defines "%p")]) (some []) started)
    (by decide +kernel)
  obtain ⟨two, secondDone⟩ := ends_of
    (assign false .empty ([] ++ [(1, defines "%p")]) (some []) started) (by decide +kernel)
  exact ⟨one, two, firstDone, secondDone, configuration_history started_managed false
    [(0, defines "%m")] [] 1 1 (defines "%p") one.1 two.1 firstDone secondDone⟩

/-- The formatter of an earlier value stays when the last one has none. -/
theorem configuration_remembers :
    ¬ ∀ (held : Held Lock) (h one two : Heap) (d : Bool)
      (first second : List (UInt64 × LogDefines)) (now later : UInt64)
      (last final other : LogDefines), Managed h → last ≠ .empty →
      assign d .empty (first ++ [(now, last)]) held h = .ok (final, one) →
      assign d .empty (second ++ [(later, last)]) held h = .ok (other, two) →
      ∀ i ∈ last.items, one.config i.name = two.config i.name := by
  intro always
  obtain ⟨⟨final, one⟩, firstDone⟩ := ends_of
    (assign false .empty ([(0, defines "%m")] ++ [(1, defines "")]) (some []) started)
    (by decide +kernel)
  obtain ⟨⟨other, two⟩, secondDone⟩ := ends_of
    (assign false .empty ([] ++ [(1, defines "")]) (some []) started) (by decide +kernel)
  have item : { name := "web".toList, level := .INFO } ∈ (defines "").items := List.mem_cons_self
  have same := always (some []) started one two false [(0, defines "%m")] [] 1 1 (defines "")
    final other started_managed (by decide) firstDone secondDone _ item
  rw [assign_config started_managed firstDone item, assign_config started_managed secondDone item,
    Option.some_inj, view_eq_iff] at same
  have left := same rfl
  revert left
  decide +kernel

end Ztyco.Logging
