import Ztyco.Lending
import Ztyco.LoggerEffects

/-!
Which formatter the appenders of a logger use. An appender keeps the formatter
it was given and the one its logger lent it in the same field; `m_hasFormatter`
is to tell them apart, and a logger that changes its formatter hands the new one
only to appenders without the flag. `addAppender` lends through `setFormatter`,
which sets the flag, so no appender in a list is ever without it and nothing is
handed down after the appender was added.
-/

namespace Ztyco.Logging

open ScopedLocks (Held)
open ScopedLocks.Call
open Transition

structure Observed where
  heap : Heap
  chosen : AppenderPtr → Option FormatterPtr := fun _ => none

def Observed.lending (o : Observed) : Lending LoggerPtr AppenderPtr FormatterPtr where
  current l := (o.heap.logger l).m_formatter
  children l := (o.heap.logger l).m_appenders
  effective a := (o.heap.appender a).m_formatter
  chosen := o.chosen

/-- The formatter last set on an appender by the program. -/
def Act.choice (chosen : AppenderPtr → Option FormatterPtr) :
    Act → AppenderPtr → Option FormatterPtr
  | .setAppenderFormatter a val => Function.update chosen a val
  | _ => chosen

def Act.formatted : Act → Bool
  | .setFormatter _ val | .setAppenderFormatter _ val => val.isSome
  | _ => true

structure Unused (o : Observed) : Prop where
  supplied : ∀ l, l < o.heap.loggers →
    ∃ p, p < o.heap.formatters ∧ (o.heap.logger l).m_formatter = some p
  unlisted : ∀ l, (o.heap.logger l).m_appenders = []
  bare : ∀ a, (o.heap.appender a).m_formatter = none ∧
    (o.heap.appender a).m_hasFormatter = false ∧ o.chosen a = none

def inheriting : Machine Observed Act where
  initial := Unused
  step o act :=
    if act.valid o.heap && act.formatted then
      (act.effect none o.heap).map fun heap => { heap := heap, chosen := act.choice o.chosen }
    else none

/-- Every appender of the list has the formatter it chose, or else the logger's. -/
def Inherits (o : Observed) : Prop :=
  ∀ l, ∀ a ∈ (o.heap.logger l).m_appenders, (o.heap.appender a).m_formatter ≠ none ∧
    (o.heap.appender a).m_formatter = match o.chosen a with
      | some p => some p
      | none => (o.heap.logger l).m_formatter

/-- The operations after which nothing would have to be handed down: a logger
keeps its formatter unless all its appenders chose theirs, and an appender that
comes with a formatter of another logger is not added. -/
def Act.Lends (o : Observed) : Act → Prop
  | .setFormatter l val => ∀ a ∈ (o.heap.logger l).m_appenders,
      o.chosen a ≠ none ∨ (o.heap.logger l).m_formatter = val
  | .setPattern l val => (LogFormatter.init val).any (!·.m_error) = true →
      ∀ a ∈ (o.heap.logger l).m_appenders, o.chosen a ≠ none
  | .addAppender l a => o.chosen a ≠ none ∨ (o.heap.appender a).m_formatter = none ∨
      (o.heap.appender a).m_formatter = (o.heap.logger l).m_formatter
  | _ => True

instance (o : Observed) (act : Act) : Decidable (act.Lends o) := by
  unfold Act.Lends
  split <;> infer_instance

/-- In every run an appender in a list has a formatter, and an appender with a
formatter has the flag. -/
structure Settled (o : Observed) : Prop where
  supplied : ∀ l, l < o.heap.loggers →
    ∃ p, p < o.heap.formatters ∧ (o.heap.logger l).m_formatter = some p
  unmadeLogger : ∀ l, o.heap.loggers ≤ l → (o.heap.logger l).m_appenders = []
  unmadeAppender : ∀ a, o.heap.appenders ≤ a →
    (o.heap.appender a).m_formatter = none ∧ (o.heap.appender a).m_hasFormatter = false
  flagged : ∀ a, (o.heap.appender a).m_formatter ≠ none →
    (o.heap.appender a).m_hasFormatter = true
  listed : ∀ l, ∀ a ∈ (o.heap.logger l).m_appenders, (o.heap.appender a).m_formatter ≠ none
  honest : ∀ a p, o.chosen a = some p → (o.heap.appender a).m_formatter = some p

/-! What each effect does to the lending. -/

section Effects
variable {o : Observed}

structure Alike (h other : Heap) : Prop where
  formatters : h.formatters ≤ other.formatters
  loggers : other.loggers = h.loggers
  appenders : h.appenders ≤ other.appenders
  current : ∀ l, (other.logger l).m_formatter = (h.logger l).m_formatter
  lists : ∀ l, (other.logger l).m_appenders = (h.logger l).m_appenders
  effective : ∀ a, (other.appender a).m_formatter = (h.appender a).m_formatter
  flags : ∀ a, (other.appender a).m_hasFormatter = (h.appender a).m_hasFormatter

theorem Alike.refl (h : Heap) : Alike h h :=
  ⟨Nat.le_refl _, rfl, Nat.le_refl _, fun _ => rfl, fun _ => rfl, fun _ => rfl, fun _ => rfl⟩

theorem Alike.setAppender {h other : Heap} (alike : Alike h other) (a : AppenderPtr)
    (appender : LogAppender) (formatter : appender.m_formatter = (other.appender a).m_formatter)
    (flag : appender.m_hasFormatter = (other.appender a).m_hasFormatter) :
    Alike h (other.setAppender a appender) := by
  refine ⟨alike.formatters, alike.loggers, alike.appenders, alike.current, alike.lists, ?_, ?_⟩
  · intro b
    rw [← alike.effective b]
    by_cases same : b = a
    · subst same
      simp [Heap.setAppender, formatter]
    · simp [Heap.setAppender, same]
  · intro b
    rw [← alike.flags b]
    by_cases same : b = a
    · subst same
      simp [Heap.setAppender, flag]
    · simp [Heap.setAppender, same]

theorem Alike.setLogger {h other : Heap} (alike : Alike h other) (l : LoggerPtr)
    (logger : Logger) (formatter : logger.m_formatter = (other.logger l).m_formatter)
    (list : logger.m_appenders = (other.logger l).m_appenders) :
    Alike h (other.setLogger l logger) := by
  refine ⟨alike.formatters, alike.loggers, alike.appenders, ?_, ?_, alike.effective, alike.flags⟩
  · intro k
    rw [← alike.current k]
    by_cases same : k = l
    · subst same
      simp [Heap.setLogger, formatter]
    · simp [Heap.setLogger, same]
  · intro k
    rw [← alike.lists k]
    by_cases same : k = l
    · subst same
      simp [Heap.setLogger, list]
    · simp [Heap.setLogger, same]

theorem alike_undisturbed (h : Heap) : Undisturbed (Alike h) := by
  constructor
  · intro other events alike
    exact ⟨alike.formatters, alike.loggers, alike.appenders, alike.current, alike.lists,
      alike.effective, alike.flags⟩
  · intro other a now alike
    exact alike.setAppender a _ rfl rfl

theorem Settled.alike (settled : Settled o) {heap : Heap} (alike : Alike o.heap heap) :
    Settled { o with heap := heap } := by
  constructor
  · intro l made
    rcases settled.supplied l (alike.loggers ▸ made) with ⟨p, known, supplied⟩
    exact ⟨p, Nat.lt_of_lt_of_le known alike.formatters, (alike.current l).trans supplied⟩
  · intro l unmade
    exact (alike.lists l).trans (settled.unmadeLogger l (alike.loggers ▸ unmade))
  · intro a unmade
    rcases settled.unmadeAppender a (Nat.le_trans alike.appenders unmade) with ⟨bare, unset⟩
    exact ⟨(alike.effective a).trans bare, (alike.flags a).trans unset⟩
  · intro a supplied
    exact (alike.flags a).trans (settled.flagged a (alike.effective a ▸ supplied))
  · intro l a listed
    change (heap.appender a).m_formatter ≠ none
    rw [alike.effective a]
    exact settled.listed l a (alike.lists l ▸ listed)
  · intro a p own
    exact (alike.effective a).trans (settled.honest a p own)

theorem lending_alike {heap : Heap} (alike : Alike o.heap heap) :
    ({ o with heap := heap } : Observed).lending = o.lending := by
  simp only [Observed.lending, alike.current, alike.lists, alike.effective]

theorem alike_addFormatter (h : Heap) (formatter : LogFormatter) :
    Alike h (h.addFormatter formatter) :=
  ⟨Nat.le_succ _, rfl, Nat.le_refl _, fun _ => rfl, fun _ => rfl, fun _ => rfl, fun _ => rfl⟩

theorem Settled.alike_addAppender (settled : Settled o) (kind : Kind) :
    Alike o.heap (o.heap.addAppender kind) := by
  rcases settled.unmadeAppender o.heap.appenders (Nat.le_refl _) with ⟨bare, unset⟩
  have made := (Alike.refl o.heap).setAppender o.heap.appenders { kind := kind }
    bare.symm unset.symm
  exact ⟨made.formatters, made.loggers, Nat.le_succ _, made.current, made.lists,
    made.effective, made.flags⟩

/-- Where only one logger's formatter is new, it has adopted that formatter. -/
theorem Settled.adopt (settled : Settled o) {heap : Heap} {l : LoggerPtr} {p : FormatterPtr}
    (known : p < o.heap.formatters) (formatters : heap.formatters = o.heap.formatters)
    (appender : heap.appender = o.heap.appender) (appenders : heap.appenders = o.heap.appenders)
    (grown : o.heap.loggers ≤ heap.loggers)
    (loggers : ∀ k, k < heap.loggers → k < o.heap.loggers ∨ k = l)
    (current : ∀ k, (heap.logger k).m_formatter = Function.update o.lending.current l (some p) k)
    (lists : ∀ k, (heap.logger k).m_appenders = (o.heap.logger k).m_appenders) :
    Settled { o with heap := heap } ∧
      ({ o with heap := heap } : Observed).lending = o.lending.apply (.adopt l p) := by
  constructor
  · constructor
    · intro k made
      change ∃ q, q < heap.formatters ∧ (heap.logger k).m_formatter = some q
      rw [current k, formatters]
      by_cases same : k = l
      · subst same
        exact ⟨p, known, Function.update_self _ _ _⟩
      · rw [Function.update_of_ne same]
        exact settled.supplied k ((loggers k made).resolve_right same)
    · intro k unmade
      exact (lists k).trans (settled.unmadeLogger k (Nat.le_trans grown unmade))
    · intro a unmade
      change (heap.appender a).m_formatter = none ∧ (heap.appender a).m_hasFormatter = false
      rw [appender]
      exact settled.unmadeAppender a (appenders ▸ unmade)
    · intro a
      change (heap.appender a).m_formatter ≠ none → (heap.appender a).m_hasFormatter = true
      rw [appender]
      exact settled.flagged a
    · intro k a listed
      change (heap.appender a).m_formatter ≠ none
      rw [appender]
      exact settled.listed k a (lists k ▸ listed)
    · intro a q own
      change (heap.appender a).m_formatter = some q
      rw [appender]
      exact settled.honest a q own
  · simp only [Observed.lending, Lending.apply, current, lists, appender]

theorem Settled.addLogger (settled : Settled o) {logger : Logger} {p : FormatterPtr}
    (known : p < o.heap.formatters) (formatter : logger.m_formatter = some p)
    (empty : logger.m_appenders = []) :
    Settled { o with heap := o.heap.addLogger logger } ∧
      ({ o with heap := o.heap.addLogger logger } : Observed).lending =
        o.lending.apply (.adopt o.heap.loggers p) := by
  apply settled.adopt known
  · rfl
  · rfl
  · rfl
  · exact Nat.le_succ _
  · intro k made
    exact Nat.lt_or_eq_of_le (Nat.le_of_lt_succ made)
  · intro k
    by_cases same : k = o.heap.loggers
    · subst same
      simp [Heap.addLogger, Heap.setLogger, formatter]
    · simp [Heap.addLogger, Heap.setLogger, same, Observed.lending]
  · intro k
    by_cases same : k = o.heap.loggers
    · subst same
      rw [settled.unmadeLogger o.heap.loggers (Nat.le_refl _)]
      simp [Heap.addLogger, Heap.setLogger, empty]
    · simp [Heap.addLogger, Heap.setLogger, same]

/-- No appender of a list is without the flag. -/
theorem Settled.reformatted_eq (settled : Settled o) (l : LoggerPtr) (val : Option FormatterPtr) :
    o.heap.reformatted l val = o.heap.setLogger l { o.heap.logger l with m_formatter := val } := by
  have none : ∀ a, ¬ (a ∈ (o.heap.logger l).m_appenders ∧
      (o.heap.appender a).m_hasFormatter = false) := by
    rintro a ⟨listed, unset⟩
    rw [settled.flagged a (settled.listed l a listed)] at unset
    cases unset
  have kept : ∀ a, (if a ∈ (o.heap.logger l).m_appenders ∧
      (o.heap.appender a).m_hasFormatter = false
      then { o.heap.appender a with m_formatter := val } else o.heap.appender a) =
        o.heap.appender a := fun a => if_neg (none a)
  exact congrArg (fun appender =>
    { o.heap.setLogger l { o.heap.logger l with m_formatter := val } with appender := appender })
    (funext kept)

theorem Settled.reformatted (settled : Settled o) (l : LoggerPtr) {p : FormatterPtr}
    (known : p < o.heap.formatters) :
    Settled { o with heap := o.heap.reformatted l (some p) } ∧
      ({ o with heap := o.heap.reformatted l (some p) } : Observed).lending =
        o.lending.apply (.adopt l p) := by
  rw [settled.reformatted_eq]
  apply settled.adopt known
  · rfl
  · rfl
  · rfl
  · exact Nat.le_refl _
  · intro k made
    exact Or.inl made
  · intro k
    by_cases same : k = l
    · subst same
      simp [Heap.setLogger]
    · simp [Heap.setLogger, same, Observed.lending]
  · intro k
    by_cases same : k = l
    · subst same
      simp [Heap.setLogger]
    · simp [Heap.setLogger, same]

theorem Settled.listed_of (settled : Settled o) {l : LoggerPtr} (made : l < o.heap.loggers)
    {rest : List AppenderPtr} (supplied : ∀ a ∈ rest, (o.heap.appender a).m_formatter ≠ none) :
    Settled { o with heap := o.heap.listed l rest } := by
  constructor
  · intro k known
    by_cases same : k = l
    · subst same
      simpa [Heap.listed, Heap.setLogger] using settled.supplied k known
    · simpa [Heap.listed, Heap.setLogger, same] using settled.supplied k known
  · intro k unmade
    have other : k ≠ l := Nat.ne_of_gt (Nat.lt_of_lt_of_le made unmade)
    simpa [Heap.listed, Heap.setLogger, other] using settled.unmadeLogger k unmade
  · exact settled.unmadeAppender
  · exact settled.flagged
  · intro k a listed
    by_cases same : k = l
    · subst same
      exact supplied a (by simpa [Heap.listed, Heap.setLogger] using listed)
    · apply settled.listed k a
      simpa [Heap.listed, Heap.setLogger, same] using listed
  · exact settled.honest

theorem lending_listed (l : LoggerPtr) (rest : List AppenderPtr) :
    ({ o with heap := o.heap.listed l rest } : Observed).lending =
      { o.lending with children := Function.update o.lending.children l rest } := by
  have current : ∀ k, ((o.heap.listed l rest).logger k).m_formatter =
      (o.heap.logger k).m_formatter := by
    intro k
    by_cases same : k = l
    · subst same
      simp [Heap.listed, Heap.setLogger]
    · simp [Heap.listed, Heap.setLogger, same]
  have lists : ∀ k, ((o.heap.listed l rest).logger k).m_appenders =
      Function.update o.lending.children l rest k := by
    intro k
    by_cases same : k = l
    · subst same
      simp [Heap.listed, Heap.setLogger]
    · simp [Heap.listed, Heap.setLogger, same, Observed.lending]
  simp only [Observed.lending, current, lists]
  rfl

theorem Settled.listed_keep (settled : Settled o) {l : LoggerPtr} (made : l < o.heap.loggers)
    {rest : List AppenderPtr} (old : ∀ a ∈ rest, a ∈ (o.heap.logger l).m_appenders) :
    Settled { o with heap := o.heap.listed l rest } ∧
      ({ o with heap := o.heap.listed l rest } : Observed).lending =
        o.lending.apply (.keep l rest) := by
  constructor
  · exact settled.listed_of made fun a mem => settled.listed l a (old a mem)
  · exact lending_listed l rest

theorem Settled.given (settled : Settled o) {a : AppenderPtr} (made : a < o.heap.appenders)
    (p : FormatterPtr) (chosen : AppenderPtr → Option FormatterPtr)
    (honest : ∀ b q, chosen b = some q →
      Function.update o.lending.effective a (some p) b = some q) :
    Settled { heap := o.heap.given a (some p), chosen := chosen } := by
  have effective : ∀ b, ((o.heap.given a (some p)).appender b).m_formatter =
      Function.update o.lending.effective a (some p) b := by
    intro b
    by_cases same : b = a
    · subst same
      simp [Heap.given, Heap.setAppender]
    · simp [Heap.given, Heap.setAppender, same, Observed.lending]
  constructor
  · exact settled.supplied
  · exact settled.unmadeLogger
  · intro b unmade
    have other : b ≠ a := Nat.ne_of_gt (Nat.lt_of_lt_of_le made unmade)
    simpa [Heap.given, Heap.setAppender, other] using settled.unmadeAppender b unmade
  · intro b
    by_cases same : b = a
    · subst same
      simp [Heap.given, Heap.setAppender]
    · simpa [Heap.given, Heap.setAppender, same] using settled.flagged b
  · intro l b listed
    rw [effective b]
    by_cases same : b = a
    · subst same
      simp
    · rw [Function.update_of_ne same]
      exact settled.listed l b listed
  · intro b q own
    exact (effective b).trans (honest b q own)

theorem lending_given (a : AppenderPtr) (val : Option FormatterPtr)
    (chosen : AppenderPtr → Option FormatterPtr) :
    ({ heap := o.heap.given a val, chosen := chosen } : Observed).lending =
      { o.lending with
        effective := Function.update o.lending.effective a val
        chosen := chosen } := by
  have effective : ∀ b, ((o.heap.given a val).appender b).m_formatter =
      Function.update o.lending.effective a val b := by
    intro b
    by_cases same : b = a
    · subst same
      simp [Heap.given, Heap.setAppender]
    · simp [Heap.given, Heap.setAppender, same, Observed.lending]
  simp only [Observed.lending, effective]
  rfl

theorem Settled.choose (settled : Settled o) {a : AppenderPtr} (made : a < o.heap.appenders)
    (p : FormatterPtr) :
    Settled { heap := o.heap.given a (some p), chosen := Function.update o.chosen a (some p) } ∧
      ({ heap := o.heap.given a (some p),
         chosen := Function.update o.chosen a (some p) } : Observed).lending =
        o.lending.apply (.choose a p) := by
  constructor
  · apply settled.given made p
    intro b q own
    by_cases same : b = a
    · subst same
      rwa [Function.update_self] at own ⊢
    · rw [Function.update_of_ne same] at own ⊢
      exact settled.honest b q own
  · exact lending_given a (some p) _

theorem Settled.listed_append (settled : Settled o) {l : LoggerPtr} {a : AppenderPtr}
    (made : l < o.heap.loggers) (supplied : (o.heap.appender a).m_formatter ≠ none) :
    Settled { o with heap := o.heap.listed l ((o.heap.logger l).m_appenders ++ [a]) } := by
  apply settled.listed_of made
  intro b mem
  rcases List.mem_append.mp mem with old | new
  · exact settled.listed l b old
  · rw [List.mem_singleton.mp new]
    exact supplied

theorem Settled.appended (settled : Settled o) {l : LoggerPtr} {a : AppenderPtr}
    (logger : l < o.heap.loggers) (made : a < o.heap.appenders) :
    Settled { o with heap := o.heap.appended l a } ∧
      ({ o with heap := o.heap.appended l a } : Observed).lending =
        o.lending.apply (.attach l a) := by
  rcases settled.supplied l logger with ⟨p, _, lent⟩
  cases found : (o.heap.appender a).m_formatter with
  | none =>
      have appended : o.heap.appended l a = (o.heap.given a (some p)).listed l
          ((o.heap.logger l).m_appenders ++ [a]) := by
        simp [Heap.appended, found, lent]
      have honest : ∀ b q, o.chosen b = some q →
          Function.update o.lending.effective a (some p) b = some q := by
        intro b q own
        have held := settled.honest b q own
        have other : b ≠ a := by
          rintro rfl
          rw [found] at held
          cases held
        rw [Function.update_of_ne other]
        exact held
      have supplied : ((o.heap.given a (some p)).appender a).m_formatter ≠ none := by
        simp [Heap.given, Heap.setAppender]
      have borrowed : (o.lending.effective a).or (o.lending.current l) = some p := by
        simp [Observed.lending, found, lent]
      rw [appended]
      constructor
      · exact (settled.given made p o.chosen honest).listed_append logger supplied
      · rw [Lending.apply, borrowed]
        refine (lending_listed (o := { o with heap := o.heap.given a (some p) }) l _).trans ?_
        rw [lending_given]
        rfl
  | some q =>
      have appended : o.heap.appended l a =
          o.heap.listed l ((o.heap.logger l).m_appenders ++ [a]) := by
        simp [Heap.appended, found]
      have kept : Function.update o.lending.effective a
          ((o.lending.effective a).or (o.lending.current l)) = o.lending.effective := by
        have own : (o.lending.effective a).or (o.lending.current l) = o.lending.effective a := by
          simp [Observed.lending, found]
        rw [own]
        exact Function.update_eq_self a o.lending.effective
      rw [appended]
      constructor
      · exact settled.listed_append logger (found ▸ Option.some_ne_none q)
      · rw [lending_listed, Lending.apply, kept]
        rfl

end Effects

/-! Every step is one change of the lending. -/

section Steps
variable {o after : Observed} {act : Act} {heap : Heap}

structure Moves (o : Observed) (act : Act) (after : Observed) : Prop where
  settled : Settled after
  change : ∃ change, o.lending.Proper change ∧ after.lending = o.lending.apply change ∧
    (o.lending.Allows change ↔ act.Lends o)

theorem Settled.still (settled : Settled o) (alike : Alike o.heap heap) (lends : act.Lends o) :
    Moves o act { o with heap := heap } := by
  constructor
  · exact settled.alike alike
  · refine ⟨.keep 0 (o.lending.children 0), fun a mem => mem, ?_, iff_of_true trivial lends⟩
    rw [lending_alike alike, Lending.apply, Function.update_eq_self]

theorem Settled.makeLogger_moves (settled : Settled o) {formatter : LogFormatter}
    {logger : Logger} (lent : logger.m_formatter = some o.heap.formatters)
    (empty : logger.m_appenders = [])
    (alike : Alike ((o.heap.addFormatter formatter).addLogger logger) heap)
    (lends : act.Lends o) : Moves o act { o with heap := heap } := by
  have kept := alike_addFormatter o.heap formatter
  have known : o.heap.formatters < (o.heap.addFormatter formatter).formatters :=
    Nat.lt_succ_self _
  rcases (settled.alike kept).addLogger known lent empty with ⟨made, adopted⟩
  rw [lending_alike kept] at adopted
  constructor
  · exact made.alike alike
  · refine ⟨.adopt o.heap.loggers o.heap.formatters, trivial, ?_, ?_⟩
    · exact (lending_alike
        (o := { o with heap := (o.heap.addFormatter formatter).addLogger logger }) alike).trans
        adopted
    · apply iff_of_true _ lends
      intro a listed
      rw [show o.lending.children o.heap.loggers = [] from
        settled.unmadeLogger o.heap.loggers (Nat.le_refl _)] at listed
      cases listed

theorem Settled.setFormatter_moves (settled : Settled o) {l : LoggerPtr} {p : FormatterPtr}
    (known : p < o.heap.formatters) :
    Moves o (.setFormatter l (some p)) { o with heap := o.heap.reformatted l (some p) } := by
  rcases settled.reformatted l known with ⟨after, adopted⟩
  exact ⟨after, .adopt l p, trivial, adopted, Iff.rfl⟩

theorem Settled.setPattern_moves (settled : Settled o) {l : LoggerPtr} {val : Text}
    {formatter : LogFormatter} (made : l < o.heap.loggers)
    (scanned : LogFormatter.init val = some formatter) :
    Moves o (.setPattern l val) { o with heap :=
      if formatter.m_error then o.heap.addFormatter formatter
      else (o.heap.addFormatter formatter).reformatted l (some o.heap.formatters) } := by
  have kept := alike_addFormatter o.heap formatter
  cases error : formatter.m_error with
  | true =>
      apply settled.still kept
      intro good
      simp [scanned, error] at good
  | false =>
      have known : o.heap.formatters < (o.heap.addFormatter formatter).formatters :=
        Nat.lt_succ_self _
      rcases (settled.alike kept).reformatted l known with ⟨after, adopted⟩
      rw [lending_alike kept] at adopted
      refine ⟨after, .adopt l o.heap.formatters, trivial, adopted, ?_⟩
      -- the formatter is a new one, so it is not the logger's
      rcases settled.supplied l made with ⟨p, old, lent⟩
      have fresh : o.lending.current l ≠ some o.heap.formatters := by
        intro same
        rw [show o.lending.current l = some p from lent] at same
        exact Nat.ne_of_lt old (Option.some.inj same)
      constructor
      · intro allowed _ a listed
        exact (allowed a listed).resolve_right fresh
      · intro lends a listed
        left
        exact lends (by simp [scanned, error]) a listed

theorem Settled.moves (settled : Settled o) (valid : act.valid o.heap = true)
    (formatted : act.formatted = true) (done : act.op none o.heap = .ok ((), heap)) :
    Moves o act { heap := heap, chosen := act.choice o.chosen } := by
  have quiet : Keeps (Alike o.heap) act.op → act.Lends o → Moves o act { o with heap := heap } := by
    intro keeps lends
    exact settled.still (keeps none o.heap () heap (Alike.refl _) done) lends
  have undisturbed := alike_undisturbed o.heap
  cases act with
  | newFormatter pattern =>
      rcases ignore_ok done with ⟨p, made⟩
      rcases makeFormatter_ok made with ⟨formatter, _, _, rfl⟩
      exact settled.still (alike_addFormatter _ _) trivial
  | newAppender kind =>
      rcases ignore_ok done with ⟨a, made⟩
      rcases makeAppender_ok made with ⟨_, rfl⟩
      exact settled.still (settled.alike_addAppender kind) trivial
  | newLogger name =>
      rcases ignore_ok done with ⟨l, made⟩
      rcases makeLogger_ok made with ⟨formatter, _, _, rfl⟩
      exact settled.makeLogger_moves rfl rfl (Alike.refl _) trivial
  | getLogger name =>
      rcases ignore_ok done with ⟨l, got⟩
      rcases getLogger_ok got with ⟨_, rfl⟩ | ⟨_, _, formatter, _, rfl⟩
      · exact settled.still (Alike.refl _) trivial
      · have named := Alike.refl ((o.heap.addFormatter formatter).addLogger
          { m_name := name, m_formatter := some o.heap.formatters, m_root := some o.heap.m_root })
        exact settled.makeLogger_moves rfl rfl
          ⟨named.formatters, named.loggers, named.appenders, named.current, named.lists,
            named.effective, named.flags⟩ trivial
  | managerYaml => exact quiet (keeps_ignore keeps_managerYaml) trivial
  | setLevel l level =>
      rcases setLevel_ok done with rfl
      exact settled.still ((Alike.refl _).setLogger l _ rfl rfl) trivial
  | getFormatter l => exact quiet (keeps_ignore (keeps_getFormatter l)) trivial
  | setFormatter l val =>
      cases val with
      | none => cases formatted
      | some p =>
          rcases setFormatter_ok done with rfl
          have known : p < o.heap.formatters := by
            simpa using (Bool.and_eq_true_iff.mp valid).2
          exact settled.setFormatter_moves known
  | setPattern l val =>
      rcases setPattern_ok done with ⟨formatter, scanned, rfl⟩
      exact settled.setPattern_moves (of_decide_eq_true valid) scanned
  | addAppender l a =>
      rcases addAppender_ok done with rfl
      rcases Bool.and_eq_true_iff.mp valid with ⟨logger, made⟩
      rcases settled.appended (of_decide_eq_true logger) (of_decide_eq_true made) with
        ⟨after, attached⟩
      rcases settled.supplied l (of_decide_eq_true logger) with ⟨p, _, lent⟩
      have supplied : o.lending.current l ≠ none := Option.ne_none_iff_exists'.mpr ⟨p, lent⟩
      exact ⟨after, .attach l a, supplied, attached, Iff.rfl⟩
  | delAppender l a =>
      rcases delAppender_ok done with rfl
      rcases Bool.and_eq_true_iff.mp valid with ⟨logger, _⟩
      have old : ∀ b ∈ (o.heap.logger l).m_appenders.erase a, b ∈ (o.heap.logger l).m_appenders :=
        fun b mem => List.mem_of_mem_erase mem
      rcases settled.listed_keep (of_decide_eq_true logger) old with ⟨after, kept⟩
      exact ⟨after, .keep l _, old, kept, Iff.rfl⟩
  | clearAppender l =>
      rcases clearAppender_ok done with rfl
      have old : ∀ b ∈ ([] : List AppenderPtr), b ∈ (o.heap.logger l).m_appenders :=
        fun b mem => absurd mem List.not_mem_nil
      rcases settled.listed_keep (of_decide_eq_true valid) old with ⟨after, kept⟩
      exact ⟨after, .keep l [], old, kept, Iff.rfl⟩
  | log l event => exact quiet (keeps_log undisturbed 2 l event) trivial
  | loggerYaml l => exact quiet (keeps_ignore (keeps_loggerYaml l)) trivial
  | setAppenderLevel a level =>
      rcases setAppenderLevel_ok done with rfl
      exact settled.still ((Alike.refl _).setAppender a _ rfl rfl) trivial
  | getAppenderFormatter a =>
      exact quiet (keeps_ignore (keeps_getAppenderFormatter a)) trivial
  | setAppenderFormatter a val =>
      cases val with
      | none => cases formatted
      | some p =>
          rcases setAppenderFormatter_ok done with rfl
          rcases Bool.and_eq_true_iff.mp valid with ⟨made, _⟩
          rcases settled.choose (of_decide_eq_true made) p with ⟨after, chosen⟩
          exact ⟨after, .choose a p, trivial, chosen, Iff.rfl⟩
  | appenderLog a event => exact quiet (keeps_appenderLog undisturbed a event) trivial
  | reopen a => exact quiet (keeps_ignore (keeps_reopen a)) trivial
  | appenderYaml a => exact quiet (keeps_ignore (keeps_appenderYaml a)) trivial

theorem inherits_lending : Inherits o ↔ o.lending.Inherits := by
  have effective : ∀ l a, (match o.chosen a with
      | some p => some p
      | none => (o.heap.logger l).m_formatter) =
        (o.lending.chosen a).or (o.lending.current l) := by
    intro l a
    change _ = (o.chosen a).or _
    cases o.chosen a with
    | none => rfl
    | some p => rfl
  constructor
  · intro inherits l a listed
    exact effective l a ▸ inherits l a listed
  · intro inherits l a listed
    exact (effective l a).symm ▸ inherits l a listed

theorem Settled.step (settled : Settled o) (moved : inheriting.step o act = some after) :
    Moves o act after := by
  simp only [inheriting] at moved
  split at moved
  · rename_i guard
    rcases Option.map_eq_some_iff.mp moved with ⟨heap, done, rfl⟩
    rcases Bool.and_eq_true_iff.mp guard with ⟨valid, formatted⟩
    exact settled.moves valid formatted (effect_ok done)
  · cases moved

theorem Unused.settled (unused : Unused o) : Settled o where
  supplied := unused.supplied
  unmadeLogger l _ := unused.unlisted l
  unmadeAppender a _ := ⟨(unused.bare a).1, (unused.bare a).2.1⟩
  flagged a supplied := absurd (unused.bare a).1 supplied
  listed l a listed := by
    rw [unused.unlisted l] at listed
    cases listed
  honest a p own := by
    rw [(unused.bare a).2.2] at own
    cases own

theorem reach_settled {allowed : Observed → Act → Prop} (reached : Reach inheriting allowed o) :
    Settled o := by
  apply reached.invariant Settled
  · intro o unused
    exact unused.settled
  · intro before act after _ settled _ moved
    exact (settled.step moved).settled

/-- A step keeps the rule just where it lends nothing later. -/
theorem Settled.step_inherits (settled : Settled o) (inherits : Inherits o)
    (moved : inheriting.step o act = some after) : Inherits after ↔ act.Lends o := by
  rcases (settled.step moved).change with ⟨change, proper, applied, allows⟩
  rw [inherits_lending, applied, ← allows]
  exact Lending.apply_inherits (inherits_lending.mp inherits) settled.honest proper

end Steps

/-- In every run whose operations meet `Act.Lends`, the appenders in a list use
the formatter they chose or else their logger's; and an operation that does not
meet it breaks this. -/
theorem formatter_inherited {o : Observed}
    (reached : Reach inheriting (fun o act => act.Lends o) o) :
    Inherits o ∧ ∀ act after, inheriting.step o act = some after →
      (Inherits after ↔ act.Lends o) := by
  have inherits : Inherits o := by
    apply reached.invariant Inherits
    · intro o unused l a listed
      rw [unused.unlisted l] at listed
      cases listed
    · intro before act after prior inherits lends moved
      exact ((reach_settled prior).step_inherits inherits moved).mpr lends
  exact ⟨inherits, fun act after moved => (reach_settled reached).step_inherits inherits moved⟩

def rootAlone : Observed where
  heap :=
    { formatters := 1
      loggers := 1
      logger := fun _ => { m_formatter := some 0 } }

theorem rootAlone_unused : Unused rootAlone where
  supplied _ _ := ⟨0, Nat.one_pos, rfl⟩
  unlisted _ := rfl
  bare _ := ⟨rfl, rfl, rfl⟩

theorem formatter_inherited_chosen :
    ∃ o, run inheriting rootAlone
        [.newAppender .stdout, .newFormatter "%m".toList, .setAppenderFormatter 0 (some 1),
          .addAppender 0 0, .newFormatter "%p".toList, .setFormatter 0 (some 2)] = some o ∧
      (Inherits o ∧ ∀ act after, inheriting.step o act = some after →
        (Inherits after ↔ act.Lends o)) :=
  run_meets (fun o act => act.Lends o) rootAlone_unused (by decide) (by decide)
    fun _ reached => formatter_inherited reached

/-- An appender is added, and its logger changes the formatter. -/
theorem formatter_not_handed_down :
    ¬ ∀ o, Reach inheriting anyStep o → Inherits o := by
  intro always
  rcases reach_where inheriting anyStep rootAlone
    [.newAppender .stdout, .addAppender 0 0, .newFormatter "%m".toList, .setFormatter 0 (some 1)]
    (fun o => (o.heap.logger 0).m_appenders = [0] && (o.heap.logger 0).m_formatter = some 1 &&
      (o.heap.appender 0).m_formatter = some 0 && o.chosen 0 = none)
    rootAlone_unused (by decide) (by decide) with ⟨o, reached, ends⟩
  simp only [Bool.and_eq_true, decide_eq_true_eq] at ends
  rcases ends with ⟨⟨⟨listed, current⟩, kept⟩, unchosen⟩
  have inherited := (always o reached 0 0 (by simp [listed])).2
  rw [kept, unchosen] at inherited
  rw [current] at inherited
  cases inherited

end Ztyco.Logging
