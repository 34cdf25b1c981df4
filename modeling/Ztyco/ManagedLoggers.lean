import Ztyco.LoggerEffects

/-!
What is true of the objects of any program: the manager's names are of different
loggers that have been made, formatters that are used have been made, and so
have the appenders in the lists.
-/

namespace Ztyco.Logging

open ScopedLocks (Held)
open ScopedLocks.Call
open Transition

structure Managed (h : Heap) : Prop where
  known : ∀ name l, h.m_loggers.lookup name = some l → l < h.loggers
  distinct : ∀ left right l, h.m_loggers.lookup left = some l →
    h.m_loggers.lookup right = some l → left = right
  current : ∀ l p, (h.logger l).m_formatter = some p → p < h.formatters
  effective : ∀ a p, (h.appender a).m_formatter = some p → p < h.formatters
  made : ∀ l, ∀ a ∈ (h.logger l).m_appenders, a < h.appenders

section Managed
variable {h : Heap}

theorem managed_empty : Managed {} where
  known _ _ found := by cases found
  distinct _ _ _ found := by cases found
  current _ _ found := by cases found
  effective _ _ found := by cases found
  made _ _ mem := by cases mem

theorem Managed.addFormatter (managed : Managed h) (formatter : LogFormatter) :
    Managed (h.addFormatter formatter) where
  known := managed.known
  distinct := managed.distinct
  current l p found := Nat.lt_succ_of_lt (managed.current l p found)
  effective a p found := Nat.lt_succ_of_lt (managed.effective a p found)
  made := managed.made

theorem Managed.setLogger (managed : Managed h) (l : LoggerPtr) {logger : Logger}
    (current : ∀ p, logger.m_formatter = some p → p < h.formatters)
    (made : ∀ a ∈ logger.m_appenders, a < h.appenders) : Managed (h.setLogger l logger) where
  known := managed.known
  distinct := managed.distinct
  current k p found := by
    by_cases same : k = l
    · subst same
      exact current p (by simpa [Heap.setLogger] using found)
    · apply managed.current k p
      simpa [Heap.setLogger, same] using found
  effective := managed.effective
  made k a mem := by
    by_cases same : k = l
    · subst same
      exact made a (by simpa [Heap.setLogger] using mem)
    · apply managed.made k a
      simpa [Heap.setLogger, same] using mem

theorem Managed.setAppender (managed : Managed h) (a : AppenderPtr) {appender : LogAppender}
    (effective : ∀ p, appender.m_formatter = some p → p < h.formatters) :
    Managed (h.setAppender a appender) where
  known := managed.known
  distinct := managed.distinct
  current := managed.current
  effective b p found := by
    by_cases same : b = a
    · subst same
      exact effective p (by simpa [Heap.setAppender] using found)
    · apply managed.effective b p
      simpa [Heap.setAppender, same] using found
  made := managed.made

theorem Managed.addAppender (managed : Managed h) (kind : Kind) : Managed (h.addAppender kind) := by
  have set : Managed (h.setAppender h.appenders { kind := kind }) := by
    apply managed.setAppender
    intro p found
    cases found
  exact ⟨set.known, set.distinct, set.current, set.effective,
    fun l a mem => Nat.lt_succ_of_lt (set.made l a mem)⟩

theorem Managed.addLogger (managed : Managed h) {logger : Logger}
    (current : ∀ p, logger.m_formatter = some p → p < h.formatters)
    (empty : logger.m_appenders = []) : Managed (h.addLogger logger) := by
  have set : Managed (h.setLogger h.loggers logger) := by
    apply managed.setLogger h.loggers current
    intro a mem
    rw [empty] at mem
    cases mem
  exact ⟨fun name l found => Nat.lt_succ_of_lt (set.known name l found), set.distinct,
    set.current, set.effective, set.made⟩

theorem lookup_entry (key : Text) (l : LoggerPtr) (rest : List (Text × LoggerPtr))
    (name : Text) :
    ((key, l) :: rest).lookup name = if name = key then some l else rest.lookup name := by
  by_cases same : name = key
  · subst same
    rw [List.lookup_cons_self, if_pos rfl]
  · rw [List.lookup_cons, beq_eq_false_iff_ne.mpr same, if_neg same]

theorem lookup_insert (name : Text) (l : LoggerPtr) (m_loggers : List (Text × LoggerPtr))
    (other : Text) : (LoggerManager.insert name l m_loggers).lookup other =
      if other = name then some l else m_loggers.lookup other := by
  induction m_loggers with
  | nil => exact lookup_entry name l [] other
  | cons entry rest ih =>
      obtain ⟨key, k⟩ := entry
      unfold LoggerManager.insert
      by_cases before : key < name
      · rw [if_pos before, lookup_entry, lookup_entry, ih]
        by_cases found : other = key
        · have different : other ≠ name := by
            rintro rfl
            exact List.lt_irrefl _ (found ▸ before)
          rw [if_pos found, if_neg different, if_pos found]
        · rw [if_neg found, if_neg found]
      · rw [if_neg before]
        by_cases here : key = name
        · subst here
          rw [if_pos rfl, lookup_entry, lookup_entry]
          by_cases same : other = key
          · rw [if_pos same, if_pos same]
          · rw [if_neg same, if_neg same, if_neg same]
        · rw [if_neg here, lookup_entry]

/-- A name that was not known gets a logger that nobody had. -/
theorem Managed.name (managed : Managed h) {name : Text} {l : LoggerPtr} (made : l < h.loggers)
    (fresh : ∀ other, h.m_loggers.lookup other ≠ some l) :
    Managed { h with m_loggers := LoggerManager.insert name l h.m_loggers } where
  known other k found := by
    rw [lookup_insert] at found
    split at found
    · cases found
      exact made
    · exact managed.known other k found
  distinct left right k one two := by
    rw [lookup_insert] at one two
    split at one
    · rename_i first
      split at two
      · rename_i second
        rw [first, second]
      · cases one
        exact absurd two (fresh right)
    · split at two
      · cases two
        exact absurd one (fresh left)
      · exact managed.distinct left right k one two
  current := managed.current
  effective := managed.effective
  made := managed.made

theorem Managed.handed (managed : Managed h) {val : Option FormatterPtr}
    (known : ∀ p, val = some p → p < h.formatters) (items : List AppenderPtr) :
    Managed (h.handed val items) where
  known := managed.known
  distinct := managed.distinct
  current := managed.current
  effective a p found := by
    change (if a ∈ items ∧ (h.appender a).m_hasFormatter = false
      then { h.appender a with m_formatter := val } else h.appender a).m_formatter = some p at found
    split at found
    · exact known p found
    · exact managed.effective a p found
  made := managed.made

theorem Managed.given (managed : Managed h) (a : AppenderPtr) {val : Option FormatterPtr}
    (known : ∀ p, val = some p → p < h.formatters) : Managed (h.given a val) :=
  managed.setAppender a known

theorem Managed.reformatted (managed : Managed h) (l : LoggerPtr) {val : Option FormatterPtr}
    (known : ∀ p, val = some p → p < h.formatters) : Managed (h.reformatted l val) := by
  have set : Managed (h.setLogger l { h.logger l with m_formatter := val }) :=
    managed.setLogger l known (managed.made l)
  exact set.handed known _

theorem Managed.listed (managed : Managed h) (l : LoggerPtr) {m_appenders : List AppenderPtr}
    (made : ∀ a ∈ m_appenders, a < h.appenders) : Managed (h.listed l m_appenders) :=
  managed.setLogger l (managed.current l) made

@[simp] theorem appended_loggers (l : LoggerPtr) (a : AppenderPtr) :
    (h.appended l a).loggers = h.loggers := by
  unfold Heap.appended
  split <;> rfl

@[simp] theorem appended_root (l : LoggerPtr) (a : AppenderPtr) :
    (h.appended l a).m_root = h.m_root := by
  unfold Heap.appended
  split <;> rfl

@[simp] theorem appended_names (l : LoggerPtr) (a : AppenderPtr) :
    (h.appended l a).m_loggers = h.m_loggers := by
  unfold Heap.appended
  split <;> rfl

theorem Managed.appended (managed : Managed h) (l : LoggerPtr) {a : AppenderPtr}
    (made : a < h.appenders) : Managed (h.appended l a) := by
  have listed : ∀ b ∈ (h.logger l).m_appenders ++ [a], b < h.appenders := by
    intro b mem
    rcases List.mem_append.mp mem with old | new
    · exact managed.made l b old
    · rw [List.mem_singleton.mp new]
      exact made
  unfold Heap.appended
  split
  · exact (managed.given a (managed.current l)).listed l listed
  · exact managed.listed l listed

theorem managed_undisturbed : Undisturbed Managed where
  written _ _ managed :=
    ⟨managed.known, managed.distinct, managed.current, managed.effective, managed.made⟩
  lastTime _ a _ managed := managed.setAppender a (managed.effective a)

/-! The operations that make something. -/

variable {held : Held Lock} {after : Heap}

theorem Managed.makeLogger (managed : Managed h) (formatter : LogFormatter) {logger : Logger}
    (current : logger.m_formatter = some h.formatters) (empty : logger.m_appenders = []) :
    Managed ((h.addFormatter formatter).addLogger logger) := by
  apply (managed.addFormatter formatter).addLogger _ empty
  intro p found
  rw [current] at found
  cases found
  exact Nat.lt_succ_self _

theorem managed_getLogger {name : Text} {l : LoggerPtr} (managed : Managed h)
    (done : LoggerManager.getLogger name held h = .ok (l, after)) : Managed after := by
  rcases getLogger_ok done with ⟨_, rfl⟩ | ⟨_, rfl, formatter, _, rfl⟩
  · exact managed
  · have made : Managed ((h.addFormatter formatter).addLogger
        { m_name := name, m_formatter := some h.formatters, m_root := some h.m_root }) :=
      managed.makeLogger formatter rfl rfl
    apply made.name (Nat.lt_succ_self _)
    intro other found
    exact Nat.lt_irrefl _ (managed.known other _ found)

theorem managed_setPattern {l : LoggerPtr} {val : Text} (managed : Managed h)
    (done : Logger.setPattern l val held h = .ok ((), after)) : Managed after := by
  rcases setPattern_ok done with ⟨formatter, _, rfl⟩
  split
  · exact managed.addFormatter formatter
  · apply (managed.addFormatter formatter).reformatted
    intro p found
    cases found
    exact Nat.lt_succ_self _

/-- Whatever a program does with pointers it has. -/
theorem managed_op {act : Act} (managed : Managed h) (valid : act.valid h = true)
    (done : act.op held h = .ok ((), after)) : Managed after := by
  have quiet : Keeps Managed act.op → Managed after := fun keeps =>
    keeps held h () after managed done
  have undisturbed := managed_undisturbed
  cases act with
  | newFormatter pattern =>
      rcases ignore_ok done with ⟨p, made⟩
      rcases makeFormatter_ok made with ⟨formatter, _, _, rfl⟩
      exact managed.addFormatter formatter
  | newAppender kind =>
      rcases ignore_ok done with ⟨a, made⟩
      rcases makeAppender_ok made with ⟨_, rfl⟩
      exact managed.addAppender kind
  | newLogger name =>
      rcases ignore_ok done with ⟨l, made⟩
      rcases makeLogger_ok made with ⟨formatter, _, _, rfl⟩
      exact managed.makeLogger formatter rfl rfl
  | getLogger name =>
      rcases ignore_ok done with ⟨l, got⟩
      exact managed_getLogger managed got
  | managerYaml => exact quiet (keeps_ignore keeps_managerYaml)
  | setLevel l level =>
      rcases setLevel_ok done with rfl
      exact managed.setLogger l (managed.current l) (managed.made l)
  | getFormatter l => exact quiet (keeps_ignore (keeps_getFormatter l))
  | setFormatter l val =>
      rcases setFormatter_ok done with rfl
      apply managed.reformatted
      intro p found
      subst found
      simpa using (Bool.and_eq_true_iff.mp valid).2
  | setPattern l val => exact managed_setPattern managed done
  | addAppender l a =>
      rcases addAppender_ok done with rfl
      exact managed.appended l (of_decide_eq_true (Bool.and_eq_true_iff.mp valid).2)
  | delAppender l a =>
      rcases delAppender_ok done with rfl
      exact managed.listed l fun b mem => managed.made l b (List.mem_of_mem_erase mem)
  | clearAppender l =>
      rcases clearAppender_ok done with rfl
      exact managed.listed l fun b mem => absurd mem List.not_mem_nil
  | log l event => exact quiet (keeps_log undisturbed 2 l event)
  | loggerYaml l => exact quiet (keeps_ignore (keeps_loggerYaml l))
  | setAppenderLevel a level =>
      rcases setAppenderLevel_ok done with rfl
      exact managed.setAppender a (managed.effective a)
  | getAppenderFormatter a => exact quiet (keeps_ignore (keeps_getAppenderFormatter a))
  | setAppenderFormatter a val =>
      rcases setAppenderFormatter_ok done with rfl
      apply managed.given
      intro p found
      subst found
      simpa using (Bool.and_eq_true_iff.mp valid).2
  | appenderLog a event => exact quiet (keeps_appenderLog undisturbed a event)
  | reopen a => exact quiet (keeps_ignore (keeps_reopen a))
  | appenderYaml a => exact quiet (keeps_ignore (keeps_appenderYaml a))

theorem Managed.rooted (managed : Managed h) (m_root : LoggerPtr) :
    Managed { h with m_root := m_root } :=
  ⟨managed.known, managed.distinct, managed.current, managed.effective, managed.made⟩

theorem managed_construct (done : LoggerManager.construct held {} = .ok ((), after)) :
    Managed after := by
  rcases bind_ok.mp done with ⟨m_root, one, making, rest⟩
  rcases makeLogger_ok making with ⟨formatter, _, rfl, rfl⟩
  rcases bind_ok.mp rest with ⟨_, two, naming, adding⟩
  rcases modify_ok.mp naming with rfl
  rcases bind_ok.mp adding with ⟨stdout, three, appender, listing⟩
  rcases makeAppender_ok appender with ⟨rfl, rfl⟩
  rcases bind_ok.mp listing with ⟨_, four, added, inserting⟩
  rcases addAppender_ok added with rfl
  rcases modify_ok.mp inserting with rfl
  have made : Managed ((Heap.addFormatter {} formatter).addLogger
      { m_name := "root".toList, m_formatter := some 0 }) :=
    managed_empty.makeLogger formatter rfl rfl
  have rooted := (made.rooted 0).addAppender .stdout
  have listed := rooted.appended 0 (Nat.lt_succ_self 0)
  apply listed.name
  · rw [appended_loggers, appended_root]
    exact Nat.one_pos
  · intro other found
    rw [appended_names] at found
    cases found

/-- Programs: the manager is made, and then come operations that end. -/
def managing (held : Held Lock) : Machine Heap Act where
  initial h := LoggerManager.construct held {} = .ok ((), h)
  step h act := if act.valid h then act.effect held h else none

theorem managed_reached (reached : Reach (managing held) anyStep h) : Managed h := by
  apply reached.invariant Managed
  · intro h done
    exact managed_construct done
  · intro before act after _ managed _ moved
    simp only [managing] at moved
    split at moved
    · rename_i valid
      exact managed_op managed valid (effect_ok moved)
    · cases moved

end Managed

end Ztyco.Logging
