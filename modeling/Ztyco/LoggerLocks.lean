import Ztyco.LoggerEffects

/-!
Which locks a logging operation takes while its own callers hold them. Locks
are nested manager, logger, root logger, appender, and the root of a logger has
no root itself, so no chain meets a lock twice, but for one: `addAppender`
lends its formatter through `setFormatter` while it holds the appender.
-/

namespace Ztyco.Logging

open ScopedLocks (Held Fault)
open ScopedLocks.Call
open Transition

/-- The manager's root and the root of any logger have been made, and have no
root themselves. -/
structure Rooted (h : Heap) : Prop where
  manager : h.m_root < h.loggers ∧ (h.logger h.m_root).m_root = none
  roots : ∀ l r, (h.logger l).m_root = some r → r < h.loggers ∧ (h.logger r).m_root = none

/-- Runs of operations on any objects, the locks being held as given at first. -/
def logging (held : Held Lock) : Machine Heap Act where
  initial h := Rooted h
  step h act := if act.valid h then act.effect held h else none

def Act.Supplied (h : Heap) : Act → Prop
  | .addAppender _ a => (h.appender a).m_formatter ≠ none
  | _ => True

/-! What is kept. -/

section Roots
variable {h other : Heap}

theorem Rooted.frame (rooted : Rooted h) (logger : other.logger = h.logger)
    (loggers : other.loggers = h.loggers) (m_root : other.m_root = h.m_root) : Rooted other := by
  constructor
  · rw [logger, loggers, m_root]
    exact rooted.manager
  · rw [logger, loggers]
    exact rooted.roots

theorem Rooted.setLogger (rooted : Rooted h) (l : LoggerPtr) (logger : Logger)
    (same : logger.m_root = (h.logger l).m_root) : Rooted (h.setLogger l logger) := by
  have roots : ∀ k, ((h.setLogger l logger).logger k).m_root = (h.logger k).m_root := by
    intro k
    by_cases equal : k = l
    · subst equal
      simp [Heap.setLogger, same]
    · simp [Heap.setLogger, equal]
  constructor
  · constructor
    · exact rooted.manager.1
    · rw [roots]
      exact rooted.manager.2
  · intro k r found
    rw [roots] at found
    rw [roots]
    exact rooted.roots k r found

theorem Rooted.addLogger (rooted : Rooted h) {logger : Logger}
    (root : ∀ r, logger.m_root = some r → r = h.m_root) : Rooted (h.addLogger logger) := by
  have old : ∀ r, r < h.loggers → (h.addLogger logger).logger r = h.logger r := fun r below =>
    Function.update_of_ne (Nat.ne_of_lt below) _ _
  have manager : h.m_root < h.loggers + 1 ∧
      ((h.addLogger logger).logger h.m_root).m_root = none := by
    constructor
    · exact Nat.lt_succ_of_lt rooted.manager.1
    · rw [old _ rooted.manager.1]
      exact rooted.manager.2
  constructor
  · exact manager
  · intro k r found
    by_cases equal : k = h.loggers
    · subst equal
      have known : logger.m_root = some r := by simpa [Heap.addLogger, Heap.setLogger] using found
      rw [root r known]
      exact manager
    · have known : (h.logger k).m_root = some r := by
        simpa [Heap.addLogger, Heap.setLogger, equal] using found
      rcases rooted.roots k r known with ⟨made, rootless⟩
      constructor
      · exact Nat.lt_succ_of_lt made
      · rw [old r made]
        exact rootless

theorem Rooted.makeLogger (rooted : Rooted h) (formatter : LogFormatter) {logger : Logger}
    (root : ∀ r, logger.m_root = some r → r = h.m_root) :
    Rooted ((h.addFormatter formatter).addLogger logger) := by
  have added : Rooted (h.addFormatter formatter) := rooted.frame rfl rfl rfl
  exact added.addLogger root

theorem Rooted.reformatted (rooted : Rooted h) (l : LoggerPtr) (val : Option FormatterPtr) :
    Rooted (h.reformatted l val) := by
  have set : Rooted (h.setLogger l { h.logger l with m_formatter := val }) :=
    rooted.setLogger l _ rfl
  exact set.frame rfl rfl rfl

theorem Rooted.listed (rooted : Rooted h) (l : LoggerPtr) (m_appenders : List AppenderPtr) :
    Rooted (h.listed l m_appenders) :=
  rooted.setLogger l _ rfl

theorem Rooted.appended (rooted : Rooted h) (l : LoggerPtr) (a : AppenderPtr) :
    Rooted (h.appended l a) := by
  unfold Heap.appended
  split
  · have given : Rooted (h.given a (h.logger l).m_formatter) := rooted.frame rfl rfl rfl
    exact given.listed l _
  · exact rooted.listed l _

theorem rooted_undisturbed : Undisturbed Rooted := by
  constructor
  · intro h events rooted
    exact rooted.frame rfl rfl rfl
  · intro h a now rooted
    exact rooted.frame rfl rfl rfl

theorem rooted_op {held : Held Lock} {after : Heap} {act : Act} (rooted : Rooted h)
    (done : act.op held h = .ok ((), after)) : Rooted after := by
  have quiet : Keeps Rooted act.op → Rooted after := fun keeps =>
    keeps held h () after rooted done
  have undisturbed := rooted_undisturbed
  cases act with
  | newFormatter pattern =>
      rcases ignore_ok done with ⟨p, made⟩
      rcases makeFormatter_ok made with ⟨formatter, _, _, rfl⟩
      exact rooted.frame rfl rfl rfl
  | newAppender kind =>
      rcases ignore_ok done with ⟨a, made⟩
      rcases makeAppender_ok made with ⟨_, rfl⟩
      exact rooted.frame rfl rfl rfl
  | newLogger name =>
      rcases ignore_ok done with ⟨l, made⟩
      rcases makeLogger_ok made with ⟨formatter, _, _, rfl⟩
      apply rooted.makeLogger formatter
      intro r found
      cases found
  | getLogger name =>
      rcases ignore_ok done with ⟨l, got⟩
      rcases getLogger_ok got with ⟨_, rfl⟩ | ⟨_, rfl, formatter, _, rfl⟩
      · exact rooted
      · have made : Rooted ((h.addFormatter formatter).addLogger
            { m_name := name, m_formatter := some h.formatters, m_root := some h.m_root }) :=
          rooted.makeLogger formatter fun r found => (Option.some.inj found).symm
        exact made.frame rfl rfl rfl
  | managerYaml => exact quiet (keeps_ignore keeps_managerYaml)
  | setLevel l level =>
      rcases setLevel_ok done with rfl
      exact rooted.setLogger l _ rfl
  | getFormatter l => exact quiet (keeps_ignore (keeps_getFormatter l))
  | setFormatter l val =>
      rcases setFormatter_ok done with rfl
      exact rooted.reformatted l val
  | setPattern l val =>
      rcases setPattern_ok done with ⟨formatter, _, rfl⟩
      have added : Rooted (h.addFormatter formatter) := rooted.frame rfl rfl rfl
      split
      · exact added
      · exact added.reformatted l _
  | addAppender l a =>
      rcases addAppender_ok done with rfl
      exact rooted.appended l a
  | delAppender l a =>
      rcases delAppender_ok done with rfl
      exact rooted.listed l _
  | clearAppender l =>
      rcases clearAppender_ok done with rfl
      exact rooted.listed l _
  | log l event => exact quiet (keeps_log undisturbed 2 l event)
  | loggerYaml l => exact quiet (keeps_ignore (keeps_loggerYaml l))
  | setAppenderLevel a level =>
      rcases setAppenderLevel_ok done with rfl
      exact rooted.frame rfl rfl rfl
  | getAppenderFormatter a => exact quiet (keeps_ignore (keeps_getAppenderFormatter a))
  | setAppenderFormatter a val =>
      rcases setAppenderFormatter_ok done with rfl
      exact rooted.frame rfl rfl rfl
  | appenderLog a event => exact quiet (keeps_appenderLog undisturbed a event)
  | reopen a => exact quiet (keeps_ignore (keeps_reopen a))
  | appenderYaml a => exact quiet (keeps_ignore (keeps_appenderYaml a))

end Roots

theorem reach_rooted {held : Held Lock} {allowed : Heap → Act → Prop} {h : Heap}
    (reached : Reach (logging held) allowed h) : Rooted h := by
  apply reached.invariant Rooted
  · intro h rooted
    exact rooted
  · intro before act after _ rooted _ moved
    simp only [logging] at moved
    split at moved
    · exact rooted_op rooted (effect_ok moved)
    · cases moved

/-! Which locks are taken again. -/

section Freedom
variable {locks : List Lock} {pre : Heap → Prop}

theorem free_ignore {Result : Type} {op : Op Result} (free : Free locks pre op) :
    Free locks pre (ignore op) :=
  free.seq fun _ => Free.pure ()

theorem free_setAppenderFormatter {a : AppenderPtr} (unheld : Lock.appender a ∉ locks)
    (val : Option FormatterPtr) : Free locks pre (LogAppender.setFormatter a val) := by
  apply Free.locking unheld
  refine Free.seq (Free.modify _) ?_
  intro _
  exact Free.modify _

theorem free_getAppenderFormatter {a : AppenderPtr} (unheld : Lock.appender a ∉ locks) :
    Free locks pre (LogAppender.getFormatter a) :=
  Free.locking unheld (Free.read _)

theorem free_reopen {a : AppenderPtr} (unheld : Lock.appender a ∉ locks) :
    Free locks pre (LogAppender.reopen a) :=
  Free.locking unheld (Free.pure true)

theorem free_format (a : AppenderPtr) (event : LogEvent) :
    Free locks pre (LogAppender.format a event) := by
  refine Free.seq (Free.read _) ?_
  intro formatter
  cases formatter with
  | none => exact Free.raise _
  | some p => exact Free.modify _

/-- `reopen` gives the lock back before `log` takes it. -/
theorem free_appenderLog {a : AppenderPtr} (unheld : Lock.appender a ∉ locks) (event : LogEvent) :
    Free locks pre (LogAppender.log a event) := by
  refine Free.seq (Free.read _) ?_
  intro appender
  cases appender.kind with
  | stdout => exact Free.locking unheld (free_format a event)
  | file m_filename =>
      refine Free.seq ?_ ?_
      · unfold LogAppender.reopenAfter
        split
        · exact (free_reopen unheld).seq fun _ => Free.modify _
        · exact Free.pure ()
      · intro _
        exact Free.locking unheld (free_format a event)

theorem free_appenderYaml {a : AppenderPtr} (unheld : Lock.appender a ∉ locks) :
    Free locks pre (LogAppender.toYamlString a) := by
  apply Free.locking unheld
  refine Free.seq (Free.read _) ?_
  intro kind
  refine Free.seq ?_ ?_
  · refine Free.seq (Free.read _) ?_
    intro formatter
    cases formatter with
    | none => exact Free.raise _
    | some p => exact Free.read _
  · intro pattern
    cases kind with
    | stdout => exact Free.pure _
    | file m_filename => exact Free.pure _

theorem free_makeFormatter (pattern : Text) : Free locks pre (makeFormatter pattern) := by
  unfold makeFormatter
  split
  · exact Free.raise _
  · refine Free.seq (Free.read _) ?_
    intro p
    exact (Free.modify _).seq fun _ => Free.pure p

theorem free_makeLogger (name : Text) : Free locks pre (makeLogger name) := by
  refine Free.seq (free_makeFormatter _) ?_
  intro formatter
  refine Free.seq (Free.read _) ?_
  intro l
  exact (Free.modify _).seq fun _ => Free.pure l

theorem free_makeAppender (kind : Kind) : Free [] pre (makeAppender kind) := by
  refine Free.seq (Free.read _) ?_
  intro a
  refine Free.seq (Free.modify _) ?_
  intro _
  cases kind with
  | stdout => exact Free.pure a
  | file m_filename => exact (free_reopen List.not_mem_nil).seq fun _ => Free.pure a

theorem free_setFormatter {l : LoggerPtr} (unheld : Lock.logger l ∉ locks)
    (appenders : ∀ a, Lock.appender a ∉ locks) (val : Option FormatterPtr) :
    Free locks pre (Logger.setFormatter l val) := by
  apply Free.locking unheld
  refine Free.seq (Free.modify _) ?_
  intro _
  refine Free.seq (Free.read _) ?_
  intro m_appenders
  refine Free.forEach m_appenders (fun it _ => Ends.trivial _) fun it _ => ?_
  apply Free.locking
  · simpa using appenders it
  · exact Free.modify _

theorem free_setPattern {l : LoggerPtr} (val : Text) : Free [] pre (Logger.setPattern l val) := by
  refine Free.seq (free_makeFormatter val) ?_
  intro handleVal
  refine Free.seq (Free.read _) ?_
  intro isError
  cases isError with
  | true => exact Free.pure ()
  | false => exact free_setFormatter List.not_mem_nil (fun _ => List.not_mem_nil) _

theorem free_loggerYaml {l : LoggerPtr} (unheld : Lock.logger l ∉ locks)
    (appenders : ∀ a, Lock.appender a ∉ locks) : Free locks pre (Logger.toYamlString l) := by
  apply Free.locking unheld
  refine Free.seq (Free.read _) ?_
  intro logger
  refine Free.seq (Free.read _) ?_
  intro formatter
  refine Free.seq ?_ fun _ => Free.pure _
  refine Free.weaken (Free.mapEach _ (fun a _ => Ends.trivial _) fun a _ => ?_) fun _ _ => trivial
  apply free_appenderYaml
  simpa using appenders a

theorem free_addAppender {l : LoggerPtr} {a : AppenderPtr} :
    Free [] (fun h => (h.appender a).m_formatter ≠ none) (Logger.addAppender l a) := by
  apply Free.locking List.not_mem_nil
  have found : Ends (fun h : Heap => (h.appender a).m_formatter ≠ none)
      (LogAppender.getFormatter a) fun formatter _ => formatter ≠ none :=
    Ends.locking _ (Ends.read _ fun _ supplied => supplied)
  refine Free.bind (free_getAppenderFormatter (by simp)) found ?_
  intro formatter
  cases formatter with
  | none =>
      intro h lock supplied
      exact absurd rfl supplied
  | some p =>
      refine Free.seq (Free.pure ()) ?_
      intro _
      exact Free.modify _

theorem free_rootLog {l : LoggerPtr} (unheld : Lock.logger l ∉ locks)
    (appenders : ∀ a, Lock.appender a ∉ locks) (depth : Nat) (event : LogEvent) :
    Free locks (fun h => (h.logger l).m_root = none) (Logger.log depth l event) := by
  cases depth with
  | zero => exact Free.raise _
  | succ depth =>
      apply Free.locking unheld
      have rootless : Ends (fun h : Heap => (h.logger l).m_root = none)
          (read (fun h => h.logger l) : Op Logger) fun logger _ => logger.m_root = none :=
        Ends.read _ fun _ none => none
      refine Free.bind (Free.read _) rootless ?_
      intro logger
      cases root : logger.m_root with
      | some m_root =>
          intro h lock impossible
          cases impossible
      | none =>
          split
          · exact Free.pure ()
          · refine Free.weaken (Free.forEach _ (fun it _ => Ends.trivial _) fun it _ => ?_)
              fun _ _ => trivial
            apply free_appenderLog
            simpa using appenders it

theorem free_log (l : LoggerPtr) (event : LogEvent) : Free [] Rooted (Logger.log 2 l event) := by
  apply Free.locking List.not_mem_nil
  have roots : Ends Rooted (read (fun h => h.logger l) : Op Logger) fun logger h =>
      ∀ m_root, logger.m_root = some m_root → m_root ≠ l ∧ (h.logger m_root).m_root = none := by
    apply Ends.read
    intro h rooted m_root found
    have rootless := (rooted.roots l m_root found).2
    constructor
    · rintro rfl
      rw [rootless] at found
      cases found
    · exact rootless
  refine Free.bind (Free.read _) roots ?_
  intro logger
  split
  · cases found : logger.m_root with
    | none => exact Free.pure ()
    | some m_root =>
        intro h lock facts
        rcases facts m_root rfl with ⟨other, rootless⟩
        have unheld : Lock.logger m_root ∉ [Lock.logger l] := by simpa using other
        exact free_rootLog unheld (by simp) 1 event h lock rootless
  · refine Free.weaken (Free.forEach _ (fun it _ => Ends.trivial _) fun it _ => ?_)
      fun _ _ => trivial
    exact free_appenderLog (by simp) event

theorem free_op {h : Heap} (rooted : Rooted h) {act : Act} (supplied : act.Supplied h)
    (lock : Lock) : act.op (some []) h ≠ .error (.deadlock lock) := by
  have free : ∀ {op : Op Unit}, Free [] Rooted op → op (some []) h ≠ .error (.deadlock lock) :=
    fun free => free h lock rooted
  cases act with
  | newFormatter pattern => exact free (free_ignore (free_makeFormatter pattern))
  | newAppender kind => exact free (free_ignore (free_makeAppender kind))
  | newLogger name => exact free (free_ignore (free_makeLogger name))
  | getLogger name =>
      apply free
      apply free_ignore
      apply Free.locking List.not_mem_nil
      refine Free.seq (Free.read _) ?_
      intro found
      cases found with
      | some l => exact Free.pure l
      | none =>
          refine Free.seq (free_makeLogger name) ?_
          intro l
          refine Free.seq (Free.modify _) ?_
          intro _
          exact (Free.modify _).seq fun _ => Free.pure l
  | managerYaml =>
      apply free
      apply free_ignore
      apply Free.locking List.not_mem_nil
      refine Free.seq (Free.read _) ?_
      intro m_loggers
      exact Free.mapEach _ (fun entry _ => Ends.trivial _) fun entry _ =>
        free_loggerYaml (by simp) (by simp)
  | setLevel l level => exact free (Free.modify _)
  | getFormatter l => exact free (free_ignore (Free.locking List.not_mem_nil (Free.read _)))
  | setFormatter l val =>
      exact free (free_setFormatter List.not_mem_nil (fun _ => List.not_mem_nil) val)
  | setPattern l val => exact free (free_setPattern val)
  | addAppender l a => exact free_addAppender h lock supplied
  | delAppender l a => exact free (Free.locking List.not_mem_nil (Free.modify _))
  | clearAppender l => exact free (Free.locking List.not_mem_nil (Free.modify _))
  | log l event => exact free (free_log l event)
  | loggerYaml l =>
      exact free (free_ignore (free_loggerYaml List.not_mem_nil fun _ => List.not_mem_nil))
  | setAppenderLevel a level => exact free (Free.modify _)
  | getAppenderFormatter a => exact free (free_ignore (free_getAppenderFormatter List.not_mem_nil))
  | setAppenderFormatter a val => exact free (free_setAppenderFormatter List.not_mem_nil val)
  | appenderLog a event => exact free (free_appenderLog List.not_mem_nil event)
  | reopen a => exact free (free_ignore (free_reopen List.not_mem_nil))
  | appenderYaml a => exact free (free_ignore (free_appenderYaml List.not_mem_nil))

/-- `setFormatter` takes the lock that `addAppender` holds. -/
theorem addAppender_deadlocks {h : Heap} {l : LoggerPtr} {a : AppenderPtr}
    (bare : (h.appender a).m_formatter = none) :
    Logger.addAppender l a (some []) h = .error (.deadlock (.appender a)) := by
  simp [Logger.addAppender, Logger.lend, LogAppender.getFormatter, LogAppender.setFormatter,
    locking, bind, ScopedLocks.Call.read, bare]

theorem defaultPattern_scans : (LogFormatter.init defaultPattern).isSome := by
  decide

/-- The constructor of the manager adds such an appender, so it never ends. -/
theorem construct_deadlocks (h : Heap) :
    LoggerManager.construct (some []) h = .error (.deadlock (.appender h.appenders)) := by
  obtain ⟨formatter, scanned⟩ := Option.isSome_iff_exists.mp defaultPattern_scans
  simp [LoggerManager.construct, makeLogger, makeFormatter, scanned, makeAppender,
    ScopedLocks.Call.read, bind, pure, ScopedLocks.Call.modify, Heap.setAppender,
    Heap.setLogger, addAppender_deadlocks]

theorem rooted_alone : Rooted { loggers := 1 } := by
  constructor
  · exact ⟨Nat.one_pos, rfl⟩
  · intro l r found
    cases found

end Freedom

/-- From any state with proper roots: an operation takes a lock its own chain
holds if and only if it adds an appender that has no formatter. -/
theorem no_self_deadlock {h : Heap} (reached : Reach (logging (some [])) anyStep h) (act : Act) :
    (∀ lock, act.op (some []) h ≠ .error (.deadlock lock)) ↔ act.Supplied h := by
  constructor
  · intro never
    cases act with
    | addAppender l a =>
        intro bare
        exact never _ (addAppender_deadlocks bare)
    | _ => trivial
  · intro supplied lock
    exact free_op (reach_rooted reached) supplied lock

theorem no_self_deadlock_supplied :
    ∃ h, run (logging (some [])) { loggers := 1 }
        [.newFormatter "%m%n".toList, .newAppender .stdout, .setAppenderFormatter 0 (some 0)] =
        some h ∧
      ((∀ lock, (Act.addAppender 0 0).op (some []) h ≠ .error (.deadlock lock)) ↔
        (Act.addAppender 0 0).Supplied h) :=
  run_meets anyStep rooted_alone (by decide) (by decide)
    fun _ reached => no_self_deadlock reached (.addAppender 0 0)

theorem new_appender_deadlocks :
    ¬ ∀ h, Reach (logging (some [])) anyStep h →
      ∀ (act : Act) lock, act.op (some []) h ≠ .error (.deadlock lock) := by
  intro never
  rcases reach_where (logging (some [])) anyStep { loggers := 1 } [.newAppender .stdout]
    (fun h => (h.appender 0).m_formatter.isNone) rooted_alone (by decide) (by decide) with
    ⟨h, reached, bare⟩
  apply never h reached (.addAppender 0 0) (.appender 0)
  exact addAppender_deadlocks (Option.isNone_iff_eq_none.mp bare)

end Ztyco.Logging
