import Ztyco.Loggers

/-!
What an operation on loggers leaves when it ends, whatever locks are held.
Logging and printing change what was written and when a file was last opened,
and nothing else; each of the other operations has one exact effect.
-/

namespace Ztyco.Logging

open ScopedLocks (Held)
open ScopedLocks.Call

/-! Logging and printing. -/

/-- What is not about the text written so far or the time of the last one. -/
structure Undisturbed (inv : Heap → Prop) : Prop where
  written : ∀ h events, inv h → inv { h with written := events }
  lastTime : ∀ h a now, inv h → inv (h.setAppender a { h.appender a with m_lastTime := now })

section Quiet
variable {inv : Heap → Prop} {Result : Type}

def Keeps (inv : Heap → Prop) (op : Op Result) : Prop := Ends inv op fun _ => inv

theorem keeps_read (part : Heap → Result) : Keeps inv (read part) :=
  Ends.read _ fun _ kept => kept

theorem keeps_pure (value : Result) : Keeps inv (pure value) :=
  Ends.pure _ fun _ kept => kept

theorem keeps_bind {Next : Type} {op : Op Result} {next : Result → Op Next}
    (first : Keeps inv op) (second : ∀ value, Keeps inv (next value)) :
    Keeps inv (op >>= next) :=
  Ends.bind first second

theorem keeps_ignore {op : Op Result} (keeps : Keeps inv op) : Keeps inv (ignore op) :=
  keeps_bind keeps fun _ => keeps_pure ()

theorem keeps_reopen (a : AppenderPtr) : Keeps inv (LogAppender.reopen a) :=
  Ends.locking _ (keeps_pure true)

theorem keeps_getAppenderFormatter (a : AppenderPtr) :
    Keeps inv (LogAppender.getFormatter a) :=
  Ends.locking _ (keeps_read _)

theorem keeps_getFormatter (l : LoggerPtr) : Keeps inv (Logger.getFormatter l) :=
  Ends.locking _ (keeps_read _)

theorem keeps_pattern (a : AppenderPtr) : Keeps inv (LogAppender.pattern a) := by
  apply keeps_bind (keeps_read _)
  intro formatter
  cases formatter with
  | none => exact Ends.raise _
  | some p => exact keeps_read _

theorem keeps_appenderYaml (a : AppenderPtr) : Keeps inv (LogAppender.toYamlString a) := by
  apply Ends.locking
  apply keeps_bind (keeps_read _)
  intro kind
  apply keeps_bind (keeps_pattern a)
  intro pattern
  cases kind with
  | stdout => exact keeps_pure _
  | file m_filename => exact keeps_pure _

theorem keeps_loggerYaml (l : LoggerPtr) : Keeps inv (Logger.toYamlString l) := by
  apply Ends.locking
  apply keeps_bind (keeps_read _)
  intro logger
  apply keeps_bind (keeps_read _)
  intro formatter
  apply keeps_bind (Ends.mapEach _ fun a _ => keeps_appenderYaml a)
  intro appenders
  exact keeps_pure _

theorem keeps_managerYaml : Keeps inv LoggerManager.toYamlString := by
  apply Ends.locking
  apply keeps_bind (keeps_read _)
  intro m_loggers
  exact Ends.mapEach _ fun entry _ => keeps_loggerYaml entry.2

theorem keeps_format (undisturbed : Undisturbed inv) (a : AppenderPtr) (event : LogEvent) :
    Keeps inv (LogAppender.format a event) := by
  apply keeps_bind (keeps_read _)
  intro formatter
  cases formatter with
  | none => exact Ends.raise _
  | some p => exact Ends.modify _ fun h kept => undisturbed.written h _ kept

theorem keeps_reopenAfter (undisturbed : Undisturbed inv) (a : AppenderPtr)
    (m_lastTime now : UInt64) : Keeps inv (LogAppender.reopenAfter a m_lastTime now) := by
  unfold LogAppender.reopenAfter
  split
  · apply keeps_bind (keeps_reopen a)
    intro _
    exact Ends.modify _ fun h kept => undisturbed.lastTime h a now kept
  · exact keeps_pure ()

theorem keeps_appenderLog (undisturbed : Undisturbed inv) (a : AppenderPtr) (event : LogEvent) :
    Keeps inv (LogAppender.log a event) := by
  apply keeps_bind (keeps_read _)
  intro appender
  cases appender.kind with
  | stdout => exact Ends.locking _ (keeps_format undisturbed a event)
  | file m_filename =>
      apply keeps_bind (keeps_reopenAfter undisturbed a _ _)
      intro _
      exact Ends.locking _ (keeps_format undisturbed a event)

theorem keeps_log (undisturbed : Undisturbed inv) (depth : Nat) (l : LoggerPtr)
    (event : LogEvent) : Keeps inv (Logger.log depth l event) := by
  induction depth generalizing l with
  | zero => exact Ends.raise _
  | succ depth ih =>
      apply Ends.locking
      apply keeps_bind (keeps_read _)
      intro logger
      split
      · cases logger.m_root with
        | some m_root => exact ih m_root
        | none => exact keeps_pure ()
      · exact Ends.forEach _ fun it _ => keeps_appenderLog undisturbed it event

end Quiet

/-! The other operations, one effect each. -/

namespace Heap

def addFormatter (h : Heap) (formatter : LogFormatter) : Heap :=
  { h with
    formatter := Function.update h.formatter h.formatters formatter
    formatters := h.formatters + 1 }

def addLogger (h : Heap) (logger : Logger) : Heap :=
  { h.setLogger h.loggers logger with loggers := h.loggers + 1 }

def addAppender (h : Heap) (kind : Kind) : Heap :=
  { h.setAppender h.appenders { kind := kind } with appenders := h.appenders + 1 }

def given (h : Heap) (a : AppenderPtr) (val : Option FormatterPtr) : Heap :=
  h.setAppender a { h.appender a with
    m_formatter := val
    m_hasFormatter := (h.appender a).m_hasFormatter || val.isSome }

def handed (h : Heap) (val : Option FormatterPtr) (items : List AppenderPtr) : Heap :=
  { h with appender := fun a =>
      if a ∈ items ∧ (h.appender a).m_hasFormatter = false
      then { h.appender a with m_formatter := val } else h.appender a }

def reformatted (h : Heap) (l : LoggerPtr) (val : Option FormatterPtr) : Heap :=
  (h.setLogger l { h.logger l with m_formatter := val }).handed val (h.logger l).m_appenders

def listed (h : Heap) (l : LoggerPtr) (m_appenders : List AppenderPtr) : Heap :=
  h.setLogger l { h.logger l with m_appenders := m_appenders }

def appended (h : Heap) (l : LoggerPtr) (a : AppenderPtr) : Heap :=
  (if (h.appender a).m_formatter = none then h.given a (h.logger l).m_formatter else h).listed l
    ((h.logger l).m_appenders ++ [a])

end Heap

section Effects
variable {held : Held Lock} {h after : Heap}

theorem ignore_ok {Result : Type} {op : Op Result}
    (done : ignore op held h = .ok ((), after)) :
    ∃ result, op held h = .ok (result, after) := by
  rcases bind_ok.mp done with ⟨result, middle, first, second⟩
  rcases pure_ok.mp second with ⟨_, rfl⟩
  exact ⟨result, first⟩

theorem effect_ok {act : Act}
    (done : act.effect held h = some after) : act.op held h = .ok ((), after) := by
  unfold Act.effect at done
  split at done
  · rename_i finished
    cases done
    exact finished
  · cases done

theorem makeFormatter_ok {pattern : Text} {p : FormatterPtr}
    (done : makeFormatter pattern held h = .ok (p, after)) :
    ∃ formatter, LogFormatter.init pattern = some formatter ∧ p = h.formatters ∧
      after = h.addFormatter formatter := by
  unfold makeFormatter at done
  cases scanned : LogFormatter.init pattern with
  | none =>
      rw [scanned] at done
      exact absurd done raise_ok
  | some formatter =>
      rw [scanned] at done
      rcases bind_ok.mp done with ⟨q, middle, first, rest⟩
      rcases read_ok.mp first with ⟨rfl, rfl⟩
      rcases bind_ok.mp rest with ⟨_, last, changed, returned⟩
      rcases modify_ok.mp changed with rfl
      rcases pure_ok.mp returned with ⟨rfl, rfl⟩
      exact ⟨formatter, rfl, rfl, rfl⟩

theorem makeLogger_ok {name : Text} {l : LoggerPtr}
    (done : makeLogger name held h = .ok (l, after)) :
    ∃ formatter, LogFormatter.init defaultPattern = some formatter ∧ l = h.loggers ∧
      after = (h.addFormatter formatter).addLogger
        { m_name := name, m_formatter := some h.formatters } := by
  rcases bind_ok.mp done with ⟨p, middle, first, rest⟩
  rcases makeFormatter_ok first with ⟨formatter, scanned, rfl, rfl⟩
  rcases bind_ok.mp rest with ⟨q, other, second, changing⟩
  rcases read_ok.mp second with ⟨rfl, rfl⟩
  rcases bind_ok.mp changing with ⟨_, last, changed, returned⟩
  rcases modify_ok.mp changed with rfl
  rcases pure_ok.mp returned with ⟨rfl, rfl⟩
  exact ⟨formatter, scanned, rfl, rfl⟩

theorem reopen_ok {a : AppenderPtr} {opened : Bool}
    (done : LogAppender.reopen a held h = .ok (opened, after)) : after = h :=
  (pure_ok.mp (locking_ok done)).2

theorem makeAppender_ok {kind : Kind} {a : AppenderPtr}
    (done : makeAppender kind held h = .ok (a, after)) :
    a = h.appenders ∧ after = h.addAppender kind := by
  rcases bind_ok.mp done with ⟨q, middle, first, rest⟩
  rcases read_ok.mp first with ⟨rfl, rfl⟩
  rcases bind_ok.mp rest with ⟨_, last, changed, returned⟩
  rcases modify_ok.mp changed with rfl
  cases kind with
  | stdout => exact pure_ok.mp returned
  | file m_filename =>
      rcases bind_ok.mp returned with ⟨opened, final, reopened, answered⟩
      rcases pure_ok.mp answered with ⟨rfl, rfl⟩
      exact ⟨rfl, reopen_ok reopened⟩

theorem setAppenderFormatter_ok {a : AppenderPtr} {val : Option FormatterPtr}
    (done : LogAppender.setFormatter a val held h = .ok ((), after)) : after = h.given a val := by
  rcases bind_ok.mp (locking_ok done) with ⟨_, middle, first, second⟩
  rcases modify_ok.mp first with rfl
  rcases modify_ok.mp second with rfl
  cases val with
  | none => simp [Heap.given, Heap.setAppender]
  | some p => simp [Heap.given, Heap.setAppender]

theorem setAppenderLevel_ok {a : AppenderPtr} {level : Level}
    (done : LogAppender.setLevel a level held h = .ok ((), after)) :
    after = h.setAppender a { h.appender a with m_level := level } :=
  modify_ok.mp done

theorem setLevel_ok {l : LoggerPtr} {level : Level}
    (done : Logger.setLevel l level held h = .ok ((), after)) :
    after = h.setLogger l { h.logger l with m_level := level } :=
  modify_ok.mp done

theorem handed_nil (val : Option FormatterPtr) : h.handed val [] = h := by
  simp [Heap.handed]

/-- One round, and then the others. -/
theorem handed_cons (val : Option FormatterPtr) (it : AppenderPtr) (rest : List AppenderPtr) :
    (h.handed val [it]).handed val rest = h.handed val (it :: rest) := by
  have appenders : ((h.handed val [it]).handed val rest).appender =
      (h.handed val (it :: rest)).appender := by
    funext a
    by_cases flag : (h.appender a).m_hasFormatter = false
    · by_cases equal : a = it
      · subst equal
        simp [Heap.handed, flag]
      · simp [Heap.handed, flag, equal]
    · simp [Heap.handed, flag]
  exact congrArg (fun appender => { h with appender := appender }) appenders

theorem handDown_ok {l : LoggerPtr} {it : AppenderPtr}
    (done : Logger.handDown l it held h = .ok ((), after)) :
    after = h.handed (h.logger l).m_formatter [it] := by
  rcases modify_ok.mp (locking_ok done) with rfl
  cases flag : (h.appender it).m_hasFormatter with
  | true =>
      have same : ∀ a, ¬ (a = it ∧ (h.appender a).m_hasFormatter = false) := by
        rintro a ⟨rfl, unset⟩
        rw [flag] at unset
        cases unset
      simp [Heap.handed, same]
  | false =>
      have appenders : (h.setAppender it { h.appender it with
            m_formatter := (h.logger l).m_formatter }).appender =
          (h.handed (h.logger l).m_formatter [it]).appender := by
        funext a
        by_cases equal : a = it
        · subst equal
          simp [Heap.setAppender, Heap.handed, flag]
        · simp [Heap.setAppender, Heap.handed, equal]
      exact congrArg (fun appender => { h with appender := appender }) appenders

theorem handDowns_ok {l : LoggerPtr} (items : List AppenderPtr)
    (done : forEach (Logger.handDown l) items held h = .ok ((), after)) :
    after = h.handed (h.logger l).m_formatter items := by
  induction items generalizing h with
  | nil =>
      rw [handed_nil]
      exact forEach_nil done
  | cons it rest ih =>
      rcases forEach_cons done with ⟨middle, round, later⟩
      rcases handDown_ok round with rfl
      rw [← handed_cons]
      exact ih later

theorem setFormatter_ok {l : LoggerPtr} {val : Option FormatterPtr}
    (done : Logger.setFormatter l val held h = .ok ((), after)) : after = h.reformatted l val := by
  rcases bind_ok.mp (locking_ok done) with ⟨_, middle, first, rest⟩
  rcases modify_ok.mp first with rfl
  rcases bind_ok.mp rest with ⟨m_appenders, same, second, loop⟩
  rcases read_ok.mp second with ⟨rfl, rfl⟩
  have ended := handDowns_ok _ loop
  simpa [Heap.reformatted, Heap.setLogger] using ended

theorem setPattern_ok {l : LoggerPtr} {val : Text}
    (done : Logger.setPattern l val held h = .ok ((), after)) :
    ∃ formatter, LogFormatter.init val = some formatter ∧
      after = if formatter.m_error then h.addFormatter formatter
        else (h.addFormatter formatter).reformatted l (some h.formatters) := by
  rcases bind_ok.mp done with ⟨p, middle, first, rest⟩
  rcases makeFormatter_ok first with ⟨formatter, scanned, rfl, rfl⟩
  rcases bind_ok.mp rest with ⟨isError, same, second, choice⟩
  rcases read_ok.mp second with ⟨rfl, rfl⟩
  have found : ((h.addFormatter formatter).formatter h.formatters) = formatter :=
    Function.update_self _ _ _
  rw [found] at choice
  refine ⟨formatter, scanned, ?_⟩
  cases error : formatter.m_error with
  | true =>
      rw [error] at choice
      exact (pure_ok.mp choice).2
  | false =>
      rw [error] at choice
      exact setFormatter_ok choice

theorem lend_ok {l : LoggerPtr} {a : AppenderPtr}
    (done : Logger.lend l a held h = .ok ((), after)) :
    after = h.given a (h.logger l).m_formatter := by
  rcases bind_ok.mp (locking_ok done) with ⟨m_formatter, same, first, second⟩
  rcases read_ok.mp first with ⟨rfl, rfl⟩
  exact setAppenderFormatter_ok second

theorem addAppender_ok {l : LoggerPtr} {a : AppenderPtr}
    (done : Logger.addAppender l a held h = .ok ((), after)) : after = h.appended l a := by
  rcases bind_ok.mp (locking_ok done) with ⟨formatter, same, first, rest⟩
  rcases read_ok.mp (locking_ok first) with ⟨rfl, kept⟩
  rcases bind_ok.mp rest with ⟨_, lent, lending, last⟩
  rw [kept] at lending
  rcases modify_ok.mp last with rfl
  cases found : (h.appender a).m_formatter with
  | none =>
      rw [found] at lending
      rcases lend_ok lending with rfl
      simp [Heap.appended, Heap.listed, found, Heap.given, Heap.setAppender]
  | some p =>
      rw [found] at lending
      rcases pure_ok.mp lending with ⟨_, rfl⟩
      simp [Heap.appended, Heap.listed, found]

theorem delAppender_ok {l : LoggerPtr} {a : AppenderPtr}
    (done : Logger.delAppender l a held h = .ok ((), after)) :
    after = h.listed l ((h.logger l).m_appenders.erase a) :=
  modify_ok.mp (locking_ok done)

theorem clearAppender_ok {l : LoggerPtr}
    (done : Logger.clearAppender l held h = .ok ((), after)) : after = h.listed l [] :=
  modify_ok.mp (locking_ok done)

theorem getLogger_ok {name : Text} {l : LoggerPtr}
    (done : LoggerManager.getLogger name held h = .ok (l, after)) :
    h.m_loggers.lookup name = some l ∧ after = h ∨
      h.m_loggers.lookup name = none ∧ l = h.loggers ∧
      ∃ formatter, LogFormatter.init defaultPattern = some formatter ∧
        after = { (h.addFormatter formatter).addLogger
          { m_name := name, m_formatter := some h.formatters, m_root := some h.m_root } with
          m_loggers := LoggerManager.insert name l h.m_loggers } := by
  rcases bind_ok.mp (locking_ok done) with ⟨found, same, first, rest⟩
  rcases read_ok.mp first with ⟨rfl, kept⟩
  rw [kept] at rest
  cases known : h.m_loggers.lookup name with
  | some other =>
      rw [known] at rest
      rcases pure_ok.mp rest with ⟨rfl, rfl⟩
      exact Or.inl ⟨rfl, rfl⟩
  | none =>
      rw [known] at rest
      rcases bind_ok.mp rest with ⟨made, one, making, naming⟩
      rcases makeLogger_ok making with ⟨formatter, scanned, rfl, rfl⟩
      rcases bind_ok.mp naming with ⟨_, two, rooting, inserting⟩
      rcases modify_ok.mp rooting with rfl
      rcases bind_ok.mp inserting with ⟨_, three, inserted, returned⟩
      rcases modify_ok.mp inserted with rfl
      rcases pure_ok.mp returned with ⟨rfl, rfl⟩
      refine Or.inr ⟨rfl, rfl, formatter, scanned, ?_⟩
      simp [Heap.addLogger, Heap.setLogger, Heap.addFormatter]

end Effects

end Ztyco.Logging
