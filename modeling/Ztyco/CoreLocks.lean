import Ztyco.LockOrder

/-!
The locks of the whole program: which scopes each public operation opens, and which within
which, over the log, the configuration, the environment, the descriptors, the timers, the
schedulers and the IO managers. A scope ends where its guard is unlocked or destroyed; an
exception leaves it too, so an operation that fails halfway is among those that stop there.
Fibers yield with no lock held, so a thread is a list of operations and of the rounds of
`run` and `idle`. Objects are numbered, and an operation picks the ones it comes upon.

Two operations take the lock of an appender again while they hold it: `addAppender` of an
appender without a formatter, and the constructor of the LoggerManager, which does so for the
root logger. `GetInstance` runs the constructor before the first use of any logger.
-/

namespace Ztyco.CoreLocks

open LockOrder
open LockOrder.Script
open Transition

inductive Lock where
  -- Config::GetMutex()
  | datas
  -- ConfigVar::m_mutex
  | var (v : Nat)
  -- s_mutex of config.cc
  | files
  -- Env::m_mutex
  | args
  -- LoggerManager::m_mutex
  | loggers
  | logger (l : Nat)
  | root
  | appender (a : Nat)
  -- FdManager::m_mutex
  | fds
  -- IOManager::m_mutex
  | contexts (io : Nat)
  -- FdContext::mutex
  | context (p : Nat)
  -- TimerManager::m_mutex
  | timers (io : Nat)
  -- Scheduler::m_mutex
  | tasks (scheduler : Nat)
  deriving DecidableEq, Repr

abbrev Locking := Script Lock

def locked (lock : Lock) : Locking := scope lock .exclusive skip

def readLocked (lock : Lock) : Locking := scope lock .shared skip

/-! fdmanager.cc. -/

namespace FdManager

def get : Locking := seq (readLocked .fds) (perhaps (locked .fds))

def del : Locking := locked .fds

end FdManager

/-- A hooked function on a descriptor without a context: a pipe, or a file that is logged to,
since the streams of the C++ library call `write` too. -/
def hooked : Locking := perhaps FdManager.get

/-! log.cc. -/

namespace LogAppender

def setFormatter (a : Nat) : Locking := locked (.appender a)

def getFormatter (a : Nat) : Locking := locked (.appender a)

/-- What is still in the stream is written when it is closed. -/
def reopen (a : Nat) : Locking := scope (.appender a) .exclusive hooked

def log (a : Nat) : Locking :=
  seq (perhaps (reopen a)) (scope (.appender a) .exclusive (loop hooked))

def toYamlString (a : Nat) : Locking := locked (.appender a)

end LogAppender

namespace Logger

def m_mutex : Option Nat → Lock
  | none => .root
  | some l => .logger l

def log : Option Nat → Locking
  | none => scope .root .exclusive (loop (oneOf LogAppender.log))
  | some l => scope (.logger l) .exclusive (either (loop (oneOf LogAppender.log))
      (scope .root .exclusive (loop (oneOf LogAppender.log))))

def setFormatter (l : Option Nat) : Locking :=
  scope (m_mutex l) .exclusive (loop (oneOf fun a => locked (.appender a)))

def setPattern (l : Option Nat) : Locking := perhaps (setFormatter l)

def toYamlString (l : Option Nat) : Locking :=
  scope (m_mutex l) .exclusive (loop (oneOf LogAppender.toYamlString))

def getFormatter (l : Option Nat) : Locking := locked (m_mutex l)

/-- Of an appender that has a formatter. -/
def addAppender (l : Option Nat) : Locking :=
  scope (m_mutex l) .exclusive (oneOf LogAppender.getFormatter)

/-- Of one that has none. -/
def addBareAppender (l : Option Nat) : Locking :=
  scope (m_mutex l) .exclusive (oneOf fun a => seq (LogAppender.getFormatter a)
    (scope (.appender a) .exclusive (LogAppender.setFormatter a)))

def delAppender (l : Option Nat) : Locking := locked (m_mutex l)

def clearAppender (l : Option Nat) : Locking := locked (m_mutex l)

end Logger

def anyLogger (use : Option Nat → Locking) : Locking :=
  either (use none) (oneOf fun l => use (some l))

/-- `ZZ_LOG_LEVEL`: the event is logged at the end of the statement, if its level is. -/
def ZZ_LOG : Locking := perhaps (anyLogger Logger.log)

namespace LoggerManager

def construct : Locking := Logger.addBareAppender none

def getLogger : Locking := locked .loggers

def toYamlString : Locking := scope .loggers .exclusive (loop (anyLogger Logger.toYamlString))

end LoggerManager

/-! env.cc. -/

namespace Env

-- with a read lock in the source
def add : Locking := readLocked .args

def has : Locking := readLocked .args

def del : Locking := locked .args

def get : Locking := readLocked .args

def removeHelp : Locking := locked .args

def addHelp : Locking := seq removeHelp (locked .args)

def printHelp : Locking := readLocked .args

end Env

/-! config.h and config.cc. Listeners are those of log.cc and hook.cc, and others that are
added to a variable. -/

/-- The appenders of the definitions have formatters of their own. -/
def onLoggerConfChanged : Locking :=
  all [ZZ_LOG,
    loop (all [LoggerManager.getLogger,
      anyLogger fun l => all [Logger.setPattern l, Logger.clearAppender l,
        loop (oneOf fun a => all [perhaps (LogAppender.reopen a), perhaps Env.has,
          LogAppender.setFormatter a, Logger.addAppender l])]]),
    loop (seq LoggerManager.getLogger (anyLogger Logger.clearAppender))]

def onConnectTimeoutChanged : Locking := ZZ_LOG

section Config
variable (added : Nat → Locking)

namespace ConfigVar

def toString (v : Nat) : Locking := seq (readLocked (.var v)) ZZ_LOG

def getValue (v : Nat) : Locking := readLocked (.var v)

def setValue (v : Nat) : Locking :=
  seq (scope (.var v) .shared
      (loop (either (either onLoggerConfChanged onConnectTimeoutChanged) (added v))))
    (perhaps (locked (.var v)))

def fromString (v : Nat) : Locking := seq (perhaps (setValue added v)) ZZ_LOG

def addListener (v : Nat) : Locking := locked (.var v)

def delListener (v : Nat) : Locking := locked (.var v)

def getListener (v : Nat) : Locking := readLocked (.var v)

def clearListener (v : Nat) : Locking := locked (.var v)

end ConfigVar

namespace Config

def Lookup : Locking :=
  scope .datas .exclusive
    (either ZZ_LOG (perhaps (seq (oneOf ConfigVar.toString) (anyLogger Logger.log))))

def LookupBase : Locking := readLocked .datas

def LoadFromYaml : Locking :=
  seq (loop ZZ_LOG) (loop (seq LookupBase (perhaps (oneOf (ConfigVar.fromString added)))))

def LoadFromConDir : Locking :=
  loop (seq (locked .files) (perhaps (seq (perhaps (LoadFromYaml added)) ZZ_LOG)))

def Visit (cb : Locking) : Locking := scope .datas .shared (loop cb)

end Config

end Config

/-! timer.cc. -/

def tickle : Locking := either ZZ_LOG hooked

namespace Timer

/-- The callback may be the last to hold a fiber, whose destructor logs. -/
def cancel (io : Nat) : Locking := scope (.timers io) .exclusive ZZ_LOG

def refresh (io : Nat) : Locking := locked (.timers io)

/-- The lock is given up before `onTimerInsertedAtFront`. -/
def reset (io : Nat) : Locking := perhaps (seq (locked (.timers io)) (perhaps tickle))

end Timer

namespace TimerManager

def addTimer (io : Nat) : Locking := seq (locked (.timers io)) (perhaps tickle)

def getNextTimer (io : Nat) : Locking := readLocked (.timers io)

def listExpiredCb (io : Nat) : Locking :=
  seq (readLocked (.timers io)) (perhaps (locked (.timers io)))

def hasTimer (io : Nat) : Locking := readLocked (.timers io)

end TimerManager

/-! scheduler.cc. -/

namespace Scheduler

def schedule (scheduler : Nat) : Locking := seq (locked (.tasks scheduler)) (perhaps tickle)

def switchTo (scheduler : Nat) : Locking := perhaps (schedule scheduler)

/-- A new thread takes no lock before its constructor goes on. -/
def start (scheduler : Nat) : Locking := locked (.tasks scheduler)

def stopping (scheduler : Nat) : Locking := locked (.tasks scheduler)

/-- The threads are joined with no lock held. -/
def stop (scheduler : Nat) : Locking :=
  all [ZZ_LOG, perhaps (stopping scheduler), loop tickle, perhaps (stopping scheduler),
    perhaps (locked (.tasks scheduler))]

def run (scheduler : Nat) : Locking :=
  all [locked (.tasks scheduler), perhaps tickle, perhaps (schedule scheduler), ZZ_LOG]

end Scheduler

/-! iomanager.cc. -/

namespace IOManager

def triggerEvent : Locking := oneOf Scheduler.schedule

def addEvent (io : Nat) : Locking :=
  all [readLocked (.contexts io), perhaps (locked (.contexts io)),
    oneOf fun p => scope (.context p) .exclusive ZZ_LOG]

def withContext (io : Nat) (body : Locking) : Locking :=
  seq (readLocked (.contexts io)) (perhaps (oneOf fun p => scope (.context p) .exclusive body))

def delEvent (io : Nat) : Locking := withContext io ZZ_LOG

def cancelEvent (io : Nat) : Locking := withContext io (either ZZ_LOG triggerEvent)

def cancelAll (io : Nat) : Locking :=
  withContext io (either ZZ_LOG (seq (perhaps triggerEvent) (perhaps triggerEvent)))

def stopping (io : Nat) : Locking :=
  seq (TimerManager.getNextTimer io) (perhaps (Scheduler.stopping io))

def idle (io : Nat) : Locking :=
  all [stopping io, ZZ_LOG, TimerManager.listExpiredCb io, perhaps (Scheduler.schedule io),
    loop (either (loop hooked) (oneOf fun p => scope (.context p) .exclusive
      (either ZZ_LOG (seq (perhaps triggerEvent) (perhaps triggerEvent)))))]

end IOManager

/-! hook.cc. -/

namespace Hook

def sleep (io : Nat) : Locking := TimerManager.addTimer io

def do_io (io : Nat) : Locking :=
  seq FdManager.get (loop (all [perhaps (TimerManager.addTimer io), IOManager.addEvent io, ZZ_LOG,
    perhaps (Timer.cancel io)]))

def timedOut (io : Nat) : Locking := perhaps (IOManager.cancelEvent io)

def connect_with_timeout (io : Nat) : Locking :=
  all [FdManager.get, perhaps (TimerManager.addTimer io), perhaps (IOManager.addEvent io),
    perhaps (Timer.cancel io), ZZ_LOG]

def socket : Locking := perhaps FdManager.get

def close (io : Nat) : Locking :=
  seq FdManager.get (perhaps (seq (perhaps (IOManager.cancelAll io)) FdManager.del))

def accept (io : Nat) : Locking := seq (do_io io) (perhaps FdManager.get)

def option : Locking := FdManager.get

end Hook

/-- What a thread does from one moment without locks to the next. -/
inductive Op where
  | construct
  | log
  | getLogger
  | loggersYaml
  | setLoggerFormatter (l : Option Nat)
  | getLoggerFormatter (l : Option Nat)
  | loggerYaml (l : Option Nat)
  | addAppender (l : Option Nat)
  | addBareAppender (l : Option Nat)
  | delAppender (l : Option Nat)
  | clearAppender (l : Option Nat)
  | setAppenderFormatter (a : Nat)
  | getAppenderFormatter (a : Nat)
  | appenderLog (a : Nat)
  | reopen (a : Nat)
  | addArg
  | hasArg
  | delArg
  | addHelp
  | printHelp
  | toString (v : Nat)
  | getValue (v : Nat)
  | setValue (v : Nat)
  | fromString (v : Nat)
  | addListener (v : Nat)
  | delListener (v : Nat)
  | getListener (v : Nat)
  | clearListener (v : Nat)
  | Lookup
  | LookupBase
  | LoadFromYaml
  | LoadFromConDir
  | Visit (cb : Locking)
  | getFd
  | delFd
  | addTimer (io : Nat)
  | cancel (io : Nat)
  | refresh (io : Nat)
  | reset (io : Nat)
  | hasTimer (io : Nat)
  | schedule (scheduler : Nat)
  | switchTo (scheduler : Nat)
  | start (scheduler : Nat)
  | stop (scheduler : Nat)
  | run (scheduler : Nat)
  | addEvent (io : Nat)
  | delEvent (io : Nat)
  | cancelEvent (io : Nat)
  | cancelAll (io : Nat)
  | idle (io : Nat)
  | sleep (io : Nat)
  | do_io (io : Nat)
  | timedOut (io : Nat)
  | connect (io : Nat)
  | socket
  | accept (io : Nat)
  | close (io : Nat)
  | option

def Op.script (added : Nat → Locking) : Op → Locking
  | .construct => LoggerManager.construct
  | .log => ZZ_LOG
  | .getLogger => LoggerManager.getLogger
  | .loggersYaml => LoggerManager.toYamlString
  | .setLoggerFormatter l => Logger.setPattern l
  | .getLoggerFormatter l => Logger.getFormatter l
  | .loggerYaml l => Logger.toYamlString l
  | .addAppender l => Logger.addAppender l
  | .addBareAppender l => Logger.addBareAppender l
  | .delAppender l => Logger.delAppender l
  | .clearAppender l => Logger.clearAppender l
  | .setAppenderFormatter a => LogAppender.setFormatter a
  | .getAppenderFormatter a => LogAppender.getFormatter a
  | .appenderLog a => LogAppender.log a
  | .reopen a => LogAppender.reopen a
  | .addArg => Env.add
  | .hasArg => Env.has
  | .delArg => Env.del
  | .addHelp => Env.addHelp
  | .printHelp => Env.printHelp
  | .toString v => ConfigVar.toString v
  | .getValue v => ConfigVar.getValue v
  | .setValue v => ConfigVar.setValue added v
  | .fromString v => ConfigVar.fromString added v
  | .addListener v => ConfigVar.addListener v
  | .delListener v => ConfigVar.delListener v
  | .getListener v => ConfigVar.getListener v
  | .clearListener v => ConfigVar.clearListener v
  | .Lookup => Config.Lookup
  | .LookupBase => Config.LookupBase
  | .LoadFromYaml => Config.LoadFromYaml added
  | .LoadFromConDir => Config.LoadFromConDir added
  | .Visit cb => Config.Visit cb
  | .getFd => FdManager.get
  | .delFd => FdManager.del
  | .addTimer io => TimerManager.addTimer io
  | .cancel io => Timer.cancel io
  | .refresh io => Timer.refresh io
  | .reset io => Timer.reset io
  | .hasTimer io => TimerManager.hasTimer io
  | .schedule scheduler => Scheduler.schedule scheduler
  | .switchTo scheduler => Scheduler.switchTo scheduler
  | .start scheduler => Scheduler.start scheduler
  | .stop scheduler => Scheduler.stop scheduler
  | .run scheduler => Scheduler.run scheduler
  | .addEvent io => IOManager.addEvent io
  | .delEvent io => IOManager.delEvent io
  | .cancelEvent io => IOManager.cancelEvent io
  | .cancelAll io => IOManager.cancelAll io
  | .idle io => IOManager.idle io
  | .sleep io => Hook.sleep io
  | .do_io io => Hook.do_io io
  | .timedOut io => Hook.timedOut io
  | .connect io => Hook.connect_with_timeout io
  | .socket => Hook.socket
  | .accept io => Hook.accept io
  | .close io => Hook.close io
  | .option => Hook.option

/-! The order of the locks. -/

def rank : Lock → Nat
  | .datas => 0
  | .var _ => 1
  | .files | .args | .loggers | .contexts _ | .context _ | .timers _ => 2
  | .tasks _ => 3
  | .logger _ => 4
  | .root => 5
  | .appender _ => 6
  | .fds => 7

/-- No appender's lock is taken twice, and a function that is called with the list of variables
locked comes after it in the order. -/
def Op.Clear : Op → Prop
  | .construct | .addBareAppender _ => False
  | .Visit cb => Ordered rank 1 cb
  | _ => True

section Ordered
variable {floor : Nat} {added : Nat → Locking}

@[simp] theorem ordered_locked {lock : Lock} :
    Ordered rank floor (locked lock) ↔ floor ≤ rank lock := by
  simp [locked, Ordered]

@[simp] theorem ordered_readLocked {lock : Lock} :
    Ordered rank floor (readLocked lock) ↔ floor ≤ rank lock := by
  simp [readLocked, Ordered]

@[simp] theorem ordered_get : Ordered rank floor FdManager.get ↔ floor ≤ 7 := by
  simp [FdManager.get, Ordered, rank]

@[simp] theorem ordered_hooked : Ordered rank floor hooked ↔ floor ≤ 7 := by
  simp [hooked]

theorem rank_m_mutex (l : Option Nat) :
    4 ≤ rank (Logger.m_mutex l) ∧ rank (Logger.m_mutex l) < 6 := by
  cases l with
  | none => decide
  | some l => exact ⟨Nat.le_refl 4, by simp [Logger.m_mutex, rank]⟩

theorem ordered_log (low : floor ≤ 4) : Ordered rank floor ZZ_LOG := by
  simp [ZZ_LOG, anyLogger, Logger.log, LogAppender.log, LogAppender.reopen, Ordered, rank]
  omega

theorem ordered_tickle (low : floor ≤ 4) : Ordered rank floor tickle :=
  LockOrder.ordered_either.mpr ⟨ordered_log low, ordered_hooked.mpr (by omega)⟩

theorem ordered_logger (low : floor ≤ 4) (l : Option Nat) {body : Locking}
    (ordered : Ordered rank 6 body) :
    Ordered rank floor (scope (Logger.m_mutex l) .exclusive body) := by
  have bounds := rank_m_mutex l
  exact ⟨Nat.le_trans low bounds.1, ordered.lower bounds.2⟩

theorem ordered_anyLogger {use : Option Nat → Locking}
    (ordered : ∀ l, Ordered rank floor (use l)) : Ordered rank floor (anyLogger use) :=
  LockOrder.ordered_either.mpr ⟨ordered none, fun l => ordered (some l)⟩

theorem ordered_setFormatter (low : floor ≤ 4) (l : Option Nat) :
    Ordered rank floor (Logger.setFormatter l) :=
  ordered_logger low l (by simp [Ordered, rank])

theorem ordered_addAppender (low : floor ≤ 4) (l : Option Nat) :
    Ordered rank floor (Logger.addAppender l) :=
  ordered_logger low l (by simp [LogAppender.getFormatter, Ordered, rank])

theorem ordered_loggerYaml (low : floor ≤ 4) (l : Option Nat) :
    Ordered rank floor (Logger.toYamlString l) :=
  ordered_logger low l (by simp [LogAppender.toYamlString, Ordered, rank])

theorem ordered_clearAppender (low : floor ≤ 4) (l : Option Nat) :
    Ordered rank floor (Logger.clearAppender l) :=
  ordered_logger low l trivial

theorem ordered_listener : Ordered rank 2 (either onLoggerConfChanged onConnectTimeoutChanged) := by
  have log : Ordered rank 2 ZZ_LOG := ordered_log (by decide)
  have manager : Ordered rank 2 LoggerManager.getLogger := by
    simp [LoggerManager.getLogger, rank]
  refine LockOrder.ordered_either.mpr ⟨?_, log⟩
  unfold onLoggerConfChanged
  simp only [LockOrder.ordered_all, List.mem_cons, List.not_mem_nil, or_false, forall_eq_or_imp,
    forall_eq, Ordered]
  refine ⟨log, ⟨manager, ordered_anyLogger fun l => ?_⟩, manager,
    ordered_anyLogger (ordered_clearAppender (by decide))⟩
  simp only [LockOrder.ordered_all, List.mem_cons, List.not_mem_nil, or_false, forall_eq_or_imp,
    forall_eq, Ordered]
  refine ⟨LockOrder.ordered_perhaps.mpr (ordered_setFormatter (by decide) l),
    ordered_clearAppender (by decide) l, fun a => ⟨?_, ?_, ?_, ordered_addAppender (by decide) l⟩⟩
  · simp [LogAppender.reopen, Ordered, rank]
  · simp [Env.has, rank]
  · simp [LogAppender.setFormatter, rank]

theorem ordered_toString (low : floor ≤ 1) (v : Nat) : Ordered rank floor (ConfigVar.toString v) :=
  ⟨ordered_readLocked.mpr low, ordered_log (by omega)⟩

theorem ordered_setValue (later : ∀ v, Ordered rank 2 (added v)) (low : floor ≤ 1) (v : Nat) :
    Ordered rank floor (ConfigVar.setValue added v) :=
  ⟨⟨low, LockOrder.ordered_either.mpr ⟨ordered_listener, later v⟩⟩,
    LockOrder.ordered_perhaps.mpr (ordered_locked.mpr low)⟩

theorem ordered_fromString (later : ∀ v, Ordered rank 2 (added v)) (low : floor ≤ 1) (v : Nat) :
    Ordered rank floor (ConfigVar.fromString added v) :=
  ⟨LockOrder.ordered_perhaps.mpr (ordered_setValue later low v), ordered_log (by omega)⟩

theorem ordered_Lookup : Ordered rank 0 Config.Lookup := by
  have log : Ordered rank 1 ZZ_LOG := ordered_log (by decide)
  refine ⟨Nat.le_refl 0, LockOrder.ordered_either.mpr ⟨log, LockOrder.ordered_perhaps.mpr ⟨?_, ?_⟩⟩⟩
  · exact fun v => ordered_toString (by decide) v
  · exact LockOrder.ordered_perhaps.mp log

theorem ordered_LoadFromYaml (later : ∀ v, Ordered rank 2 (added v)) :
    Ordered rank 0 (Config.LoadFromYaml added) := by
  refine ⟨ordered_log (by decide), ?_, LockOrder.ordered_perhaps.mpr fun v => ?_⟩
  · simp [Config.LookupBase]
  · exact ordered_fromString later (by decide) v

theorem ordered_schedule (low : floor ≤ 3) (scheduler : Nat) :
    Ordered rank floor (Scheduler.schedule scheduler) :=
  ⟨ordered_locked.mpr low, LockOrder.ordered_perhaps.mpr (ordered_tickle (by omega))⟩

theorem ordered_triggerEvent (low : floor ≤ 3) : Ordered rank floor IOManager.triggerEvent :=
  fun scheduler => ordered_schedule low scheduler

theorem ordered_withContext (io : Nat) {body : Locking} (ordered : Ordered rank 3 body) :
    Ordered rank 0 (IOManager.withContext io body) := by
  refine ⟨ordered_readLocked.mpr (Nat.zero_le _), LockOrder.ordered_perhaps.mpr fun p => ?_⟩
  exact ⟨Nat.zero_le _, ordered⟩

theorem ordered_both : Ordered rank 3 (either ZZ_LOG
    (seq (perhaps IOManager.triggerEvent) (perhaps IOManager.triggerEvent))) := by
  have trigger : Ordered rank 3 (perhaps IOManager.triggerEvent) :=
    LockOrder.ordered_perhaps.mpr (ordered_triggerEvent (Nat.le_refl 3))
  exact LockOrder.ordered_either.mpr ⟨ordered_log (by decide), trigger, trigger⟩

theorem ordered_cancelEvent (io : Nat) : Ordered rank 0 (IOManager.cancelEvent io) :=
  ordered_withContext io (LockOrder.ordered_either.mpr
    ⟨ordered_log (by decide), ordered_triggerEvent (Nat.le_refl 3)⟩)

theorem ordered_cancel (io : Nat) : Ordered rank 0 (Timer.cancel io) :=
  ⟨Nat.zero_le _, ordered_log (show rank (.timers io) + 1 ≤ 4 by simp [rank])⟩

theorem ordered_addTimer (io : Nat) : Ordered rank 0 (TimerManager.addTimer io) :=
  ⟨ordered_locked.mpr (Nat.zero_le _), LockOrder.ordered_perhaps.mpr (ordered_tickle (by decide))⟩

theorem ordered_addEvent (io : Nat) : Ordered rank 0 (IOManager.addEvent io) := by
  have log : Ordered rank 3 ZZ_LOG := ordered_log (by decide)
  simp [IOManager.addEvent, Ordered, log, rank]

theorem ordered_idle (io : Nat) : Ordered rank 0 (IOManager.idle io) := by
  have log : Ordered rank 0 ZZ_LOG := ordered_log (by decide)
  have schedule : Ordered rank 0 (Scheduler.schedule io) := ordered_schedule (by decide) io
  have both := ordered_both
  simp [IOManager.idle, IOManager.stopping, TimerManager.getNextTimer, Scheduler.stopping,
    TimerManager.listExpiredCb, Ordered, log, schedule, rank] at both ⊢
  exact both

theorem ordered_do_io (io : Nat) : Ordered rank 0 (Hook.do_io io) := by
  have log : Ordered rank 0 ZZ_LOG := ordered_log (by decide)
  simp [Hook.do_io, Ordered, log, ordered_cancel, ordered_addTimer, ordered_addEvent]

end Ordered

theorem ordered_op {added : Nat → Locking} (later : ∀ v, Ordered rank 2 (added v)) {op : Op}
    (clear : op.Clear) : Ordered rank 0 (op.script added) := by
  have log : Ordered rank 0 ZZ_LOG := ordered_log (by decide)
  have get : Ordered rank 0 FdManager.get := ordered_get.mpr (Nat.zero_le 7)
  have tickle : Ordered rank 0 tickle := ordered_tickle (by decide)
  cases op with
  | construct | addBareAppender l => cases clear
  | log => exact log
  | loggersYaml =>
      exact ⟨Nat.zero_le _, ordered_anyLogger (ordered_loggerYaml (by decide))⟩
  | setLoggerFormatter l =>
      exact LockOrder.ordered_perhaps.mpr (ordered_setFormatter (by decide) l)
  | loggerYaml l => exact ordered_loggerYaml (by decide) l
  | addAppender l => exact ordered_addAppender (by decide) l
  | appenderLog a => simp [Op.script, LogAppender.log, LogAppender.reopen, Ordered, rank]
  | reopen a => simp [Op.script, LogAppender.reopen, Ordered, rank]
  | addHelp => simp [Op.script, Env.addHelp, Env.removeHelp, Ordered]
  | toString v => exact ordered_toString (by decide) v
  | setValue v => exact ordered_setValue later (by decide) v
  | fromString v => exact ordered_fromString later (by decide) v
  | Lookup => exact ordered_Lookup
  | LoadFromYaml => exact ordered_LoadFromYaml later
  | Visit cb => exact ⟨Nat.le_refl 0, clear⟩
  | LoadFromConDir =>
      refine ⟨ordered_locked.mpr (Nat.zero_le _), LockOrder.ordered_perhaps.mpr ⟨?_, log⟩⟩
      exact LockOrder.ordered_perhaps.mpr (ordered_LoadFromYaml later)
  | getFd | socket | option => simp [Op.script, Hook.socket, Hook.option, get]
  | addTimer io | sleep io => exact ordered_addTimer io
  | reset io => exact LockOrder.ordered_perhaps.mpr (ordered_addTimer io)
  | cancel io => exact ordered_cancel io
  | schedule scheduler => exact ordered_schedule (by decide) scheduler
  | switchTo scheduler =>
      exact LockOrder.ordered_perhaps.mpr (ordered_schedule (by decide) scheduler)
  | stop scheduler => simp [Op.script, Scheduler.stop, Scheduler.stopping, tickle, Ordered, log]
  | run scheduler =>
      have schedule : Ordered rank 0 (Scheduler.schedule scheduler) :=
        ordered_schedule (by decide) scheduler
      simp [Op.script, Scheduler.run, tickle, log, schedule]
  | addEvent io => exact ordered_addEvent io
  | delEvent io => exact ordered_withContext io (ordered_log (by decide))
  | cancelEvent io => exact ordered_cancelEvent io
  | timedOut io => exact LockOrder.ordered_perhaps.mpr (ordered_cancelEvent io)
  | cancelAll io => exact ordered_withContext io ordered_both
  | idle io => exact ordered_idle io
  | do_io io => exact ordered_do_io io
  | connect io =>
      simp [Op.script, Hook.connect_with_timeout, get, log, ordered_cancel, ordered_addTimer,
        ordered_addEvent]
  | accept io => exact ⟨ordered_do_io io, LockOrder.ordered_perhaps.mpr get⟩
  | close io =>
      refine ⟨get, LockOrder.ordered_perhaps.mpr ⟨?_, ordered_locked.mpr (Nat.zero_le _)⟩⟩
      exact LockOrder.ordered_perhaps.mpr (ordered_withContext io ordered_both)
  | getLogger | getLoggerFormatter l | delAppender l | clearAppender l | setAppenderFormatter a
  | getAppenderFormatter a | addArg | hasArg | delArg | printHelp | getValue v
  | addListener v | delListener v | getListener v | clearListener v | LookupBase | delFd
  | refresh io | hasTimer io | start scheduler => exact ⟨Nat.zero_le _, trivial⟩

/-- A thread that lends the formatter of a logger never gives the appender back. -/
theorem lending_stays {added : Nat → Locking} {count : Nat} {program : Nat → List Op}
    {s later : State Lock} {t a : Nat} {rest : List (Item Lock)} (inside : t < count)
    (lending : s t = .todo (LogAppender.setFormatter a) :: .leave (.appender a) .exclusive :: rest)
    (path : Path (threads count fun t => (program t).map (Op.script added)) anyStep s later) :
    later t = s t :=
  relock_stays inside lending (List.mem_cons_self ..) path

/-- Any number of threads, each with any list of clear operations, and any added listeners that
come after the variables, never come to wait for each other: from a thread that has something
left to do, waiting leads to one that can go on. -/
theorem core_never_stuck {added : Nat → Locking} (later : ∀ v, Ordered rank 2 (added v))
    {count : Nat} {program : Nat → List Op} (clear : ∀ t, ∀ op ∈ program t, op.Clear)
    {s : State Lock}
    (reached : Reach (threads count fun t => (program t).map (Op.script added)) anyStep s)
    {t : Nat} (inside : t < count) (busy : s t ≠ []) :
    ∃ u, Relation.ReflTransGen (WaitsFor count s) t u ∧
      ∀ pick, (LockOrder.step count s ⟨u, pick⟩).isSome = true := by
  have ordered : ∀ t, ∀ script ∈ (program t).map (Op.script added), Ordered rank 0 script := by
    intro t script mem
    rcases List.mem_map.mp mem with ⟨op, listed, rfl⟩
    exact ordered_op later (clear t op listed)
  exact some_thread_advances (ranked_reach ordered reached) inside busy

def twoThreads : Nat → List Op
  | 0 => [.cancelEvent 0]
  | _ => [.addEvent 0]

theorem core_never_stuck_two :
    ∃ s, run (threads 2 fun t => (twoThreads t).map (Op.script fun _ => ZZ_LOG))
        (fun t => ((twoThreads t).map (Op.script fun _ => ZZ_LOG)).map .todo)
        [⟨0, 0⟩, ⟨0, 0⟩, ⟨0, 0⟩, ⟨0, 0⟩, ⟨0, 1⟩, ⟨0, 5⟩, ⟨0, 0⟩,
          ⟨1, 0⟩, ⟨1, 0⟩, ⟨1, 0⟩, ⟨1, 0⟩, ⟨1, 0⟩, ⟨1, 0⟩, ⟨1, 0⟩, ⟨1, 0⟩, ⟨1, 5⟩] = some s ∧
      LockOrder.step 2 s ⟨1, 0⟩ = none ∧
      ∃ u, Relation.ReflTransGen (WaitsFor 2 s) 1 u ∧
        ∀ pick, (LockOrder.step 2 s ⟨u, pick⟩).isSome = true := by
  have clear : ∀ t, ∀ op ∈ twoThreads t, op.Clear := by
    intro t op mem
    match t with
    | 0 | t + 1 =>
        cases List.mem_singleton.mp mem
        trivial
  refine run_meets_where anyStep
    (fun s => !(s 1).isEmpty && (LockOrder.step 2 s ⟨1, 0⟩).isNone) rfl (by decide) (by decide) ?_
  intro s reached good
  rcases Bool.and_eq_true_iff.mp good with ⟨busy, waits⟩
  exact ⟨Option.isNone_iff_eq_none.mp waits,
    core_never_stuck (fun _ => ordered_log (by decide)) clear reached (by decide)
      (by simpa using busy)⟩

-- alone, the constructor of the LoggerManager comes to lend a formatter
example : (run (threads 1 fun _ => [LoggerManager.construct])
    (fun _ => [.todo LoggerManager.construct])
    [⟨0, 0⟩, ⟨0, 0⟩, ⟨0, 0⟩, ⟨0, 0⟩, ⟨0, 0⟩, ⟨0, 0⟩, ⟨0, 0⟩]).any
      (fun s => (held (s 0)).contains (.appender 0, .exclusive) &&
        (LockOrder.step 1 s ⟨0, 0⟩).isNone) = true := by
  decide

end Ztyco.CoreLocks
