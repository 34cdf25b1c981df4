import Mathlib.Logic.Function.Basic
import Ztyco.Fibers
import Ztyco.Transition

/-!
scheduler.h and scheduler.cc with the idle loop of iomanager.cc: any number of
workers in `Scheduler::run`, every interleaving of their atomic steps. A
worker's program counter says where it stands in `run` and which task or fiber
it has in hand. Calls of `schedule()` from outside `run` (other threads, fiber
bodies, triggers, timer callbacks) push their tasks in one step and tickle in
later ones, which no thread is named for. A byte that `stop()` or a timer
inserted at the front writes is `tickleElsewhere`, at any time.

The fcntl call of the constructor passes the flag word as its command, so the
read end of the tickle pipe blocks: a worker that reads it stays in the read
loop until a read fails. Idle fibers are their worker's own and are kept as
one flag; the base class's idle loop is an `epoll_wait` that returns at once.
`pushed` and `taken` are history, read by no step.
-/

namespace Ztyco.Scheduler

open Fibers (FiberId Func Fiber)
open Transition

abbrev ThreadId := Int32

structure ScheduleTask where
  fiber : Option FiberId := none
  func : Option Func := none
  threadId : ThreadId := -1
  deriving DecidableEq, Repr

def ScheduleTask.mayRun (task : ScheduleTask) (thread : ThreadId) : Bool :=
  task.threadId == -1 || task.threadId == thread

def ScheduleTask.valid (task : ScheduleTask) : Bool := task.fiber.isSome || task.func.isSome

inductive Next where
  | branch (task : Option ScheduleTask)
  | scan
  deriving DecidableEq, Repr

/-- `own` tells the function branch, which runs the worker's `func_fiber`, from
the fiber branch. -/
inductive Pc where
  | scan
  | tickle (next : Next)
  | tickleWrite (next : Next)
  | branch (task : Option ScheduleTask)
  | swapIn (fiber : FiberId) (own : Bool)
  | running (fiber : FiberId) (own : Bool)
  | saving (fiber : FiberId) (own : Bool)
  | returned (fiber : FiberId) (own : Bool)
  | inspect (fiber : FiberId) (own : Bool)
  | requeue (fiber : FiberId) (own : Bool)
  | drop
  | goIdle
  | idle
  | epollWait
  | draining
  | leaveIdle (term : Bool)
  | exit
  deriving DecidableEq, Repr

def Next.pc : Next → Pc
  | .branch task => .branch task
  | .scan => .scan

structure Worker where
  pc : Pc := .scan
  func_fiber : Option FiberId := none
  idleTerm : Bool := false
  deriving DecidableEq, Repr

structure System where
  threads : List ThreadId
  worker : ThreadId → Worker := fun _ => {}
  m_tasks : List ScheduleTask := []
  m_activeThreadCount : UInt64 := 0
  m_idleThreadCount : UInt64 := 0
  m_stopping : Bool := true
  m_autoStop : Bool := false
  fibers : FiberId → Fiber := fun _ => {}
  nextFiber : FiberId := 0
  registered : List FiberId := []
  pipe : Nat := 0
  tickling : Nat := 0
  writing : Nat := 0
  pushed : List ScheduleTask := []
  taken : List (ThreadId × ScheduleTask) := []

/-- The loop of `run` over `m_tasks`: the task taken, what is left, and
`tickle_me`. -/
def takeTask (thread : ThreadId) : List ScheduleTask →
    Option ScheduleTask × List ScheduleTask × Bool
  | [] => (none, [], false)
  | it :: rest =>
      -- tickle_me |= it != m_tasks.end(), after the erase
      if it.mayRun thread then (some it, rest, !rest.isEmpty)
      else
        let (task, left, _) := takeTask thread rest
        (task, it :: left, true)

def scheduleNoLock (m_tasks : List ScheduleTask) (tk : ScheduleTask) :
    Bool × List ScheduleTask :=
  (m_tasks.isEmpty, if tk.valid then m_tasks ++ [tk] else m_tasks)

def scheduleAll (m_tasks : List ScheduleTask) : List ScheduleTask → Bool × List ScheduleTask
  | [] => (false, m_tasks)
  | tk :: rest =>
      let (need_tickle, m_tasks) := scheduleNoLock m_tasks tk
      -- need_tickle is set by any task that met an empty queue
      let (later, m_tasks) := scheduleAll m_tasks rest
      (later || need_tickle, m_tasks)

namespace System

def stopping (s : System) : Bool :=
  s.m_autoStop && s.m_stopping && s.m_tasks.isEmpty && s.m_activeThreadCount == 0

def goto (s : System) (w : ThreadId) (pc : Pc) : System :=
  { s with worker := Function.update s.worker w { s.worker w with pc := pc } }

def setFiber (s : System) (f : FiberId) (fiber : Fiber) : System :=
  { s with fibers := Function.update s.fibers f fiber }

def push (s : System) (tasks : List ScheduleTask) : System :=
  { s with
    m_tasks := (scheduleAll s.m_tasks tasks).2
    pushed := s.pushed ++ tasks.filter ScheduleTask.valid }

def needTickle (s : System) (tasks : List ScheduleTask) : Bool := (scheduleAll s.m_tasks tasks).1

def schedule (s : System) (tasks : List ScheduleTask) : System :=
  { s.push tasks with tickling := s.tickling + (s.needTickle tasks).toNat }

/-- `Scheduler::GetThis() == this` on a worker. -/
def switchTo (s : System) (w : ThreadId) (f : FiberId) (thread : ThreadId) : System :=
  if thread = -1 ∨ thread = w then s else s.schedule [{ fiber := some f, threadId := thread }]

def take (s : System) (w : ThreadId) : System :=
  let (task, left, tickle_me) := takeTask w s.m_tasks
  { s with
    m_tasks := left
    m_activeThreadCount :=
      if task.isSome then s.m_activeThreadCount + 1 else s.m_activeThreadCount
    taken := s.taken ++ (task.map (w, ·)).toList }.goto w
      (if tickle_me then .tickle (.branch task) else .branch task)

/-- `resetFunc` on the kept fiber, or a new one. -/
def funcBranch (s : System) (w : ThreadId) (func : Func) : Option System :=
  match (s.worker w).func_fiber with
  | some f => ((s.fibers f).resetFunc (some func)).map fun fiber =>
      (s.setFiber f fiber).goto w (.swapIn f true)
  | none =>
      let f := s.nextFiber
      some ({ s.setFiber f { m_func := some func } with
        nextFiber := f + 1
        worker := Function.update s.worker w { s.worker w with func_fiber := some f } }.goto w
          (.swapIn f true))

def branch (s : System) (w : ThreadId) : Option ScheduleTask → Option System
  | some task =>
      match task.fiber.filter fun f => !(s.fibers f).m_state.finished with
      | some f => some (s.goto w (.swapIn f false))
      | none =>
          -- also where the task has a fiber that has finished
          match task.func with
          | some func => s.funcBranch w func
          | none => some (s.goto w .drop)
  | none => some (s.goto w (if (s.worker w).idleTerm then .exit else .goIdle))

def swapIn (s : System) (w : ThreadId) (f : FiberId) (own : Bool) : Option System :=
  (s.fibers f).swapIn.map fun fiber => (s.setFiber f fiber).goto w (.running f own)

def yieldTo (s : System) (w : ThreadId) (f : FiberId) (own : Bool) (target : Fibers.State) :
    Option System :=
  ((s.fibers f).yieldTo target).map fun fiber => (s.setFiber f fiber).goto w (.saving f own)

def finish (s : System) (w : ThreadId) (f : FiberId) (own threw : Bool) : System :=
  (s.setFiber f ((s.fibers f).finish threw)).goto w (.saving f own)

def decrement (s : System) (w : ThreadId) (pc : Pc) : System :=
  { s with m_activeThreadCount := s.m_activeThreadCount - 1 }.goto w pc

def dropFuncFiber (s : System) (w : ThreadId) (own : Bool) : System :=
  if own then { s with worker := Function.update s.worker w { s.worker w with func_fiber := none } }
  else s

/-- The state of the fiber that came back, read after the decrement. -/
def inspect (s : System) (w : ThreadId) (f : FiberId) (own : Bool) : Option System :=
  if (s.fibers f).m_state = .ready then some (s.goto w (.requeue f own))
  else if (s.fibers f).m_state.finished then
    if own then ((s.fibers f).resetFunc none).map fun fiber => (s.setFiber f fiber).goto w .scan
    else some (s.goto w .scan)
  else
    -- whatever the state is, EXEC too
    some (((s.setFiber f { s.fibers f with m_state := .hold }).dropFuncFiber w own).goto w .scan)

def requeue (s : System) (w : ThreadId) (f : FiberId) (own : Bool) : System :=
  let task : ScheduleTask := { fiber := some f }
  ((s.push [task]).dropFuncFiber w own).goto w
    (if s.needTickle [task] then .tickle .scan else .scan)

end System

inductive Act where
  | start
  | autoStop
  | stop
  | newFiber (func : Func)
  | schedule (tasks : List ScheduleTask)
  | tickleOutside
  | writeOutside
  | tickleElsewhere
  | trigger (f : FiberId)
  | addEvent (w : ThreadId) (f : FiberId) (own : Bool)
  | switchTo (w : ThreadId) (f : FiberId) (own : Bool) (thread : ThreadId)
  | take (w : ThreadId)
  | tickle (w : ThreadId) (next : Next)
  | tickleWrite (w : ThreadId) (next : Next)
  | branch (w : ThreadId) (task : Option ScheduleTask)
  | swapIn (w : ThreadId) (f : FiberId) (own : Bool)
  | yieldTo (w : ThreadId) (f : FiberId) (own : Bool) (target : Fibers.State)
  | finish (w : ThreadId) (f : FiberId) (own threw : Bool)
  | swapOut (w : ThreadId) (f : FiberId) (own : Bool)
  | decrement (w : ThreadId) (f : FiberId) (own : Bool)
  | inspect (w : ThreadId) (f : FiberId) (own : Bool)
  | requeue (w : ThreadId) (f : FiberId) (own : Bool)
  | drop (w : ThreadId)
  | goIdle (w : ThreadId)
  | checkStopping (w : ThreadId) (quiet : Bool)
  | wake (w : ThreadId) (tickled : Bool)
  | drain (w : ThreadId)
  | endDrain (w : ThreadId)
  | leaveIdle (w : ThreadId) (term : Bool)
  deriving DecidableEq, Repr

/-- The worker that takes the step, and where it stands. -/
def Act.site : Act → Option (ThreadId × Pc)
  | .start | .autoStop | .stop | .newFiber _ | .schedule _ | .tickleOutside | .writeOutside
  | .tickleElsewhere | .trigger _ => none
  | .addEvent w f own | .switchTo w f own _ => some (w, .running f own)
  | .take w => some (w, .scan)
  | .tickle w next => some (w, .tickle next)
  | .tickleWrite w next => some (w, .tickleWrite next)
  | .branch w task => some (w, .branch task)
  | .swapIn w f own => some (w, .swapIn f own)
  | .yieldTo w f own _ | .finish w f own _ => some (w, .running f own)
  | .swapOut w f own => some (w, .saving f own)
  | .decrement w f own => some (w, .returned f own)
  | .inspect w f own => some (w, .inspect f own)
  | .requeue w f own => some (w, .requeue f own)
  | .drop w => some (w, .drop)
  | .goIdle w => some (w, .goIdle)
  | .checkStopping w _ => some (w, .idle)
  | .wake w _ => some (w, .epollWait)
  | .drain w | .endDrain w => some (w, .draining)
  | .leaveIdle w term => some (w, .leaveIdle term)

/-- What the environment must provide: pointers to existing fibers, an
unfinished `schedule()`, a registered fiber, a byte in the pipe. -/
def Act.guard (s : System) : Act → Prop
  | .schedule tasks => ∀ task ∈ tasks, ∀ f ∈ task.fiber, f < s.nextFiber
  | .tickleOutside => 0 < s.tickling
  | .writeOutside => 0 < s.writing
  | .trigger f => f ∈ s.registered
  | .yieldTo _ _ _ target => target = .ready ∨ target = .hold
  | .wake _ tickled => tickled = true → 0 < s.pipe
  | .drain _ => 0 < s.pipe
  | _ => True

instance Act.guard.decidable (s : System) (act : Act) : Decidable (act.guard s) := by
  cases act <;> unfold Act.guard <;> infer_instance

def Act.enabled (s : System) (act : Act) : Prop :=
  (∀ at_ ∈ act.site, at_.1 ∈ s.threads ∧ (s.worker at_.1).pc = at_.2) ∧ act.guard s

instance Act.enabled.decidable (s : System) (act : Act) : Decidable (act.enabled s) := by
  unfold Act.enabled
  infer_instance

/-- `none` is a failed assertion. -/
def Act.effect (s : System) : Act → Option System
  | .start => some { s with m_stopping := false }
  | .autoStop => some { s with m_autoStop := true }
  | .stop => some { s with m_stopping := true }
  | .newFiber func =>
      some { s.setFiber s.nextFiber { m_func := some func } with nextFiber := s.nextFiber + 1 }
  | .schedule tasks => some (s.schedule tasks)
  -- tickle() returns at once where !hasIdleThreads()
  | .tickleOutside => some { s with
      tickling := s.tickling - 1
      writing := if s.m_idleThreadCount > 0 then s.writing + 1 else s.writing }
  | .writeOutside => some { s with writing := s.writing - 1, pipe := s.pipe + 1 }
  | .tickleElsewhere => some { s with pipe := s.pipe + 1 }
  | .trigger f => some { s.schedule [{ fiber := some f }] with registered := s.registered.erase f }
  | .addEvent _ f _ => some { s with registered := s.registered ++ [f] }
  | .switchTo w f _ thread => some (s.switchTo w f thread)
  | .take w => some (s.take w)
  | .tickle w next =>
      some (s.goto w (if s.m_idleThreadCount > 0 then .tickleWrite next else next.pc))
  | .tickleWrite w next => some ({ s with pipe := s.pipe + 1 }.goto w next.pc)
  | .branch w task => s.branch w task
  | .swapIn w f own => s.swapIn w f own
  | .yieldTo w f own target => s.yieldTo w f own target
  | .finish w f own threw => some (s.finish w f own threw)
  | .swapOut w f own => some (s.goto w (.returned f own))
  | .decrement w f own => some (s.decrement w (.inspect f own))
  | .inspect w f own => s.inspect w f own
  | .requeue w f own => some (s.requeue w f own)
  | .drop w => some (s.decrement w .scan)
  | .goIdle w => some ({ s with m_idleThreadCount := s.m_idleThreadCount + 1 }.goto w .idle)
  | .checkStopping w quiet =>
      some (s.goto w (if quiet && s.stopping then .leaveIdle true else .epollWait))
  | .wake w tickled => some (s.goto w (if tickled then .draining else .leaveIdle false))
  -- one read takes as much as the buffer holds
  | .drain _ => some { s with pipe := s.pipe - 256 }
  | .endDrain w => some (s.goto w (.leaveIdle false))
  | .leaveIdle w term => some ({ s with
      m_idleThreadCount := s.m_idleThreadCount - 1
      worker := Function.update s.worker w { s.worker w with idleTerm := term } }.goto w .scan)

/-- Any number of workers with different thread ids, before their first scan. -/
def scheduler : Machine System Act where
  initial s := ∃ threads : List ThreadId, threads.Nodup ∧ s = { threads := threads }
  step s act := if act.enabled s then act.effect s else none

end Ztyco.Scheduler
