import Mathlib.Logic.Function.Basic
import Ztyco.Fibers
import Ztyco.Transition

/-!
The event table of iomanager.cc. `m_fdContexts` holds pointers, as in the
source: `contextResize` replaces every pointer and never frees an old context,
and epoll reports the pointer it was given, so contexts live in a heap that
only grows. `epoll` is the kernel's interest list. Every operation takes the
result of its `epoll_ctl` as an argument. `log` is history, read by no
operation: the successful registrations, the discards of `delEvent` and the
calls of `schedule()`, each with the fd and the event of its context.
A failed assertion, a vector index out of bounds and a call through a null
scheduler end the process.
-/

namespace Ztyco.EventTable

open Fibers (FiberId Func)
open Transition

abbrev SchedulerId := Nat
abbrev Ptr := Nat
abbrev Mask := BitVec 32

inductive Event where
  | none | read | write
  deriving DecidableEq, Repr

def Event.bits : Event → Mask
  | .none => 0x0
  | .read => 0x1
  | .write => 0x4

def EPOLLIN : Mask := 0x1
def EPOLLOUT : Mask := 0x4
def EPOLLERR : Mask := 0x8
def EPOLLHUP : Mask := 0x10
def EPOLLET : Mask := 0x80000000

inductive Waiter where
  | fiber (fiber : FiberId)
  | callback (cb : Func)
  deriving DecidableEq, Repr

structure EventContext where
  scheduler : Option SchedulerId := none
  fiber : Option FiberId := none
  cb : Option Func := none
  deriving DecidableEq, Repr

/-- What `triggerEvent` hands to `schedule()`: the callback if there is one. -/
def EventContext.waiter (ectx : EventContext) : Option Waiter :=
  match ectx.cb with
  | some cb => some (.callback cb)
  | none => ectx.fiber.map .fiber

structure FdContext where
  read : EventContext := {}
  write : EventContext := {}
  fd : Int32 := 0
  events : Mask := 0
  deriving DecidableEq, Repr

/-- `none` is the failed assertion of the default case. -/
def FdContext.getEventContext (ctx : FdContext) : Event → Option EventContext
  | .read => some ctx.read
  | .write => some ctx.write
  | .none => none

/-- Assignment through the reference that `getEventContext` returns. -/
def FdContext.setEventContext (ctx : FdContext) (ectx : EventContext) : Event → FdContext
  | .read => { ctx with read := ectx }
  | .write => { ctx with write := ectx }
  | .none => ctx

def FdContext.resetEventContext (ctx : FdContext) (e : Event) : FdContext :=
  ctx.setEventContext {} e

def FdContext.has (ctx : FdContext) (e : Event) : Bool := ctx.events &&& e.bits != 0

inductive EpollCtlOp where
  | add | mod | del
  deriving DecidableEq, Repr

structure EpollEvent where
  events : Mask
  ptr : Ptr
  deriving DecidableEq, Repr

inductive Happening where
  | registered (fd : Int32) (e : Event) (waiter : Waiter)
  | discarded (fd : Int32) (e : Event) (waiter : Waiter)
  | scheduled (fd : Int32) (e : Event) (scheduler : SchedulerId) (waiter : Waiter)
  deriving DecidableEq, Repr

inductive Fault where
  | outOfBounds
  | badEvent
  | notRegistered
  | alreadyRegistered
  | contextInUse
  | fiberNotExec
  | eventsLeft
  | nullScheduler
  deriving DecidableEq, Repr

structure IOManager where
  m_pendingEventCount : UInt64 := 0
  m_fdContexts : List Ptr := []
  heap : Ptr → FdContext := fun _ => {}
  allocated : Nat := 0
  epoll : Int32 → Option EpollEvent := fun _ => none
  log : List Happening := []

structure Caller where
  scheduler : Option SchedulerId
  fiber : FiberId
  state : Fibers.State
  deriving DecidableEq, Repr

namespace IOManager

def store (io : IOManager) (p : Ptr) (ctx : FdContext) : IOManager :=
  { io with heap := Function.update io.heap p ctx }

def epollCtl (io : IOManager) (op : EpollCtlOp) (fd : Int32) (event : EpollEvent) : IOManager :=
  { io with epoll := Function.update io.epoll fd (if op = .del then none else some event) }

def record (io : IOManager) (happening : Option Happening) : IOManager :=
  { io with log := io.log ++ happening.toList }

/-- Every slot of the resized vector gets a new context, the old ones too. -/
def contextResize (io : IOManager) (size : Nat) : IOManager :=
  { io with
    m_fdContexts := (List.range size).map (io.allocated + ·)
    heap := fun p =>
      if io.allocated ≤ p ∧ p < io.allocated + size then
        { fd := Int32.ofNat (p - io.allocated) }
      else io.heap p
    allocated := io.allocated + size }

def covers (io : IOManager) (fd : Int32) : Bool := fd < Int32.ofNat io.m_fdContexts.length

def context (io : IOManager) (fd : Int32) : Option Ptr :=
  if fd < 0 then none else io.m_fdContexts[fd.toNatClampNeg]?

def grown (fd : Int32) : Nat := 3 * fd.toNatClampNeg / 2

/-- `events & ~events` clears every event of the context, not only `evt`. -/
def triggerEvent (io : IOManager) (p : Ptr) (evt : Event) : Except Fault IOManager :=
  let ctx := io.heap p
  if ctx.has evt then
    let ctx := { ctx with events := ctx.events &&& ~~~ctx.events }
    match ctx.getEventContext evt with
    | none => .error .badEvent
    | some ectx =>
      match ectx.scheduler with
      | none => .error .nullScheduler
      | some scheduler =>
        let io := io.record (ectx.waiter.map (.scheduled ctx.fd evt scheduler))
        .ok (io.store p (ctx.resetEventContext evt))
  else .error .notRegistered

def triggerAndCount (io : IOManager) (p : Ptr) (evt : Event) : Except Fault IOManager :=
  (io.triggerEvent p evt).map fun io =>
    { io with m_pendingEventCount := io.m_pendingEventCount - 1 }

def install (io : IOManager) (caller : Caller) (fd : Int32) (p : Ptr) (e : Event)
    (cb : Option Func) : Except Fault (Int32 × IOManager) :=
  -- counted before the two assertions below
  let io := { io with m_pendingEventCount := io.m_pendingEventCount + 1 }
  let ctx := { io.heap p with events := (io.heap p).events ||| e.bits }
  match ctx.getEventContext e with
  | none => .error .badEvent
  | some ectx =>
    if ectx.scheduler.isSome || ectx.fiber.isSome || ectx.cb.isSome then .error .contextInUse
    else
      let ectx := { ectx with scheduler := caller.scheduler }
      match cb with
      | some cb =>
        .ok (0, (io.store p (ctx.setEventContext { ectx with cb := some cb } e)).record
          (some (.registered fd e (.callback cb))))
      | none =>
        if caller.state = .exec then
          .ok (0,
            (io.store p (ctx.setEventContext { ectx with fiber := some caller.fiber } e)).record
              (some (.registered fd e (.fiber caller.fiber))))
        else .error .fiberNotExec

def addEvent (io : IOManager) (caller : Caller) (fd : Int32) (e : Event)
    (cb : Option Func) (ret : Int32) : Except Fault (Int32 × IOManager) :=
  let io := if io.covers fd then io else io.contextResize (grown fd)
  match io.context fd with
  | none => .error .outOfBounds
  | some p =>
    let ctx := io.heap p
    if ctx.has e then .error .alreadyRegistered else
    let op := if ctx.events ≠ 0 then .mod else .add
    -- EPOLLIN whatever the event is
    let epevt : EpollEvent := ⟨EPOLLIN ||| ctx.events ||| e.bits, p⟩
    -- a failed epoll_ctl leaves the grown table behind
    if ret ≠ 0 then .ok (-1, io) else
    (io.epollCtl op fd epevt).install caller fd p e cb

def withContext (io : IOManager) (fd : Int32)
    (body : Ptr → FdContext → Except Fault (Bool × IOManager)) :
    Except Fault (Bool × IOManager) :=
  if io.covers fd then
    match io.context fd with
    | none => .error .outOfBounds
    | some p => body p (io.heap p)
  else .ok (false, io)

def delEvent (io : IOManager) (fd : Int32) (e : Event) (ret : Int32) :
    Except Fault (Bool × IOManager) :=
  io.withContext fd fun p ctx =>
    if ctx.has e then
      let new_events := ctx.events &&& ~~~e.bits
      let op := if new_events ≠ 0 then .mod else .del
      if ret ≠ 0 then .ok (false, io) else
      let io := io.epollCtl op fd ⟨new_events ||| EPOLLET, p⟩
      let io := { io with m_pendingEventCount := io.m_pendingEventCount - 1 }
      match ctx.getEventContext e with
      | none => .error .badEvent
      | some ectx =>
        let ctx := { ctx with events := new_events }
        .ok (true, (io.store p (ctx.resetEventContext e)).record
          (ectx.waiter.map (.discarded fd e)))
    else .ok (false, io)

def cancelEvent (io : IOManager) (fd : Int32) (e : Event) (ret : Int32) :
    Except Fault (Bool × IOManager) :=
  io.withContext fd fun p ctx =>
    if ctx.has e then
      let new_events := ctx.events &&& ~~~e.bits
      let op := if new_events ≠ 0 then .mod else .del
      if ret ≠ 0 then .ok (false, io) else
      -- EPOLLIN, where delEvent asks for EPOLLET
      let io := io.epollCtl op fd ⟨new_events ||| EPOLLIN, p⟩
      (io.triggerAndCount p e).map (true, ·)
    else .ok (false, io)

def triggerIfSet (io : IOManager) (p : Ptr) (e : Event) : Except Fault IOManager :=
  if (io.heap p).has e then io.triggerAndCount p e else .ok io

def cancelAll (io : IOManager) (fd : Int32) (ret : Int32) : Except Fault (Bool × IOManager) :=
  io.withContext fd fun p ctx =>
    if ctx.events = 0 then .ok (false, io) else
    if ret ≠ 0 then .ok (false, io) else
    let io := io.epollCtl .del fd ⟨0, p⟩
    match (io.triggerIfSet p .read).bind (·.triggerIfSet p .write) with
    | .error fault => .error fault
    | .ok io => if (io.heap p).events = 0 then .ok (true, io) else .error .eventsLeft

/-- An EPOLLERR or EPOLLHUP report is widened to the registered events. -/
def widen (ctx : FdContext) (reported : Mask) : Mask :=
  if reported &&& (EPOLLERR ||| EPOLLHUP) ≠ 0 then
    reported ||| ((EPOLLIN ||| EPOLLOUT) &&& ctx.events)
  else reported

def realEvts (reported : Mask) : Mask :=
  (if reported &&& EPOLLIN ≠ 0 then Event.read.bits else 0) |||
    (if reported &&& EPOLLOUT ≠ 0 then Event.write.bits else 0)

def triggerIfReal (io : IOManager) (p : Ptr) (real_evts : Mask) (e : Event) :
    Except Fault IOManager :=
  if real_evts &&& e.bits ≠ 0 then io.triggerAndCount p e else .ok io

def dispatch (io : IOManager) (p : Ptr) (reported : Mask) (ret : Int32) :
    Except Fault IOManager :=
  let ctx := io.heap p
  let real_evts := realEvts (widen ctx reported)
  if ctx.events &&& real_evts = 0 then .ok io else
  -- from here on real_evts is not masked by the registered events
  let evts_left := ctx.events &&& ~~~real_evts
  let op := if evts_left ≠ 0 then .mod else .del
  if ret ≠ 0 then .ok io else
  let io := io.epollCtl op ctx.fd ⟨evts_left ||| EPOLLET, p⟩
  (io.triggerIfReal p real_evts .read).bind (·.triggerIfReal p real_evts .write)

/-- The idle loop over the reports of one `epoll_wait`. A report of the tickle
pipe touches no context; the others come with the result of their `epoll_ctl`. -/
def dispatchAll (io : IOManager) : List (Option (EpollEvent × Int32)) → Except Fault IOManager
  | [] => .ok io
  | none :: rest => io.dispatchAll rest
  | some (event, ret) :: rest =>
      (io.dispatch event.ptr event.events ret).bind (·.dispatchAll rest)

/-- The constructor ends with `contextResize(32)`. -/
def constructed : IOManager := ({} : IOManager).contextResize 32

end IOManager

inductive Op where
  | addEvent (caller : Caller) (fd : Int32) (e : Event) (cb : Option Func) (ret : Int32)
  | delEvent (fd : Int32) (e : Event) (ret : Int32)
  | cancelEvent (fd : Int32) (e : Event) (ret : Int32)
  | cancelAll (fd : Int32) (ret : Int32)
  | dispatch (p : Ptr) (reported : Mask) (ret : Int32)
  deriving DecidableEq, Repr

def IOManager.perform (io : IOManager) : Op → Except Fault IOManager
  | .addEvent caller fd e cb ret => (io.addEvent caller fd e cb ret).map (·.2)
  | .delEvent fd e ret => (io.delEvent fd e ret).map (·.2)
  | .cancelEvent fd e ret => (io.cancelEvent fd e ret).map (·.2)
  | .cancelAll fd ret => (io.cancelAll fd ret).map (·.2)
  | .dispatch p reported ret => io.dispatch p reported ret

def ioManager : Machine IOManager Op where
  initial io := io = IOManager.constructed
  step io op := (io.perform op).toOption

end Ztyco.EventTable
