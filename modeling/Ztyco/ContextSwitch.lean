import Mathlib.Logic.Function.Basic
import Ztyco.Fibers
import Ztyco.Transition

/-!
The context switches of fiber.cc, on the threads of a scheduler made with
use_caller. Every fiber has one saved context; `swapcontext` saves the running
one in a fiber and goes on where another fiber's was saved. `resume` and `yield`
use the context of the thread's main fiber, `swapIn` and `swapOut` that of the
thread's scheduler fiber. Which of `MainFunc` and `CallerMainFunc` a fiber ends
with is settled by `makecontext`. `entries`, `switches` and `exits` are
history: how the fibers that are running on a thread were entered, what was
saved and restored, and how fibers ended.
-/

namespace Ztyco.ContextSwitch

open Fibers (State)
open Transition

abbrev ThreadId := Nat

/-- A thread's main fiber, `m_rootFiber`, and the fibers made from a function. -/
inductive FiberName where
  | main (thread : ThreadId)
  | root
  | made (n : Nat)
  deriving DecidableEq, Repr

def FiberName.hasStack : FiberName → Bool
  | .main _ => false
  | .root | .made _ => true

/-- The function of the fiber is `run` on the root fiber, and a task or `idle` on
those that are made. -/
def FiberName.runsTask : FiberName → Bool
  | .main _ | .root => false
  | .made _ => true

inductive Primitive where
  | resume | yield | swapIn | swapOut
  deriving DecidableEq, Repr

inductive StackFunc where
  | thread | MainFunc | CallerMainFunc
  deriving DecidableEq, Repr

inductive Site where
  | captured
  | start
  | after (primitive : Primitive)
  deriving DecidableEq, Repr

/-- Where a saved context goes on: on whose stack, and at which place there. -/
structure Point where
  fiber : FiberName
  site : Site
  func : StackFunc
  deriving DecidableEq, Repr

structure Entry where
  fiber : FiberName
  primitive : Primitive
  back : Point
  deriving DecidableEq, Repr

/-- A fiber ended on a thread: how it had been entered, the primitive it ended
with, the context that was restored, and where the thread goes on. -/
structure Exit where
  thread : ThreadId
  fiber : FiberName
  entry : Option Entry
  primitive : Primitive
  restored : FiberName
  now : Point
  deriving DecidableEq, Repr

structure Process where
  m_state : FiberName → State
  m_ctx : FiberName → Point
  t_fiber : ThreadId → FiberName
  running : ThreadId → Point
  yielding : ThreadId → Bool := fun _ => false
  ended : ThreadId → Bool := fun _ => false
  entries : ThreadId → List Entry := fun _ => []
  switches : List (FiberName × FiberName) := []
  exits : List Exit := []

def m_rootThreadid : ThreadId := 0

def t_threadFiber (thread : ThreadId) : FiberName := .main thread

/-- `Scheduler::GetMainFiber()`: set by the constructor on the caller thread, and
by `run` on the others. -/
def t_scheduler_fiber (thread : ThreadId) : FiberName :=
  if thread = m_rootThreadid then .root else t_threadFiber thread

def makecontext (fiber : FiberName) (use_caller : Bool) : Point :=
  ⟨fiber, .start, if use_caller = false then .MainFunc else .CallerMainFunc⟩

namespace Process

/-- The constructor makes `m_rootFiber` with use_caller = false; the other fibers
have any flag. -/
def constructed (use_caller : Nat → Bool) : Process where
  m_state
    | .main _ => .exec
    | .root | .made _ => .init
  m_ctx
    | .main thread => ⟨.main thread, .captured, .thread⟩
    | .root => makecontext .root false
    | .made n => makecontext (.made n) (use_caller n)
  t_fiber := t_threadFiber
  running thread := ⟨.main thread, .captured, .thread⟩

def swapcontext (proc : Process) (thread : ThreadId) (primitive : Primitive)
    (save restore : FiberName) : Process :=
  let point := proc.running thread
  let m_ctx := Function.update proc.m_ctx save ⟨point.fiber, .after primitive, point.func⟩
  { proc with
    m_ctx := m_ctx
    running := Function.update proc.running thread (m_ctx restore)
    switches := proc.switches ++ [(save, restore)] }

def SetThis (proc : Process) (thread : ThreadId) (fiber : FiberName) : Process :=
  { proc with t_fiber := Function.update proc.t_fiber thread fiber }

def setState (proc : Process) (fiber : FiberName) (state : State) : Process :=
  { proc with m_state := Function.update proc.m_state fiber state }

def enter (proc : Process) (thread : ThreadId) (fiber : FiberName) (primitive : Primitive) :
    Process :=
  let point := proc.running thread
  let entry : Entry := ⟨fiber, primitive, ⟨point.fiber, .after primitive, point.func⟩⟩
  { proc with entries := Function.update proc.entries thread (entry :: proc.entries thread) }

def leave (proc : Process) (thread : ThreadId) : Process :=
  { proc with entries := Function.update proc.entries thread (proc.entries thread).tail }

def resume (proc : Process) (thread : ThreadId) (fiber : FiberName) : Process :=
  (((proc.enter thread fiber .resume).SetThis thread fiber).setState fiber .exec).swapcontext
    thread .resume (t_threadFiber thread) fiber

def yield (proc : Process) (thread : ThreadId) (fiber : FiberName) : Process :=
  ((proc.leave thread).SetThis thread (t_threadFiber thread)).swapcontext
    thread .yield fiber (t_threadFiber thread)

def swapIn (proc : Process) (thread : ThreadId) (fiber : FiberName) : Option Process :=
  if proc.m_state fiber = .exec then none
  else some ((((proc.enter thread fiber .swapIn).SetThis thread fiber).setState fiber
    .exec).swapcontext thread .swapIn (t_scheduler_fiber thread) fiber)

def swapOut (proc : Process) (thread : ThreadId) (fiber : FiberName) : Process :=
  ((proc.leave thread).SetThis thread (t_scheduler_fiber thread)).swapcontext
    thread .swapOut fiber (t_scheduler_fiber thread)

/-- The end of `MainFunc` or `CallerMainFunc`. If the switch comes back to the
same stack the function returns, and with no `uc_link` the thread ends. -/
def finish (proc : Process) (thread : ThreadId) (threw : Bool) : Process :=
  let point := proc.running thread
  let fiber := point.fiber
  let called := proc.setState fiber (if threw then .except else .term)
  let (primitive, restored, after) := match point.func with
    | .CallerMainFunc => (Primitive.yield, t_threadFiber thread, called.yield thread fiber)
    | _ => (Primitive.swapOut, t_scheduler_fiber thread, called.swapOut thread fiber)
  { after with
    ended := Function.update after.ended thread ((after.running thread).fiber = fiber)
    exits := after.exits ++
      [⟨thread, fiber, (proc.entries thread).head?, primitive, restored, after.running thread⟩] }

end Process

inductive Act where
  | stop (thread : ThreadId)
  | take (thread : ThreadId) (n : Nat)
  | resetFunc (thread : ThreadId) (n : Nat)
  | hold (thread : ThreadId) (n : Nat)
  | yieldTo (thread : ThreadId) (ready : Bool)
  | swapOut (thread : ThreadId)
  | finish (thread : ThreadId) (threw : Bool)
  deriving DecidableEq, Repr

def Act.thread : Act → ThreadId
  | .stop thread | .take thread _ | .resetFunc thread _ | .hold thread _ | .yieldTo thread _
  | .swapOut thread | .finish thread _ => thread

namespace Process

def stop (proc : Process) (thread : ThreadId) : Option Process :=
  if thread = m_rootThreadid ∧ (proc.running thread).fiber = .main thread ∧
      (proc.m_state .root).finished = false then
    some (proc.resume thread .root)
  else none

def take (proc : Process) (thread : ThreadId) (fiber : FiberName) : Option Process :=
  if (proc.running thread).fiber = t_scheduler_fiber thread ∧
      (proc.m_state fiber).finished = false then
    proc.swapIn thread fiber
  else none

/-- `func_fiber->resetFunc(func)` in `run`: the context starts with `MainFunc`. -/
def resetFunc (proc : Process) (thread : ThreadId) (fiber : FiberName) : Option Process :=
  if (proc.running thread).fiber = t_scheduler_fiber thread ∧
      ((proc.m_state fiber).finished = true ∨ proc.m_state fiber = .init) then
    some { proc.setState fiber .init with
      m_ctx := Function.update proc.m_ctx fiber (makecontext fiber false) }
  else none

def hold (proc : Process) (thread : ThreadId) (fiber : FiberName) : Option Process :=
  if (proc.running thread).fiber = t_scheduler_fiber thread ∧
      (proc.m_state fiber).finished = false then
    some (proc.setState fiber .hold)
  else none

/-- `YieldToReady` and `YieldToHold` up to the switch, in the function of a fiber. -/
def yieldTo (proc : Process) (thread : ThreadId) (ready : Bool) : Option Process :=
  let cur := proc.t_fiber thread
  if (proc.running thread).fiber.runsTask = true ∧ proc.yielding thread = false ∧
      proc.m_state cur = .exec then
    some { proc.setState cur (if ready then .ready else .hold) with
      yielding := Function.update proc.yielding thread true }
  else none

def yieldOut (proc : Process) (thread : ThreadId) : Option Process :=
  if (proc.running thread).fiber.runsTask = true ∧ proc.yielding thread = true then
    some ({ proc with yielding := Function.update proc.yielding thread false }.swapOut thread
      (proc.t_fiber thread))
  else none

def act (proc : Process) (act : Act) : Option Process :=
  if proc.ended act.thread then none else
  match act with
  | .stop thread => proc.stop thread
  | .take thread n => proc.take thread (.made n)
  | .resetFunc thread n => proc.resetFunc thread (.made n)
  | .hold thread n => proc.hold thread (.made n)
  | .yieldTo thread ready => proc.yieldTo thread ready
  | .swapOut thread => proc.yieldOut thread
  | .finish thread threw =>
      if (proc.running thread).fiber.hasStack = true ∧ proc.yielding thread = false then
        some (proc.finish thread threw)
      else none

end Process

def switching : Machine Process Act where
  initial proc := ∃ use_caller, proc = .constructed use_caller
  step := Process.act

end Ztyco.ContextSwitch
