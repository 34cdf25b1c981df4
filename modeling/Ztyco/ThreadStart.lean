import Ztyco.Transition

/-!
thread.cc: one Thread object, the thread that constructs and later destroys it, and
the thread that it starts. `Thread::run` reads and writes the object of its argument;
the constructor waits on the object's semaphore until `run` has done with it, or throws when
`sem_wait` fails. The two threads' steps interleave in any way. `uses` is the history of the
new thread's accesses to the object, each with whether the object still existed.
-/

namespace Ztyco.ThreadStart

open Transition

abbrev Func := Nat
abbrev Tid := Int32
abbrev Text := List Char

inductive Owner where
  | create
  | wait
  | constructed
  | threw
  -- the constructor has thrown after `pthread_create`, and the members are destroyed
  | abandoned
  | destroyed
  deriving DecidableEq, Repr

/-- Where `Thread::run` stands; `func` is its local variable. -/
inductive Runner where
  | unborn
  | setThis
  | setName
  | setId
  | pthreadName
  | swap
  | notify (func : Option Func)
  | call (func : Option Func)
  | inside
  | done
  deriving DecidableEq, Repr

/-- What has become of the pthread. -/
inductive Pthread where
  | none
  | joinable
  | joined
  | detached
  deriving DecidableEq, Repr

structure State where
  owner : Owner := .create
  runner : Runner := .unborn
  /-- The kernel's id of the new thread. -/
  tid : Tid := 0
  m_id : Tid := -1
  /-- `m_thread` is not 0. -/
  m_thread : Bool := false
  m_name : Text
  m_func : Option Func
  m_semaphore : Nat := 0
  pthread : Pthread := .none
  t_thread_name : Text := "UNKNOW".toList
  pthread_name : Text := []
  calls : List (Option Func) := []
  uses : List Bool := []
  deriving DecidableEq, Repr

def State.exists_ (s : State) : Bool := s.owner = .wait || s.owner = .constructed

def State.use (s : State) : State := { s with uses := s.uses ++ [s.exists_] }

inductive Act where
  | create (tid : Tid)
  | createFails
  | wait
  | waitFails
  | join
  | destroy
  | setThis
  | setName
  | setId
  | pthreadName
  | swap
  | notify
  | call
  | rename (name : Text)
  | return_
  deriving DecidableEq, Repr

def Act.effect (s : State) : Act → Option State
  | .create tid =>
      if s.owner = .create then
        some { s with
          owner := .wait, m_thread := true, pthread := .joinable, runner := .setThis, tid := tid }
      else none
  -- "pthread_create error"
  | .createFails => if s.owner = .create then some { s with owner := .threw } else none
  | .wait =>
      if s.owner = .wait ∧ 0 < s.m_semaphore then
        some { s with owner := .constructed, m_semaphore := s.m_semaphore - 1 }
      else none
  -- "sem_wait error", after a signal
  | .waitFails => if s.owner = .wait then some { s with owner := .abandoned } else none
  -- pthread_join returns when the thread has ended
  | .join =>
      if s.owner = .constructed then
        if s.m_thread then
          if s.runner = .done then some { s with m_thread := false, pthread := .joined } else none
        else some s
      else none
  | .destroy =>
      if s.owner = .constructed then
        some { s with
          owner := .destroyed
          pthread := if s.m_thread then .detached else s.pthread }
      else none
  | .setThis => if s.runner = .setThis then some { s with runner := .setName } else none
  | .setName =>
      if s.runner = .setName then
        some { s.use with runner := .setId, t_thread_name := s.m_name }
      else none
  | .setId =>
      if s.runner = .setId then some { s.use with runner := .pthreadName, m_id := s.tid } else none
  | .pthreadName =>
      if s.runner = .pthreadName then
        some { s.use with runner := .swap, pthread_name := s.m_name.take 15 }
      else none
  | .swap =>
      if s.runner = .swap then some { s.use with runner := .notify s.m_func, m_func := none }
      else none
  | .notify =>
      match s.runner with
      | .notify func => some { s.use with runner := .call func, m_semaphore := s.m_semaphore + 1 }
      | _ => none
  | .call =>
      match s.runner with
      | .call func => some { s with runner := .inside, calls := s.calls ++ [func] }
      | _ => none
  -- SetName in the function, which goes to t_thread
  | .rename name =>
      if s.runner = .inside then
        some (if name.isEmpty then s else { s.use with m_name := name, t_thread_name := name })
      else none
  | .return_ => if s.runner = .inside then some { s with runner := .done } else none

def given (name : Text) : Text := if name.isEmpty then "UNKNOW".toList else name

def thread (func : Func) (name : Text) : Machine State Act where
  initial s := s = { m_func := some func, m_name := given name }
  step s act := act.effect s

/-- `sem_wait` does not fail, and the function does not give its thread a name after the
object is gone. -/
def Orderly (s : State) : Act → Prop
  | .waitFails => False
  | .rename name => name.isEmpty = true ∨ s.owner ≠ .destroyed
  | _ => True

instance Orderly.decidable (s : State) : (act : Act) → Decidable (Orderly s act)
  | .waitFails => inferInstanceAs (Decidable False)
  | .rename name => inferInstanceAs (Decidable (name.isEmpty = true ∨ s.owner ≠ .destroyed))
  | .create _ | .createFails | .wait | .join | .destroy | .setThis | .setName | .setId
  | .pthreadName | .swap | .notify | .call | .return_ => .isTrue trivial

def Runner.rank : Runner → Nat
  | .unborn => 0
  | .setThis => 1
  | .setName => 2
  | .setId => 3
  | .pthreadName => 4
  | .swap => 5
  | .notify _ => 6
  | .call _ => 7
  | .inside => 8
  | .done => 9

/-- How far both threads are tells what is in the object. -/
structure Handshake (func : Func) (name : Text) (s : State) : Prop where
  born : s.runner.rank = 0 ↔ s.owner = .create ∨ s.owner = .threw
  semaphore : s.m_semaphore = if s.owner = .wait ∧ 7 ≤ s.runner.rank then 1 else 0
  published : s.owner = .constructed ∨ s.owner = .destroyed → 7 ≤ s.runner.rank
  kept : s.runner.rank ≤ 5 → s.m_func = some func
  swapped : 6 ≤ s.runner.rank → s.m_func = none
  carried : ∀ local_, s.runner = .notify local_ ∨ s.runner = .call local_ → local_ = some func
  calls : s.calls = if 8 ≤ s.runner.rank then [some func] else []
  original : s.runner.rank ≤ 7 → s.m_name = given name
  numbered : 4 ≤ s.runner.rank → s.m_id = s.tid
  named : 3 ≤ s.runner.rank → s.t_thread_name = s.m_name
  shown : 5 ≤ s.runner.rank → s.pthread_name = (given name).take 15
  safe : ∀ use ∈ s.uses, use = true
  pthread : s.pthread = match s.owner with
    | .create | .threw => .none
    | .wait | .abandoned => .joinable
    | .constructed => if s.m_thread then .joinable else .joined
    | .destroyed => if s.m_thread then .detached else .joined
  joined : s.pthread = .joined → s.runner = .done
  started : s.owner = .wait → s.m_thread = true
  met : s.owner ≠ .abandoned

theorem handshake_start (func : Func) (name : Text) :
    Handshake func name { m_func := some func, m_name := given name } := by
  constructor <;> simp [Runner.rank]

section Steps
variable {func : Func} {name : Text} {s after : State}

theorem owner_step {act : Act} (holds : Handshake func name s)
    (owner : (∃ tid, act = .create tid) ∨ act = .createFails ∨ act = .wait ∨ act = .join ∨
      act = .destroy)
    (done : act.effect s = some after) : Handshake func name after := by
  rcases holds with ⟨born, semaphore, published, kept, swapped, carried, calls, original, numbered,
    named, shown, safe, pthread, joined, started, met⟩
  rcases owner with ⟨tid, rfl⟩ | rfl | rfl | rfl | rfl
  · simp only [Act.effect] at done
    constructor <;> grind [Runner.rank]
  · simp only [Act.effect] at done
    constructor <;> grind [Runner.rank]
  -- the semaphore is up only when `run` has done with the object
  · simp only [Act.effect] at done
    constructor <;> grind [Runner.rank]
  · simp only [Act.effect] at done
    constructor <;> grind [Runner.rank]
  · simp only [Act.effect] at done
    constructor <;> grind [Runner.rank]

theorem Handshake.waits (holds : Handshake func name s) (begun : s.runner.rank ≠ 0)
    (early : s.runner.rank < 7) : s.owner = .wait := by
  have born := holds.born
  have published := holds.published
  cases owner : s.owner with
  | wait => rfl
  | create => exact absurd (born.mpr (Or.inl owner)) begun
  | threw => exact absurd (born.mpr (Or.inr owner)) begun
  | constructed => exact absurd (published (Or.inl owner)) (Nat.not_le.mpr early)
  | abandoned => exact absurd owner holds.met
  | destroyed => exact absurd (published (Or.inr owner)) (Nat.not_le.mpr early)

theorem run_step {act : Act} (holds : Handshake func name s)
    (early : s.runner.rank ≠ 0 → s.runner.rank < 7 → s.owner = .wait)
    (runner : act = .setThis ∨ act = .setName ∨ act = .setId ∨ act = .pthreadName ∨
      act = .swap ∨ act = .notify)
    (done : act.effect s = some after) : Handshake func name after := by
  rcases holds with ⟨born, semaphore, published, kept, swapped, carried, calls, original, numbered,
    named, shown, safe, pthread, joined, started, met⟩
  rcases runner with rfl | rfl | rfl | rfl | rfl | rfl
  · simp only [Act.effect] at done
    constructor <;> grind [Runner.rank]
  · simp only [Act.effect] at done
    constructor <;> grind [Runner.rank, State.use, State.exists_]
  · simp only [Act.effect] at done
    constructor <;> grind [Runner.rank, State.use, State.exists_]
  · simp only [Act.effect] at done
    constructor <;> grind [Runner.rank, State.use, State.exists_]
  · simp only [Act.effect] at done
    constructor <;> grind [Runner.rank, State.use, State.exists_]
  · simp only [Act.effect] at done
    constructor <;> grind [Runner.rank, State.use, State.exists_]

theorem call_step {act : Act} (holds : Handshake func name s) (quiet : Orderly s act)
    (runner : act = .call ∨ (∃ name, act = .rename name) ∨ act = .return_)
    (done : act.effect s = some after) : Handshake func name after := by
  rcases holds with ⟨born, semaphore, published, kept, swapped, carried, calls, original, numbered,
    named, shown, safe, pthread, joined, started, met⟩
  rcases runner with rfl | ⟨text, rfl⟩ | rfl
  · simp only [Act.effect] at done
    constructor <;> grind [Runner.rank]
  -- the only use of the object after the handshake
  · have there : text.isEmpty = true ∨ s.owner ≠ .destroyed := quiet
    simp only [Act.effect] at done
    constructor <;> grind [Runner.rank, State.use, State.exists_]
  · simp only [Act.effect] at done
    constructor <;> grind [Runner.rank]

end Steps

/-- As long as `sem_wait` does not fail, the constructor returns only after the new thread has
published its id, taken the name and taken the function out of the object; the function that runs
is the one given, once; the object is not touched after its end unless the function names its
thread then; and the pthread is joined after its end or detached, and not both. -/
theorem handshake {func : Func} {name : Text} {s : State}
    (reached : Reach (thread func name) Orderly s) : Handshake func name s := by
  apply reached.invariant (Handshake func name)
  · rintro _ rfl
    exact handshake_start func name
  · intro before act after _ holds quiet moved
    have done : act.effect before = some after := moved
    cases act with
    | create tid => exact owner_step holds (by simp) done
    | createFails => exact owner_step holds (by simp) done
    | wait => exact owner_step holds (by simp) done
    | waitFails => exact quiet.elim
    | join => exact owner_step holds (by simp) done
    | destroy => exact owner_step holds (by simp) done
    | setThis => exact run_step holds holds.waits (by simp) done
    | setName => exact run_step holds holds.waits (by simp) done
    | setId => exact run_step holds holds.waits (by simp) done
    | pthreadName => exact run_step holds holds.waits (by simp) done
    | swap => exact run_step holds holds.waits (by simp) done
    | notify => exact run_step holds holds.waits (by simp) done
    | call => exact call_step holds quiet (by simp) done
    | rename text => exact call_step holds quiet (by simp) done
    | return_ => exact call_step holds quiet (by simp) done

theorem handshake_detached :
    ∃ s, run (thread 5 ['w']) { m_func := some 5, m_name := ['w'] }
        [.create 42, .setThis, .setName, .setId, .pthreadName, .swap, .notify, .call,
          .rename ['x'], .wait, .destroy, .return_] = some s ∧ Handshake 5 ['w'] s :=
  run_meets Orderly rfl (by decide) (by decide) fun _ reached => handshake reached

-- a name that comes too late goes to an object that is gone
example : (run (thread 5 ['w']) { m_func := some 5, m_name := ['w'] }
    [.create 42, .setThis, .setName, .setId, .pthreadName, .swap, .notify, .wait, .destroy,
      .call, .rename ['x']]).map (·.uses.getLast?) = some (some false) := by decide

-- a constructor that throws leaves the new thread with an object that is gone
example : (run (thread 5 ['w']) { m_func := some 5, m_name := ['w'] }
    [.create 42, .setThis, .waitFails, .setName]).map (·.uses) = some [false] := by decide

end Ztyco.ThreadStart
