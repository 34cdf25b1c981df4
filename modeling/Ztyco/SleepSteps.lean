import Ztyco.Sleeps
import Ztyco.Tally
import Ztyco.TimerExpiry

/-!
Fibers that sleep, from the hooked call to the return. `sleep`, `usleep` and `nanosleep` of hook.cc
add a timer that schedules the fiber, set HOLD and save the context, one after the other;
`IOManager::idle` takes the callbacks of the timers that have expired and schedules them;
`Scheduler::run` takes a callback, which schedules the fiber, and then the fiber, which goes on
where its context was saved last. Other timers come and go in the same manager, with callbacks that
are numbered from `fibers` on; a callback below is the fiber it schedules. Any thread does any step
at any time, and takes any task, with any reading of the clock. A sleeping fiber is scheduled by its
callback only. What a fiber does between two sleeps is left out, and it does not end.
-/

namespace Ztyco.Sleepers

open Fibers (Fiber FiberId Func)
open Sleeps (Caller Request Slept noSyscalls)
open Tally (tally)
open Timers
open Transition

abbrev ThreadId := Nat

inductive Status where
  | starting
  | running
  -- in the call that has this timer
  | asleep (timer : Addr)
  deriving DecidableEq, Repr

def Status.timer : Status → Option Addr
  | .starting | .running => none
  | .asleep timer => some timer

inductive Task where
  | func (cb : Func)
  | fiber (f : FiberId)
  deriving DecidableEq, Repr

inductive Pc where
  | scan
  | calling (cb : Func)
  | running (f : FiberId)
  -- the timer is there, `YieldToHold` is still to come
  | yielding (f : FiberId) (timer : Addr)
  -- HOLD is set, the context is not saved
  | saving (f : FiberId) (timer : Addr)
  | returned (f : FiberId)
  deriving DecidableEq, Repr

def Pc.fiber : Pc → Option FiberId
  | .scan | .calling _ => none
  | .running f | .yielding f _ | .saving f _ | .returned f => some f

/-- One call: the reading its timer was made at, the delay it asked for, the readings that left the
timer pending, the reading that took it with `m_previousTime` as it was then, and how often it has
returned. -/
structure Sleep where
  fiber : FiberId
  start : UInt64
  delay : UInt64
  missed : List UInt64 := []
  fired : Option (UInt64 × UInt64) := none
  resumed : Nat := 0
  deriving DecidableEq, Repr

/-- `status` and `sleeps` are history. -/
structure System where
  mgr : TimerManager
  -- `Scheduler::m_tasks`
  tasks : List Task
  worker : ThreadId → Pc := fun _ => .scan
  fiber : FiberId → Fiber := fun _ => {}
  -- the call in which the context of a fiber was saved last
  context : FiberId → Option Addr := fun _ => none
  status : FiberId → Status := fun _ => .starting
  sleeps : Addr → Option Sleep := fun _ => none

def delayOf : Request → UInt64
  | .sleep seconds => (seconds * 1000).toUInt64
  | .usleep usec => (usec / 1000).toUInt64
  | .nanosleep tv_sec tv_nsec =>
      (tv_sec * 1000 + tv_nsec / 1000 / 1000).toInt32.toInt64.toUInt64

def heldBy {Ret : Type} : Slept Ret → Option TimerManager
  | .kernel _ => none
  | .held _ _ mgr => some mgr

def called (here : Caller) : Request → Option TimerManager
  | .sleep seconds => heldBy (here.sleep noSyscalls seconds)
  | .usleep usec => heldBy (here.usleep noSyscalls usec)
  | .nanosleep tv_sec tv_nsec => heldBy (here.nanosleep noSyscalls tv_sec tv_nsec)

theorem called_eq {here : Caller} (enabled : here.t_hook_enable = true) (request : Request) :
    called here request = some (here.mgr.addTimer here.timer (delayOf request) (some here.fiber)
      false here.now).2 := by
  cases request with
  | sleep => simp [called, Caller.sleep, Caller.hold, heldBy, delayOf, enabled]
  | usleep => simp [called, Caller.usleep, Caller.hold, heldBy, delayOf, enabled]
  | nanosleep => simp [called, Caller.nanosleep, Caller.hold, heldBy, delayOf, enabled]

inductive Act where
  | sleep (w : ThreadId) (request : Request) (timer : Addr) (now : UInt64)
  | hold (w : ThreadId)
  | save (w : ThreadId)
  | inspect (w : ThreadId)
  -- an operation on a timer that no sleep has made
  | foreign (op : Op)
  | expire (temp : Addr) (now : UInt64)
  | take (w : ThreadId) (task : Task)
  | run (w : ThreadId)
  deriving DecidableEq, Repr

def Sleep.look (sleep : Sleep) (mgr : TimerManager) (timer : Addr) (now : UInt64) : Sleep :=
  if timer ∈ mgr.due now then { sleep with fired := some (now, mgr.m_previousTime) }
  else if timer ∈ mgr.m_timers then { sleep with missed := sleep.missed ++ [now] }
  else sleep

namespace System

/-- The timers that hooked calls have made are not handed out. -/
def foreign (fibers : Nat) (s : System) : Op → Bool
  | .addTimer _ _ cb _ _ => fibers ≤ cb
  | .cancel timer | .refresh timer _ | .reset timer _ _ _ => (s.sleeps timer).isNone
  | .getNextTimer _ => true
  | .listExpiredCb _ _ => false

def goto (s : System) (w : ThreadId) (pc : Pc) : System :=
  { s with worker := Function.update s.worker w pc }

def setFiber (s : System) (f : FiberId) (fiber : Fiber) : System :=
  { s with fiber := Function.update s.fiber f fiber }

def comeBack (s : System) : Option Addr → Addr → Option Sleep
  | none => s.sleeps
  | some timer => Function.update s.sleeps timer
      ((s.sleeps timer).map fun sleep => { sleep with resumed := sleep.resumed + 1 })

def inspect (s : System) (w : ThreadId) (f : FiberId) : System :=
  let m_state := (s.fiber f).m_state
  if m_state = .ready then { s with tasks := s.tasks ++ [Task.fiber f] }.goto w .scan
  else if m_state.finished then s.goto w .scan
  else (s.setFiber f { s.fiber f with m_state := .hold }).goto w .scan

end System

section Machine
variable (threads : List ThreadId) (fibers : Nat)

def Act.effect (s : System) : Act → Option System
  | .sleep w request timer now =>
      match s.worker w with
      | .running f =>
          if timer ∉ s.mgr.created then
            (called ⟨true, f, s.mgr, timer, now⟩ request).map fun mgr =>
              { s with
                mgr := mgr
                worker := Function.update s.worker w (.yielding f timer)
                status := Function.update s.status f (.asleep timer)
                sleeps := Function.update s.sleeps timer
                  (some { fiber := f, start := now, delay := delayOf request }) }
          else none
      | _ => none
  | .hold w =>
      match s.worker w with
      | .yielding f timer => ((s.fiber f).yieldTo .hold).map fun fiber =>
          (s.setFiber f fiber).goto w (.saving f timer)
      | _ => none
  | .save w =>
      match s.worker w with
      | .saving f timer =>
          some ({ s with context := Function.update s.context f (some timer) }.goto w (.returned f))
      | _ => none
  | .inspect w =>
      match s.worker w with
      | .returned f => some (s.inspect w f)
      | _ => none
  | .foreign op =>
      if s.foreign fibers op then (timers.step s.mgr op).map fun mgr => { s with mgr := mgr }
      else none
  | .expire temp now =>
      if temp ∉ s.mgr.created then
        some { s with
          mgr := (s.mgr.listExpiredCb temp now).2
          -- `scheduleNoLock` drops a null function
          tasks := s.tasks ++ ((s.mgr.listExpiredCb temp now).1.filterMap id).map .func
          sleeps := fun timer => (s.sleeps timer).map fun sleep => sleep.look s.mgr timer now }
      else none
  | .take w (.func cb) =>
      if w ∈ threads ∧ s.worker w = .scan ∧ .func cb ∈ s.tasks then
        some ({ s with tasks := s.tasks.erase (.func cb) }.goto w (.calling cb))
      else none
  | .take w (.fiber f) =>
      if w ∈ threads ∧ s.worker w = .scan ∧ .fiber f ∈ s.tasks then
        (s.fiber f).swapIn.map fun fiber =>
          { s with
            tasks := s.tasks.erase (.fiber f)
            worker := Function.update s.worker w (.running f)
            fiber := Function.update s.fiber f fiber
            status := Function.update s.status f .running
            sleeps := s.comeBack (s.context f) }
      else none
  | .run w =>
      match s.worker w with
      | .calling cb =>
          some ({ s with
            tasks := if cb < fibers then s.tasks ++ [Task.fiber cb] else s.tasks }.goto w .scan)
      | _ => none

def sleeping : Machine System Act where
  initial s := threads.Nodup ∧
    ∃ now, s = { mgr := .constructed now, tasks := (List.range fibers).map fun f => .fiber f }
  step s act := act.effect threads fibers s

def clear (s : System) : Act → Bool
  | .take _ (.fiber f) => threads.all fun v => (s.worker v).fiber != some f
  | _ => true

/-- No thread takes a fiber that another one has not done with. -/
def Clear (s : System) (act : Act) : Prop := clear threads s act = true

instance Clear.decidable (s : System) (act : Act) : Decidable (Clear threads s act) :=
  inferInstanceAs (Decidable (clear threads s act = true))

end Machine

/-! Which thread has which fiber. -/

def Pc.Fits (s : System) : Pc → Prop
  | .scan | .calling _ => True
  | .running f => s.status f = .running
  | .yielding f timer => s.status f = .asleep timer
  | .saving f timer => s.status f = .asleep timer ∧ (s.fiber f).m_state = .hold
  | .returned f => s.status f ≠ .running ∧ s.context f = (s.status f).timer ∧
      (s.fiber f).m_state = .hold

/-- A fiber is with one thread, or its context has been saved where it sleeps. -/
structure Handled (threads : List ThreadId) (fibers : Nat) (s : System) : Prop where
  nodup : threads.Nodup
  inside : ∀ w, s.worker w ≠ .scan → w ∈ threads
  single : ∀ v w f, (s.worker v).fiber = some f → (s.worker w).fiber = some f → v = w
  small : ∀ w f, (s.worker w).fiber = some f → f < fibers
  queued : ∀ f, .fiber f ∈ s.tasks → f < fibers
  fits : ∀ w, (s.worker w).Fits s
  free : ∀ f, (∀ w, (s.worker w).fiber ≠ some f) →
    s.status f ≠ .running ∧ s.context f = (s.status f).timer

section Hands
variable {threads : List ThreadId} {fibers : Nat} {s after : System} {w : ThreadId} {f : FiberId}

theorem fits_congr {pc : Pc} (fits : pc.Fits s) (same : ∀ g, pc.fiber = some g →
    after.status g = s.status g ∧ after.context g = s.context g ∧ after.fiber g = s.fiber g) :
    pc.Fits after := by
  cases pc with
  | scan => trivial
  | calling cb => trivial
  | running f => exact (same f rfl).1.trans fits
  | yielding f timer => exact (same f rfl).1.trans fits
  | saving f timer =>
      rcases same f rfl with ⟨status, _, fiber⟩
      exact ⟨status.trans fits.1, (congrArg _ fiber).trans fits.2⟩
  | returned f =>
      rcases same f rfl with ⟨status, context, fiber⟩
      rw [Pc.Fits, status, context, fiber]
      exact fits

/-- A thread goes on with the fiber it has in hand, or puts it down. -/
theorem Handled.goes_on (handled : Handled threads fibers s) (here : (s.worker w).fiber = some f)
    {pc : Pc} (worker : after.worker = Function.update s.worker w pc)
    (others : ∀ g ≠ f, after.status g = s.status g ∧ after.context g = s.context g ∧
      after.fiber g = s.fiber g)
    (tasks : ∀ g, .fiber g ∈ after.tasks → g < fibers) (fits : pc.Fits after)
    (hand : pc.fiber = some f ∨ pc.fiber = none ∧
      after.status f ≠ .running ∧ after.context f = (after.status f).timer) :
    Handled threads fibers after := by
  have keeps : ∀ {g}, pc.fiber = some g → g = f := by
    intro g held
    rcases hand with same | ⟨none, _⟩
    · exact Option.some.inj (held.symm.trans same)
    · cases none.symm.trans held
  have was : ∀ {v g}, (after.worker v).fiber = some g → (s.worker v).fiber = some g := by
    intro v g held
    rw [worker] at held
    by_cases same : v = w
    · subst same
      rw [Function.update_self] at held
      rw [keeps held]
      exact here
    · rwa [Function.update_of_ne same] at held
  refine ⟨handled.nodup, ?_, ?_, ?_, tasks, ?_, ?_⟩
  · intro v busy
    by_cases same : v = w
    · subst same
      apply handled.inside
      intro idle
      rw [idle] at here
      cases here
    · rw [worker, Function.update_of_ne same] at busy
      exact handled.inside v busy
  · intro v u g left right
    exact handled.single v u g (was left) (was right)
  · intro v g held
    exact handled.small v g (was held)
  · intro v
    rw [worker]
    by_cases same : v = w
    · rwa [same, Function.update_self]
    · rw [Function.update_of_ne same]
      apply fits_congr (handled.fits v)
      intro g held
      apply others
      rintro rfl
      exact same (handled.single v w g held here)
  · intro g alone
    by_cases same : g = f
    · subst same
      rcases hand with held | ⟨_, saved⟩
      · apply absurd held
        have elsewhere := alone w
        rwa [worker, Function.update_self] at elsewhere
      · exact saved
    · rcases others g same with ⟨status, context, _⟩
      rw [status, context]
      apply handled.free
      intro v held
      apply alone v
      rw [worker]
      by_cases at_w : v = w
      · subst at_w
        rw [here] at held
        cases held
        exact absurd rfl same
      · rwa [Function.update_of_ne at_w]

/-- A thread takes up a fiber that no thread has. -/
theorem Handled.takes (handled : Handled threads fibers s) (mem : w ∈ threads)
    (idle : s.worker w = .scan) (alone : ∀ v, (s.worker v).fiber ≠ some f) (bound : f < fibers)
    (worker : after.worker = Function.update s.worker w (.running f))
    (others : ∀ g ≠ f, after.status g = s.status g ∧ after.context g = s.context g ∧
      after.fiber g = s.fiber g)
    (tasks : ∀ g, .fiber g ∈ after.tasks → g < fibers) (runs : after.status f = .running) :
    Handled threads fibers after := by
  have cases_of : ∀ {v g}, (after.worker v).fiber = some g →
      v = w ∧ g = f ∨ v ≠ w ∧ (s.worker v).fiber = some g := by
    intro v g held
    rw [worker] at held
    by_cases same : v = w
    · subst same
      rw [Function.update_self] at held
      exact .inl ⟨rfl, (Option.some.inj held).symm⟩
    · rw [Function.update_of_ne same] at held
      exact .inr ⟨same, held⟩
  refine ⟨handled.nodup, ?_, ?_, ?_, tasks, ?_, ?_⟩
  · intro v busy
    by_cases same : v = w
    · exact same ▸ mem
    · rw [worker, Function.update_of_ne same] at busy
      exact handled.inside v busy
  · intro v u g left right
    rcases cases_of left with ⟨rfl, rfl⟩ | ⟨_, left⟩
    · rcases cases_of right with ⟨rfl, _⟩ | ⟨_, right⟩
      · rfl
      · exact absurd right (alone u)
    · rcases cases_of right with ⟨_, rfl⟩ | ⟨_, right⟩
      · exact absurd left (alone v)
      · exact handled.single v u g left right
  · intro v g held
    rcases cases_of held with ⟨_, rfl⟩ | ⟨_, held⟩
    · exact bound
    · exact handled.small v g held
  · intro v
    rw [worker]
    by_cases same : v = w
    · rw [same, Function.update_self]
      exact runs
    · rw [Function.update_of_ne same]
      apply fits_congr (handled.fits v)
      intro g held
      apply others
      rintro rfl
      exact alone v held
  · intro g unheld
    have other : g ≠ f := by
      rintro rfl
      apply unheld w
      rw [worker, Function.update_self]
      rfl
    rcases others g other with ⟨status, context, _⟩
    rw [status, context]
    apply handled.free
    intro v held
    apply unheld v
    rw [worker]
    by_cases at_w : v = w
    · subst at_w
      rw [idle] at held
      cases held
    · rwa [Function.update_of_ne at_w]

/-- A thread takes or ends a callback. -/
theorem Handled.calls (handled : Handled threads fibers s) (mem : w ∈ threads)
    (was : (s.worker w).fiber = none) {pc : Pc} (now_none : pc.fiber = none)
    (worker : after.worker = Function.update s.worker w pc)
    (same : after.status = s.status ∧ after.context = s.context ∧ after.fiber = s.fiber)
    (tasks : ∀ g, .fiber g ∈ after.tasks → g < fibers) : Handled threads fibers after := by
  have hands : ∀ v, (after.worker v).fiber = (s.worker v).fiber := by
    intro v
    rw [worker]
    by_cases at_w : v = w
    · rw [at_w, Function.update_self, now_none, was]
    · rw [Function.update_of_ne at_w]
  rcases same with ⟨status, context, fiber⟩
  refine ⟨handled.nodup, ?_, ?_, ?_, tasks, ?_, ?_⟩
  · intro v busy
    by_cases at_w : v = w
    · exact at_w ▸ mem
    · rw [worker, Function.update_of_ne at_w] at busy
      exact handled.inside v busy
  · intro v u g left right
    exact handled.single v u g ((hands v).symm.trans left) ((hands u).symm.trans right)
  · intro v g held
    exact handled.small v g ((hands v).symm.trans held)
  · intro v
    rw [worker]
    by_cases at_w : v = w
    · rw [at_w, Function.update_self]
      cases pc with
      | scan | calling => trivial
      | running | yielding | saving | returned => cases now_none
    · rw [Function.update_of_ne at_w]
      apply fits_congr (handled.fits v)
      intro g _
      rw [status, context, fiber]
      exact ⟨rfl, rfl, rfl⟩
  · intro g unheld
    rw [status, context]
    exact handled.free g fun v held => unheld v ((hands v).trans held)

end Hands

/-! What a step does. -/

def System.calling (threads : List ThreadId) (s : System) (cb : Func) : Nat :=
  tally (fun pc => if pc = .calling cb then 1 else 0) threads s.worker

section Steps
variable {threads : List ThreadId} {fibers : Nat} {s after : System}

theorem calling_update (handled : Handled threads fibers s) {w : ThreadId} (mem : w ∈ threads)
    (pc : Pc) (cb : Func) (same : after.worker = Function.update s.worker w pc) :
    after.calling threads cb + (if s.worker w = .calling cb then 1 else 0) =
      s.calling threads cb + if pc = .calling cb then 1 else 0 := by
  rw [System.calling, same]
  exact Tally.tally_update (fun pc => if pc = .calling cb then 1 else 0) s.worker
    handled.nodup mem pc

inductive Moved (threads : List ThreadId) (fibers : Nat) (s : System) : System → Prop where
  | sleep {w : ThreadId} {f : FiberId} {timer : Addr} (request : Request) (now : UInt64)
      (here : s.worker w = .running f) (fresh : timer ∉ s.mgr.created) :
      Moved threads fibers s { s with
        mgr := (s.mgr.addTimer timer (delayOf request) (some f) false now).2
        worker := Function.update s.worker w (.yielding f timer)
        status := Function.update s.status f (.asleep timer)
        sleeps := Function.update s.sleeps timer
          (some { fiber := f, start := now, delay := delayOf request }) }
  -- between the call and the scan, where the fiber is not touched
  | switch {w : ThreadId} {f : FiberId} {pc : Pc} {fiber : FiberId → Fiber}
      {context : FiberId → Option Addr} (here : (s.worker w).fiber = some f)
      (hand : pc.fiber = some f ∨ pc = .scan) :
      Moved threads fibers s { s with
        worker := Function.update s.worker w pc
        fiber := fiber
        context := context }
  | foreign {op : Op} {mgr : TimerManager} (others : s.foreign fibers op = true)
      (taken : timers.step s.mgr op = some mgr) : Moved threads fibers s { s with mgr := mgr }
  | expire {temp : Addr} (now : UInt64) (fresh : temp ∉ s.mgr.created) :
      Moved threads fibers s { s with
        mgr := (s.mgr.listExpiredCb temp now).2
        tasks := s.tasks ++ ((s.mgr.listExpiredCb temp now).1.filterMap id).map .func
        sleeps := fun timer => (s.sleeps timer).map fun sleep => sleep.look s.mgr timer now }
  | takeFunc {w : ThreadId} {cb : Func} (mem : w ∈ threads) (idle : s.worker w = .scan)
      (queued : .func cb ∈ s.tasks) :
      Moved threads fibers s { s with
        tasks := s.tasks.erase (.func cb)
        worker := Function.update s.worker w (.calling cb) }
  | takeFiber {w : ThreadId} {f : FiberId} {fiber : Fiber} (mem : w ∈ threads)
      (idle : s.worker w = .scan) (queued : .fiber f ∈ s.tasks)
      (alone : ∀ v, (s.worker v).fiber ≠ some f) :
      Moved threads fibers s { s with
        tasks := s.tasks.erase (.fiber f)
        worker := Function.update s.worker w (.running f)
        fiber := Function.update s.fiber f fiber
        status := Function.update s.status f .running
        sleeps := s.comeBack (s.status f).timer }
  | run {w : ThreadId} {cb : Func} (here : s.worker w = .calling cb) :
      Moved threads fibers s { s with
        tasks := if cb < fibers then s.tasks ++ [.fiber cb] else s.tasks
        worker := Function.update s.worker w .scan }

theorem inspect_moved (handled : Handled threads fibers s) {w : ThreadId} {f : FiberId}
    (here : s.worker w = .returned f) : Moved threads fibers s (s.inspect w f) := by
  have fits := handled.fits w
  rw [here] at fits
  have held : (s.fiber f).m_state = .hold := fits.2.2
  have result : s.inspect w f = { s with
      worker := Function.update s.worker w .scan
      fiber := Function.update s.fiber f { s.fiber f with m_state := .hold } } := by
    simp [System.inspect, held, Fibers.State.finished, System.setFiber, System.goto]
  rw [result]
  exact .switch (by rw [here]; rfl) (.inr rfl)

theorem clear_alone (handled : Handled threads fibers s) {w : ThreadId} {f : FiberId}
    (clear : Clear threads s (.take w (.fiber f))) : ∀ v, (s.worker v).fiber ≠ some f := by
  intro v held
  have mem : v ∈ threads := by
    apply handled.inside
    intro idle
    rw [idle] at held
    cases held
  have other := List.all_eq_true.mp clear v mem
  simp [held] at other

theorem moved_of_effect (handled : Handled threads fibers s) {act : Act}
    (clear : Clear threads s act) (done : act.effect threads fibers s = some after) :
    Moved threads fibers s after := by
  cases act with
  | sleep w request timer now =>
      simp only [Act.effect] at done
      split at done
      · rename_i f here
        split at done
        · rename_i fresh
          rw [called_eq rfl] at done
          cases done
          exact .sleep request now here fresh
        · cases done
      · cases done
  | hold w =>
      simp only [Act.effect] at done
      split at done
      · rename_i f timer here
        rcases Option.map_eq_some_iff.mp done with ⟨fiber, _, rfl⟩
        exact .switch (by rw [here]; rfl) (.inl rfl)
      · cases done
  | save w =>
      simp only [Act.effect] at done
      split at done
      · rename_i f timer here
        cases done
        exact .switch (by rw [here]; rfl) (.inl rfl)
      · cases done
  | inspect w =>
      simp only [Act.effect] at done
      split at done
      · rename_i f here
        cases done
        exact inspect_moved handled here
      · cases done
  | foreign op =>
      simp only [Act.effect] at done
      split at done
      · rename_i others
        rcases Option.map_eq_some_iff.mp done with ⟨mgr, taken, rfl⟩
        exact .foreign others taken
      · cases done
  | expire temp now =>
      simp only [Act.effect] at done
      split at done
      · rename_i fresh
        cases done
        exact .expire now fresh
      · cases done
  | take w task =>
      cases task with
      | func cb =>
          simp only [Act.effect] at done
          split at done
          · rename_i guard
            cases done
            exact .takeFunc guard.1 guard.2.1 guard.2.2
          · cases done
      | fiber f =>
          simp only [Act.effect] at done
          split at done
          · rename_i guard
            rcases Option.map_eq_some_iff.mp done with ⟨fiber, _, rfl⟩
            have alone := clear_alone handled clear
            rw [(handled.free f alone).2]
            exact .takeFiber guard.1 guard.2.1 guard.2.2 alone
          · cases done
  | run w =>
      simp only [Act.effect] at done
      split at done
      · rename_i cb here
        cases done
        exact .run here
      · cases done

theorem Handled.same (handled : Handled threads fibers s) (worker : after.worker = s.worker)
    (status : after.status = s.status) (context : after.context = s.context)
    (fiber : after.fiber = s.fiber) (tasks : ∀ g, .fiber g ∈ after.tasks → g < fibers) :
    Handled threads fibers after := by
  refine ⟨handled.nodup, ?_, ?_, ?_, tasks, ?_, ?_⟩
  · rw [worker]
    exact handled.inside
  · rw [worker]
    exact handled.single
  · rw [worker]
    exact handled.small
  · intro w
    rw [worker]
    apply fits_congr (handled.fits w)
    intro g _
    rw [status, context, fiber]
    exact ⟨rfl, rfl, rfl⟩
  · rw [worker, status, context]
    exact handled.free

theorem update_others {Value : Type} (old : FiberId → Value) (f : FiberId) (value : Value) :
    ∀ g ≠ f, Function.update old f value g = old g :=
  fun _ differs => Function.update_of_ne differs ..

theorem handled_inspect (handled : Handled threads fibers s) {w : ThreadId} {f : FiberId}
    (here : s.worker w = .returned f) : Handled threads fibers (s.inspect w f) := by
  have fits := handled.fits w
  rw [here] at fits
  have held : (s.fiber f).m_state = .hold := fits.2.2
  have result : s.inspect w f =
      (s.setFiber f { s.fiber f with m_state := .hold }).goto w .scan := by
    simp [System.inspect, held, Fibers.State.finished]
  rw [result]
  refine handled.goes_on (by rw [here]; rfl) rfl ?_ handled.queued trivial
    (.inr ⟨rfl, fits.1, fits.2.1⟩)
  exact fun g differs => ⟨rfl, rfl, update_others s.fiber f _ g differs⟩

theorem handled_hold (handled : Handled threads fibers s) {w : ThreadId} {f : FiberId}
    {timer : Addr} {fiber : Fiber} (here : s.worker w = .yielding f timer)
    (yielded : (s.fiber f).yieldTo .hold = some fiber) :
    Handled threads fibers ((s.setFiber f fiber).goto w (.saving f timer)) := by
  have asleep := handled.fits w
  rw [here] at asleep
  have held : fiber.m_state = .hold := by
    rcases Option.ite_none_right_eq_some.mp yielded with ⟨_, result⟩
    cases result
    rfl
  refine handled.goes_on (by rw [here]; rfl) rfl ?_ handled.queued ?_ (.inl rfl)
  · exact fun g differs => ⟨rfl, rfl, update_others s.fiber f _ g differs⟩
  · exact ⟨asleep, (congrArg _ (Function.update_self ..)).trans held⟩

theorem handled_save (handled : Handled threads fibers s) {w : ThreadId} {f : FiberId}
    {timer : Addr} (here : s.worker w = .saving f timer) :
    Handled threads fibers
      ({ s with context := Function.update s.context f (some timer) }.goto w (.returned f)) := by
  have asleep := handled.fits w
  rw [here] at asleep
  refine handled.goes_on (by rw [here]; rfl) rfl ?_ handled.queued ?_ (.inl rfl)
  · exact fun g differs => ⟨rfl, update_others s.context f _ g differs, rfl⟩
  · have status : s.status f = .asleep timer := asleep.1
    refine ⟨?_, ?_, asleep.2⟩
    · simp [System.goto, status]
    · simp [System.goto, status, Status.timer]

theorem handled_step (handled : Handled threads fibers s) {act : Act}
    (clear : Clear threads s act) (done : act.effect threads fibers s = some after) :
    Handled threads fibers after := by
  cases act with
  | sleep w request timer now =>
      simp only [Act.effect] at done
      split at done
      · rename_i f here
        split at done
        · rw [called_eq rfl] at done
          cases done
          refine handled.goes_on (by rw [here]; rfl) rfl ?_ handled.queued
            (Function.update_self ..) (.inl rfl)
          exact fun g differs => ⟨update_others s.status f _ g differs, rfl, rfl⟩
        · cases done
      · cases done
  | hold w =>
      simp only [Act.effect] at done
      split at done
      · rename_i f timer here
        rcases Option.map_eq_some_iff.mp done with ⟨fiber, yielded, rfl⟩
        exact handled_hold handled here yielded
      · cases done
  | save w =>
      simp only [Act.effect] at done
      split at done
      · rename_i f timer here
        cases done
        exact handled_save handled here
      · cases done
  | inspect w =>
      simp only [Act.effect] at done
      split at done
      · rename_i f here
        cases done
        exact handled_inspect handled here
      · cases done
  | foreign op =>
      simp only [Act.effect] at done
      split at done
      · rcases Option.map_eq_some_iff.mp done with ⟨mgr, _, rfl⟩
        exact handled.same rfl rfl rfl rfl handled.queued
      · cases done
  | expire temp now =>
      simp only [Act.effect] at done
      split at done
      · cases done
        refine handled.same rfl rfl rfl rfl ?_
        intro g mem
        rcases List.mem_append.mp mem with old | new
        · exact handled.queued g old
        · rcases List.mem_map.mp new with ⟨cb, _, equal⟩
          cases equal
      · cases done
  | take w task =>
      cases task with
      | func cb =>
          simp only [Act.effect] at done
          split at done
          · rename_i guard
            cases done
            refine handled.calls guard.1 (by rw [guard.2.1]; rfl) rfl rfl ⟨rfl, rfl, rfl⟩ ?_
            exact fun g mem => handled.queued g (List.mem_of_mem_erase mem)
          · cases done
      | fiber f =>
          simp only [Act.effect] at done
          split at done
          · rename_i guard
            rcases Option.map_eq_some_iff.mp done with ⟨fiber, _, rfl⟩
            refine handled.takes guard.1 guard.2.1 (clear_alone handled clear)
              (handled.queued f guard.2.2) rfl ?_ ?_ (Function.update_self ..)
            · exact fun g differs => ⟨update_others s.status f _ g differs, rfl,
                update_others s.fiber f _ g differs⟩
            · exact fun g mem => handled.queued g (List.mem_of_mem_erase mem)
          · cases done
  | run w =>
      simp only [Act.effect] at done
      split at done
      · rename_i cb here
        cases done
        refine handled.calls (handled.inside w ?_) (by rw [here]; rfl) rfl rfl ⟨rfl, rfl, rfl⟩ ?_
        · rw [here]
          exact Pc.noConfusion
        · intro g mem
          simp only [System.goto] at mem
          split at mem
          · rename_i wakes
            rcases List.mem_append.mp mem with old | new
            · exact handled.queued g old
            · cases List.mem_singleton.mp new
              exact wakes
          · exact handled.queued g mem
      · cases done

end Steps

end Ztyco.Sleepers
