import Ztyco.StopSoundness

/-!
iomanager.cc, what may be left behind when every worker has left `run`. The idle
loop asks `IOManager::stopping` before each wait: whether a timer is set, whether
an event is pending, and then `Scheduler::stopping`, three reads at three moments.
The machine here makes each read a step of its own. Around the workers of
Scheduler.lean it keeps the number of timers, the task each pending event will
schedule, and the callbacks of expired timers that a worker has yet to schedule.
-/

namespace Ztyco.Shutdown

open Fibers (FiberId Func)
open Scheduler
open Transition

/-- The three tests of `IOManager::stopping`, which is also what they are about. -/
inductive Test where
  | timers
  | events
  | queue
  deriving DecidableEq, Repr

def Test.rank : Test → Nat
  | .timers => 0
  | .events => 1
  | .queue => 2

/-- `triggered` counts the events whose task is scheduled and that are still counted,
`next` is the test a worker in the idle loop makes next. -/
structure IOManager where
  sched : System
  timers : Nat := 0
  events : List ScheduleTask := []
  triggered : Nat := 0
  next : ThreadId → Test := fun _ => .timers
  due : ThreadId → List Func := fun _ => []

def IOManager.m_pendingEventCount (m : IOManager) : Nat := m.events.length + m.triggered

/-- The steps taken over as they are: the tests and the events have their own, and a
worker leaves epoll_wait's iteration when its expired callbacks are scheduled. -/
def IOManager.plain (m : IOManager) : Act → Bool
  | .checkStopping _ _ | .addEvent _ _ _ | .trigger _ => false
  | .wake w _ => (m.due w).isEmpty
  | _ => true

def Runs : Pc → Bool
  | .running _ _ => true
  | _ => false

def IOManager.callable (m : IOManager) : Option ThreadId → Prop
  | none => True
  | some w => w ∈ m.sched.threads ∧ Runs (m.sched.worker w).pc = true

instance IOManager.callable.decidable (m : IOManager) (caller : Option ThreadId) :
    Decidable (m.callable caller) := by
  cases caller <;> unfold IOManager.callable <;> infer_instance

inductive Move where
  | run (act : Act)
  | test (w : ThreadId)
  | addTimer (caller : Option ThreadId)
  | cancelTimer
  | addEvent (caller : Option ThreadId) (task : ScheduleTask)
  | delEvent (task : ScheduleTask)
  | triggerEvent (task : ScheduleTask)
  | discount
  | expire (w : ThreadId) (cbs : List Func) (recurring : Nat)
  | scheduleExpired (w : ThreadId)
  deriving DecidableEq, Repr

def IOManager.scheduler (m : IOManager) (act : Act) (w : ThreadId) : Option IOManager :=
  (Scheduler.scheduler.step m.sched act).map fun sched =>
    { m with sched := sched, next := Function.update m.next w .timers }

/-- One conjunct of `timeout == ~0ull && m_pendingEventCount == 0 && Scheduler::stopping()`. -/
def IOManager.test (m : IOManager) (w : ThreadId) : Option IOManager :=
  match m.next w with
  | .timers =>
      if m.timers = 0 then some { m with next := Function.update m.next w .events }
      else m.scheduler (.checkStopping w false) w
  | .events =>
      if m.m_pendingEventCount = 0 then some { m with next := Function.update m.next w .queue }
      else m.scheduler (.checkStopping w false) w
  | .queue => m.scheduler (.checkStopping w true) w

def IOManager.schedule (m : IOManager) (tasks : List ScheduleTask) : Option IOManager :=
  (Scheduler.scheduler.step m.sched (.schedule tasks)).map fun sched => { m with sched := sched }

def Move.effect (m : IOManager) : Move → Option IOManager
  | .run act =>
      if m.plain act then
        (Scheduler.scheduler.step m.sched act).map fun sched => { m with sched := sched }
      else none
  | .test w =>
      if w ∈ m.sched.threads ∧ (m.sched.worker w).pc = .idle then m.test w else none
  | .addTimer caller => if m.callable caller then some { m with timers := m.timers + 1 } else none
  | .cancelTimer => if 0 < m.timers then some { m with timers := m.timers - 1 } else none
  | .addEvent caller task =>
      if m.callable caller then some { m with events := m.events ++ [task] } else none
  | .delEvent task =>
      if task ∈ m.events then some { m with events := m.events.erase task } else none
  | .triggerEvent task =>
      if task ∈ m.events then
        { m with events := m.events.erase task, triggered := m.triggered + 1 }.schedule [task]
      else none
  -- --m_pendingEventCount, after triggerEvent
  | .discount => if 0 < m.triggered then some { m with triggered := m.triggered - 1 } else none
  -- a recurring timer is in the set again when listExpiredCb returns
  | .expire w cbs recurring =>
      if w ∈ m.sched.threads ∧ (m.sched.worker w).pc = .epollWait ∧ m.due w = [] ∧
          cbs.length ≤ m.timers ∧ recurring ≤ cbs.length then
        some { m with
          timers := m.timers - cbs.length + recurring
          due := Function.update m.due w cbs }
      else none
  | .scheduleExpired w =>
      if m.due w = [] then none
      else { m with due := Function.update m.due w [] }.schedule
        ((m.due w).map fun cb => { func := some cb })

def manager : Machine IOManager Move where
  initial m := Scheduler.scheduler.initial m.sched ∧ m = { sched := m.sched }
  step m move := move.effect m

/-! Who watches for what. -/

def Live (worker : Worker) : Prop := worker.idleTerm = false ∧ worker.pc ≠ .leaveIdle true

instance Live.decidable (worker : Worker) : Decidable (Live worker) := by
  unfold Live
  infer_instance

/-- Some worker has the test still before it. -/
def Watched (m : IOManager) (test : Test) : Prop :=
  ∃ w ∈ m.sched.threads, Live (m.sched.worker w) ∧ (m.next w).rank ≤ test.rank

instance Watched.decidable (m : IOManager) (test : Test) : Decidable (Watched m test) := by
  unfold Watched
  infer_instance

def Move.makes : Move → Option Test
  | .run (.schedule _) | .run (.switchTo _ _ _ _) | .run (.requeue _ _ _) => some .queue
  | .addTimer _ => some .timers
  | .addEvent _ _ => some .events
  | _ => none

def Move.maker : Move → Option ThreadId
  | .run act => act.site.map Prod.fst
  | .addTimer caller | .addEvent caller _ => caller
  | _ => none

def Young (m : IOManager) : Option ThreadId → Prop
  | none => False
  | some w => (m.sched.worker w).idleTerm = false

instance Young.decidable (m : IOManager) (maker : Option ThreadId) :
    Decidable (Young m maker) := by
  cases maker <;> unfold Young <;> infer_instance

/-- What is added from outside, or by a worker whose idle fiber has ended, is added while
some worker has the test for it still before it. -/
def Timely (m : IOManager) (move : Move) : Prop :=
  ∀ test ∈ move.makes, Young m move.maker ∨ Watched m test

instance Timely.decidable (m : IOManager) (move : Move) : Decidable (Timely m move) := by
  unfold Timely
  infer_instance

def Left (m : IOManager) : Test → Prop
  | .timers => 0 < m.timers
  | .events => 0 < m.m_pendingEventCount
  | .queue => m.sched.m_tasks ≠ []

/-! What one worker's step does to the idle fibers. -/

def Away : Pc → Bool
  | .goIdle | .idle | .epollWait | .draining | .leaveIdle _ | .exit => false
  | _ => true

def Settled (worker : Worker) : Prop :=
  (worker.idleTerm = true → Away worker.pc = true ∨ worker.pc = .exit) ∧
    (worker.pc = .exit → worker.idleTerm = true)

def Goes (before after : Worker) : Prop :=
  (Settled before → Settled after) ∧ (Live before → Live after)

def Inside : Pc → Bool
  | .goIdle | .idle | .epollWait | .draining | .leaveIdle false => true
  | _ => false

theorem inside_apart {pc : Pc} (inside : Inside pc = true) :
    Away pc = false ∧ pc ≠ .exit ∧ pc ≠ .leaveIdle true := by
  refine ⟨?_, ?_, ?_⟩
  · cases pc <;> first | rfl | cases inside
  · rintro rfl
    cases inside
  · rintro rfl
    cases inside

section Workers
variable {before after : Worker}

theorem goes_away (term : after.idleTerm = before.idleTerm) (away : Away after.pc = true) :
    Goes before after := by
  constructor
  · intro _
    refine ⟨fun _ => Or.inl away, ?_⟩
    intro out
    rw [out] at away
    cases away
  · rintro ⟨lives, _⟩
    refine ⟨term.trans lives, ?_⟩
    intro leaves
    rw [leaves] at away
    cases away

theorem goes_idle {pc : Pc} (at_ : before.pc = pc) (inside : Inside pc = true)
    (term : after.idleTerm = before.idleTerm) (remains : Inside after.pc = true) :
    Goes before after := by
  subst at_
  rcases inside_apart inside with ⟨close, stays, _⟩
  rcases inside_apart remains with ⟨_, after_stays, after_lives⟩
  constructor
  · rintro ⟨ended, _⟩
    constructor
    · intro late
      rcases ended (term.symm.trans late) with away | out
      · rw [close] at away
        cases away
      · exact absurd out stays
    · intro out
      exact absurd out after_stays
  · rintro ⟨lives, _⟩
    exact ⟨term.trans lives, after_lives⟩

theorem goes_branch (term : after.idleTerm = before.idleTerm)
    (leaves : after.pc = if before.idleTerm then .exit else .goIdle) : Goes before after := by
  cases late : before.idleTerm with
  | true =>
      rw [late] at term leaves
      refine ⟨fun _ => ⟨fun _ => Or.inr leaves, fun _ => term⟩, ?_⟩
      rintro ⟨lives, _⟩
      rw [late] at lives
      cases lives
  | false =>
      rw [late] at term leaves
      refine ⟨fun _ => ⟨?_, ?_⟩, fun _ => ⟨term, ?_⟩⟩
      · intro ends
        rw [term] at ends
        cases ends
      · intro out
        rw [leaves] at out
        cases out
      · rw [leaves]
        decide

theorem goes_leaveIdle {term : Bool} (at_ : before.pc = .leaveIdle term)
    (ended : after.idleTerm = term) (scans : after.pc = .scan) : Goes before after := by
  constructor
  · intro _
    rw [Settled, scans]
    exact ⟨fun _ => Or.inl rfl, fun out => by cases out⟩
  · rintro ⟨_, stays⟩
    cases term with
    | true => exact absurd at_ stays
    | false => exact ⟨ended, by rw [scans]; decide⟩

end Workers

section Steps
variable {s s' : System} {w : ThreadId}

def Moves (s s' : System) (mover : Option ThreadId) : Prop :=
  s'.threads = s.threads ∧
    (s'.worker = s.worker ∨ ∃ w x, mover = some w ∧ w ∈ s.threads ∧
      s'.worker = Function.update s.worker w x ∧ Goes (s.worker w) x)

theorem moves_goto (x : Worker) (mem : w ∈ s.threads) (threads : s'.threads = s.threads)
    (worker : s'.worker = Function.update s.worker w x) (goes : Goes (s.worker w) x) :
    Moves s s' (some w) :=
  ⟨threads, Or.inr ⟨w, x, rfl, mem, worker, goes⟩⟩

theorem moves_branch {task : Option ScheduleTask} (mem : w ∈ s.threads)
    (done : s.branch w task = some s') : Moves s s' (some w) := by
  rcases branch_cases done with ⟨t, f, rfl, _, _, rfl⟩ | ⟨t, func, rfl, _, _, run⟩ |
    ⟨t, rfl, _, _, rfl⟩ | ⟨rfl, rfl⟩
  · exact moves_goto _ mem rfl rfl (goes_away rfl rfl)
  · rcases funcBranch_cases run with ⟨f, fiber, _, _, rfl⟩ | ⟨_, rfl⟩
    · exact moves_goto _ mem rfl rfl (goes_away rfl rfl)
    · exact moves_goto _ mem rfl rfl (goes_away rfl rfl)
  · exact moves_goto _ mem rfl rfl (goes_away rfl rfl)
  · exact moves_goto _ mem rfl rfl (goes_branch rfl rfl)

theorem moves_inspect {f : FiberId} {own : Bool} (mem : w ∈ s.threads)
    (done : s.inspect w f own = some s') : Moves s s' (some w) := by
  rcases inspect_cases done with ⟨_, rfl⟩ | ⟨_, fiber, _, rfl⟩ | rfl
  · exact moves_goto _ mem rfl rfl (goes_away rfl rfl)
  · exact moves_goto _ mem rfl rfl (goes_away rfl rfl)
  · exact moves_goto _ mem rfl rfl (goes_away rfl rfl)

theorem effect_moves {act : Act} (able : act.enabled s) (done : act.effect s = some s')
    (plain : ∀ w quiet, act ≠ .checkStopping w quiet) :
    Moves s s' (act.site.map Prod.fst) := by
  rcases able with ⟨site, _⟩
  cases act with
  | start | autoStop | stop | newFiber _ | schedule _ | tickleOutside | writeOutside
  | tickleElsewhere | trigger _ | addEvent _ _ _ | drain _ =>
      cases done
      exact ⟨rfl, Or.inl rfl⟩
  | switchTo w f own thread =>
      cases done
      unfold System.switchTo
      split
      · exact ⟨rfl, Or.inl rfl⟩
      · exact ⟨rfl, Or.inl rfl⟩
  | take w =>
      cases done
      refine moves_goto _ (site _ rfl).1 rfl rfl (goes_away rfl ?_)
      cases (takeTask w s.m_tasks).2.2 <;> rfl
  | tickle w next =>
      cases done
      refine moves_goto _ (site _ rfl).1 rfl rfl (goes_away rfl ?_)
      split
      · rfl
      · cases next <;> rfl
  | tickleWrite w next =>
      cases done
      refine moves_goto _ (site _ rfl).1 rfl rfl (goes_away rfl ?_)
      cases next <;> rfl
  | branch w task => exact moves_branch (site _ rfl).1 done
  | swapIn w f own =>
      rcases Option.map_eq_some_iff.mp done with ⟨fiber, _, rfl⟩
      exact moves_goto _ (site _ rfl).1 rfl rfl (goes_away rfl rfl)
  | yieldTo w f own target =>
      rcases Option.map_eq_some_iff.mp done with ⟨fiber, _, rfl⟩
      exact moves_goto _ (site _ rfl).1 rfl rfl (goes_away rfl rfl)
  | finish w f own threw | swapOut w f own | decrement w f own | drop w =>
      cases done
      exact moves_goto _ (site _ rfl).1 rfl rfl (goes_away rfl rfl)
  | inspect w f own => exact moves_inspect (site _ rfl).1 done
  | requeue w f own =>
      cases done
      rw [requeue_eq]
      refine moves_goto _ (site _ rfl).1 rfl rfl (goes_away rfl ?_)
      cases s.needTickle [{ fiber := some f }] <;> rfl
  | goIdle w =>
      cases done
      rcases site _ rfl with ⟨mem, at_⟩
      exact moves_goto _ mem rfl rfl (goes_idle at_ rfl rfl rfl)
  | checkStopping w quiet => exact absurd rfl (plain w quiet)
  | wake w tickled =>
      cases done
      rcases site _ rfl with ⟨mem, at_⟩
      refine moves_goto _ mem rfl rfl (goes_idle at_ rfl rfl ?_)
      cases tickled <;> rfl
  | endDrain w =>
      cases done
      rcases site _ rfl with ⟨mem, at_⟩
      exact moves_goto _ mem rfl rfl (goes_idle at_ rfl rfl rfl)
  | leaveIdle w term =>
      cases done
      rcases site _ rfl with ⟨mem, at_⟩
      refine moves_goto { s.worker w with pc := .scan, idleTerm := term } mem rfl ?_
        (goes_leaveIdle at_ rfl rfl)
      simp [System.goto]

/-- Only the steps that schedule fill an empty queue. -/
theorem effect_idle_queue {act : Act} (done : act.effect s = some s')
    (makes : (Move.run act).makes = none) (untriggered : ∀ f, act ≠ .trigger f)
    (empty : s.m_tasks = []) : s'.m_tasks = [] := by
  cases act with
  | schedule _ | switchTo _ _ _ _ | requeue _ _ _ => cases makes
  | trigger f => exact absurd rfl (untriggered f)
  | take w =>
      cases done
      simp only [System.take, System.goto, empty, takeTask]
  | branch w task =>
      rcases branch_cases done with ⟨_, f, _, _, _, rfl⟩ | ⟨_, func, _, _, _, run⟩ |
        ⟨_, _, _, _, rfl⟩ | ⟨_, rfl⟩
      · exact empty
      · rcases funcBranch_cases run with ⟨f, fiber, _, _, rfl⟩ | ⟨_, rfl⟩
        · exact empty
        · exact empty
      · exact empty
      · exact empty
  | swapIn w f own =>
      rcases Option.map_eq_some_iff.mp done with ⟨fiber, _, rfl⟩
      exact empty
  | yieldTo w f own target =>
      rcases Option.map_eq_some_iff.mp done with ⟨fiber, _, rfl⟩
      exact empty
  | inspect w f own =>
      rcases inspect_cases done with ⟨_, rfl⟩ | ⟨_, fiber, _, rfl⟩ | rfl
      · exact empty
      · exact empty
      · exact empty
  | _ =>
      cases done
      exact empty

end Steps

theorem idle_step {act : Act} {w : ThreadId} (site : act.site = some (w, .idle)) :
    ∃ quiet, act = .checkStopping w quiet := by
  cases act with
  | checkStopping v quiet =>
      cases site
      exact ⟨quiet, rfl⟩
  | _ => cases site

theorem wait_step {act : Act} {w : ThreadId} (site : act.site = some (w, .epollWait)) :
    ∃ tickled, act = .wake w tickled := by
  cases act with
  | wake v tickled =>
      cases site
      exact ⟨tickled, rfl⟩
  | _ => cases site

structure Kept (m : IOManager) : Prop where
  settled : ∀ w, Settled (m.sched.worker w)
  testing : ∀ w, m.next w ≠ .timers → (m.sched.worker w).pc = .idle
  held : ∀ w, m.due w ≠ [] → w ∈ m.sched.threads ∧ (m.sched.worker w).pc = .epollWait
  watched : ∀ test, Left m test → Watched m test

section Watching
variable {m m' : IOManager} {w : ThreadId}

theorem young_some {maker : Option ThreadId} (young : Young m maker) :
    ∃ w, maker = some w ∧ (m.sched.worker w).idleTerm = false := by
  cases maker with
  | none => exact young.elim
  | some w => exact ⟨w, rfl, young⟩

/-- The worker's live idle fiber is before its first test, so it watches for all. -/
theorem Kept.watches (kept : Kept m) (mem : w ∈ m.sched.threads)
    (live : Live (m.sched.worker w)) (busy : (m.sched.worker w).pc ≠ .idle) (test : Test) :
    Watched m test := by
  refine ⟨w, mem, live, ?_⟩
  have first : m.next w = .timers := by
    by_contra later
    exact busy (kept.testing w later)
  rw [first]
  exact Nat.zero_le _

theorem Watched.weaken {early late : Test} (watched : Watched m early)
    (le : early.rank ≤ late.rank) : Watched m late := by
  rcases watched with ⟨w, mem, live, rank⟩
  exact ⟨w, mem, live, Nat.le_trans rank le⟩

theorem Watched.frame {test : Test} (watched : Watched m test)
    (threads : m'.sched.threads = m.sched.threads) (next : m'.next = m.next)
    (live : ∀ w, Live (m.sched.worker w) → Live (m'.sched.worker w)) : Watched m' test := by
  rcases watched with ⟨w, mem, lives, rank⟩
  refine ⟨w, ?_, live w lives, ?_⟩
  · rw [threads]
    exact mem
  · rw [next]
    exact rank

theorem Moves.live {s s' : System} {mover : Option ThreadId} (moves : Moves s s' mover)
    (w : ThreadId) (live : Live (s.worker w)) : Live (s'.worker w) := by
  rcases moves with ⟨_, worker | ⟨v, x, _, _, worker, goes⟩⟩
  · rw [worker]
    exact live
  · rw [worker]
    by_cases same : w = v
    · subst same
      rw [Function.update_self]
      exact goes.2 live
    · rw [Function.update_of_ne same]
      exact live

theorem Moves.settled {s s' : System} {mover : Option ThreadId} (moves : Moves s s' mover)
    (settled : ∀ w, Settled (s.worker w)) (w : ThreadId) : Settled (s'.worker w) := by
  rcases moves with ⟨_, worker | ⟨v, x, _, _, worker, goes⟩⟩
  · rw [worker]
    exact settled w
  · rw [worker]
    by_cases same : w = v
    · subst same
      rw [Function.update_self]
      exact goes.1 (settled w)
    · rw [Function.update_of_ne same]
      exact settled w

/-- A worker that does not take the step stays where it is. -/
theorem Moves.stays {s s' : System} {mover : Option ThreadId} (moves : Moves s s' mover)
    (apart : mover ≠ some w) : s'.worker w = s.worker w := by
  rcases moves with ⟨_, worker | ⟨v, x, rfl, _, worker, _⟩⟩
  · rw [worker]
  · rw [worker]
    refine Function.update_of_ne ?_ _ _
    rintro rfl
    exact apart rfl

theorem Kept.same (kept : Kept m) (sched : m'.sched = m.sched) (next : m'.next = m.next)
    (held : ∀ w, m'.due w ≠ [] → w ∈ m.sched.threads ∧ (m.sched.worker w).pc = .epollWait)
    (left : ∀ test, Left m' test → Watched m test) : Kept m' := by
  constructor
  · rw [sched]
    exact kept.settled
  · rw [sched, next]
    exact kept.testing
  · rw [sched]
    exact held
  · intro test remains
    refine (left test remains).frame (by rw [sched]) next ?_
    intro v lives
    rw [sched]
    exact lives

theorem Kept.run {act : Act} {sched : System} (kept : Kept m) (plain : m.plain act = true)
    (timely : Timely m (.run act))
    (moved : Scheduler.scheduler.step m.sched act = some sched) :
    Kept { m with sched := sched } := by
  rcases scheduler_step moved with ⟨able, done⟩
  have moves : Moves m.sched sched (act.site.map Prod.fst) := by
    apply effect_moves able done
    rintro w quiet rfl
    cases plain
  -- the mover stands where its step is taken, so not before a test
  have placed : ∀ w, act.site.map Prod.fst = some w → w ∈ m.sched.threads ∧
      act.site = some (w, (m.sched.worker w).pc) := by
    intro w mover
    rcases Option.map_eq_some_iff.mp mover with ⟨⟨v, pc⟩, site, rfl⟩
    rcases able.1 _ site with ⟨mem, at_⟩
    refine ⟨mem, ?_⟩
    rw [site, at_]
  have untested : ∀ w, act.site.map Prod.fst = some w → (m.sched.worker w).pc ≠ .idle := by
    intro w mover at_
    rcases placed w mover with ⟨_, site⟩
    rw [at_] at site
    rcases idle_step site with ⟨quiet, rfl⟩
    cases plain
  have framed : ∀ test, Watched m test → Watched { m with sched := sched } test := by
    intro test watched
    exact watched.frame moves.1 rfl moves.live
  constructor
  · exact moves.settled kept.settled
  · intro w later
    have at_ := kept.testing w later
    have apart : act.site.map Prod.fst ≠ some w := fun mover => untested w mover at_
    rw [moves.stays apart]
    exact at_
  · intro w waits
    rcases kept.held w waits with ⟨mem, at_⟩
    have apart : act.site.map Prod.fst ≠ some w := by
      intro mover
      rcases placed w mover with ⟨_, site⟩
      rw [at_] at site
      rcases wait_step site with ⟨tickled, rfl⟩
      exact waits (List.isEmpty_iff.mp plain)
    refine ⟨?_, ?_⟩
    · rw [moves.1]
      exact mem
    · rw [moves.stays apart]
      exact at_
  · intro test remains
    apply framed
    cases test with
    | timers => exact kept.watched .timers remains
    | events => exact kept.watched .events remains
    | queue =>
        cases makes : (Move.run act).makes with
        | none =>
            apply kept.watched .queue
            intro empty
            refine remains (effect_idle_queue done makes ?_ empty)
            rintro f rfl
            cases plain
        | some test =>
            have about : test = .queue := by
              cases act <;> cases makes <;> rfl
            subst about
            rcases timely .queue makes with young | watched
            · -- a maker whose idle fiber has not ended watches itself
              rcases young_some young with ⟨w, mover, young⟩
              rcases placed w mover with ⟨mem, site⟩
              refine kept.watches mem ⟨young, ?_⟩ (untested w mover) .queue
              intro leaves
              rw [leaves] at site
              cases act <;> cases makes <;> cases site
            · exact watched

/-- The worker goes to epoll_wait, or all three tests have passed. -/
theorem checkStopping_cases {quiet : Bool}
    (done : m.scheduler (.checkStopping w quiet) w = some m') :
    m' = { m with
      sched := m.sched.goto w .epollWait, next := Function.update m.next w .timers } ∨
    quiet = true ∧ m.sched.stopping = true ∧ m' = { m with
      sched := m.sched.goto w (.leaveIdle true), next := Function.update m.next w .timers } := by
  rcases Option.map_eq_some_iff.mp done with ⟨sched, moved, rfl⟩
  rcases scheduler_step moved with ⟨_, effect⟩
  cases effect
  cases quiet with
  | false => exact Or.inl rfl
  | true =>
      cases stops : m.sched.stopping with
      | false => exact Or.inl (by simp)
      | true => exact Or.inr ⟨rfl, rfl, by simp⟩

theorem Kept.young (kept : Kept m) (inside : Inside (m.sched.worker w).pc = true) :
    (m.sched.worker w).idleTerm = false := by
  rcases inside_apart inside with ⟨close, stays, _⟩
  by_contra late
  rw [Bool.not_eq_false] at late
  rcases (kept.settled w).1 late with away | out
  · rw [close] at away
    cases away
  · exact stays out

theorem Kept.leave {pc : Pc} (kept : Kept m) (at_ : (m.sched.worker w).pc = .idle)
    (stays : pc ≠ .exit)
    (watched : ∀ test, Left m test → Watched { m with
      sched := m.sched.goto w pc, next := Function.update m.next w .timers } test) :
    Kept { m with sched := m.sched.goto w pc, next := Function.update m.next w .timers } := by
  have young : (m.sched.worker w).idleTerm = false := by
    apply kept.young
    rw [at_]
    rfl
  constructor
  · intro v
    by_cases same : v = w
    · subst same
      simp only [System.goto, Function.update_self]
      refine ⟨?_, fun out => absurd out stays⟩
      intro late
      rw [young] at late
      cases late
    · simp only [System.goto, Function.update_of_ne same]
      exact kept.settled v
  · intro v later
    by_cases same : v = w
    · subst same
      exact absurd (Function.update_self _ _ _) later
    · simp only [Function.update_of_ne same] at later
      simp only [System.goto, Function.update_of_ne same]
      exact kept.testing v later
  · intro v waits
    rcases kept.held v waits with ⟨mem, waiting⟩
    have same : v ≠ w := by
      rintro rfl
      rw [at_] at waiting
      cases waiting
    refine ⟨mem, ?_⟩
    simp only [System.goto, Function.update_of_ne same]
    exact waiting
  · exact watched

theorem Kept.sleep (kept : Kept m) (at_ : (m.sched.worker w).pc = .idle) :
    Kept { m with
      sched := m.sched.goto w .epollWait, next := Function.update m.next w .timers } := by
  refine kept.leave at_ (by decide) ?_
  intro test remains
  rcases kept.watched test remains with ⟨v, mem, live, rank⟩
  refine ⟨v, mem, ?_, ?_⟩
  · by_cases same : v = w
    · subst same
      simp only [System.goto, Function.update_self]
      exact ⟨live.1, fun leaves => by cases leaves⟩
    · simp only [System.goto, Function.update_of_ne same]
      exact live
  · by_cases same : v = w
    · subst same
      simp only [Function.update_self]
      exact Nat.zero_le _
    · simp only [Function.update_of_ne same]
      exact rank

/-- All tests passed: what is left of timers and events others watch for, and the queue
is empty. -/
theorem Kept.quit (kept : Kept m) (at_ : (m.sched.worker w).pc = .idle)
    (last : m.next w = .queue) (stops : m.sched.stopping = true) :
    Kept { m with
      sched := m.sched.goto w (.leaveIdle true), next := Function.update m.next w .timers } := by
  refine kept.leave at_ (by decide) ?_
  intro test remains
  have early : test ≠ .queue := by
    rintro rfl
    simp only [System.stopping, Bool.and_eq_true, List.isEmpty_iff] at stops
    exact remains stops.1.2
  rcases kept.watched test remains with ⟨v, mem, live, rank⟩
  have same : v ≠ w := by
    rintro rfl
    rw [last] at rank
    cases test with
    | timers => exact absurd rank (by decide)
    | events => exact absurd rank (by decide)
    | queue => exact early rfl
  refine ⟨v, mem, ?_, ?_⟩
  · simp only [System.goto, Function.update_of_ne same]
    exact live
  · simp only [Function.update_of_ne same]
    exact rank

/-- A test that passes is about something that is not left. -/
theorem Kept.pass {done later : Test} (kept : Kept m) (at_ : (m.sched.worker w).pc = .idle)
    (now : m.next w = done) (order : ∀ test : Test, test ≠ done → done.rank ≤ test.rank →
      later.rank ≤ test.rank)
    (none : ¬ Left m done) : Kept { m with next := Function.update m.next w later } := by
  constructor
  · exact kept.settled
  · intro v ahead
    by_cases same : v = w
    · subst same
      exact at_
    · simp only [Function.update_of_ne same] at ahead
      exact kept.testing v ahead
  · exact kept.held
  · intro test remains
    have other : test ≠ done := by
      rintro rfl
      exact none remains
    rcases kept.watched test remains with ⟨v, mem, live, rank⟩
    refine ⟨v, mem, live, ?_⟩
    by_cases same : v = w
    · subst same
      rw [now] at rank
      simp only [Function.update_self]
      exact order test other rank
    · simp only [Function.update_of_ne same]
      exact rank

theorem Kept.test (kept : Kept m) (at_ : (m.sched.worker w).pc = .idle)
    (done : m.test w = some m') : Kept m' := by
  have failed : m.scheduler (.checkStopping w false) w = some m' → Kept m' := by
    intro moved
    rcases checkStopping_cases moved with rfl | ⟨quiet, _, _⟩
    · exact kept.sleep at_
    · cases quiet
  unfold IOManager.test at done
  split at done
  · rename_i now
    split at done
    · rename_i empty
      cases done
      refine kept.pass at_ now ?_ ?_
      · intro test other _
        cases test with
        | timers => exact absurd rfl other
        | events => decide
        | queue => decide
      · intro left
        rw [Left, empty] at left
        exact absurd left (by decide)
    · exact failed done
  · rename_i now
    split at done
    · rename_i empty
      cases done
      refine kept.pass at_ now ?_ ?_
      · intro test other le
        cases test with
        | timers => exact absurd le (by decide)
        | events => exact absurd rfl other
        | queue => decide
      · intro left
        rw [Left, empty] at left
        exact absurd left (by decide)
    · exact failed done
  · rename_i now
    rcases checkStopping_cases done with rfl | ⟨_, stops, rfl⟩
    · exact kept.sleep at_
    · exact kept.quit at_ now stops

theorem Kept.schedule {tasks : List ScheduleTask} (kept : Kept m) (watched : Watched m .queue)
    (done : m.schedule tasks = some m') : Kept m' := by
  rcases Option.map_eq_some_iff.mp done with ⟨sched, moved, rfl⟩
  have timely : Timely m (.run (.schedule tasks)) := by
    intro test makes
    cases makes
    exact Or.inr watched
  have plain : m.plain (.schedule tasks) = true := rfl
  exact kept.run plain timely moved

theorem Kept.caller (kept : Kept m) {caller : Option ThreadId} (called : m.callable caller)
    {move : Move} {test : Test} (timely : Timely m move) (makes : move.makes = some test)
    (maker : move.maker = caller) : Watched m test := by
  rcases timely test makes with young | watched
  · rcases young_some young with ⟨w, named, young⟩
    rw [← maker, named] at called
    rcases called with ⟨mem, running⟩
    refine kept.watches mem ⟨young, ?_⟩ ?_ test
    · intro leaves
      rw [leaves] at running
      cases running
    · intro idles
      rw [idles] at running
      cases running
  · exact watched

/-- Timers and events come and go, and what is left of them is watched for. -/
theorem Kept.recount {timers triggered : Nat} {events : List ScheduleTask} (kept : Kept m)
    (timed : 0 < timers → Watched m .timers)
    (pending : 0 < events.length + triggered → Watched m .events) :
    Kept { m with timers, events, triggered } := by
  refine kept.same rfl rfl kept.held ?_
  intro test remains
  cases test with
  | timers => exact timed remains
  | events => exact pending remains
  | queue => exact kept.watched .queue remains

theorem pending_of_mem {task : ScheduleTask} (mem : task ∈ m.events) :
    0 < m.m_pendingEventCount :=
  Nat.lt_of_lt_of_le (List.length_pos_of_mem mem) (Nat.le_add_right _ _)

theorem Kept.triggerEvent {task : ScheduleTask} (kept : Kept m) (mem : task ∈ m.events)
    (done : { m with events := m.events.erase task, triggered := m.triggered + 1 }.schedule
      [task] = some m') : Kept m' := by
  -- the event was pending, so someone has the events test before it
  have watched := kept.watched .events (pending_of_mem mem)
  have counted : Kept { m with
      events := m.events.erase task, triggered := m.triggered + 1 } :=
    kept.recount (kept.watched .timers) fun _ => watched
  have late : Watched m .queue := watched.weaken (by decide)
  exact counted.schedule late done

theorem Kept.expire {cbs : List Func} {recurring : Nat} (kept : Kept m)
    (mem : w ∈ m.sched.threads) (at_ : (m.sched.worker w).pc = .epollWait)
    (few : cbs.length ≤ m.timers) (again : recurring ≤ cbs.length) :
    Kept { m with
      timers := m.timers - cbs.length + recurring
      due := Function.update m.due w cbs } := by
  refine kept.same rfl rfl ?_ ?_
  · intro v waits
    by_cases same : v = w
    · subst same
      exact ⟨mem, at_⟩
    · simp only [Function.update_of_ne same] at waits
      exact kept.held v waits
  · intro test remains
    cases test with
    | timers =>
        apply kept.watched .timers
        simp only [Left] at remains ⊢
        omega
    | events => exact kept.watched .events remains
    | queue => exact kept.watched .queue remains

theorem Kept.scheduleExpired (kept : Kept m) (waits : m.due w ≠ [])
    (done : { m with due := Function.update m.due w [] }.schedule
      ((m.due w).map fun cb => { func := some cb }) = some m') : Kept m' := by
  rcases kept.held w waits with ⟨mem, at_⟩
  have young : (m.sched.worker w).idleTerm = false := by
    apply kept.young
    rw [at_]
    rfl
  have watches : Watched m .queue := by
    refine kept.watches mem ⟨young, ?_⟩ ?_ .queue
    · rw [at_]
      decide
    · rw [at_]
      decide
  have emptied : Kept { m with due := Function.update m.due w [] } := by
    refine kept.same rfl rfl ?_ kept.watched
    intro v still
    by_cases same : v = w
    · subst same
      exact absurd (Function.update_self _ _ _) still
    · simp only [Function.update_of_ne same] at still
      exact kept.held v still
  exact emptied.schedule watches done

end Watching

theorem manager_step {m m' : IOManager} {move : Move} (kept : Kept m) (timely : Timely m move)
    (moved : manager.step m move = some m') : Kept m' := by
  have done : move.effect m = some m' := moved
  cases move with
  | run act =>
      simp only [Move.effect] at done
      split at done
      · rename_i plain
        rcases Option.map_eq_some_iff.mp done with ⟨sched, stepped, rfl⟩
        exact kept.run plain timely stepped
      · cases done
  | test w =>
      simp only [Move.effect] at done
      split at done
      · rename_i placed
        exact kept.test placed.2 done
      · cases done
  | addTimer caller =>
      simp only [Move.effect] at done
      split at done
      · rename_i called
        cases done
        exact kept.recount (fun _ => kept.caller called timely rfl rfl) (kept.watched .events)
      · cases done
  | cancelTimer =>
      simp only [Move.effect] at done
      split at done
      · rename_i set
        cases done
        exact kept.recount (fun _ => kept.watched .timers set) (kept.watched .events)
      · cases done
  | addEvent caller task =>
      simp only [Move.effect] at done
      split at done
      · rename_i called
        cases done
        exact kept.recount (kept.watched .timers) fun _ => kept.caller called timely rfl rfl
      · cases done
  | delEvent task =>
      simp only [Move.effect] at done
      split at done
      · rename_i mem
        cases done
        exact kept.recount (kept.watched .timers) fun _ =>
          kept.watched .events (pending_of_mem mem)
      · cases done
  | triggerEvent task =>
      simp only [Move.effect] at done
      split at done
      · rename_i mem
        exact kept.triggerEvent mem done
      · cases done
  | discount =>
      simp only [Move.effect] at done
      split at done
      · rename_i counted
        cases done
        have pending : 0 < m.m_pendingEventCount :=
          Nat.lt_of_lt_of_le counted (Nat.le_add_left _ _)
        exact kept.recount (kept.watched .timers) fun _ => kept.watched .events pending
      · cases done
  | expire w cbs recurring =>
      simp only [Move.effect] at done
      split at done
      · rename_i able
        rcases able with ⟨mem, at_, _, few, again⟩
        cases done
        exact kept.expire mem at_ few again
      · cases done
  | scheduleExpired w =>
      simp only [Move.effect] at done
      split at done
      · cases done
      · rename_i waits
        exact kept.scheduleExpired waits done

theorem reach_kept {m : IOManager} (reached : Reach manager Timely m) : Kept m := by
  apply reached.invariant Kept
  · rintro _ ⟨⟨threads, _, sched⟩, same⟩
    rw [same, sched]
    constructor
    · intro w
      exact ⟨fun _ => Or.inl rfl, fun out => by cases out⟩
    · intro w later
      exact absurd rfl later
    · intro w waits
      exact absurd rfl waits
    · intro test remains
      cases test with
      | timers => exact absurd remains (Nat.lt_irrefl 0)
      | events => exact absurd remains (Nat.lt_irrefl 0)
      | queue => exact absurd rfl remains
  · intro before move after _ kept timely moved
    exact manager_step kept timely moved

theorem sched_step {m m' : IOManager} {move : Move} (moved : manager.step m move = some m') :
    m'.sched = m.sched ∨ ∃ act, Scheduler.scheduler.step m.sched act = some m'.sched := by
  have mapped : ∀ {act : Act} {f : System → IOManager}, (∀ sched, (f sched).sched = sched) →
      (Scheduler.scheduler.step m.sched act).map f = some m' →
      ∃ act, Scheduler.scheduler.step m.sched act = some m'.sched := by
    intro act f keeps done
    rcases Option.map_eq_some_iff.mp done with ⟨sched, stepped, rfl⟩
    exact ⟨act, by rw [stepped, keeps]⟩
  have done : move.effect m = some m' := moved
  cases move with
  | run act =>
      simp only [Move.effect] at done
      split at done
      · exact Or.inr (mapped (fun _ => rfl) done)
      · cases done
  | test w =>
      simp only [Move.effect, IOManager.test] at done
      split at done
      · split at done
        · split at done
          · cases done
            exact Or.inl rfl
          · exact Or.inr (mapped (fun _ => rfl) done)
        · split at done
          · cases done
            exact Or.inl rfl
          · exact Or.inr (mapped (fun _ => rfl) done)
        · exact Or.inr (mapped (fun _ => rfl) done)
      · cases done
  | addTimer _ | cancelTimer | addEvent _ _ | delEvent _ | discount | expire _ _ _ =>
      simp only [Move.effect] at done
      split at done
      · cases done
        exact Or.inl rfl
      · cases done
  | triggerEvent task =>
      simp only [Move.effect] at done
      split at done
      · exact Or.inr (mapped (fun _ => rfl) done)
      · cases done
  | scheduleExpired w =>
      simp only [Move.effect] at done
      split at done
      · cases done
      · exact Or.inr (mapped (fun _ => rfl) done)

theorem reach_sched {m : IOManager} {allowed : IOManager → Move → Prop}
    (reached : Reach manager allowed m) : Reach Scheduler.scheduler anyStep m.sched := by
  apply reached.invariant fun m => Reach Scheduler.scheduler anyStep m.sched
  · rintro m ⟨start, _⟩
    exact .start start
  · intro before move after _ reached _ moved
    rcases sched_step moved with same | ⟨act, moved⟩
    · rw [same]
      exact reached
    · exact reached.extend (.single act trivial moved)

/-- When the last worker has left `run`, nothing is left behind: no task and no READY
fiber, no timer, no pending event, no expired callback. -/
theorem exits_leave_nothing {m : IOManager} (reached : Reach manager Timely m)
    (gone : ∀ w ∈ m.sched.threads, (m.sched.worker w).pc = .exit) :
    Quiet m.sched ∧ m.timers = 0 ∧ m.m_pendingEventCount = 0 ∧ ∀ w, m.due w = [] := by
  have kept := reach_kept reached
  have unwatched : ∀ test, ¬ Left m test := by
    intro test remains
    rcases kept.watched test remains with ⟨w, mem, live, _⟩
    have late := (kept.settled w).2 (gone w mem)
    rw [live.1] at late
    cases late
  have empty : m.sched.m_tasks = [] := by
    by_contra waiting
    exact unwatched .queue waiting
  refine ⟨⟨empty, ?_, ?_⟩, ?_, ?_, ?_⟩
  · intro w mem
    rw [gone w mem]
    rfl
  · intro f ready
    rcases reach_ready_held (reach_sched reached) f ready with ⟨task, queued, _⟩ |
      ⟨w, mem, carries⟩
    · rw [empty] at queued
      cases queued
    · rw [gone w mem] at carries
      cases carries
  · exact Nat.eq_zero_of_not_pos (unwatched .timers)
  · exact Nat.eq_zero_of_not_pos (unwatched .events)
  · intro w
    by_contra waits
    rcases kept.held w waits with ⟨mem, at_⟩
    rw [gone w mem] at at_
    cases at_

def turn (task : ScheduleTask) : List Move :=
  [.run (.take 1), .run (.branch 1 (some task)), .run (.swapIn 1 0 true),
    .run (.finish 1 0 true false), .run (.swapOut 1 0 true), .run (.decrement 1 0 true),
    .run (.inspect 1 0 true)]

def enterIdle : List Move := [.run (.take 1), .run (.branch 1 none), .run (.goIdle 1)]

def shutdown : List Move :=
  [.addTimer none, .addEvent none { func := some 8 }] ++ enterIdle ++
    [.test 1, .expire 1 [7] 0, .scheduleExpired 1, .run (.wake 1 false),
      .run (.leaveIdle 1 false)] ++
    turn { func := some 7 } ++ enterIdle ++
    [.test 1, .test 1, .triggerEvent { func := some 8 }, .discount, .run (.wake 1 false),
      .run (.leaveIdle 1 false)] ++
    turn { func := some 8 } ++ [.run .autoStop, .run .stop] ++ enterIdle ++
    [.test 1, .test 1, .test 1, .run (.leaveIdle 1 true), .run (.take 1), .run (.branch 1 none)]

def IOManager.gone (m : IOManager) : Bool :=
  m.sched.threads.all fun w => (m.sched.worker w).pc = .exit

theorem exits_of_gone {m : IOManager} (gone : m.gone = true) :
    ∀ w ∈ m.sched.threads, (m.sched.worker w).pc = .exit := by
  intro w mem
  exact of_decide_eq_true (List.all_eq_true.mp gone w mem)

theorem exits_leave_nothing_run :
    ∃ m, run manager { sched := { threads := [1] } } shutdown = some m ∧ m.gone = true ∧
      Quiet m.sched ∧ m.timers = 0 ∧ m.m_pendingEventCount = 0 ∧ ∀ w, m.due w = [] :=
  run_meets_where Timely IOManager.gone ⟨⟨[1], by decide, rfl⟩, rfl⟩ (by decide) (by decide)
    fun _ reached gone => ⟨gone, exits_leave_nothing reached (exits_of_gone gone)⟩

-- a timer that the main thread sets between the worker's first and last test stays behind
example : (run manager { sched := { threads := [1] } }
    (enterIdle ++ [.test 1, .addTimer none, .run .autoStop, .run .stop, .test 1, .test 1,
      .run (.leaveIdle 1 true), .run (.take 1), .run (.branch 1 none)])).map
      (fun m => ((m.sched.worker 1).pc, m.timers)) = some (.exit, 1) := by decide

end Ztyco.Shutdown
