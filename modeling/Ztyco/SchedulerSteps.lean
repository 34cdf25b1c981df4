import Mathlib.Data.List.Nodup
import Mathlib.Data.List.Perm.Subperm
import Ztyco.Scheduler
import Ztyco.Tally

/-!
What a step of the scheduler can do, said once: which worker moves, what the
branches of `run` lead to, how the two counters follow the workers' positions.
A worker is busy from its take to the matching decrement, and counted as idle
from `++m_idleThreadCount` to the decrement after the idle fiber.
-/

namespace Ztyco.Scheduler

open Fibers (FiberId Func Fiber)
open Transition
open Tally

theorem scheduler_step {s s' : System} {act : Act} (moved : scheduler.step s act = some s') :
    act.enabled s ∧ act.effect s = some s' := by
  simp only [scheduler] at moved
  split at moved
  · rename_i able
    exact ⟨able, moved⟩
  · cases moved

def Worker.released (worker : Worker) (own : Bool) (pc : Pc) : Worker :=
  { worker with pc := pc, func_fiber := if own then none else worker.func_fiber }

theorem dropFuncFiber_goto (s : System) (w : ThreadId) (own : Bool) (pc : Pc) :
    (s.dropFuncFiber w own).goto w pc =
      { s with worker := Function.update s.worker w ((s.worker w).released own pc) } := by
  cases own with
  | true => simp [System.dropFuncFiber, System.goto, Worker.released]
  | false => rfl

theorem requeue_eq (s : System) (w : ThreadId) (f : FiberId) (own : Bool) :
    s.requeue w f own = { s.push [{ fiber := some f }] with
      worker := Function.update s.worker w ((s.worker w).released own
        (if s.needTickle [{ fiber := some f }] then .tickle .scan else .scan)) } :=
  dropFuncFiber_goto (s.push [{ fiber := some f }]) w own _

section Branches
variable {s s' : System} {w : ThreadId}

theorem branch_cases {task : Option ScheduleTask} (done : s.branch w task = some s') :
    (∃ t f, task = some t ∧ t.fiber = some f ∧ (s.fibers f).m_state.finished = false ∧
      s' = s.goto w (.swapIn f false)) ∨
    (∃ t func, task = some t ∧ t.func = some func ∧
      (∀ f, t.fiber = some f → (s.fibers f).m_state.finished = true) ∧
      s.funcBranch w func = some s') ∨
    (∃ t, task = some t ∧ t.func = none ∧
      (∀ f, t.fiber = some f → (s.fibers f).m_state.finished = true) ∧ s' = s.goto w .drop) ∨
    (task = none ∧ s' = s.goto w (if (s.worker w).idleTerm then .exit else .goIdle)) := by
  cases task with
  | none =>
      cases done
      exact Or.inr (Or.inr (Or.inr ⟨rfl, rfl⟩))
  | some t =>
      simp only [System.branch] at done
      split at done
      · rename_i f fit
        rw [Option.filter_eq_some_iff] at fit
        cases done
        exact Or.inl ⟨t, f, rfl, fit.1, by simpa using fit.2, rfl⟩
      · rename_i unfit
        have finished : ∀ f, t.fiber = some f → (s.fibers f).m_state.finished = true := by
          intro f named
          rw [named] at unfit
          simpa using unfit
        split at done
        · rename_i func named
          exact Or.inr (Or.inl ⟨t, func, rfl, named, finished, done⟩)
        · rename_i unnamed
          cases done
          exact Or.inr (Or.inr (Or.inl ⟨t, rfl, unnamed, finished, rfl⟩))

theorem funcBranch_cases {func : Func} (done : s.funcBranch w func = some s') :
    (∃ f fiber, (s.worker w).func_fiber = some f ∧
      (s.fibers f).resetFunc (some func) = some fiber ∧
      s' = (s.setFiber f fiber).goto w (.swapIn f true)) ∨
    ((s.worker w).func_fiber = none ∧
      s' = { s.setFiber s.nextFiber { m_func := some func } with
        nextFiber := s.nextFiber + 1
        worker := Function.update s.worker w { s.worker w with
          pc := .swapIn s.nextFiber true, func_fiber := some s.nextFiber } }) := by
  unfold System.funcBranch at done
  split at done
  · rename_i f kept
    rcases Option.map_eq_some_iff.mp done with ⟨fiber, reset, rfl⟩
    exact Or.inl ⟨f, fiber, kept, reset, rfl⟩
  · rename_i unkept
    cases done
    refine Or.inr ⟨unkept, ?_⟩
    simp [System.goto]

/-- The fiber is READY and will be queued again, has finished, or is put on
HOLD; in the last two cases it is not READY afterwards. -/
theorem inspect_cases {f : FiberId} {own : Bool} (done : s.inspect w f own = some s') :
    ((s.fibers f).m_state = .ready ∧ s' = s.goto w (.requeue f own)) ∨
    ((s.fibers f).m_state.finished = true ∧ ∃ fiber : Fiber,
      (fiber = s.fibers f ∨ fiber.m_state = .init) ∧ s' = (s.setFiber f fiber).goto w .scan) ∨
    s' = { s.setFiber f { s.fibers f with m_state := .hold } with
      worker := Function.update s.worker w ((s.worker w).released own .scan) } := by
  unfold System.inspect at done
  split at done
  · rename_i ready
    cases done
    exact Or.inl ⟨ready, rfl⟩
  · split at done
    · rename_i finished
      refine Or.inr (Or.inl ⟨finished, ?_⟩)
      split at done
      · rcases Option.map_eq_some_iff.mp done with ⟨fiber, reset, rfl⟩
        refine ⟨fiber, Or.inr ?_, rfl⟩
        rw [Fiber.resetFunc] at reset
        split at reset
        · cases reset
          rfl
        · cases reset
      · cases done
        refine ⟨s.fibers f, Or.inl rfl, ?_⟩
        simp [System.setFiber]
    · cases done
      exact Or.inr (Or.inr (dropFuncFiber_goto _ w own .scan))

end Branches

/-! Fibers in a worker's hands. -/

def Next.carries (f : FiberId) : Next → Prop
  | .branch task => task.bind (·.fiber) = some f
  | .scan => False

def Pc.carries (f : FiberId) : Pc → Prop
  | .tickle next | .tickleWrite next => next.carries f
  | .branch task => task.bind (·.fiber) = some f
  | .swapIn g _ | .running g _ | .saving g _ | .returned g _ | .inspect g _ | .requeue g _ => g = f
  | .scan | .drop | .goIdle | .idle | .epollWait | .draining | .leaveIdle _ | .exit => False

theorem Next.pc_carries (next : Next) (f : FiberId) : next.pc.carries f ↔ next.carries f := by
  cases next with
  | branch task => rfl
  | scan => rfl

/-! The steps on which a worker only goes on. -/

inductive Walk : Pc → Pc → Prop where
  | swapOut (f own) : Walk (.saving f own) (.returned f own)
  | decrement (f own) : Walk (.returned f own) (.inspect f own)
  | drop : Walk .drop .scan
  | goIdle : Walk .goIdle .idle
  | quit : Walk .idle (.leaveIdle true)
  | sleep : Walk .idle .epollWait
  | tickled : Walk .epollWait .draining
  | expired : Walk .epollWait (.leaveIdle false)
  | drained : Walk .draining (.leaveIdle false)
  | leaveIdle (term) : Walk (.leaveIdle term) .scan

theorem Walk.carries {pc pc' : Pc} (walk : Walk pc pc') (f : FiberId) :
    pc'.carries f ↔ pc.carries f := by
  cases walk <;> rfl

def Act.walks : Act → Bool
  | .swapOut _ _ _ | .decrement _ _ _ | .drop _ | .goIdle _ | .checkStopping _ _ | .wake _ _
  | .endDrain _ | .leaveIdle _ _ => true
  | _ => false

theorem walk_step {s s' : System} {act : Act} (able : act.enabled s)
    (done : act.effect s = some s') (walks : act.walks = true) :
    ∃ w x active idle, w ∈ s.threads ∧ Walk (s.worker w).pc x.pc ∧
      x.func_fiber = (s.worker w).func_fiber ∧
      s' = { s with
        worker := Function.update s.worker w x
        m_activeThreadCount := active
        m_idleThreadCount := idle } := by
  rcases able with ⟨site, _⟩
  have went : ∀ w pc pc', (w ∈ s.threads ∧ (s.worker w).pc = pc) → Walk pc pc' →
      w ∈ s.threads ∧ Walk (s.worker w).pc { s.worker w with pc := pc' }.pc := by
    rintro w pc pc' ⟨mem, rfl⟩ walk
    exact ⟨mem, walk⟩
  cases act with
  | swapOut w f own =>
      cases done
      rcases went w _ _ (site _ rfl) (.swapOut f own) with ⟨mem, walk⟩
      exact ⟨w, _, _, _, mem, walk, rfl, rfl⟩
  | decrement w f own =>
      cases done
      rcases went w _ _ (site _ rfl) (.decrement f own) with ⟨mem, walk⟩
      exact ⟨w, _, _, _, mem, walk, rfl, rfl⟩
  | drop w =>
      cases done
      rcases went w _ _ (site _ rfl) .drop with ⟨mem, walk⟩
      exact ⟨w, _, _, _, mem, walk, rfl, rfl⟩
  | goIdle w =>
      cases done
      rcases went w _ _ (site _ rfl) .goIdle with ⟨mem, walk⟩
      exact ⟨w, _, _, _, mem, walk, rfl, rfl⟩
  | checkStopping w quiet =>
      cases done
      cases quiet && s.stopping with
      | true =>
          rcases went w _ _ (site _ rfl) .quit with ⟨mem, walk⟩
          exact ⟨w, _, _, _, mem, walk, rfl, rfl⟩
      | false =>
          rcases went w _ _ (site _ rfl) .sleep with ⟨mem, walk⟩
          exact ⟨w, _, _, _, mem, walk, rfl, rfl⟩
  | wake w tickled =>
      cases done
      cases tickled with
      | true =>
          rcases went w _ _ (site _ rfl) .tickled with ⟨mem, walk⟩
          exact ⟨w, _, _, _, mem, walk, rfl, rfl⟩
      | false =>
          rcases went w _ _ (site _ rfl) .expired with ⟨mem, walk⟩
          exact ⟨w, _, _, _, mem, walk, rfl, rfl⟩
  | endDrain w =>
      cases done
      rcases went w _ _ (site _ rfl) .drained with ⟨mem, walk⟩
      exact ⟨w, _, _, _, mem, walk, rfl, rfl⟩
  | leaveIdle w term =>
      cases done
      rcases went w _ _ (site _ rfl) (.leaveIdle term) with ⟨mem, walk⟩
      refine ⟨w, { s.worker w with pc := .scan, idleTerm := term }, s.m_activeThreadCount,
        s.m_idleThreadCount - 1, mem, walk, rfl, ?_⟩
      simp [System.goto]
  | _ => cases walks

theorem resetFunc_state {fiber fiber' : Fiber} {func : Option Func}
    (reset : fiber.resetFunc func = some fiber') : fiber'.m_state = .init := by
  rw [Fiber.resetFunc] at reset
  split at reset
  · cases reset
    rfl
  · cases reset

/-! Positions of a worker and the counters that follow them. -/

def Next.busy : Next → Bool
  | .branch task => task.isSome
  | .scan => false

def Pc.busy : Pc → Bool
  | .tickle next | .tickleWrite next => next.busy
  | .branch task => task.isSome
  | .swapIn _ _ | .running _ _ | .saving _ _ | .returned _ _ | .drop => true
  | .scan | .inspect _ _ | .requeue _ _ | .goIdle | .idle | .epollWait | .draining
  | .leaveIdle _ | .exit => false

def Pc.countedIdle : Pc → Bool
  | .idle | .epollWait | .draining | .leaveIdle _ => true
  | .scan | .tickle _ | .tickleWrite _ | .branch _ | .swapIn _ _ | .running _ _ | .saving _ _
  | .returned _ _ | .drop | .inspect _ _ | .requeue _ _ | .goIdle | .exit => false

@[simp] theorem Next.pc_busy (next : Next) : next.pc.busy = next.busy := by
  cases next <;> rfl

@[simp] theorem Next.pc_countedIdle (next : Next) : next.pc.countedIdle = false := by
  cases next <;> rfl

/-- A counter follows one worker's membership. -/
def Shift (before after : Bool) (count count' : UInt64) : Prop :=
  count' = match before, after with
    | false, true => count + 1
    | true, false => count - 1
    | _, _ => count

theorem shift_same {before after : Bool} (same : before = after) (count : UInt64) :
    Shift before after count count := by
  subst same
  cases before <;> rfl

def Follow (s s' : System) : Prop :=
  s'.threads = s.threads ∧
    ((s'.worker = s.worker ∧ s'.m_activeThreadCount = s.m_activeThreadCount ∧
        s'.m_idleThreadCount = s.m_idleThreadCount) ∨
      ∃ w x, w ∈ s.threads ∧ s'.worker = Function.update s.worker w x ∧
        Shift (s.worker w).pc.busy x.pc.busy s.m_activeThreadCount s'.m_activeThreadCount ∧
        Shift (s.worker w).pc.countedIdle x.pc.countedIdle s.m_idleThreadCount
          s'.m_idleThreadCount)

section Moves
variable {s s' : System} {w : ThreadId}

theorem follow_goto {pc : Pc} (x : Worker) (mem : w ∈ s.threads)
    (threads : s'.threads = s.threads) (worker : s'.worker = Function.update s.worker w x)
    (active : s'.m_activeThreadCount = s.m_activeThreadCount)
    (idle : s'.m_idleThreadCount = s.m_idleThreadCount) (at_ : (s.worker w).pc = pc)
    (busy : pc.busy = x.pc.busy) (counted : pc.countedIdle = x.pc.countedIdle) :
    Follow s s' := by
  refine ⟨threads, Or.inr ⟨w, x, mem, worker, ?_, ?_⟩⟩
  · rw [active]
    exact shift_same (at_ ▸ busy) _
  · rw [idle]
    exact shift_same (at_ ▸ counted) _

theorem follow_counted {pc : Pc} (x : Worker) (mem : w ∈ s.threads)
    (threads : s'.threads = s.threads) (worker : s'.worker = Function.update s.worker w x)
    (at_ : (s.worker w).pc = pc)
    (active : Shift pc.busy x.pc.busy s.m_activeThreadCount s'.m_activeThreadCount)
    (idle : Shift pc.countedIdle x.pc.countedIdle s.m_idleThreadCount s'.m_idleThreadCount) :
    Follow s s' := by
  subst at_
  exact ⟨threads, Or.inr ⟨w, x, mem, worker, active, idle⟩⟩

theorem follow_outside (threads : s'.threads = s.threads) (worker : s'.worker = s.worker)
    (active : s'.m_activeThreadCount = s.m_activeThreadCount)
    (idle : s'.m_idleThreadCount = s.m_idleThreadCount) : Follow s s' :=
  ⟨threads, Or.inl ⟨worker, active, idle⟩⟩

theorem follow_take (mem : w ∈ s.threads) (at_ : (s.worker w).pc = .scan) :
    Follow s (s.take w) := by
  refine ⟨rfl, Or.inr ⟨w, _, mem, rfl, ?_, ?_⟩⟩
  · rw [at_]
    cases found : (takeTask w s.m_tasks).1 with
    | none =>
        simp only [System.take, System.goto, found]
        cases (takeTask w s.m_tasks).2.2 <;> rfl
    | some task =>
        simp only [System.take, System.goto, found]
        cases (takeTask w s.m_tasks).2.2 <;> rfl
  · rw [at_]
    simp only [System.take]
    cases (takeTask w s.m_tasks).2.2 <;> rfl

theorem follow_branch {task : Option ScheduleTask} (mem : w ∈ s.threads)
    (at_ : (s.worker w).pc = .branch task) (done : s.branch w task = some s') : Follow s s' := by
  rcases branch_cases done with ⟨t, f, rfl, _, _, rfl⟩ | ⟨t, func, rfl, _, _, run⟩ |
    ⟨t, rfl, _, _, rfl⟩ | ⟨rfl, rfl⟩
  · exact follow_goto { s.worker w with pc := .swapIn f false } mem rfl rfl rfl rfl at_ rfl rfl
  · rcases funcBranch_cases run with ⟨f, fiber, _, _, rfl⟩ | ⟨_, rfl⟩
    · exact follow_goto { s.worker w with pc := .swapIn f true } mem rfl rfl rfl rfl at_ rfl rfl
    · exact follow_goto { s.worker w with
        pc := .swapIn s.nextFiber true, func_fiber := some s.nextFiber } mem rfl rfl rfl rfl at_
        rfl rfl
  · exact follow_goto { s.worker w with pc := .drop } mem rfl rfl rfl rfl at_ rfl rfl
  · refine follow_goto _ mem rfl rfl rfl rfl at_ ?_ ?_
    · cases (s.worker w).idleTerm <;> rfl
    · cases (s.worker w).idleTerm <;> rfl

theorem follow_inspect {f : FiberId} {own : Bool} (mem : w ∈ s.threads)
    (at_ : (s.worker w).pc = .inspect f own) (done : s.inspect w f own = some s') :
    Follow s s' := by
  rcases inspect_cases done with ⟨_, rfl⟩ | ⟨_, fiber, _, rfl⟩ | rfl
  · exact follow_goto { s.worker w with pc := .requeue f own } mem rfl rfl rfl rfl at_ rfl rfl
  · exact follow_goto { s.worker w with pc := .scan } mem rfl rfl rfl rfl at_ rfl rfl
  · exact follow_goto ((s.worker w).released own .scan) mem rfl rfl rfl rfl at_ rfl rfl

theorem follow_requeue {f : FiberId} {own : Bool} (mem : w ∈ s.threads)
    (at_ : (s.worker w).pc = .requeue f own) : Follow s (s.requeue w f own) := by
  rw [requeue_eq]
  cases s.needTickle [{ fiber := some f }] with
  | true =>
      exact follow_goto ((s.worker w).released own (.tickle .scan)) mem rfl rfl rfl rfl at_ rfl rfl
  | false =>
      exact follow_goto ((s.worker w).released own .scan) mem rfl rfl rfl rfl at_ rfl rfl

theorem effect_follow {act : Act} (able : act.enabled s) (done : act.effect s = some s') :
    Follow s s' := by
  rcases able with ⟨site, _⟩
  cases act with
  | start | autoStop | stop | newFiber _ | schedule _ | tickleOutside | writeOutside
  | tickleElsewhere | trigger _ | addEvent _ _ _ | drain _ =>
      cases done
      exact follow_outside rfl rfl rfl rfl
  | switchTo w f own thread =>
      cases done
      unfold System.switchTo
      split
      · exact follow_outside rfl rfl rfl rfl
      · exact follow_outside rfl rfl rfl rfl
  | take w =>
      cases done
      rcases site _ rfl with ⟨mem, at_⟩
      exact follow_take mem at_
  | tickle w next =>
      cases done
      rcases site _ rfl with ⟨mem, at_⟩
      refine follow_goto _ mem rfl rfl rfl rfl at_ ?_ ?_
      · split
        · rfl
        · exact (Next.pc_busy next).symm
      · split
        · rfl
        · exact (Next.pc_countedIdle next).symm
  | tickleWrite w next =>
      cases done
      rcases site _ rfl with ⟨mem, at_⟩
      exact follow_goto { s.worker w with pc := next.pc } mem rfl rfl rfl rfl at_
        (Next.pc_busy next).symm (Next.pc_countedIdle next).symm
  | branch w task =>
      rcases site _ rfl with ⟨mem, at_⟩
      exact follow_branch mem at_ done
  | swapIn w f own =>
      rcases site _ rfl with ⟨mem, at_⟩
      rcases Option.map_eq_some_iff.mp done with ⟨fiber, _, rfl⟩
      exact follow_goto { s.worker w with pc := .running f own } mem rfl rfl rfl rfl at_ rfl rfl
  | yieldTo w f own target =>
      rcases site _ rfl with ⟨mem, at_⟩
      rcases Option.map_eq_some_iff.mp done with ⟨fiber, _, rfl⟩
      exact follow_goto { s.worker w with pc := .saving f own } mem rfl rfl rfl rfl at_ rfl rfl
  | finish w f own threw =>
      cases done
      rcases site _ rfl with ⟨mem, at_⟩
      exact follow_goto { s.worker w with pc := .saving f own } mem rfl rfl rfl rfl at_ rfl rfl
  | swapOut w f own =>
      cases done
      rcases site _ rfl with ⟨mem, at_⟩
      exact follow_goto { s.worker w with pc := .returned f own } mem rfl rfl rfl rfl at_ rfl rfl
  | decrement w f own =>
      cases done
      rcases site _ rfl with ⟨mem, at_⟩
      exact follow_counted _ mem rfl rfl at_ rfl rfl
  | inspect w f own =>
      rcases site _ rfl with ⟨mem, at_⟩
      exact follow_inspect mem at_ done
  | requeue w f own =>
      cases done
      rcases site _ rfl with ⟨mem, at_⟩
      exact follow_requeue mem at_
  | drop w =>
      cases done
      rcases site _ rfl with ⟨mem, at_⟩
      exact follow_counted _ mem rfl rfl at_ rfl rfl
  | goIdle w =>
      cases done
      rcases site _ rfl with ⟨mem, at_⟩
      exact follow_counted _ mem rfl rfl at_ rfl rfl
  | checkStopping w quiet =>
      cases done
      rcases site _ rfl with ⟨mem, at_⟩
      refine follow_goto _ mem rfl rfl rfl rfl at_ ?_ ?_
      · split <;> rfl
      · split <;> rfl
  | wake w tickled =>
      cases done
      rcases site _ rfl with ⟨mem, at_⟩
      refine follow_goto _ mem rfl rfl rfl rfl at_ ?_ ?_
      · cases tickled <;> rfl
      · cases tickled <;> rfl
  | endDrain w =>
      cases done
      rcases site _ rfl with ⟨mem, at_⟩
      exact follow_goto { s.worker w with pc := .leaveIdle false } mem rfl rfl rfl rfl at_ rfl rfl
  | leaveIdle w term =>
      cases done
      rcases site _ rfl with ⟨mem, at_⟩
      refine follow_counted { s.worker w with pc := .scan, idleTerm := term } mem rfl ?_ at_ rfl rfl
      simp [System.goto]

end Moves

/-! The counters are tallies of the workers' positions. -/

def Worker.busy (worker : Worker) : Nat := worker.pc.busy.toNat

def Worker.countedIdle (worker : Worker) : Nat := worker.pc.countedIdle.toNat

/-- Thread ids are 32-bit words, so there are fewer workers than a counter holds. -/
theorem threads_bound {threads : List ThreadId} (nodup : threads.Nodup) :
    threads.length ≤ UInt32.size := by
  -- different ids are different numbers below 2^32
  have injective : Function.Injective fun thread : ThreadId => thread.toBitVec.toNat := by
    intro a b same
    exact Int32.toBitVec.inj (BitVec.eq_of_toNat_eq same)
  have inside : threads.map (fun thread => thread.toBitVec.toNat) ⊆ List.range UInt32.size := by
    intro value mem
    rcases List.mem_map.mp mem with ⟨thread, _, rfl⟩
    exact List.mem_range.mpr thread.toBitVec.isLt
  have le := (List.subperm_of_subset (nodup.map injective) inside).length_le
  simpa using le

theorem shift_tally {weight : Worker → Nat} {place : Pc → Bool}
    (weigh : ∀ worker, weight worker = (place worker.pc).toNat) {s : System} {w : ThreadId}
    {x : Worker} (nodup : s.threads.Nodup) (mem : w ∈ s.threads) {count count' : UInt64}
    (counts : count.toNat = tally weight s.threads s.worker)
    (shift : Shift (place (s.worker w).pc) (place x.pc) count count') :
    count'.toNat = tally weight s.threads (Function.update s.worker w x) := by
  have changed := tally_update weight s.worker nodup mem x
  have at_most : tally weight s.threads s.worker ≤ 1 * s.threads.length := by
    apply tally_le
    intro worker
    rw [weigh]
    exact Bool.toNat_le _
  have present := weight_le_tally weight s.worker mem
  have bound := threads_bound nodup
  rw [weigh, weigh] at changed
  rw [weigh] at present
  cases before : place (s.worker w).pc with
  | true =>
      cases after : place x.pc with
      | true =>
          simp only [Shift, before, after, Bool.toNat_true] at shift changed
          rw [shift, counts]
          omega
      | false =>
          simp only [Shift, before, after, Bool.toNat_true, Bool.toNat_false]
            at shift changed present
          rw [shift, count_down counts (by omega)]
          omega
  | false =>
      cases after : place x.pc with
      | true =>
          simp only [Shift, before, after, Bool.toNat_true, Bool.toNat_false] at shift changed
          -- the count is at most the number of workers, far from wrapping
          have room : tally weight s.threads s.worker + 1 < UInt64.size := by
            simp only [UInt32.size, UInt64.size] at bound ⊢
            omega
          rw [shift, count_up counts room]
          omega
      | false =>
          simp only [Shift, before, after, Bool.toNat_false] at shift changed
          rw [shift, counts]
          omega

structure Counted (s : System) : Prop where
  nodup : s.threads.Nodup
  active : s.m_activeThreadCount.toNat = tally Worker.busy s.threads s.worker
  idle : s.m_idleThreadCount.toNat = tally Worker.countedIdle s.threads s.worker

theorem reach_counted {allowed : System → Act → Prop} {s : System}
    (reached : Reach scheduler allowed s) : Counted s := by
  apply reached.invariant Counted
  · rintro _ ⟨threads, nodup, rfl⟩
    constructor
    · exact nodup
    · symm
      apply tally_eq_zero.mpr
      intro _ _
      rfl
    · symm
      apply tally_eq_zero.mpr
      intro _ _
      rfl
  · intro before act after _ counted _ moved
    rcases scheduler_step moved with ⟨able, done⟩
    rcases effect_follow able done with ⟨threads, outside | ⟨w, x, mem, worker, active, idle⟩⟩
    · rcases outside with ⟨worker, active, idle⟩
      constructor
      · rw [threads]
        exact counted.nodup
      · rw [active, threads, worker]
        exact counted.active
      · rw [idle, threads, worker]
        exact counted.idle
    · constructor
      · rw [threads]
        exact counted.nodup
      · rw [threads, worker]
        exact shift_tally (fun _ => rfl) counted.nodup mem counted.active active
      · rw [threads, worker]
        exact shift_tally (fun _ => rfl) counted.nodup mem counted.idle idle

/-! What happens to the queue. -/

theorem scheduleAll_tasks (m_tasks tasks : List ScheduleTask) :
    (scheduleAll m_tasks tasks).2 = m_tasks ++ tasks.filter ScheduleTask.valid := by
  induction tasks generalizing m_tasks with
  | nil => simp [scheduleAll]
  | cons task rest ih =>
      simp only [scheduleAll, scheduleNoLock, ih]
      cases valid : task.valid with
      | true => simp [valid]
      | false => simp [valid]

/-- The earliest task the worker may run is taken, the others keep their
order; if it may run none, the queue stays as it is. -/
theorem takeTask_cases (w : ThreadId) (tasks : List ScheduleTask) :
    (∃ skipped task rest, tasks = skipped ++ task :: rest ∧ task.mayRun w = true ∧
      (∀ other ∈ skipped, other.mayRun w = false) ∧
      takeTask w tasks = (some task, skipped ++ rest, !(skipped ++ rest).isEmpty)) ∨
    ((∀ task ∈ tasks, task.mayRun w = false) ∧
      takeTask w tasks = (none, tasks, !tasks.isEmpty)) := by
  -- a skipped task goes back in front of what the rest of the scan leaves
  induction tasks with
  | nil =>
      refine Or.inr ⟨?_, rfl⟩
      intro task mem
      cases mem
  | cons it rest ih =>
      cases runs : it.mayRun w with
      | true =>
          refine Or.inl ⟨[], it, rest, rfl, runs, ?_, ?_⟩
          · intro other mem
            cases mem
          · simp [takeTask, runs]
      | false =>
          rcases ih with ⟨skipped, task, later, rfl, eligible, passed, taken⟩ | ⟨passed, taken⟩
          · refine Or.inl ⟨it :: skipped, task, later, rfl, eligible, ?_, ?_⟩
            · intro other mem
              rcases List.mem_cons.mp mem with rfl | within
              · exact runs
              · exact passed other within
            · simp [takeTask, runs, taken]
          · refine Or.inr ⟨?_, ?_⟩
            · intro task mem
              rcases List.mem_cons.mp mem with rfl | within
              · exact runs
              · exact passed task within
            · simp [takeTask, runs, taken]

/-- The queue is left alone, grows by valid tasks at its end, or loses what one
worker takes. -/
def QueueStep (s s' : System) : Prop :=
  (s'.m_tasks = s.m_tasks ∧ s'.taken = s.taken ∧ s'.pushed = s.pushed) ∨
  (∃ new : List ScheduleTask, (∀ task ∈ new, task.valid = true) ∧
    s'.m_tasks = s.m_tasks ++ new ∧ s'.taken = s.taken ∧ s'.pushed = s.pushed ++ new) ∨
  ∃ w, w ∈ s.threads ∧ (s.worker w).pc = .scan ∧ s' = s.take w

section Queue
variable {s s' : System} {w : ThreadId}

theorem queue_push {tasks : List ScheduleTask}
    (queue : s'.m_tasks = (scheduleAll s.m_tasks tasks).2) (taken : s'.taken = s.taken)
    (pushed : s'.pushed = s.pushed ++ tasks.filter ScheduleTask.valid) : QueueStep s s' := by
  refine Or.inr (Or.inl ⟨tasks.filter ScheduleTask.valid, ?_, ?_, taken, pushed⟩)
  · intro task mem
    exact (List.mem_filter.mp mem).2
  · rw [queue, scheduleAll_tasks]

theorem queue_branch {task : Option ScheduleTask} (done : s.branch w task = some s') :
    QueueStep s s' := by
  rcases branch_cases done with ⟨t, f, _, _, _, rfl⟩ | ⟨t, func, _, _, _, run⟩ |
    ⟨t, _, _, _, rfl⟩ | ⟨_, rfl⟩
  · exact Or.inl ⟨rfl, rfl, rfl⟩
  · rcases funcBranch_cases run with ⟨f, fiber, _, _, rfl⟩ | ⟨_, rfl⟩
    · exact Or.inl ⟨rfl, rfl, rfl⟩
    · exact Or.inl ⟨rfl, rfl, rfl⟩
  · exact Or.inl ⟨rfl, rfl, rfl⟩
  · exact Or.inl ⟨rfl, rfl, rfl⟩

theorem queue_inspect {f : FiberId} {own : Bool} (done : s.inspect w f own = some s') :
    QueueStep s s' := by
  rcases inspect_cases done with ⟨_, rfl⟩ | ⟨_, fiber, _, rfl⟩ | rfl
  · exact Or.inl ⟨rfl, rfl, rfl⟩
  · exact Or.inl ⟨rfl, rfl, rfl⟩
  · exact Or.inl ⟨rfl, rfl, rfl⟩

theorem effect_queue {act : Act} (able : act.enabled s) (done : act.effect s = some s') :
    QueueStep s s' := by
  rcases able with ⟨site, _⟩
  cases act with
  | start | autoStop | stop | newFiber _ | tickleOutside | writeOutside | tickleElsewhere
  | addEvent _ _ _ | tickle _ _ | tickleWrite _ _ | finish _ _ _ _ | swapOut _ _ _
  | decrement _ _ _ | drop _
  | goIdle _ | checkStopping _ _ | wake _ _ | drain _ | endDrain _ | leaveIdle _ _ =>
      cases done
      exact Or.inl ⟨rfl, rfl, rfl⟩
  | schedule tasks =>
      cases done
      exact queue_push rfl rfl rfl
  | trigger f =>
      cases done
      exact queue_push rfl rfl rfl
  | switchTo w f own thread =>
      cases done
      unfold System.switchTo
      split
      · exact Or.inl ⟨rfl, rfl, rfl⟩
      · exact queue_push rfl rfl rfl
  | take w =>
      cases done
      rcases site _ rfl with ⟨mem, at_⟩
      exact Or.inr (Or.inr ⟨w, mem, at_, rfl⟩)
  | branch w task => exact queue_branch done
  | swapIn w f own =>
      rcases Option.map_eq_some_iff.mp done with ⟨fiber, _, rfl⟩
      exact Or.inl ⟨rfl, rfl, rfl⟩
  | yieldTo w f own target =>
      rcases Option.map_eq_some_iff.mp done with ⟨fiber, _, rfl⟩
      exact Or.inl ⟨rfl, rfl, rfl⟩
  | inspect w f own => exact queue_inspect done
  | requeue w f own =>
      cases done
      rw [requeue_eq]
      exact queue_push rfl rfl rfl

end Queue

end Ztyco.Scheduler
