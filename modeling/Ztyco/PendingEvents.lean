import Ztyco.EventPlacement
import Ztyco.Tally

/-!
`m_pendingEventCount` against the masks. Every registration counts one up and
every release one down; the masks agree as long as each release clears one bit
and no registered context is dropped from the table.
-/

namespace Ztyco.EventTable

open Transition
open Tally

def FdContext.pending (ctx : FdContext) : Nat := (ctx.has .read).toNat + (ctx.has .write).toNat

def IOManager.pendingEvents (io : IOManager) : Nat :=
  tally FdContext.pending io.m_fdContexts io.heap

theorem FdContext.pending_le (ctx : FdContext) : ctx.pending ≤ 2 := by
  have read := Bool.toNat_le (ctx.has .read)
  have write := Bool.toNat_le (ctx.has .write)
  unfold FdContext.pending
  omega

theorem FdContext.pending_zero {ctx : FdContext} : ctx.pending = 0 ↔ ctx.registered = false := by
  unfold FdContext.pending FdContext.registered
  cases ctx.has .read <;> cases ctx.has .write <;> simp

theorem enroll_pending {ctx : FdContext} {e : Event} (ectx : EventContext) (real : e ≠ .none)
    (clear : ctx.has e = false) : (ctx.enroll e ectx).pending = ctx.pending + 1 := by
  unfold FdContext.pending
  rw [FdContext.enroll_has _ _ _ _ real, FdContext.enroll_has _ _ _ _ real]
  cases e with
  | none => contradiction
  | read => simp [clear, Nat.add_comm]
  | write => simp [clear]

theorem withdraw_pending {ctx : FdContext} {e : Event} (set : ctx.has e = true) :
    (ctx.withdraw e).pending + 1 = ctx.pending := by
  unfold FdContext.pending
  rw [FdContext.withdraw_has, FdContext.withdraw_has]
  cases e with
  | none => simp at set
  | read => simp [set, Nat.add_comm]
  | write => simp [set]

theorem fired_pending {ctx : FdContext} {e : Event} (set : ctx.has e = true)
    (sole : ¬ (ctx.has .read = true ∧ ctx.has .write = true)) :
    (ctx.fired e).pending + 1 = ctx.pending := by
  unfold FdContext.pending
  rw [FdContext.fired_has, FdContext.fired_has]
  cases e with
  | none => simp at set
  | read => simp_all
  | write => simp_all

def Counted (io : IOManager) : Prop := io.m_pendingEventCount.toNat = io.pendingEvents

theorem pendingEvents_bound {io : IOManager} (laid : Laid io) :
    io.pendingEvents ≤ 2 * UInt32.size := by
  obtain ⟨base, _, _, bounded, _⟩ := laid
  have each : io.pendingEvents ≤ 2 * io.m_fdContexts.length :=
    tally_le FdContext.pending_le
  omega

theorem pendingEvents_contextResize (io : IOManager) (size : Nat) :
    (io.contextResize size).pendingEvents = 0 := by
  refine tally_eq_zero.mpr fun p mem => ?_
  rw [FdContext.pending_zero, registered_false_iff]
  exact contextResize_fresh io size mem

theorem counted_positive {io : IOManager} {p : Ptr} (mem : p ∈ io.m_fdContexts)
    (pending : 0 < (io.heap p).pending) : 0 < io.pendingEvents :=
  Nat.lt_of_lt_of_le pending (weight_le_tally FdContext.pending io.heap mem)

section Moves
variable {before : IOManager}

theorem counted_register (laid : Laid before) (counted : Counted before)
    {fd : Int32} {p : Ptr} {e : Event} {scheduler : Option SchedulerId} {waiter : Waiter}
    (able : (Move.register fd p e scheduler waiter).enabled before) :
    Counted ((Move.register fd p e scheduler waiter).effect before) := by
  obtain ⟨found, real, clear, _⟩ := able
  have changed := tally_update FdContext.pending before.heap (table_nodup laid) (context_mem found)
    ((before.heap p).enroll e (waiter.slot scheduler))
  have bound := pendingEvents_bound laid
  have counts := count_up counted (by simp only [UInt32.size, UInt64.size] at bound ⊢; omega)
  rw [enroll_pending _ real clear] at changed
  unfold Counted IOManager.pendingEvents at *
  simp only [Move.effect]
  omega

/-- A release that clears the one bit it releases. -/
theorem counted_release (laid : Laid before) (counted : Counted before) {p : Ptr}
    (mem : p ∈ before.m_fdContexts) {ctx : FdContext} {after : IOManager}
    (one : ctx.pending + 1 = (before.heap p).pending)
    (count : after.m_pendingEventCount = before.m_pendingEventCount - 1)
    (table : after.m_fdContexts = before.m_fdContexts)
    (heap : after.heap = Function.update before.heap p ctx) : Counted after := by
  have changed := tally_update FdContext.pending before.heap (table_nodup laid) mem ctx
  have counts := count_down counted (counted_positive mem (by omega))
  unfold Counted IOManager.pendingEvents at *
  rw [count, table, heap]
  omega

end Moves

theorem reach_counted {guard : IOManager → Move → Prop} {io : IOManager}
    (sole : ∀ io move, guard io move → SoleFire io move)
    (clean : ∀ io move, guard io move → CleanResize io move)
    (reached : Reach moves guard io) : Counted io := by
  refine reached.invariant Counted ?_ ?_
  · rintro state rfl
    exact (pendingEvents_contextResize {} 32).symm
  · intro before move after prior counted guarded moved
    obtain ⟨able, rfl⟩ := moves_step moved
    have laid := reach_laid prior
    cases move with
    | resize size =>
        -- the new table counts nothing, and neither did the old one
        have nothing : before.pendingEvents = 0 :=
          tally_eq_zero.mpr fun p mem => FdContext.pending_zero.mpr (clean before _ guarded p mem)
        unfold Counted at counted ⊢
        rw [Move.effect, pendingEvents_contextResize, ← nothing]
        exact counted
    | control fd entry => exact counted
    | register fd p e scheduler waiter => exact counted_register laid counted able
    | discard fd p e =>
        have mem := context_mem able.1
        exact counted_release laid counted mem (withdraw_pending able.2) rfl rfl rfl
    | fire p e scheduler =>
        have mem := context_mem (reach_placed clean prior p e able.1)
        exact counted_release laid counted mem
          (fired_pending able.1 (sole before _ guarded)) rfl rfl rfl

/-- The counter is the number of registered events of the table, no decrement
meets zero, and the test in `stopping` tells whether any event is registered. -/
def PendingCount (io : IOManager) : Prop :=
  io.m_pendingEventCount.toNat = io.pendingEvents ∧
    (∀ p e, (io.heap p).has e = true → 0 < io.m_pendingEventCount.toNat) ∧
    (io.m_pendingEventCount = 0 ↔ ∀ p ∈ io.m_fdContexts, (io.heap p).registered = false)

/-- In every run in which the table grows only while nothing is registered in
it and no operation triggers on a context with both events set, whatever
`epoll_ctl` answers. -/
theorem pending_count_exact {io : IOManager}
    (reached : Reach ioManager (fun io op => io.SafeRebuild op ∧ io.SoleEvent op) io) :
    PendingCount io := by
  have onMoves := reach_moves_clean_sole reached
  have clean : ∀ (io : IOManager) move, CleanResize io move ∧ SoleFire io move →
      CleanResize io move := fun _ _ guarded => guarded.1
  have counted : Counted io := reach_counted (fun _ _ guarded => guarded.2) clean onMoves
  refine ⟨counted, fun p e set => ?_, ?_⟩
  · have mem := context_mem (reach_placed clean onMoves p e set)
    rw [show io.m_pendingEventCount.toNat = io.pendingEvents from counted]
    apply counted_positive mem
    rw [Nat.pos_iff_ne_zero, Ne, FdContext.pending_zero, registered_false_iff]
    intro clear
    rw [clear e] at set
    cases set
  · rw [count_zero counted]
    unfold IOManager.pendingEvents
    simp only [tally_eq_zero, FdContext.pending_zero]

theorem pending_count_exact_run :
    ∃ io, run ioManager IOManager.constructed
        [.addEvent (threadFiber 7) 40 .read none 0, .addEvent (threadFiber 8) 40 .write none 0,
          .addEvent (threadFiber 9) 5 .read none (-1), .delEvent 40 .read 0] = some io ∧
      PendingCount io :=
  run_meets (fun io op => io.SafeRebuild op ∧ io.SoleEvent op) rfl (by decide) (by decide)
    fun _ reached => pending_count_exact reached

/-- Cancelling one of two registered events clears both bits and counts one:
nothing is registered and the counter stands at 1. -/
theorem shared_trigger_breaks_count :
    ¬ ∀ io, Reach ioManager (fun _ op => FromScheduler op) io → PendingCount io := by
  intro claim
  obtain ⟨io, reached, facts⟩ := reach_where ioManager (fun _ op => FromScheduler op)
    IOManager.constructed
    [.addEvent (threadFiber 7) 3 .read none 0, .addEvent (threadFiber 8) 3 .write none 0,
      .cancelEvent 3 .read 0]
    (fun io => io.m_pendingEventCount == 1 && io.pendingEvents == 0)
    rfl (by decide) (by decide)
  simp only [Bool.and_eq_true, beq_iff_eq] at facts
  have counted := (claim io reached).1
  rw [facts.1, facts.2] at counted
  cases counted

end Ztyco.EventTable
