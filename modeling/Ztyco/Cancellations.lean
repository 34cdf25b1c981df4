import Ztyco.RefusedControl

/-!
The three ways to take a registration back. `delEvent` writes the mask itself;
`cancelEvent` and `cancelAll` go through `triggerEvent`, which clears the whole
mask and the slot of one event. They are the same on a context with one event
registered, and differ on a context with two.
-/

namespace Ztyco.EventTable

open Transition

def IOManager.interest (io : IOManager) (fd : Int32) : Mask :=
  match io.epoll fd with
  | none => 0
  | some event => event.events &&& (Event.read.bits ||| Event.write.bits)

structure SameTable (left right : IOManager) : Prop where
  contexts : ∀ i, left.fdState i = right.fdState i
  pending : left.m_pendingEventCount = right.m_pendingEventCount

def CallsFor (ctx : FdContext) (events : List Event) (calls : List Happening) : Prop :=
  List.Forall₂ (fun e call => ∃ scheduler waiter,
    call = .scheduled ctx.fd e scheduler waiter ∧
      ctx.slot e = Waiter.slot (some scheduler) waiter)
    events calls

theorem SameTable.refl (io : IOManager) : SameTable io io := ⟨fun _ => rfl, rfl⟩

section Single
variable {io : IOManager} {fd : Int32} {p : Ptr} {e : Event}

theorem fdState_context {table : IOManager} (found : io.context fd = some p)
    (same : table.m_fdContexts = io.m_fdContexts) :
    table.fdState fd.toNatClampNeg =
      some ((table.heap p).events, (table.heap p).read, (table.heap p).write) := by
  unfold IOManager.context at found
  split at found
  · cases found
  · rw [IOManager.fdState, same, found]
    rfl

theorem cancelEvent_set (covered : io.covers fd = true) (found : io.context fd = some p)
    (set : (io.heap p).has e = true) :
    io.cancelEvent fd e 0 =
      let new_events := (io.heap p).events &&& ~~~e.bits
      match ((io.heap p).slot e).scheduler with
      | none => .error .nullScheduler
      | some scheduler =>
          .ok (true, (Move.fire p e scheduler).effect (io.epollCtl
            (if new_events ≠ 0 then .mod else .del) fd ⟨new_events ||| EPOLLIN, p⟩)) := by
  simp only [IOManager.cancelEvent, IOManager.withContext, if_pos covered, found, if_pos set]
  rw [if_neg (by decide)]
  have kept : ((io.epollCtl (if (io.heap p).events &&& ~~~e.bits ≠ 0 then .mod else .del) fd
      ⟨(io.heap p).events &&& ~~~e.bits ||| EPOLLIN, p⟩).heap p).has e = true := set
  rw [triggerAndCount_set _ p e kept]
  simp only [IOManager.epollCtl]
  cases ((io.heap p).slot e).scheduler with
  | none => rfl
  | some scheduler => rfl

theorem delEvent_set (covered : io.covers fd = true) (found : io.context fd = some p)
    (set : (io.heap p).has e = true) :
    io.delEvent fd e 0 =
      let new_events := (io.heap p).events &&& ~~~e.bits
      .ok (true, (Move.discard fd p e).effect
        (io.epollCtl (if new_events ≠ 0 then .mod else .del) fd
          ⟨new_events ||| EPOLLET, p⟩)) := by
  have real : e ≠ .none := fun same => by simp [same] at set
  simp only [IOManager.delEvent, IOManager.withContext, if_pos covered, found, if_pos set,
    FdContext.getEventContext_slot _ e real]
  rw [if_neg (by decide)]
  rfl

theorem fired_eq_withdraw {ctx : FdContext} (alone : ctx.events &&& ~~~e.bits = 0) :
    ctx.fired e = ctx.withdraw e := by
  have cleared : ctx.events &&& ~~~ctx.events = 0 := by simp
  rw [FdContext.fired, FdContext.withdraw, cleared, alone]

end Single

def CancelAgrees (io : IOManager) (fd : Int32) (p : Ptr) (e : Event) : Prop :=
  ∃ cancelled deleted, io.cancelEvent fd e 0 = .ok (true, cancelled) ∧
    io.delEvent fd e 0 = .ok (true, deleted) ∧ SameTable cancelled deleted ∧
    (∀ other, cancelled.interest other = deleted.interest other) ∧
    (∃ calls, cancelled.log = io.log ++ calls ∧ CallsFor (io.heap p) [e] calls) ∧
    (∃ waiter, deleted.log = io.log ++ [.discarded fd e waiter]) ∧
    ∀ other, other ≠ e → (io.heap p).has other = true →
      (cancelled.heap p).has other = true ∧ (deleted.heap p).has other = true

def SoleScheduled (io : IOManager) (fd : Int32) (p : Ptr) (e : Event) : Prop :=
  io.covers fd = true ∧ (io.heap p).events &&& ~~~e.bits = 0 ∧
    ((io.heap p).slot e).scheduler.isSome = true

instance SoleScheduled.decidable (io : IOManager) (fd : Int32) (p : Ptr) (e : Event) :
    Decidable (SoleScheduled io fd p e) :=
  inferInstanceAs (Decidable (_ ∧ _))

section Agreement
variable {io : IOManager} {fd : Int32} {p : Ptr} {e : Event}

theorem agrees_of_sole (slotted : Slotted (io.heap p)) (found : io.context fd = some p)
    (set : (io.heap p).has e = true) (sole : SoleScheduled io fd p e) :
    CancelAgrees io fd p e := by
  rcases sole with ⟨covered, alone, threaded⟩
  rcases (slotted e).2 set with ⟨scheduler, waiter, stored⟩
  rw [stored, Waiter.slot_scheduler] at threaded
  rcases Option.isSome_iff_exists.mp threaded with ⟨s, rfl⟩
  have cancelled := cancelEvent_set covered found set
  have deleted := delEvent_set covered found set
  simp only [stored, Waiter.slot_scheduler, alone] at cancelled deleted
  refine ⟨_, _, cancelled, deleted, ⟨?_, rfl⟩, ?_, ?_, ?_, ?_⟩
  · -- both writes leave the same context
    intro i
    have same := fired_eq_withdraw alone
    simp only [IOManager.fdState, Move.effect, IOManager.epollCtl, same]
  · exact fun _ => rfl
  · refine ⟨[.scheduled (io.heap p).fd e s waiter], ?_,
      .cons ⟨s, waiter, rfl, stored⟩ .nil⟩
    simp [Move.effect, IOManager.epollCtl, stored]
  · refine ⟨waiter, ?_⟩
    simp [Move.effect, IOManager.epollCtl, stored]
  · intro other different set'
    -- there is no other event
    have kept : ((io.heap p).withdraw e).has other = true := by
      rw [FdContext.withdraw_has, set']
      simpa using different.symm
    have cleared : ((io.heap p).withdraw e).has other = false := by
      simp only [FdContext.has, FdContext.withdraw, FdContext.setEventContext_events, alone]
      simp
    rw [cleared] at kept
    cases kept

theorem sole_of_agrees (found : io.context fd = some p) (set : (io.heap p).has e = true)
    (agrees : CancelAgrees io fd p e) : SoleScheduled io fd p e := by
  rcases agrees with ⟨cancelled, deleted, cancels, deletes, same, _⟩
  have covered : io.covers fd = true := by
    by_contra uncovered
    rw [IOManager.delEvent, IOManager.withContext, if_neg uncovered] at deletes
    cases deletes
  rw [cancelEvent_set covered found set] at cancels
  rw [delEvent_set covered found set] at deletes
  cases holder : ((io.heap p).slot e).scheduler with
  | none =>
      rw [holder] at cancels
      cases cancels
  | some scheduler =>
      rw [holder] at cancels
      have masks := same.contexts fd.toNatClampNeg
      have left : cancelled.m_fdContexts = io.m_fdContexts := by
        cases cancels
        rfl
      have right : deleted.m_fdContexts = io.m_fdContexts := by
        cases deletes
        rfl
      rw [fdState_context found left, fdState_context found right] at masks
      cases cancels
      cases deletes
      refine ⟨covered, ?_, by rw [holder]; rfl⟩
      simp only [Move.effect, IOManager.epollCtl, Function.update_self, FdContext.fired_events,
        Option.some.injEq, Prod.mk.injEq] at masks
      simpa [FdContext.withdraw] using masks.1.symm

end Agreement

/-- `cancelEvent` and `delEvent` agree exactly on an event that is alone in the
mask and was registered on a thread with a scheduler. -/
theorem cancel_agrees_iff {io : IOManager} (reached : Reach ioManager anyStep io) {fd : Int32}
    {p : Ptr} {e : Event} (found : io.context fd = some p) (set : (io.heap p).has e = true) :
    CancelAgrees io fd p e ↔ SoleScheduled io fd p e := by
  have onMoves : Reach moves anyStep io := reach_moves (fun _ _ _ _ _ _ => trivial) reached
  exact ⟨sole_of_agrees found set, agrees_of_sole (reach_slotted onMoves p) found set⟩

theorem cancel_agrees_iff_write :
    ∃ io, run ioManager IOManager.constructed [.addEvent (threadFiber 7) 3 .write none 0] =
        some io ∧
      CancelAgrees io 3 3 .write := by
  refine run_meets_where anyStep
    (fun io => decide (io.context 3 = some 3) && (io.heap 3).has .write &&
      decide (SoleScheduled io 3 3 .write)) rfl (by decide) (by decide) ?_
  intro io reached good
  rcases Bool.and_eq_true_iff.mp good with ⟨good, sole⟩
  rcases Bool.and_eq_true_iff.mp good with ⟨found, set⟩
  exact (cancel_agrees_iff reached (of_decide_eq_true found) set).mpr (of_decide_eq_true sole)

/-- READ and WRITE of fd 3 are registered: `cancelEvent` of READ clears WRITE
too, `delEvent` of READ keeps it. -/
theorem cancel_clears_other :
    ∃ io, Reach ioManager anyStep io ∧ io.context 3 = some 3 ∧
      (io.heap 3).has .read = true ∧ (io.heap 3).has .write = true ∧
        ¬ CancelAgrees io 3 3 .read := by
  rcases reach_where ioManager anyStep IOManager.constructed
    [.addEvent (threadFiber 7) 3 .read none 0, .addEvent (threadFiber 8) 3 .write none 0]
    (fun io : IOManager => decide (io.context 3 = some 3) && (io.heap 3).has .read &&
      (io.heap 3).has .write && (io.cancelEvent 3 .read 0).toOption.any
        fun result : Bool × IOManager => !(result.2.heap 3).has .write)
    rfl (by decide) (by decide) with ⟨io, reached, facts⟩
  simp only [Bool.and_eq_true, decide_eq_true_eq] at facts
  rcases facts with ⟨⟨⟨found, read⟩, write⟩, lost⟩
  refine ⟨io, reached, found, read, write, ?_⟩
  rintro ⟨cancelled, _, cancels, _, _, _, _, _, others⟩
  rw [cancels] at lost
  have kept := (others .write (by decide) write).1
  simp [Except.toOption, kept] at lost

/-! `cancelAll` and the cancellation of each event. -/

/-- `cancelEvent` of READ and then of WRITE, of those registered at first. -/
def IOManager.cancelEach (io : IOManager) (fd : Int32) (ctx : FdContext) :
    Except Fault IOManager :=
  let cancelIf (registered : Bool) (e : Event) (io : IOManager) : Except Fault IOManager :=
    if registered then (io.cancelEvent fd e 0).map (·.2) else .ok io
  (cancelIf (ctx.has .read) .read io).bind (cancelIf (ctx.has .write) .write)

def SameOutcome : Except Fault (Bool × IOManager) → Except Fault IOManager → Prop
  | .ok (_, all), .ok each => SameTable all each ∧ all.log = each.log
  | .error fault, .error other => fault = other
  | _, _ => False

def CancelsAll (io : IOManager) (fd : Int32) (p : Ptr) : Prop :=
  SameOutcome (io.cancelAll fd 0) (io.cancelEach fd (io.heap p)) ∧
    ∃ all calls, io.cancelAll fd 0 = .ok (true, all) ∧ all.log = io.log ++ calls ∧
      CallsFor (io.heap p) ([Event.read, Event.write].filter (io.heap p).has) calls

def OneScheduled (io : IOManager) (fd : Int32) (p : Ptr) : Prop :=
  io.covers fd = true ∧ ¬ ((io.heap p).has .read = true ∧ (io.heap p).has .write = true) ∧
    ∀ e ∈ [Event.read, Event.write], (io.heap p).has e = true →
      ((io.heap p).slot e).scheduler.isSome = true

instance OneScheduled.decidable (io : IOManager) (fd : Int32) (p : Ptr) :
    Decidable (OneScheduled io fd p) :=
  inferInstanceAs (Decidable (_ ∧ _))

/-- The event whose trigger `cancelAll` gets to. -/
def FdContext.first (ctx : FdContext) : Event := if ctx.has .read then .read else .write

section All
variable {io : IOManager} {fd : Int32} {p : Ptr}

theorem first_set {ctx : FdContext} (registered : ctx.registered = true) :
    ctx.has ctx.first = true := by
  unfold FdContext.first
  split
  · assumption
  · rename_i clear
    simpa [FdContext.registered, clear] using registered

theorem events_of_has {ctx : FdContext} {e : Event} (set : ctx.has e = true) :
    ctx.events ≠ 0 := by
  intro zero
  simp [FdContext.has, zero] at set

theorem triggers_first (registered : (io.heap p).registered = true) :
    (io.triggerIfSet p .read).bind (·.triggerIfSet p .write) =
      io.triggerAndCount p (io.heap p).first := by
  unfold FdContext.first
  by_cases read : (io.heap p).has .read = true
  · rw [IOManager.triggerIfSet, if_pos read, if_pos read]
    cases outcome : io.triggerAndCount p .read with
    | error fault => rfl
    | ok after =>
        have spent := Bool.eq_false_iff.mp (fires_once outcome .write)
        simp only [Except.bind, IOManager.triggerIfSet, if_neg spent]
  · have write : (io.heap p).has .write = true := by
      simpa [FdContext.registered, read] using registered
    simp only [Except.bind, IOManager.triggerIfSet, if_neg read, if_pos write]

theorem cancelAll_set (covered : io.covers fd = true) (found : io.context fd = some p)
    (registered : (io.heap p).registered = true) :
    io.cancelAll fd 0 =
      match ((io.heap p).slot (io.heap p).first).scheduler with
      | none => .error .nullScheduler
      | some scheduler => .ok (true, (Move.fire p (io.heap p).first scheduler).effect
          (io.epollCtl .del fd ⟨0, p⟩)) := by
  have set := first_set registered
  have triggered : ((io.epollCtl .del fd ⟨0, p⟩).triggerIfSet p .read).bind
      (·.triggerIfSet p .write) = (io.epollCtl .del fd ⟨0, p⟩).triggerAndCount p
        (io.heap p).first := triggers_first registered
  have kept : ((io.epollCtl .del fd ⟨0, p⟩).heap p).has (io.heap p).first = true := set
  rw [triggerAndCount_set _ p _ kept] at triggered
  simp only [IOManager.cancelAll, IOManager.withContext, if_pos covered, found,
    if_neg (events_of_has set)]
  rw [if_neg (by decide), triggered]
  simp only [IOManager.epollCtl]
  cases ((io.heap p).slot (io.heap p).first).scheduler with
  | none => rfl
  | some scheduler => simp [Move.effect]

theorem cancelEvent_clear {e : Event} {ret : Int32} (found : io.context fd = some p)
    (clear : (io.heap p).has e = false) : io.cancelEvent fd e ret = .ok (false, io) := by
  unfold IOManager.cancelEvent IOManager.withContext
  split
  · simp only [found, clear, Bool.false_eq_true, ↓reduceIte]
  · rfl

/-- Cancelling the first event leaves nothing for the second. -/
theorem cancelEach_set (covered : io.covers fd = true) (found : io.context fd = some p)
    (registered : (io.heap p).registered = true) :
    io.cancelEach fd (io.heap p) = (io.cancelEvent fd (io.heap p).first 0).map (·.2) := by
  unfold FdContext.first
  by_cases read : (io.heap p).has .read = true
  · simp only [IOManager.cancelEach, if_pos read, cancelEvent_set covered found read]
    cases ((io.heap p).slot .read).scheduler with
    | none => rfl
    | some scheduler =>
        simp only [Except.map, Except.bind]
        split
        · -- the second call finds its bit cleared by the first
          rw [cancelEvent_clear (by exact found) (by simp [Move.effect])]
        · rfl
  · have write : (io.heap p).has .write = true := by
      simpa [FdContext.registered, read] using registered
    simp only [IOManager.cancelEach, if_neg read, if_pos write, Except.bind]

theorem same_outcome (found : io.context fd = some p)
    (registered : (io.heap p).registered = true) :
    SameOutcome (io.cancelAll fd 0) (io.cancelEach fd (io.heap p)) := by
  by_cases covered : io.covers fd = true
  · rw [cancelEach_set covered found registered, cancelAll_set covered found registered,
      cancelEvent_set covered found (first_set registered)]
    cases ((io.heap p).slot (io.heap p).first).scheduler with
    | none => exact rfl
    | some scheduler => exact ⟨⟨fun _ => rfl, rfl⟩, rfl⟩
  · have all : io.cancelAll fd 0 = .ok (false, io) := by
      rw [IOManager.cancelAll, IOManager.withContext, if_neg covered]
    have one : ∀ e, io.cancelEvent fd e 0 = .ok (false, io) := by
      intro e
      rw [IOManager.cancelEvent, IOManager.withContext, if_neg covered]
    have each : io.cancelEach fd (io.heap p) = .ok io := by
      simp only [IOManager.cancelEach, one, Except.map, ite_self, Except.bind]
    rw [all, each]
    exact ⟨.refl io, rfl⟩

theorem registered_first {ctx : FdContext} (registered : ctx.registered = true)
    (one : ¬ (ctx.has .read = true ∧ ctx.has .write = true)) :
    [Event.read, Event.write].filter ctx.has = [ctx.first] := by
  unfold FdContext.first
  by_cases read : ctx.has .read = true
  · have write : ctx.has .write = false := Bool.eq_false_iff.mpr fun write => one ⟨read, write⟩
    simp [read, write]
  · have write : ctx.has .write = true := by
      simpa [FdContext.registered, read] using registered
    simp [read, write]

theorem cancels_of_one (slotted : Slotted (io.heap p)) (found : io.context fd = some p)
    (registered : (io.heap p).registered = true) (one : OneScheduled io fd p) :
    CancelsAll io fd p := by
  rcases one with ⟨covered, single, threaded⟩
  refine ⟨same_outcome found registered, ?_⟩
  have set := first_set registered
  have listed : (io.heap p).first ∈ [Event.read, Event.write] := by
    unfold FdContext.first
    split <;> simp
  have named := threaded _ listed set
  rcases (slotted (io.heap p).first).2 set with ⟨scheduler, waiter, stored⟩
  rw [stored, Waiter.slot_scheduler] at named
  rcases Option.isSome_iff_exists.mp named with ⟨s, rfl⟩
  have result := cancelAll_set covered found registered
  simp only [stored, Waiter.slot_scheduler] at result
  refine ⟨_, [.scheduled (io.heap p).fd (io.heap p).first s waiter], result, ?_, ?_⟩
  · simp [Move.effect, IOManager.epollCtl, stored]
  · rw [registered_first registered single]
    exact .cons ⟨s, waiter, rfl, stored⟩ .nil

theorem one_of_cancels (found : io.context fd = some p)
    (registered : (io.heap p).registered = true) (cancels : CancelsAll io fd p) :
    OneScheduled io fd p := by
  rcases cancels with ⟨_, all, calls, result, log, listed⟩
  have covered : io.covers fd = true := by
    by_contra uncovered
    rw [IOManager.cancelAll, IOManager.withContext, if_neg uncovered] at result
    cases result
  rw [cancelAll_set covered found registered] at result
  cases holder : ((io.heap p).slot (io.heap p).first).scheduler with
  | none =>
      rw [holder] at result
      cases result
  | some scheduler =>
      rw [holder] at result
      cases result
      -- one trigger makes at most one call
      have made : calls.length ≤ 1 := by
        have calls_eq := List.append_cancel_left log
        rw [← calls_eq]
        cases ((io.heap p).slot (io.heap p).first).waiter <;> simp
      have single : ¬ ((io.heap p).has .read = true ∧ (io.heap p).has .write = true) := by
        rintro ⟨read, write⟩
        have two := listed.length_eq
        simp only [List.filter, read, write, List.length_cons, List.length_nil] at two
        omega
      refine ⟨covered, single, ?_⟩
      intro e mem set
      have named : e ∈ [Event.read, Event.write].filter (io.heap p).has :=
        List.mem_filter.mpr ⟨mem, set⟩
      rw [registered_first registered single, List.mem_singleton] at named
      rw [named, holder]
      rfl

end All

/-- `cancelAll` always does what cancelling each event does. That is everything
it has to do exactly where one event is registered, on a scheduler's thread:
with two, the waiter of WRITE is in neither of them scheduled. -/
theorem cancel_all_iff {io : IOManager} (reached : Reach ioManager anyStep io) {fd : Int32}
    {p : Ptr} (found : io.context fd = some p) (registered : (io.heap p).registered = true) :
    SameOutcome (io.cancelAll fd 0) (io.cancelEach fd (io.heap p)) ∧
      (CancelsAll io fd p ↔ OneScheduled io fd p) := by
  have onMoves : Reach moves anyStep io := reach_moves (fun _ _ _ _ _ _ => trivial) reached
  exact ⟨same_outcome found registered, one_of_cancels found registered,
    cancels_of_one (reach_slotted onMoves p) found registered⟩

theorem cancel_all_iff_read :
    ∃ io, run ioManager IOManager.constructed
        [.addEvent (threadFiber 7) 3 .read none 0] = some io ∧
      CancelsAll io 3 3 := by
  refine run_meets_where anyStep
    (fun io => decide (io.context 3 = some 3) && (io.heap 3).registered &&
      decide (OneScheduled io 3 3)) rfl (by decide) (by decide) ?_
  intro io reached good
  rcases Bool.and_eq_true_iff.mp good with ⟨good, one⟩
  rcases Bool.and_eq_true_iff.mp good with ⟨found, registered⟩
  exact (cancel_all_iff reached (of_decide_eq_true found) registered).2.mpr
    (of_decide_eq_true one)

/-- READ and WRITE of fd 3 are registered: `cancelAll` schedules the waiter of
READ alone. -/
theorem cancel_all_loses_write :
    ∃ io, Reach ioManager anyStep io ∧ io.context 3 = some 3 ∧
      (io.heap 3).registered = true ∧ ¬ CancelsAll io 3 3 := by
  rcases reach_where ioManager anyStep IOManager.constructed
    [.addEvent (threadFiber 7) 3 .read none 0, .addEvent (threadFiber 8) 3 .write none 0]
    (fun io : IOManager => decide (io.context 3 = some 3) && (io.heap 3).has .read &&
      (io.heap 3).has .write && (io.cancelAll 3 0).toOption.any
        fun result : Bool × IOManager => decide (result.2.log.length = io.log.length + 1))
    rfl (by decide) (by decide) with ⟨io, reached, facts⟩
  simp only [Bool.and_eq_true, decide_eq_true_eq] at facts
  rcases facts with ⟨⟨⟨found, read⟩, write⟩, short⟩
  refine ⟨io, reached, found, by simp [FdContext.registered, read], ?_⟩
  rintro ⟨_, all, calls, result, log, listed⟩
  have two := listed.length_eq
  simp only [List.filter, read, write, List.length_cons, List.length_nil] at two
  simp only [result, Except.toOption, Option.any_some, log, List.length_append,
    decide_eq_true_eq] at short
  omega

end Ztyco.EventTable
