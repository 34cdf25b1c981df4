import Ztyco.EventMoves

/-!
The representation invariant of `FdContext`. A slot is empty or holds what one
`addEvent` stored; a set bit has an occupied slot in every run. That a clear
bit has an empty slot needs more: `triggerEvent` clears the bits of both
events and empties the slot of one.
-/

namespace Ztyco.EventTable

open Transition

def Stored (ectx : EventContext) : Prop := ∃ scheduler waiter, ectx = Waiter.slot scheduler waiter

/-- A non-null scheduler and exactly one of fiber and cb. -/
def Occupied (ectx : EventContext) : Prop :=
  ectx.scheduler.isSome ∧ (ectx.fiber.isSome ≠ ectx.cb.isSome)

/-- No operation of the run triggers on a context with both events set. -/
def IOManager.SoleEvent (io : IOManager) (op : Op) : Prop :=
  ∀ p ∈ io.triggersOn op, ¬ ((io.heap p).has .read = true ∧ (io.heap p).has .write = true)

/-- `addEvent` is called on a thread that has a scheduler. -/
def FromScheduler : Op → Prop
  | .addEvent caller _ _ _ _ => caller.scheduler.isSome
  | _ => True

instance IOManager.SoleEvent.decidable (io : IOManager) (op : Op) :
    Decidable (io.SoleEvent op) := by
  unfold IOManager.SoleEvent
  infer_instance

instance FromScheduler.decidable (op : Op) : Decidable (FromScheduler op) := by
  cases op <;> unfold FromScheduler <;> infer_instance

def SoleFire (io : IOManager) : Move → Prop
  | .fire p _ _ => ¬ ((io.heap p).has .read = true ∧ (io.heap p).has .write = true)
  | _ => True

def ScheduledRegister : Move → Prop
  | .register _ _ _ scheduler _ => scheduler.isSome
  | _ => True

theorem sole_fire_of_sole_event {before io : IOManager} {op : Op} {move : Move}
    (sole : before.SoleEvent op) (made : MadeBy before op io move) : SoleFire io move := by
  cases move with
  | fire p e scheduler =>
      obtain ⟨target, _, same⟩ := made
      unfold SoleFire
      rw [same]
      exact sole p target
  | _ => trivial

theorem scheduled_register_of_from_scheduler {before io : IOManager} {op : Op} {move : Move}
    (threaded : FromScheduler op) (made : MadeBy before op io move) : ScheduledRegister move := by
  cases move with
  | register fd p e scheduler waiter =>
      obtain ⟨caller, cb, rfl, rfl, _⟩ := made
      exact threaded
  | _ => trivial

/-! Invariants of every context, for all moves. A move changes one context, or
allocates fresh ones. -/

section Invariants
variable {guard : IOManager → Move → Prop}

/-- A property of contexts that fresh ones have and each update keeps is an
invariant of the heap. -/
theorem contexts_invariant (good : FdContext → Prop)
    (fresh : ∀ fd, good { fd := fd })
    (kept : ∀ io move, move.enabled io → guard io move → (∀ p, good (io.heap p)) →
      match move with
      | .register _ p e scheduler waiter => good ((io.heap p).enroll e (waiter.slot scheduler))
      | .discard _ p e => good ((io.heap p).withdraw e)
      | .fire p e _ => good ((io.heap p).fired e)
      | _ => True)
    {io : IOManager} (reached : Reach moves guard io) (p : Ptr) : good (io.heap p) := by
  have resized : ∀ (state : IOManager) size, (∀ p, good (state.heap p)) →
      ∀ p, good ((state.contextResize size).heap p) := by
    intro state size holds p
    simp only [IOManager.contextResize]
    split
    · exact fresh _
    · exact holds p
  have updated : ∀ (heap : Ptr → FdContext) q ctx, (∀ p, good (heap p)) → good ctx →
      ∀ p, good (Function.update heap q ctx p) := by
    intro heap q ctx holds changed p
    by_cases same : p = q
    · subst same
      simpa using changed
    · simpa [same] using holds p
  refine reached.invariant (fun io => ∀ p, good (io.heap p)) ?_ ?_ p
  · rintro state rfl
    exact resized {} 32 (fun _ => fresh 0)
  · intro before move after _ holds guarded moved
    obtain ⟨able, rfl⟩ := moves_step moved
    have changed := kept before move able guarded holds
    cases move with
    | resize size => exact resized before size holds
    | control fd entry => exact holds
    | register fd q e scheduler waiter => exact updated _ q _ holds changed
    | discard fd q e => exact updated _ q _ holds changed
    | fire q e scheduler => exact updated _ q _ holds changed

def Slotted (ctx : FdContext) : Prop :=
  ∀ e, (ctx.slot e = {} ∨ Stored (ctx.slot e)) ∧ (ctx.has e = true → Stored (ctx.slot e))

theorem fresh_slot (fd : Int32) (e : Event) : ({ fd := fd } : FdContext).slot e = {} := by
  cases e <;> rfl

theorem fresh_has (fd : Int32) (e : Event) : ({ fd := fd } : FdContext).has e = false := by
  simp [FdContext.has]

theorem reach_slotted {io : IOManager} (reached : Reach moves guard io) (p : Ptr) :
    Slotted (io.heap p) := by
  refine contexts_invariant Slotted ?_ ?_ reached p
  · intro fd e
    exact ⟨Or.inl (fresh_slot fd e), fun set => absurd set (by rw [fresh_has]; decide)⟩
  · intro io move able _ holds
    cases move with
    | resize size => trivial
    | control fd entry => trivial
    | register fd q e scheduler waiter =>
        intro e'
        rw [FdContext.enroll_slot _ _ _ _ able.2.1, FdContext.enroll_has _ _ _ _ able.2.1]
        by_cases same : e = e'
        · simp only [same, ↓reduceIte]
          exact ⟨Or.inr ⟨scheduler, waiter, rfl⟩, fun _ => ⟨scheduler, waiter, rfl⟩⟩
        · simpa [same] using holds q e'
    | discard fd q e =>
        intro e'
        rw [FdContext.withdraw_slot, FdContext.withdraw_has]
        by_cases same : e = e'
        · simp [same]
        · simpa [same] using holds q e'
    | fire q e scheduler =>
        intro e'
        rw [FdContext.fired_slot, FdContext.fired_has]
        by_cases same : e = e'
        · simp [same]
        · simpa [same] using (holds q e').1

def Paired (ctx : FdContext) : Prop :=
  ∀ e, e ≠ .none → ctx.has e = false → ctx.slot e = {}

theorem fired_paired {ctx : FdContext} {e : Event} (paired : Paired ctx)
    (set : ctx.has e = true) (sole : ¬ (ctx.has .read = true ∧ ctx.has .write = true)) :
    Paired (ctx.fired e) := by
  intro e' real _
  rw [FdContext.fired_slot]
  by_cases same : e = e'
  · rw [if_pos same]
  · rw [if_neg same]
    -- the other bit is clear already, so its slot is empty already
    apply paired e' real
    cases e <;> cases e' <;> simp_all

theorem reach_paired (soleFire : ∀ io move, guard io move → SoleFire io move)
    {io : IOManager} (reached : Reach moves guard io) (p : Ptr) : Paired (io.heap p) := by
  refine contexts_invariant Paired ?_ ?_ reached p
  · intro fd e _ _
    exact fresh_slot fd e
  · intro io move able guarded holds
    cases move with
    | resize size => trivial
    | control fd entry => trivial
    | register fd q e scheduler waiter =>
        intro e' real clear
        rw [FdContext.enroll_has _ _ _ _ able.2.1] at clear
        rw [FdContext.enroll_slot _ _ _ _ able.2.1]
        by_cases same : e = e'
        · simp [same] at clear
        · simpa [same] using holds q e' real (by simpa [same] using clear)
    | discard fd q e =>
        intro e' real clear
        rw [FdContext.withdraw_has] at clear
        rw [FdContext.withdraw_slot]
        by_cases same : e = e'
        · rw [if_pos same]
        · simpa [same] using holds q e' real (by simpa [same] using clear)
    | fire q e scheduler =>
        exact fired_paired (holds q) able.1 (soleFire io _ guarded)

def Scheduled (ctx : FdContext) : Prop :=
  ∀ e, ctx.slot e = {} ∨ Occupied (ctx.slot e)

theorem slot_occupied {scheduler : Option SchedulerId} (waiter : Waiter)
    (named : scheduler.isSome) : Occupied (waiter.slot scheduler) := by
  cases waiter <;> exact ⟨named, by simp [Waiter.slot]⟩

theorem reach_scheduled (threaded : ∀ io move, guard io move → ScheduledRegister move)
    {io : IOManager} (reached : Reach moves guard io) (p : Ptr) : Scheduled (io.heap p) := by
  refine contexts_invariant Scheduled ?_ ?_ reached p
  · intro fd e
    exact Or.inl (fresh_slot fd e)
  · intro io move able guarded holds
    cases move with
    | resize size => trivial
    | control fd entry => trivial
    | register fd q e scheduler waiter =>
        intro e'
        rw [FdContext.enroll_slot _ _ _ _ able.2.1]
        by_cases same : e = e'
        · rw [if_pos same]
          exact Or.inr (slot_occupied waiter (threaded io _ guarded))
        · rw [if_neg same]
          exact holds q e'
    | discard fd q e =>
        intro e'
        rw [FdContext.withdraw_slot]
        by_cases same : e = e'
        · simp [same]
        · simpa [same] using holds q e'
    | fire q e scheduler =>
        intro e'
        rw [FdContext.fired_slot]
        by_cases same : e = e'
        · simp [same]
        · simpa [same] using holds q e'

end Invariants

/-- The bit of an event is set exactly when its slot is occupied, and its slot
is empty when the bit is clear. -/
def Represents (ctx : FdContext) : Prop :=
  ∀ e, e ≠ .none → (ctx.has e = true ↔ Occupied (ctx.slot e)) ∧
    (ctx.has e = false → ctx.slot e = {})

theorem represents_of_invariants {ctx : FdContext} (slotted : Slotted ctx) (paired : Paired ctx)
    (scheduled : Scheduled ctx) : Represents ctx := by
  intro e real
  refine ⟨⟨fun set => ?_, fun occupied => ?_⟩, paired e real⟩
  · rcases scheduled e with empty | occupied
    · -- a set bit has a stored slot, which is not empty
      obtain ⟨scheduler, waiter, stored⟩ := (slotted e).2 set
      rw [empty] at stored
      cases waiter <;> cases stored
    · exact occupied
  · by_contra clear
    rw [paired e real (Bool.eq_false_iff.mpr clear)] at occupied
    exact absurd occupied.1 (by decide)

/-- `addEvent` finds the slot empty where the bit is clear. -/
theorem addEvent_slot_empty {io : IOManager} (paired : ∀ p, Paired (io.heap p))
    (caller : Caller) (fd : Int32) (e : Event) (cb : Option Fibers.Func) (ret : Int32) :
    io.addEvent caller fd e cb ret ≠ .error .contextInUse := by
  intro failed
  simp only [IOManager.addEvent] at failed
  have grown : ∀ p, Paired
      ((if io.covers fd then io else io.contextResize (IOManager.grown fd)).heap p) := by
    intro p
    split
    · exact paired p
    · simp only [IOManager.contextResize]
      split
      · exact fun e _ _ => fresh_slot _ e
      · exact paired p
  -- whether the table was grown does not matter any more
  generalize (if io.covers fd then io else io.contextResize (IOManager.grown fd)) = table
    at failed grown
  cases found : table.context fd with
  | none => simp [found] at failed
  | some p =>
      simp only [found] at failed
      split at failed
      · cases failed
      rename_i clear
      split at failed
      · cases failed
      by_cases real : e = .none
      · simp [IOManager.install, real, FdContext.getEventContext] at failed
      have empty := grown p e real (Bool.eq_false_iff.mpr clear)
      have unmasked : { table.heap p with events := (table.heap p).events ||| e.bits }.slot e =
          {} := by
        rw [← empty]
        cases e <;> rfl
      simp only [IOManager.install, IOManager.epollCtl,
        FdContext.getEventContext_slot _ e real, unmasked] at failed
      cases cb with
      | some cb => simp at failed
      | none =>
          simp only [Option.isSome_none, Bool.or_self, Bool.false_eq_true, ↓reduceIte] at failed
          split at failed <;> cases failed

def ContextRepresentation (io : IOManager) : Prop :=
  (∀ fd p, io.context fd = some p → Represents (io.heap p)) ∧
    ∀ caller fd e cb ret, io.addEvent caller fd e cb ret ≠ .error .contextInUse

/-- In every run from scheduler threads in which no operation triggers on a
context with both events set, the mask and the two slots of every fd agree and
`addEvent` never meets an occupied slot behind a clear bit. -/
theorem context_representation {io : IOManager}
    (reached : Reach ioManager (fun io op => FromScheduler op ∧ io.SoleEvent op) io) :
    ContextRepresentation io := by
  have onMoves : Reach moves (fun io move => ScheduledRegister move ∧ SoleFire io move) io :=
    reach_moves (fun _ _ _ _ allowed made =>
      ⟨scheduled_register_of_from_scheduler allowed.1 made,
        sole_fire_of_sole_event allowed.2 made⟩) reached
  have paired : ∀ p, Paired (io.heap p) :=
    reach_paired (fun _ _ guarded => guarded.2) onMoves
  refine ⟨fun fd p _ => ?_, addEvent_slot_empty paired⟩
  exact represents_of_invariants (reach_slotted onMoves p) (paired p)
    (reach_scheduled (fun _ _ guarded => guarded.1) onMoves p)

def threadFiber (f : Fibers.FiberId) : Caller := ⟨some 0, f, .exec⟩

theorem context_representation_run :
    ∃ io, run ioManager IOManager.constructed
        [.addEvent (threadFiber 7) 3 .read none 0, .addEvent (threadFiber 8) 4 .write (some 1) 0,
          .cancelEvent 3 .read 0, .dispatch 4 EPOLLOUT 0] = some io ∧
      ContextRepresentation io :=
  run_meets (fun io op => FromScheduler op ∧ io.SoleEvent op) rfl (by decide) (by decide)
    fun _ reached => context_representation reached

/-- Cancelling one of two registered events leaves the other one's fiber in a
slot whose bit is clear. -/
theorem shared_trigger_breaks_representation :
    ¬ ∀ io, Reach ioManager (fun _ op => FromScheduler op) io → ContextRepresentation io := by
  intro claim
  obtain ⟨io, reached, facts⟩ := reach_where ioManager (fun _ op => FromScheduler op)
    IOManager.constructed
    [.addEvent (threadFiber 7) 3 .read none 0, .addEvent (threadFiber 8) 3 .write none 0,
      .cancelEvent 3 .read 0]
    (fun io => io.context 3 = some 3 && !(io.heap 3).has .write && (io.heap 3).slot .write != {})
    rfl (by decide) (by decide)
  simp only [Bool.and_eq_true, decide_eq_true_eq, Bool.not_eq_true', bne_iff_ne] at facts
  exact facts.2 (((claim io reached).1 3 3 facts.1.1 .write (by decide)).2 facts.1.2)

end Ztyco.EventTable
