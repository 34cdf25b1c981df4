import Ztyco.EventPlacement
import Ztyco.SlotStore

/-!
The ledger of registrations. For each fd and event the event table is a place
that holds at most one waiter: `addEvent` puts one there, `delEvent` and the
triggers take it out. As long as no trigger meets a context with both events
set and the table grows only while nothing is registered, the log of the event
table is the history of such a store.
-/

namespace Ztyco.EventTable

open Transition
open SlotStore (Entry History puts takes)

def Happening.entry : Happening → Entry (Int32 × Event) Waiter
  | .registered fd e waiter => .put (fd, e) waiter
  | .discarded fd e waiter => .take (fd, e) waiter
  | .scheduled fd e _ waiter => .take (fd, e) waiter

/-- The waiter stored for a registered event of an fd. One whose bit is clear
does not count: no operation reaches it any more. -/
def IOManager.waiting (io : IOManager) (key : Int32 × Event) : Option Waiter :=
  (io.context key.1).bind fun p =>
    if (io.heap p).has key.2 then ((io.heap p).slot key.2).waiter else none

def IOManager.registrations (io : IOManager) (fd : Int32) (e : Event) : List Waiter :=
  puts (fd, e) (io.log.map Happening.entry)

def IOManager.releases (io : IOManager) (fd : Int32) (e : Event) : List Waiter :=
  takes (fd, e) (io.log.map Happening.entry)

/-- The operation accounts for a happening: it registers, deletes or cancels
that event of that fd, cancels all of them, or dispatches a report of it. -/
def IOManager.justifies (io : IOManager) (op : Op) : Happening → Prop
  | .registered fd e waiter => ∃ caller cb, op = .addEvent caller fd e cb 0 ∧
      waiter = awaiting caller cb
  | .discarded fd e _ => op = .delEvent fd e 0
  | .scheduled fd e _ _ => op = .cancelEvent fd e 0 ∨ op = .cancelAll fd 0 ∨
      ∃ p reported, op = .dispatch p reported 0 ∧ (io.heap p).fd = fd ∧
        realEvts (widen (io.heap p) reported) &&& e.bits ≠ 0

section Waiting
variable {io : IOManager}

theorem waiting_of_context {fd : Int32} {p : Ptr} (found : io.context fd = some p) (e : Event) :
    io.waiting (fd, e) = if (io.heap p).has e then ((io.heap p).slot e).waiter else none := by
  simp [IOManager.waiting, found]

theorem waiting_update (io' : IOManager) (ctx : FdContext) (laid : Laid io) {fd : Int32}
    {p : Ptr} (found : io.context fd = some p)
    (table : io'.m_fdContexts = io.m_fdContexts) (heap : io'.heap = Function.update io.heap p ctx)
    (key : Int32 × Event) :
    io'.waiting key =
      if key.1 = fd then if ctx.has key.2 then (ctx.slot key.2).waiter else none
      else io.waiting key := by
  have lookup : ∀ fd, io'.context fd = io.context fd := fun fd => by
    simp only [IOManager.context, table]
  by_cases same : key.1 = fd
  · simp [IOManager.waiting, lookup, same, found, heap]
  · rw [if_neg same]
    simp only [IOManager.waiting, lookup, heap]
    cases other : io.context key.1 with
    | none => rfl
    | some q =>
        -- a context shared by two fds would have two fd fields
        have apart : q ≠ p := by
          rintro rfl
          exact same ((context_fd laid other).symm.trans (context_fd laid found))
        simp [apart]

theorem waiting_registered {fd : Int32} {p : Ptr} {e : Event} (slotted : Slotted (io.heap p))
    (found : io.context fd = some p) (set : (io.heap p).has e = true) :
    ∃ waiter, ((io.heap p).slot e).waiter = some waiter ∧ io.waiting (fd, e) = some waiter := by
  obtain ⟨scheduler, waiter, stored⟩ := (slotted e).2 set
  refine ⟨waiter, by rw [stored, Waiter.slot_waiter], ?_⟩
  rw [waiting_of_context found, if_pos set, stored, Waiter.slot_waiter]

theorem waiting_contextResize (io : IOManager) (size : Nat) :
    (io.contextResize size).waiting = fun _ => none := by
  funext ⟨fd, e⟩
  cases found : (io.contextResize size).context fd with
  | none => simp [IOManager.waiting, found]
  | some p =>
      rw [waiting_of_context found, contextResize_fresh io size (context_mem found)]
      rfl

/-- Emptying the place of one event, the other event's place as before. -/
theorem waiting_take {io' : IOManager} (laid : Laid io) {fd : Int32} {p : Ptr} {e : Event}
    (found : io.context fd = some p) {ctx : FdContext}
    (table : io'.m_fdContexts = io.m_fdContexts) (heap : io'.heap = Function.update io.heap p ctx)
    (clear : ctx.has e = false)
    (kept : ∀ e', e' ≠ e → ctx.has e' = (io.heap p).has e' ∧ ctx.slot e' = (io.heap p).slot e') :
    io'.waiting = Function.update io.waiting (fd, e) none := by
  funext ⟨fd', e'⟩
  rw [waiting_update io' ctx laid found table heap]
  by_cases same_fd : fd' = fd
  · subst same_fd
    by_cases same : e' = e
    · subst same
      simp [clear]
    · simp [same, kept e' same, waiting_of_context found]
  · simp [same_fd]

end Waiting

/-- The state of the event table is a store with one place for each fd and
event, and its log is that store's history. -/
def Ledger (io : IOManager) : Prop := History io.waiting (io.log.map Happening.entry)

section Moves
variable {before : IOManager}

theorem ledger_register (laid : Laid before) (ledger : Ledger before)
    {fd : Int32} {p : Ptr} {e : Event} {scheduler : Option SchedulerId} {waiter : Waiter}
    (able : (Move.register fd p e scheduler waiter).enabled before) :
    Ledger ((Move.register fd p e scheduler waiter).effect before) := by
  obtain ⟨found, real, clear, _⟩ := able
  have empty : before.waiting (fd, e) = none := by
    rw [waiting_of_context found, clear]
    rfl
  have moved : ((Move.register fd p e scheduler waiter).effect before).waiting =
      Function.update before.waiting (fd, e) (some waiter) := by
    funext ⟨fd', e'⟩
    rw [waiting_update ((Move.register fd p e scheduler waiter).effect before)
        ((before.heap p).enroll e (waiter.slot scheduler)) laid found rfl rfl,
      FdContext.enroll_has _ _ _ _ real, FdContext.enroll_slot _ _ _ _ real]
    by_cases same_fd : fd' = fd
    · subst same_fd
      by_cases same : e = e'
      · subst same
        simp
      · simp [same, Ne.symm same, waiting_of_context found]
    · simp [same_fd]
  unfold Ledger
  rw [moved]
  simpa [Move.effect, Happening.entry] using ledger.put waiter empty

theorem ledger_discard (laid : Laid before) (ledger : Ledger before)
    {fd : Int32} {p : Ptr} {e : Event} (slotted : Slotted (before.heap p))
    (able : (Move.discard fd p e).enabled before) :
    Ledger ((Move.discard fd p e).effect before) := by
  obtain ⟨found, set⟩ := able
  obtain ⟨waiter, stored, waits⟩ := waiting_registered slotted found set
  have moved : ((Move.discard fd p e).effect before).waiting =
      Function.update before.waiting (fd, e) none := by
    refine waiting_take laid found rfl rfl (by simp [FdContext.withdraw_has]) ?_
    intro e' other
    simp [FdContext.withdraw_has, FdContext.withdraw_slot, Ne.symm other]
  unfold Ledger
  rw [moved]
  simpa [Move.effect, Happening.entry, stored] using ledger.take waits

theorem ledger_fire (laid : Laid before) (placed : Placed before) (ledger : Ledger before)
    {p : Ptr} {e : Event} {scheduler : SchedulerId} (slotted : Slotted (before.heap p))
    (sole : SoleFire before (.fire p e scheduler))
    (able : (Move.fire p e scheduler).enabled before) :
    Ledger ((Move.fire p e scheduler).effect before) := by
  obtain ⟨set, _⟩ := able
  have found := placed p e set
  obtain ⟨waiter, stored, waits⟩ := waiting_registered slotted found set
  have moved : ((Move.fire p e scheduler).effect before).waiting =
      Function.update before.waiting ((before.heap p).fd, e) none := by
    refine waiting_take laid found rfl rfl (by simp) ?_
    intro e' other
    -- the mask loses every bit, but this was the only one
    have clear : (before.heap p).has e' = false := by
      cases e <;> cases e' <;> simp_all [SoleFire]
    simp [FdContext.fired_slot, Ne.symm other, clear]
  unfold Ledger
  rw [moved]
  simpa [Move.effect, Happening.entry, stored] using ledger.take waits

theorem ledger_resize (ledger : Ledger before) (size : Nat)
    (clean : CleanResize before (.resize size)) :
    Ledger ((Move.resize size).effect before) := by
  have unwaiting : before.waiting = fun _ => none := by
    funext ⟨fd, e⟩
    cases found : before.context fd with
    | none => simp [IOManager.waiting, found]
    | some p =>
        rw [waiting_of_context found, registered_false_iff.mp (clean p (context_mem found)) e]
        rfl
  unfold Ledger at ledger ⊢
  rw [Move.effect, waiting_contextResize, ← unwaiting]
  exact ledger

end Moves

theorem reach_ledger {guard : IOManager → Move → Prop} {io : IOManager}
    (sole : ∀ io move, guard io move → SoleFire io move)
    (clean : ∀ io move, guard io move → CleanResize io move)
    (reached : Reach moves guard io) : Ledger io := by
  refine reached.invariant Ledger ?_ ?_
  · rintro state rfl
    unfold Ledger IOManager.constructed
    rw [waiting_contextResize]
    exact .start
  · intro before move after prior ledger guarded moved
    obtain ⟨able, rfl⟩ := moves_step moved
    have laid := reach_laid prior
    cases move with
    | resize size => exact ledger_resize ledger size (clean before _ guarded)
    | control fd entry => exact ledger
    | register fd p e scheduler waiter => exact ledger_register laid ledger able
    | discard fd p e => exact ledger_discard laid ledger (reach_slotted prior p) able
    | fire p e scheduler =>
        exact ledger_fire laid (reach_placed clean prior) ledger (reach_slotted prior p)
          (sole before _ guarded) able

theorem fire_justified {before io : IOManager} (laid : Laid before) {op : Op} {p : Ptr} {e : Event}
    {scheduler : SchedulerId} (made : MadeBy before op io (.fire p e scheduler)) (waiter : Waiter) :
    before.justifies op (.scheduled (io.heap p).fd e scheduler waiter) := by
  obtain ⟨target, named, same⟩ := made
  rw [same]
  cases op with
  | addEvent caller fd e' cb ret => cases target
  | delEvent fd e' ret => cases target
  | cancelEvent fd e' ret =>
      obtain ⟨found, rfl⟩ := named
      simp only [IOManager.triggersOn] at target
      split at target
      case isTrue success =>
        rw [context_fd laid found, success.2]
        exact Or.inl rfl
      case isFalse => cases target
  | cancelAll fd ret =>
      simp only [IOManager.triggersOn] at target
      split at target
      case isTrue success =>
        rw [context_fd laid named, success.2]
        exact Or.inr (Or.inl rfl)
      case isFalse => cases target
  | dispatch q reported ret =>
      simp only [IOManager.triggersOn] at target
      split at target
      case isTrue success =>
        obtain rfl : q = p := Option.some.inj target
        rw [success.2]
        exact Or.inr (Or.inr ⟨q, reported, rfl, rfl, named⟩)
      case isFalse => cases target

/-- A completed operation only adds to the log what it accounts for. -/
theorem log_justified {before after : IOManager} (laid : Laid before) {op : Op}
    (done : before.perform op = .ok after) :
    ∃ new, after.log = before.log ++ new ∧ ∀ happening ∈ new, before.justifies op happening := by
  refine (perform_path done).invariant
    (fun io => ∃ new, io.log = before.log ++ new ∧ ∀ happening ∈ new, before.justifies op happening)
    ?_ ⟨[], by simp, by simp⟩
  rintro io move _ ⟨new, log, justified⟩ made moved
  obtain ⟨_, rfl⟩ := moves_step moved
  have extend : ∀ added : List Happening, (∀ happening ∈ added, before.justifies op happening) →
      ∃ more, io.log ++ added = before.log ++ more ∧
        ∀ happening ∈ more, before.justifies op happening := by
    intro added caused
    refine ⟨new ++ added, by rw [log, List.append_assoc], ?_⟩
    intro happening mem
    rcases List.mem_append.mp mem with earlier | later
    · exact justified happening earlier
    · exact caused happening later
  cases move with
  | resize size => exact ⟨new, log, justified⟩
  | control fd entry => exact ⟨new, log, justified⟩
  | register fd p e scheduler waiter =>
      obtain ⟨caller, cb, rfl, _, awaited⟩ := made
      refine extend _ fun happening mem => ?_
      obtain rfl := List.mem_singleton.mp mem
      exact ⟨caller, cb, rfl, awaited⟩
  | discard fd p e =>
      refine extend _ fun happening mem => ?_
      simp only [Option.mem_toList, Option.map_eq_some_iff] at mem
      obtain ⟨waiter, _, rfl⟩ := mem
      exact made
  | fire p e scheduler =>
      refine extend _ fun happening mem => ?_
      simp only [Option.mem_toList, Option.map_eq_some_iff] at mem
      obtain ⟨waiter, _, rfl⟩ := mem
      exact fire_justified laid made waiter

def ExactlyOnce (io : IOManager) : Prop :=
  (∀ fd e, io.registrations fd e = io.releases fd e ++ (io.waiting (fd, e)).toList) ∧
    ∀ op after, io.perform op = .ok after →
      ∃ new, after.log = io.log ++ new ∧ ∀ happening ∈ new, io.justifies op happening

/-- In every run in which the table grows only while nothing is registered in
it and no operation triggers on a context with both events set, every
registration is released at most once and none is lost. -/
theorem registrations_exactly_once {io : IOManager}
    (reached : Reach ioManager (fun io op => io.SafeRebuild op ∧ io.SoleEvent op) io) :
    ExactlyOnce io := by
  have onMoves := reach_moves_clean_sole reached
  have ledger : Ledger io :=
    reach_ledger (fun _ _ guarded => guarded.2) (fun _ _ guarded => guarded.1) onMoves
  exact ⟨fun fd e => ledger.balance (fd, e),
    fun _ _ done => log_justified (reach_laid onMoves) done⟩

theorem registrations_exactly_once_run :
    ∃ io, run ioManager IOManager.constructed
        [.addEvent (threadFiber 7) 40 .read none 0, .addEvent (threadFiber 8) 4 .write (some 1) 0,
          .delEvent 40 .read 0, .dispatch 36 EPOLLOUT 0] = some io ∧ ExactlyOnce io :=
  run_meets (fun io op => io.SafeRebuild op ∧ io.SoleEvent op) rfl (by decide) (by decide)
    fun _ reached => registrations_exactly_once reached

def Op.ret : Op → Int32
  | .addEvent _ _ _ _ ret | .delEvent _ _ ret | .cancelEvent _ _ ret | .cancelAll _ ret
  | .dispatch _ _ ret => ret

def EpollSucceeds (op : Op) : Prop := op.ret = 0

instance EpollSucceeds.decidable (op : Op) : Decidable (EpollSucceeds op) :=
  instDecidableEqInt32 op.ret 0

/-- Growing the table for fd 40 loses the callback registered for fd 3: it is
not stored, and it was neither scheduled nor discarded. -/
theorem table_growth_loses_registration :
    ¬ ∀ io, Reach ioManager (fun _ op => EpollSucceeds op) io → ExactlyOnce io := by
  intro claim
  obtain ⟨io, reached, facts⟩ := reach_where ioManager (fun _ op => EpollSucceeds op)
    IOManager.constructed
    [.addEvent (threadFiber 7) 3 .read (some 1) 0, .addEvent (threadFiber 8) 40 .read none 0]
    (fun io => io.registrations 3 .read = [.callback 1] && io.releases 3 .read = [] &&
      io.waiting (3, .read) = none)
    rfl (by decide) (by decide)
  simp only [Bool.and_eq_true, decide_eq_true_eq] at facts
  have balance := (claim io reached).1 3 .read
  rw [facts.1.1, facts.1.2, facts.2] at balance
  cases balance

end Ztyco.EventTable
