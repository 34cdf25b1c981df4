import Ztyco.EventTable

/-!
What the operations on the event table can do to it, said once. A completed
operation is a short path of moves: the table is rebuilt, the kernel's interest
in one fd changes, one event is registered, discarded or fired. Firing is
where `triggerEvent` shows: it clears the whole mask of the context and the
slot of one event. Invariants of the event table are proved for the moves and
hold of every run of operations.
-/

namespace Ztyco.EventTable

open Fibers (Func)
open Transition

/-! Bits of a mask and slots of a context under the three updates. -/

theorem bits_or (mask : Mask) (e e' : Event) (real : e ≠ .none) :
    ((mask ||| e.bits) &&& e'.bits != 0) = ((mask &&& e'.bits != 0) || decide (e = e')) := by
  rw [BitVec.and_or_distrib_right]
  cases e <;> cases e' <;> simp_all [Event.bits]

theorem bits_clear (mask : Mask) (e e' : Event) :
    (mask &&& ~~~e.bits &&& e'.bits != 0) =
      ((mask &&& e'.bits != 0) && decide (e ≠ e')) := by
  rw [BitVec.and_assoc]
  cases e <;> cases e' <;> simp [Event.bits]

@[simp] theorem has_none (ctx : FdContext) : ctx.has .none = false := by
  simp [FdContext.has, Event.bits]

namespace FdContext

/-- The slot of an event; `NONE` has no slot and reads as an empty one. -/
def slot (ctx : FdContext) : Event → EventContext
  | .read => ctx.read
  | .write => ctx.write
  | .none => {}

def enroll (ctx : FdContext) (e : Event) (ectx : EventContext) : FdContext :=
  { ctx with events := ctx.events ||| e.bits }.setEventContext ectx e

def withdraw (ctx : FdContext) (e : Event) : FdContext :=
  { ctx with events := ctx.events &&& ~~~e.bits }.setEventContext {} e

def fired (ctx : FdContext) (e : Event) : FdContext :=
  { ctx with events := ctx.events &&& ~~~ctx.events }.setEventContext {} e

theorem getEventContext_slot (ctx : FdContext) (e : Event) (real : e ≠ .none) :
    ctx.getEventContext e = some (ctx.slot e) := by
  cases e with
  | none => contradiction
  | read => rfl
  | write => rfl

@[simp] theorem setEventContext_events (ctx : FdContext) (ectx : EventContext) (e : Event) :
    (ctx.setEventContext ectx e).events = ctx.events := by
  cases e <;> rfl

@[simp] theorem setEventContext_fd (ctx : FdContext) (ectx : EventContext) (e : Event) :
    (ctx.setEventContext ectx e).fd = ctx.fd := by
  cases e <;> rfl

theorem setEventContext_slot (ctx : FdContext) (ectx : EventContext) (e e' : Event) :
    (ctx.setEventContext ectx e).slot e' =
      if e = e' ∧ e ≠ .none then ectx else ctx.slot e' := by
  cases e <;> cases e' <;> rfl

theorem enroll_has (ctx : FdContext) (e e' : Event) (ectx : EventContext) (real : e ≠ .none) :
    (ctx.enroll e ectx).has e' = (ctx.has e' || decide (e = e')) := by
  simpa [enroll, has] using bits_or ctx.events e e' real

theorem enroll_slot (ctx : FdContext) (e e' : Event) (ectx : EventContext) (real : e ≠ .none) :
    (ctx.enroll e ectx).slot e' = if e = e' then ectx else ctx.slot e' := by
  rw [enroll, setEventContext_slot]
  cases e' <;> simp [real, slot]

theorem withdraw_has (ctx : FdContext) (e e' : Event) :
    (ctx.withdraw e).has e' = (ctx.has e' && decide (e ≠ e')) := by
  simpa [withdraw, has] using bits_clear ctx.events e e'

theorem withdraw_slot (ctx : FdContext) (e e' : Event) :
    (ctx.withdraw e).slot e' = if e = e' then {} else ctx.slot e' := by
  rw [withdraw, setEventContext_slot]
  cases e <;> cases e' <;> rfl

@[simp] theorem fired_events (ctx : FdContext) (e : Event) : (ctx.fired e).events = 0 := by
  simp [fired]

@[simp] theorem fired_has (ctx : FdContext) (e e' : Event) : (ctx.fired e).has e' = false := by
  simp [has]

theorem fired_slot (ctx : FdContext) (e e' : Event) :
    (ctx.fired e).slot e' = if e = e' then {} else ctx.slot e' := by
  rw [fired, setEventContext_slot]
  cases e <;> cases e' <;> rfl

@[simp] theorem enroll_fd (ctx : FdContext) (e : Event) (ectx : EventContext) :
    (ctx.enroll e ectx).fd = ctx.fd := by simp [enroll]

@[simp] theorem withdraw_fd (ctx : FdContext) (e : Event) : (ctx.withdraw e).fd = ctx.fd := by
  simp [withdraw]

@[simp] theorem fired_fd (ctx : FdContext) (e : Event) : (ctx.fired e).fd = ctx.fd := by
  simp [fired]

end FdContext

/-- What `addEvent` stores: the callback, or the calling fiber without one. -/
def Waiter.slot (scheduler : Option SchedulerId) : Waiter → EventContext
  | .fiber f => { scheduler := scheduler, fiber := some f }
  | .callback c => { scheduler := scheduler, cb := some c }

@[simp] theorem Waiter.slot_waiter (scheduler : Option SchedulerId) (waiter : Waiter) :
    (waiter.slot scheduler).waiter = some waiter := by
  cases waiter <;> rfl

@[simp] theorem Waiter.slot_scheduler (scheduler : Option SchedulerId) (waiter : Waiter) :
    (waiter.slot scheduler).scheduler = scheduler := by
  cases waiter <;> rfl

def awaiting (caller : Caller) : Option Func → Waiter
  | some cb => .callback cb
  | none => .fiber caller.fiber

inductive Move where
  | resize (size : Nat)
  | control (fd : Int32) (entry : Option EpollEvent)
  | register (fd : Int32) (p : Ptr) (e : Event) (scheduler : Option SchedulerId) (waiter : Waiter)
  | discard (fd : Int32) (p : Ptr) (e : Event)
  | fire (p : Ptr) (e : Event) (scheduler : SchedulerId)

namespace Move

def enabled (io : IOManager) : Move → Prop
  | .resize size => size ≤ UInt32.size
  | .control _ _ => True
  | .register fd p e _ _ => io.context fd = some p ∧ e ≠ .none ∧
      (io.heap p).has e = false ∧ (io.heap p).slot e = {}
  | .discard fd p e => io.context fd = some p ∧ (io.heap p).has e = true
  | .fire p e scheduler => (io.heap p).has e = true ∧
      ((io.heap p).slot e).scheduler = some scheduler

instance enabled.decidable (io : IOManager) (move : Move) : Decidable (move.enabled io) := by
  cases move <;> unfold enabled <;> infer_instance

def effect (io : IOManager) : Move → IOManager
  | .resize size => io.contextResize size
  | .control fd entry => { io with epoll := Function.update io.epoll fd entry }
  | .register fd p e scheduler waiter =>
      { io with
        m_pendingEventCount := io.m_pendingEventCount + 1
        heap := Function.update io.heap p ((io.heap p).enroll e (waiter.slot scheduler))
        log := io.log ++ [.registered fd e waiter] }
  | .discard fd p e =>
      { io with
        m_pendingEventCount := io.m_pendingEventCount - 1
        heap := Function.update io.heap p ((io.heap p).withdraw e)
        log := io.log ++ (((io.heap p).slot e).waiter.map (.discarded fd e)).toList }
  | .fire p e scheduler =>
      { io with
        m_pendingEventCount := io.m_pendingEventCount - 1
        heap := Function.update io.heap p ((io.heap p).fired e)
        log := io.log ++
          (((io.heap p).slot e).waiter.map
            (.scheduled (io.heap p).fd e scheduler)).toList }

end Move

def moves : Machine IOManager Move where
  initial io := io = IOManager.constructed
  step io move := if move.enabled io then some (move.effect io) else none

theorem moves_step {io io' : IOManager} {move : Move} (moved : moves.step io move = some io') :
    move.enabled io ∧ io' = move.effect io := by
  simp only [moves] at moved
  split at moved
  case isTrue able => exact ⟨able, (Option.some.inj moved).symm⟩
  case isFalse => cases moved

theorem moves_take {io : IOManager} (move : Move) (able : move.enabled io) :
    moves.step io move = some (move.effect io) :=
  if_pos able

/-! Which moves an operation makes. -/

def IOManager.rebuilds (io : IOManager) : Op → Bool
  | .addEvent _ fd _ _ _ => !io.covers fd
  | _ => false

def IOManager.triggersOn (io : IOManager) : Op → Option Ptr
  | .cancelEvent fd e ret =>
      if io.covers fd ∧ ret = 0 then (io.context fd).filter fun p => (io.heap p).has e
      else none
  | .cancelAll fd ret =>
      if io.covers fd ∧ ret = 0 then (io.context fd).filter fun p => (io.heap p).events ≠ 0
      else none
  | .dispatch p reported ret =>
      if (io.heap p).events &&& realEvts (widen (io.heap p) reported) ≠ 0 ∧ ret = 0 then some p
      else none
  | .addEvent _ _ _ _ _ | .delEvent _ _ _ => none

def IOManager.names (io : IOManager) (p : Ptr) (e : Event) : Op → Prop
  | .cancelEvent fd e' _ => io.context fd = some p ∧ e = e'
  | .cancelAll fd _ => io.context fd = some p
  | .dispatch _ reported _ => realEvts (widen (io.heap p) reported) &&& e.bits ≠ 0
  | .addEvent _ _ _ _ _ | .delEvent _ _ _ => False

/-- The moves of `op` started in `before`, with the state each is made in. The
table and the masks are still those of `before` when a context is rebuilt or
fired: no operation fires twice. -/
def MadeBy (before : IOManager) (op : Op) (io : IOManager) : Move → Prop
  | .resize _ => before.rebuilds op = true ∧ io = before
  | .control _ _ => True
  | .register fd _ e scheduler waiter => ∃ caller cb, op = .addEvent caller fd e cb 0 ∧
      scheduler = caller.scheduler ∧ waiter = awaiting caller cb
  | .discard fd _ e => op = .delEvent fd e 0
  | .fire p e _ => before.triggersOn op = some p ∧ before.names p e op ∧
      io.heap = before.heap

theorem map_done {α β : Type} {outcome : Except Fault α} {next : α → β} {result : β}
    (done : outcome.map next = .ok result) :
    ∃ value, outcome = .ok value ∧ next value = result := by
  cases outcome with
  | error => cases done
  | ok value => exact ⟨value, rfl, Except.ok.inj done⟩

theorem bind_done {α β : Type} {outcome : Except Fault α} {next : α → Except Fault β} {result : β}
    (done : outcome.bind next = .ok result) :
    ∃ value, outcome = .ok value ∧ next value = .ok result := by
  cases outcome with
  | error => cases done
  | ok value => exact ⟨value, rfl, done⟩

theorem triggerAndCount_set (io : IOManager) (p : Ptr) (e : Event)
    (set : (io.heap p).has e = true) :
    io.triggerAndCount p e =
      match ((io.heap p).slot e).scheduler with
      | none => .error .nullScheduler
      | some scheduler => .ok ((Move.fire p e scheduler).effect io) := by
  have real : e ≠ .none := fun same => by simp [same] at set
  have unmasked : { io.heap p with events := (io.heap p).events &&& ~~~(io.heap p).events }.slot e =
      (io.heap p).slot e := by
    cases e <;> rfl
  simp only [IOManager.triggerAndCount, IOManager.triggerEvent, set, ↓reduceIte,
    FdContext.getEventContext_slot _ e real, unmasked]
  cases ((io.heap p).slot e).scheduler <;> rfl

theorem triggerAndCount_clear (io : IOManager) (p : Ptr) (e : Event)
    (clear : (io.heap p).has e = false) :
    io.triggerAndCount p e = .error .notRegistered := by
  simp [IOManager.triggerAndCount, IOManager.triggerEvent, clear, Except.map]

theorem triggerAndCount_fires {io io' : IOManager} {p : Ptr} {e : Event}
    (done : io.triggerAndCount p e = .ok io') :
    ∃ scheduler, (Move.fire p e scheduler).enabled io ∧
      io' = (Move.fire p e scheduler).effect io := by
  cases set : (io.heap p).has e with
  | false =>
      rw [triggerAndCount_clear io p e set] at done
      cases done
  | true =>
      rw [triggerAndCount_set io p e set] at done
      split at done
      · cases done
      · next scheduler holder =>
          cases done
          exact ⟨scheduler, ⟨set, holder⟩, rfl⟩

theorem withContext_cases {io io' : IOManager} {fd : Int32} {answer : Bool}
    {body : Ptr → FdContext → Except Fault (Bool × IOManager)}
    (done : io.withContext fd body = .ok (answer, io')) :
    (answer = false ∧ io' = io) ∨
      ∃ p, io.covers fd = true ∧ io.context fd = some p ∧
        body p (io.heap p) = .ok (answer, io') := by
  unfold IOManager.withContext at done
  split at done
  case isTrue covered =>
    cases found : io.context fd with
    | none => simp [found] at done
    | some p => exact Or.inr ⟨p, covered, rfl, by simpa [found] using done⟩
  case isFalse =>
    cases done
    exact Or.inl ⟨rfl, rfl⟩

theorem grown_bound (fd : Int32) : IOManager.grown fd ≤ UInt32.size := by
  have limit := Int32.toNatClampNeg_lt fd
  simp only [IOManager.grown, UInt32.size]
  omega

theorem grow_path (io : IOManager) (caller : Caller) (fd : Int32) (e : Event)
    (cb : Option Func) (ret : Int32) :
    Path moves (MadeBy io (.addEvent caller fd e cb ret)) io
      (if io.covers fd then io else io.contextResize (IOManager.grown fd)) := by
  by_cases covered : io.covers fd = true
  · rw [if_pos covered]
    exact .refl io
  · rw [if_neg covered]
    exact .single (.resize (IOManager.grown fd)) ⟨by simpa [IOManager.rebuilds] using covered, rfl⟩
      (moves_take (.resize _) (grown_bound fd))

theorem control_path {guard : IOManager → Move → Prop}
    (free : ∀ io fd entry, guard io (.control fd entry)) (io : IOManager) (op : EpollCtlOp)
    (fd : Int32) (event : EpollEvent) : Path moves guard io (io.epollCtl op fd event) :=
  .single (.control fd (if op = .del then none else some event)) (free _ _ _)
    (moves_take (.control _ _) trivial)

theorem install_registers {io io' : IOManager} {caller : Caller} {fd : Int32} {p : Ptr}
    {e : Event} {cb : Option Func} {answer : Int32} (found : io.context fd = some p)
    (clear : (io.heap p).has e = false)
    (done : io.install caller fd p e cb = .ok (answer, io')) :
    let move := Move.register fd p e caller.scheduler (awaiting caller cb)
    move.enabled io ∧ io' = move.effect io := by
  have real : e ≠ .none := by
    intro same
    simp [IOManager.install, same, FdContext.getEventContext] at done
  have slot_unmasked : { io.heap p with events := (io.heap p).events ||| e.bits }.slot e =
      (io.heap p).slot e := by
    cases e <;> rfl
  simp only [IOManager.install, FdContext.getEventContext_slot _ e real, slot_unmasked] at done
  have empty : (io.heap p).slot e = {} := by
    cases holder : (io.heap p).slot e with
    | mk scheduler fiber cb =>
        cases scheduler <;> cases fiber <;> cases cb <;> simp [holder] at done ⊢
  simp only [empty] at done
  refine ⟨⟨found, real, clear, empty⟩, ?_⟩
  cases cb with
  | some cb =>
      simp only [Option.isSome_none, Bool.or_self, Bool.false_eq_true, ↓reduceIte,
        Except.ok.injEq, Prod.mk.injEq] at done
      exact done.2.symm
  | none =>
      simp only [Option.isSome_none, Bool.or_self, Bool.false_eq_true, ↓reduceIte] at done
      split at done
      case isTrue =>
        simp only [Except.ok.injEq, Prod.mk.injEq] at done
        exact done.2.symm
      case isFalse => cases done

theorem addEvent_outcome {io io' : IOManager} {caller : Caller} {fd : Int32} {e : Event}
    {cb : Option Func} {ret answer : Int32}
    (done : io.addEvent caller fd e cb ret = .ok (answer, io')) :
    ∃ grown, grown = (if io.covers fd then io else io.contextResize (IOManager.grown fd)) ∧
      ∃ p, grown.context fd = some p ∧ (grown.heap p).has e = false ∧
        (ret ≠ 0 ∧ answer = -1 ∧ io' = grown ∨
          ret = 0 ∧ ∃ op event,
            (grown.epollCtl op fd event).install caller fd p e cb = .ok (answer, io')) := by
  unfold IOManager.addEvent at done
  refine ⟨_, rfl, ?_⟩
  generalize (if io.covers fd then io else io.contextResize (IOManager.grown fd)) = grown at done
  cases found : grown.context fd with
  | none => simp [found] at done
  | some p =>
      simp only [found] at done
      split at done
      · cases done
      rename_i clear
      refine ⟨p, rfl, Bool.eq_false_iff.mpr clear, ?_⟩
      split at done
      · rename_i refused
        cases done
        exact Or.inl ⟨refused, rfl, rfl⟩
      · rename_i success
        exact Or.inr ⟨not_not.mp success, _, _, done⟩

theorem addEvent_path {io io' : IOManager} {caller : Caller} {fd : Int32} {e : Event}
    {cb : Option Func} {ret answer : Int32}
    (done : io.addEvent caller fd e cb ret = .ok (answer, io')) :
    Path moves (MadeBy io (.addEvent caller fd e cb ret)) io io' := by
  -- the growth is a path of its own; the rest is judged from the grown table
  have start := grow_path io caller fd e cb ret
  rcases addEvent_outcome done with
    ⟨grown, same, p, found, clear, ⟨_, _, rfl⟩ | ⟨rfl, op, event, installed⟩⟩
  · rw [same]
    exact start
  · rw [← same] at start
    have registered := install_registers (by exact found) (by exact clear) installed
    rw [registered.2]
    exact (start.trans (control_path (fun _ _ _ => trivial) grown op fd event)).next
      (.register fd p e caller.scheduler (awaiting caller cb)) ⟨caller, cb, rfl, rfl, rfl⟩
      (moves_take _ registered.1)

theorem delEvent_path {io io' : IOManager} {fd : Int32} {e : Event} {ret : Int32}
    {answer : Bool} (done : io.delEvent fd e ret = .ok (answer, io')) :
    Path moves (MadeBy io (.delEvent fd e ret)) io io' := by
  rcases withContext_cases done with ⟨_, rfl⟩ | ⟨p, _, found, body⟩
  · exact .refl _
  split at body
  case isFalse =>
    cases body
    exact .refl _
  case isTrue set =>
    have real : e ≠ .none := fun same => by simp [same] at set
    simp only [FdContext.getEventContext_slot _ e real] at body
    split at body
    · cases body
      exact .refl _
    rename_i success
    obtain rfl : ret = 0 := by simpa using success
    cases body
    exact (control_path (fun _ _ _ => trivial) io _ fd _).next (.discard fd p e) rfl
      (moves_take _ ⟨found, set⟩)

theorem fire_path {io io' : IOManager} {p : Ptr} {e : Event} {guard : IOManager → Move → Prop}
    (free : ∀ scheduler, guard io (.fire p e scheduler))
    (done : io.triggerAndCount p e = .ok io') : Path moves guard io io' := by
  obtain ⟨scheduler, able, rfl⟩ := triggerAndCount_fires done
  exact .single _ (free scheduler) (moves_take _ able)

theorem cancelEvent_path {io io' : IOManager} {fd : Int32} {e : Event} {ret : Int32}
    {answer : Bool} (done : io.cancelEvent fd e ret = .ok (answer, io')) :
    Path moves (MadeBy io (.cancelEvent fd e ret)) io io' := by
  rcases withContext_cases done with ⟨_, rfl⟩ | ⟨p, covered, found, body⟩
  · exact .refl _
  split at body
  case isFalse =>
    cases body
    exact .refl _
  case isTrue set =>
    split at body
    · cases body
      exact .refl _
    rename_i success
    obtain rfl : ret = 0 := by simpa using success
    obtain ⟨after, fired, same⟩ := map_done body
    obtain rfl : after = io' := congrArg Prod.snd same
    refine (control_path (fun _ _ _ => trivial) io _ fd _).trans
      (fire_path (fun scheduler => ⟨?_, ⟨found, rfl⟩, rfl⟩) fired)
    simp [IOManager.triggersOn, covered, found, set]

theorem triggerIfSet_cases {io io' : IOManager} {p : Ptr} {e : Event}
    (done : io.triggerIfSet p e = .ok io') :
    (io' = io ∧ (io.heap p).has e = false) ∨ io.triggerAndCount p e = .ok io' := by
  unfold IOManager.triggerIfSet at done
  split at done
  case isTrue => exact Or.inr done
  case isFalse clear =>
    cases done
    exact Or.inl ⟨rfl, by simpa using clear⟩

/-- A context that has just been fired has no event left to fire. -/
theorem fires_once {io io' : IOManager} {p : Ptr} {e : Event}
    (first : io.triggerAndCount p e = .ok io') (e' : Event) : (io'.heap p).has e' = false := by
  obtain ⟨scheduler, _, rfl⟩ := triggerAndCount_fires first
  simp [Move.effect]

theorem cancelAll_path {io io' : IOManager} {fd : Int32} {ret : Int32} {answer : Bool}
    (done : io.cancelAll fd ret = .ok (answer, io')) :
    Path moves (MadeBy io (.cancelAll fd ret)) io io' := by
  rcases withContext_cases done with ⟨_, rfl⟩ | ⟨p, covered, found, body⟩
  · exact .refl _
  split at body
  · cases body
    exact .refl _
  rename_i nonzero
  split at body
  · cases body
    exact .refl _
  rename_i success
  obtain rfl : ret = 0 := by simpa using success
  have free : ∀ e scheduler (state : IOManager), state.heap = io.heap →
      MadeBy io (.cancelAll fd 0) state (.fire p e scheduler) := by
    intro e scheduler state same
    exact ⟨by simpa [IOManager.triggersOn, covered, found] using nonzero, found, same⟩
  have controlled : Path moves (MadeBy io (.cancelAll fd 0)) io (io.epollCtl .del fd ⟨0, p⟩) :=
    control_path (fun _ _ _ => trivial) io .del fd ⟨0, p⟩
  dsimp only at body
  split at body
  case h_1 => cases body
  case h_2 after triggered =>
    split at body
    case isFalse => cases body
    case isTrue =>
      obtain rfl : after = io' := congrArg Prod.snd (Except.ok.inj body)
      obtain ⟨middle, first, second⟩ := bind_done triggered
      rcases triggerIfSet_cases first with ⟨rfl, _⟩ | fired
      · rcases triggerIfSet_cases second with ⟨rfl, _⟩ | fired
        · exact controlled
        · exact controlled.trans (fire_path (fun scheduler => free _ scheduler _ rfl) fired)
      · -- READ has cleared the whole mask, so WRITE is not triggered
        have spent := fires_once fired .write
        rcases triggerIfSet_cases second with ⟨rfl, _⟩ | again
        · exact controlled.trans (fire_path (fun scheduler => free _ scheduler _ rfl) fired)
        · rw [triggerAndCount_clear _ _ _ spent] at again
          cases again

theorem triggerIfReal_cases {io io' : IOManager} {p : Ptr} {real_evts : Mask} {e : Event}
    (done : io.triggerIfReal p real_evts e = .ok io') :
    (io' = io ∧ real_evts &&& e.bits = 0) ∨
      (real_evts &&& e.bits ≠ 0 ∧ io.triggerAndCount p e = .ok io') := by
  unfold IOManager.triggerIfReal at done
  split at done
  case isTrue reported => exact Or.inr ⟨reported, done⟩
  case isFalse absent =>
    cases done
    exact Or.inl ⟨rfl, by simpa using absent⟩

theorem dispatch_path {io io' : IOManager} {p : Ptr} {reported : Mask} {ret : Int32}
    (done : io.dispatch p reported ret = .ok io') :
    Path moves (MadeBy io (.dispatch p reported ret)) io io' := by
  simp only [IOManager.dispatch] at done
  split at done
  · cases done
    exact .refl _
  rename_i relevant
  split at done
  · cases done
    exact .refl _
  rename_i success
  obtain rfl : ret = 0 := by simpa using success
  have free : ∀ e scheduler (state : IOManager), state.heap = io.heap →
      IOManager.realEvts (IOManager.widen (io.heap p) reported) &&& e.bits ≠ 0 →
      MadeBy io (.dispatch p reported 0) state (.fire p e scheduler) := by
    intro e scheduler state same named
    exact ⟨by simpa [IOManager.triggersOn] using relevant, named, same⟩
  generalize (if (io.heap p).events &&& ~~~IOManager.realEvts (IOManager.widen (io.heap p)
    reported) ≠ 0 then EpollCtlOp.mod else .del) = op at done
  generalize EpollEvent.mk ((io.heap p).events &&& ~~~IOManager.realEvts (IOManager.widen
    (io.heap p) reported) ||| EPOLLET) p = event at done
  obtain ⟨middle, first, second⟩ := bind_done done
  refine (control_path (fun _ _ _ => trivial) io op (io.heap p).fd event).trans ?_
  rcases triggerIfReal_cases first with ⟨rfl, _⟩ | ⟨named, fired⟩
  · rcases triggerIfReal_cases second with ⟨rfl, _⟩ | ⟨named, fired⟩
    · exact .refl _
    · exact fire_path (fun scheduler => free _ scheduler _ rfl named) fired
  · -- the test for WRITE reads real_evts, so the second trigger would fail
    have spent := fires_once fired .write
    rcases triggerIfReal_cases second with ⟨rfl, _⟩ | ⟨_, again⟩
    · exact fire_path (fun scheduler => free _ scheduler _ rfl named) fired
    · rw [triggerAndCount_clear _ _ _ spent] at again
      cases again

/-- Every completed operation is a path of the moves it may make. -/
theorem perform_path {io io' : IOManager} {op : Op} (done : io.perform op = .ok io') :
    Path moves (MadeBy io op) io io' := by
  cases op with
  | addEvent caller fd e cb ret =>
      obtain ⟨⟨answer, _⟩, completed, rfl⟩ := map_done done
      exact addEvent_path completed
  | delEvent fd e ret =>
      obtain ⟨⟨answer, _⟩, completed, rfl⟩ := map_done done
      exact delEvent_path completed
  | cancelEvent fd e ret =>
      obtain ⟨⟨answer, _⟩, completed, rfl⟩ := map_done done
      exact cancelEvent_path completed
  | cancelAll fd ret =>
      obtain ⟨⟨answer, _⟩, completed, rfl⟩ := map_done done
      exact cancelAll_path completed
  | dispatch p reported ret => exact dispatch_path done

theorem ioManager_step {io io' : IOManager} {op : Op} (moved : ioManager.step io op = some io') :
    io.perform op = .ok io' := by
  simp only [ioManager] at moved
  cases outcome : io.perform op with
  | error fault => simp [outcome, Except.toOption] at moved
  | ok after =>
      have same : after = io' := by simpa [outcome, Except.toOption] using moved
      rw [same]

/-- Runs of operations are runs of moves. Guards on the moves follow from
conditions on the operations that make them. -/
theorem reach_moves {allowed : IOManager → Op → Prop} {guard : IOManager → Move → Prop}
    (guarded : ∀ before op io move, allowed before op → MadeBy before op io move → guard io move)
    {io : IOManager} (reached : Reach ioManager allowed io) : Reach moves guard io := by
  have initials : ∀ state, ioManager.initial state → moves.initial state :=
    fun _ initial => initial
  refine reached.simulate initials ?_
  intro before op after _ admitted moved
  exact (perform_path (ioManager_step moved)).mono fun io move =>
    guarded before op io move admitted

end Ztyco.EventTable
