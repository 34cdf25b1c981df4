import Ztyco.Cancellations
import Ztyco.EventLedger

/-!
The event table of iomanager.cc beside the kernel's interest list. `epoll_ctl`
refuses to add an fd that is in the list and to change or remove one that is
not, so an operation has to ask for what the list is ready for. While the table
grows only with nothing registered in it and nothing is triggered on a context
with both events set, the list holds the fds with a registered event, each with
its context and an interest in what is registered. The read end of the tickle
pipe is left out: the constructor adds it, and no event is registered for it.
-/

namespace Ztyco.EventTable

open Fibers (Func)
open Transition

namespace IOManager

def enlarged (io : IOManager) (fd : Int32) : IOManager :=
  if io.covers fd then io else io.contextResize (grown fd)

def asks (io : IOManager) : Op → Option (EpollCtlOp × Int32)
  | .addEvent _ fd e _ _ =>
      ((io.enlarged fd).context fd).bind fun p =>
        let ctx := (io.enlarged fd).heap p
        if ctx.has e then none else some (if ctx.events ≠ 0 then .mod else .add, fd)
  | .delEvent fd e _ | .cancelEvent fd e _ =>
      if io.covers fd then
        (io.context fd).bind fun p =>
          if (io.heap p).has e then
            some (if (io.heap p).events &&& ~~~e.bits ≠ 0 then .mod else .del, fd)
          else none
      else none
  | .cancelAll fd _ =>
      if io.covers fd then
        (io.context fd).bind fun p => if (io.heap p).events = 0 then none else some (.del, fd)
      else none
  | .dispatch p reported _ =>
      let real_evts := realEvts (widen (io.heap p) reported)
      if (io.heap p).events &&& real_evts = 0 then none
      else some (if (io.heap p).events &&& ~~~real_evts ≠ 0 then .mod else .del, (io.heap p).fd)

/-- An fd is added when the list does not have it, and else changed or removed. -/
def Accepted (io : IOManager) (op : Op) : Prop :=
  ∀ ctl fd, io.asks op = some (ctl, fd) → (ctl = .add ↔ io.epoll fd = none)

end IOManager

structure Watched (io : IOManager) : Prop where
  entries : ∀ fd event, io.epoll fd = some event →
    io.context fd = some event.ptr ∧ (io.heap event.ptr).registered = true
  contexts : ∀ p e, (io.heap p).has e = true → ∃ event,
    io.epoll (io.heap p).fd = some event ∧ event.ptr = p ∧ event.events &&& e.bits ≠ 0

def Masked (ctx : FdContext) : Prop :=
  ctx.events &&& ~~~(Event.read.bits ||| Event.write.bits) = 0

/-! Masks. -/

theorem and_of_inside {mask within : Mask} (inside : mask &&& ~~~within = 0) :
    mask &&& within = mask := by
  calc mask &&& within = mask &&& within ||| mask &&& ~~~within := by
        rw [inside]
        simp
    _ = mask := by rw [← BitVec.and_or_distrib_left, BitVec.or_not_self, BitVec.and_allOnes]

theorem events_split {ctx : FdContext} (masked : Masked ctx) :
    ctx.events = ctx.events &&& Event.read.bits ||| ctx.events &&& Event.write.bits := by
  rw [← BitVec.and_or_distrib_left]
  exact (and_of_inside masked).symm

theorem events_zero_iff {ctx : FdContext} (masked : Masked ctx) :
    ctx.events = 0 ↔ ctx.registered = false := by
  rw [registered_false_iff]
  constructor
  · intro zero e
    simp [FdContext.has, zero]
  · intro clear
    have read : ctx.events &&& Event.read.bits = 0 := by simpa [FdContext.has] using clear .read
    have write : ctx.events &&& Event.write.bits = 0 := by simpa [FdContext.has] using clear .write
    rw [events_split masked, read, write]
    rfl

theorem masked_and {ctx after : FdContext} (mask : Mask) (masked : Masked ctx)
    (events : after.events = ctx.events &&& mask) : Masked after := by
  unfold Masked at masked ⊢
  rw [events, BitVec.and_assoc, BitVec.and_comm mask, ← BitVec.and_assoc, masked]
  simp

theorem reach_masked {guard : IOManager → Move → Prop} {io : IOManager}
    (reached : Reach moves guard io) (p : Ptr) : Masked (io.heap p) := by
  refine contexts_invariant Masked ?_ ?_ reached p
  · intro fd
    unfold Masked
    simp
  · intro io move able _ holds
    cases move with
    | resize size => trivial
    | control fd entry => trivial
    | register fd q e scheduler waiter =>
        have old := holds q
        unfold Masked at old ⊢
        simp only [FdContext.enroll, FdContext.setEventContext_events]
        rw [BitVec.and_or_distrib_right, old]
        cases e <;> rfl
    | discard fd q e => exact masked_and _ (holds q) (FdContext.setEventContext_events ..)
    | fire q e scheduler => exact masked_and _ (holds q) (FdContext.setEventContext_events ..)

theorem withdraw_events (ctx : FdContext) (e : Event) :
    (ctx.withdraw e).events = ctx.events &&& ~~~e.bits := by
  rw [FdContext.withdraw, FdContext.setEventContext_events]

theorem registered_of_has {ctx : FdContext} {e : Event} (set : ctx.has e = true) :
    ctx.registered = true := by
  cases registered : ctx.registered with
  | true => rfl
  | false => rw [← set, registered_false_iff.mp registered e]

theorem sole_mask {ctx : FdContext} {e : Event} (masked : Masked ctx) (set : ctx.has e = true)
    (sole : ¬ (ctx.has .read = true ∧ ctx.has .write = true)) :
    ctx.events &&& ~~~e.bits = 0 := by
  have left : Masked (ctx.withdraw e) := masked_and _ masked (withdraw_events ctx e)
  rw [← withdraw_events, events_zero_iff left, registered_false_iff]
  intro e'
  rw [FdContext.withdraw_has]
  cases e with
  | none => simp at set
  | read => cases e' <;> simp_all
  | write => cases e' <;> simp_all

/-! One fd is controlled, and its context is written. -/

section Steps
variable {io after : IOManager}

theorem Watched.control (watched : Watched io) (laid : Laid io) {fd : Int32} {p : Ptr}
    {ctx : FdContext} {entry : Option EpollEvent} (found : io.context fd = some p)
    (table : after.m_fdContexts = io.m_fdContexts)
    (heap : after.heap = Function.update io.heap p ctx) (same_fd : ctx.fd = (io.heap p).fd)
    (epoll : after.epoll = Function.update io.epoll fd entry)
    (gone : entry = none → ctx.registered = false)
    (kept : ∀ event, entry = some event → event.ptr = p ∧ ctx.registered = true ∧
      ∀ e, ctx.has e = true → event.events &&& e.bits ≠ 0) : Watched after := by
  have lookup : ∀ other, after.context other = io.context other := fun other => by
    simp only [IOManager.context, table]
  constructor
  · intro other event present
    rw [epoll] at present
    rw [lookup, heap]
    by_cases same : other = fd
    · subst same
      rw [Function.update_self] at present
      rcases kept event present with ⟨rfl, registered, _⟩
      rw [Function.update_self]
      exact ⟨found, registered⟩
    · rw [Function.update_of_ne same] at present
      rcases watched.entries other event present with ⟨owned, registered⟩
      -- the contexts of two fds are different
      have apart : event.ptr ≠ p := by
        intro shared
        rw [shared] at owned
        exact same ((context_fd laid owned).symm.trans (context_fd laid found))
      rw [Function.update_of_ne apart]
      exact ⟨owned, registered⟩
  · intro q e set
    rw [heap] at set ⊢
    rw [epoll]
    by_cases same : q = p
    · subst same
      rw [Function.update_self] at set ⊢
      rw [same_fd, context_fd laid found, Function.update_self]
      cases entry with
      | none =>
          rw [registered_false_iff.mp (gone rfl) e] at set
          cases set
      | some event =>
          rcases kept event rfl with ⟨owner, _, covers⟩
          exact ⟨event, rfl, owner, covers e set⟩
    · rw [Function.update_of_ne same] at set ⊢
      rcases watched.contexts q e set with ⟨event, present, owner, covers⟩
      have apart : (io.heap q).fd ≠ fd := by
        intro shared
        rw [shared] at present
        have owned := (watched.entries fd event present).1
        rw [found, owner] at owned
        exact same (Option.some.inj owned).symm
      rw [Function.update_of_ne apart]
      exact ⟨event, present, owner, covers⟩

theorem Watched.contextResize (watched : Watched io) (placed : Placed io) (size : Nat)
    (clear : ∀ p ∈ io.m_fdContexts, (io.heap p).registered = false) :
    Watched (io.contextResize size) := by
  constructor
  · intro fd event present
    rcases watched.entries fd event present with ⟨owned, registered⟩
    rw [clear event.ptr (context_mem owned)] at registered
    cases registered
  · intro p e set
    have old := contextResize_has io size p e set
    have none := registered_false_iff.mp (clear p (context_mem (placed p e old))) e
    rw [none] at old
    cases old

/-- What an operation leaves behind, from the table it goes on with: nothing, or the
`epoll_ctl` it asks for and one written context. -/
def Controls (base after : IOManager) (ret : Int32) : Option (EpollCtlOp × Int32) → Prop
  | none => after = base
  | some (ctl, fd) => ret ≠ 0 ∧ after = base ∨
      ret = 0 ∧ ∃ p ctx mask, base.context fd = some p ∧ ctx.fd = (base.heap p).fd ∧
        after.m_fdContexts = base.m_fdContexts ∧ after.heap = Function.update base.heap p ctx ∧
        after.epoll =
          Function.update base.epoll fd (if ctl = .del then none else some ⟨mask, p⟩) ∧
        if ctl = .del then ctx.registered = false
        else ctx.registered = true ∧ ∀ e, ctx.has e = true → mask &&& e.bits ≠ 0

def Obeys (before after : IOManager) (ret : Int32) : Option (EpollCtlOp × Int32) → Prop
  | none => after.epoll = before.epoll
  | some (ctl, fd) => (∀ other, other ≠ fd → after.epoll other = before.epoll other) ∧
      if ret = 0 then after.epoll fd = none ↔ ctl = .del else after.epoll fd = before.epoll fd

theorem Controls.obeys {base : IOManager} {ret : Int32} {ask : Option (EpollCtlOp × Int32)}
    (outcome : Controls base after ret ask) (list : base.epoll = io.epoll) :
    Obeys io after ret ask := by
  unfold Obeys
  rw [← list]
  cases ask with
  | none =>
      cases outcome
      rfl
  | some request =>
      rcases request with ⟨ctl, fd⟩
      rcases outcome with ⟨refused, rfl⟩ | ⟨rfl, p, ctx, mask, _, _, _, _, epoll, _⟩
      · exact ⟨fun _ _ => rfl, by rw [if_neg refused]⟩
      · refine ⟨fun other apart => ?_, ?_⟩
        · rw [epoll, Function.update_of_ne apart]
        · rw [if_pos rfl, epoll, Function.update_self]
          cases ctl <;> simp

theorem Watched.controls {base : IOManager} {ret : Int32} {ask : Option (EpollCtlOp × Int32)}
    (watched : Watched base) (laid : Laid base) (outcome : Controls base after ret ask) :
    Watched after := by
  cases ask with
  | none =>
      cases outcome
      exact watched
  | some request =>
      rcases outcome with ⟨_, rfl⟩ | ⟨_, p, ctx, mask, found, same_fd, table, heap, epoll, left⟩
      · exact watched
      · refine watched.control laid found table heap same_fd epoll ?_ ?_
        · intro none
          split at left
          · exact left
          · rename_i other
            rw [if_neg other] at none
            cases none
        · intro event present
          split at left
          · rename_i del
            rw [if_pos del] at present
            cases present
          · rename_i other
            rw [if_neg other] at present
            cases present
            exact ⟨rfl, left⟩

/-! What each operation asks for. -/

theorem or_covers {mask : Mask} (extra : Mask) {e : Event} (covers : mask &&& e.bits ≠ 0) :
    (mask ||| extra) &&& e.bits ≠ 0 := by
  rw [BitVec.and_or_distrib_right]
  exact fun zero => covers (BitVec.or_eq_zero_iff.mp zero).1

theorem has_covers {ctx : FdContext} {e : Event} (set : ctx.has e = true) :
    ctx.events &&& e.bits ≠ 0 := by
  simpa [FdContext.has] using set

theorem withContext_controls {fd ret : Int32} {answer : Bool}
    {body : Ptr → FdContext → Except Fault (Bool × IOManager)}
    {ask : Ptr → Option (EpollCtlOp × Int32)}
    (done : io.withContext fd body = .ok (answer, after))
    (outcome : ∀ p, io.covers fd = true → io.context fd = some p →
      body p (io.heap p) = .ok (answer, after) → Controls io after ret (ask p)) :
    Controls io after ret (if io.covers fd then (io.context fd).bind ask else none) := by
  unfold IOManager.withContext at done
  cases covered : io.covers fd with
  | false =>
      rw [covered] at done
      cases done
      rfl
  | true =>
      cases found : io.context fd with
      | none => simp [covered, found] at done
      | some p =>
          have body_done : body p (io.heap p) = .ok (answer, after) := by
            simpa [covered, found] using done
          exact outcome p covered found body_done

theorem delEvent_controls {fd : Int32} {e : Event} {ret : Int32} {answer : Bool}
    (masked : ∀ p, Masked (io.heap p)) (done : io.delEvent fd e ret = .ok (answer, after)) :
    Controls io after ret (io.asks (.delEvent fd e ret)) := by
  refine withContext_controls done fun p covered found body => ?_
  split at body
  case isFalse unset =>
    cases body
    simp [Controls, unset]
  case isTrue set =>
    rw [if_pos set]
    by_cases accepted : ret = 0
    · subst accepted
      rw [delEvent_set covered found set] at done
      cases done
      have left : Masked ((io.heap p).withdraw e) := masked_and _ (masked p) (withdraw_events _ e)
      refine Or.inr ⟨rfl, p, (io.heap p).withdraw e, _, found, by simp, rfl, rfl, rfl, ?_⟩
      rw [← withdraw_events]
      by_cases zero : ((io.heap p).withdraw e).events = 0
      · simpa [zero] using (events_zero_iff left).mp zero
      · rw [if_pos zero, if_neg (by decide)]
        refine ⟨?_, fun e' kept => or_covers _ (has_covers kept)⟩
        rw [← Bool.not_eq_false, ← events_zero_iff left]
        exact zero
    · rw [if_pos accepted] at body
      cases body
      exact Or.inl ⟨accepted, rfl⟩

theorem fired_registered (ctx : FdContext) (e : Event) : (ctx.fired e).registered = false :=
  registered_false_iff.mpr (ctx.fired_has e)

theorem cancelEvent_controls {fd : Int32} {e : Event} {ret : Int32} {answer : Bool}
    (masked : ∀ p, Masked (io.heap p)) (sole : io.SoleEvent (.cancelEvent fd e ret))
    (done : io.cancelEvent fd e ret = .ok (answer, after)) :
    Controls io after ret (io.asks (.cancelEvent fd e ret)) := by
  refine withContext_controls done fun p covered found body => ?_
  split at body
  case isFalse unset =>
    cases body
    simp [Controls, unset]
  case isTrue set =>
    rw [if_pos set]
    by_cases accepted : ret = 0
    · subst accepted
      have alone := sole_mask (masked p) set (sole p (by
        simp [IOManager.triggersOn, covered, found, set]))
      rw [cancelEvent_set covered found set] at done
      simp only [alone] at done ⊢
      split at done
      · cases done
      · cases done
        exact Or.inr ⟨rfl, p, (io.heap p).fired e, _, found, by simp, rfl, rfl, rfl,
          fired_registered _ e⟩
    · rw [if_pos accepted] at body
      cases body
      exact Or.inl ⟨accepted, rfl⟩

/-- One context is written, and nothing else of the table. -/
structure Writes (p : Ptr) (base after : IOManager) : Prop where
  table : after.m_fdContexts = base.m_fdContexts
  epoll : after.epoll = base.epoll
  heap : ∃ ctx, ctx.fd = (base.heap p).fd ∧ after.heap = Function.update base.heap p ctx

theorem Writes.refl (p : Ptr) (base : IOManager) : Writes p base base :=
  ⟨rfl, rfl, base.heap p, rfl, (Function.update_eq_self p base.heap).symm⟩

theorem Writes.trans {p : Ptr} {base middle : IOManager} (first : Writes p base middle)
    (second : Writes p middle after) : Writes p base after := by
  rcases first.heap with ⟨ctx, same_fd, heap⟩
  rcases second.heap with ⟨later, later_fd, later_heap⟩
  refine ⟨second.table.trans first.table, second.epoll.trans first.epoll, later, ?_, ?_⟩
  · rw [later_fd, heap, Function.update_self, same_fd]
  · rw [later_heap, heap, Function.update_idem]

theorem triggerAndCount_writes {p : Ptr} {e : Event} (done : io.triggerAndCount p e = .ok after) :
    Writes p io after := by
  rcases triggerAndCount_fires done with ⟨scheduler, _, rfl⟩
  exact ⟨rfl, rfl, _, FdContext.fired_fd _ e, rfl⟩

theorem triggerIfSet_writes {p : Ptr} {e : Event} (done : io.triggerIfSet p e = .ok after) :
    Writes p io after := by
  rcases triggerIfSet_cases done with ⟨rfl, _⟩ | fired
  · exact Writes.refl p _
  · exact triggerAndCount_writes fired

/-- An fd is removed, and its context is left with no event. -/
theorem controls_removed {fd : Int32} {p : Ptr} {event : EpollEvent}
    (found : io.context fd = some p) (writes : Writes p (io.epollCtl .del fd event) after)
    (cleared : (after.heap p).registered = false) : Controls io after 0 (some (.del, fd)) := by
  rcases writes.heap with ⟨ctx, same_fd, heap⟩
  refine Or.inr ⟨rfl, p, ctx, 0, found, same_fd, writes.table, heap, writes.epoll, ?_⟩
  rw [heap, Function.update_self] at cleared
  exact cleared

theorem cancelAll_controls {fd ret : Int32} {answer : Bool}
    (done : io.cancelAll fd ret = .ok (answer, after)) :
    Controls io after ret (io.asks (.cancelAll fd ret)) := by
  refine withContext_controls done fun p _ found body => ?_
  split at body
  case isTrue zero =>
    cases body
    rw [if_pos zero]
    rfl
  case isFalse nonzero =>
    rw [if_neg nonzero]
    split at body
    case isTrue refused =>
      cases body
      exact Or.inl ⟨refused, rfl⟩
    case isFalse accepted =>
      obtain rfl : ret = 0 := not_not.mp accepted
      dsimp only at body
      split at body
      case h_1 => cases body
      case h_2 left triggered =>
        split at body
        case isFalse => cases body
        case isTrue zero =>
          cases body
          rcases bind_done triggered with ⟨middle, first, second⟩
          refine controls_removed found
            ((triggerIfSet_writes first).trans (triggerIfSet_writes second)) ?_
          rw [registered_false_iff]
          intro e
          simp [FdContext.has, zero]

theorem realEvts_cases (reported : Mask) :
    IOManager.realEvts reported = 0 ∨ IOManager.realEvts reported = Event.read.bits ∨
      IOManager.realEvts reported = Event.write.bits ∨
      IOManager.realEvts reported = Event.read.bits ||| Event.write.bits := by
  unfold IOManager.realEvts
  split
  · split
    · exact Or.inr (Or.inr (Or.inr rfl))
    · exact Or.inr (Or.inl rfl)
  · split
    · exact Or.inr (Or.inr (Or.inl rfl))
    · exact Or.inl rfl

/-- The two tests of a report come to one trigger at most. -/
theorem reported_fires {p : Ptr} {real_evts : Mask}
    (done : (io.triggerIfReal p real_evts .read).bind (·.triggerIfReal p real_evts .write) =
      .ok after) :
    real_evts &&& Event.read.bits = 0 ∧ real_evts &&& Event.write.bits = 0 ∨
      ∃ e, real_evts &&& e.bits ≠ 0 ∧ io.triggerAndCount p e = .ok after := by
  rcases bind_done done with ⟨middle, first, second⟩
  rcases triggerIfReal_cases first with ⟨rfl, absent⟩ | ⟨named, fired⟩
  · rcases triggerIfReal_cases second with ⟨rfl, missing⟩ | ⟨named, fired⟩
    · exact Or.inl ⟨absent, missing⟩
    · exact Or.inr ⟨.write, named, fired⟩
  · rcases triggerIfReal_cases second with ⟨rfl, _⟩ | ⟨_, again⟩
    · exact Or.inr ⟨.read, named, fired⟩
    · rw [triggerAndCount_clear _ _ _ (fires_once fired .write)] at again
      cases again

/-- A report of a context with one event is handled only where it names that event. -/
theorem dispatch_controls {p : Ptr} {reported : Mask} {ret : Int32}
    (masked : ∀ p, Masked (io.heap p)) (placed : Placed io)
    (sole : io.SoleEvent (.dispatch p reported ret))
    (done : io.dispatch p reported ret = .ok after) :
    Controls io after ret (io.asks (.dispatch p reported ret)) := by
  simp only [IOManager.SoleEvent, IOManager.triggersOn] at sole
  simp only [IOManager.dispatch] at done
  simp only [IOManager.asks]
  have values := realEvts_cases (IOManager.widen (io.heap p) reported)
  generalize IOManager.realEvts (IOManager.widen (io.heap p) reported) = real_evts at *
  split at done
  case isTrue irrelevant =>
    cases done
    rw [if_pos irrelevant]
    rfl
  case isFalse relevant =>
    rw [if_neg relevant]
    split at done
    case isTrue refused =>
      cases done
      exact Or.inl ⟨refused, rfl⟩
    case isFalse accepted =>
      obtain rfl : ret = 0 := not_not.mp accepted
      have alone := sole p (by rw [if_pos ⟨relevant, rfl⟩]; rfl)
      rcases reported_fires done with ⟨absent, missing⟩ | ⟨e, named, fired⟩
      · rcases values with rfl | rfl | rfl | rfl
        · simp at relevant
        · cases absent
        · cases missing
        · cases absent
      · rcases triggerAndCount_fires fired with ⟨scheduler, able, same⟩
        have set : (io.heap p).has e = true := able.1
        have within : e.bits &&& ~~~real_evts = 0 := by
          rcases values with rfl | rfl | rfl | rfl
          · simp at named
          · cases e <;> first | rfl | exact absurd rfl named
          · cases e <;> first | rfl | exact absurd rfl named
          · cases e <;> rfl
        have left : (io.heap p).events &&& ~~~real_evts = 0 := by
          rw [← and_of_inside (sole_mask (masked p) set alone), BitVec.and_assoc, within]
          simp
        have removed : (if (io.heap p).events &&& ~~~real_evts ≠ 0 then EpollCtlOp.mod else .del) =
            .del := by
          rw [left]
          rfl
        rw [removed] at fired ⊢
        refine controls_removed (placed p e set) (triggerAndCount_writes fired) ?_
        rw [registered_false_iff]
        exact fires_once fired

theorem addEvent_controls {caller : Caller} {fd : Int32} {e : Event} {cb : Option Func}
    {ret answer : Int32} (done : io.addEvent caller fd e cb ret = .ok (answer, after)) :
    Controls (io.enlarged fd) after ret (io.asks (.addEvent caller fd e cb ret)) := by
  have table : (if io.covers fd then io else io.contextResize (IOManager.grown fd)) =
      io.enlarged fd := rfl
  unfold IOManager.addEvent at done
  unfold IOManager.asks
  rw [table] at done
  dsimp only at done ⊢
  generalize io.enlarged fd = base at done ⊢
  cases found : base.context fd with
  | none => simp [found] at done
  | some p =>
      simp only [found] at done
      simp only [Option.bind_some]
      split at done
      case isTrue => cases done
      case isFalse clear =>
        rw [if_neg clear]
        split at done
        case isTrue refused =>
          cases done
          exact Or.inl ⟨refused, rfl⟩
        case isFalse accepted =>
          obtain rfl : ret = 0 := not_not.mp accepted
          rcases install_registers (by exact found) (by exact Bool.eq_false_iff.mpr clear) done with
            ⟨able, same⟩
          have set : ((base.heap p).enroll e ((awaiting caller cb).slot caller.scheduler)).has e =
              true := by
            rw [FdContext.enroll_has _ _ _ _ able.2.1]
            simp
          subst same
          have kept : (if (base.heap p).events ≠ 0 then EpollCtlOp.mod else .add) ≠ .del := by
            split <;> decide
          refine Or.inr ⟨rfl, p, _, _, found, FdContext.enroll_fd .., rfl, rfl, rfl, ?_⟩
          rw [if_neg kept]
          refine ⟨registered_of_has set, fun e' listed => ?_⟩
          have covers := has_covers listed
          rw [FdContext.enroll, FdContext.setEventContext_events] at covers
          rw [BitVec.or_assoc, BitVec.or_comm]
          exact or_covers EPOLLIN covers

end Steps

/-! Runs. -/

/-- The table grows with nothing registered in it, and nothing is triggered on a
context with both events set. -/
def IOManager.Safe (io : IOManager) (op : Op) : Prop := io.SafeRebuild op ∧ io.SoleEvent op

instance IOManager.Safe.decidable (io : IOManager) (op : Op) : Decidable (io.Safe op) :=
  inferInstanceAs (Decidable (_ ∧ _))

section Runs
variable {io : IOManager}

theorem placed_of_reach (reached : Reach ioManager IOManager.Safe io) :
    Laid io ∧ Placed io ∧ ∀ p, Masked (io.heap p) := by
  have onMoves := reach_moves_clean_sole reached
  exact ⟨reach_laid onMoves, reach_placed (fun _ _ guarded => guarded.1) onMoves,
    reach_masked onMoves⟩

theorem enlarged_clear {fd : Int32} (caller : Caller) (e : Event) (cb : Option Func) (ret : Int32)
    (safe : io.SafeRebuild (.addEvent caller fd e cb ret)) (uncovered : io.covers fd = false) :
    ∀ p ∈ io.m_fdContexts, (io.heap p).registered = false :=
  safe (by rw [IOManager.rebuilds, uncovered]; rfl)

theorem Watched.enlarged (watched : Watched io) (placed : Placed io) {caller : Caller} {fd : Int32}
    {e : Event} {cb : Option Func} {ret : Int32}
    (safe : io.SafeRebuild (.addEvent caller fd e cb ret)) : Watched (io.enlarged fd) := by
  unfold IOManager.enlarged
  cases covered : io.covers fd with
  | true => exact watched
  | false => exact watched.contextResize placed _ (enlarged_clear caller e cb ret safe covered)

theorem enlarged_laid (laid : Laid io) (fd : Int32) : Laid (io.enlarged fd) := by
  unfold IOManager.enlarged
  split
  · exact laid
  · exact ⟨_, contextResize_laid io (grown_bound fd)⟩

theorem enlarged_masked (masked : ∀ p, Masked (io.heap p)) (fd : Int32) (p : Ptr) :
    Masked ((io.enlarged fd).heap p) := by
  unfold IOManager.enlarged
  split
  · exact masked p
  · simp only [IOManager.contextResize]
    split
    · unfold Masked
      simp
    · exact masked p

theorem Watched.absent_iff (watched : Watched io) (laid : Laid io)
    (masked : ∀ p, Masked (io.heap p)) {fd : Int32} {p : Ptr} (found : io.context fd = some p) :
    io.epoll fd = none ↔ (io.heap p).events = 0 := by
  rw [events_zero_iff (masked p)]
  constructor
  · intro absent
    rw [registered_false_iff]
    intro e
    cases set : (io.heap p).has e with
    | false => rfl
    | true =>
        rcases watched.contexts p e set with ⟨event, present, _⟩
        rw [context_fd laid found, absent] at present
        cases present
  · intro clear
    cases present : io.epoll fd with
    | none => rfl
    | some event =>
        rcases watched.entries fd event present with ⟨owned, registered⟩
        rw [found] at owned
        rw [← Option.some.inj owned, clear] at registered
        cases registered

theorem Watched.present (watched : Watched io) (laid : Laid io) (masked : ∀ p, Masked (io.heap p))
    {fd : Int32} {p : Ptr} (found : io.context fd = some p) (nonzero : (io.heap p).events ≠ 0)
    (ctl : EpollCtlOp) (kept : ctl ≠ .add) : ctl = .add ↔ io.epoll fd = none := by
  rw [watched.absent_iff laid masked found]
  exact ⟨fun same => absurd same kept, fun zero => absurd zero nonzero⟩

theorem Watched.released (watched : Watched io) (laid : Laid io) (masked : ∀ p, Masked (io.heap p))
    {fd at_fd : Int32} {e : Event} {ctl : EpollCtlOp}
    (asked : (if io.covers fd then (io.context fd).bind fun p =>
      if (io.heap p).has e then
        some (if (io.heap p).events &&& ~~~e.bits ≠ 0 then EpollCtlOp.mod else .del, fd)
      else none else none) = some (ctl, at_fd)) : ctl = .add ↔ io.epoll at_fd = none := by
  split at asked
  case isFalse => cases asked
  case isTrue =>
    rcases Option.bind_eq_some_iff.mp asked with ⟨p, found, request⟩
    split at request
    case isFalse => cases request
    case isTrue set =>
      cases request
      refine watched.present laid masked found (events_of_has set) _ ?_
      split <;> decide

/-- An operation of a run asks for what the list is ready for. -/
theorem Watched.accepted (watched : Watched io) (laid : Laid io) (placed : Placed io)
    (masked : ∀ p, Masked (io.heap p)) {op : Op} (safe : io.SafeRebuild op) : io.Accepted op := by
  intro ctl fd asked
  cases op with
  | addEvent caller fd' e cb ret =>
      rcases Option.bind_eq_some_iff.mp asked with ⟨p, found, request⟩
      dsimp only at request
      split at request
      case isTrue => cases request
      case isFalse =>
        cases request
        have after := watched.enlarged placed safe
        have list : (io.enlarged fd).epoll fd = io.epoll fd := by
          unfold IOManager.enlarged
          split <;> rfl
        rw [← list, after.absent_iff (enlarged_laid laid fd) (enlarged_masked masked fd) found]
        split
        · rename_i nonzero
          exact ⟨fun same => absurd same (by decide), fun zero => absurd zero nonzero⟩
        · rename_i zero
          exact ⟨fun _ => not_not.mp zero, fun _ => rfl⟩
  | delEvent fd' e ret => exact watched.released laid masked asked
  | cancelEvent fd' e ret => exact watched.released laid masked asked
  | cancelAll fd' ret =>
      simp only [IOManager.asks] at asked
      split at asked
      case isFalse => cases asked
      case isTrue =>
        rcases Option.bind_eq_some_iff.mp asked with ⟨p, found, request⟩
        split at request
        case isTrue => cases request
        case isFalse nonzero =>
          cases request
          exact watched.present laid masked found nonzero _ (by decide)
  | dispatch p reported ret =>
      simp only [IOManager.asks] at asked
      split at asked
      case isTrue => cases asked
      case isFalse relevant =>
        cases asked
        have nonzero : (io.heap p).events ≠ 0 := fun zero => relevant (by rw [zero]; simp)
        have registered : (io.heap p).registered = true := by
          rw [← Bool.not_eq_false, ← events_zero_iff (masked p)]
          exact nonzero
        have ⟨e, set⟩ : ∃ e, (io.heap p).has e = true := by
          rcases Bool.or_eq_true_iff.mp registered with read | write
          · exact ⟨.read, read⟩
          · exact ⟨.write, write⟩
        refine watched.present laid masked (placed p e set) nonzero _ ?_
        split <;> decide

theorem enlarged_epoll (fd : Int32) : (io.enlarged fd).epoll = io.epoll := by
  unfold IOManager.enlarged
  split <;> rfl

theorem Watched.step {after : IOManager} {op : Op} (watched : Watched io) (laid : Laid io)
    (placed : Placed io) (masked : ∀ p, Masked (io.heap p)) (safe : io.Safe op)
    (done : io.perform op = .ok after) :
    Watched after ∧ Obeys io after op.ret (io.asks op) := by
  cases op with
  | addEvent caller fd e cb ret =>
      rcases map_done done with ⟨⟨answer, _⟩, completed, rfl⟩
      have outcome := addEvent_controls completed
      exact ⟨(watched.enlarged placed safe.1).controls (enlarged_laid laid fd) outcome,
        outcome.obeys (enlarged_epoll fd)⟩
  | delEvent fd e ret =>
      rcases map_done done with ⟨⟨answer, _⟩, completed, rfl⟩
      have outcome := delEvent_controls masked completed
      exact ⟨watched.controls laid outcome, outcome.obeys rfl⟩
  | cancelEvent fd e ret =>
      rcases map_done done with ⟨⟨answer, _⟩, completed, rfl⟩
      have outcome := cancelEvent_controls masked safe.2 completed
      exact ⟨watched.controls laid outcome, outcome.obeys rfl⟩
  | cancelAll fd ret =>
      rcases map_done done with ⟨⟨answer, _⟩, completed, rfl⟩
      have outcome := cancelAll_controls completed
      exact ⟨watched.controls laid outcome, outcome.obeys rfl⟩
  | dispatch p reported ret =>
      have outcome := dispatch_controls masked placed safe.2 done
      exact ⟨watched.controls laid outcome, outcome.obeys rfl⟩

theorem reach_watched (reached : Reach ioManager IOManager.Safe io) : Watched io := by
  refine reached.invariant Watched ?_ ?_
  · rintro state rfl
    constructor
    · intro fd event present
      cases present
    · intro p e set
      have unset := contextResize_has {} 32 p e set
      simp [FdContext.has] at unset
  · intro before op after prior watched safe moved
    rcases placed_of_reach prior with ⟨laid, placed, masked⟩
    exact (watched.step laid placed masked safe (ioManager_step moved)).1

/-- The kernel's list and the table agree; whatever operation comes next asks for what
the kernel accepts, and changes the list as it asks. -/
theorem interest_list_agrees (reached : Reach ioManager IOManager.Safe io) :
    Watched io ∧ ∀ op, io.Safe op → io.Accepted op ∧
      ∀ after, io.perform op = .ok after → Obeys io after op.ret (io.asks op) := by
  rcases placed_of_reach reached with ⟨laid, placed, masked⟩
  have watched := reach_watched reached
  exact ⟨watched, fun op safe => ⟨watched.accepted laid placed masked safe.1,
    fun after done => (watched.step laid placed masked safe done).2⟩⟩

theorem interest_list_agrees_run :
    ∃ io, run ioManager IOManager.constructed
        [.addEvent (threadFiber 7) 40 .read none 0, .addEvent (threadFiber 8) 40 .write none 0,
          .delEvent 40 .read 0, .cancelEvent 40 .write 0,
          .addEvent (threadFiber 9) 5 .read none 0] = some io ∧
      (Watched io ∧ ∀ op, io.Safe op → io.Accepted op ∧
        ∀ after, io.perform op = .ok after → Obeys io after op.ret (io.asks op)) :=
  run_meets IOManager.Safe rfl (by decide) (by decide) fun _ reached =>
    interest_list_agrees reached

/-- A trigger on a context with both events leaves the fd in the list, and the next
`addEvent` asks to add it again. -/
example :
    (run ioManager IOManager.constructed
      [.addEvent (threadFiber 7) 3 .read none 0, .addEvent (threadFiber 8) 3 .write none 0,
        .cancelEvent 3 .read 0]).map (fun io =>
          (io.asks (.addEvent (threadFiber 7) 3 .read none 0), (io.epoll 3).isSome)) =
      some (some (.add, 3), true) := by decide

end Runs

end Ztyco.EventTable
