import Mathlib.Data.List.Forall2
import Ztyco.EventContexts

/-!
The idle loop's handling of one epoll report. Which events are reported is
read off the widened report; which of them are registered is read off the
context. `addEvent` and `cancelEvent` ask epoll for EPOLLIN also where only
WRITE is registered, and `triggerEvent` clears both bits, so a report of both
events never survives: one of the two triggers meets a clear bit.
-/

namespace Ztyco.EventTable

open Transition

def IOManager.reports (io : IOManager) (p : Ptr) (reported : Mask) (e : Event) : Bool :=
  realEvts (widen (io.heap p) reported) &&& e.bits != 0

def IOManager.due (io : IOManager) (p : Ptr) (reported : Mask) : List Event :=
  [Event.read, Event.write].filter fun e => (io.heap p).has e && io.reports p reported e

/-- The dispatch completes, and its calls of `schedule()` are one for each due
event, in order, with the scheduler and the waiter stored for it. -/
def TriggersExactly (io : IOManager) (p : Ptr) (reported : Mask) (ret : Int32) : Prop :=
  ∃ io' new, io.dispatch p reported ret = .ok io' ∧ io'.log = io.log ++ new ∧
    List.Forall₂ (fun e happening => ∃ scheduler waiter,
      happening = .scheduled (io.heap p).fd e scheduler waiter ∧
        (io.heap p).slot e = Waiter.slot (some scheduler) waiter) (io.due p reported) new

/-- Nothing is due, or `epoll_ctl` succeeds, at most one event is reported and
the due event was registered on a thread with a scheduler. -/
def DispatchSafe (io : IOManager) (p : Ptr) (reported : Mask) (ret : Int32) : Prop :=
  io.due p reported = [] ∨
    ret = 0 ∧ ¬ (io.reports p reported .read = true ∧ io.reports p reported .write = true) ∧
      ∀ e ∈ io.due p reported, ((io.heap p).slot e).scheduler.isSome

theorem real_evts_and (events reported : Mask) :
    events &&& IOManager.realEvts reported = 0 ↔
      ∀ e ∈ [Event.read, Event.write],
        ((events &&& e.bits != 0) && (IOManager.realEvts reported &&& e.bits != 0)) = false := by
  have split : ∀ left right : Mask, events &&& (left ||| right) = 0#32 ↔
      events &&& left = 0#32 ∧ events &&& right = 0#32 := fun left right => by
    rw [BitVec.and_or_distrib_left, BitVec.or_eq_zero_iff]
  simp only [IOManager.realEvts, BitVec.ofNat_eq_ofNat, split]
  by_cases inbound : reported &&& EPOLLIN = 0#32 <;>
    by_cases outbound : reported &&& EPOLLOUT = 0#32 <;>
      simp [inbound, outbound, Event.bits]

section Dispatch
variable {io : IOManager} {p : Ptr} {reported : Mask}

theorem due_empty_iff : (io.heap p).events &&&
    IOManager.realEvts (IOManager.widen (io.heap p) reported) = 0 ↔ io.due p reported = [] := by
  rw [real_evts_and]
  simp [IOManager.due, IOManager.reports, FdContext.has, List.filter_eq_nil_iff]

theorem due_has {e : Event} (due : e ∈ io.due p reported) :
    (io.heap p).has e = true ∧ io.reports p reported e = true := by
  simpa using (List.mem_filter.mp due).2

theorem dispatch_skips (nothing : io.due p reported = []) (ret : Int32) :
    io.dispatch p reported ret = .ok io := by
  simp only [IOManager.dispatch]
  rw [if_pos (due_empty_iff.mpr nothing)]

/-- A failed `epoll_ctl` skips the report, whatever is due. -/
theorem dispatch_refused {ret : Int32} (refused : ret ≠ 0) :
    io.dispatch p reported ret = .ok io := by
  simp only [IOManager.dispatch, if_pos refused, ite_self]

theorem dispatch_triggers (some_due : io.due p reported ≠ []) :
    ∃ rearmed : IOManager, rearmed.heap = io.heap ∧ rearmed.log = io.log ∧
      io.dispatch p reported 0 =
        (rearmed.triggerIfReal p
          (IOManager.realEvts (IOManager.widen (io.heap p) reported)) .read).bind
            (·.triggerIfReal p
              (IOManager.realEvts (IOManager.widen (io.heap p) reported)) .write) := by
  let real_evts := IOManager.realEvts (IOManager.widen (io.heap p) reported)
  let evts_left := (io.heap p).events &&& ~~~real_evts
  refine ⟨io.epollCtl (if evts_left ≠ 0 then .mod else .del) (io.heap p).fd
    ⟨evts_left ||| EPOLLET, p⟩, rfl, rfl, ?_⟩
  simp only [IOManager.dispatch]
  rw [if_neg (fun none => some_due (due_empty_iff.mp none)), if_neg (by decide)]

/-- A report of both events is never handled: whichever is registered, one of
the two triggers meets a clear bit. -/
theorem dispatch_both_fails {rearmed : IOManager} {real_evts : Mask}
    (read : real_evts &&& Event.read.bits ≠ 0) (write : real_evts &&& Event.write.bits ≠ 0)
    {io' : IOManager} (done : (rearmed.triggerIfReal p real_evts .read).bind
      (·.triggerIfReal p real_evts .write) = .ok io') : False := by
  obtain ⟨middle, first, second⟩ := bind_done done
  simp only [IOManager.triggerIfReal, if_pos read, if_pos write] at first second
  rw [triggerAndCount_clear _ _ _ (fires_once first .write)] at second
  cases second

/-- With one event reported, the dispatch is the trigger of that event. -/
theorem dispatch_single {rearmed : IOManager} {real_evts : Mask} {e : Event}
    (named : real_evts &&& e.bits ≠ 0)
    (alone : ¬ (real_evts &&& Event.read.bits ≠ 0 ∧ real_evts &&& Event.write.bits ≠ 0)) :
    (rearmed.triggerIfReal p real_evts .read).bind (·.triggerIfReal p real_evts .write) =
      rearmed.triggerAndCount p e := by
  cases e with
  | none => exact absurd (by simp [Event.bits]) named
  | read =>
      have absent : ¬ real_evts &&& Event.write.bits ≠ 0 := fun write => alone ⟨named, write⟩
      simp only [IOManager.triggerIfReal, if_pos named, if_neg absent]
      cases rearmed.triggerAndCount p .read <;> rfl
  | write =>
      have absent : ¬ real_evts &&& Event.read.bits ≠ 0 := fun read => alone ⟨read, named⟩
      simp only [IOManager.triggerIfReal, if_pos named, if_neg absent]
      rfl

theorem due_single {e : Event} (due : e ∈ io.due p reported)
    (alone : ¬ (io.reports p reported .read = true ∧ io.reports p reported .write = true)) :
    io.due p reported = [e] := by
  have facts := due_has due
  cases e with
  | none => simp at facts
  | read =>
      have absent : io.reports p reported .write = false :=
        Bool.eq_false_iff.mpr fun write => alone ⟨facts.2, write⟩
      simp [IOManager.due, facts.1, facts.2, absent]
  | write =>
      have absent : io.reports p reported .read = false :=
        Bool.eq_false_iff.mpr fun read => alone ⟨read, facts.2⟩
      simp [IOManager.due, facts.1, facts.2, absent]

end Dispatch

theorem triggers_of_safe {io : IOManager} {p : Ptr} {reported : Mask} {ret : Int32}
    (slotted : Slotted (io.heap p)) (safe : DispatchSafe io p reported ret) :
    TriggersExactly io p reported ret := by
  by_cases nothing : io.due p reported = []
  · exact ⟨io, [], dispatch_skips nothing ret, by simp, by rw [nothing]; exact .nil⟩
  rcases safe with none | ⟨rfl, alone, threaded⟩
  · contradiction
  obtain ⟨e, due⟩ := List.exists_mem_of_ne_nil _ nothing
  have facts := due_has due
  obtain ⟨scheduler, waiter, stored⟩ := (slotted e).2 facts.1
  have named : scheduler.isSome := by
    simpa [stored] using threaded e due
  obtain ⟨s, rfl⟩ := Option.isSome_iff_exists.mp named
  obtain ⟨rearmed, heap, log, handled⟩ := dispatch_triggers nothing
  rw [dispatch_single (bne_iff_ne.mp facts.2) (by simpa [IOManager.reports] using alone),
    triggerAndCount_set rearmed p e (by rw [heap]; exact facts.1), heap, stored,
    Waiter.slot_scheduler] at handled
  refine ⟨_, [.scheduled (io.heap p).fd e s waiter], handled, ?_, ?_⟩
  · simp [Move.effect, heap, log, stored]
  · rw [due_single due alone]
    exact .cons ⟨s, waiter, rfl, stored⟩ .nil

theorem safe_of_triggers {io : IOManager} {p : Ptr} {reported : Mask} {ret : Int32}
    (triggers : TriggersExactly io p reported ret) : DispatchSafe io p reported ret := by
  by_cases nothing : io.due p reported = []
  · exact Or.inl nothing
  obtain ⟨io', new, done, log, calls⟩ := triggers
  -- a refused epoll_ctl skips a report with something due
  have success : ret = 0 := by
    by_contra refused
    rw [dispatch_refused refused] at done
    obtain rfl : io = io' := Except.ok.inj done
    obtain rfl : new = [] := by simpa using log
    exact nothing (List.forall₂_nil_right_iff.mp calls)
  subst success
  obtain ⟨rearmed, heap, _, handled⟩ := dispatch_triggers nothing
  rw [handled] at done
  have alone : ¬ (io.reports p reported .read = true ∧ io.reports p reported .write = true) :=
    fun both => dispatch_both_fails (bne_iff_ne.mp both.1) (bne_iff_ne.mp both.2) done
  refine Or.inr ⟨rfl, alone, fun e due => ?_⟩
  rw [dispatch_single (bne_iff_ne.mp (due_has due).2)
    (by simpa [IOManager.reports] using alone)] at done
  -- the trigger went through the stored scheduler, so it is not null
  obtain ⟨scheduler, able, _⟩ := triggerAndCount_fires done
  rw [← heap, able.2]
  rfl

/-- In every reachable state the handling of a report triggers exactly what is
reported and registered if and only if the report is a safe one. -/
theorem triggers_exactly_iff_safe {io : IOManager} (reached : Reach ioManager anyStep io)
    (p : Ptr) (reported : Mask) (ret : Int32) :
    TriggersExactly io p reported ret ↔ DispatchSafe io p reported ret := by
  have onMoves : Reach moves anyStep io := reach_moves (fun _ _ _ _ _ _ => trivial) reached
  exact ⟨safe_of_triggers, triggers_of_safe (reach_slotted onMoves p)⟩

theorem triggers_exactly_iff_safe_run :
    ∃ io, run ioManager IOManager.constructed
        [.addEvent (threadFiber 7) 3 .read none 0, .addEvent (threadFiber 8) 3 .write none 0] =
          some io ∧ (TriggersExactly io 3 EPOLLOUT 0 ↔ DispatchSafe io 3 EPOLLOUT 0) :=
  run_meets anyStep rfl (by decide) (by decide)
    fun _ reached => triggers_exactly_iff_safe reached 3 EPOLLOUT 0

/-- What the loop promises for every report that epoll may make of an fd: part
of the interest last installed for it, and errors. -/
def DispatchPromise (io : IOManager) : Prop :=
  ∀ fd interest reported, io.epoll fd = some interest →
    reported &&& ~~~(interest.events ||| EPOLLERR ||| EPOLLHUP) = 0 →
      TriggersExactly io interest.ptr reported 0

/-- With WRITE alone registered the interest holds EPOLLIN too. A report of
both ends in `triggerEvent`'s assertion. -/
theorem widened_interest_breaks_dispatch :
    ¬ ∀ io, Reach ioManager (fun _ op => FromScheduler op) io → DispatchPromise io := by
  intro claim
  obtain ⟨io, reached, facts⟩ := reach_where ioManager (fun _ op => FromScheduler op)
    IOManager.constructed [.addEvent (threadFiber 7) 3 .write none 0]
    (fun io => io.epoll 3 = some ⟨EPOLLIN ||| EPOLLOUT, 3⟩ &&
      (io.due 3 (EPOLLIN ||| EPOLLOUT) != []) && io.reports 3 (EPOLLIN ||| EPOLLOUT) .read &&
      io.reports 3 (EPOLLIN ||| EPOLLOUT) .write)
    rfl (by decide) (by decide)
  simp only [Bool.and_eq_true, decide_eq_true_eq, bne_iff_ne] at facts
  obtain ⟨⟨⟨interest, some_due⟩, read⟩, write⟩ := facts
  rcases safe_of_triggers (claim io reached 3 _ (EPOLLIN ||| EPOLLOUT) interest (by decide))
    with nothing | ⟨_, alone, _⟩
  · exact some_due nothing
  · exact alone ⟨read, write⟩

end Ztyco.EventTable
