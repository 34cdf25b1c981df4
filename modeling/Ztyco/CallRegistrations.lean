import Ztyco.DoIo
import Ztyco.EventContexts

/-!
The registrations of the calls of `do_io`. A call has a registration only in
the wait that made it, and a trigger that empties its slot makes it ready.
-/

namespace Ztyco.DoIo

open EventTable (Event FdContext IOManager Ptr)
open Fibers (FiberId)
open Timers (Addr)

def Pc.isWaiting : Pc → Bool
  | .waiting _ _ => true
  | _ => false

/-! The fibers in the slots after one slot has been emptied or filled. -/

theorem fiber_withdraw {heap : Ptr → FdContext} {p q : Ptr} {e e' : Event} {fiber : FiberId}
    (registered : ((Function.update heap q ((heap q).withdraw e') p).slot e).fiber = some fiber) :
    ((heap p).slot e).fiber = some fiber ∧ ¬ (p = q ∧ e = e') := by
  by_cases here : p = q
  · subst here
    rw [Function.update_self, FdContext.withdraw_slot] at registered
    by_cases same : e' = e
    · rw [if_pos same] at registered
      cases registered
    · rw [if_neg same] at registered
      exact ⟨registered, fun both => same both.2.symm⟩
  · rw [Function.update_of_ne here] at registered
    exact ⟨registered, fun both => here both.1⟩

theorem fiber_enroll {heap : Ptr → FdContext} {p q : Ptr} {e e' : Event}
    {ectx : EventTable.EventContext} {fiber : FiberId} (real : e' ≠ .none)
    (registered : ((Function.update heap q ((heap q).enroll e' ectx) p).slot e).fiber =
      some fiber) :
    ((heap p).slot e).fiber = some fiber ∨ p = q ∧ e = e' ∧ ectx.fiber = some fiber := by
  by_cases here : p = q
  · subst here
    rw [Function.update_self, FdContext.enroll_slot _ _ _ _ real] at registered
    by_cases same : e' = e
    · rw [if_pos same] at registered
      exact Or.inr ⟨rfl, same.symm, registered⟩
    · rw [if_neg same] at registered
      exact Or.inl registered
  · rw [Function.update_of_ne here] at registered
    exact Or.inl registered

/-- A call that has a registration waits for it and has not been woken; a call
that has been woken has none. -/
structure Placed (isCall : FiberId → Bool) (w : World) : Prop where
  waits : ∀ p e call, isCall call = true → ((w.io.heap p).slot e).fiber = some call →
    (∃ timer, (w.calls call).pc = .waiting timer p) ∧ (w.calls call).event = e ∧
      call ∉ w.ready
  readied : ∀ call ∈ w.ready, isCall call = true → (w.calls call).pc.isWaiting = true
  once : ∀ call, isCall call = true → w.ready.count call ≤ 1
  named : ∀ call, (w.calls call).pc ≠ .outside → isCall call = true

section Registrations
variable {isCall : FiberId → Bool} {w : World}

theorem Placed.frame {other : World} (placed : Placed isCall w)
    (heap : other.io.heap = w.io.heap) (calls : other.calls = w.calls)
    (ready : other.ready = w.ready) : Placed isCall other := by
  constructor
  · rw [heap, calls, ready]
    exact placed.waits
  · rw [calls, ready]
    exact placed.readied
  · rw [ready]
    exact placed.once
  · rw [calls]
    exact placed.named

theorem Placed.unplaced {call : Call} (placed : Placed isCall w) (named : isCall call = true)
    (awake : (w.calls call).pc.isWaiting = false) (p : Ptr) (e : Event) :
    ((w.io.heap p).slot e).fiber ≠ some call := by
  intro registered
  rcases placed.waits p e call named registered with ⟨⟨timer, waiting⟩, _⟩
  rw [waiting] at awake
  cases awake

theorem Placed.reframe {call : Call} {frame : Frame} (placed : Placed isCall w)
    (named : isCall call = true) (awake : (w.calls call).pc.isWaiting = false) :
    Placed isCall { w with calls := Function.update w.calls call frame } := by
  constructor
  · intro p e other isOther registered
    have different : other ≠ call := by
      rintro rfl
      exact placed.unplaced named awake p e registered
    simpa [different] using placed.waits p e other isOther registered
  · intro other mem isOther
    have waiting := placed.readied other mem isOther
    have different : other ≠ call := by
      rintro rfl
      rw [awake] at waiting
      cases waiting
    simpa [different] using waiting
  · exact placed.once
  · intro other inside
    by_cases same : other = call
    · rw [same]
      exact named
    · exact placed.named other (by simpa [same] using inside)

theorem Placed.shrink {io : IOManager} (placed : Placed isCall w)
    (shrinks : ∀ p e call, isCall call = true → ((io.heap p).slot e).fiber = some call →
      ((w.io.heap p).slot e).fiber = some call) : Placed isCall { w with io := io } := by
  constructor
  · intro p e call named registered
    exact placed.waits p e call named (shrinks p e call named registered)
  · exact placed.readied
  · exact placed.once
  · exact placed.named

theorem Placed.resume {call : Call} {pc : Pc} (placed : Placed isCall w)
    (named : isCall call = true) (woken : call ∈ w.ready) :
    Placed isCall ({ w with ready := w.ready.erase call }.goto call pc) := by
  constructor
  · intro p e other isOther registered
    rcases placed.waits p e other isOther registered with ⟨waiting, event, unready⟩
    have different : other ≠ call := by
      rintro rfl
      exact unready woken
    rw [World.goto_other _ _ different]
    exact ⟨waiting, event, fun mem => unready (List.mem_of_mem_erase mem)⟩
  · intro other mem isOther
    have different : other ≠ call := by
      rintro rfl
      have single := placed.once other isOther
      have left : 0 < (w.ready.erase other).count other := List.count_pos_iff.mpr mem
      rw [List.count_erase_self] at left
      omega
    rw [World.goto_other _ _ different]
    exact placed.readied other (List.mem_of_mem_erase mem) isOther
  · intro other isOther
    have fewer := (List.erase_sublist : (w.ready.erase call).Sublist w.ready).count_le other
    exact Nat.le_trans fewer (placed.once other isOther)
  · intro other inside
    by_cases same : other = call
    · rw [same]
      exact named
    · rw [World.goto_other _ _ same] at inside
      exact placed.named other inside

theorem triggerOnly_heap {io after : IOManager} {p : Ptr} {e : Event}
    (done : triggerOnly io p e = .ok after) :
    after.heap = Function.update io.heap p ((io.heap p).withdraw e) := by
  unfold triggerOnly at done
  dsimp only at done
  split at done
  · split at done
    · cases done
    · split at done
      · cases done
      · cases done
        rfl
  · cases done

/-- A trigger wakes the call that waits in the slot it empties. -/
theorem Placed.trigger {p : Ptr} {e : Event} {after : World} (placed : Placed isCall w)
    (done : w.trigger p e = some after) : Placed isCall after := by
  unfold World.trigger at done
  split at done
  · cases done
  · rename_i io triggered
    have heap := triggerOnly_heap triggered
    cases done
    have left : ∀ p' e' call, ((io.heap p').slot e').fiber = some call →
        ((w.io.heap p').slot e').fiber = some call ∧ ¬ (p' = p ∧ e' = e) := by
      intro p' e' call registered
      rw [heap] at registered
      exact fiber_withdraw registered
    have holder : ∀ call ∈ woken ((w.io.heap p).slot e), isCall call = true →
        (∃ timer, (w.calls call).pc = .waiting timer p) ∧ (w.calls call).event = e ∧
          call ∉ w.ready := by
      intro call mem named
      exact placed.waits p e call named (mem_woken mem)
    constructor
    · intro p' e' call named registered
      rcases left p' e' call registered with ⟨before, elsewhere⟩
      rcases placed.waits p' e' call named before with ⟨⟨timer, waiting⟩, event, unready⟩
      refine ⟨⟨timer, waiting⟩, event, ?_⟩
      intro mem
      rcases List.mem_append.mp mem with mem | mem
      · exact unready mem
      · -- the call waits in one slot, and it is the one that has been emptied
        rcases holder call mem named with ⟨⟨timer', waiting'⟩, event', _⟩
        rw [waiting] at waiting'
        cases waiting'
        exact elsewhere ⟨rfl, event.symm.trans event'⟩
    · intro call mem named
      rcases List.mem_append.mp mem with mem | mem
      · exact placed.readied call mem named
      · rcases holder call mem named with ⟨⟨timer, waiting⟩, _⟩
        simp only [waiting]
        rfl
    · intro call named
      have single := woken_once ((w.io.heap p).slot e) call
      change (w.ready ++ woken ((w.io.heap p).slot e)).count call ≤ 1
      rw [List.count_append]
      by_cases mem : call ∈ woken ((w.io.heap p).slot e)
      · have unready := List.count_eq_zero.mpr (holder call mem named).2.2
        omega
      · have silent := List.count_eq_zero.mpr mem
        have before := placed.once call named
        omega
    · exact placed.named

theorem contextResize_heap (io : IOManager) (size : Nat) (p : Ptr) :
    (io.contextResize size).heap p = io.heap p ∨
      ∃ fd, (io.contextResize size).heap p = { fd := fd } := by
  simp only [IOManager.contextResize]
  split
  · exact Or.inr ⟨_, rfl⟩
  · exact Or.inl rfl

theorem contextResize_fiber {io : IOManager} {size : Nat} {p : Ptr} {e : Event} {fiber : FiberId}
    (registered : (((io.contextResize size).heap p).slot e).fiber = some fiber) :
    ((io.heap p).slot e).fiber = some fiber := by
  rcases contextResize_heap io size p with same | ⟨fd, fresh⟩
  · rwa [same] at registered
  · rw [fresh, EventTable.fresh_slot] at registered
    cases registered

theorem install_answer {io after : IOManager} {caller : EventTable.Caller} {fd : Int32} {p : Ptr}
    {e : Event} {cb : Option Fibers.Func} {answer : Int32}
    (done : io.install caller fd p e cb = .ok (answer, after)) : answer = 0 := by
  unfold IOManager.install at done
  dsimp only at done
  split at done
  · cases done
  · split at done
    · cases done
    · split at done
      · cases done
        rfl
      · split at done
        · cases done
          rfl
        · cases done

/-- `addEvent` may rebuild the table first; then it fails or fills one slot. -/
theorem addEvent_cases {io after : IOManager} {caller : EventTable.Caller} {fd : Int32}
    {e : Event} {ret answer : Int32}
    (done : io.addEvent caller fd e none ret = .ok (answer, after)) :
    ∃ grown : IOManager, (∀ p, grown.heap p = io.heap p ∨ ∃ fd, grown.heap p = { fd := fd }) ∧
      (answer ≠ 0 ∧ after = grown ∨ answer = 0 ∧ e ≠ .none ∧ ∃ p, after.context fd = some p ∧
        after.heap = Function.update grown.heap p
          ((grown.heap p).enroll e ((EventTable.Waiter.fiber caller.fiber).slot
            caller.scheduler))) := by
  rcases EventTable.addEvent_outcome done with ⟨grown, same, p, found, clear, outcome⟩
  have rebuilt : ∀ p, grown.heap p = io.heap p ∨ ∃ fd, grown.heap p = { fd := fd } := by
    intro p
    rw [same]
    split
    · exact Or.inl rfl
    · exact contextResize_heap io _ p
  refine ⟨grown, rebuilt, ?_⟩
  rcases outcome with ⟨_, rfl, rfl⟩ | ⟨_, op, event, installed⟩
  · exact Or.inl ⟨by decide, rfl⟩
  · have answered := install_answer installed
    have registered := EventTable.install_registers (by exact found) (by exact clear) installed
    refine Or.inr ⟨answered, registered.1.2.1, p, ?_, ?_⟩
    · rw [registered.2]
      exact found
    · rw [registered.2]
      rfl

theorem Placed.enroll {call : Call} {timer : Option Addr} {p : Ptr} {io grown : IOManager}
    {ectx : EventTable.EventContext} (placed : Placed isCall w) (named : isCall call = true)
    (awake : (w.calls call).pc.isWaiting = false) (real : (w.calls call).event ≠ .none)
    (rebuilt : ∀ p, grown.heap p = w.io.heap p ∨ ∃ fd, grown.heap p = { fd := fd })
    (filled : io.heap = Function.update grown.heap p
      ((grown.heap p).enroll (w.calls call).event ectx))
    (fiber : ectx.fiber = some call) :
    Placed isCall ({ w with io := io }.goto call (.waiting timer p)) := by
  have unready : call ∉ w.ready := by
    intro mem
    have waiting := placed.readied call mem named
    rw [awake] at waiting
    cases waiting
  have before : ∀ p' e' other, ((io.heap p').slot e').fiber = some other →
      ((w.io.heap p').slot e').fiber = some other ∨
        p' = p ∧ e' = (w.calls call).event ∧ other = call := by
    intro p' e' other registered
    have old : ((grown.heap p').slot e').fiber = some other →
        ((w.io.heap p').slot e').fiber = some other := by
      intro found
      rcases rebuilt p' with same | ⟨fd, fresh⟩
      · rwa [same] at found
      · rw [fresh, EventTable.fresh_slot] at found
        cases found
    rw [filled] at registered
    rcases fiber_enroll real registered with before | ⟨here, same, holds⟩
    · exact Or.inl (old before)
    · rw [fiber] at holds
      exact Or.inr ⟨here, same, (Option.some.inj holds).symm⟩
  constructor
  · intro p' e' other isOther registered
    rcases before p' e' other registered with old | ⟨rfl, rfl, rfl⟩
    · have different : other ≠ call := by
        rintro rfl
        exact placed.unplaced named awake p' e' old
      rw [World.goto_other _ _ different]
      exact placed.waits p' e' other isOther old
    · refine ⟨⟨timer, World.goto_pc _ _ _⟩, ?_, unready⟩
      simp [World.goto]
  · intro other mem isOther
    have different : other ≠ call := by
      rintro rfl
      exact unready mem
    rw [World.goto_other _ _ different]
    exact placed.readied other mem isOther
  · exact placed.once
  · intro other inside
    by_cases same : other = call
    · rw [same]
      exact named
    · rw [World.goto_other _ _ same] at inside
      exact placed.named other inside

end Registrations

end Ztyco.DoIo
