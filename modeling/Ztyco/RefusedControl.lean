import Ztyco.EventPlacement
import Ztyco.SafeDispatch

/-!
The event table where `epoll_ctl` fails. Every operation has an error exit of
its own, and all of them come before the first write but the one of `addEvent`:
by then the table may have been rebuilt, with new contexts for all fds. Nothing
here depends on how the state came about.
-/

namespace Ztyco.EventTable

open Fibers (Func)
open Transition

def IOManager.fdState (io : IOManager) (i : Nat) :
    Option (Mask × EventContext × EventContext) :=
  io.m_fdContexts[i]?.map fun p => ((io.heap p).events, (io.heap p).read, (io.heap p).write)

/-- No trace of a call: the existing fds, the count and what was scheduled are
as before. -/
structure Untouched (before after : IOManager) : Prop where
  contexts : ∀ i, i < before.m_fdContexts.length → after.fdState i = before.fdState i
  pending : after.m_pendingEventCount = before.m_pendingEventCount
  queue : after.log = before.log

def FdContext.Blank (ctx : FdContext) : Prop :=
  ctx.events = 0 ∧ ctx.read = {} ∧ ctx.write = {}

instance FdContext.Blank.decidable (ctx : FdContext) : Decidable ctx.Blank :=
  inferInstanceAs (Decidable (_ ∧ _))

/-- `addEvent` finds a place for the fd, or gets no further than the growth, or
the growth is of a table with nothing in it. -/
def IOManager.Spared (io : IOManager) (fd : Int32) : Prop :=
  io.covers fd = true ∨ IOManager.grown fd ≤ fd.toNatClampNeg ∨
    io.m_fdContexts.length ≤ IOManager.grown fd ∧ ∀ p ∈ io.m_fdContexts, (io.heap p).Blank

instance IOManager.Spared.decidable (io : IOManager) (fd : Int32) : Decidable (io.Spared fd) :=
  inferInstanceAs (Decidable (_ ∨ _))

section Refused
variable {io : IOManager} {fd : Int32} {ret : Int32}

theorem Untouched.refl (io : IOManager) : Untouched io io := ⟨fun _ _ => rfl, rfl, rfl⟩

theorem context_nonneg (nonneg : 0 ≤ fd) (io : IOManager) :
    io.context fd = io.m_fdContexts[fd.toNatClampNeg]? := by
  rw [IOManager.context, if_neg (Int32.not_lt.mpr nonneg)]

/-- The comparison of sizes keeps the index in bounds, also where the size of
the table does not fit an `int`. -/
theorem covers_context (nonneg : 0 ≤ fd) (covered : io.covers fd = true) :
    ∃ p, io.context fd = some p := by
  have below := Int32.lt_iff_toInt_lt.mp (of_decide_eq_true covered)
  have least := Int32.le_iff_toInt_le.mp nonneg
  have zero : (0 : Int32).toInt = 0 := by decide
  have size : (Int32.ofNat io.m_fdContexts.length).toInt =
      (io.m_fdContexts.length : Int).bmod (2 ^ 32) := Int32.toInt_ofNat
  have shrunk : (io.m_fdContexts.length : Int).bmod (2 ^ 32) ≤ io.m_fdContexts.length := by
    rw [Int.bmod_def]
    split <;> omega
  have within : fd.toNatClampNeg < io.m_fdContexts.length := by
    rw [← Int32.toNat_toInt]
    omega
  exact ⟨_, (context_nonneg nonneg io).trans (List.getElem?_eq_getElem within)⟩

theorem withContext_refused (nonneg : 0 ≤ fd)
    {body : Ptr → FdContext → Except Fault (Bool × IOManager)}
    (refused : ∀ p, body p (io.heap p) = .ok (false, io)) :
    io.withContext fd body = .ok (false, io) := by
  unfold IOManager.withContext
  by_cases covered : io.covers fd = true
  · rcases covers_context nonneg covered with ⟨p, found⟩
    simp only [if_pos covered, found]
    exact refused p
  · rw [if_neg covered]

theorem delEvent_refused (nonneg : 0 ≤ fd) (refused : ret ≠ 0) (e : Event) :
    io.delEvent fd e ret = .ok (false, io) := by
  apply withContext_refused nonneg
  intro p
  simp only [if_pos refused, ite_self]

theorem cancelEvent_refused (nonneg : 0 ≤ fd) (refused : ret ≠ 0) (e : Event) :
    io.cancelEvent fd e ret = .ok (false, io) := by
  apply withContext_refused nonneg
  intro p
  simp only [if_pos refused, ite_self]

theorem cancelAll_refused (nonneg : 0 ≤ fd) (refused : ret ≠ 0) :
    io.cancelAll fd ret = .ok (false, io) := by
  apply withContext_refused nonneg
  intro p
  simp only [if_pos refused, ite_self]

theorem addEvent_refused_covered (refused : ret ≠ 0) (covered : io.covers fd = true)
    {caller : Caller} {e : Event} {cb : Option Func} {answer : Int32} {after : IOManager}
    (done : io.addEvent caller fd e cb ret = .ok (answer, after)) : answer = -1 ∧ after = io := by
  rcases addEvent_outcome done with
    ⟨grown, same, _, _, _, ⟨_, answered, rfl⟩ | ⟨succeeded, _⟩⟩
  · rw [if_pos covered] at same
    exact ⟨answered, same⟩
  · exact absurd succeeded refused

theorem addEvent_refused_grown (nonneg : 0 ≤ fd) (refused : ret ≠ 0)
    (uncovered : ¬ io.covers fd = true) (caller : Caller) (e : Event) (cb : Option Func) :
    io.addEvent caller fd e cb ret =
      if IOManager.grown fd ≤ fd.toNatClampNeg then .error .outOfBounds
      else .ok (-1, io.contextResize (IOManager.grown fd)) := by
  have place := context_nonneg nonneg (io.contextResize (IOManager.grown fd))
  have table : (io.contextResize (IOManager.grown fd)).m_fdContexts[fd.toNatClampNeg]? =
      (List.range (IOManager.grown fd))[fd.toNatClampNeg]?.map (io.allocated + ·) :=
    List.getElem?_map
  simp only [IOManager.addEvent, if_neg uncovered, if_pos refused]
  by_cases small : IOManager.grown fd ≤ fd.toNatClampNeg
  · have missing : (List.range (IOManager.grown fd))[fd.toNatClampNeg]? = none :=
      List.getElem?_eq_none (by simpa using small)
    rw [place, table, missing, if_pos small]
    rfl
  · have large := Nat.not_le.mp small
    have found : (io.contextResize (IOManager.grown fd)).m_fdContexts[fd.toNatClampNeg]? =
        some (io.allocated + fd.toNatClampNeg) := by
      rw [table, List.getElem?_range large]
      rfl
    have blank := contextResize_fresh io _ (List.mem_of_getElem? found) e
    rw [place, found, if_neg small]
    simp only [blank, Bool.false_eq_true, ↓reduceIte]

theorem fdState_contextResize (io : IOManager) {size i : Nat} :
    (io.contextResize size).fdState i = if i < size then some (0, {}, {}) else none := by
  unfold IOManager.fdState
  by_cases within : i < size
  · simp [IOManager.contextResize, within]
  · simp [IOManager.contextResize, within]

/-- A rebuilt table is as it was before exactly if it was empty and is as long. -/
theorem resize_untouched_iff (io : IOManager) (size : Nat) :
    Untouched io (io.contextResize size) ↔
      io.m_fdContexts.length ≤ size ∧ ∀ p ∈ io.m_fdContexts, (io.heap p).Blank := by
  have entry : ∀ {i p}, io.m_fdContexts[i]? = some p → io.fdState i =
      some ((io.heap p).events, (io.heap p).read, (io.heap p).write) := by
    intro i p found
    rw [IOManager.fdState, found]
    rfl
  constructor
  · intro untouched
    have same := untouched.contexts
    simp only [fdState_contextResize] at same
    have long : io.m_fdContexts.length ≤ size := by
      by_contra short
      have inside := Nat.not_le.mp short
      have lost := same size inside
      rw [if_neg (Nat.lt_irrefl size), entry (List.getElem?_eq_getElem inside)] at lost
      cases lost
    refine ⟨long, ?_⟩
    intro p mem
    rcases List.getElem?_of_mem mem with ⟨i, found⟩
    have inside := (List.getElem?_eq_some_iff.mp found).1
    have kept := same i inside
    rw [if_pos (Nat.lt_of_lt_of_le inside long), entry found] at kept
    cases contents : io.heap p with
    | mk read write fd events =>
        rw [contents] at kept
        cases kept
        exact ⟨rfl, rfl, rfl⟩
  · rintro ⟨long, blank⟩
    refine ⟨?_, rfl, rfl⟩
    intro i inside
    have found := List.getElem?_eq_getElem inside
    rcases blank _ (List.getElem_mem inside) with ⟨events, read, write⟩
    rw [fdState_contextResize, if_pos (Nat.lt_of_lt_of_le inside long), entry found, events, read,
      write]

end Refused

/-- A failed `epoll_ctl` leaves no trace, but for `addEvent` on an fd the table
has no place for. -/
theorem refused_control_untouched {fd ret : Int32} (nonneg : 0 ≤ fd) (refused : ret ≠ 0)
    (io : IOManager) (caller : Caller) (e : Event) (cb : Option Func) :
    io.delEvent fd e ret = .ok (false, io) ∧ io.cancelEvent fd e ret = .ok (false, io) ∧
      io.cancelAll fd ret = .ok (false, io) ∧
      (∀ p reported, io.dispatch p reported ret = .ok io) ∧
      ((∀ answer after, io.addEvent caller fd e cb ret = .ok (answer, after) →
          answer = -1 ∧ Untouched io after) ↔ io.Spared fd) := by
  refine ⟨delEvent_refused nonneg refused e, cancelEvent_refused nonneg refused e,
    cancelAll_refused nonneg refused, fun _ _ => dispatch_refused refused, ?_⟩
  by_cases covered : io.covers fd = true
  · constructor
    · exact fun _ => Or.inl covered
    · intro _ answer after done
      rcases addEvent_refused_covered refused covered done with ⟨rfl, rfl⟩
      exact ⟨rfl, .refl _⟩
  · have result := addEvent_refused_grown nonneg refused covered caller e cb
    by_cases small : IOManager.grown fd ≤ fd.toNatClampNeg
    · rw [if_pos small] at result
      constructor
      · exact fun _ => Or.inr (Or.inl small)
      · intro _ answer after done
        rw [result] at done
        cases done
    · rw [if_neg small] at result
      rw [result, IOManager.Spared, or_iff_right covered, or_iff_right small,
        ← resize_untouched_iff]
      constructor
      · intro holds
        exact (holds _ _ rfl).2
      · intro untouched answer after done
        cases done
        exact ⟨rfl, untouched⟩

theorem refused_control_untouched_new :
    ∃ after, IOManager.constructed.addEvent (threadFiber 7) 40 .read none 1 = .ok (-1, after) ∧
      Untouched IOManager.constructed after := by
  have nonneg : (0 : Int32) ≤ 40 := by decide
  have refused : (1 : Int32) ≠ 0 := by decide
  have holds := (refused_control_untouched nonneg refused IOManager.constructed (threadFiber 7)
    .read none).2.2.2.2.mpr (by decide)
  have result := addEvent_refused_grown nonneg refused
    (by decide : ¬ IOManager.constructed.covers 40 = true) (threadFiber 7) .read none
  rw [if_neg (by decide)] at result
  exact ⟨_, result, (holds _ _ result).2⟩

/-- With READ of fd 3 registered, a failed `addEvent` at 40 returns -1 and
leaves fd 3 with an empty mask. -/
theorem refused_control_loses_registration :
    ∃ io, Reach ioManager anyStep io ∧ ∃ answer after,
      io.addEvent (threadFiber 8) 40 .read none 1 = .ok (answer, after) ∧
        ¬ (answer = -1 ∧ Untouched io after) := by
  rcases reach_where ioManager anyStep IOManager.constructed
    [.addEvent (threadFiber 7) 3 .read none 0]
    (fun io : IOManager => (io.addEvent (threadFiber 8) 40 .read none 1).toOption.any
      fun result : Int32 × IOManager =>
        decide (3 < io.m_fdContexts.length) && decide (result.2.fdState 3 ≠ io.fdState 3))
    rfl (by decide) (by decide) with ⟨io, reached, lost⟩
  cases result : io.addEvent (threadFiber 8) 40 .read none 1 with
  | error fault =>
      rw [result] at lost
      cases lost
  | ok pair =>
      rw [result] at lost
      rcases Bool.and_eq_true_iff.mp lost with ⟨inside, changed⟩
      refine ⟨io, reached, pair.1, pair.2, result, ?_⟩
      rintro ⟨_, untouched⟩
      exact of_decide_eq_true changed (untouched.contexts 3 (of_decide_eq_true inside))

end Ztyco.EventTable
