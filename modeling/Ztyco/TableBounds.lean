import Ztyco.FdManager
import Ztyco.TableGrowth

/-!
The two tables that are indexed by a file descriptor, each of which is used by one
call after another. The size is checked as an `int`, and a table grows to
`fd * 1.5`. That product has no size when it is negative; the call then goes on to
a negative index.
-/

namespace Ztyco.TableBounds

open Descriptors (FdManager Kernel Small sizeLimit)
open EventTable (AddCall Caller Event Fault FdContext IOManager Mask Op Ptr)
open Transition

structure Tables where
  fdMgr : FdManager := {}
  io : IOManager := .constructed

inductive Call where
  | get (fd : Int32) (auto_create : Bool) (kernel : Kernel)
  | del (fd : Int32)
  | event (op : Op)

def tables : Machine Tables Call where
  initial state := state = {}
  step
    | state, .get fd auto_create kernel =>
        (state.fdMgr.get fd auto_create kernel).map fun (_, fdMgr, _) =>
          { state with fdMgr := fdMgr }
    | state, .del fd => (state.fdMgr.del fd).map fun fdMgr => { state with fdMgr := fdMgr }
    | state, .event op => (state.io.perform op).toOption.map fun io => { state with io := io }

def InBounds (state : Tables) : Call → Prop
  | .get fd auto_create kernel => (state.fdMgr.get fd auto_create kernel).isSome
  | .del fd => (state.fdMgr.del fd).isSome
  | .event op => state.io.perform op ≠ .error .outOfBounds

/-- The number is an index, or the size check turns it away. -/
def Checked (size : Nat) (fd : Int32) : Prop := 0 ≤ fd ∨ Int32.ofNat size ≤ fd

/-- The number is an index of the table, as it is or grown. A table whose size is no
`int` is grown for every number, and that leaves no room for 0 and 1. -/
def Growable (size : Nat) (fd : Int32) : Prop := 0 ≤ fd ∧ (2 ≤ fd ∨ size < sizeLimit)

def Guarded (state : Tables) : Call → Prop
  | .get fd auto_create _ =>
      fd = -1 ∨ if auto_create then Growable state.fdMgr.m_datas.length fd
        else Checked state.fdMgr.m_datas.length fd
  | .del fd => Checked state.fdMgr.m_datas.length fd
  | .event (.addEvent _ fd _ _ _) => Growable state.io.m_fdContexts.length fd
  | .event (.delEvent fd _ _) | .event (.cancelEvent fd _ _) | .event (.cancelAll fd _) =>
      Checked state.io.m_fdContexts.length fd
  | .event (.dispatch _ _ _) => True

structure Sized (size : Nat) : Prop where
  least : 2 ≤ size
  fits : size < 0x100000000

/-! A number that has passed the check, and one that has made the table grow. -/

section Sizes
variable {size : Nat} {fd : Int32}

theorem toInt_index (nonneg : 0 ≤ fd) : fd.toInt = fd.toNatClampNeg := by
  have least := Int32.le_iff_toInt_le.mp nonneg
  rw [← Int32.toNat_toInt, Int.toNat_of_nonneg least]

theorem far_iff (nonneg : 0 ≤ fd) : 2 ≤ fd ↔ 2 ≤ fd.toNatClampNeg := by
  have two : (2 : Int32).toInt = 2 := rfl
  rw [Int32.le_iff_toInt_le, toInt_index nonneg, two]
  omega

/-- A size from 2 ^ 31 on is negative as an `int`, or smaller. -/
theorem toInt_size_le (size : Nat) : (Int32.ofNat size).toInt ≤ size := by
  have range : Int32.size = 4294967296 := rfl
  rw [Int32.toInt_ofNat', Int.bmod, range]
  split
  · omega
  · omega

theorem index_of_passed (nonneg : 0 ≤ fd) (passed : ¬ Int32.ofNat size ≤ fd) :
    fd.toNatClampNeg < size := by
  have below := Int32.lt_iff_toInt_lt.mp (Int32.not_le.mp passed)
  have least := toInt_size_le size
  rw [toInt_index nonneg] at below
  omega

/-- One and a half times 0 or 1 leaves no room for it. -/
theorem index_of_grown (nonneg : 0 ≤ fd) : fd.toNatClampNeg < IOManager.grown fd ↔ 2 ≤ fd := by
  rw [far_iff nonneg]
  unfold IOManager.grown
  omega

theorem checked_of_passed (passed : ¬ Int32.ofNat size ≤ fd) :
    Checked size fd ↔ 0 ≤ fd ∧ fd.toNatClampNeg < size := by
  constructor
  · intro checked
    have nonneg := checked.resolve_right passed
    exact ⟨nonneg, index_of_passed nonneg passed⟩
  · intro index
    exact Or.inl index.1

/-- A size that is negative as an `int` is passed by no number from 0 on. -/
theorem small_of_passed (sized : Sized size) (nonneg : 0 ≤ fd)
    (passed : ¬ Int32.ofNat size ≤ fd) : size < sizeLimit := by
  have below := Int32.lt_iff_toInt_lt.mp (Int32.not_le.mp passed)
  have range : Int32.size = 4294967296 := rfl
  have fits := sized.fits
  rw [toInt_index nonneg, Int32.toInt_ofNat', Int.bmod, range] at below
  unfold sizeLimit
  split at below
  · omega
  · omega

theorem growable_of_passed (sized : Sized size) (passed : ¬ Int32.ofNat size ≤ fd) :
    Growable size fd ↔ 0 ≤ fd ∧ fd.toNatClampNeg < size := by
  constructor
  · intro growable
    exact ⟨growable.1, index_of_passed growable.1 passed⟩
  · rintro ⟨nonneg, _⟩
    exact ⟨nonneg, Or.inr (small_of_passed sized nonneg passed)⟩

theorem growable_of_past (sized : Sized size) (past : Int32.ofNat size ≤ fd) :
    Growable size fd ↔ 0 ≤ fd ∧ fd.toNatClampNeg < IOManager.grown fd := by
  constructor
  · rintro ⟨nonneg, far | small⟩
    · exact ⟨nonneg, (index_of_grown nonneg).mpr far⟩
    · have above := Int32.le_iff_toInt_le.mp past
      have least := sized.least
      rw [Int32.toInt_ofNat_of_lt small, toInt_index nonneg] at above
      exact ⟨nonneg, (index_of_grown nonneg).mpr ((far_iff nonneg).mpr (by omega))⟩
  · rintro ⟨nonneg, room⟩
    exact ⟨nonneg, Or.inl ((index_of_grown nonneg).mp room)⟩

theorem sized_grown (far : 2 ≤ fd) : Sized (IOManager.grown fd) := by
  have nonneg : 0 ≤ fd := Int32.le_trans (by decide) far
  have least := (far_iff nonneg).mp far
  have bounded := Int32.toNatClampNeg_lt fd
  unfold IOManager.grown
  constructor
  · omega
  · omega

end Sizes

theorem index_isSome_iff {α : Type} {fd : Int32} (slots : List α) :
    (if fd < 0 then none else slots[fd.toNatClampNeg]?).isSome = true ↔
      0 ≤ fd ∧ fd.toNatClampNeg < slots.length := by
  by_cases negative : fd < 0
  · rw [if_pos negative]
    constructor
    · intro found
      cases found
    · intro index
      exact absurd negative (Int32.not_lt.mpr index.1)
  · rw [if_neg negative, isSome_getElem?]
    exact (and_iff_right (Int32.not_lt.mp negative)).symm

/-! FdManager. -/

section FdManager
variable {mgr : FdManager} {fd : Int32}

theorem slot_isSome_iff :
    (mgr.slot fd).isSome = true ↔ 0 ≤ fd ∧ fd.toNatClampNeg < mgr.m_datas.length :=
  index_isSome_iff mgr.m_datas

theorem assign_isSome_iff (ctx : Option Ptr) :
    (mgr.assign fd ctx).isSome = true ↔ 0 ≤ fd ∧ fd.toNatClampNeg < mgr.m_datas.length := by
  rw [← slot_isSome_iff, FdManager.assign]
  split
  · rename_i found
    exact iff_of_true rfl found
  · rename_i absent
    exact iff_of_false Bool.false_ne_true absent

theorem beyond_iff_le : mgr.beyond fd = true ↔ Int32.ofNat mgr.m_datas.length ≤ fd :=
  decide_eq_true_iff

theorem del_isSome_iff : (mgr.del fd).isSome = true ↔ Checked mgr.m_datas.length fd := by
  unfold FdManager.del
  by_cases past : mgr.beyond fd = true
  · rw [if_pos past]
    exact iff_of_true rfl (Or.inr (beyond_iff_le.mp past))
  · rw [if_neg past, assign_isSome_iff, checked_of_passed fun le => past (beyond_iff_le.mpr le)]

section Sized
variable (sized : Sized mgr.m_datas.length)
include sized

theorem room_iff :
    0 ≤ fd ∧ fd.toNatClampNeg < (mgr.makeRoom fd).m_datas.length ↔
      Growable mgr.m_datas.length fd := by
  unfold FdManager.makeRoom
  by_cases past : mgr.beyond fd = true
  · rw [if_pos past, growable_of_past sized (beyond_iff_le.mp past), FdManager.length_resize]
  · rw [if_neg past, growable_of_passed sized fun le => past (beyond_iff_le.mpr le)]

theorem create_isSome_iff (kernel : Kernel) :
    (mgr.create fd kernel).isSome = true ↔ Growable mgr.m_datas.length fd := by
  simp only [FdManager.create, Option.isSome_map, assign_isSome_iff]
  exact @room_iff ⟨mgr.m_datas, _, _⟩ fd sized

theorem get_isSome_iff (auto_create : Bool) (kernel : Kernel) :
    (mgr.get fd auto_create kernel).isSome = true ↔
      fd = -1 ∨ if auto_create then Growable mgr.m_datas.length fd
        else Checked mgr.m_datas.length fd := by
  unfold FdManager.get FdManager.lookup
  by_cases invalid : fd = -1
  · rw [if_pos invalid]
    exact iff_of_true rfl (Or.inl invalid)
  rw [if_neg invalid, or_iff_right invalid]
  by_cases past : mgr.beyond fd = true
  · rw [if_pos past]
    cases auto_create with
    | false => exact iff_of_true rfl (Or.inr (beyond_iff_le.mp past))
    | true =>
        simp only [↓reduceIte, Option.isSome_map]
        exact create_isSome_iff sized kernel
  · have passed : ¬ Int32.ofNat mgr.m_datas.length ≤ fd := fun le => past (beyond_iff_le.mpr le)
    rw [if_neg past, checked_of_passed passed, growable_of_passed sized passed, ite_self,
      ← slot_isSome_iff]
    cases found : mgr.slot fd with
    | none => exact Iff.rfl
    | some ctx =>
        refine iff_of_true ?_ rfl
        -- an empty slot is filled in the table as it is
        have index := slot_isSome_iff.mp (Option.isSome_of_eq_some found)
        have growable := (growable_of_passed sized passed).mpr index
        by_cases answered : (ctx.isSome || !auto_create) = true
        · simp only [if_pos answered, Option.isSome_some]
        · simp only [if_neg answered, Option.isSome_map]
          exact (create_isSome_iff sized kernel).mpr growable

end Sized

end FdManager

/-! IOManager. -/

def OtherFault {α : Type} (result : Except Fault α) : Prop := result ≠ .error .outOfBounds

section Faults
variable {α β : Type}

theorem otherFault_ok (value : α) : OtherFault (.ok value) := by
  intro failed
  cases failed

theorem otherFault_error {fault : Fault} (other : fault ≠ .outOfBounds) :
    OtherFault (.error fault : Except Fault α) := by
  intro failed
  cases failed
  exact other rfl

theorem otherFault_bind {f : α → Except Fault β} {result : Except Fault α}
    (first : OtherFault result) (second : ∀ value, OtherFault (f value)) :
    OtherFault (result.bind f) := by
  cases result with
  | ok value => exact second value
  | error fault =>
      refine otherFault_error ?_
      rintro rfl
      exact first rfl

theorem otherFault_map_iff (f : α → β) {result : Except Fault α} :
    OtherFault (result.map f) ↔ OtherFault result := by
  cases result with
  | ok value => exact iff_of_true (otherFault_ok _) (otherFault_ok _)
  | error fault => simp only [OtherFault, Except.map, ne_eq, Except.error.injEq]

end Faults

section IOManager
variable {io : IOManager} {fd : Int32}

theorem context_isSome_iff :
    (io.context fd).isSome = true ↔ 0 ≤ fd ∧ fd.toNatClampNeg < io.m_fdContexts.length :=
  index_isSome_iff io.m_fdContexts

theorem covers_iff : io.covers fd = true ↔ ¬ Int32.ofNat io.m_fdContexts.length ≤ fd := by
  rw [Int32.not_le]
  exact decide_eq_true_iff

theorem indexed_iff {α : Type} (slot : Option Ptr) {body : Ptr → Except Fault α}
    (other : ∀ p, OtherFault (body p)) :
    OtherFault (match slot with | none => .error .outOfBounds | some p => body p) ↔
      slot.isSome = true := by
  cases slot with
  | none => exact iff_of_false (fun other => other rfl) Bool.false_ne_true
  | some p => exact iff_of_true (other p) rfl

theorem triggerEvent_otherFault (p : Ptr) (evt : Event) : OtherFault (io.triggerEvent p evt) := by
  unfold IOManager.triggerEvent
  dsimp only
  split
  · split
    · exact otherFault_error (by decide)
    · split
      · exact otherFault_error (by decide)
      · exact otherFault_ok _
  · exact otherFault_error (by decide)

theorem triggerAndCount_otherFault (p : Ptr) (evt : Event) :
    OtherFault (io.triggerAndCount p evt) :=
  (otherFault_map_iff _).mpr (triggerEvent_otherFault p evt)

theorem triggerIfSet_otherFault (p : Ptr) (e : Event) : OtherFault (io.triggerIfSet p e) := by
  unfold IOManager.triggerIfSet
  split
  · exact triggerAndCount_otherFault p e
  · exact otherFault_ok _

theorem triggerIfReal_otherFault (p : Ptr) (real_evts : Mask) (e : Event) :
    OtherFault (io.triggerIfReal p real_evts e) := by
  unfold IOManager.triggerIfReal
  split
  · exact triggerAndCount_otherFault p e
  · exact otherFault_ok _

theorem install_otherFault (caller : Caller) (p : Ptr) (e : Event) (cb : Option Fibers.Func) :
    OtherFault (io.install caller fd p e cb) := by
  unfold IOManager.install
  dsimp only
  split
  · exact otherFault_error (by decide)
  · split
    · exact otherFault_error (by decide)
    · split
      · exact otherFault_ok _
      · split
        · exact otherFault_ok _
        · exact otherFault_error (by decide)

theorem dispatch_otherFault (p : Ptr) (reported : Mask) (ret : Int32) :
    OtherFault (io.dispatch p reported ret) := by
  unfold IOManager.dispatch
  dsimp only
  split
  · exact otherFault_ok _
  · split
    · exact otherFault_ok _
    · exact otherFault_bind (triggerIfReal_otherFault p _ _)
        fun _ => triggerIfReal_otherFault p _ _

theorem withContext_iff {body : Ptr → FdContext → Except Fault (Bool × IOManager)}
    (other : ∀ p ctx, OtherFault (body p ctx)) :
    OtherFault (io.withContext fd body) ↔ Checked io.m_fdContexts.length fd := by
  unfold IOManager.withContext
  by_cases covered : io.covers fd = true
  · rw [if_pos covered, checked_of_passed (covers_iff.mp covered), ← context_isSome_iff]
    exact indexed_iff (io.context fd) fun p => other p (io.heap p)
  · rw [if_neg covered]
    exact iff_of_true (otherFault_ok _) (Or.inr (Classical.not_not.mp (mt covers_iff.mpr covered)))

theorem delEvent_iff (e : Event) (ret : Int32) :
    OtherFault (io.delEvent fd e ret) ↔ Checked io.m_fdContexts.length fd := by
  refine withContext_iff fun p ctx => ?_
  split
  · dsimp only
    split
    · exact otherFault_ok _
    · split
      · exact otherFault_error (by decide)
      · exact otherFault_ok _
  · exact otherFault_ok _

theorem cancelEvent_iff (e : Event) (ret : Int32) :
    OtherFault (io.cancelEvent fd e ret) ↔ Checked io.m_fdContexts.length fd := by
  refine withContext_iff fun p ctx => ?_
  split
  · dsimp only
    split
    · exact otherFault_ok _
    · exact (otherFault_map_iff _).mpr (triggerAndCount_otherFault p e)
  · exact otherFault_ok _

theorem cancelAll_iff (ret : Int32) :
    OtherFault (io.cancelAll fd ret) ↔ Checked io.m_fdContexts.length fd := by
  refine withContext_iff fun p ctx => ?_
  split
  · exact otherFault_ok _
  · split
    · exact otherFault_ok _
    · dsimp only
      have triggered := otherFault_bind
        (@triggerIfSet_otherFault (io.epollCtl .del fd ⟨0, p⟩) p .read)
        fun io => @triggerIfSet_otherFault io p .write
      split
      · rename_i fault failed
        rw [failed] at triggered
        exact otherFault_error fun same => triggered (congrArg _ same)
      · split
        · exact otherFault_ok _
        · exact otherFault_error (by decide)

theorem addAt_otherFault (call : AddCall) (p : Ptr) (ret : Int32) :
    OtherFault (io.addAt call p ret) := by
  unfold IOManager.addAt
  dsimp only
  split
  · exact otherFault_error (by decide)
  · split
    · exact otherFault_ok _
    · exact install_otherFault _ _ _ _

theorem length_contextResize (size : Nat) : (io.contextResize size).m_fdContexts.length = size := by
  rw [IOManager.contextResize, List.length_map, List.length_range]

theorem length_room (io : IOManager) (fd : Int32) :
    (if io.covers fd then io else io.contextResize (IOManager.grown fd)).m_fdContexts.length =
      if io.covers fd then io.m_fdContexts.length else IOManager.grown fd := by
  split
  · rfl
  · exact length_contextResize _

/-- The size is not checked again after the growth. -/
theorem addEvent_iff (sized : Sized io.m_fdContexts.length) (call : AddCall) (ret : Int32) :
    OtherFault (io.addEvent call.caller call.fd call.e call.cb ret) ↔
      Growable io.m_fdContexts.length call.fd := by
  rw [EventTable.addEvent_eq]
  refine (indexed_iff _ fun p => addAt_otherFault call p ret).trans ?_
  rw [context_isSome_iff, length_room]
  by_cases covered : io.covers call.fd = true
  · rw [if_pos covered, growable_of_passed sized (covers_iff.mp covered)]
  · rw [if_neg covered,
      growable_of_past sized (Classical.not_not.mp (mt covers_iff.mpr covered))]

end IOManager

/-! The sizes that calls leave. -/

def Resized (before : Nat) (fd : Int32) (after : Nat) : Prop :=
  after = before ∨ 2 ≤ fd ∧ after = IOManager.grown fd

theorem length_assign {mgr after : FdManager} {fd : Int32} {ctx : Option Ptr}
    (assigned : mgr.assign fd ctx = some after) : after.m_datas.length = mgr.m_datas.length := by
  rcases FdManager.assign_cases assigned with rfl
  exact List.length_set

theorem del_length {mgr after : FdManager} {fd : Int32} (done : mgr.del fd = some after) :
    after.m_datas.length = mgr.m_datas.length := by
  rcases FdManager.del_cases done with rfl | assigned
  · rfl
  · exact length_assign assigned

theorem create_resized {mgr after : FdManager} {fd : Int32} {kernel kernel' : Kernel} {p : Ptr}
    (done : mgr.create fd kernel = some (p, after, kernel')) :
    Resized mgr.m_datas.length fd after.m_datas.length := by
  simp only [FdManager.create] at done
  rcases Option.map_eq_some_iff.mp done with ⟨_, assigned, same⟩
  cases same
  have index := (assign_isSome_iff _).mp (Option.isSome_of_eq_some assigned)
  unfold Resized
  rw [length_assign assigned]
  unfold FdManager.makeRoom at index ⊢
  split
  · rename_i past
    rw [if_pos past, FdManager.length_resize] at index
    rw [FdManager.length_resize]
    exact Or.inr ⟨(index_of_grown index.1).mp index.2, rfl⟩
  · exact Or.inl rfl

theorem get_resized {mgr after : FdManager} {fd : Int32} {auto_create : Bool}
    {kernel kernel' : Kernel} {answer : Option Ptr}
    (done : mgr.get fd auto_create kernel = some (answer, after, kernel')) :
    Resized mgr.m_datas.length fd after.m_datas.length := by
  rcases FdManager.get_cases done with rfl | ⟨p, created⟩
  · exact Or.inl rfl
  · exact create_resized created

theorem addEvent_resized {io after : IOManager} {call : AddCall} {ret answer : Int32}
    (done : io.addEvent call.caller call.fd call.e call.cb ret = .ok (answer, after)) :
    Resized io.m_fdContexts.length call.fd after.m_fdContexts.length := by
  rw [EventTable.addEvent_eq] at done
  dsimp only at done
  cases found : (if io.covers call.fd then io
      else io.contextResize (IOManager.grown call.fd)).context call.fd with
  | none =>
      rw [found] at done
      cases done
  | some p =>
      rw [found] at done
      have index := context_isSome_iff.mp (Option.isSome_of_eq_some found)
      unfold Resized
      rw [(EventTable.addAt_kept found done).2, length_room]
      rw [length_room] at index
      split
      · exact Or.inl rfl
      · rename_i past
        rw [if_neg past] at index
        exact Or.inr ⟨(index_of_grown index.1).mp index.2, rfl⟩

/-- Only `addEvent` rebuilds the table. -/
theorem table_kept {before after : IOManager} {op : Op} (kept : before.rebuilds op = false)
    (done : before.perform op = .ok after) : after.m_fdContexts = before.m_fdContexts := by
  refine (EventTable.perform_path done).invariant
    (fun io => io.m_fdContexts = before.m_fdContexts) ?_ rfl
  intro io move next same made moved
  rcases EventTable.moves_step moved with ⟨_, rfl⟩
  cases move with
  | resize size =>
      rw [made.1] at kept
      cases kept
  | control | register | discard | fire => exact same

def Call.fd : Call → Option Int32
  | .get fd _ _ | .del fd => some fd
  | .event (.addEvent _ fd _ _ _) | .event (.delEvent fd _ _) | .event (.cancelEvent fd _ _)
  | .event (.cancelAll fd _) => some fd
  | .event (.dispatch _ _ _) => none

theorem event_resized {io after : IOManager} {op : Op} (done : io.perform op = .ok after) :
    after.m_fdContexts.length = io.m_fdContexts.length ∨
      ∃ fd, (Call.event op).fd = some fd ∧
        Resized io.m_fdContexts.length fd after.m_fdContexts.length := by
  cases op with
  | addEvent caller fd e cb ret =>
      rcases EventTable.map_done done with ⟨⟨answer, _⟩, added, rfl⟩
      exact Or.inr ⟨fd, rfl, @addEvent_resized _ _ ⟨caller, fd, e, cb⟩ _ _ added⟩
  | delEvent | cancelEvent | cancelAll | dispatch =>
      exact Or.inl (congrArg List.length (table_kept rfl done))

def Sizes (P : Nat → Prop) (state : Tables) : Prop :=
  P state.fdMgr.m_datas.length ∧ P state.io.m_fdContexts.length

theorem resized_keeps {P : Nat → Prop} {before after : Nat} {fd : Int32}
    (resized : Resized before fd after) (holds : P before)
    (grows : 2 ≤ fd → P (IOManager.grown fd)) : P after := by
  rcases resized with rfl | ⟨far, rfl⟩
  · exact holds
  · exact grows far

theorem sizes_step {P : Nat → Prop} {before after : Tables} {call : Call}
    (sizes : Sizes P before)
    (grows : ∀ fd, call.fd = some fd → 2 ≤ fd → P (IOManager.grown fd))
    (moved : tables.step before call = some after) : Sizes P after := by
  cases call with
  | get fd auto_create kernel =>
      rcases Option.map_eq_some_iff.mp moved with ⟨⟨_, _, _⟩, done, rfl⟩
      exact ⟨resized_keeps (get_resized done) sizes.1 (grows fd rfl), sizes.2⟩
  | del fd =>
      rcases Option.map_eq_some_iff.mp moved with ⟨_, done, rfl⟩
      exact ⟨(del_length done).symm ▸ sizes.1, sizes.2⟩
  | event op =>
      rcases Option.map_eq_some_iff.mp moved with ⟨io, taken, rfl⟩
      have done := EventTable.ioManager_step taken
      rcases event_resized done with same | ⟨fd, about, resized⟩
      · exact ⟨sizes.1, same.symm ▸ sizes.2⟩
      · exact ⟨sizes.1, resized_keeps resized sizes.2 (grows fd about)⟩

theorem reach_sized {state : Tables} (reached : Reach tables anyStep state) :
    Sizes Sized state := by
  refine reached.invariant (Sizes Sized) ?_ ?_
  · rintro _ rfl
    exact ⟨⟨by decide, by decide⟩, ⟨by decide, by decide⟩⟩
  · intro before call after _ sizes _ moved
    exact sizes_step sizes (fun _ _ far => sized_grown far) moved

theorem inBounds_iff {state : Tables} (sizes : Sizes Sized state) (call : Call) :
    InBounds state call ↔ Guarded state call := by
  rcases sizes with ⟨datas, contexts⟩
  cases call with
  | get fd auto_create kernel => exact get_isSome_iff datas auto_create kernel
  | del fd => exact del_isSome_iff
  | event op =>
      cases op with
      | addEvent caller fd e cb ret =>
          exact (otherFault_map_iff _).trans (addEvent_iff contexts ⟨caller, fd, e, cb⟩ ret)
      | delEvent fd e ret => exact (otherFault_map_iff _).trans (delEvent_iff e ret)
      | cancelEvent fd e ret => exact (otherFault_map_iff _).trans (cancelEvent_iff e ret)
      | cancelAll fd ret => exact (otherFault_map_iff _).trans (cancelAll_iff ret)
      | dispatch p reported ret => exact iff_of_true (dispatch_otherFault p reported ret) trivial

/-- The number is from 0 on, and no table grows past the ints for it. -/
def Modest (_ : Tables) (call : Call) : Prop := ∀ fd, call.fd = some fd → 0 ≤ fd ∧ Small fd

/-- A run whose numbers are all modest keeps the size of both tables an int, so that
every index is in bounds. -/
theorem modest_inBounds {state : Tables} (reached : Reach tables Modest state) {call : Call}
    (modest : Modest state call) : InBounds state call := by
  have bounded : Sizes (fun size => Sized size ∧ size < sizeLimit) state := by
    refine reached.invariant _ ?_ ?_
    · rintro _ rfl
      exact ⟨⟨⟨by decide, by decide⟩, by decide⟩, ⟨⟨by decide, by decide⟩, by decide⟩⟩
    · intro before call after _ sizes numbers moved
      refine sizes_step sizes (fun fd about far => ?_) moved
      exact ⟨sized_grown far, (numbers fd about).2⟩
  rcases bounded with ⟨⟨datas, small⟩, contexts, few⟩
  refine (inBounds_iff ⟨datas, contexts⟩ call).mpr ?_
  cases call with
  | get fd auto_create kernel =>
      have nonneg := (modest fd rfl).1
      refine Or.inr ?_
      split
      · exact ⟨nonneg, Or.inr small⟩
      · exact Or.inl nonneg
  | del fd => exact Or.inl (modest fd rfl).1
  | event op =>
      cases op with
      | addEvent caller fd e cb ret => exact ⟨(modest fd rfl).1, Or.inr few⟩
      | delEvent fd | cancelEvent fd | cancelAll fd => exact Or.inl (modest fd rfl).1
      | dispatch => exact trivial

/-- From every state that a run reaches, exactly the calls with the condition are in
bounds. -/
theorem reached_inBounds_iff {state : Tables} (reached : Reach tables anyStep state)
    (call : Call) : InBounds state call ↔ Guarded state call :=
  inBounds_iff (reach_sized reached) call

theorem reached_inBounds_grown :
    ∃ state, run tables {} [.get 70 true {}, .del 3] = some state ∧
      InBounds state (.get 70 false {}) :=
  run_meets anyStep rfl (by decide) (by decide) fun _ reached =>
    (reached_inBounds_iff reached _).mpr (Or.inr (Or.inl (by decide)))

theorem negative_outOfBounds :
    ¬ ∀ state, Reach tables anyStep state → ∀ call, InBounds state call := by
  intro all
  have found : (({} : FdManager).get (-2) false {}).isSome = true :=
    all {} (.start rfl) (.get (-2) false {})
  exact absurd found (by decide)

end Ztyco.TableBounds
