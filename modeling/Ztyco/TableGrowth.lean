import Ztyco.EventPlacement

/-!
`addEvent` from many threads. The size of the table is read under the read
lock, which is dropped before the write lock for the growth is taken; the
context is then used under a lock of its own. So one call is up to three steps,
and other calls come between them.
-/

namespace Ztyco.EventTable

open Fibers (Func)
open Transition

structure AddCall where
  caller : Caller
  fd : Int32
  e : Event
  cb : Option Func
  deriving DecidableEq, Repr

def IOManager.addAt (io : IOManager) (call : AddCall) (p : Ptr) (ret : Int32) :
    Except Fault (Int32 × IOManager) :=
  let ctx := io.heap p
  if ctx.has call.e then .error .alreadyRegistered else
  let op := if ctx.events ≠ 0 then .mod else .add
  let epevt : EpollEvent := ⟨EPOLLIN ||| ctx.events ||| call.e.bits, p⟩
  if ret ≠ 0 then .ok (-1, io) else
  (io.epollCtl op call.fd epevt).install call.caller call.fd p call.e call.cb

inductive Phase where
  | idle
  | growing (call : AddCall)
  | holding (call : AddCall) (p : Ptr)
  deriving DecidableEq, Repr

/-- `overrun` is set by an index outside the vector. -/
structure Adders where
  io : IOManager
  phase : Nat → Phase := fun _ => .idle
  overrun : Bool := false

inductive AddAct where
  | check (thread : Nat) (call : AddCall)
  | grow (thread : Nat)
  | finish (thread : Nat) (ret : Int32)
  deriving DecidableEq, Repr

namespace Adders

def enter (adders : Adders) (thread : Nat) (phase : Phase) : Adders :=
  { adders with phase := Function.update adders.phase thread phase }

def index (adders : Adders) (thread : Nat) (call : AddCall) : Adders :=
  match adders.io.context call.fd with
  | some p => adders.enter thread (.holding call p)
  | none => { adders with overrun := true }

def check (adders : Adders) (thread : Nat) (call : AddCall) : Adders :=
  if adders.io.covers call.fd then adders.index thread call
  else adders.enter thread (.growing call)

/-- Under the write lock; the size is not read again. -/
def grow (adders : Adders) (thread : Nat) (call : AddCall) : Adders :=
  { adders with io := adders.io.contextResize (IOManager.grown call.fd) }.index thread call

/-- Under the lock of the context. A failed assertion ends the process. -/
def finish (adders : Adders) (thread : Nat) (call : AddCall) (p : Ptr) (ret : Int32) :
    Option Adders :=
  (adders.io.addAt call p ret).toOption.map fun (_, io) =>
    { adders with io := io }.enter thread .idle

def act (adders : Adders) : AddAct → Option Adders
  | .check thread call =>
      if adders.phase thread = .idle ∧ 0 ≤ call.fd then some (adders.check thread call) else none
  | .grow thread =>
      match adders.phase thread with
      | .growing call => some (adders.grow thread call)
      | _ => none
  | .finish thread ret =>
      match adders.phase thread with
      | .holding call p => adders.finish thread call p ret
      | _ => none

end Adders

def adders : Machine Adders AddAct where
  initial state := state = { io := .constructed }
  step := Adders.act

/-- The steps, taken one after the other, are `addEvent`. -/
theorem addEvent_eq (io : IOManager) (call : AddCall) (ret : Int32) :
    io.addEvent call.caller call.fd call.e call.cb ret =
      let io := if io.covers call.fd then io else io.contextResize (IOManager.grown call.fd)
      match io.context call.fd with
      | none => .error .outOfBounds
      | some p => io.addAt call p ret := rfl

/-- The table has not shrunk, and every context is where it was, with its
registrations. -/
def Kept (before after : IOManager) : Prop :=
  before.m_fdContexts.length ≤ after.m_fdContexts.length ∧
    ∀ (i : Nat) (p : Ptr), before.m_fdContexts[i]? = some p → after.m_fdContexts[i]? = some p ∧
      ∀ e, (before.heap p).has e = true →
        (after.heap p).has e = true ∧ (after.heap p).slot e = (before.heap p).slot e

def Covered (state : Adders) : AddAct → Prop
  | .check _ call => state.io.covers call.fd = true
  | _ => True

instance Covered.decidable (state : Adders) : (act : AddAct) → Decidable (Covered state act)
  | .check _ call => inferInstanceAs (Decidable (state.io.covers call.fd = true))
  | .grow _ | .finish .. => .isTrue trivial

theorem Kept.refl (io : IOManager) : Kept io io :=
  ⟨Nat.le_refl _, fun _ _ found => ⟨found, fun _ has => ⟨has, rfl⟩⟩⟩

theorem Kept.trans {first second third : IOManager} (left : Kept first second)
    (right : Kept second third) : Kept first third := by
  refine ⟨Nat.le_trans left.1 right.1, ?_⟩
  intro i p found
  rcases left.2 i p found with ⟨middle, early⟩
  rcases right.2 i p middle with ⟨last, late⟩
  refine ⟨last, ?_⟩
  intro e has
  rcases early e has with ⟨stays, same⟩
  rcases late e stays with ⟨remains, equal⟩
  exact ⟨remains, equal.trans same⟩

structure Ungrown (state : Adders) : Prop where
  size : state.io.m_fdContexts.length = 32
  inBounds : state.overrun = false
  covered : ∀ thread call, state.phase thread ≠ .growing call
  held : ∀ thread call p, state.phase thread = .holding call p →
    state.io.context call.fd = some p

theorem Ungrown.initial : Ungrown { io := .constructed } := by
  constructor
  · rfl
  · rfl
  · intro thread call growing
    cases growing
  · intro thread call p holding
    cases holding

theorem context_covered {io : IOManager} {fd : Int32} (size : io.m_fdContexts.length = 32)
    (nonneg : 0 ≤ fd) (covered : io.covers fd = true) : ∃ p, io.context fd = some p := by
  have below := Int32.lt_iff_toInt_lt.mp (of_decide_eq_true covered)
  have least := Int32.le_iff_toInt_le.mp nonneg
  rw [size] at below
  have limit : (Int32.ofNat 32).toInt = 32 := by decide
  have zero : (0 : Int32).toInt = 0 := by decide
  have within : fd.toNatClampNeg < io.m_fdContexts.length := by
    rw [size, ← Int32.toNat_toInt]
    omega
  refine ⟨io.m_fdContexts[fd.toNatClampNeg], ?_⟩
  rw [IOManager.context, if_neg (Int32.not_lt.mpr nonneg), List.getElem?_eq_getElem within]

theorem kept_enroll {io : IOManager} {q : Ptr} {e : Event} (ectx : EventContext)
    (real : e ≠ .none) (clear : (io.heap q).has e = false) (after : IOManager)
    (table : after.m_fdContexts = io.m_fdContexts)
    (heap : after.heap = Function.update io.heap q ((io.heap q).enroll e ectx)) :
    Kept io after := by
  refine ⟨Nat.le_of_eq (congrArg List.length table.symm), ?_⟩
  intro i p found
  refine ⟨table.symm ▸ found, ?_⟩
  intro e' has
  rw [heap]
  by_cases same : p = q
  · subst same
    have other : e ≠ e' := by
      rintro rfl
      rw [clear] at has
      cases has
    rw [Function.update_self, FdContext.enroll_has _ _ _ _ real, FdContext.enroll_slot _ _ _ _ real,
      if_neg other, has]
    exact ⟨rfl, rfl⟩
  · rw [Function.update_of_ne same]
    exact ⟨has, rfl⟩

theorem addAt_kept {io after : IOManager} {call : AddCall} {p : Ptr} {ret answer : Int32}
    (found : io.context call.fd = some p) (done : io.addAt call p ret = .ok (answer, after)) :
    Kept io after ∧ after.m_fdContexts = io.m_fdContexts := by
  simp only [IOManager.addAt] at done
  split at done
  · cases done
  · rename_i clear
    have clear := Bool.eq_false_iff.mpr clear
    split at done
    · cases done
      exact ⟨.refl _, rfl⟩
    · rcases install_registers (by exact found) (by exact clear) done with ⟨able, rfl⟩
      exact ⟨kept_enroll _ able.2.1 clear _ rfl rfl, rfl⟩

theorem ungrown_step {state after : Adders} {act : AddAct} (ungrown : Ungrown state)
    (covered : Covered state act) (moved : adders.step state act = some after) :
    Ungrown after ∧ Kept state.io after.io := by
  cases act with
  | check thread call =>
      simp only [adders, Adders.act] at moved
      split at moved
      · rename_i able
        rcases context_covered ungrown.size able.2 covered with ⟨p, found⟩
        have present : state.io.covers call.fd = true := covered
        simp only [Adders.check, present, ↓reduceIte, Adders.index, found] at moved
        cases moved
        refine ⟨⟨ungrown.size, ungrown.inBounds, ?_, ?_⟩, .refl _⟩
        · intro other call' growing
          rcases part_cases growing with ⟨_, entered⟩ | ⟨_, before⟩
          · cases entered
          · exact ungrown.covered other call' before
        · intro other call' q holding
          rcases part_cases holding with ⟨_, entered⟩ | ⟨_, before⟩
          · cases entered
            exact found
          · exact ungrown.held other call' q before
      · cases moved
  | grow thread =>
      simp only [adders, Adders.act] at moved
      split at moved
      · rename_i call growing
        exact absurd growing (ungrown.covered thread call)
      · cases moved
  | finish thread ret =>
      simp only [adders, Adders.act] at moved
      split at moved
      · rename_i call p holding
        rcases Option.map_eq_some_iff.mp moved with ⟨⟨answer, io⟩, done, rfl⟩
        have returned : state.io.addAt call p ret = .ok (answer, io) := by
          cases result : state.io.addAt call p ret with
          | error fault =>
              rw [result] at done
              cases done
          | ok value =>
              rw [result] at done
              cases done
              rfl
        rcases addAt_kept (ungrown.held thread call p holding) returned with ⟨kept, table⟩
        refine ⟨⟨?_, ungrown.inBounds, ?_, ?_⟩, kept⟩
        · rw [← ungrown.size]
          exact congrArg List.length table
        · intro other call' growing
          rcases part_cases growing with ⟨_, entered⟩ | ⟨_, before⟩
          · cases entered
          · exact ungrown.covered other call' before
        · intro other call' q holding'
          rcases part_cases holding' with ⟨_, entered⟩ | ⟨_, before⟩
          · cases entered
          · simpa only [Adders.enter, IOManager.context, table] using
              ungrown.held other call' q before
      · cases moved

theorem ungrown_path {before after : Adders} (ungrown : Ungrown before)
    (path : Path adders Covered before after) : Ungrown after ∧ Kept before.io after.io := by
  induction path with
  | refl => exact ⟨ungrown, .refl _⟩
  | next act _ covered moved ih =>
      rcases ungrown_step ih.1 covered moved with ⟨still, kept⟩
      exact ⟨still, ih.2.trans kept⟩

/-- In a run that never grows the table every index is in bounds, and from each
state on the contexts stay where they are, with their registrations. -/
theorem table_safe {start before after : Adders} (initial : adders.initial start)
    (first : Path adders Covered start before) (later : Path adders Covered before after) :
    Kept before.io after.io ∧ after.overrun = false := by
  cases initial
  rcases ungrown_path .initial first with ⟨ungrown, _⟩
  rcases ungrown_path ungrown later with ⟨still, kept⟩
  exact ⟨kept, still.inBounds⟩

/-- Any growth breaks it: every place of the new table has a context that was
not there before. -/
theorem grow_loses {base : Ptr} {io : IOManager} (laid : LaidFrom base io)
    (nonempty : 0 < io.m_fdContexts.length) (size : Nat) : ¬ Kept io (io.contextResize size) := by
  rintro ⟨least, stays⟩
  rcases laid with ⟨table, fits, _, _⟩
  have first : io.m_fdContexts[0]? = some base := by
    rw [table]
    simp [nonempty]
  have kept := (stays 0 base first).1
  simp only [IOManager.contextResize, List.length_map, List.length_range] at least kept
  rw [List.getElem?_map, List.getElem?_range (Nat.lt_of_lt_of_le nonempty least)] at kept
  have same : io.allocated = base := Option.some.inj kept
  have below : base < io.allocated := Nat.lt_of_lt_of_le (Nat.lt_add_of_pos_right nonempty) fits
  exact absurd same (Nat.ne_of_gt below)

def reading (fd : Int32) : AddCall := ⟨⟨some 0, 7, .exec⟩, fd, .read, none⟩

theorem table_safe_run :
    ∃ after, run adders { io := .constructed }
        [.check 0 (reading 3), .check 1 (reading 31), .finish 1 0, .finish 0 0] = some after ∧
      Kept IOManager.constructed after.io ∧ after.overrun = false := by
  rcases Option.isSome_iff_exists.mp (by decide : (run adders { io := .constructed }
    [.check 0 (reading 3), .check 1 (reading 31), .finish 1 0, .finish 0 0]).isSome = true) with
    ⟨after, result⟩
  refine ⟨after, result, ?_⟩
  have path := path_of_follows (by decide : Follows adders Covered { io := .constructed }
    [.check 0 (reading 3), .check 1 (reading 31), .finish 1 0, .finish 0 0]) result
  exact table_safe rfl (.refl _) path

/-- Two calls decide to grow the table; the smaller growth comes second. -/
theorem table_shrinks :
    ¬ ∀ start before after : Adders, adders.initial start → Path adders anyStep start before →
      Path adders anyStep before after → Kept before.io after.io ∧ after.overrun = false := by
  intro all
  let start : Adders := { io := .constructed }
  let before := ((start.check 0 (reading 60)).check 1 (reading 40)).grow 0 (reading 60)
  let after := before.grow 1 (reading 40)
  have first : Path adders anyStep start before :=
    path_of_follows (by decide : Follows adders anyStep start
      [.check 0 (reading 60), .check 1 (reading 40), .grow 0]) rfl
  have second : Path adders anyStep before after :=
    path_of_follows (by decide : Follows adders anyStep before [.grow 1]) rfl
  have larger : before.io.m_fdContexts.length = 90 := by decide
  have smaller : after.io.m_fdContexts.length = 60 := by decide
  have shrunk := (all start before after rfl first second).1.1
  omega

end Ztyco.EventTable
