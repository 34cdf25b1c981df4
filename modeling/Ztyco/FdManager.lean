import Mathlib.Logic.Function.Basic
import Ztyco.EventTable

/-!
fdmanager.cc, over the part of the kernel it asks: which numbers are open, what
`fstat` reports of them, and the file status flags, which `F_SETFL` and
`FIONBIO` write. `FdCtx` objects are shared through pointers, so they live in a
heap, and the manager only ever drops its own reference.
-/

namespace Ztyco.Descriptors

open EventTable (Ptr)

abbrev Flags := BitVec 32

def O_NONBLOCK : Flags := 0x800

/-- The status flags `F_SETFL` can change: `O_APPEND`, `O_NONBLOCK`, `O_ASYNC`,
`O_DIRECT` and `O_NOATIME`. -/
def SETFL_MASK : Flags := 0x400 ||| O_NONBLOCK ||| 0x2000 ||| 0x4000 ||| 0x40000

structure File where
  socket : Bool := false
  flags : Flags := 0
  deriving DecidableEq, Repr

/-- Two descriptors may share one description. -/
structure Kernel where
  opened : Int32 → Option Nat := fun _ => none
  files : Nat → File := fun _ => {}
  described : Nat := 0

namespace Kernel

def file (kernel : Kernel) (fd : Int32) : Option File := (kernel.opened fd).map kernel.files

def getfl (kernel : Kernel) (fd : Int32) : Flags :=
  match kernel.file fd with
  | some file => file.flags
  | none => -1

def alter (kernel : Kernel) (fd : Int32) (change : Flags → Flags) : Kernel :=
  match kernel.opened fd with
  | some id =>
      let file := kernel.files id
      let file := { file with flags := change file.flags }
      { kernel with files := Function.update kernel.files id file }
  | none => kernel

def setfl (kernel : Kernel) (fd : Int32) (arg : Flags) : Kernel :=
  kernel.alter fd fun flags => (flags &&& ~~~SETFL_MASK) ||| (arg &&& SETFL_MASK)

def fionbio (kernel : Kernel) (fd : Int32) (value : Int32) : Kernel :=
  kernel.alter fd fun flags => if value ≠ 0 then flags ||| O_NONBLOCK else flags &&& ~~~O_NONBLOCK

def answer (kernel : Kernel) (fd : Int32) : Int32 := if (kernel.opened fd).isSome then 0 else -1

end Kernel

structure FdCtx where
  m_isInit : Bool := false
  m_isSocket : Bool := false
  m_sysNonblock : Bool := false
  m_userNonblock : Bool := false
  m_isClosed : Bool := false
  m_fd : Int32 := 0
  m_recvTimeout : UInt64 := -1
  m_sendTimeout : UInt64 := -1
  deriving DecidableEq, Repr

/-- C++ `!` on an int. -/
def logicalNot (flags : Flags) : Flags := if flags = 0 then 1 else 0

def FdCtx.init (ctx : FdCtx) (kernel : Kernel) : FdCtx × Kernel :=
  if ctx.m_isInit then (ctx, kernel) else
  let ctx := { ctx with m_recvTimeout := -1, m_sendTimeout := -1 }
  let ctx := match kernel.file ctx.m_fd with
    | none => { ctx with m_isInit := false, m_isSocket := false }
    | some file => { ctx with m_isInit := true, m_isSocket := file.socket }
  let (ctx, kernel) :=
    if ctx.m_isSocket then
      let flags := kernel.getfl ctx.m_fd
      -- `!` binds tighter than `&`
      let kernel := if logicalNot flags &&& O_NONBLOCK ≠ 0
        then kernel.setfl ctx.m_fd (flags ||| O_NONBLOCK) else kernel
      ({ ctx with m_sysNonblock := true }, kernel)
    else ({ ctx with m_sysNonblock := false }, kernel)
  ({ ctx with m_userNonblock := false, m_isClosed := false }, kernel)

def FdCtx.constructed (fd : Int32) (kernel : Kernel) : FdCtx × Kernel :=
  ({ m_fd := fd } : FdCtx).init kernel

def SO_RCVTIMEO : Int32 := 20
def SO_SNDTIMEO : Int32 := 21

def FdCtx.setTimeout (ctx : FdCtx) (type : Int32) (v : UInt64) : FdCtx :=
  if type = SO_RCVTIMEO then { ctx with m_recvTimeout := v } else { ctx with m_sendTimeout := v }

def FdCtx.getTimeout (ctx : FdCtx) (type : Int32) : UInt64 :=
  if type = SO_RCVTIMEO then ctx.m_recvTimeout else ctx.m_sendTimeout

def resize (slots : List (Option Ptr)) (size : Nat) : List (Option Ptr) :=
  slots.take size ++ List.replicate (size - slots.length) none

structure FdManager where
  m_datas : List (Option Ptr) := resize [] 64
  heap : Ptr → FdCtx := fun _ => {}
  allocated : Nat := 0

/-- What the read-locked part of `get` comes to. -/
inductive Lookup where
  | answered (ctx : Option Ptr)
  | missing
  | outOfBounds
  deriving DecidableEq, Repr

namespace FdManager

def beyond (mgr : FdManager) (fd : Int32) : Bool := Int32.ofNat mgr.m_datas.length ≤ fd

def slot (mgr : FdManager) (fd : Int32) : Option (Option Ptr) :=
  if fd < 0 then none else mgr.m_datas[fd.toNatClampNeg]?

def lookup (mgr : FdManager) (fd : Int32) (auto_create : Bool) : Lookup :=
  if fd = -1 then .answered none
  else if mgr.beyond fd then if auto_create then .missing else .answered none
  else match mgr.slot fd with
    | none => .outOfBounds
    | some ctx => if ctx.isSome || !auto_create then .answered ctx else .missing

def makeRoom (mgr : FdManager) (fd : Int32) : FdManager :=
  if mgr.beyond fd then
    { mgr with m_datas := resize mgr.m_datas (EventTable.IOManager.grown fd) }
  else mgr

def assign (mgr : FdManager) (fd : Int32) (ctx : Option Ptr) : Option FdManager :=
  if (mgr.slot fd).isSome then
    some { mgr with m_datas := mgr.m_datas.set fd.toNatClampNeg ctx }
  else none

/-- The write-locked part of `get`. The size is checked again, the slot is not. -/
def create (mgr : FdManager) (fd : Int32) (kernel : Kernel) : Option (Ptr × FdManager × Kernel) :=
  let (ctx, kernel) := FdCtx.constructed fd kernel
  let p := mgr.allocated
  let mgr := { mgr with heap := Function.update mgr.heap p ctx, allocated := p + 1 }
  ((mgr.makeRoom fd).assign fd (some p)).map fun mgr => (p, mgr, kernel)

/-- `none` is an index outside the vector. -/
def get (mgr : FdManager) (fd : Int32) (auto_create : Bool) (kernel : Kernel) :
    Option (Option Ptr × FdManager × Kernel) :=
  match mgr.lookup fd auto_create with
  | .answered ctx => some (ctx, mgr, kernel)
  | .missing => (mgr.create fd kernel).map fun (ctx, mgr, kernel) => (some ctx, mgr, kernel)
  | .outOfBounds => none

def del (mgr : FdManager) (fd : Int32) : Option FdManager :=
  if mgr.beyond fd then some mgr else mgr.assign fd none

def store (mgr : FdManager) (p : Ptr) (ctx : FdCtx) : FdManager :=
  { mgr with heap := Function.update mgr.heap p ctx }

def find (mgr : FdManager) (fd : Int32) : Option (Option Ptr) :=
  match mgr.lookup fd false with
  | .answered ctx => some ctx
  | _ => none

end FdManager

/-! The table as a map. It holds while the size of the table is an int, which
the growth for one number keeps as long as one and a half times it is one. -/

def sizeLimit : Nat := 0x80000000

def Small (fd : Int32) : Prop := EventTable.IOManager.grown fd < sizeLimit

instance Small.decidable (fd : Int32) : Decidable (Small fd) :=
  inferInstanceAs (Decidable (EventTable.IOManager.grown fd < sizeLimit))

/-- `!` yields 0 or 1, so the kernel's flag is never written. -/
theorem constructed_kernel (fd : Int32) (kernel : Kernel) :
    (FdCtx.constructed fd kernel).2 = kernel := by
  have never : ∀ flags, ¬ logicalNot flags &&& O_NONBLOCK ≠ 0 := by
    intro flags
    unfold logicalNot
    split <;> decide
  simp only [FdCtx.constructed, FdCtx.init, Bool.false_eq_true, ↓reduceIte, never]
  split
  · rfl
  · split <;> rfl

theorem constructed_settings (fd : Int32) (kernel : Kernel) :
    (FdCtx.constructed fd kernel).1.m_userNonblock = false ∧
      (FdCtx.constructed fd kernel).1.m_recvTimeout = -1 ∧
      (FdCtx.constructed fd kernel).1.m_sendTimeout = -1 := by
  simp only [FdCtx.constructed, FdCtx.init, Bool.false_eq_true, ↓reduceIte]
  split
  · simp
  · split <;> simp

/-- A context of a socket claims the kernel's flag, set or not. -/
theorem constructed_socket {fd : Int32} {kernel : Kernel} {file : File}
    (opened : kernel.file fd = some file) (socket : file.socket = true) :
    (FdCtx.constructed fd kernel).1.m_isSocket = true ∧
      (FdCtx.constructed fd kernel).1.m_isClosed = false ∧
      (FdCtx.constructed fd kernel).1.m_sysNonblock = true := by
  simp [FdCtx.constructed, FdCtx.init, opened, socket]

namespace FdManager

structure Tabled (mgr : FdManager) : Prop where
  least : 64 ≤ mgr.m_datas.length
  fits : mgr.m_datas.length < sizeLimit

def context (mgr : FdManager) (fd : Int32) : Option Ptr := mgr.m_datas[fd.toNatClampNeg]?.join

variable {mgr : FdManager} {fd : Int32}

theorem tabled_empty : Tabled {} := by
  constructor
  · decide
  · decide

@[simp] theorem context_empty (fd : Int32) : ({} : FdManager).context fd = none := by
  have filled : ({} : FdManager).m_datas = List.replicate 64 none := rfl
  rw [context, filled, List.getElem?_replicate]
  split <;> rfl

theorem beyond_iff (tabled : Tabled mgr) (nonneg : 0 ≤ fd) :
    mgr.beyond fd = true ↔ mgr.m_datas.length ≤ fd.toNatClampNeg := by
  have bounded := tabled.fits
  unfold sizeLimit at bounded
  have compared := Int32.ofNat_le_iff_le (a := mgr.m_datas.length) (by simpa using bounded)
    (Int32.toNatClampNeg_lt fd)
  rw [Int32.ofNat_toNatClampNeg fd nonneg] at compared
  rw [beyond, decide_eq_true_iff]
  exact compared

theorem nonneg_iff : 0 ≤ fd ↔ ¬ fd < 0 := Int32.not_lt.symm

theorem ne_of_nonneg (nonneg : 0 ≤ fd) : fd ≠ -1 := by
  rintro rfl
  exact absurd nonneg (by decide)

theorem slot_eq (nonneg : 0 ≤ fd) : mgr.slot fd = mgr.m_datas[fd.toNatClampNeg]? := by
  rw [slot, if_neg (nonneg_iff.mp nonneg)]

theorem lookup_eq (tabled : Tabled mgr) (nonneg : 0 ≤ fd) (auto_create : Bool) :
    mgr.lookup fd auto_create = match mgr.context fd with
      | some p => .answered (some p)
      | none => if auto_create then .missing else .answered none := by
  rw [lookup, if_neg (ne_of_nonneg nonneg)]
  by_cases outside : mgr.m_datas.length ≤ fd.toNatClampNeg
  · rw [if_pos ((beyond_iff tabled nonneg).mpr outside), context,
      List.getElem?_eq_none_iff.mpr outside]
    rfl
  · rw [if_neg (fun past => outside ((beyond_iff tabled nonneg).mp past)), slot_eq nonneg, context,
      List.getElem?_eq_getElem (Nat.not_le.mp outside)]
    cases mgr.m_datas[fd.toNatClampNeg] <;> cases auto_create <;> rfl

theorem find_eq (tabled : Tabled mgr) (nonneg : 0 ≤ fd) : mgr.find fd = some (mgr.context fd) := by
  rw [find, lookup_eq tabled nonneg]
  cases mgr.context fd <;> rfl

theorem find_invalid : mgr.find (-1) = some none := rfl

theorem lt_grown (far : 64 ≤ fd.toNatClampNeg) :
    fd.toNatClampNeg < EventTable.IOManager.grown fd := by
  unfold EventTable.IOManager.grown
  omega

section Cases
variable {after : FdManager} {ctx : Option Ptr}

theorem assign_cases (assigned : mgr.assign fd ctx = some after) :
    after = { mgr with m_datas := mgr.m_datas.set fd.toNatClampNeg ctx } := by
  unfold assign at assigned
  split at assigned
  · exact (Option.some.inj assigned).symm
  · cases assigned

theorem get_cases {auto_create : Bool} {kernel later : Kernel}
    (got : mgr.get fd auto_create kernel = some (ctx, after, later)) :
    after = mgr ∨ ∃ p, mgr.create fd kernel = some (p, after, later) := by
  unfold get at got
  split at got
  · cases got
    exact Or.inl rfl
  · rcases Option.map_eq_some_iff.mp got with ⟨⟨p, _, _⟩, created, same⟩
    cases same
    exact Or.inr ⟨p, created⟩
  · cases got

theorem del_cases (deleted : mgr.del fd = some after) :
    after = mgr ∨ mgr.assign fd none = some after := by
  unfold del at deleted
  split at deleted
  · exact Or.inl (Option.some.inj deleted).symm
  · exact Or.inr deleted

end Cases

theorem toNatClampNeg_inj {other : Int32} (nonneg : 0 ≤ fd) (nonneg' : 0 ≤ other)
    (same : other.toNatClampNeg = fd.toNatClampNeg) : other = fd := by
  rw [← Int32.ofNat_toNatClampNeg other nonneg', same, Int32.ofNat_toNatClampNeg fd nonneg]

@[simp] theorem length_resize (slots : List (Option Ptr)) (size : Nat) :
    (resize slots size).length = size := by
  simp only [resize, List.length_append, List.length_take, List.length_replicate]
  omega

theorem getElem_resize {slots : List (Option Ptr)} {size : Nat} (grows : slots.length ≤ size)
    (i : Nat) : (resize slots size)[i]?.join = slots[i]?.join := by
  rw [resize, List.take_of_length_le grows]
  by_cases old : i < slots.length
  · rw [List.getElem?_append_left old]
  · have past := Nat.not_lt.mp old
    rw [List.getElem?_append_right past, List.getElem?_eq_none_iff.mpr past,
      List.getElem?_replicate]
    split <;> rfl

def roomFor (mgr : FdManager) (fd : Int32) : Nat :=
  if mgr.beyond fd then EventTable.IOManager.grown fd else mgr.m_datas.length

theorem makeRoom_eq (tabled : Tabled mgr) (nonneg : 0 ≤ fd) :
    (mgr.makeRoom fd).m_datas.length = mgr.roomFor fd ∧ fd.toNatClampNeg < mgr.roomFor fd ∧
      64 ≤ mgr.roomFor fd ∧ ∀ other, (mgr.makeRoom fd).context other = mgr.context other := by
  have least := tabled.least
  unfold makeRoom roomFor
  split
  · rename_i past
    have outside := (beyond_iff tabled nonneg).mp past
    have grows := lt_grown (Nat.le_trans least outside)
    refine ⟨length_resize _ _, grows, by omega, ?_⟩
    intro other
    exact getElem_resize (by omega) _
  · rename_i near
    refine ⟨rfl, ?_, least, fun _ => rfl⟩
    apply Nat.not_le.mp
    intro outside
    exact near ((beyond_iff tabled nonneg).mpr outside)

theorem makeRoom_heap : (mgr.makeRoom fd).heap = mgr.heap := by
  unfold makeRoom
  split <;> rfl

theorem makeRoom_allocated : (mgr.makeRoom fd).allocated = mgr.allocated := by
  unfold makeRoom
  split <;> rfl

theorem assign_eq (inside : fd.toNatClampNeg < mgr.m_datas.length) (nonneg : 0 ≤ fd)
    (ctx : Option Ptr) :
    ∃ after, mgr.assign fd ctx = some after ∧ after.m_datas.length = mgr.m_datas.length ∧
      after.heap = mgr.heap ∧ after.allocated = mgr.allocated ∧
      ∀ other, 0 ≤ other → after.context other = if other = fd then ctx else mgr.context other := by
  have existing : (mgr.slot fd).isSome = true := by simp [slot_eq nonneg, inside]
  refine ⟨{ mgr with m_datas := mgr.m_datas.set fd.toNatClampNeg ctx }, ?_, ?_, rfl, rfl, ?_⟩
  · rw [assign, if_pos existing]
  · exact List.length_set
  · intro other nonneg'
    simp only [context]
    by_cases same : other = fd
    · subst same
      simp [inside]
    · have apart : fd.toNatClampNeg ≠ other.toNatClampNeg := fun equal =>
        same (toNatClampNeg_inj nonneg nonneg' equal.symm)
      simp [same, apart]

theorem create_eq (tabled : Tabled mgr) (nonneg : 0 ≤ fd) (kernel : Kernel) :
    ∃ after, mgr.create fd kernel =
        some (mgr.allocated, after, (FdCtx.constructed fd kernel).2) ∧
      after.m_datas.length = mgr.roomFor fd ∧
      after.heap = Function.update mgr.heap mgr.allocated (FdCtx.constructed fd kernel).1 ∧
      after.allocated = mgr.allocated + 1 ∧
      ∀ other, 0 ≤ other →
        after.context other = if other = fd then some mgr.allocated else mgr.context other := by
  let filled : FdManager :=
    ⟨mgr.m_datas, Function.update mgr.heap mgr.allocated (FdCtx.constructed fd kernel).1,
      mgr.allocated + 1⟩
  have same : Tabled filled := ⟨tabled.least, tabled.fits⟩
  rcases makeRoom_eq same nonneg with ⟨size, inside, _, contexts⟩
  have covered : fd.toNatClampNeg < (filled.makeRoom fd).m_datas.length := size ▸ inside
  rcases assign_eq covered nonneg (some mgr.allocated) with
    ⟨after, assigned, length, heap, allocated, contexts'⟩
  refine ⟨after, ?_, length.trans size, heap.trans makeRoom_heap,
    allocated.trans makeRoom_allocated, ?_⟩
  · change ((filled.makeRoom fd).assign fd (some mgr.allocated)).map _ = _
    rw [assigned]
    rfl
  · intro other nonneg'
    rw [contexts' other nonneg', contexts]
    rfl

theorem get_new (tabled : Tabled mgr) (nonneg : 0 ≤ fd) (absent : mgr.context fd = none)
    (kernel : Kernel) :
    ∃ after, mgr.get fd true kernel = some (some mgr.allocated, after, kernel) ∧
      after.m_datas.length = mgr.roomFor fd ∧
      after.heap = Function.update mgr.heap mgr.allocated (FdCtx.constructed fd kernel).1 ∧
      after.allocated = mgr.allocated + 1 ∧
      ∀ other, 0 ≤ other →
        after.context other = if other = fd then some mgr.allocated else mgr.context other := by
  rcases create_eq tabled nonneg kernel with ⟨after, created, rest⟩
  refine ⟨after, ?_, rest⟩
  simp only [get, lookup_eq tabled nonneg, absent, ↓reduceIte, created, constructed_kernel,
    Option.map_some]

theorem tabled_created {after : FdManager} (tabled : Tabled mgr) (nonneg : 0 ≤ fd)
    (small : Small fd) (size : after.m_datas.length = mgr.roomFor fd) : Tabled after := by
  constructor
  · rw [size]
    exact (makeRoom_eq tabled nonneg).2.2.1
  · rw [size]
    unfold roomFor
    split
    · exact small
    · exact tabled.fits

theorem del_eq (tabled : Tabled mgr) (nonneg : 0 ≤ fd) :
    ∃ after, mgr.del fd = some after ∧ Tabled after ∧ after.heap = mgr.heap ∧
      after.allocated = mgr.allocated ∧
      ∀ other, 0 ≤ other →
        after.context other = if other = fd then none else mgr.context other := by
  by_cases outside : mgr.m_datas.length ≤ fd.toNatClampNeg
  · refine ⟨mgr, ?_, tabled, rfl, rfl, ?_⟩
    · rw [del, if_pos ((beyond_iff tabled nonneg).mpr outside)]
    · intro other _
      split
      · rename_i same
        rw [same, context, List.getElem?_eq_none_iff.mpr outside]
        rfl
      · rfl
  · rw [del, if_neg (fun past => outside ((beyond_iff tabled nonneg).mp past))]
    rcases assign_eq (Nat.not_le.mp outside) nonneg none with
      ⟨after, assigned, length, heap, allocated, contexts⟩
    refine ⟨after, assigned, ⟨?_, ?_⟩, heap, allocated, contexts⟩
    · rw [length]
      exact tabled.least
    · rw [length]
      exact tabled.fits

end FdManager

end Ztyco.Descriptors
