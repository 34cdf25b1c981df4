import Mathlib.Data.List.Nodup
import Ztyco.EventContexts

/-!
Where contexts live. The table is one block of contexts in fd order, so a
context belongs to one fd. Growing the table replaces the block; as long as
nothing is registered in the old one, every context with a registered event is
the table's context of its fd.
-/

namespace Ztyco.EventTable

open Transition

def FdContext.registered (ctx : FdContext) : Bool := ctx.has .read || ctx.has .write

/-- `addEvent` does not grow the table while an event is registered in it. -/
def IOManager.SafeRebuild (io : IOManager) (op : Op) : Prop :=
  io.rebuilds op = true → ∀ p ∈ io.m_fdContexts, (io.heap p).registered = false

instance IOManager.SafeRebuild.decidable (io : IOManager) (op : Op) :
    Decidable (io.SafeRebuild op) := by
  unfold IOManager.SafeRebuild
  infer_instance

def CleanResize (io : IOManager) : Move → Prop
  | .resize _ => ∀ p ∈ io.m_fdContexts, (io.heap p).registered = false
  | _ => True

theorem clean_resize_of_safe_rebuild {before io : IOManager} {op : Op} {move : Move}
    (safe : before.SafeRebuild op) (made : MadeBy before op io move) : CleanResize io move := by
  cases move with
  | resize size =>
      obtain ⟨rebuilt, rfl⟩ := made
      exact safe rebuilt
  | _ => trivial

@[simp] theorem registered_false_iff {ctx : FdContext} :
    ctx.registered = false ↔ ∀ e, ctx.has e = false := by
  simp only [FdContext.registered, Bool.or_eq_false_iff]
  constructor
  · rintro ⟨read, write⟩ e
    cases e with
    | none => simp
    | read => exact read
    | write => exact write
  · intro clear
    exact ⟨clear .read, clear .write⟩

def LaidFrom (base : Ptr) (io : IOManager) : Prop :=
  io.m_fdContexts = (List.range io.m_fdContexts.length).map (base + ·) ∧
    base + io.m_fdContexts.length ≤ io.allocated ∧ io.m_fdContexts.length ≤ UInt32.size ∧
    ∀ i, i < io.m_fdContexts.length → (io.heap (base + i)).fd = Int32.ofNat i

def Laid (io : IOManager) : Prop := ∃ base, LaidFrom base io

theorem contextResize_laid (io : IOManager) {size : Nat} (bounded : size ≤ UInt32.size) :
    LaidFrom io.allocated (io.contextResize size) := by
  refine ⟨by simp [IOManager.contextResize], by simp [IOManager.contextResize], ?_, ?_⟩
  · simpa [IOManager.contextResize] using bounded
  · intro i within
    have within : i < size := by simpa [IOManager.contextResize] using within
    simp [IOManager.contextResize, within]

/-- An update of one context that keeps its fd. -/
theorem laid_update {base : Ptr} {io io' : IOManager} (laid : LaidFrom base io)
    (table : io'.m_fdContexts = io.m_fdContexts) (allocated : io'.allocated = io.allocated)
    (fds : ∀ p, (io'.heap p).fd = (io.heap p).fd) : LaidFrom base io' := by
  unfold LaidFrom
  simp only [table, allocated, fds]
  exact laid

theorem update_fd (heap : Ptr → FdContext) (q : Ptr) (ctx : FdContext) (same : ctx.fd = (heap q).fd)
    (p : Ptr) : (Function.update heap q ctx p).fd = (heap p).fd := by
  by_cases at_q : p = q
  · subst at_q
    simpa using same
  · simp [at_q]

section Placement
variable {guard : IOManager → Move → Prop} {io : IOManager}

theorem reach_laid (reached : Reach moves guard io) : Laid io := by
  refine reached.invariant Laid ?_ ?_
  · rintro state rfl
    exact ⟨_, contextResize_laid {} (by decide)⟩
  · rintro before move after _ ⟨base, laid⟩ _ moved
    obtain ⟨able, rfl⟩ := moves_step moved
    cases move with
    | resize size => exact ⟨_, contextResize_laid before able⟩
    | control fd entry => exact ⟨base, laid⟩
    | register fd q e scheduler waiter =>
        exact ⟨base, laid_update laid rfl rfl (update_fd before.heap q _ (by simp))⟩
    | discard fd q e =>
        exact ⟨base, laid_update laid rfl rfl (update_fd before.heap q _ (by simp))⟩
    | fire q e scheduler =>
        exact ⟨base, laid_update laid rfl rfl (update_fd before.heap q _ (by simp))⟩

theorem context_fd (laid : Laid io) {fd : Int32} {p : Ptr} (found : io.context fd = some p) :
    (io.heap p).fd = fd := by
  obtain ⟨base, table, _, _, fds⟩ := laid
  unfold IOManager.context at found
  split at found
  · cases found
  rename_i nonneg
  have lookup := found
  rw [table, List.getElem?_map, Option.map_eq_some_iff] at lookup
  obtain ⟨i, at_i, rfl⟩ := lookup
  obtain ⟨within, value⟩ := List.getElem?_eq_some_iff.mp at_i
  -- the position in the block is the fd, and the contexts lie in fd order
  have same : fd.toNatClampNeg = i := by simpa using value
  rw [fds i (by simpa [same] using within), ← same]
  exact Int32.ofNat_toNatClampNeg fd (by simpa using nonneg)

theorem context_mem {fd : Int32} {p : Ptr} (found : io.context fd = some p) :
    p ∈ io.m_fdContexts := by
  unfold IOManager.context at found
  split at found
  · cases found
  · exact List.mem_of_getElem? found

theorem table_nodup (laid : Laid io) : io.m_fdContexts.Nodup := by
  obtain ⟨base, table, _⟩ := laid
  rw [table]
  exact List.nodup_range.map (fun _ _ same => Nat.add_left_cancel same)

/-- Every context with a registered event is the table's context of its fd. -/
def Placed (io : IOManager) : Prop :=
  ∀ p e, (io.heap p).has e = true → io.context (io.heap p).fd = some p

theorem placed_update {io io' : IOManager} {q : Ptr} {ctx : FdContext} (placed : Placed io)
    (table : io'.m_fdContexts = io.m_fdContexts) (heap : io'.heap = Function.update io.heap q ctx)
    (fd : ctx.fd = (io.heap q).fd)
    (found : ∀ e, ctx.has e = true → io.context (io.heap q).fd = some q) : Placed io' := by
  intro p e set
  have lookup : ∀ fd, io'.context fd = io.context fd := fun fd => by
    simp only [IOManager.context, table]
  rw [lookup, heap, update_fd _ _ _ fd]
  rw [heap] at set
  by_cases at_q : p = q
  · subst at_q
    exact found e (by simpa using set)
  · exact placed p e (by simpa [at_q] using set)

/-- A rebuilt table holds fresh contexts only. -/
theorem contextResize_fresh (io : IOManager) (size : Nat) {p : Ptr}
    (mem : p ∈ (io.contextResize size).m_fdContexts) (e : Event) :
    ((io.contextResize size).heap p).has e = false := by
  simp only [IOManager.contextResize, List.mem_map, List.mem_range] at mem
  obtain ⟨i, within, rfl⟩ := mem
  have inside : io.allocated ≤ io.allocated + i ∧ io.allocated + i < io.allocated + size := by
    omega
  simp only [IOManager.contextResize, if_pos inside]
  exact fresh_has _ e

theorem contextResize_has (io : IOManager) (size : Nat) (p : Ptr) (e : Event)
    (set : ((io.contextResize size).heap p).has e = true) : (io.heap p).has e = true := by
  simp only [IOManager.contextResize] at set
  split at set
  · rw [fresh_has] at set
    cases set
  · exact set

theorem reach_placed (clean : ∀ io move, guard io move → CleanResize io move)
    (reached : Reach moves guard io) : Placed io := by
  refine reached.invariant Placed ?_ ?_
  · rintro state rfl p e set
    have unset := contextResize_has {} 32 p e set
    simp [FdContext.has] at unset
  · intro before move after reached placed guarded moved
    obtain ⟨able, rfl⟩ := moves_step moved
    have laid := reach_laid reached
    cases move with
    | resize size =>
        -- nothing was registered in the table, so nothing is registered at all
        intro p e set
        have old := contextResize_has before size p e set
        have clear := clean before _ guarded p (context_mem (placed p e old))
        rw [registered_false_iff.mp clear e] at old
        cases old
    | control fd entry => exact placed
    | register fd q e scheduler waiter =>
        refine placed_update placed rfl rfl (by simp) fun _ _ => ?_
        rw [context_fd laid able.1]
        exact able.1
    | discard fd q e =>
        refine placed_update placed rfl rfl (by simp) fun _ _ => ?_
        rw [context_fd laid able.1]
        exact able.1
    | fire q e scheduler =>
        refine placed_update placed rfl rfl (by simp) fun e' set => ?_
        rw [FdContext.fired_has] at set
        cases set

theorem reach_moves_clean_sole
    (reached : Reach ioManager (fun io op => io.SafeRebuild op ∧ io.SoleEvent op) io) :
    Reach moves (fun io move => CleanResize io move ∧ SoleFire io move) io :=
  reach_moves (fun _ _ _ _ allowed made =>
    ⟨clean_resize_of_safe_rebuild allowed.1 made, sole_fire_of_sole_event allowed.2 made⟩) reached

end Placement

end Ztyco.EventTable
