import Ztyco.SysNonblock

/-!
The user's view of `O_NONBLOCK`. `F_SETFL` and `FIONBIO` note what the user asks
for in the context, and `F_GETFL` puts it in the place of the kernel's flag.
-/

namespace Ztyco.Descriptors

open EventTable (Ptr)
open Transition

/-- The last setting asked for through each context is history. -/
structure Recorded where
  proc : Process := {}
  requested : Ptr → Option Bool := fun _ => none

def Process.request (proc : Process) : Call → Option (Ptr × Bool)
  | .fcntl fd (.setfl arg) => (proc.fdMgr.find fd).join.map fun p => (p, arg &&& O_NONBLOCK != 0)
  | .ioctl d (.fionbio value) => (proc.fdMgr.find d).join.map fun p => (p, value ≠ 0)
  | .socket .. | .close .. | .setsockopt .. | .fcntl _ _ | .ioctl _ _ => none

def Recorded.note (r : Recorded) : Option (Ptr × Bool) → Ptr → Option Bool
  | some (p, v) => Function.update r.requested p (some v)
  | none => r.requested

def recorded : Machine Recorded Call where
  initial r := hooks.initial r.proc ∧ r.requested = fun _ => none
  step r call := (hooks.step r.proc call).map fun after =>
    { proc := after, requested := r.note (r.proc.request call) }

/-! What a call does to the contexts. -/

inductive Moves (mgr : FdManager) : Option (Ptr × Bool) → FdManager → Prop where
  | stays : Moves mgr none mgr
  | set (p : Ptr) (v : Bool) (present : some p ∈ mgr.m_datas) :
      Moves mgr (some (p, v)) (mgr.store p { mgr.heap p with m_userNonblock := v })
  | ignored (p : Ptr) (v : Bool) (present : some p ∈ mgr.m_datas)
      (unmanaged : (mgr.heap p).m_isClosed = true ∨ (mgr.heap p).m_isSocket = false) :
      Moves mgr (some (p, v)) mgr
  | timed (p : Ptr) (type : Int32) (v : UInt64) :
      Moves mgr none (mgr.store p ((mgr.heap p).setTimeout type v))
  | created (fd : Int32) (kernel later : Kernel) (p : Ptr) (after : FdManager)
      (made : mgr.create fd kernel = some (p, after, later)) : Moves mgr none after
  | dropped (fd : Int32) (after : FdManager) (deleted : mgr.del fd = some after) :
      Moves mgr none after

theorem find_mem {mgr : FdManager} {fd : Int32} {p : Ptr} (found : mgr.find fd = some (some p)) :
    some p ∈ mgr.m_datas := by
  unfold FdManager.find FdManager.lookup at found
  split at found
  · rename_i ctx looked
    rcases Option.some_inj.mp found with rfl
    split at looked
    · cases looked
    · split at looked
      · split at looked <;> cases looked
      · split at looked
        · cases looked
        · rename_i ctx slot
          split at looked
          · cases looked
            unfold FdManager.slot at slot
            split at slot
            · cases slot
            · exact List.mem_of_getElem? slot
          · cases looked
  · cases found

theorem managed_none {proc : Process} {p : Ptr} (unmanaged : proc.managed (some p) = none) :
    (proc.fdMgr.heap p).m_isClosed = true ∨ (proc.fdMgr.heap p).m_isSocket = false := by
  simp only [Process.managed, Option.filter_some, ite_eq_right_iff, reduceCtorEq,
    imp_false] at unmanaged
  cases closed : (proc.fdMgr.heap p).m_isClosed with
  | true => exact Or.inl rfl
  | false =>
      cases socket : (proc.fdMgr.heap p).m_isSocket with
      | true => simp [closed, socket] at unmanaged
      | false => exact Or.inr rfl

theorem managed_some {proc : Process} {p q : Ptr} (managed : proc.managed (some p) = some q) :
    q = p := by
  rw [Process.managed, Option.filter_some] at managed
  split at managed
  · cases managed
    rfl
  · cases managed

section Calls
variable {proc after : Process} {fd ret : Int32}

theorem socket_table {t_hook_enable : Bool} {handout : Option Handout}
    (called : proc.socket t_hook_enable handout = some (ret, after)) :
    after.fdMgr = proc.fdMgr ∨ ∃ fd kernel ctx later,
      proc.fdMgr.get fd true kernel = some (ctx, after.fdMgr, later) := by
  unfold Process.socket at called
  generalize proc.kernel.socket handout = answer at called
  rcases answer with ⟨fd, kernel⟩
  simp only at called
  split at called
  · cases called
    exact Or.inl rfl
  · split at called
    · cases called
      exact Or.inl rfl
    · rcases Option.map_eq_some_iff.mp called with ⟨⟨ctx, made⟩, got, same⟩
      rcases Option.map_eq_some_iff.mp got with ⟨⟨ctx', mgr, kernel'⟩, found, same'⟩
      cases same
      cases same'
      exact Or.inr ⟨_, _, _, _, found⟩

theorem close_table {t_hook_enable : Bool}
    (called : proc.close t_hook_enable fd = some (ret, after)) :
    after.fdMgr = proc.fdMgr ∨ proc.fdMgr.del fd = some after.fdMgr := by
  unfold Process.close at called
  split at called
  · cases called
    exact Or.inl rfl
  · rcases Option.bind_eq_some_iff.mp called with ⟨ctx, _, called⟩
    cases ctx with
    | none =>
        cases called
        exact Or.inl rfl
    | some p =>
        rcases Option.map_eq_some_iff.mp called with ⟨mgr, deleted, same⟩
        cases same
        exact Or.inr deleted

theorem get_moves {mgr result : FdManager} {ctx : Option Ptr} {kernel later : Kernel}
    (got : mgr.get fd true kernel = some (ctx, result, later)) : Moves mgr none result := by
  rcases FdManager.get_cases got with rfl | ⟨p, created⟩
  · exact .stays
  · exact .created fd kernel later p result created

theorem socket_moves {t_hook_enable : Bool} {handout : Option Handout}
    (called : proc.socket t_hook_enable handout = some (ret, after)) :
    Moves proc.fdMgr none after.fdMgr := by
  rcases socket_table called with same | ⟨_, _, _, _, found⟩
  · rw [same]
    exact .stays
  · exact get_moves found

theorem close_moves {t_hook_enable : Bool}
    (called : proc.close t_hook_enable fd = some (ret, after)) :
    Moves proc.fdMgr none after.fdMgr := by
  rcases close_table called with same | deleted
  · rw [same]
    exact .stays
  · exact .dropped fd after.fdMgr deleted

theorem setsockopt_moves {t_hook_enable : Bool} {level optname answer : Int32}
    {tv_sec tv_usec : Int64}
    (called : proc.setsockopt t_hook_enable fd level optname tv_sec tv_usec ret =
      some (answer, after)) : Moves proc.fdMgr none after.fdMgr := by
  unfold Process.setsockopt at called
  split at called
  · cases called
    exact .stays
  · split at called
    · rcases Option.map_eq_some_iff.mp called with ⟨ctx, _, done⟩
      cases ctx with
      | none =>
          cases done
          exact .stays
      | some p =>
          cases done
          exact .timed p optname _
    · cases called
      exact .stays

theorem noted_moves {ctx : Option Ptr} {v : Bool} (found : proc.fdMgr.find fd = some ctx)
    (plain : proc.managed ctx = none → after.fdMgr = proc.fdMgr)
    (noted : ∀ p, proc.managed ctx = some p → after.fdMgr = (proc.setUserNonblock p v).fdMgr) :
    Moves proc.fdMgr (ctx.map fun p => (p, v)) after.fdMgr := by
  cases ctx with
  | none =>
      rw [plain rfl]
      exact .stays
  | some p =>
      cases managed : proc.managed (some p) with
      | none =>
          rw [plain managed]
          exact .ignored p v (find_mem found) (managed_none managed)
      | some q =>
          rcases managed_some managed with rfl
          rw [noted q managed]
          exact .set q v (find_mem found)

theorem fcntl_moves {cmd : FcntlCmd} (called : proc.fcntl fd cmd = some (ret, after)) :
    Moves proc.fdMgr (proc.request (.fcntl fd cmd)) after.fdMgr := by
  cases cmd with
  | setfl arg =>
      rcases Option.map_eq_some_iff.mp called with ⟨ctx, found, done⟩
      simp only [Process.request, found, Option.join_some]
      apply noted_moves found
      · intro unmanaged
        rw [unmanaged] at done
        cases done
        rfl
      · intro p managed
        rw [managed] at done
        cases done
        rfl
  | getfl =>
      rcases Option.map_eq_some_iff.mp called with ⟨ctx, _, done⟩
      split at done
      · cases done
        exact .stays
      · split at done <;>
        · cases done
          exact .stays
  | dupfd handout =>
      cases called
      exact .stays
  | other answer =>
      cases called
      exact .stays

theorem ioctl_moves {request : IoctlRequest} (called : proc.ioctl fd request = some (ret, after)) :
    Moves proc.fdMgr (proc.request (.ioctl fd request)) after.fdMgr := by
  cases request with
  | fionbio value =>
      rcases Option.map_eq_some_iff.mp called with ⟨ctx, found, done⟩
      simp only [Process.request, found, Option.join_some]
      apply noted_moves found
      · intro unmanaged
        rw [unmanaged] at done
        cases done
        rfl
      · intro p managed
        rw [managed] at done
        cases done
        rfl
  | other answer =>
      cases called
      exact .stays

theorem call_moves {call : Call} (moved : hooks.step proc call = some after) :
    Moves proc.fdMgr (proc.request call) after.fdMgr := by
  simp only [hooks] at moved
  split at moved
  · rcases Option.map_eq_some_iff.mp moved with ⟨⟨ret, _⟩, called, rfl⟩
    cases call with
    | socket t_hook_enable handout => exact socket_moves called
    | close t_hook_enable fd => exact close_moves called
    | setsockopt t_hook_enable sockfd level optname tv_sec tv_usec answer =>
        exact setsockopt_moves called
    | fcntl fd cmd => exact fcntl_moves called
    | ioctl d request => exact ioctl_moves called
  · cases moved

end Calls

/-! What every way keeps. -/

/-- No context is ever closed, and a socket's has the last setting asked for
through it, or the default. -/
structure Tracked (mgr : FdManager) (requested : Ptr → Option Bool) : Prop where
  unclosed : ∀ p, (mgr.heap p).m_isClosed = false
  user : ∀ p, (mgr.heap p).m_isSocket = true →
    (mgr.heap p).m_userNonblock = (requested p).getD false
  unused : ∀ p, mgr.allocated ≤ p → requested p = none
  known : ∀ p, some p ∈ mgr.m_datas → p < mgr.allocated

section Keep
variable {mgr after : FdManager} {requested : Ptr → Option Bool}

theorem tracked_empty : Tracked {} fun _ => none where
  unclosed _ := rfl
  user _ _ := rfl
  unused _ _ := rfl
  known p present := by
    have filled : ({} : FdManager).m_datas = List.replicate 64 none := rfl
    rw [filled] at present
    cases List.eq_of_mem_replicate present

theorem constructed_unclosed (fd : Int32) (kernel : Kernel) :
    (FdCtx.constructed fd kernel).1.m_isClosed = false := by
  simp only [FdCtx.constructed, FdCtx.init, Bool.false_eq_true, ↓reduceIte]

theorem assign_keeps {fd : Int32} {ctx : Option Ptr} (assigned : mgr.assign fd ctx = some after) :
    after.heap = mgr.heap ∧ after.allocated = mgr.allocated ∧
      ∀ p, some p ∈ after.m_datas → some p = ctx ∨ some p ∈ mgr.m_datas := by
  rcases FdManager.assign_cases assigned with rfl
  refine ⟨rfl, rfl, ?_⟩
  intro p present
  exact (List.mem_or_eq_of_mem_set present).symm

theorem makeRoom_mem {fd : Int32} {p : Ptr} (present : some p ∈ (mgr.makeRoom fd).m_datas) :
    some p ∈ mgr.m_datas := by
  unfold FdManager.makeRoom at present
  split at present
  · rcases List.mem_append.mp present with old | filled
    · exact List.mem_of_mem_take old
    · cases List.eq_of_mem_replicate filled
  · exact present

/-- A change through a pointer that keeps what a context is, and its user setting
unless that is what is asked for. -/
theorem Tracked.store (tracked : Tracked mgr requested) {p : Ptr} {ctx : FdCtx}
    {asked : Ptr → Option Bool} (unclosed : ctx.m_isClosed = false)
    (socket : ctx.m_isSocket = (mgr.heap p).m_isSocket)
    (user : ctx.m_isSocket = true → ctx.m_userNonblock = (asked p).getD false)
    (others : ∀ q, q ≠ p → asked q = requested q)
    (unused : mgr.allocated ≤ p → asked p = none) : Tracked (mgr.store p ctx) asked := by
  constructor
  · intro q
    by_cases same : q = p
    · simpa [FdManager.store, same] using unclosed
    · simpa [FdManager.store, same] using tracked.unclosed q
  · intro q
    by_cases same : q = p
    · simpa [FdManager.store, same] using user
    · rw [others q same]
      simpa [FdManager.store, same] using tracked.user q
  · intro q past
    by_cases same : q = p
    · subst same
      exact unused past
    · rw [others q same]
      exact tracked.unused q past
  · exact tracked.known

theorem create_adds {fd : Int32} {kernel later : Kernel} {p : Ptr}
    (made : mgr.create fd kernel = some (p, after, later)) :
    after.heap = Function.update mgr.heap mgr.allocated (FdCtx.constructed fd kernel).1 ∧
      after.allocated = mgr.allocated + 1 ∧
      ∀ q, some q ∈ after.m_datas → q = mgr.allocated ∨ some q ∈ mgr.m_datas := by
  let filled : FdManager :=
    ⟨mgr.m_datas, Function.update mgr.heap mgr.allocated (FdCtx.constructed fd kernel).1,
      mgr.allocated + 1⟩
  change ((filled.makeRoom fd).assign fd (some mgr.allocated)).map _ = _ at made
  rcases Option.map_eq_some_iff.mp made with ⟨result, assigned, same⟩
  cases same
  rcases assign_keeps assigned with ⟨heap, allocated, members⟩
  refine ⟨heap.trans FdManager.makeRoom_heap, allocated.trans FdManager.makeRoom_allocated, ?_⟩
  intro q present
  rcases members q present with new | old
  · exact Or.inl (Option.some_inj.mp new)
  · have kept : some q ∈ filled.m_datas := makeRoom_mem old
    exact Or.inr kept

theorem Tracked.create (tracked : Tracked mgr requested) {fd : Int32} {kernel later : Kernel}
    {p : Ptr} (made : mgr.create fd kernel = some (p, after, later)) :
    Tracked after requested := by
  rcases create_adds made with ⟨heap, allocated, members⟩
  constructor
  · intro q
    by_cases same : q = mgr.allocated
    · subst same
      simpa [heap] using constructed_unclosed fd kernel
    · simpa [heap, same] using tracked.unclosed q
  · intro q
    by_cases same : q = mgr.allocated
    · subst same
      have settings := constructed_settings fd kernel
      simp [heap, settings, tracked.unused mgr.allocated (Nat.le_refl _)]
    · simpa [heap, same] using tracked.user q
  · intro q past
    rw [allocated] at past
    exact tracked.unused q (Nat.le_of_succ_le past)
  · intro q present
    rw [allocated]
    rcases members q present with rfl | old
    · exact Nat.lt_succ_self _
    · exact Nat.lt_succ_of_lt (tracked.known q old)

theorem Tracked.del (tracked : Tracked mgr requested) {fd : Int32}
    (deleted : mgr.del fd = some after) : Tracked after requested := by
  rcases FdManager.del_cases deleted with rfl | assigned
  · exact tracked
  · rcases assign_keeps assigned with ⟨heap, allocated, members⟩
    constructor
    · rw [heap]
      exact tracked.unclosed
    · rw [heap]
      exact tracked.user
    · rw [allocated]
      exact tracked.unused
    · intro p present
      rw [allocated]
      rcases members p present with new | old
      · cases new
      · exact tracked.known p old

theorem Tracked.move {r : Recorded} {request : Option (Ptr × Bool)}
    (tracked : Tracked r.proc.fdMgr r.requested) (moves : Moves r.proc.fdMgr request after) :
    Tracked after (r.note request) := by
  cases moves with
  | stays => exact tracked
  | set p v present =>
      apply tracked.store
      · exact tracked.unclosed p
      · rfl
      · intro _
        simp [Recorded.note]
      · exact fun q different => Function.update_of_ne different _ _
      · exact fun past => absurd (tracked.known p present) (Nat.not_lt.mpr past)
  | ignored p v present unmanaged =>
      have plain : (r.proc.fdMgr.heap p).m_isSocket = false := by
        rcases unmanaged with closed | plain
        · rw [tracked.unclosed p] at closed
          cases closed
        · exact plain
      constructor
      · exact tracked.unclosed
      · intro q socket
        have different : q ≠ p := by
          rintro rfl
          rw [plain] at socket
          cases socket
        rw [tracked.user q socket]
        exact congrArg (Option.getD · false) (Function.update_of_ne different _ _).symm
      · intro q past
        have different : q ≠ p := by
          rintro rfl
          exact absurd (tracked.known q present) (Nat.not_lt.mpr past)
        exact (Function.update_of_ne different _ _).trans (tracked.unused q past)
      · exact tracked.known
  | timed p type v =>
      have kept : ∀ ctx : FdCtx, (ctx.setTimeout type v).m_isClosed = ctx.m_isClosed ∧
          (ctx.setTimeout type v).m_isSocket = ctx.m_isSocket ∧
          (ctx.setTimeout type v).m_userNonblock = ctx.m_userNonblock := by
        intro ctx
        unfold FdCtx.setTimeout
        split <;> exact ⟨rfl, rfl, rfl⟩
      rcases kept (r.proc.fdMgr.heap p) with ⟨closed, socket, user⟩
      apply tracked.store (closed.trans (tracked.unclosed p)) socket
      · intro isSocket
        rw [user]
        exact tracked.user p (socket ▸ isSocket)
      · exact fun _ _ => rfl
      · exact tracked.unused p
  | created fd kernel later p after made => exact tracked.create made
  | dropped fd after deleted => exact tracked.del deleted

end Keep

theorem reach_tracked {r : Recorded} (reached : Reach recorded anyStep r) :
    Tracked r.proc.fdMgr r.requested := by
  apply reached.invariant (fun r => Tracked r.proc.fdMgr r.requested)
  · rintro ⟨proc, requested⟩ ⟨initial, silent⟩
    simp only [hooks] at initial
    simp only at silent
    rw [initial, silent]
    exact tracked_empty
  · intro before call after _ tracked _ moved
    rcases Option.map_eq_some_iff.mp moved with ⟨proc, taken, rfl⟩
    exact tracked.move (call_moves taken)

theorem reach_recorded {proc : Process} (reached : Reach hooks anyStep proc) :
    ∃ requested, Reach recorded anyStep { proc := proc, requested := requested } := by
  apply reached.invariant fun proc =>
    ∃ requested, Reach recorded anyStep { proc := proc, requested := requested }
  · intro proc initial
    exact ⟨_, .start ⟨initial, rfl⟩⟩
  · rintro before call after _ ⟨requested, prior⟩ _ moved
    let r : Recorded := { proc := before, requested := requested }
    refine ⟨r.note (before.request call), prior.extend (.single call trivial ?_)⟩
    simp only [recorded, moved, Option.map_some]
    rfl

theorem never_closed {proc : Process} (reached : Reach hooks anyStep proc) (p : Ptr) :
    (proc.fdMgr.heap p).m_isClosed = false := by
  rcases reach_recorded reached with ⟨requested, recorded⟩
  exact (reach_tracked recorded).unclosed p

/-! What the user reads. -/

structure Shows (word kernel : Flags) (on : Prop) : Prop where
  flag : word &&& O_NONBLOCK ≠ 0 ↔ on
  rest : word &&& ~~~O_NONBLOCK = kernel &&& ~~~O_NONBLOCK

theorem nonblock_self : O_NONBLOCK &&& ~~~O_NONBLOCK = 0 := by decide

theorem shows_set (kernel : Flags) : Shows (kernel ||| O_NONBLOCK) kernel True where
  flag := by
    rw [nonblock_iff, BitVec.getLsbD_or, nonblock_bit 11 (by decide)]
    simp
  rest := by
    rw [BitVec.and_or_distrib_right, nonblock_self]
    exact BitVec.or_zero

theorem shows_clear (kernel : Flags) : Shows (kernel &&& ~~~O_NONBLOCK) kernel False where
  flag := by
    rw [BitVec.and_assoc, BitVec.and_comm (~~~O_NONBLOCK), nonblock_self]
    simp
  rest := by rw [BitVec.and_assoc, BitVec.and_self]

/-- What the user reads of a socket that has a context is what the user last asked
for through it, whether or not the kernel agreed, with the other flags from the kernel. -/
theorem user_view {r : Recorded} (reached : Reach recorded anyStep r) {fd : Int32} {p : Ptr}
    (found : r.proc.fdMgr.find fd = some (some p))
    (socket : (r.proc.fdMgr.heap p).m_isSocket = true) :
    ∃ word, r.proc.fcntl fd .getfl = some (.ofBitVec word, r.proc) ∧
      Shows word (r.proc.kernel.getfl fd) (r.requested p = some true) := by
  have tracked := reach_tracked reached
  have managed : r.proc.managed (some p) = some p := by
    simp [Process.managed, tracked.unclosed p, socket]
  have user := tracked.user p socket
  have asked : (r.proc.fdMgr.heap p).m_userNonblock = true ↔ r.requested p = some true := by
    rw [user]
    cases r.requested p <;> simp
  by_cases on : (r.proc.fdMgr.heap p).m_userNonblock = true
  · refine ⟨r.proc.kernel.getfl fd ||| O_NONBLOCK, ?_, ?_⟩
    · simp only [Process.fcntl, found, Option.map_some, managed, if_pos on]
    · have shows := shows_set (r.proc.kernel.getfl fd)
      exact ⟨shows.flag.trans (iff_of_true trivial (asked.mp on)), shows.rest⟩
  · refine ⟨r.proc.kernel.getfl fd &&& ~~~O_NONBLOCK, ?_, ?_⟩
    · simp only [Process.fcntl, found, Option.map_some, managed, if_neg on]
    · have shows := shows_clear (r.proc.kernel.getfl fd)
      exact ⟨shows.flag.trans (iff_of_false id (fun asks => on (asked.mpr asks))), shows.rest⟩

theorem user_view_five :
    ∃ r, run recorded {} [.socket true (some { fd := 5, flags := 0x402 }),
        .fcntl 5 (.setfl 0xc00), .ioctl 5 (.fionbio 1), .fcntl 5 (.setfl 0x400)] = some r ∧
      r.proc.kernel.getfl 5 = 0xc02 ∧
      ∃ word, r.proc.fcntl 5 .getfl = some (.ofBitVec word, r.proc) ∧
        Shows word 0xc02 (r.requested 0 = some true) := by
  refine run_meets_where anyStep
    (fun r : Recorded => decide (r.proc.fdMgr.find 5 = some (some 0)) &&
      (r.proc.fdMgr.heap 0).m_isSocket && decide (r.proc.kernel.getfl 5 = 0xc02))
    ⟨rfl, rfl⟩ (by decide) (by decide) ?_
  intro r reached facts
  rcases Bool.and_eq_true_iff.mp facts with ⟨facts, kernel⟩
  rcases Bool.and_eq_true_iff.mp facts with ⟨found, socket⟩
  have shown := user_view reached (of_decide_eq_true found) socket
  rw [of_decide_eq_true kernel] at shown
  exact ⟨of_decide_eq_true kernel, shown⟩

end Ztyco.Descriptors
