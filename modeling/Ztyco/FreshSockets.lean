import Ztyco.Hooks

/-!
The descriptor state a new socket finds. The context of a number is made by one
hook and removed by another, and only a thread with hooking enabled runs
either. While no other thread closes a number that has a context, the numbers
with a context are open ones, so the kernel does not hand them out.
-/

namespace Ztyco.Descriptors

open EventTable (Ptr)
open Transition

/-- The context found for `fd` has the settings of a new one. -/
def Process.fresh (proc : Process) (fd : Int32) : Bool :=
  match proc.fdMgr.find fd with
  | some (some p) =>
      !(proc.fdMgr.heap p).m_userNonblock &&
        (proc.fdMgr.heap p).m_recvTimeout == -1 && (proc.fdMgr.heap p).m_sendTimeout == -1
  | _ => false

/-- A number that has a context is closed with hooking enabled, and the table
keeps a size that is an int. -/
def ClosedManaged (proc : Process) : Call → Prop
  | .close t_hook_enable fd => t_hook_enable = true ∨ (proc.fdMgr.find fd).join = none
  | .socket true (some handout) => Small handout.fd
  | _ => True

instance ClosedManaged.decidable (proc : Process) :
    (call : Call) → Decidable (ClosedManaged proc call)
  | .close t_hook_enable fd =>
      inferInstanceAs (Decidable (t_hook_enable = true ∨ (proc.fdMgr.find fd).join = none))
  | .socket true (some handout) => inferInstanceAs (Decidable (Small handout.fd))
  | .socket true none | .socket false _ | .setsockopt .. | .fcntl .. | .ioctl .. => .isTrue trivial

structure Owned (proc : Process) : Prop where
  tabled : proc.fdMgr.Tabled
  opened : ∀ fd, 0 ≤ fd → (proc.fdMgr.context fd).isSome = true →
    (proc.kernel.opened fd).isSome = true

theorem owned_initial {proc : Process} (initial : proc.fdMgr = {}) : Owned proc := by
  constructor
  · rw [initial]
    exact FdManager.tabled_empty
  · intro fd _ present
    rw [initial, FdManager.context_empty] at present
    cases present

theorem Owned.frame {proc after : Process} (owned : Owned proc)
    (table : after.fdMgr.m_datas = proc.fdMgr.m_datas)
    (opened : ∀ fd, (proc.kernel.opened fd).isSome = true →
      (after.kernel.opened fd).isSome = true) : Owned after := by
  constructor
  · constructor
    · rw [table]
      exact owned.tabled.least
    · rw [table]
      exact owned.tabled.fits
  · intro fd nonneg present
    apply opened
    apply owned.opened fd nonneg
    simpa only [FdManager.context, table] using present

@[simp] theorem Kernel.opened_alter (kernel : Kernel) (fd : Int32) (change : Flags → Flags) :
    (kernel.alter fd change).opened = kernel.opened := by
  unfold Kernel.alter
  split <;> rfl

theorem opened_socket {kernel : Kernel} (handout : Handout) {fd : Int32}
    (was : (kernel.opened fd).isSome = true) :
    ((kernel.socket (some handout)).2.opened fd).isSome = true := by
  by_cases same : fd = handout.fd
  · subst same
    simp [Kernel.socket]
  · simpa [Kernel.socket, same] using was

theorem opened_dupfd {kernel : Kernel} {fd newfd : Int32}
    (source : (kernel.opened fd).isSome = true) {other : Int32}
    (was : (kernel.opened other).isSome = true) :
    ((kernel.dupfd fd (some newfd)).2.opened other).isSome = true := by
  by_cases same : other = newfd
  · subst same
    simpa [Kernel.dupfd] using source
  · simpa [Kernel.dupfd, same] using was

/-- The number the kernel hands out has no context, so `get` makes one. -/
theorem socket_hooked {proc : Process} {handout : Handout} (owned : Owned proc)
    (free : proc.kernel.free handout.fd = true) (small : Small handout.fd) :
    ∃ after, proc.socket true (some handout) = some (handout.fd, after) ∧ Owned after ∧
      after.fresh handout.fd = true := by
  rcases Bool.and_eq_true_iff.mp free with ⟨nonneg, closed⟩
  have nonneg := of_decide_eq_true nonneg
  have absent : proc.fdMgr.context handout.fd = none := by
    cases present : proc.fdMgr.context handout.fd with
    | none => rfl
    | some p =>
        have opened := owned.opened handout.fd nonneg (by rw [present]; rfl)
        rw [Option.isNone_iff_eq_none.mp closed] at opened
        cases opened
  let kernel := (proc.kernel.socket (some handout)).2
  rcases FdManager.get_new owned.tabled nonneg absent kernel with
    ⟨mgr, created, size, heap, _, contexts⟩
  have tabled := FdManager.tabled_created owned.tabled nonneg small size
  refine ⟨{ kernel := kernel, fdMgr := mgr }, ?_, ⟨tabled, ?_⟩, ?_⟩
  · have valid := FdManager.ne_of_nonneg nonneg
    simp only [Process.socket, Kernel.socket, Bool.not_true, Bool.false_eq_true, ↓reduceIte, valid]
    change ((proc.fdMgr.get handout.fd true kernel).map _).map _ = _
    rw [created]
    rfl
  · intro fd nonneg' present
    by_cases same : fd = handout.fd
    · subst same
      simp [kernel, Kernel.socket]
    · apply opened_socket
      apply owned.opened fd nonneg'
      simpa [contexts fd nonneg', same] using present
  · rw [Process.fresh, FdManager.find_eq tabled nonneg, contexts handout.fd nonneg, if_pos rfl]
    have settings := constructed_settings handout.fd kernel
    simp [heap, settings]

/-! The other calls. -/

theorem owned_close_f {proc : Process} (owned : Owned proc) {fd : Int32}
    (absent : 0 ≤ fd → proc.fdMgr.context fd = none) : Owned (proc.close_f fd).2 := by
  refine ⟨owned.tabled, ?_⟩
  intro other nonneg present
  have known : (proc.fdMgr.context other).isSome = true := present
  by_cases same : other = fd
  · subst same
    rw [absent nonneg] at known
    cases known
  · simpa [Process.close_f, Kernel.close, same] using owned.opened other nonneg known

theorem find_negative {mgr : FdManager} (tabled : mgr.Tabled) {fd : Int32} (negative : fd < 0)
    {ctx : Option Ptr} (found : mgr.find fd = some ctx) : ctx = none := by
  by_cases invalid : fd = -1
  · subst invalid
    rw [FdManager.find_invalid] at found
    cases found
    rfl
  · have near : mgr.beyond fd = false := by
      apply Bool.eq_false_iff.mpr
      intro past
      have least := Int32.le_iff_toInt_le.mp (of_decide_eq_true past)
      have bounded := tabled.fits
      unfold sizeLimit at bounded
      rw [Int32.toInt_ofNat_of_lt (by simpa using bounded)] at least
      have below := Int32.lt_iff_toInt_lt.mp negative
      have zero : (0 : Int32).toInt = 0 := by decide
      omega
    rw [FdManager.find, FdManager.lookup, if_neg invalid, near, FdManager.slot, if_pos negative]
      at found
    cases found

/-- A close with hooking enabled drops the context first. -/
theorem owned_close_hooked {proc after : Process} {fd ret : Int32} (owned : Owned proc)
    (closed : proc.close true fd = some (ret, after)) : Owned after := by
  simp only [Process.close, Bool.not_true, Bool.false_eq_true, ↓reduceIte,
    Option.bind_eq_some_iff] at closed
  rcases closed with ⟨ctx, found, closed⟩
  by_cases nonneg : 0 ≤ fd
  · rw [FdManager.find_eq owned.tabled nonneg, Option.some_inj] at found
    cases ctx with
    | none =>
        cases closed
        exact owned_close_f owned fun _ => found
    | some p =>
        rcases FdManager.del_eq owned.tabled nonneg with ⟨mgr, deleted, tabled, _, _, contexts⟩
        simp only [deleted, Option.map_some, Option.some_inj] at closed
        cases closed
        have owned' : Owned { proc with fdMgr := mgr } := by
          refine ⟨tabled, ?_⟩
          intro other nonneg' present
          apply owned.opened other nonneg'
          by_cases same : other = fd
          · subst same
            have remains : (mgr.context other).isSome = true := present
            rw [contexts other nonneg', if_pos rfl] at remains
            cases remains
          · simpa [contexts other nonneg', same] using present
        apply owned_close_f owned'
        intro _
        exact (contexts fd nonneg).trans (if_pos rfl)
  · have negative : fd < 0 := Int32.not_le.mp nonneg
    rw [find_negative owned.tabled negative found] at closed
    cases closed
    exact owned_close_f owned fun nonneg' => absurd nonneg' nonneg

theorem owned_fcntl {proc after : Process} {fd ret : Int32} {cmd : FcntlCmd} (owned : Owned proc)
    (admitted : proc.kernel.admits (.fcntl fd cmd) = true)
    (called : proc.fcntl fd cmd = some (ret, after)) : Owned after := by
  cases cmd with
  | setfl arg =>
      rcases Option.map_eq_some_iff.mp called with ⟨ctx, _, done⟩
      split at done <;> cases done <;>
        exact owned.frame rfl fun fd was => by simpa [Kernel.setfl] using was
  | getfl =>
      rcases Option.map_eq_some_iff.mp called with ⟨ctx, _, done⟩
      split at done
      · cases done
        exact owned
      · split at done <;> cases done <;> exact owned
  | dupfd handout =>
      cases called
      cases handout with
      | none => exact owned
      | some newfd =>
          have source := (Bool.and_eq_true_iff.mp admitted).1
          exact owned.frame rfl fun other was => opened_dupfd source was
  | other answer =>
      cases called
      exact owned

theorem owned_ioctl {proc after : Process} {d ret : Int32} {request : IoctlRequest}
    (owned : Owned proc) (called : proc.ioctl d request = some (ret, after)) : Owned after := by
  cases request with
  | fionbio value =>
      rcases Option.map_eq_some_iff.mp called with ⟨ctx, _, done⟩
      split at done <;> cases done <;>
        exact owned.frame rfl fun fd was => by simpa [Kernel.fionbio] using was
  | other answer =>
      cases called
      exact owned

theorem owned_setsockopt {proc after : Process} {t_hook_enable : Bool}
    {sockfd level optname ret answer : Int32} {tv_sec tv_usec : Int64} (owned : Owned proc)
    (called : proc.setsockopt t_hook_enable sockfd level optname tv_sec tv_usec ret =
      some (answer, after)) : Owned after := by
  unfold Process.setsockopt at called
  split at called
  · cases called
    exact owned
  · split at called
    · rcases Option.map_eq_some_iff.mp called with ⟨ctx, _, done⟩
      split at done <;> cases done <;> exact owned.frame rfl fun _ was => was
    · cases called
      exact owned

theorem owned_socket {proc after : Process} {t_hook_enable : Bool} {ret : Int32}
    {handout : Option Handout} (owned : Owned proc)
    (admitted : proc.kernel.admits (.socket t_hook_enable handout) = true)
    (allowed : ClosedManaged proc (.socket t_hook_enable handout))
    (called : proc.socket t_hook_enable handout = some (ret, after)) : Owned after := by
  cases handout with
  | none =>
      have failed : after = proc := by
        unfold Process.socket at called
        simp only [Kernel.socket] at called
        split at called <;> cases called <;> rfl
      rw [failed]
      exact owned
  | some handout =>
      cases t_hook_enable with
      | false =>
          cases called
          exact owned.frame rfl fun _ was => opened_socket handout was
      | true =>
          rcases socket_hooked owned admitted allowed with ⟨other, done, kept, _⟩
          rw [done] at called
          cases called
          exact kept

theorem reach_owned {proc : Process} (reached : Reach hooks ClosedManaged proc) : Owned proc := by
  apply reached.invariant Owned
  · intro state initial
    exact owned_initial initial
  · intro before call after _ owned allowed moved
    simp only [hooks] at moved
    split at moved
    · rename_i admitted
      rcases Option.map_eq_some_iff.mp moved with ⟨⟨ret, _⟩, called, rfl⟩
      cases call with
      | socket t_hook_enable handout => exact owned_socket owned admitted allowed called
      | close t_hook_enable fd =>
          cases t_hook_enable with
          | true => exact owned_close_hooked owned called
          | false =>
              cases called
              apply owned_close_f owned
              intro nonneg
              rcases allowed with hooked | unmanaged
              · cases hooked
              · simpa [FdManager.find_eq owned.tabled nonneg] using unmanaged
      | setsockopt t_hook_enable sockfd level optname tv_sec tv_usec answer =>
          exact owned_setsockopt owned called
      | fcntl fd cmd => exact owned_fcntl owned admitted called
      | ioctl d request => exact owned_ioctl owned called
    · cases moved

/-- In a run in which no number that has a context is closed with hooking
disabled, every socket opened with hooking enabled finds a new context. -/
theorem socket_fresh {proc : Process} (handout : Handout)
    (reached : Reach hooks ClosedManaged proc) (free : proc.kernel.free handout.fd = true)
    (small : Small handout.fd) :
    ∃ after, proc.socket true (some handout) = some (handout.fd, after) ∧
      after.fresh handout.fd = true := by
  rcases socket_hooked (reach_owned reached) free small with ⟨after, done, _, fresh⟩
  exact ⟨after, done, fresh⟩

theorem socket_fresh_again :
    ∃ proc, run hooks {} [.socket true (some { fd := 5 }),
        .setsockopt true 5 SOL_SOCKET SO_RCVTIMEO 3 0 0, .close true 5] = some proc ∧
      ∃ after, proc.socket true (some { fd := 5 }) = some (5, after) ∧ after.fresh 5 = true :=
  run_meets_where ClosedManaged (fun proc => proc.kernel.free 5) rfl (by decide) (by decide)
    fun _ reached free => socket_fresh { fd := 5 } reached free (by decide)

/-- Closed with hooking disabled, the number keeps its context and its timeout. -/
theorem socket_fresh_fails :
    ¬ ∀ (proc : Process) (handout : Handout), Reach hooks anyStep proc →
      proc.kernel.free handout.fd = true →
        ∃ after, proc.socket true (some handout) = some (handout.fd, after) ∧
          after.fresh handout.fd = true := by
  intro all
  rcases reach_where hooks anyStep {} [.socket true (some { fd := 5 }),
      .setsockopt true 5 SOL_SOCKET SO_RCVTIMEO 3 0 0, .close false 5]
      (fun proc => proc.kernel.free 5 &&
        (proc.socket true (some { fd := 5 })).any fun answer => !answer.2.fresh 5)
      rfl (by decide) (by decide) with ⟨proc, reached, ends⟩
  rcases Bool.and_eq_true_iff.mp ends with ⟨free, stale⟩
  rcases all proc { fd := 5 } reached free with ⟨after, done, fresh⟩
  rw [done] at stale
  simp [fresh] at stale

end Ztyco.Descriptors
