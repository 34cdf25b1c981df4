import Ztyco.Hooks

/-!
The kernel's `O_NONBLOCK` flag of one managed socket, from the creation of its
context on. Of the three places that write the flag only `F_SETFL` restores it:
the creation tests the negated word, and `FIONBIO` hands the user's value on.
-/

namespace Ztyco.Descriptors

open EventTable (Ptr)
open Transition

inductive Control where
  | setfl (arg : Flags)
  | fionbio (value : Int32)
  deriving DecidableEq, Repr

def Control.call (fd : Int32) : Control → Call
  | .setfl arg => .fcntl fd (.setfl arg)
  | .fionbio value => .ioctl fd (.fionbio value)

def Process.Nonblocking (proc : Process) (fd : Int32) : Prop :=
  ∀ p, proc.fdMgr.find fd = some (some p) → (proc.fdMgr.heap p).m_sysNonblock = true →
    proc.kernel.getfl fd &&& O_NONBLOCK ≠ 0

def Process.StaysNonblocking (proc : Process) (fd : Int32) : List Control → Prop
  | [] => proc.Nonblocking fd
  | control :: rest => proc.Nonblocking fd ∧
      ∃ after, hooks.step proc (control.call fd) = some after ∧ after.StaysNonblocking fd rest

def ManagedNonblocking (kernel : Kernel) (fd : Int32) (controls : List Control) : Prop :=
  ∃ ctx proc, Process.FdMgr.get { kernel := kernel } fd true = some (ctx, proc) ∧
    proc.StaysNonblocking fd controls

/-! What the calls do to the flag word. -/

def Control.word (word : Flags) : Control → Flags
  | .setfl arg => (word &&& ~~~SETFL_MASK) ||| ((arg ||| O_NONBLOCK) &&& SETFL_MASK)
  | .fionbio value => if value ≠ 0 then word ||| O_NONBLOCK else word &&& ~~~O_NONBLOCK

theorem nonblock_bit (i : Nat) (within : i < 32) : O_NONBLOCK.getLsbD i = decide (i = 11) := by
  revert i
  decide

theorem zero_bit (i : Nat) : (0 : Flags).getLsbD i = false := BitVec.getLsbD_zero

theorem nonblock_iff (flags : Flags) : flags &&& O_NONBLOCK ≠ 0 ↔ flags.getLsbD 11 = true := by
  constructor
  · intro set
    cases bit : flags.getLsbD 11 with
    | true => rfl
    | false =>
        exfalso
        apply set
        apply BitVec.eq_of_getLsbD_eq
        intro i within
        rw [BitVec.getLsbD_and, nonblock_bit i within, zero_bit]
        by_cases same : i = 11
        · rw [same, bit]
          rfl
        · simp [same]
  · intro bit empty
    have cleared : (flags &&& O_NONBLOCK).getLsbD 11 = false := by rw [empty, zero_bit]
    rw [BitVec.getLsbD_and, bit] at cleared
    exact absurd cleared (by decide)

theorem setfl_word (word arg : Flags) :
    (Control.setfl arg).word word &&& O_NONBLOCK ≠ 0 := by
  rw [nonblock_iff, Control.word, BitVec.getLsbD_or, BitVec.getLsbD_and, BitVec.getLsbD_and,
    BitVec.getLsbD_or]
  have forced : O_NONBLOCK.getLsbD 11 = true := by decide
  have settable : SETFL_MASK.getLsbD 11 = true := by decide
  rw [forced, settable]
  simp

theorem fionbio_word (word : Flags) (value : Int32) :
    (Control.fionbio value).word word &&& O_NONBLOCK ≠ 0 ↔ value ≠ 0 := by
  have forced : O_NONBLOCK.getLsbD 11 = true := by decide
  have dropped : (~~~O_NONBLOCK).getLsbD 11 = false := by decide
  rw [nonblock_iff, Control.word]
  split
  · rename_i on
    rw [BitVec.getLsbD_or, forced]
    simp [on]
  · rename_i off
    rw [BitVec.getLsbD_and, dropped]
    simp only [Bool.and_false, Bool.false_eq_true, false_iff]
    exact off

/-! A socket whose context is found, and one whose context is not. -/

structure Managing (proc : Process) (fd : Int32) (p : Ptr) (word : Flags) : Prop where
  found : proc.fdMgr.find fd = some (some p)
  managed : proc.managed (some p) = some p
  sys : (proc.fdMgr.heap p).m_sysNonblock = true
  file : ∃ file, proc.kernel.file fd = some file ∧ file.flags = word

theorem Kernel.alter_flags {kernel : Kernel} {fd : Int32} {file : File} (change : Flags → Flags)
    (opened : kernel.file fd = some file) :
    ∃ after, (kernel.alter fd change).file fd = some after ∧ after.flags = change file.flags := by
  rcases Option.map_eq_some_iff.mp opened with ⟨id, known, rfl⟩
  refine ⟨{ kernel.files id with flags := change (kernel.files id).flags }, ?_, rfl⟩
  simp [Kernel.alter, Kernel.file, known]

theorem Managing.nonblocking_iff {proc : Process} {fd : Int32} {p : Ptr} {word : Flags}
    (managing : Managing proc fd p word) :
    proc.Nonblocking fd ↔ word &&& O_NONBLOCK ≠ 0 := by
  rcases managing.file with ⟨file, opened, rfl⟩
  have reported : proc.kernel.getfl fd = file.flags := by rw [Kernel.getfl, opened]
  rw [Process.Nonblocking, reported]
  constructor
  · intro holds
    exact holds p managing.found managing.sys
  · intro set _ _ _
    exact set

theorem Managing.setUserNonblock {proc : Process} {fd : Int32} {p : Ptr} {word : Flags}
    (managing : Managing proc fd p word) (v : Bool) :
    Managing (proc.setUserNonblock p v) fd p word := by
  constructor
  · exact managing.found
  · simpa [Process.managed, Process.setUserNonblock, FdManager.store] using managing.managed
  · simpa [Process.setUserNonblock, FdManager.store] using managing.sys
  · exact managing.file

theorem Managing.step {proc : Process} {fd : Int32} {p : Ptr} {word : Flags}
    (managing : Managing proc fd p word) (control : Control) :
    ∃ after, hooks.step proc (control.call fd) = some after ∧
      Managing after fd p (control.word word) := by
  cases control with
  | setfl arg =>
      have recorded := managing.setUserNonblock (arg &&& O_NONBLOCK != 0)
      rcases recorded.file with ⟨file, opened, rfl⟩
      refine ⟨{ proc.setUserNonblock p (arg &&& O_NONBLOCK != 0) with
        kernel := proc.kernel.setfl fd (arg ||| O_NONBLOCK) }, ?_, ?_⟩
      · have forced := recorded.sys
        simp only [hooks, Control.call, Kernel.admits, ↓reduceIte, Process.call, Process.fcntl,
          managing.found, Option.map_some, managing.managed, forced]
        rfl
      · exact ⟨recorded.found, recorded.managed, recorded.sys, Kernel.alter_flags _ opened⟩
  | fionbio value =>
      have recorded := managing.setUserNonblock (value ≠ 0)
      rcases recorded.file with ⟨file, opened, rfl⟩
      refine ⟨{ proc.setUserNonblock p (value ≠ 0) with
        kernel := proc.kernel.fionbio fd value }, ?_, ?_⟩
      · simp only [hooks, Control.call, Kernel.admits, ↓reduceIte, Process.call, Process.ioctl,
          managing.found, Option.map_some, managing.managed]
        rfl
      · exact ⟨recorded.found, recorded.managed, recorded.sys, Kernel.alter_flags _ opened⟩

theorem stays_iff {proc : Process} {fd : Int32} {p : Ptr} {word : Flags}
    (managing : Managing proc fd p word) (controls : List Control) :
    proc.StaysNonblocking fd controls ↔
      word &&& O_NONBLOCK ≠ 0 ∧ ∀ value, .fionbio value ∈ controls → value ≠ 0 := by
  induction controls generalizing proc word with
  | nil =>
      rw [Process.StaysNonblocking, managing.nonblocking_iff]
      simp
  | cons control rest ih =>
      rcases managing.step control with ⟨after, taken, later⟩
      have tail : (∃ next, hooks.step proc (control.call fd) = some next ∧
          next.StaysNonblocking fd rest) ↔ after.StaysNonblocking fd rest := by
        constructor
        · rintro ⟨next, moved, stays⟩
          rw [taken] at moved
          cases moved
          exact stays
        · intro stays
          exact ⟨after, taken, stays⟩
      rw [Process.StaysNonblocking, managing.nonblocking_iff, tail, ih later]
      cases control with
      | setfl arg =>
          have set := setfl_word word arg
          simp only [List.mem_cons, reduceCtorEq, false_or, and_iff_right set]
      | fionbio value =>
          rw [fionbio_word]
          simp only [List.mem_cons, Control.fionbio.injEq, forall_eq_or_imp]

/-- Without a context the calls go to the kernel unchanged, and there is nothing to keep. -/
theorem stays_unmanaged {proc : Process} {fd : Int32} (absent : proc.fdMgr.find fd = some none)
    (controls : List Control) : proc.StaysNonblocking fd controls := by
  have vacuous : proc.Nonblocking fd := by
    intro p found
    rw [absent] at found
    cases found
  induction controls generalizing proc with
  | nil => exact vacuous
  | cons control rest ih =>
      have passed : ∃ kernel, hooks.step proc (control.call fd) =
          some { proc with kernel := kernel } := by
        cases control with
        | setfl arg =>
            refine ⟨proc.kernel.setfl fd arg, ?_⟩
            simp only [hooks, Control.call, Kernel.admits, ↓reduceIte, Process.call, Process.fcntl,
              absent, Option.map_some]
            rfl
        | fionbio value =>
            refine ⟨proc.kernel.fionbio fd value, ?_⟩
            simp only [hooks, Control.call, Kernel.admits, ↓reduceIte, Process.call, Process.ioctl,
              absent, Option.map_some]
            rfl
      rcases passed with ⟨kernel, taken⟩
      refine ⟨vacuous, { proc with kernel := kernel }, taken, ?_⟩
      apply ih
      · exact absent
      · intro p found
        change proc.fdMgr.find fd = _ at found
        rw [absent] at found
        cases found

/-- A size from `sizeLimit` on turns negative as an int. -/
theorem ofNat_wraps {size : Nat} (least : sizeLimit ≤ size) (most : size < UInt32.size) :
    (Int32.ofNat size).toInt < 0 := by
  unfold sizeLimit at least
  unfold UInt32.size at most
  rw [Int32.toInt_ofNat', Int.bmod_def]
  simp only [Int32.size]
  split <;> omega

/-- From the first number on whose growth makes the size no int, no context is found. -/
theorem find_huge {mgr : FdManager} {fd : Int32} (nonneg : 0 ≤ fd) (size : mgr.m_datas.length =
    EventTable.IOManager.grown fd) (huge : ¬ Small fd) : mgr.find fd = some none := by
  have below := Int32.toNatClampNeg_lt fd
  have past : mgr.beyond fd = true := by
    rw [FdManager.beyond, decide_eq_true_iff, Int32.le_iff_toInt_le, size]
    have positive : 0 ≤ fd.toInt := by simpa using Int32.le_iff_toInt_le.mp nonneg
    have most : EventTable.IOManager.grown fd < UInt32.size := by
      unfold EventTable.IOManager.grown UInt32.size
      omega
    have wrapped := ofNat_wraps (Nat.not_lt.mp huge) most
    omega
  rw [FdManager.find, FdManager.lookup, if_neg (FdManager.ne_of_nonneg nonneg), if_pos past]
  rfl

theorem get_created (kernel : Kernel) {fd : Int32} (nonneg : 0 ≤ fd) :
    ∃ mgr : FdManager, Process.FdMgr.get { kernel := kernel } fd true =
        some (some 0, { kernel := kernel, fdMgr := mgr }) ∧
      mgr.m_datas.length = ({} : FdManager).roomFor fd ∧
      mgr.heap 0 = (FdCtx.constructed fd kernel).1 ∧ mgr.context fd = some 0 := by
  rcases FdManager.get_new FdManager.tabled_empty nonneg (FdManager.context_empty fd) kernel with
    ⟨mgr, created, size, heap, _, contexts⟩
  refine ⟨mgr, ?_, size, ?_, ?_⟩
  · rw [Process.FdMgr.get, created]
    rfl
  · rw [heap]
    exact Function.update_self _ _ _
  · rw [contexts fd nonneg, if_pos rfl]

theorem managing_created {kernel : Kernel} {fd : Int32} {word : Flags} (nonneg : 0 ≤ fd)
    (small : Small fd) (opened : kernel.file fd = some { socket := true, flags := word }) :
    ∃ proc, Process.FdMgr.get { kernel := kernel } fd true = some (some 0, proc) ∧
      Managing proc fd 0 word := by
  rcases get_created kernel nonneg with ⟨mgr, created, size, contents, context⟩
  rcases constructed_socket opened rfl with ⟨socket, alive, sys⟩
  refine ⟨_, created, ?_, ?_, ?_, _, opened, rfl⟩
  · have tabled := FdManager.tabled_created FdManager.tabled_empty nonneg small size
    rw [FdManager.find_eq tabled nonneg, context]
  · simp [Process.managed, contents, socket, alive]
  · rw [contents]
    exact sys

theorem unmanaged_created (kernel : Kernel) {fd : Int32} (nonneg : 0 ≤ fd) (huge : ¬ Small fd) :
    ∃ proc, Process.FdMgr.get { kernel := kernel } fd true = some (some 0, proc) ∧
      proc.fdMgr.find fd = some none := by
  rcases get_created kernel nonneg with ⟨mgr, created, size, _, _⟩
  refine ⟨_, created, find_huge nonneg ?_ huge⟩
  have far : ({} : FdManager).beyond fd = true := by
    rw [FdManager.beyond_iff FdManager.tabled_empty nonneg]
    unfold Small sizeLimit EventTable.IOManager.grown at huge
    have length : ({} : FdManager).m_datas.length = 64 := rfl
    omega
  rw [size, FdManager.roomFor, if_pos far]

theorem managed_iff {kernel : Kernel} {fd : Int32} {ctx : Option Ptr} {proc : Process}
    (created : Process.FdMgr.get { kernel := kernel } fd true = some (ctx, proc))
    (controls : List Control) :
    ManagedNonblocking kernel fd controls ↔ proc.StaysNonblocking fd controls := by
  constructor
  · rintro ⟨_, _, got, stays⟩
    rw [created] at got
    cases got
    exact stays
  · intro stays
    exact ⟨ctx, proc, created, stays⟩

/-- The flag stays set exactly if it was set before the context was created and
no `FIONBIO` turns it off, or the number is so large that its context is lost. -/
theorem managed_nonblocking_iff (kernel : Kernel) (fd : Int32) (word : Flags)
    (controls : List Control) (nonneg : 0 ≤ fd)
    (opened : kernel.file fd = some { socket := true, flags := word }) :
    ManagedNonblocking kernel fd controls ↔
      ¬ Small fd ∨ word &&& O_NONBLOCK ≠ 0 ∧
        ∀ value, .fionbio value ∈ controls → value ≠ 0 := by
  by_cases small : Small fd
  · rcases managing_created nonneg small opened with ⟨proc, created, managing⟩
    rw [managed_iff created, stays_iff managing]
    simp [small]
  · rcases unmanaged_created kernel nonneg small with ⟨proc, created, absent⟩
    rw [managed_iff created]
    simp [small, stays_unmanaged absent controls]

theorem managed_nonblocking_iff_five :
    ManagedNonblocking (({} : Kernel).socket (some { fd := 5, flags := 0x802 })).2 5
      [.setfl 0, .fionbio 1] :=
  (managed_nonblocking_iff _ 5 0x802 _ (by decide) (by decide)).mpr (Or.inr ⟨by decide, by simp⟩)

/-- A socket that came without the flag: its context claims the flag at once. -/
theorem managed_nonblocking_fails :
    ¬ ∀ (kernel : Kernel) (fd : Int32) (word : Flags) (controls : List Control), 0 ≤ fd →
      kernel.file fd = some { socket := true, flags := word } →
        ManagedNonblocking kernel fd controls := by
  intro all
  let kernel := (({} : Kernel).socket (some { fd := 5, flags := 0x2 })).2
  have opened : kernel.file 5 = some { socket := true, flags := 0x2 } := by decide
  have stays := all kernel 5 0x2 [] (by decide) opened
  rcases managing_created (by decide) (by decide) opened with ⟨proc, created, managing⟩
  rw [managed_iff created, stays_iff managing] at stays
  exact stays.1 (by decide)

end Ztyco.Descriptors
