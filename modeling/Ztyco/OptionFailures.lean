import Ztyco.UserNonblock

/-!
Hooked calls whose kernel call fails. `fcntl_f`, `ioctl_f` and `setsockopt_f`
are pointers to the calls of the kernel, so here the hooks are given them. What
is noted in a context is noted before the kernel has answered, and the answer of
`F_GETFL` is taken for a word whatever it is.
-/

namespace Ztyco.Descriptors

open EventTable (Ptr)
open Transition

structure Answer where
  ret : Int32
  kernel : Kernel

/-- The calls of the kernel that the hooks end in. -/
structure Syscalls where
  fcntl_setfl : Kernel → Int32 → Flags → Answer
  fcntl_getfl : Kernel → Int32 → Answer
  ioctl_fionbio : Kernel → Int32 → Int32 → Answer
  setsockopt : Kernel → Int32 → Int32 → Int32 → Int64 → Int64 → Answer

inductive OptionCall where
  | setfl (fd : Int32) (arg : Flags)
  | getfl (fd : Int32)
  | fionbio (d value : Int32)
  | setsockopt (t_hook_enable : Bool) (sockfd level optname : Int32) (tv_sec tv_usec : Int64)
  deriving DecidableEq, Repr

def OptionCall.fd : OptionCall → Int32
  | .setfl fd _ | .getfl fd | .fionbio fd _ | .setsockopt _ fd _ _ _ _ => fd

def timeoutOf (tv_sec tv_usec : Int64) : UInt64 := (tv_sec * 1000 + tv_usec / 1000).toUInt64

namespace Process

def answered (proc : Process) (answer : Answer) : Int32 × Process :=
  (answer.ret, { proc with kernel := answer.kernel })

def passed (proc : Process) (p : Ptr) (arg : Flags) : Flags :=
  if (proc.fdMgr.heap p).m_sysNonblock then arg ||| O_NONBLOCK else arg &&& ~~~O_NONBLOCK

/-- `fcntl`, `ioctl` and `setsockopt`, over any calls of the kernel. -/
def optionCall (proc : Process) (sys : Syscalls) : OptionCall → Option (Int32 × Process)
  | .setfl fd arg =>
      (proc.fdMgr.find fd).map fun ctx =>
        match proc.managed ctx with
        | none => proc.answered (sys.fcntl_setfl proc.kernel fd arg)
        | some p =>
            -- what the user asks for is noted first, and stays noted
            let proc := proc.setUserNonblock p (arg &&& O_NONBLOCK != 0)
            proc.answered (sys.fcntl_setfl proc.kernel fd (proc.passed p arg))
  | .getfl fd =>
      let answer := sys.fcntl_getfl proc.kernel fd
      let arg := answer.ret.toBitVec
      (proc.fdMgr.find fd).map fun ctx =>
        match proc.managed ctx with
        | none => proc.answered answer
        | some p =>
            -- a -1 is put through the same masks as a word of flags
            if (proc.fdMgr.heap p).m_userNonblock
            then proc.answered { answer with ret := .ofBitVec (arg ||| O_NONBLOCK) }
            else proc.answered { answer with ret := .ofBitVec (arg &&& ~~~O_NONBLOCK) }
  | .fionbio d value =>
      (proc.fdMgr.find d).map fun ctx =>
        match proc.managed ctx with
        | none => proc.answered (sys.ioctl_fionbio proc.kernel d value)
        | some p =>
            (proc.setUserNonblock p (value ≠ 0)).answered (sys.ioctl_fionbio proc.kernel d value)
  | .setsockopt t_hook_enable sockfd level optname tv_sec tv_usec =>
      let answer := sys.setsockopt proc.kernel sockfd level optname tv_sec tv_usec
      if !t_hook_enable then some (proc.answered answer) else
      if level = SOL_SOCKET ∧ (optname = SO_RCVTIMEO ∨ optname = SO_SNDTIMEO) then
        (proc.fdMgr.find sockfd).map fun
          | none => proc.answered answer
          | some p =>
              let ctx := (proc.fdMgr.heap p).setTimeout optname (timeoutOf tv_sec tv_usec)
              { proc with fdMgr := proc.fdMgr.store p ctx }.answered answer
      else some (proc.answered answer)

end Process

/-- The kernel of the hooks; `setsockopt` answers `ret` and changes nothing that is modelled. -/
def Kernel.syscalls (ret : Int32) : Syscalls where
  fcntl_setfl kernel fd arg := ⟨kernel.answer fd, kernel.setfl fd arg⟩
  fcntl_getfl kernel fd := ⟨.ofBitVec (kernel.getfl fd), kernel⟩
  ioctl_fionbio kernel d value := ⟨kernel.answer d, kernel.fionbio d value⟩
  setsockopt kernel _ _ _ _ _ := ⟨ret, kernel⟩

def OptionCall.hooked (ret : Int32) : OptionCall → Call
  | .setfl fd arg => .fcntl fd (.setfl arg)
  | .getfl fd => .fcntl fd .getfl
  | .fionbio d value => .ioctl d (.fionbio value)
  | .setsockopt t_hook_enable sockfd level optname tv_sec tv_usec =>
      .setsockopt t_hook_enable sockfd level optname tv_sec tv_usec ret

theorem optionCall_hooked (proc : Process) (ret : Int32) (call : OptionCall) :
    proc.optionCall (Kernel.syscalls ret) call = proc.call (call.hooked ret) := by
  cases call with
  | setfl fd arg => rfl
  | getfl fd => rfl
  | fionbio d value => rfl
  | setsockopt t_hook_enable sockfd level optname tv_sec tv_usec => rfl

/-! A failed call. -/

/-- The settings of a context that the calls can be about. -/
structure SameSettings (before after : FdCtx) : Prop where
  user : after.m_userNonblock = before.m_userNonblock
  sys : after.m_sysNonblock = before.m_sysNonblock
  recv : after.m_recvTimeout = before.m_recvTimeout
  send : after.m_sendTimeout = before.m_sendTimeout

def Syscalls.made (sys : Syscalls) (proc : Process) (p : Ptr) : OptionCall → Answer
  | .setfl fd arg => sys.fcntl_setfl proc.kernel fd (proc.passed p arg)
  | .getfl fd => sys.fcntl_getfl proc.kernel fd
  | .fionbio d value => sys.ioctl_fionbio proc.kernel d value
  | .setsockopt _ sockfd level optname tv_sec tv_usec =>
      sys.setsockopt proc.kernel sockfd level optname tv_sec tv_usec

/-- The call returns -1 and leaves the settings. -/
def Atomic (sys : Syscalls) (proc : Process) (p : Ptr) (call : OptionCall) : Prop :=
  ∃ after, proc.optionCall sys call = some (-1, after) ∧
    SameSettings (proc.fdMgr.heap p) (after.fdMgr.heap p)

def FdCtx.Agrees (ctx : FdCtx) : OptionCall → Prop
  | .setfl _ arg => ctx.m_userNonblock = (arg &&& O_NONBLOCK != 0)
  | .getfl _ => ctx.m_userNonblock = true
  | .fionbio _ value => ctx.m_userNonblock = decide (value ≠ 0)
  | .setsockopt t_hook_enable _ level optname tv_sec tv_usec =>
      t_hook_enable = true → level = SOL_SOCKET → optname = SO_RCVTIMEO ∨ optname = SO_SNDTIMEO →
        ctx.getTimeout optname = timeoutOf tv_sec tv_usec

instance FdCtx.Agrees.decidable (ctx : FdCtx) : (call : OptionCall) → Decidable (ctx.Agrees call)
  | .setfl _ _ | .getfl _ | .fionbio _ _ => decEq _ _
  | .setsockopt t_hook_enable _ level optname tv_sec tv_usec =>
      inferInstanceAs (Decidable (t_hook_enable = true → level = SOL_SOCKET →
        optname = SO_RCVTIMEO ∨ optname = SO_SNDTIMEO →
          ctx.getTimeout optname = timeoutOf tv_sec tv_usec))

theorem SameSettings.refl (ctx : FdCtx) : SameSettings ctx ctx := ⟨rfl, rfl, rfl, rfl⟩

theorem sameSettings_user (ctx : FdCtx) (v : Bool) :
    SameSettings ctx { ctx with m_userNonblock := v } ↔ ctx.m_userNonblock = v := by
  constructor
  · exact fun same => same.user.symm
  · rintro rfl
    exact .refl _

theorem sameSettings_timeout (ctx : FdCtx) (type : Int32) (v : UInt64) :
    SameSettings ctx (ctx.setTimeout type v) ↔ ctx.getTimeout type = v := by
  unfold FdCtx.setTimeout FdCtx.getTimeout
  split
  · constructor
    · exact fun same => same.recv.symm
    · rintro rfl
      exact .refl _
  · constructor
    · exact fun same => same.send.symm
    · rintro rfl
      exact .refl _

theorem atomic_outcome {sys : Syscalls} {proc after : Process} {p : Ptr} {call : OptionCall}
    (done : proc.optionCall sys call = some (-1, after)) :
    Atomic sys proc p call ↔ SameSettings (proc.fdMgr.heap p) (after.fdMgr.heap p) := by
  constructor
  · rintro ⟨other, again, same⟩
    rw [done] at again
    cases again
    exact same
  · exact fun same => ⟨after, done, same⟩

section Failed
variable {sys : Syscalls} {proc : Process} {p : Ptr} {fd : Int32}

/-- A call that changes the context through its pointer before the kernel fails. -/
theorem atomic_store {call : OptionCall} {ctx : FdCtx} {answer : Answer} (failed : answer.ret = -1)
    (done : proc.optionCall sys call =
      some ({ proc with fdMgr := proc.fdMgr.store p ctx }.answered answer)) :
    Atomic sys proc p call ↔ SameSettings (proc.fdMgr.heap p) ctx := by
  rw [Process.answered, failed] at done
  rw [atomic_outcome done]
  simp only [FdManager.store, Function.update_self]

theorem setfl_atomic_iff {arg : Flags} (found : proc.fdMgr.find fd = some (some p))
    (managed : proc.managed (some p) = some p)
    (failed : (sys.made proc p (.setfl fd arg)).ret = -1) :
    Atomic sys proc p (.setfl fd arg) ↔
      (proc.fdMgr.heap p).m_userNonblock = (arg &&& O_NONBLOCK != 0) := by
  rw [← sameSettings_user]
  have same : (proc.setUserNonblock p (arg &&& O_NONBLOCK != 0)).passed p arg =
      proc.passed p arg := by
    simp [Process.passed, Process.setUserNonblock, FdManager.store]
  apply atomic_store failed
  simp only [Process.optionCall, found, Option.map_some, managed, same]
  rfl

theorem fionbio_atomic_iff {value : Int32} (found : proc.fdMgr.find fd = some (some p))
    (managed : proc.managed (some p) = some p)
    (failed : (sys.made proc p (.fionbio fd value)).ret = -1) :
    Atomic sys proc p (.fionbio fd value) ↔
      (proc.fdMgr.heap p).m_userNonblock = decide (value ≠ 0) := by
  rw [← sameSettings_user]
  apply atomic_store failed
  simp only [Process.optionCall, found, Option.map_some, managed]
  rfl

/-- Without the flag of the user, -1 loses the bit and is no failure any more. -/
theorem getfl_atomic_iff (found : proc.fdMgr.find fd = some (some p))
    (managed : proc.managed (some p) = some p)
    (failed : (sys.made proc p (.getfl fd)).ret = -1) :
    Atomic sys proc p (.getfl fd) ↔ (proc.fdMgr.heap p).m_userNonblock = true := by
  have answer : (sys.fcntl_getfl proc.kernel fd).ret = -1 := failed
  cases user : (proc.fdMgr.heap p).m_userNonblock with
  | true =>
      have done : proc.optionCall sys (.getfl fd) =
          some (-1, { proc with kernel := (sys.fcntl_getfl proc.kernel fd).kernel }) := by
        simp only [Process.optionCall, found, Option.map_some, managed, user, ↓reduceIte, answer]
        rfl
      rw [atomic_outcome done]
      exact iff_of_true (.refl _) rfl
  | false =>
      have done : proc.optionCall sys (.getfl fd) =
          some (-2049, { proc with kernel := (sys.fcntl_getfl proc.kernel fd).kernel }) := by
        simp only [Process.optionCall, found, Option.map_some, managed, user, Bool.false_eq_true,
          ↓reduceIte, answer]
        rfl
      apply iff_of_false
      · rintro ⟨after, again, _⟩
        rw [done] at again
        cases again
      · exact Bool.false_ne_true

theorem setsockopt_atomic_iff {t_hook_enable : Bool} {level optname : Int32}
    {tv_sec tv_usec : Int64} (found : proc.fdMgr.find fd = some (some p))
    (failed : (sys.made proc p
      (.setsockopt t_hook_enable fd level optname tv_sec tv_usec)).ret = -1) :
    Atomic sys proc p (.setsockopt t_hook_enable fd level optname tv_sec tv_usec) ↔
      (t_hook_enable = true → level = SOL_SOCKET →
        optname = SO_RCVTIMEO ∨ optname = SO_SNDTIMEO →
          (proc.fdMgr.heap p).getTimeout optname = timeoutOf tv_sec tv_usec) := by
  by_cases noted : t_hook_enable = true ∧ level = SOL_SOCKET ∧
      (optname = SO_RCVTIMEO ∨ optname = SO_SNDTIMEO)
  · rcases noted with ⟨enabled, atSocket, timeout⟩
    have stored : Atomic sys proc p
        (.setsockopt t_hook_enable fd level optname tv_sec tv_usec) ↔
          (proc.fdMgr.heap p).getTimeout optname = timeoutOf tv_sec tv_usec := by
      rw [← sameSettings_timeout]
      apply atomic_store failed
      simp only [Process.optionCall, enabled, Bool.not_true, Bool.false_eq_true, ↓reduceIte,
        if_pos (And.intro atSocket timeout), found, Option.map_some]
      rfl
    rw [stored]
    exact ⟨fun same _ _ _ => same, fun same => same enabled atSocket timeout⟩
  · have done : proc.optionCall sys
        (.setsockopt t_hook_enable fd level optname tv_sec tv_usec) =
          some (proc.answered
            (sys.made proc p (.setsockopt t_hook_enable fd level optname tv_sec tv_usec))) := by
      cases t_hook_enable with
      | false => rfl
      | true =>
          have other : ¬ (level = SOL_SOCKET ∧ (optname = SO_RCVTIMEO ∨ optname = SO_SNDTIMEO)) :=
            fun timeout => noted ⟨rfl, timeout⟩
          simp only [Process.optionCall, Bool.not_true, Bool.false_eq_true, ↓reduceIte,
            if_neg other]
          rfl
    rw [Process.answered, failed] at done
    rw [atomic_outcome done]
    exact iff_of_true (.refl _) fun enabled atSocket timeout =>
      absurd ⟨enabled, atSocket, timeout⟩ noted

end Failed

/-- A call on a managed socket whose kernel call fails is atomic exactly if it asks
for what the context has. -/
theorem failed_atomic_iff {sys : Syscalls} {proc : Process} {p : Ptr} {call : OptionCall}
    (found : proc.fdMgr.find call.fd = some (some p)) (managed : proc.managed (some p) = some p)
    (failed : (sys.made proc p call).ret = -1) :
    Atomic sys proc p call ↔ (proc.fdMgr.heap p).Agrees call := by
  cases call with
  | setfl fd arg => exact setfl_atomic_iff found managed failed
  | getfl fd => exact getfl_atomic_iff found managed failed
  | fionbio d value => exact fionbio_atomic_iff found managed failed
  | setsockopt t_hook_enable sockfd level optname tv_sec tv_usec =>
      exact setsockopt_atomic_iff found failed

def Process.five : Process := (({} : Process).socket true (some { fd := 5 })).elim {} (·.2)

theorem failed_atomic_iff_closed :
    Atomic (Kernel.syscalls 0) (Process.five.close_f 5).2 0 (.setfl 5 0x2) ∧
      ¬ Atomic (Kernel.syscalls 0) (Process.five.close_f 5).2 0 (.setfl 5 0x802) ∧
      ¬ Atomic (Kernel.syscalls 0) (Process.five.close_f 5).2 0 (.getfl 5) := by
  refine ⟨?_, ?_, ?_⟩
  · exact (failed_atomic_iff (by decide) (by decide) (by decide)).mpr (by decide)
  · exact fun atomic => absurd ((failed_atomic_iff (by decide) (by decide) (by decide)).mp atomic)
      (by decide)
  · exact fun atomic => absurd ((failed_atomic_iff (by decide) (by decide) (by decide)).mp atomic)
      (by decide)

/-- Microseconds that make two seconds are refused, and noted. -/
theorem failed_setsockopt_noted :
    ¬ ∀ (sys : Syscalls) (proc : Process) (p : Ptr) (call : OptionCall),
      proc.fdMgr.find call.fd = some (some p) → proc.managed (some p) = some p →
        (sys.made proc p call).ret = -1 → Atomic sys proc p call := by
  intro all
  have atomic := all (Kernel.syscalls (-1)) .five 0
    (.setsockopt true 5 SOL_SOCKET SO_RCVTIMEO 3 2000000) (by decide) (by decide) rfl
  rcases atomic with ⟨after, done, same⟩
  have noted : ((Process.five.optionCall (Kernel.syscalls (-1))
      (.setsockopt true 5 SOL_SOCKET SO_RCVTIMEO 3 2000000)).map
        fun answer => (answer.2.fdMgr.heap 0).m_recvTimeout) = some 5000 := by decide
  have fresh : (Process.five.fdMgr.heap 0).m_recvTimeout = -1 := by decide
  have kept := same.recv
  rw [done, Option.map_some, kept, fresh] at noted
  exact absurd noted (by decide)

end Ztyco.Descriptors
