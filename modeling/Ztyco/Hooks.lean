import Ztyco.FdManager

/-!
The descriptor hooks of hook.cc: `socket`, `close`, `fcntl`, `ioctl` and
`setsockopt`. Hooking is switched for each thread, so a call brings the switch
of its thread with it, and it brings what the kernel hands out or answers.
`close` also cancels the events of the number, which touches no descriptor
state. `none` is an index outside the table.
-/

namespace Ztyco.Descriptors

open EventTable (Ptr)
open Transition

structure Process where
  kernel : Kernel := {}
  fdMgr : FdManager := {}

/-- What the kernel hands out: a number that was not open. -/
structure Handout where
  fd : Int32
  flags : Flags := 0
  deriving DecidableEq, Repr

inductive FcntlCmd where
  | setfl (arg : Flags)
  | getfl
  | dupfd (handout : Option Int32)
  | other (ret : Int32)
  deriving DecidableEq, Repr

inductive IoctlRequest where
  | fionbio (value : Int32)
  | other (ret : Int32)
  deriving DecidableEq, Repr

def SOL_SOCKET : Int32 := 1

namespace Kernel

def socket (kernel : Kernel) : Option Handout → Int32 × Kernel
  | none => (-1, kernel)
  | some handout => (handout.fd,
      { opened := Function.update kernel.opened handout.fd (some kernel.described)
        files := Function.update kernel.files kernel.described
          { socket := true, flags := handout.flags }
        described := kernel.described + 1 })

def dupfd (kernel : Kernel) (fd : Int32) : Option Int32 → Int32 × Kernel
  | none => (-1, kernel)
  | some newfd =>
      (newfd, { kernel with opened := Function.update kernel.opened newfd (kernel.opened fd) })

def close (kernel : Kernel) (fd : Int32) : Int32 × Kernel :=
  (kernel.answer fd, { kernel with opened := Function.update kernel.opened fd none })

end Kernel

namespace Process

def FdMgr.get (proc : Process) (fd : Int32) (auto_create : Bool) :
    Option (Option Ptr × Process) :=
  (proc.fdMgr.get fd auto_create proc.kernel).map fun (ctx, fdMgr, kernel) =>
    (ctx, { kernel := kernel, fdMgr := fdMgr })

/-- `t_hook_enable` is the switch of the calling thread. -/
def socket (proc : Process) (t_hook_enable : Bool) (handout : Option Handout) :
    Option (Int32 × Process) :=
  let (fd, kernel) := proc.kernel.socket handout
  let proc := { proc with kernel := kernel }
  if !t_hook_enable then some (fd, proc) else
  if fd = -1 then some (-1, proc) else
  (FdMgr.get proc fd true).map fun (_, proc) => (fd, proc)

def close_f (proc : Process) (fd : Int32) : Int32 × Process :=
  let (ret, kernel) := proc.kernel.close fd
  (ret, { proc with kernel := kernel })

def close (proc : Process) (t_hook_enable : Bool) (fd : Int32) : Option (Int32 × Process) :=
  if !t_hook_enable then some (proc.close_f fd) else
  (proc.fdMgr.find fd).bind fun
    | none => some (proc.close_f fd)
    | some _ => (proc.fdMgr.del fd).map fun fdMgr => { proc with fdMgr := fdMgr }.close_f fd

/-- The context, unless `!ctx || ctx->isClose() || !ctx->isScoket()`. -/
def managed (proc : Process) (ctx : Option Ptr) : Option Ptr :=
  ctx.filter fun p => !(proc.fdMgr.heap p).m_isClosed && (proc.fdMgr.heap p).m_isSocket

def fcntl_setfl (proc : Process) (fd : Int32) (arg : Flags) : Int32 × Process :=
  (proc.kernel.answer fd, { proc with kernel := proc.kernel.setfl fd arg })

def setUserNonblock (proc : Process) (p : Ptr) (v : Bool) : Process :=
  let ctx := { proc.fdMgr.heap p with m_userNonblock := v }
  { proc with fdMgr := proc.fdMgr.store p ctx }

@[simp] theorem setUserNonblock_kernel (proc : Process) (p : Ptr) (v : Bool) :
    (proc.setUserNonblock p v).kernel = proc.kernel := rfl

def fcntl (proc : Process) (fd : Int32) : FcntlCmd → Option (Int32 × Process)
  | .setfl arg =>
      (proc.fdMgr.find fd).map fun ctx =>
        match proc.managed ctx with
        | none => proc.fcntl_setfl fd arg
        | some p =>
            let proc := proc.setUserNonblock p (arg &&& O_NONBLOCK != 0)
            let arg := if (proc.fdMgr.heap p).m_sysNonblock then arg ||| O_NONBLOCK
              else arg &&& ~~~O_NONBLOCK
            proc.fcntl_setfl fd arg
  | .getfl =>
      let arg := proc.kernel.getfl fd
      (proc.fdMgr.find fd).map fun ctx =>
        match proc.managed ctx with
        | none => (.ofBitVec arg, proc)
        | some p =>
            if (proc.fdMgr.heap p).m_userNonblock then (.ofBitVec (arg ||| O_NONBLOCK), proc)
            else (.ofBitVec (arg &&& ~~~O_NONBLOCK), proc)
  | .dupfd handout =>
      let (ret, kernel) := proc.kernel.dupfd fd handout
      some (ret, { proc with kernel := kernel })
  | .other ret => some (ret, proc)

def ioctl_fionbio (proc : Process) (d : Int32) (value : Int32) : Int32 × Process :=
  (proc.kernel.answer d, { proc with kernel := proc.kernel.fionbio d value })

def ioctl (proc : Process) (d : Int32) : IoctlRequest → Option (Int32 × Process)
  | .fionbio value =>
      (proc.fdMgr.find d).map fun ctx =>
        match proc.managed ctx with
        | none => proc.ioctl_fionbio d value
        -- the kernel is given the user's value, whatever m_sysNonblock is
        | some p => (proc.setUserNonblock p (value ≠ 0)).ioctl_fionbio d value
  | .other ret => some (ret, proc)

/-- `optval` is the `timeval` of `tv_sec` and `tv_usec`, where it is read. -/
def setsockopt (proc : Process) (t_hook_enable : Bool) (sockfd level optname : Int32)
    (tv_sec tv_usec : Int64) (ret : Int32) : Option (Int32 × Process) :=
  if !t_hook_enable then some (ret, proc) else
  if level = SOL_SOCKET ∧ (optname = SO_RCVTIMEO ∨ optname = SO_SNDTIMEO) then
    (proc.fdMgr.find sockfd).map fun
      | none => (ret, proc)
      | some p =>
          let v := (tv_sec * 1000 + tv_usec / 1000).toUInt64
          let ctx := (proc.fdMgr.heap p).setTimeout optname v
          (ret, { proc with fdMgr := proc.fdMgr.store p ctx })
  else some (ret, proc)

end Process

inductive Call where
  | socket (t_hook_enable : Bool) (handout : Option Handout)
  | close (t_hook_enable : Bool) (fd : Int32)
  | setsockopt (t_hook_enable : Bool) (sockfd level optname : Int32) (tv_sec tv_usec : Int64)
      (ret : Int32)
  | fcntl (fd : Int32) (cmd : FcntlCmd)
  | ioctl (d : Int32) (request : IoctlRequest)
  deriving DecidableEq, Repr

def Kernel.free (kernel : Kernel) (fd : Int32) : Bool := 0 ≤ fd && (kernel.opened fd).isNone

def Kernel.admits (kernel : Kernel) : Call → Bool
  | .socket _ (some handout) => kernel.free handout.fd
  | .fcntl fd (.dupfd (some newfd)) => (kernel.opened fd).isSome && kernel.free newfd
  | _ => true

def Process.call (proc : Process) : Call → Option (Int32 × Process)
  | .socket t_hook_enable handout => proc.socket t_hook_enable handout
  | .close t_hook_enable fd => proc.close t_hook_enable fd
  | .setsockopt t_hook_enable sockfd level optname tv_sec tv_usec ret =>
      proc.setsockopt t_hook_enable sockfd level optname tv_sec tv_usec ret
  | .fcntl fd cmd => proc.fcntl fd cmd
  | .ioctl d request => proc.ioctl d request

/-- Runs of calls, from any state of the kernel and an empty manager. -/
def hooks : Machine Process Call where
  initial proc := proc.fdMgr = {}
  step proc call := if proc.kernel.admits call then (proc.call call).map (·.2) else none

end Ztyco.Descriptors
