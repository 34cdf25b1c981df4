import Ztyco.SocketTimeouts

/-!
The timeouts of a Socket in milliseconds. `setSendTimeout` and `setRecvTimeout` of socket.cc cut
them into a `timeval` of ints for `setOption`, whose `setsockopt` is the C library's: the hook of
that name has C++ linkage, and no header declares it. `getSendTimeout` and `getRecvTimeout` ask
the context of the descriptor, which only the hook writes. So what is read back is followed from
the hook alone through any calls of the hooks and of the setters.
-/

namespace Ztyco.Descriptors

open DoIo (World)
open EventTable (Ptr)
open Fibers (FiberId)
open Timers (Addr)
open Transition

/-- The descriptors, what the kernel was last given for each option of an open file, and, as a
history, what the hook was last given for a context. -/
structure Sockets where
  proc : Process := {}
  options : Nat → Int32 → Option (Int64 × Int64) := fun _ _ => none
  told : Ptr → Direction → Option UInt64 := fun _ _ => none

namespace Sockets

def setsockopt_f (s : Sockets) (sockfd level optname : Int32) (tv : Int64 × Int64) (ret : Int32) :
    Sockets :=
  match s.proc.kernel.opened sockfd with
  | some file =>
      if level = SOL_SOCKET ∧ ret = 0 then
        { s with options :=
            Function.update s.options file (Function.update (s.options file) optname (some tv)) }
      else s
  | none => s

end Sockets

def timeval (v : Int64) : Int64 × Int64 :=
  ((v / 1000).toInt32.toInt64, (v % 1000 * 1000).toInt32.toInt64)

namespace Socket

def setTimeout (dir : Direction) (s : Sockets) (m_sock : Int32) (v : Int64) (ret : Int32) :
    Sockets :=
  s.setsockopt_f m_sock SOL_SOCKET dir.optname (timeval v) ret

def setSendTimeout : Sockets → Int32 → Int64 → Int32 → Sockets := setTimeout .send

def setRecvTimeout : Sockets → Int32 → Int64 → Int32 → Sockets := setTimeout .receive

/-- -1 where there is no context; `none` is an index outside the table of the manager. -/
def getTimeout (dir : Direction) (proc : Process) (m_sock : Int32) : Option Int64 :=
  (proc.fdMgr.find m_sock).map fun
    | some p => ((proc.fdMgr.heap p).getTimeout dir.optname).toInt64
    | none => -1

def getSendTimeout : Process → Int32 → Option Int64 := getTimeout .send

def getRecvTimeout : Process → Int32 → Option Int64 := getTimeout .receive

end Socket

inductive SocketCall where
  | hook (call : Call)
  | setTimeout (dir : Direction) (m_sock : Int32) (v : Int64) (ret : Int32)
  deriving DecidableEq, Repr

namespace Sockets

def tell (s : Sockets) (call : Call) (p : Ptr) (dir : Direction) : Option UInt64 :=
  match call with
  | .setsockopt _ _ _ _ tv_sec tv_usec _ =>
      if Leaves p dir s.proc call then s.told p dir else some (timeoutOf tv_sec tv_usec)
  | .socket .. | .close .. | .fcntl .. | .ioctl .. => s.told p dir

def pass (s : Sockets) : Call → Sockets
  | .setsockopt _ sockfd level optname tv_sec tv_usec ret =>
      s.setsockopt_f sockfd level optname (tv_sec, tv_usec) ret
  | .socket .. | .close .. | .fcntl .. | .ioctl .. => s

def call (s : Sockets) : SocketCall → Option Sockets
  | .hook call => (hooks.step s.proc call).map fun proc =>
      { s.pass call with proc := proc, told := s.tell call }
  | .setTimeout dir m_sock v ret => some (Socket.setTimeout dir s m_sock v ret)

end Sockets

def sockets : Machine Sockets SocketCall where
  initial s := s.proc.fdMgr = {} ∧ ∀ p dir, s.told p dir = none
  step s call := s.call call

def Sockets.answer (s : Sockets) (p : Ptr) (dir : Direction) : UInt64 := (s.told p dir).getD (-1)

def sent (v : Int64) : Int := 1000 * (v.toInt.tdiv 1000).bmod 4294967296 + v.toInt.tmod 1000

def Fits (v : Int64) : Prop :=
  -2147483648 ≤ v.toInt.tdiv 1000 ∧ v.toInt.tdiv 1000 < 2147483648

instance Fits.decidable (v : Int64) : Decidable (Fits v) :=
  inferInstanceAs (Decidable (_ ∧ _))

/-- Of one descriptor and one direction. What is read back, and what a call that has to wait
does about its timer, is what the hook was last given for the context; what a setter is given
goes to the kernel. -/
structure ReadsBack (s : Sockets) (m_sock : Int32) (dir : Direction) : Prop where
  answers : ∀ ctx, s.proc.fdMgr.find m_sock = some ctx →
    Socket.getTimeout dir s.proc m_sock = some (match ctx with
      | some p => (s.answer p dir).toInt64
      | none => -1)
  waits : ∀ p, s.proc.fdMgr.find m_sock = some (some p) →
    ∀ (isCall : FiberId → Bool) (w entered blocked after : World) (name : DoIo.Call)
      (timer : Addr) (now : UInt64),
      w.call isCall name
        (.enter true (some (s.proc.fdMgr.heap p)) m_sock dir.event dir.optname) = some entered →
      Path (DoIo.doIo isCall) anyStep entered blocked →
      blocked.call isCall name (.addConditionTimer timer now) = some after →
      if s.answer p dir = -1 then (after.calls name).pc = .adding none
      else (after.calls name).pc = .adding (some timer) ∧ timer ∈ after.mgr.m_timers ∧
        (after.mgr.heap timer).m_ms = s.answer p dir
  given : ∀ file v, s.proc.kernel.opened m_sock = some file → ∃ tv_sec tv_usec : Int64,
    (Socket.setTimeout dir s m_sock v 0).options file dir.optname = some (tv_sec, tv_usec) ∧
      1000000 * tv_sec.toInt + tv_usec.toInt = 1000 * sent v ∧ (sent v = v.toInt ↔ Fits v)

/-! What a setter gives. -/

theorem rest_bounds (v : Int64) : -1000 < v.toInt.tmod 1000 ∧ v.toInt.tmod 1000 < 1000 :=
  ⟨Int.lt_tmod_of_pos v.toInt (by decide), Int.tmod_lt_of_pos v.toInt (by decide)⟩

theorem timeval_sent (v : Int64) :
    1000000 * (timeval v).1.toInt + (timeval v).2.toInt = 1000 * sent v := by
  have rest := rest_bounds v
  have thousand : Int64.toInt 1000 = 1000 := rfl
  have sec : (v / 1000).toInt32.toInt64.toInt = (v.toInt.tdiv 1000).bmod 4294967296 := by
    rw [Int32.toInt_toInt64, Int64.toInt_toInt32, Int64.toInt_div_of_ne_right _ _ (by decide),
      thousand]
  have usec : (v % 1000 * 1000).toInt32.toInt64.toInt = v.toInt.tmod 1000 * 1000 := by
    have whole : (v.toInt.tmod 1000 * 1000).bmod (2 ^ 64) = v.toInt.tmod 1000 * 1000 :=
      Int.bmod_eq_of_le (by omega) (by omega)
    rw [Int32.toInt_toInt64, Int64.toInt_toInt32, Int64.toInt_mul, Int64.toInt_mod, thousand,
      whole, Int.bmod_eq_of_le (by omega) (by omega)]
  rw [timeval, sec, usec, sent]
  omega

theorem sent_eq_iff (v : Int64) : sent v = v.toInt ↔ Fits v := by
  have whole := Int.mul_tdiv_add_tmod v.toInt 1000
  have seconds : -2147483648 ≤ (v.toInt.tdiv 1000).bmod 4294967296 ∧
      (v.toInt.tdiv 1000).bmod 4294967296 < 2147483648 :=
    ⟨Int.le_bmod (by decide), Int.bmod_lt (by decide)⟩
  unfold sent Fits
  constructor
  · intro same
    omega
  · intro fits
    rw [Int.bmod_eq_of_le (by omega) (by omega), whole]

/-! What the hook keeps. -/

structure Recalled (s : Sockets) : Prop where
  kept : ∀ p < s.proc.fdMgr.allocated, ∀ dir : Direction,
    (s.proc.fdMgr.heap p).getTimeout dir.optname = s.answer p dir
  fresh : ∀ p, s.proc.fdMgr.allocated ≤ p → ∀ dir, s.told p dir = none

section Calls
variable {proc after : Process} {p : Ptr} {dir : Direction} {call : Call}

theorem constructed_timeout (fd : Int32) (kernel : Kernel) (type : Int32) :
    (FdCtx.constructed fd kernel).1.getTimeout type = -1 := by
  rcases constructed_settings fd kernel with ⟨_, receive, send⟩
  unfold FdCtx.getTimeout
  split
  · exact receive
  · exact send

theorem moves_adds {mgr result : FdManager} {request : Option (Ptr × Bool)}
    (moves : Moves mgr request result) (old : mgr.allocated ≤ p) (known : p < result.allocated)
    (type : Int32) : (result.heap p).getTimeout type = -1 := by
  have unknown : ¬ p < mgr.allocated := Nat.not_lt.mpr old
  cases moves with
  | stays | set | ignored | timed => exact absurd known unknown
  | created fd kernel later q after made =>
      rcases create_adds made with ⟨heap, allocated, _⟩
      rw [allocated] at known
      rw [heap, Nat.le_antisymm (Nat.lt_succ_iff.mp known) old, Function.update_self]
      exact constructed_timeout fd kernel type
  | dropped fd after deleted =>
      rcases FdManager.del_cases deleted with rfl | assigned
      · exact absurd known unknown
      · rw [(assign_keeps assigned).2.1] at known
        exact absurd known unknown

theorem moves_grow {mgr result : FdManager} {request : Option (Ptr × Bool)}
    (moves : Moves mgr request result) : mgr.allocated ≤ result.allocated := by
  cases moves with
  | stays | set | ignored | timed => exact Nat.le_refl _
  | created fd kernel later q after made =>
      rw [(create_adds made).2.1]
      exact Nat.le_succ _
  | dropped fd after deleted =>
      rcases FdManager.del_cases deleted with rfl | assigned
      · exact Nat.le_refl _
      · exact Nat.le_of_eq (assign_keeps assigned).2.1.symm

end Calls

section Runs
variable {s after : Sockets} {p : Ptr} {dir : Direction} {call : Call} {proc : Process}

theorem told_cases (moved : hooks.step s.proc call = some proc) (p : Ptr) (dir : Direction) :
    Leaves p dir s.proc call ∧ s.tell call p dir = s.told p dir ∨
      ∃ v sockfd, s.proc.fdMgr.find sockfd = some (some p) ∧ s.tell call p dir = some v ∧
        (proc.fdMgr.heap p).getTimeout dir.optname = v := by
  by_cases leaves : Leaves p dir s.proc call
  · refine Or.inl ⟨leaves, ?_⟩
    cases call with
    | setsockopt t_hook_enable sockfd level optname tv_sec tv_usec ret => exact if_pos leaves
    | socket | close | fcntl | ioctl => rfl
  · cases call with
    | setsockopt t_hook_enable sockfd level optname tv_sec tv_usec ret =>
        rcases not_not.mp leaves with ⟨hooked, socket, option, found⟩
        subst hooked socket option
        refine Or.inr ⟨timeoutOf tv_sec tv_usec, sockfd, found, if_neg leaves, ?_⟩
        rcases Option.map_eq_some_iff.mp moved with ⟨⟨answer, _⟩, called, rfl⟩
        rw [setsockopt_stores found called]
        simp only [FdManager.store, Function.update_self, getTimeout_setTimeout]
    | socket | close | fcntl | ioctl => exact absurd trivial leaves

theorem recalled_hook (recalled : Recalled s) (reached : Reach hooks anyStep s.proc)
    (moved : hooks.step s.proc call = some proc) :
    Recalled { s.pass call with proc := proc, told := s.tell call } := by
  have moves := call_moves moved
  constructor
  · intro p known dir
    rcases told_cases moved p dir with ⟨leaves, same⟩ | ⟨v, sockfd, found, tells, stored⟩
    · have answer : Sockets.answer { s.pass call with proc := proc, told := s.tell call } p dir =
          s.answer p dir := congrArg (Option.getD · (-1)) same
      rw [answer]
      by_cases old : p < s.proc.fdMgr.allocated
      · exact (call_leaves old leaves moved).2.trans (recalled.kept p old dir)
      · rw [Sockets.answer, recalled.fresh p (Nat.not_lt.mp old)]
        exact moves_adds moves (Nat.not_lt.mp old) known dir.optname
    · exact stored.trans (congrArg (Option.getD · (-1)) tells).symm
  · intro p past dir
    have old : s.proc.fdMgr.allocated ≤ p := Nat.le_trans (moves_grow moves) past
    rcases told_cases moved p dir with ⟨_, same⟩ | ⟨v, sockfd, found, _, _⟩
    · exact same.trans (recalled.fresh p old dir)
    · exact absurd (known_of_find reached found) (Nat.not_lt.mpr old)

theorem setsockopt_f_proc (sockfd level optname : Int32) (tv : Int64 × Int64) (ret : Int32) :
    (s.setsockopt_f sockfd level optname tv ret).proc = s.proc ∧
      (s.setsockopt_f sockfd level optname tv ret).told = s.told := by
  unfold Sockets.setsockopt_f
  split
  · split
    · exact ⟨rfl, rfl⟩
    · exact ⟨rfl, rfl⟩
  · exact ⟨rfl, rfl⟩

theorem recalled_setter (recalled : Recalled s) (dir : Direction) (m_sock ret : Int32) (v : Int64) :
    Recalled (Socket.setTimeout dir s m_sock v ret) := by
  rcases setsockopt_f_proc (s := s) m_sock SOL_SOCKET dir.optname (timeval v) ret with
    ⟨proc, told⟩
  rcases recalled with ⟨kept, fresh⟩
  constructor
  · unfold Socket.setTimeout Sockets.answer
    rwa [proc, told]
  · unfold Socket.setTimeout
    rwa [proc, told]

/-- What a Socket sets is not a call of the hooks. -/
theorem reach_hooks (reached : Reach sockets anyStep s) : Reach hooks anyStep s.proc := by
  refine reached.invariant (fun s => Reach hooks anyStep s.proc) ?_ ?_
  · rintro s ⟨initial, _⟩
    exact .start initial
  · intro before call after _ prior _ done
    cases call with
    | hook call =>
        rcases Option.map_eq_some_iff.mp done with ⟨proc, moved, rfl⟩
        exact prior.extend (.single call trivial moved)
    | setTimeout dir m_sock v ret =>
        cases done
        rwa [Socket.setTimeout, (setsockopt_f_proc ..).1]

theorem recalled_reach (reached : Reach sockets anyStep s) : Recalled s := by
  refine reached.invariant Recalled ?_ ?_
  · rintro s ⟨initial, untold⟩
    constructor
    · intro p known
      rw [initial] at known
      exact absurd known (Nat.not_lt_zero p)
    · exact fun p _ dir => untold p dir
  · intro before call after prior recalled _ done
    cases call with
    | hook call =>
        rcases Option.map_eq_some_iff.mp done with ⟨proc, moved, rfl⟩
        exact recalled_hook recalled (reach_hooks prior) moved
    | setTimeout dir m_sock v ret =>
        cases done
        exact recalled_setter recalled dir m_sock ret v

end Runs

section Waits
variable {isCall : FiberId → Bool} {w after : World} {name : DoIo.Call} {timer : Addr}
  {now : UInt64}

theorem armed_delay (armed : w.call isCall name (.addConditionTimer timer now) = some after) :
    if (w.calls name).timeout = -1 then (after.calls name).pc = .adding none
    else (after.calls name).pc = .adding (some timer) ∧ timer ∈ after.mgr.m_timers ∧
      (after.mgr.heap timer).m_ms = (w.calls name).timeout := by
  cases DoIo.call_goes armed with
  | endless arming unlimited =>
      rw [if_pos unlimited, World.goto_pc]
  | arm arming limited timer fresh now =>
      rw [if_neg limited, World.goto_pc]
      have pending : timer ∈ (w.mgr.addTimer timer (w.calls name).timeout (some name) false
        now).2.m_timers := Timers.mem_addTimer ..
      have delay : ((w.mgr.addTimer timer (w.calls name).timeout (some name) false
        now).2.heap timer).m_ms = (w.calls name).timeout := by rw [Timers.addTimer_heap]
      exact ⟨rfl, pending, delay⟩

end Waits

/-- Whatever the hooks and the setters were called with, on whichever Sockets. -/
theorem timeouts_read_back {s : Sockets} (reached : Reach sockets anyStep s) (m_sock : Int32)
    (dir : Direction) : ReadsBack s m_sock dir := by
  have recalled := recalled_reach reached
  have kept : ∀ p, s.proc.fdMgr.find m_sock = some (some p) →
      (s.proc.fdMgr.heap p).getTimeout dir.optname = s.answer p dir := fun p found =>
    recalled.kept p (known_of_find (reach_hooks reached) found) dir
  refine ⟨?_, ?_, ?_⟩
  · intro ctx found
    rw [Socket.getTimeout, found, Option.map_some]
    cases ctx with
    | none => rfl
    | some p => exact congrArg (fun v => some (UInt64.toInt64 v)) (kept p found)
  · intro p found isCall w entered blocked after name timer now entry run armed
    have timeout : (blocked.calls name).timeout = s.answer p dir := by
      rw [path_timeout run (DoIo.call_keeps entry).inside]
      cases DoIo.call_goes entry with
      | enter outside named hook_enable ctx fd event timeout_so => simpa using kept p found
    rw [← timeout]
    exact armed_delay armed
  · intro file v opened
    refine ⟨(timeval v).1, (timeval v).2, ?_, timeval_sent v, sent_eq_iff v⟩
    simp [Socket.setTimeout, Sockets.setsockopt_f, opened]

def fiveTold : List SocketCall :=
  [.hook (.socket true (some { fd := 5 })),
    .hook (.setsockopt true 5 SOL_SOCKET SO_RCVTIMEO 1 500000 0),
    .setTimeout .receive 5 120000 0, .setTimeout .send 5 120000 0]

/-- The setters are not read back. -/
theorem timeouts_read_back_five :
    ∃ s, run sockets {} fiveTold = some s ∧
      (Socket.getRecvTimeout s.proc 5 = some 1500 ∧ Socket.getSendTimeout s.proc 5 = some (-1)) ∧
      ReadsBack s 5 .receive ∧ ReadsBack s 5 .send := by
  refine run_meets_where anyStep
    (fun s => Socket.getRecvTimeout s.proc 5 = some 1500 ∧
      Socket.getSendTimeout s.proc 5 = some (-1))
    ⟨rfl, fun _ _ => rfl⟩ (by decide +kernel) (by decide +kernel) ?_
  intro s reached read
  exact ⟨of_decide_eq_true read, timeouts_read_back reached 5 .receive,
    timeouts_read_back reached 5 .send⟩

-- the seconds wrap to zero
example : sent 4294967295999 = -1 := by decide

end Ztyco.Descriptors
