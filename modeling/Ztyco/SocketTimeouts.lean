import Ztyco.IoResults
import Ztyco.OptionFailures
import Ztyco.Sleeps

/-!
The timeouts of a socket, from the hooked `setsockopt` that is given a `timeval`
over the context that keeps the milliseconds to the timer that `do_io` arms. In
the context all ones stand for no timeout; a `timeval` of zero asks for the same
and is stored as a zero.
-/

namespace Ztyco.Descriptors

open DoIo (World)
open EventTable (Event Ptr)
open Fibers (FiberId)
open Timers (Addr)
open Transition

inductive Direction where
  | receive
  | send
  deriving DecidableEq, Repr

namespace Direction

def optname : Direction → Int32
  | .receive => SO_RCVTIMEO
  | .send => SO_SNDTIMEO

def other : Direction → Direction
  | .receive => .send
  | .send => .receive

def event : Direction → Event
  | .receive => .read
  | .send => .write

end Direction

/-- A `timeval` that the kernel takes. -/
structure Timeval where
  tv_sec : Int64
  tv_usec : Int64
  sec_nonneg : 0 ≤ tv_sec.toInt
  usec_nonneg : 0 ≤ tv_usec.toInt
  usec_lt : tv_usec.toInt < 1000000

namespace Timeval

def microseconds (tv : Timeval) : Int := 1000000 * tv.tv_sec.toInt + tv.tv_usec.toInt

def Kept (tv : Timeval) : Prop :=
  tv.microseconds % 1000 = 0 ∧ 0 < tv.microseconds ∧
    tv.microseconds / 1000 < 18446744073709551615

end Timeval

/-- What a wait with this timeout does about its timer: there is none for a
`timeval` of zero, else one that is late enough. -/
def Timeval.Waits (tv : Timeval) (after : World) (name : DoIo.Call) (timer : Addr) : Prop :=
  if tv.microseconds = 0 then (after.calls name).pc = .adding none
  else (after.calls name).pc = .adding (some timer) ∧ timer ∈ after.mgr.m_timers ∧
    tv.microseconds ≤ 1000 * (after.mgr.heap timer).m_ms.toNat

def Leaves (p : Ptr) (dir : Direction) (proc : Process) : Call → Prop
  | .setsockopt t_hook_enable sockfd level optname _ _ _ =>
      ¬ (t_hook_enable = true ∧ level = SOL_SOCKET ∧ optname = dir.optname ∧
        proc.fdMgr.find sockfd = some (some p))
  | .socket .. | .close .. | .fcntl .. | .ioctl .. => True

instance Leaves.decidable (p : Ptr) (dir : Direction) (proc : Process) :
    (call : Call) → Decidable (Leaves p dir proc call)
  | .setsockopt t_hook_enable sockfd level optname _ _ _ =>
      inferInstanceAs (Decidable (¬ (t_hook_enable = true ∧ level = SOL_SOCKET ∧
        optname = dir.optname ∧ proc.fdMgr.find sockfd = some (some p))))
  | .socket .. | .close .. | .fcntl .. | .ioctl .. => .isTrue trivial

/-! What is stored. -/

theorem getTimeout_setTimeout (ctx : FdCtx) (dir : Direction) (v : UInt64) :
    (ctx.setTimeout dir.optname v).getTimeout dir.optname = v := by
  cases dir with
  | receive => rfl
  | send => rfl

theorem getTimeout_other (ctx : FdCtx) (dir : Direction) (v : UInt64) :
    (ctx.setTimeout dir.optname v).getTimeout dir.other.optname =
      ctx.getTimeout dir.other.optname := by
  cases dir with
  | receive => rfl
  | send => rfl

theorem timeoutOf_toNat (tv : Timeval) :
    ((timeoutOf tv.tv_sec tv.tv_usec).toNat : Int) =
      tv.microseconds / 1000 % 18446744073709551616 := by
  have millis := Sleeps.toInt_div_thousand tv.usec_nonneg
  have thousand : Int64.toInt 1000 = 1000 := rfl
  rw [timeoutOf, Sleeps.toNat_toUInt64, Int64.toInt_add, Int64.toInt_mul, millis, thousand,
    Timeval.microseconds]
  simp only [Int.bmod_def]
  omega

/-- What is stored means the `timeval` exactly where it is a number of
milliseconds that stands for itself. -/
theorem stored_iff (tv : Timeval) :
    (if tv.microseconds = 0 then timeoutOf tv.tv_sec tv.tv_usec = -1
      else timeoutOf tv.tv_sec tv.tv_usec ≠ -1 ∧
        tv.microseconds ≤ 1000 * (timeoutOf tv.tv_sec tv.tv_usec).toNat) ↔ tv.Kept := by
  have stored := timeoutOf_toNat tv
  have endless : timeoutOf tv.tv_sec tv.tv_usec = -1 ↔
      (timeoutOf tv.tv_sec tv.tv_usec).toNat = 18446744073709551615 := by
    rw [← UInt64.toNat_inj]
    rfl
  have nonneg : 0 ≤ tv.microseconds := by
    have seconds := tv.sec_nonneg
    have rest := tv.usec_nonneg
    unfold Timeval.microseconds
    omega
  simp only [Timeval.Kept, ne_eq, endless]
  split
  · omega
  · omega

/-! What other calls leave of it. -/

def SameTimeouts (before after : FdManager) : Prop :=
  ∀ p < before.allocated, p < after.allocated ∧
    ∀ type, (after.heap p).getTimeout type = (before.heap p).getTimeout type

section Calls
variable {proc after : Process} {fd ret : Int32}

theorem sameTimeouts_refl (mgr : FdManager) : SameTimeouts mgr mgr :=
  fun _ known => ⟨known, fun _ => rfl⟩

theorem sameTimeouts_user (p : Ptr) (v : Bool) :
    SameTimeouts proc.fdMgr (proc.setUserNonblock p v).fdMgr := by
  intro q known
  refine ⟨known, fun type => ?_⟩
  by_cases same : q = p
  · subst same
    simp [Process.setUserNonblock, FdManager.store, FdCtx.getTimeout]
  · simp [Process.setUserNonblock, FdManager.store, same]

theorem sameTimeouts_get {mgr result : FdManager} {ctx : Option Ptr} {kernel later : Kernel}
    (got : mgr.get fd true kernel = some (ctx, result, later)) : SameTimeouts mgr result := by
  rcases FdManager.get_cases got with rfl | ⟨p, created⟩
  · exact sameTimeouts_refl _
  · rcases create_adds created with ⟨heap, allocated, _⟩
    intro q known
    rw [heap, allocated, Function.update_of_ne (Nat.ne_of_lt known)]
    exact ⟨Nat.lt_succ_of_lt known, fun _ => rfl⟩

theorem sameTimeouts_del {mgr result : FdManager} (deleted : mgr.del fd = some result) :
    SameTimeouts mgr result := by
  rcases FdManager.del_cases deleted with rfl | assigned
  · exact sameTimeouts_refl _
  · rcases assign_keeps assigned with ⟨heap, allocated, _⟩
    intro q known
    rw [heap, allocated]
    exact ⟨known, fun _ => rfl⟩

theorem sameTimeouts_socket {t_hook_enable : Bool} {handout : Option Handout}
    (called : proc.socket t_hook_enable handout = some (ret, after)) :
    SameTimeouts proc.fdMgr after.fdMgr := by
  rcases socket_table called with same | ⟨_, _, _, _, found⟩
  · rw [same]
    exact sameTimeouts_refl _
  · exact sameTimeouts_get found

theorem sameTimeouts_close {t_hook_enable : Bool}
    (called : proc.close t_hook_enable fd = some (ret, after)) :
    SameTimeouts proc.fdMgr after.fdMgr := by
  rcases close_table called with same | deleted
  · rw [same]
    exact sameTimeouts_refl _
  · exact sameTimeouts_del deleted

theorem sameTimeouts_fcntl {cmd : FcntlCmd} (called : proc.fcntl fd cmd = some (ret, after)) :
    SameTimeouts proc.fdMgr after.fdMgr := by
  cases cmd with
  | setfl arg =>
      rcases Option.map_eq_some_iff.mp called with ⟨ctx, _, done⟩
      split at done
      · cases done
        exact sameTimeouts_refl _
      · rename_i p _
        cases done
        exact sameTimeouts_user p _
  | getfl =>
      rcases Option.map_eq_some_iff.mp called with ⟨ctx, _, done⟩
      split at done
      · cases done
        exact sameTimeouts_refl _
      · split at done <;>
        · cases done
          exact sameTimeouts_refl _
  | dupfd handout =>
      cases called
      exact sameTimeouts_refl _
  | other answer =>
      cases called
      exact sameTimeouts_refl _

theorem sameTimeouts_ioctl {request : IoctlRequest}
    (called : proc.ioctl fd request = some (ret, after)) : SameTimeouts proc.fdMgr after.fdMgr := by
  cases request with
  | fionbio value =>
      rcases Option.map_eq_some_iff.mp called with ⟨ctx, _, done⟩
      split at done
      · cases done
        exact sameTimeouts_refl _
      · rename_i p _
        cases done
        exact sameTimeouts_user p _
  | other answer =>
      cases called
      exact sameTimeouts_refl _

end Calls

/-- The timeouts of one direction are those of the other, or set through another
context. -/
theorem setTimeout_leaves {mgr : FdManager} {p q : Ptr} {dir : Direction} {optname : Int32}
    (v : UInt64) (timeout : optname = SO_RCVTIMEO ∨ optname = SO_SNDTIMEO)
    (left : ¬ (optname = dir.optname ∧ q = p)) :
    ((mgr.store q ((mgr.heap q).setTimeout optname v)).heap p).getTimeout dir.optname =
      (mgr.heap p).getTimeout dir.optname := by
  by_cases same : q = p
  · subst same
    simp only [FdManager.store, Function.update_self]
    cases dir with
    | receive =>
        rcases timeout with rfl | rfl
        · exact absurd ⟨rfl, rfl⟩ left
        · rfl
    | send =>
        rcases timeout with rfl | rfl
        · rfl
        · exact absurd ⟨rfl, rfl⟩ left
  · have different : p ≠ q := fun same' => same same'.symm
    simp [FdManager.store, different]

theorem call_leaves {proc after : Process} {p : Ptr} {dir : Direction} {call : Call}
    (known : p < proc.fdMgr.allocated) (left : Leaves p dir proc call)
    (moved : hooks.step proc call = some after) :
    p < after.fdMgr.allocated ∧ (after.fdMgr.heap p).getTimeout dir.optname =
      (proc.fdMgr.heap p).getTimeout dir.optname := by
  have kept : SameTimeouts proc.fdMgr after.fdMgr → p < after.fdMgr.allocated ∧
      (after.fdMgr.heap p).getTimeout dir.optname = (proc.fdMgr.heap p).getTimeout dir.optname :=
    fun same => ⟨(same p known).1, (same p known).2 _⟩
  simp only [hooks] at moved
  split at moved
  · rcases Option.map_eq_some_iff.mp moved with ⟨⟨ret, _⟩, called, rfl⟩
    cases call with
    | socket t_hook_enable handout => exact kept (sameTimeouts_socket called)
    | close t_hook_enable fd => exact kept (sameTimeouts_close called)
    | fcntl fd cmd => exact kept (sameTimeouts_fcntl called)
    | ioctl d request => exact kept (sameTimeouts_ioctl called)
    | setsockopt t_hook_enable sockfd level optname tv_sec tv_usec answer =>
        simp only [Process.call, Process.setsockopt] at called
        split at called
        · cases called
          exact kept (sameTimeouts_refl _)
        · rename_i hooked
          split at called
          · rename_i timeout
            rcases Option.map_eq_some_iff.mp called with ⟨ctx, found, done⟩
            cases ctx with
            | none =>
                cases done
                exact kept (sameTimeouts_refl _)
            | some q =>
                cases done
                refine ⟨known, setTimeout_leaves _ timeout.2 ?_⟩
                rintro ⟨direction, rfl⟩
                exact left ⟨by simpa using hooked, timeout.1, direction, found⟩
          · cases called
            exact kept (sameTimeouts_refl _)
  · cases moved

/-- Over a run the context keeps the timeout that was set. -/
theorem path_leaves {proc after : Process} {p : Ptr} {dir : Direction}
    (path : Path hooks (Leaves p dir) proc after) (known : p < proc.fdMgr.allocated) :
    (after.fdMgr.heap p).getTimeout dir.optname = (proc.fdMgr.heap p).getTimeout dir.optname := by
  refine (path.invariant (fun middle => p < middle.fdMgr.allocated ∧
    (middle.fdMgr.heap p).getTimeout dir.optname = (proc.fdMgr.heap p).getTimeout dir.optname)
    ?_ ⟨known, rfl⟩).2
  rintro before call next ⟨there, same⟩ left moved
  rcases call_leaves there left moved with ⟨there', same'⟩
  exact ⟨there', same'.trans same⟩

/-! The wait. -/

section Waits
variable {isCall : FiberId → Bool} {w after : World} {name : DoIo.Call}

/-- A call that has been entered has its timeout for good. -/
theorem own_timeout {step : DoIo.CallStep} (inside : (w.calls name).pc ≠ .outside)
    (done : w.call isCall name step = some after) :
    (after.calls name).timeout = (w.calls name).timeout := by
  cases DoIo.call_goes done with
  | enter outside named hook_enable ctx fd event timeout_so => exact absurd outside inside
  | retry calling => rfl
  | abandon failing cancelled =>
      rw [DoIo.goto_frame, (DoIo.cancelTimer_keeps cancelled).1]
  | disarm resumed cancelled =>
      rw [DoIo.goto_frame, (DoIo.cancelTimer_keeps cancelled).1]
  | passThrough _ _ _ | block _ | finish _ _ _ _ _ | endless _ _ _ _ | arm _ _ _ _ _
  | refused _ _ _ | register _ _ _ | resume _ _ | expire _ _ | again _ _ =>
      simp only [DoIo.goto_frame, World.timed]

theorem path_timeout (path : Path (DoIo.doIo isCall) anyStep w after)
    (inside : (w.calls name).pc ≠ .outside) :
    (after.calls name).timeout = (w.calls name).timeout := by
  refine (path.invariant (fun middle => (middle.calls name).pc ≠ .outside ∧
    (middle.calls name).timeout = (w.calls name).timeout) ?_ ⟨inside, rfl⟩).2
  rintro before step next ⟨entered, same⟩ _ moved
  by_cases own : ∃ step', step = .call name step'
  · rcases own with ⟨step', rfl⟩
    exact ⟨(DoIo.call_keeps moved).inside, (own_timeout entered moved).trans same⟩
  · have frame := (DoIo.foreign_keeps moved fun step' same => own ⟨step', same⟩).1
    rw [frame]
    exact ⟨entered, same⟩

theorem waits_iff {timer : Addr} {now : UInt64} (tv : Timeval)
    (armed : w.call isCall name (.addConditionTimer timer now) = some after) :
    tv.Waits after name timer ↔ if tv.microseconds = 0 then (w.calls name).timeout = -1
      else (w.calls name).timeout ≠ -1 ∧
        tv.microseconds ≤ 1000 * (w.calls name).timeout.toNat := by
  unfold Timeval.Waits
  cases DoIo.call_goes armed with
  | endless arming unlimited =>
      rw [World.goto_pc, unlimited]
      simp
  | arm arming limited timer fresh now =>
      have pending : timer ∈ (w.mgr.addTimer timer (w.calls name).timeout (some name) false
        now).2.m_timers := Timers.mem_addTimer ..
      have delay : ((w.mgr.addTimer timer (w.calls name).timeout (some name) false
        now).2.heap timer).m_ms = (w.calls name).timeout := by rw [Timers.addTimer_heap]
      rw [World.goto_pc]
      split
      · simp [limited]
      · simp [World.goto, World.timed, pending, delay, limited]

end Waits

theorem known_of_find {proc : Process} {fd : Int32} {p : Ptr} (reached : Reach hooks anyStep proc)
    (found : proc.fdMgr.find fd = some (some p)) : p < proc.fdMgr.allocated := by
  rcases reach_recorded reached with ⟨requested, recorded⟩
  exact (reach_tracked recorded).known p (find_mem found)

theorem setsockopt_stores {proc set : Process} {fd ret answer : Int32} {p : Ptr}
    (found : proc.fdMgr.find fd = some (some p)) {dir : Direction} {tv_sec tv_usec : Int64}
    (done : proc.setsockopt true fd SOL_SOCKET dir.optname tv_sec tv_usec ret =
      some (answer, set)) :
    set.fdMgr = proc.fdMgr.store p
      ((proc.fdMgr.heap p).setTimeout dir.optname (timeoutOf tv_sec tv_usec)) := by
  have timeout : dir.optname = SO_RCVTIMEO ∨ dir.optname = SO_SNDTIMEO := by
    cases dir with
    | receive => exact Or.inl rfl
    | send => exact Or.inr rfl
  simp only [Process.setsockopt, Bool.not_true, Bool.false_eq_true, ↓reduceIte, true_and, timeout,
    found, Option.map_some, Option.some.injEq, Prod.mk.injEq] at done
  rw [← done.2]
  rfl

/-- A `timeval` is set in one direction, which is then left alone. The other
direction is as it was, and a later call in this direction that gets EAGAIN waits
as the `timeval` says exactly where that is kept. -/
theorem timeval_waits_iff {proc set later : Process} {fd ret answer : Int32} {p : Ptr}
    (reached : Reach hooks anyStep proc) (found : proc.fdMgr.find fd = some (some p))
    (dir : Direction) (tv : Timeval)
    (done : proc.setsockopt true fd SOL_SOCKET dir.optname tv.tv_sec tv.tv_usec ret =
      some (answer, set))
    (path : Path hooks (Leaves p dir) set later) {isCall : FiberId → Bool}
    {w entered blocked after : World} {name : DoIo.Call} {timer : Addr} {now : UInt64}
    (entry : w.call isCall name
      (.enter true (some (later.fdMgr.heap p)) fd dir.event dir.optname) = some entered)
    (run : Path (DoIo.doIo isCall) anyStep entered blocked)
    (armed : blocked.call isCall name (.addConditionTimer timer now) = some after) :
    (set.fdMgr.heap p).getTimeout dir.other.optname =
        (proc.fdMgr.heap p).getTimeout dir.other.optname ∧
      (tv.Waits after name timer ↔ tv.Kept) := by
  have stored := setsockopt_stores found done
  have known : p < set.fdMgr.allocated := by
    rw [stored]
    exact known_of_find reached found
  have kept : (later.fdMgr.heap p).getTimeout dir.optname =
      timeoutOf tv.tv_sec tv.tv_usec := by
    rw [path_leaves path known, stored]
    simp only [FdManager.store, Function.update_self, getTimeout_setTimeout]
  refine ⟨?_, ?_⟩
  · rw [stored]
    simp only [FdManager.store, Function.update_self, getTimeout_other]
  · have timeout : (blocked.calls name).timeout = timeoutOf tv.tv_sec tv.tv_usec := by
      rw [path_timeout run (DoIo.call_keeps entry).inside]
      cases DoIo.call_goes entry with
      | enter outside named hook_enable ctx fd event timeout_so =>
          simpa using kept
    rw [waits_iff tv armed, timeout]
    exact stored_iff tv

/-! A wait for what is read from the number 5. -/

def Timeval.second : Timeval := ⟨1, 0, by decide, by decide, by decide⟩

def Timeval.forever : Timeval := ⟨0, 0, by decide, by decide, by decide⟩

def Timeval.on (tv : Timeval) : Process :=
  (Process.five.setsockopt true 5 SOL_SOCKET SO_RCVTIMEO tv.tv_sec tv.tv_usec 0).elim {} (·.2)

def calm : World := { io := .constructed, mgr := .constructed 0 }

def taken (w : World) (step : DoIo.CallStep) : World := (w.call (fun _ => true) 1 step).getD w

namespace Timeval

def entered (tv : Timeval) : World :=
  taken calm (.enter true (some (tv.on.fdMgr.heap 0)) 5 .read SO_RCVTIMEO)

def blocked (tv : Timeval) : World := taken tv.entered (.originFun (-1) DoIo.EAGAIN)

def armed (tv : Timeval) : World := taken tv.blocked (.addConditionTimer 1 0)

end Timeval

theorem reach_five : Reach hooks anyStep Process.five := by
  have moved : hooks.step {} (.socket true (some { fd := 5 })) = some Process.five := rfl
  exact (Reach.start rfl).extend (.single _ trivial moved)

theorem path_blocked (tv : Timeval) (moved : (DoIo.doIo fun _ => true).step tv.entered
    (.call 1 (.originFun (-1) DoIo.EAGAIN)) = some tv.blocked) :
    Path (DoIo.doIo fun _ => true) anyStep tv.entered tv.blocked :=
  .single _ trivial moved

theorem timeval_waits_iff_second :
    (Timeval.second.on.fdMgr.heap 0).getTimeout SO_SNDTIMEO =
        (Process.five.fdMgr.heap 0).getTimeout SO_SNDTIMEO ∧
      (Timeval.second.Waits Timeval.second.armed 1 1 ↔ Timeval.second.Kept) := by
  have found : Process.five.fdMgr.find 5 = some (some 0) := by decide
  have done : Process.five.setsockopt true 5 SOL_SOCKET SO_RCVTIMEO 1 0 0 =
      some (0, Timeval.second.on) := rfl
  have entry : calm.call (fun _ => true) 1 (.enter true (some (Timeval.second.on.fdMgr.heap 0))
      5 .read SO_RCVTIMEO) = some Timeval.second.entered := rfl
  have armed : Timeval.second.blocked.call (fun _ => true) 1 (.addConditionTimer 1 0) =
      some Timeval.second.armed := rfl
  exact timeval_waits_iff reach_five found .receive .second done (.refl _) entry
    (path_blocked .second rfl) armed

/-- A read of a socket whose timeout is set to zero, to wait for ever, is given a
timer that expires at once. -/
theorem forever_expires :
    ∃ proc set entered blocked after, Reach hooks anyStep proc ∧
      proc.fdMgr.find 5 = some (some 0) ∧
      proc.setsockopt true 5 SOL_SOCKET SO_RCVTIMEO 0 0 0 = some (0, set) ∧
      calm.call (fun _ => true) 1
        (.enter true (some (set.fdMgr.heap 0)) 5 .read SO_RCVTIMEO) = some entered ∧
      Path (DoIo.doIo fun _ => true) anyStep entered blocked ∧
      blocked.call (fun _ => true) 1 (.addConditionTimer 1 0) = some after ∧
      (after.calls 1).pc = .adding (some 1) ∧ (after.mgr.heap 1).m_ms = 0 ∧
      ¬ Timeval.forever.Waits after 1 1 :=
  ⟨.five, Timeval.forever.on, Timeval.forever.entered, Timeval.forever.blocked,
    Timeval.forever.armed, reach_five, by decide, rfl, rfl, path_blocked .forever rfl, rfl,
    by decide, by decide, by
      have armed : (Timeval.forever.armed.calls 1).pc = .adding (some 1) := by decide
      intro waits
      have none : (Timeval.forever.armed.calls 1).pc = .adding none := waits
      rw [armed] at none
      cases none⟩

end Ztyco.Descriptors
