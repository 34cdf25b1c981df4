import Mathlib.Algebra.Ring.Int.Defs
import Mathlib.Algebra.Ring.Nat
import Ztyco.TimerSet

/-!
`sleep`, `usleep` and `nanosleep` of hook.cc. Each adds a timer that schedules
the calling fiber and holds the fiber back. The delay of a timer is a `uint64_t`
and each call gets to it through another type: an `unsigned int` product, an
`unsigned int` quotient, and a `long` that is put into an `int`. Signed sums and
products wrap.
-/

namespace Ztyco.Sleeps

open Fibers (FiberId)
open Timers (Addr TimerManager)

structure Syscalls where
  sleep_f : UInt32 → UInt32
  usleep_f : UInt32 → Int32
  nanosleep_f : Int64 → Int64 → Int32

/-- The calling fiber, the timers of its IOManager, the address the new timer
gets and the clock when it is made. -/
structure Caller where
  t_hook_enable : Bool
  fiber : FiberId
  mgr : TimerManager
  timer : Addr
  now : UInt64

/-- A call has been passed on to the kernel, or its fiber has yielded to hold,
to return `ret` when it is resumed. `atFront` tells whether
`onTimerInsertedAtFront` is called. -/
inductive Slept (Ret : Type) where
  | kernel (ret : Ret)
  | held (ret : Ret) (atFront : Bool) (mgr : TimerManager)

/-- `addTimer(ms, bind(&IOManager::schedule, iom, fiber, -1))` and
`YieldToHold()`. The callback is named by the fiber it schedules. -/
def Caller.hold {Ret : Type} (here : Caller) (ms : UInt64) (ret : Ret) : Slept Ret :=
  let added := here.mgr.addTimer here.timer ms (some here.fiber) false here.now
  .held ret added.1 added.2

namespace Caller

def sleep (here : Caller) (sys : Syscalls) (seconds : UInt32) : Slept UInt32 :=
  if !here.t_hook_enable then .kernel (sys.sleep_f seconds) else
  here.hold (seconds * 1000).toUInt64 0

def usleep (here : Caller) (sys : Syscalls) (usec : UInt32) : Slept Int32 :=
  if !here.t_hook_enable then .kernel (sys.usleep_f usec) else
  here.hold (usec / 1000).toUInt64 0

def nanosleep (here : Caller) (sys : Syscalls) (tv_sec tv_nsec : Int64) : Slept Int32 :=
  if !here.t_hook_enable then .kernel (sys.nanosleep_f tv_sec tv_nsec) else
  let timeout_ms : Int32 := (tv_sec * 1000 + tv_nsec / 1000 / 1000).toInt32
  here.hold timeout_ms.toInt64.toUInt64 0

end Caller

def Slept.Timed {Ret : Type} (slept : Slept Ret) (here : Caller) (ms : Int) : Prop :=
  ∃ ret atFront mgr, slept = .held ret atFront mgr ∧ here.timer ∈ mgr.m_timers ∧
    (mgr.heap here.timer).m_cb = some here.fiber ∧
    (mgr.heap here.timer).m_recurring = false ∧
    ((mgr.heap here.timer).m_ms.toNat : Int) = ms

inductive Request where
  | sleep (seconds : UInt32)
  | usleep (usec : UInt32)
  | nanosleep (tv_sec tv_nsec : Int64)
  deriving DecidableEq, Repr

namespace Request

def duration : Request → Int
  | .sleep seconds => 1000 * seconds.toNat
  | .usleep usec => usec.toNat / 1000
  | .nanosleep tv_sec tv_nsec => 1000 * tv_sec.toInt + tv_nsec.toInt / 1000000

/-- The argument is one that POSIX allows, and the duration fits a delay. -/
def Valid : Request → Prop
  | .sleep _ | .usleep _ => True
  | .nanosleep tv_sec tv_nsec =>
      0 ≤ tv_sec.toInt ∧ 0 ≤ tv_nsec.toInt ∧ tv_nsec.toInt < 1000000000 ∧
        (nanosleep tv_sec tv_nsec).duration < UInt64.size

def Exact (request : Request) (here : Caller) (sys : Syscalls) : Prop :=
  match request with
  | .sleep seconds => (here.sleep sys seconds).Timed here request.duration
  | .usleep usec => (here.usleep sys usec).Timed here request.duration
  | .nanosleep tv_sec tv_nsec => (here.nanosleep sys tv_sec tv_nsec).Timed here request.duration

/-- The duration survives the types it goes through: 32 bits for `sleep`, an
`int` for `nanosleep`, where the topmost durations come back by sign extension. -/
def Fits : Request → Prop
  | .sleep seconds => seconds ≤ 4294967
  | .usleep _ => True
  | .nanosleep tv_sec tv_nsec =>
      (nanosleep tv_sec tv_nsec).duration < 2147483648 ∨
        18446744071562067968 ≤ (nanosleep tv_sec tv_nsec).duration

end Request

/-! The timer. -/

theorem hold_timed {Ret : Type} (here : Caller) (ms : UInt64) (ret : Ret) (duration : Int) :
    (here.hold ms ret).Timed here duration ↔ (ms.toNat : Int) = duration := by
  constructor
  · rintro ⟨_, _, _, held, _, _, _, exact⟩
    cases held
    rwa [Timers.addTimer_heap] at exact
  · intro exact
    refine ⟨ret, _, _, rfl, Timers.mem_addTimer .., ?_, ?_, ?_⟩
    · rw [Timers.addTimer_heap]
    · rw [Timers.addTimer_heap]
    · rw [Timers.addTimer_heap]
      exact exact

/-! The conversions. -/

theorem toNat_toUInt64 (value : Int64) :
    (value.toUInt64.toNat : Int) = value.toInt % 18446744073709551616 := by
  have bound := value.toBitVec.isLt
  have signed := BitVec.toInt_eq_toNat_cond value.toBitVec
  rw [Int64.toInt_toBitVec] at signed
  rw [← UInt64.toNat_toBitVec, Int64.toBitVec_toUInt64, signed]
  split <;> omega

theorem toInt_div_thousand {value : Int64} (nonneg : 0 ≤ value.toInt) :
    (value / 1000).toInt = value.toInt / 1000 := by
  rw [Int64.toInt_div_of_ne_right _ _ (by decide)]
  exact Int.tdiv_eq_ediv_of_nonneg nonneg

theorem sleep_delay (seconds : UInt32) :
    (seconds * 1000).toUInt64.toNat = 1000 * seconds.toNat % 4294967296 := by
  simp [Nat.mul_comm]

theorem usleep_delay (usec : UInt32) : (usec / 1000).toUInt64.toNat = usec.toNat / 1000 := by
  simp

/-- What the assignment to an `int` keeps of the sum. -/
theorem nanosleep_narrowed {tv_sec tv_nsec : Int64} (nonneg : 0 ≤ tv_nsec.toInt) :
    (tv_sec * 1000 + tv_nsec / 1000 / 1000).toInt32.toInt =
      (Request.nanosleep tv_sec tv_nsec).duration.bmod 4294967296 := by
  have micros := toInt_div_thousand nonneg
  have millis := @toInt_div_thousand (tv_nsec / 1000) (by omega)
  have thousand : Int64.toInt 1000 = 1000 := rfl
  rw [Int64.toInt_toInt32, Int64.toInt_add, Int64.toInt_mul, millis, micros, thousand,
    Int.bmod_bmod_of_dvd (by decide), Request.duration]
  simp only [Int.bmod_def]
  omega

/-- An `int` that is converted back keeps a duration that was its own, and one
that its sign extension makes up again. -/
theorem bmod_emod_eq_iff {duration : Int} (nonneg : 0 ≤ duration)
    (bound : duration < 18446744073709551616) :
    duration.bmod 4294967296 % 18446744073709551616 = duration ↔
      duration < 2147483648 ∨ 18446744071562067968 ≤ duration := by
  rw [Int.bmod_def]
  split <;> omega

/-! A delay is the duration asked for. -/

/-- With hooking enabled, the timer that a call adds has the exact duration for
a delay just where that duration survives the types on its way. -/
theorem exact_iff_fits (here : Caller) (sys : Syscalls) (request : Request)
    (enabled : here.t_hook_enable = true) (valid : request.Valid) :
    request.Exact here sys ↔ request.Fits := by
  cases request with
  | sleep seconds =>
      have bound := seconds.toNat_lt
      have limit : seconds ≤ 4294967 ↔ seconds.toNat ≤ 4294967 := UInt32.le_iff_toNat_le
      simp only [Request.Exact, Caller.sleep, enabled, Bool.not_true, Bool.false_eq_true,
        ↓reduceIte, hold_timed, sleep_delay, Request.duration, Request.Fits, limit]
      omega
  | usleep usec =>
      simp only [Request.Exact, Caller.usleep, enabled, Bool.not_true, Bool.false_eq_true,
        ↓reduceIte, hold_timed, usleep_delay, Request.duration, Request.Fits]
      simp
  | nanosleep tv_sec tv_nsec =>
      obtain ⟨seconds, nanoseconds, _, bound⟩ := valid
      have nonneg : 0 ≤ (Request.nanosleep tv_sec tv_nsec).duration := by
        simp only [Request.duration]
        omega
      simp only [Request.Exact, Caller.nanosleep, enabled, Bool.not_true, Bool.false_eq_true,
        ↓reduceIte, hold_timed, toNat_toUInt64, Int32.toInt_toInt64,
        nanosleep_narrowed nanoseconds]
      exact bmod_emod_eq_iff nonneg bound

def sleeper : Caller where
  t_hook_enable := true
  fiber := 1
  mgr := .constructed 0
  timer := 1
  now := 0

def noSyscalls : Syscalls := ⟨fun _ => 0, fun _ => 0, fun _ _ => 0⟩

/-- Fifty days come out as a wait of less than a second. -/
theorem long_sleep_wraps :
    ¬ (Request.sleep 4294968).Exact sleeper noSyscalls ∧
      (sleeper.sleep noSyscalls 4294968).Timed sleeper 704 := by
  constructor
  · intro exact
    have wrong := (hold_timed sleeper (4294968 * 1000 : UInt32).toUInt64 (0 : UInt32) _).mp exact
    exact absurd wrong (by decide)
  · exact (hold_timed sleeper _ _ _).mpr (by decide)

theorem exact_iff_fits_minute :
    (Request.nanosleep 60 500000).Exact sleeper noSyscalls ↔
      (Request.nanosleep 60 500000).Fits :=
  exact_iff_fits sleeper noSyscalls (.nanosleep 60 500000) rfl (by
    refine ⟨?_, ?_, ?_, ?_⟩ <;> decide)

end Ztyco.Sleeps
