import Ztyco.DoIo

/-!
`connect_with_timeout` of hook.cc: one call, interleaved with the callback of
its timer and with whatever triggers the WRITE event it waits for. What
`connect_f`, `addEvent` and `getsockopt` answer comes with the step. The call
passes its first result on exactly where `do_io` waits, and waits where `do_io`
passes on.
-/

namespace Ztyco.Connecting

open Descriptors (FdCtx)
open DoIo (EBADF ETIMEDOUT)
open Transition

def EINPROGRESS : Int32 := 115

/-- What a call does next. `direct` is `return connect_f(...)`; `waiting`
begins with the success of `addEvent`. -/
inductive Pc where
  | direct
  | connecting
  | arming
  | adding
  | failing
  | waiting
  | resumed
  | checking
  | asking
  | returned (n : Int32)
  deriving DecidableEq, Repr

structure Result where
  ret : Int32
  errno : Int32
  deriving DecidableEq, Repr

structure SocketError where
  ret : Int32
  error : Int32
  errno : Int32
  deriving DecidableEq, Repr

/-- `timer` tells whether there is one and whether it still has its callback,
`cancelled` is the field of the `timer_info` and `triggered` that the event has
been triggered. `answer`, `registered`, `asked` and `yielded` are history: what
the three calls have answered and whether the fiber has been held. -/
structure Connect where
  userNonblock : Bool
  timeout_ms : UInt64
  pc : Pc
  errno : Int32
  timer : Option Bool := none
  cancelled : Int32 := 0
  cancelling : Bool := false
  triggered : Bool := false
  answer : Option Result := none
  registered : Option Int32 := none
  asked : Option SocketError := none
  yielded : Bool := false
  deriving DecidableEq, Repr

def entry (hook_enable : Bool) (ctx : Option FdCtx) : Pc :=
  if !hook_enable then .direct else
  match ctx with
  | none => .returned (-1)
  | some ctx =>
      if ctx.m_isClosed then .returned (-1)
      else if !ctx.m_isSocket then .direct
      else if !ctx.m_userNonblock then .direct
      else .connecting

def Connect.called (hook_enable : Bool) (ctx : Option FdCtx) (timeout_ms : UInt64)
    (errno : Int32) : Connect where
  userNonblock := ctx.any (·.m_userNonblock)
  timeout_ms := timeout_ms
  pc := entry hook_enable ctx
  errno := if hook_enable && ctx.all (·.m_isClosed) then EBADF else errno

/-- `expire` is the timer's callback up to the assignment to `cancelled`, which
it makes where the `timer_info` is alive, and `trigger` any other trigger of
the event. -/
inductive Step where
  | connect_f (n errno : Int32)
  | addConditionTimer
  | addEvent (ret : Int32)
  | resume
  | cancelTimer
  | check
  | getsockopt (answer : SocketError)
  | expire
  | cancelEvent
  | trigger
  deriving DecidableEq, Repr

namespace Connect

def live (c : Connect) : Bool :=
  match c.pc with
  | .direct | .connecting | .returned _ => false
  | .arming | .adding | .failing | .waiting | .resumed | .checking | .asking => true

def fail (c : Connect) (error : Int32) : Connect :=
  { c with errno := error, pc := .returned (-1) }

def conclude (c : Connect) (answer : SocketError) : Connect :=
  if answer.ret = -1 then c.fail answer.errno
  else if answer.error = 0 then { c with pc := .returned 0 }
  else c.fail answer.error

def act (c : Connect) : Step → Option Connect
  | .connect_f n errno =>
      let after := { c with errno := errno, answer := some ⟨n, errno⟩ }
      match c.pc with
      | .direct => some { after with pc := .returned n }
      | .connecting =>
          if n = 0 then some { after with pc := .returned 0 }
          else if n ≠ -1 ∨ errno = EINPROGRESS then some { after with pc := .returned n }
          else some { after with pc := .arming }
      | _ => none
  | .addConditionTimer => match c.pc with
      | .arming =>
          if c.timeout_ms ≠ -1 then some { c with timer := some true, pc := .adding }
          else some { c with pc := .adding }
      | _ => none
  | .addEvent ret => match c.pc with
      | .adding =>
          if ret = 0 then some { c with registered := some ret, yielded := true, pc := .waiting }
          else some { c with registered := some ret, pc := .failing }
      | _ => none
  | .resume => match c.pc with
      | .waiting => if c.triggered then some { c with pc := .resumed } else none
      | _ => none
  | .cancelTimer => match c.pc with
      | .resumed => some { c with timer := c.timer.map fun _ => false, pc := .checking }
      | .failing => some { c with timer := c.timer.map fun _ => false, pc := .asking }
      | _ => none
  | .check => match c.pc with
      | .checking => if c.cancelled ≠ 0 then some (c.fail c.cancelled)
          else some { c with pc := .asking }
      | _ => none
  | .getsockopt answer => match c.pc with
      | .asking => some ({ c with asked := some answer }.conclude answer)
      | _ => none
  | .expire =>
      if c.timer = some true then
        let c := { c with timer := some false }
        if !c.live || c.cancelled ≠ 0 then some c
        else some { c with cancelled := ETIMEDOUT, cancelling := true }
      else none
  | .cancelEvent =>
      if c.cancelling then
        let c := { c with cancelling := false }
        -- an event that is not registered, or that has been triggered, is left alone
        if c.pc = .waiting ∧ c.triggered = false then some { c with triggered := true } else some c
      else none
  | .trigger =>
      if c.pc = .waiting ∧ c.triggered = false then some { c with triggered := true } else none

end Connect

def connecting : Machine Connect Step where
  initial c := ∃ (ctx : FdCtx) (timeout_ms : UInt64) (errno : Int32),
    ctx.m_isSocket = true ∧ ctx.m_isClosed = false ∧
      c = .called true (some ctx) timeout_ms errno
  step := Connect.act

/-! What a step is. -/

inductive Goes (c : Connect) : Step → Connect → Prop where
  | passThrough (direct : c.pc = .direct) (n errno : Int32) :
      Goes c (.connect_f n errno)
        { c with errno := errno, answer := some ⟨n, errno⟩, pc := .returned n }
  | answered (connecting : c.pc = .connecting) {n errno : Int32}
      (through : n ≠ -1 ∨ errno = EINPROGRESS) :
      Goes c (.connect_f n errno)
        { c with errno := errno, answer := some ⟨n, errno⟩, pc := .returned n }
  | await (connecting : c.pc = .connecting) {errno : Int32} (other : errno ≠ EINPROGRESS) :
      Goes c (.connect_f (-1) errno)
        { c with errno := errno, answer := some ⟨-1, errno⟩, pc := .arming }
  | arm (arming : c.pc = .arming) (timer : Option Bool) :
      Goes c .addConditionTimer { c with timer := timer, pc := .adding }
  | hold (adding : c.pc = .adding) :
      Goes c (.addEvent 0) { c with registered := some 0, yielded := true, pc := .waiting }
  | refuse (adding : c.pc = .adding) {ret : Int32} (failed : ret ≠ 0) :
      Goes c (.addEvent ret) { c with registered := some ret, pc := .failing }
  | resume (waiting : c.pc = .waiting) : Goes c .resume { c with pc := .resumed }
  | stop (resumed : c.pc = .resumed) (timer : Option Bool) :
      Goes c .cancelTimer { c with timer := timer, pc := .checking }
  | abandon (failing : c.pc = .failing) (timer : Option Bool) :
      Goes c .cancelTimer { c with timer := timer, pc := .asking }
  | timedOut (checking : c.pc = .checking) : Goes c .check (c.fail c.cancelled)
  | ask (checking : c.pc = .checking) : Goes c .check { c with pc := .asking }
  | conclude (asking : c.pc = .asking) (answer : SocketError) :
      Goes c (.getsockopt answer) ({ c with asked := some answer }.conclude answer)
  | beside (step : Step) (timer : Option Bool) (cancelled : Int32) (cancelling triggered : Bool) :
      Goes c step { c with timer := timer, cancelled := cancelled, cancelling := cancelling,
                           triggered := triggered }

theorem act_goes {c after : Connect} {step : Step} (moved : c.act step = some after) :
    Goes c step after := by
  cases step with
  | connect_f n errno =>
      simp only [Connect.act] at moved
      split at moved
      · rename_i direct
        cases moved
        exact .passThrough direct n errno
      · rename_i connecting
        split at moved
        · rename_i zero
          cases moved
          subst zero
          exact .answered connecting (Or.inl (by decide))
        · split at moved
          · rename_i through
            cases moved
            exact .answered connecting through
          · rename_i other
            cases moved
            rw [not_or, not_not] at other
            obtain ⟨rfl, different⟩ := other
            exact .await connecting different
      · cases moved
  | addConditionTimer =>
      simp only [Connect.act] at moved
      split at moved
      · rename_i arming
        split at moved
        · cases moved
          exact .arm arming _
        · cases moved
          exact .arm arming c.timer
      · cases moved
  | addEvent ret =>
      simp only [Connect.act] at moved
      split at moved
      · rename_i adding
        split at moved
        · rename_i zero
          cases moved
          subst zero
          exact .hold adding
        · rename_i failed
          cases moved
          exact .refuse adding failed
      · cases moved
  | resume =>
      simp only [Connect.act] at moved
      split at moved
      · rename_i waiting
        split at moved
        · cases moved
          exact .resume waiting
        · cases moved
      · cases moved
  | cancelTimer =>
      simp only [Connect.act] at moved
      split at moved
      · rename_i resumed
        cases moved
        exact .stop resumed _
      · rename_i failing
        cases moved
        exact .abandon failing _
      · cases moved
  | check =>
      simp only [Connect.act] at moved
      split at moved
      · rename_i checking
        split at moved
        · cases moved
          exact .timedOut checking
        · cases moved
          exact .ask checking
      · cases moved
  | getsockopt answer =>
      simp only [Connect.act] at moved
      split at moved
      · rename_i asking
        cases moved
        exact .conclude asking answer
      · cases moved
  | expire =>
      simp only [Connect.act] at moved
      split at moved
      · split at moved
        · cases moved
          exact .beside .expire _ c.cancelled c.cancelling c.triggered
        · cases moved
          exact .beside .expire _ _ _ c.triggered
      · cases moved
  | cancelEvent =>
      simp only [Connect.act] at moved
      split at moved
      · split at moved
        · cases moved
          exact .beside .cancelEvent c.timer c.cancelled _ _
        · cases moved
          exact .beside .cancelEvent c.timer c.cancelled _ c.triggered
      · cases moved
  | trigger =>
      simp only [Connect.act] at moved
      split at moved
      · cases moved
        exact .beside .trigger c.timer c.cancelled c.cancelling _
      · cases moved

/-! What is asked of the call. -/

def Connect.Awaited (c : Connect) (n : Int32) : Prop :=
  if c.cancelled ≠ 0 then n = -1 ∧ c.errno = ETIMEDOUT
  else ∃ answer, c.asked = some answer ∧
    if answer.error = 0 then n = 0 else n = -1 ∧ c.errno = answer.error

/-- A user-blocking socket never shows EINPROGRESS, and is waited for where the
kernel does; what the kernel says of a user-non-blocking one is passed on. -/
def Connect.Emulates (c : Connect) : Prop :=
  if c.userNonblock then
    c.yielded = false ∧ ∀ n, c.pc = .returned n → c.answer = some ⟨n, c.errno⟩
  else ∀ n, c.pc = .returned n → ¬ (n = -1 ∧ c.errno = EINPROGRESS) ∧
    (c.answer = some ⟨-1, EINPROGRESS⟩ → c.registered = some 0 ∧ c.yielded = true ∧ c.Awaited n)

def SocketError.Tells (answer : SocketError) (errno : Int32) : Prop :=
  if answer.ret = -1 then answer.errno = errno else answer.error ≠ 0 ∧ answer.error = errno

/-- `connect_f` has not answered what the guards are wrong about: EINPROGRESS on
a user-blocking socket, another failure on a user-non-blocking one. Such a
failure is still passed on where `addEvent` fails too and the socket has the
same error. -/
def Connect.Spared (c : Connect) : Prop :=
  if c.userNonblock then
    ∀ e, c.answer = some ⟨-1, e⟩ → e ≠ EINPROGRESS →
      c.registered ≠ some 0 ∧ ∀ answer, c.asked = some answer → answer.Tells e
  else c.answer ≠ some ⟨-1, EINPROGRESS⟩

/-! Where a call stands. -/

def Connect.Failed (c : Connect) : Prop := ∃ e, e ≠ EINPROGRESS ∧ c.answer = some ⟨-1, e⟩

def Connect.Untouched (c : Connect) : Prop :=
  c.registered = none ∧ c.asked = none ∧ c.yielded = false

def Connect.Refused (c : Connect) : Prop := c.registered ≠ some 0 ∧ c.yielded = false

def Connect.Held (c : Connect) : Prop := c.registered = some 0 ∧ c.yielded = true

def Connect.Ended (c : Connect) (n : Int32) : Prop :=
  c.Untouched ∧ c.answer = some ⟨n, c.errno⟩ ∧ ¬ (n = -1 ∧ c.errno ≠ EINPROGRESS) ∨
    c.Failed ∧ c.Held ∨
    c.Failed ∧ c.Refused ∧ ∃ answer, c.asked = some answer ∧
      ∀ e, n = -1 ∧ c.errno = e ↔ answer.Tells e

def Connect.Stands (c : Connect) : Prop :=
  match c.pc with
  | .direct => c.userNonblock = false ∧ c.answer = none
  | .connecting => c.userNonblock = true ∧ c.answer = none ∧ c.Untouched
  | .arming | .adding => c.userNonblock = true ∧ c.Failed ∧ c.Untouched
  | .failing => c.userNonblock = true ∧ c.Failed ∧ c.Refused ∧ c.asked = none
  | .waiting | .resumed | .checking => c.userNonblock = true ∧ c.Failed ∧ c.Held
  | .asking => c.userNonblock = true ∧ c.Failed ∧ (c.Held ∨ c.Refused ∧ c.asked = none)
  | .returned n => if c.userNonblock then c.Ended n else c.answer = some ⟨n, c.errno⟩

theorem called_stands {c : Connect} (called : connecting.initial c) : c.Stands := by
  rcases called with ⟨ctx, timeout_ms, errno, socket, opened, rfl⟩
  cases mode : ctx.m_userNonblock with
  | false => simp [Connect.Stands, Connect.called, entry, socket, opened, mode]
  | true =>
      simp [Connect.Stands, Connect.called, entry, socket, opened, mode, Connect.Untouched]

theorem conclude_ends {c : Connect} (answer : SocketError) :
    ∃ n, (c.conclude answer).pc = .returned n ∧
      (∀ e, n = -1 ∧ (c.conclude answer).errno = e ↔ answer.Tells e) ∧
      ∃ errno, c.conclude answer = { c with errno := errno, pc := .returned n } := by
  unfold Connect.conclude SocketError.Tells Connect.fail
  by_cases failed : answer.ret = -1
  · exact ⟨-1, by simp [failed], by simp [failed], answer.errno, by simp [failed]⟩
  · by_cases none : answer.error = 0
    · exact ⟨0, by simp [failed, none], by simp [failed, none], c.errno, by simp [failed, none]⟩
    · exact ⟨-1, by simp [failed, none], by simp [failed, none], answer.error,
        by simp [failed, none]⟩

theorem act_stands {before after : Connect} {step : Step} (stands : before.Stands)
    (moved : before.act step = some after) : after.Stands := by
  cases act_goes moved with
  | passThrough direct n errno =>
      simp only [Connect.Stands, direct] at stands
      simp [Connect.Stands, stands.1]
  | @answered connecting n errno through =>
      simp only [Connect.Stands, connecting] at stands
      obtain ⟨user, _, untouched⟩ := stands
      have passed : ¬ (n = -1 ∧ errno ≠ EINPROGRESS) := by
        rintro ⟨failed, other⟩
        exact through.elim (· failed) other
      simp only [Connect.Stands, user, ↓reduceIte]
      exact Or.inl ⟨untouched, rfl, passed⟩
  | await connecting other =>
      simp only [Connect.Stands, connecting] at stands
      exact ⟨stands.1, ⟨_, other, rfl⟩, stands.2.2⟩
  | arm arming timer =>
      simp only [Connect.Stands, arming] at stands
      exact stands
  | hold adding =>
      simp only [Connect.Stands, adding] at stands
      exact ⟨stands.1, stands.2.1, rfl, rfl⟩
  | refuse adding failed =>
      simp only [Connect.Stands, adding] at stands
      obtain ⟨user, answered, _, unasked, unyielded⟩ := stands
      exact ⟨user, answered, ⟨by simpa using failed, unyielded⟩, unasked⟩
  | resume waiting =>
      simp only [Connect.Stands, waiting] at stands
      exact stands
  | stop resumed timer =>
      simp only [Connect.Stands, resumed] at stands
      exact stands
  | abandon failing timer =>
      simp only [Connect.Stands, failing] at stands
      exact ⟨stands.1, stands.2.1, Or.inr stands.2.2⟩
  | timedOut checking =>
      simp only [Connect.Stands, checking] at stands
      obtain ⟨user, answered, held⟩ := stands
      simp only [Connect.Stands, Connect.fail, user, ↓reduceIte]
      exact Or.inr (Or.inl ⟨answered, held⟩)
  | ask checking =>
      simp only [Connect.Stands, checking] at stands
      exact ⟨stands.1, stands.2.1, Or.inl stands.2.2⟩
  | conclude asking answer =>
      simp only [Connect.Stands, asking] at stands
      obtain ⟨user, answered, way⟩ := stands
      rcases @conclude_ends { before with asked := some answer } answer with
        ⟨n, ends, tells, errno, result⟩
      rw [result] at tells ⊢
      simp only [Connect.Stands, user, ↓reduceIte]
      rcases way with held | ⟨refused, _⟩
      · exact Or.inr (Or.inl ⟨answered, held⟩)
      · exact Or.inr (Or.inr ⟨answered, refused, answer, rfl, tells⟩)
  | beside step timer cancelled cancelling triggered => exact stands

theorem reach_stands {c : Connect} (reached : Reach connecting anyStep c) : c.Stands :=
  reached.invariant _ (fun _ called => called_stands called)
    fun _ _ _ _ stands _ moved => act_stands stands moved

/-! A failure that is waited for, and one that is not. -/

/-- On a user-non-blocking socket a failure that is not EINPROGRESS is not
passed on, unless it comes back from the socket. -/
theorem ended_iff {c : Connect} {n : Int32} (user : c.userNonblock = true)
    (returned : c.pc = .returned n) (ended : c.Ended n) : c.Emulates ↔ c.Spared := by
  have same : c.Emulates ↔ c.yielded = false ∧ c.answer = some ⟨n, c.errno⟩ := by
    simp [Connect.Emulates, user, returned]
  rw [same]
  simp only [Connect.Spared, user, ↓reduceIte]
  rcases ended with ⟨⟨_, _, unyielded⟩, answer, passed⟩ | ⟨⟨e, other, answer⟩, held⟩ |
    ⟨⟨e, other, answer⟩, refused, told, asked, tells⟩
  · refine iff_of_true ⟨unyielded, answer⟩ fun e failed other => ?_
    rw [answer] at failed
    cases failed
    exact absurd ⟨rfl, other⟩ passed
  · refine iff_of_false (fun emulates => ?_) fun spared => (spared e answer other).1 held.1
    rw [held.2] at emulates
    exact Bool.noConfusion emulates.1
  · rw [answer, asked]
    simp only [Option.some.injEq, Result.mk.injEq, true_and]
    constructor
    · rintro ⟨_, ret, errno⟩ _ rfl _
      refine ⟨refused.1, ?_⟩
      rintro _ rfl
      exact (tells _).mp ⟨ret.symm, errno.symm⟩
    · intro spared
      have back := (tells e).mpr ((spared e rfl other).2 told rfl)
      exact ⟨refused.2, back.1.symm, back.2.symm⟩

/-- Up to its end such a call is wrong exactly when it is held. -/
theorem open_iff {c : Connect} (user : c.userNonblock = true)
    (open' : ∀ n, c.pc ≠ .returned n)
    (way : c.answer = none ∧ c.yielded = false ∨
      c.Failed ∧ (c.Held ∨ c.Refused ∧ c.asked = none)) : c.Emulates ↔ c.Spared := by
  have same : c.Emulates ↔ c.yielded = false := by
    simp only [Connect.Emulates, user, ↓reduceIte]
    exact ⟨And.left, fun unyielded => ⟨unyielded, fun n returned => absurd returned (open' n)⟩⟩
  rw [same]
  simp only [Connect.Spared, user, ↓reduceIte]
  rcases way with ⟨unanswered, unyielded⟩ | ⟨⟨e, other, answer⟩, held | ⟨refused, unasked⟩⟩
  · refine iff_of_true unyielded fun e answer => ?_
    rw [unanswered] at answer
    cases answer
  · refine iff_of_false (by simp [held.2]) fun spared => (spared e answer other).1 held.1
  · refine iff_of_true refused.2 fun _ _ _ => ⟨refused.1, ?_⟩
    rw [unasked]
    intro _ asked
    cases asked

theorem emulates_iff_spared {c : Connect} (reached : Reach connecting anyStep c) :
    c.Emulates ↔ c.Spared := by
  have stands := reach_stands reached
  cases pc : c.pc with
  | direct =>
      simp only [Connect.Stands, pc] at stands
      obtain ⟨blocking, unanswered⟩ := stands
      refine iff_of_true ?_ ?_
      · simp [Connect.Emulates, blocking, pc]
      · simp [Connect.Spared, blocking, unanswered]
  | connecting =>
      simp only [Connect.Stands, pc] at stands
      obtain ⟨user, unanswered, _, _, unyielded⟩ := stands
      exact open_iff user (by simp [pc]) (Or.inl ⟨unanswered, unyielded⟩)
  | arming | adding =>
      simp only [Connect.Stands, pc] at stands
      obtain ⟨user, failed, unregistered, unasked, unyielded⟩ := stands
      have refused : c.Refused := ⟨by simp [unregistered], unyielded⟩
      exact open_iff user (by simp [pc]) (Or.inr ⟨failed, Or.inr ⟨refused, unasked⟩⟩)
  | failing =>
      simp only [Connect.Stands, pc] at stands
      exact open_iff stands.1 (by simp [pc]) (Or.inr ⟨stands.2.1, Or.inr stands.2.2⟩)
  | waiting | resumed | checking =>
      simp only [Connect.Stands, pc] at stands
      exact open_iff stands.1 (by simp [pc]) (Or.inr ⟨stands.2.1, Or.inl stands.2.2⟩)
  | asking =>
      simp only [Connect.Stands, pc] at stands
      exact open_iff stands.1 (by simp [pc]) (Or.inr stands.2)
  | returned n =>
      simp only [Connect.Stands, pc] at stands
      cases mode : c.userNonblock with
      | true =>
          simp only [mode, ↓reduceIte] at stands
          exact ended_iff mode pc stands
      | false =>
          simp only [mode, Bool.false_eq_true, ↓reduceIte] at stands
          simp only [Connect.Emulates, Connect.Spared, mode, pc, stands, Bool.false_eq_true,
            ↓reduceIte, Pc.returned.injEq]
          constructor
          · intro emulates shown
            have both : n = -1 ∧ c.errno = EINPROGRESS := by simpa using shown
            exact (emulates n rfl).1 both
          · rintro other _ rfl
            refine ⟨?_, fun shown => absurd shown other⟩
            rintro ⟨rfl, shown⟩
            exact other (by rw [shown])

def blockingSocket : FdCtx :=
  { m_isInit := true, m_isSocket := true, m_sysNonblock := true, m_fd := 3 }

/-- A user-non-blocking socket whose connection is refused: with its event
registered the call waits until the timer expires; with `addEvent` refused it
returns the error of the socket. -/
theorem emulates_iff_spared_waiting :
    (∃ c, run connecting (.called true (some { blockingSocket with m_userNonblock := true }) 5000 0)
      [.connect_f (-1) 111, .addConditionTimer, .addEvent 0, .expire, .cancelEvent, .resume,
        .cancelTimer, .check] = some c ∧ (c.Emulates ↔ c.Spared)) ∧
    ∃ c, run connecting (.called true (some { blockingSocket with m_userNonblock := true }) 5000 0)
      [.connect_f (-1) 111, .addConditionTimer, .addEvent (-1), .cancelTimer,
        .getsockopt ⟨0, 111, 0⟩] = some c ∧ (c.Emulates ↔ c.Spared) := by
  constructor
  · exact run_meets_where anyStep (fun c => c.yielded && decide (c.errno = ETIMEDOUT))
      ⟨_, 5000, 0, rfl, rfl, rfl⟩ (by decide) (by decide)
      fun _ reached _ => emulates_iff_spared reached
  · exact run_meets_where anyStep
      (fun c => decide (c.pc = .returned (-1)) && decide (c.errno = 111))
      ⟨_, 5000, 0, rfl, rfl, rfl⟩ (by decide) (by decide)
      fun _ reached _ => emulates_iff_spared reached

/-- A user-blocking socket is told that its connection is in progress; a
user-non-blocking one is held for a second because its connection is refused,
and told that the time is up. -/
theorem connect_inverts :
    (∃ c, Reach connecting anyStep c ∧ c.userNonblock = false ∧ c.pc = .returned (-1) ∧
      c.errno = EINPROGRESS ∧ ¬ c.Emulates) ∧
    ∃ c, Reach connecting anyStep c ∧ c.userNonblock = true ∧ c.answer = some ⟨-1, 111⟩ ∧
      c.pc = .returned (-1) ∧ c.errno = ETIMEDOUT ∧ ¬ c.Emulates := by
  constructor
  · rcases reach_where connecting anyStep (.called true (some blockingSocket) (-1) 0)
      [.connect_f (-1) EINPROGRESS]
      (fun c => !c.userNonblock && decide (c.pc = .returned (-1)) && decide (c.errno = EINPROGRESS))
      ⟨blockingSocket, -1, 0, rfl, rfl, rfl⟩ (by decide) (by decide) with ⟨c, reached, facts⟩
    simp only [Bool.and_eq_true, decide_eq_true_eq, Bool.not_eq_true'] at facts
    obtain ⟨⟨blocking, returned⟩, shown⟩ := facts
    refine ⟨c, reached, blocking, returned, shown, fun emulates => ?_⟩
    simp only [Connect.Emulates, blocking, Bool.false_eq_true, ↓reduceIte] at emulates
    exact (emulates _ returned).1 ⟨rfl, shown⟩
  · rcases reach_where connecting anyStep
      (.called true (some { blockingSocket with m_userNonblock := true }) 1000 0)
      [.connect_f (-1) 111, .addConditionTimer, .addEvent 0, .expire, .cancelEvent, .resume,
        .cancelTimer, .check]
      (fun c => c.userNonblock && decide (c.answer = some ⟨-1, 111⟩) &&
        decide (c.pc = .returned (-1)) && decide (c.errno = ETIMEDOUT) && c.yielded)
      ⟨_, 1000, 0, rfl, rfl, rfl⟩ (by decide) (by decide) with ⟨c, reached, facts⟩
    simp only [Bool.and_eq_true, decide_eq_true_eq] at facts
    obtain ⟨⟨⟨⟨user, answer⟩, returned⟩, late⟩, yielded⟩ := facts
    refine ⟨c, reached, user, answer, returned, late, fun emulates => ?_⟩
    simp [Connect.Emulates, user, yielded] at emulates

end Ztyco.Connecting
