import Ztyco.SleepSteps

/-!
What becomes of a sleeping fiber while no thread takes a fiber that another one has not done with:
its wake-up is in one place, its call returns once, and in time. The account of one step is kept
apart from the threads, which matter for the callbacks they have in hand.
-/

namespace Ztyco.Sleepers

open Fibers (Fiber FiberId Func)
open Sleeps (Request)
open Tally (tally)
open Timers
open Transition

structure Sleep.OnTime (sleep : Sleep) : Prop where
  -- or the clock was set back
  early : ∀ now previous, sleep.fired = some (now, previous) →
    sleep.start.toNat + sleep.delay.toNat ≤ now.toNat ∨ now < previous
  late : ∀ now ∈ sleep.missed, now.toNat < sleep.start.toNat + sleep.delay.toNat

/-- The places where the wake-up of a fiber can be. -/
def System.places (threads : List ThreadId) (s : System) (f : FiberId) : Nat :=
  (match (s.status f).timer with
    | some timer => if timer ∈ s.mgr.m_timers then 1 else 0
    | none => 0) +
  s.tasks.count (.func f) + s.calling threads f + s.tasks.count (.fiber f)

/-- A fiber that sleeps is woken from one place, and one that runs from none; a call returns once,
after its timer has been taken, and the timer is taken by the first look at the clock that finds
the time come. -/
structure Wakes (threads : List ThreadId) (fibers : Nat) (s : System) : Prop where
  placed : ∀ f < fibers, s.places threads f = if s.status f = .running then 0 else 1
  once : ∀ timer sleep, s.sleeps timer = some sleep →
    sleep.resumed = if (s.status sleep.fiber).timer = some timer then 0 else 1
  fired : ∀ timer sleep, s.sleeps timer = some sleep → 0 < sleep.resumed → sleep.fired.isSome
  onTime : ∀ timer sleep, s.sleeps timer = some sleep →
    sleep.start.toNat + sleep.delay.toNat < UInt64.size → sleep.OnTime

/-! What an operation does to the other timers. -/

section Operations
variable {mgr after : TimerManager} {op : Op} {timer : Addr}

theorem emitAll_created (mgr : TimerManager) (now_ms : UInt64) (flight : List Addr) :
    (mgr.emitAll now_ms flight).2.created = mgr.created := by
  induction flight generalizing mgr with
  | nil => rfl
  | cons shot rest ih =>
      refine (ih (mgr.emit now_ms shot)).trans ?_
      simp only [TimerManager.emit]
      split <;> rfl

theorem perform_created (done : mgr.perform op = some after) (known : timer ∈ mgr.created) :
    timer ∈ after.created := by
  cases op with
  | addTimer =>
      cases done
      rw [TimerManager.addTimer, addTimerLocked_created]
      exact List.mem_append_left _ known
  | cancel =>
      rcases Option.map_eq_some_iff.mp done with ⟨⟨answer, _⟩, cancelled, rfl⟩
      rcases cancel_cases cancelled with ⟨_, rfl, _⟩ | ⟨it, _, rfl⟩
      · exact known
      · exact known
  | refresh target now =>
      cases done
      rcases refresh_cases mgr target now with same | ⟨it, _, _, result⟩
      · rwa [same]
      · rw [result]
        exact known
  | reset target ms from_now now =>
      cases done
      rcases reset_cases mgr target ms from_now now with same | ⟨it, _, _, result⟩
      · rwa [same]
      · rw [result, addTimerLocked_created]
        exact known
  | getNextTimer now =>
      cases done
      rwa [getNextTimer_set]
  | listExpiredCb temp now =>
      cases done
      rcases listExpiredCb_emits mgr temp now with ⟨start, _, created, _, result⟩
      rwa [result, emitAll_created, created]

def target : Op → Option Addr
  | .addTimer timer _ _ _ _ | .cancel timer | .refresh timer _ | .reset timer _ _ _ => some timer
  | .getNextTimer _ | .listExpiredCb _ _ => none

theorem perform_heap (done : mgr.perform op = some after)
    (looks : ∀ temp now, op ≠ .listExpiredCb temp now) (apart : target op ≠ some timer) :
    after.heap timer = mgr.heap timer := by
  cases op with
  | addTimer other ms cb recurring now =>
      have differs : timer ≠ other := fun same => apart (congrArg some same.symm)
      cases done
      simp [TimerManager.addTimer, addTimerLocked_heap, TimerManager.record, TimerManager.write,
        differs]
  | cancel other =>
      have differs : timer ≠ other := fun same => apart (congrArg some same.symm)
      rcases Option.map_eq_some_iff.mp done with ⟨⟨answer, _⟩, cancelled, rfl⟩
      rcases cancel_cases cancelled with ⟨_, rfl, _⟩ | ⟨it, _, rfl⟩
      · rfl
      · exact Function.update_of_ne differs ..
  | refresh other now =>
      have differs : timer ≠ other := fun same => apart (congrArg some same.symm)
      cases done
      rcases refresh_cases mgr other now with same | ⟨it, _, _, result⟩
      · rw [same]
      · rw [result]
        exact Function.update_of_ne differs ..
  | reset other ms from_now now =>
      have differs : timer ≠ other := fun same => apart (congrArg some same.symm)
      cases done
      rcases reset_cases mgr other ms from_now now with same | ⟨it, _, _, result⟩
      · rw [same]
      · rw [result, addTimerLocked_heap]
        exact Function.update_of_ne differs ..
  | getNextTimer now =>
      cases done
      rw [getNextTimer_set]
  | listExpiredCb temp now => exact absurd rfl (looks temp now)

/-- Only `addTimer` gives a timer a callback. -/
theorem perform_callback (done : mgr.perform op = some after)
    (looks : ∀ temp now, op ≠ .listExpiredCb temp now) {cb : Func}
    (callback : (after.heap timer).m_cb = some cb) :
    (mgr.heap timer).m_cb = some cb ∨
      ∃ ms recurring now, op = .addTimer timer ms cb recurring now := by
  by_cases about : target op = some timer
  · cases op with
    | addTimer other ms given recurring now =>
        cases about
        cases done
        rw [addTimer_heap] at callback
        cases callback
        exact Or.inr ⟨ms, recurring, now, rfl⟩
    | cancel other =>
        cases about
        rcases Option.map_eq_some_iff.mp done with ⟨⟨answer, _⟩, cancelled, rfl⟩
        rcases cancel_cases cancelled with ⟨_, rfl, _⟩ | ⟨it, _, rfl⟩
        · exact Or.inl callback
        · simp [TimerManager.record, TimerManager.erase, TimerManager.write] at callback
    | refresh other now =>
        cases about
        cases done
        rcases refresh_cases mgr timer now with same | ⟨it, _, _, result⟩
        · rw [same] at callback
          exact Or.inl callback
        · rw [result] at callback
          simp [TimerManager.insert, TimerManager.write] at callback
          exact Or.inl callback
    | reset other ms from_now now =>
        cases about
        cases done
        rcases reset_cases mgr timer ms from_now now with same | ⟨it, _, _, result⟩
        · rw [same] at callback
          exact Or.inl callback
        · rw [result, addTimerLocked_heap] at callback
          simp [TimerManager.write] at callback
          exact Or.inl callback
    | getNextTimer | listExpiredCb => cases about
  · rw [perform_heap done looks about] at callback
    exact Or.inl callback

/-- A look at the clock takes the callbacks of the one-shot timers that are due. -/
theorem listExpiredCb_heap (held : Held mgr []) {temp : Addr} (fresh : temp ∉ mgr.created)
    (now : UInt64) (timer : Addr) :
    (mgr.listExpiredCb temp now).2.heap timer =
      if timer ∈ mgr.due now then (mgr.heap timer).spent now else mgr.heap timer := by
  have outside : temp ∉ mgr.m_timers := fun mem => fresh (held.known temp (.inl mem))
  have nodup := (due_sublist mgr now).nodup (held.sorted.nodup (timerLess_order mgr.heap))
  rcases listExpiredCb_takes now held.sorted outside with ⟨start, heap, _, result⟩
  rw [result, emitAll_heap start now nodup, heap]

theorem listExpiredCb_cbs (held : Held mgr []) {temp : Addr} (fresh : temp ∉ mgr.created)
    (now : UInt64) :
    (mgr.listExpiredCb temp now).1 = (mgr.due now).map fun timer => (mgr.heap timer).m_cb := by
  have outside : temp ∉ mgr.m_timers := fun mem => fresh (held.known temp (.inl mem))
  have nodup := (due_sublist mgr now).nodup (held.sorted.nodup (timerLess_order mgr.heap))
  rcases listExpiredCb_takes now held.sorted outside with ⟨start, heap, _, result⟩
  rw [result, emitAll_pushed start now nodup, heap]

end Operations

/-! Which timer belongs to which call. -/

structure Tracked (fibers : Nat) (s : System) : Prop where
  reached : Reach timers anyStep s.mgr
  known : ∀ timer sleep, s.sleeps timer = some sleep → timer ∈ s.mgr.created
  small : ∀ timer sleep, s.sleeps timer = some sleep → sleep.fiber < fibers
  apart : ∀ timer, s.sleeps timer = none → ∀ cb, (s.mgr.heap timer).m_cb = some cb → fibers ≤ cb
  waits : ∀ timer sleep, s.sleeps timer = some sleep → sleep.fired = none →
    s.mgr.heap timer =
        { m_ms := sleep.delay, m_next := sleep.start + sleep.delay, m_cb := some sleep.fiber } ∧
      (s.status sleep.fiber).timer = some timer
  spent : ∀ timer sleep, s.sleeps timer = some sleep → sleep.fired.isSome →
    (s.mgr.heap timer).m_cb = none
  asleep : ∀ f timer, (s.status f).timer = some timer →
    ∃ sleep, s.sleeps timer = some sleep ∧ sleep.fiber = f

section Owners
variable {fibers : Nat} {s : System} {f : FiberId} {timer : Addr}

theorem Tracked.held (tracked : Tracked fibers s) : Held s.mgr [] := reach_held tracked.reached

theorem Tracked.pending (tracked : Tracked fibers s) {sleep : Sleep}
    (found : s.sleeps timer = some sleep) : timer ∈ s.mgr.m_timers ↔ sleep.fired = none := by
  have armed := tracked.held.armed timer (tracked.known timer sleep found)
  simp only [List.not_mem_nil, or_false] at armed
  rw [armed]
  cases fired : sleep.fired with
  | none => simp [(tracked.waits timer sleep found fired).1]
  | some firing => simp [tracked.spent timer sleep found (by rw [fired]; rfl)]

/-- The callback of a fiber belongs to the timer it sleeps on. -/
theorem Tracked.owner (tracked : Tracked fibers s) (small : f < fibers)
    (callback : (s.mgr.heap timer).m_cb = some f) : (s.status f).timer = some timer := by
  cases found : s.sleeps timer with
  | none => exact absurd small (Nat.not_lt.mpr (tracked.apart timer found f callback))
  | some sleep =>
      cases fired : sleep.fired with
      | some firing =>
          rw [tracked.spent timer sleep found (by rw [fired]; rfl)] at callback
          cases callback
      | none =>
          rcases tracked.waits timer sleep found fired with ⟨contents, waits⟩
          rw [contents] at callback
          cases callback
          exact waits

theorem Tracked.callback (tracked : Tracked fibers s) (sleeps : (s.status f).timer = some timer)
    (pending : timer ∈ s.mgr.m_timers) : (s.mgr.heap timer).m_cb = some f := by
  rcases tracked.asleep f timer sleeps with ⟨sleep, found, rfl⟩
  rw [(tracked.waits timer sleep found ((tracked.pending found).mp pending)).1]

end Owners

/-! Where the wake-up of a fiber is. -/

def System.waiting (s : System) (f : FiberId) : Nat :=
  match (s.status f).timer with
  | some timer => if timer ∈ s.mgr.m_timers then 1 else 0
  | none => 0

def Placed (threads : List ThreadId) (fibers : Nat) (s : System) : Prop :=
  ∀ f < fibers, s.places threads f = if s.status f = .running then 0 else 1

section Places
variable {threads : List ThreadId} {fibers : Nat} {s after : System} {f : FiberId}

theorem places_eq (threads : List ThreadId) (s : System) (f : FiberId) : s.places threads f =
    s.waiting f + s.tasks.count (.func f) + s.calling threads f + s.tasks.count (.fiber f) := rfl

theorem count_funcs (cbs : List (Option Func)) (f : FiberId) :
    ((cbs.filterMap id).map Task.func).count (.func f) = cbs.count (some f) := by
  induction cbs with
  | nil => rfl
  | cons cb rest ih =>
      cases cb with
      | none => simpa using ih
      | some cb =>
          by_cases same : cb = f
          · subst same
            simpa using ih
          · simpa [same] using ih

theorem count_fibers (cbs : List (Option Func)) (f : FiberId) :
    ((cbs.filterMap id).map Task.func).count (.fiber f) = 0 := by
  apply List.count_eq_zero_of_not_mem
  intro mem
  rcases List.mem_map.mp mem with ⟨cb, _, equal⟩
  cases equal

/-- A look at the clock takes the callback of a fiber from the timers to the tasks. -/
theorem count_due (tracked : Tracked fibers s) (small : f < fibers) (now : UInt64) :
    ((s.mgr.due now).map fun timer => (s.mgr.heap timer).m_cb).count (some f) =
      match (s.status f).timer with
      | some timer => if timer ∈ s.mgr.due now then 1 else 0
      | none => 0 := by
  have nodup := (due_sublist s.mgr now).nodup (tracked.held.sorted.nodup (timerLess_order _))
  have only : ∀ timer ∈ s.mgr.due now, (s.mgr.heap timer).m_cb = some f ↔
      (s.status f).timer = some timer := fun timer mem =>
    ⟨tracked.owner small, fun sleeps => tracked.callback sleeps ((due_sublist s.mgr now).mem mem)⟩
  rw [List.count, List.countP_map]
  cases sleeps : (s.status f).timer with
  | none =>
      apply List.countP_eq_zero.mpr
      intro timer mem callback
      rw [(only timer mem).mp (by simpa using callback)] at sleeps
      cases sleeps
  | some timer =>
      have same : (s.mgr.due now).countP ((fun cb => cb == some f) ∘ fun timer =>
          (s.mgr.heap timer).m_cb) = (s.mgr.due now).count timer := by
        apply List.countP_congr
        intro other mem
        have about := only other mem
        rw [sleeps, Option.some.injEq] at about
        rw [Function.comp_apply, beq_iff_eq, beq_iff_eq, about, eq_comm]
      rw [same]
      change _ = if timer ∈ s.mgr.due now then 1 else 0
      split
      · rename_i mem
        exact List.count_eq_one_of_mem nodup mem
      · rename_i absent
        exact List.count_eq_zero_of_not_mem absent

/-- What a thread does with a fiber changes nothing for the others. -/
theorem placed_update (placed : Placed threads fibers s) (here : after.places threads f =
      if after.status f = .running then 0 else 1)
    (others : ∀ g ≠ f, after.places threads g = s.places threads g ∧
      after.status g = s.status g) : Placed threads fibers after := by
  intro g small
  by_cases same : g = f
  · exact same ▸ here
  · rw [(others g same).1, (others g same).2]
    exact placed g small

end Places

/-! One step. -/

section Steps
variable {threads : List ThreadId} {fibers : Nat} {s after : System}

/-- A foreign operation is about no timer of a sleep. -/
theorem foreign_apart {op : Op} (tracked : Tracked fibers s) (others : s.foreign fibers op = true)
    (admitted : s.mgr.admits op = true) {timer : Addr} {sleep : Sleep}
    (found : s.sleeps timer = some sleep) : target op ≠ some timer := by
  intro about
  cases op with
  | addTimer =>
      cases about
      exact of_decide_eq_true admitted (tracked.known timer sleep found)
  | cancel | refresh | reset =>
      cases about
      simp [System.foreign, found] at others
  | getNextTimer | listExpiredCb => cases about

theorem foreign_looks {op : Op} (others : s.foreign fibers op = true) (temp : Addr) (now : UInt64) :
    op ≠ .listExpiredCb temp now := by
  rintro rfl
  cases others

theorem tracked_sleep (tracked : Tracked fibers s) {f : FiberId} {timer : Addr} (request : Request)
    (now : UInt64) (small : f < fibers) (runs : s.status f = .running)
    (fresh : timer ∉ s.mgr.created) (worker : ThreadId → Pc) : Tracked fibers { s with
      mgr := (s.mgr.addTimer timer (delayOf request) (some f) false now).2
      worker := worker
      status := Function.update s.status f (.asleep timer)
      sleeps := Function.update s.sleeps timer
        (some { fiber := f, start := now, delay := delayOf request }) } := by
  have done : s.mgr.perform (.addTimer timer (delayOf request) f false now) =
      some (s.mgr.addTimer timer (delayOf request) (some f) false now).2 := rfl
  have looks : ∀ temp at', Op.addTimer timer (delayOf request) f false now ≠
      .listExpiredCb temp at' := by
    intro temp at' same
    cases same
  have other : ∀ t ≠ timer, (s.mgr.addTimer timer (delayOf request) (some f) false now).2.heap t =
      s.mgr.heap t := fun t differs =>
    perform_heap done looks fun same => differs (Option.some.inj same).symm
  -- a fiber that runs has no call that is still to fire
  have settled : ∀ t sleep, s.sleeps t = some sleep → sleep.fired = none → sleep.fiber ≠ f := by
    rintro t sleep found unfired rfl
    have waits := (tracked.waits t sleep found unfired).2
    rw [runs] at waits
    cases waits
  refine ⟨?_, ?_, ?_, ?_, ?_, ?_, ?_⟩
  · refine tracked.reached.extend
      (.single (.addTimer timer (delayOf request) f false now) trivial ?_)
    simpa [timers, TimerManager.admits, fresh] using done
  · intro t sleep found
    rcases part_cases found with ⟨rfl, _⟩ | ⟨_, found⟩
    · exact (held_addTimer tracked.held fresh ..).known t (.inl (mem_addTimer ..))
    · exact perform_created done (tracked.known t sleep found)
  · intro t sleep found
    rcases part_cases found with ⟨_, made⟩ | ⟨_, found⟩
    · cases made
      exact small
    · exact tracked.small t sleep found
  · intro t unslept cb callback
    rcases part_cases unslept with ⟨_, impossible⟩ | ⟨differs, unslept⟩
    · cases impossible
    · exact tracked.apart t unslept cb ((congrArg Timer.m_cb (other t differs)).symm.trans callback)
  · intro t sleep found unfired
    rcases part_cases found with ⟨rfl, made⟩ | ⟨differs, found⟩
    · cases made
      exact ⟨addTimer_heap .., by simp [Status.timer]⟩
    · rcases tracked.waits t sleep found unfired with ⟨contents, waits⟩
      refine ⟨(other t differs).trans contents, ?_⟩
      simpa [settled t sleep found unfired] using waits
  · intro t sleep found fired
    rcases part_cases found with ⟨rfl, made⟩ | ⟨differs, found⟩
    · cases made
      cases fired
    · exact (congrArg Timer.m_cb (other t differs)).trans (tracked.spent t sleep found fired)
  · intro g t waits
    by_cases mine : g = f
    · subst mine
      simp only [Function.update_self, Status.timer, Option.some.injEq] at waits
      subst waits
      exact ⟨_, Function.update_self .., rfl⟩
    · have before : (s.status g).timer = some t := by simpa [mine] using waits
      rcases tracked.asleep g t before with ⟨sleep, found, owner⟩
      have differs : t ≠ timer := by
        rintro rfl
        exact fresh (tracked.known t sleep found)
      exact ⟨sleep, (Function.update_of_ne differs ..).trans found, owner⟩

theorem tracked_foreign (tracked : Tracked fibers s) {op : Op} {mgr : TimerManager}
    (others : s.foreign fibers op = true) (taken : timers.step s.mgr op = some mgr) :
    Tracked fibers { s with mgr } := by
  rcases timers_step taken with ⟨admitted, done⟩
  have same : ∀ t sleep, s.sleeps t = some sleep → mgr.heap t = s.mgr.heap t :=
    fun t sleep found =>
      perform_heap done (foreign_looks others) (foreign_apart tracked others admitted found)
  refine ⟨tracked.reached.extend (.single op trivial taken), ?_, tracked.small, ?_, ?_, ?_,
    tracked.asleep⟩
  · intro t sleep found
    exact perform_created done (tracked.known t sleep found)
  · intro t unslept cb callback
    rcases perform_callback done (foreign_looks others) callback with before | ⟨ms, rec, now, rfl⟩
    · exact tracked.apart t unslept cb before
    · exact of_decide_eq_true others
  · intro t sleep found unfired
    rcases tracked.waits t sleep found unfired with ⟨contents, waits⟩
    exact ⟨(same t sleep found).trans contents, waits⟩
  · intro t sleep found fired
    exact (congrArg Timer.m_cb (same t sleep found)).trans (tracked.spent t sleep found fired)

theorem look_cases (sleep : Sleep) (mgr : TimerManager) (timer : Addr) (now : UInt64) :
    (timer ∈ mgr.due now ∧
      sleep.look mgr timer now = { sleep with fired := some (now, mgr.m_previousTime) }) ∨
    (timer ∉ mgr.due now ∧ timer ∈ mgr.m_timers ∧
      sleep.look mgr timer now = { sleep with missed := sleep.missed ++ [now] }) ∨
    (timer ∉ mgr.m_timers ∧ sleep.look mgr timer now = sleep) := by
  by_cases due : timer ∈ mgr.due now
  · exact .inl ⟨due, by simp [Sleep.look, due]⟩
  · by_cases pending : timer ∈ mgr.m_timers
    · exact .inr (.inl ⟨due, pending, by simp [Sleep.look, due, pending]⟩)
    · exact .inr (.inr ⟨pending, by simp [Sleep.look, due, pending]⟩)

theorem look_keeps (sleep : Sleep) (mgr : TimerManager) (timer : Addr) (now : UInt64) :
    (sleep.look mgr timer now).fiber = sleep.fiber ∧
      (sleep.look mgr timer now).start = sleep.start ∧
      (sleep.look mgr timer now).delay = sleep.delay ∧
      (sleep.look mgr timer now).resumed = sleep.resumed := by
  rcases look_cases sleep mgr timer now with ⟨_, look⟩ | ⟨_, _, look⟩ | ⟨_, look⟩
  all_goals
    rw [look]
    exact ⟨rfl, rfl, rfl, rfl⟩

theorem tracked_expire (tracked : Tracked fibers s) {temp : Addr} (now : UInt64)
    (fresh : temp ∉ s.mgr.created) (tasks : List Task) :
    Tracked fibers { s with
      mgr := (s.mgr.listExpiredCb temp now).2
      tasks := tasks
      sleeps := fun timer => (s.sleeps timer).map fun sleep => sleep.look s.mgr timer now } := by
  have done : s.mgr.perform (.listExpiredCb temp now) = some (s.mgr.listExpiredCb temp now).2 := rfl
  have heap := listExpiredCb_heap tracked.held fresh now
  have later : ∀ t sleep, (s.sleeps t).map (fun sleep => sleep.look s.mgr t now) = some sleep →
      ∃ before, s.sleeps t = some before ∧ sleep = before.look s.mgr t now := by
    intro t sleep found
    rcases Option.map_eq_some_iff.mp found with ⟨before, was, rfl⟩
    exact ⟨before, was, rfl⟩
  have due_pending : ∀ t ∈ s.mgr.due now, t ∈ s.mgr.m_timers :=
    fun t mem => (due_sublist s.mgr now).mem mem
  refine ⟨?_, ?_, ?_, ?_, ?_, ?_, ?_⟩
  · refine tracked.reached.extend (.single (.listExpiredCb temp now) trivial ?_)
    simpa [timers, TimerManager.admits, fresh] using done
  · intro t sleep found
    rcases later t sleep found with ⟨before, was, _⟩
    exact perform_created done (tracked.known t before was)
  · intro t sleep found
    rcases later t sleep found with ⟨before, was, rfl⟩
    rw [(look_keeps before s.mgr t now).1]
    exact tracked.small t before was
  · intro t unslept cb callback
    have was : s.sleeps t = none := Option.map_eq_none_iff.mp unslept
    rw [heap] at callback
    split at callback
    · apply tracked.apart t was cb
      unfold Timer.spent at callback
      split at callback
      · exact callback
      · cases callback
    · exact tracked.apart t was cb callback
  · intro t sleep found unfired
    rcases later t sleep found with ⟨before, was, rfl⟩
    rcases look_cases before s.mgr t now with ⟨due, look⟩ | ⟨due, pending, look⟩ | ⟨absent, look⟩
    · rw [look] at unfired
      cases unfired
    · rw [look] at unfired ⊢
      rcases tracked.waits t before was unfired with ⟨contents, waits⟩
      exact ⟨(heap t).trans (by rw [if_neg due, contents]), waits⟩
    · rw [look] at unfired
      exact absurd ((tracked.pending was).mpr unfired) absent
  · intro t sleep found fired
    rcases later t sleep found with ⟨before, was, rfl⟩
    refine (congrArg Timer.m_cb (heap t)).trans ?_
    rcases look_cases before s.mgr t now with ⟨due, look⟩ | ⟨due, pending, look⟩ | ⟨absent, look⟩
    · have unfired := (tracked.pending was).mp (due_pending t due)
      rw [if_pos due, (tracked.waits t before was unfired).1]
      rfl
    · rw [look, Option.isSome_iff_ne_none] at fired
      exact absurd ((tracked.pending was).mp pending) fired
    · rw [look] at fired
      rw [if_neg fun due => absent (due_pending t due)]
      exact tracked.spent t before was fired
  · intro f t waits
    rcases tracked.asleep f t waits with ⟨sleep, found, owner⟩
    exact ⟨sleep.look s.mgr t now, congrArg (Option.map _) found,
      (look_keeps sleep s.mgr t now).1.trans owner⟩

theorem comeBack_eq (s : System) (call : Option Addr) (t : Addr) : s.comeBack call t =
    (s.sleeps t).map fun sleep =>
      if call = some t then { sleep with resumed := sleep.resumed + 1 } else sleep := by
  cases call with
  | none => simp [System.comeBack]
  | some timer =>
      by_cases same : timer = t
      · subst same
        simp [System.comeBack]
      · simp [System.comeBack, same, Function.update_of_ne (Ne.symm same)]

theorem comeBack_cases {call : Option Addr} {t : Addr} {sleep : Sleep}
    (found : s.comeBack call t = some sleep) : ∃ was, s.sleeps t = some was ∧
      was.fiber = sleep.fiber ∧ was.fired = sleep.fired ∧ was.start = sleep.start ∧
      was.delay = sleep.delay ∧ was.missed = sleep.missed ∧
      sleep.resumed = was.resumed + if call = some t then 1 else 0 := by
  rw [comeBack_eq] at found
  rcases Option.map_eq_some_iff.mp found with ⟨was, known, rfl⟩
  refine ⟨was, known, ?_⟩
  split <;> exact ⟨rfl, rfl, rfl, rfl, rfl, rfl⟩

theorem comeBack_some {t : Addr} {was : Sleep} (call : Option Addr)
    (found : s.sleeps t = some was) : ∃ sleep, s.comeBack call t = some sleep ∧
      sleep.fiber = was.fiber ∧ sleep.fired = was.fired := by
  rw [comeBack_eq, found]
  refine ⟨_, rfl, ?_⟩
  dsimp only
  split <;> exact ⟨rfl, rfl⟩

theorem tracked_resume (tracked : Tracked fibers s) {f : FiberId}
    (taken : ∀ timer, (s.status f).timer = some timer → timer ∉ s.mgr.m_timers)
    (tasks : List Task) (worker : ThreadId → Pc) (fiber : FiberId → Fiber) :
    Tracked fibers { s with
      tasks := tasks
      worker := worker
      fiber := fiber
      status := Function.update s.status f .running
      sleeps := s.comeBack (s.status f).timer } := by
  refine ⟨tracked.reached, ?_, ?_, ?_, ?_, ?_, ?_⟩
  · intro t sleep found
    rcases comeBack_cases found with ⟨was, found, _⟩
    exact tracked.known t was found
  · intro t sleep found
    rcases comeBack_cases found with ⟨was, found, fiber, _⟩
    exact fiber ▸ tracked.small t was found
  · intro t unslept cb callback
    cases found : s.sleeps t with
    | none => exact tracked.apart t found cb callback
    | some was =>
        rcases comeBack_some (s.status f).timer found with ⟨sleep, made, _⟩
        cases made.symm.trans unslept
  · intro t sleep found unfired
    rcases comeBack_cases found with ⟨was, slept, fiber, fired, start, delay, _⟩
    rcases tracked.waits t was slept (fired.trans unfired) with ⟨contents, asleep⟩
    refine ⟨by rw [contents, start, delay, fiber], ?_⟩
    have other : sleep.fiber ≠ f := by
      rintro rfl
      rw [fiber] at asleep
      exact taken t asleep ((tracked.pending slept).mpr (fired.trans unfired))
    simpa [other, fiber] using asleep
  · intro t sleep found fired
    rcases comeBack_cases found with ⟨was, found, _, same, _⟩
    exact tracked.spent t was found (same ▸ fired)
  · intro g t asleep
    have sleeps : (s.status g).timer = some t := by
      by_cases mine : g = f
      · subst mine
        simp [Status.timer] at asleep
      · simpa [mine] using asleep
    rcases tracked.asleep g t sleeps with ⟨was, found, owner⟩
    rcases comeBack_some (s.status f).timer found with ⟨sleep, made, same, _⟩
    exact ⟨sleep, made, same.trans owner⟩

/-- A fiber that is queued has been taken out of the timers. -/
theorem taken_of_queued (tracked : Tracked fibers s) (placed : Placed threads fibers s)
    {f : FiberId} (queued : .fiber f ∈ s.tasks) (timer : Addr)
    (sleeps : (s.status f).timer = some timer) :
    timer ∉ s.mgr.m_timers := by
  rcases tracked.asleep f timer sleeps with ⟨sleep, found, rfl⟩
  have one := placed sleep.fiber (tracked.small timer sleep found)
  have counted := List.count_pos_iff.mpr queued
  have still : s.status sleep.fiber ≠ .running := by
    intro runs
    rw [runs] at sleeps
    cases sleeps
  rw [places_eq, System.waiting, sleeps, if_neg still] at one
  intro pending
  simp only [pending, ↓reduceIte] at one
  omega

theorem runs_of_running (handled : Handled threads fibers s) {w : ThreadId} {f : FiberId}
    (here : s.worker w = .running f) : s.status f = .running ∧ f < fibers := by
  have fits := handled.fits w
  rw [here] at fits
  exact ⟨fits, handled.small w f (by rw [here]; rfl)⟩

theorem tracked_moved (handled : Handled threads fibers s) (tracked : Tracked fibers s)
    (placed : Placed threads fibers s) (moved : Moved threads fibers s after) :
    Tracked fibers after := by
  cases moved with
  | sleep request now here fresh =>
      rcases runs_of_running handled here with ⟨runs, small⟩
      exact tracked_sleep tracked request now small runs fresh _
  | foreign others taken => exact tracked_foreign tracked others taken
  | expire now fresh => exact tracked_expire tracked now fresh _
  | takeFiber mem idle queued alone =>
      exact tracked_resume tracked (taken_of_queued tracked placed queued) _ _ _
  | switch | takeFunc | run =>
      exact ⟨tracked.reached, tracked.known, tracked.small, tracked.apart, tracked.waits,
        tracked.spent, tracked.asleep⟩

/-! What every step keeps. -/

theorem waiting_eq (tracked : Tracked fibers s) {f : FiberId} {timer : Addr} {sleep : Sleep}
    (asleep : (s.status f).timer = some timer) (found : s.sleeps timer = some sleep) :
    s.waiting f = if sleep.fired = none then 1 else 0 := by
  rw [System.waiting, asleep]
  simp only [tracked.pending found]

theorem waiting_same (tracked : Tracked fibers s) (tracked' : Tracked fibers after) {f : FiberId}
    (status : (after.status f).timer = (s.status f).timer)
    (fired : ∀ timer sleep, (s.status f).timer = some timer → s.sleeps timer = some sleep →
      ∃ sleep', after.sleeps timer = some sleep' ∧ sleep'.fired = sleep.fired) :
    after.waiting f = s.waiting f := by
  cases asleep : (s.status f).timer with
  | none => rw [System.waiting, System.waiting, status, asleep]
  | some timer =>
      rcases tracked.asleep f timer asleep with ⟨sleep, found, _⟩
      rcases fired timer sleep asleep found with ⟨sleep', found', same⟩
      rw [waiting_eq tracked asleep found, waiting_eq tracked' (status.trans asleep) found', same]

theorem mem_of_hand (handled : Handled threads fibers s) {w : ThreadId} {f : FiberId}
    (here : (s.worker w).fiber = some f) : w ∈ threads := by
  apply handled.inside
  intro idle
  rw [idle] at here
  cases here

/-- The step of a thread with no callback in hand, before or after. -/
theorem calling_same (handled : Handled threads fibers s) {w : ThreadId} {pc : Pc}
    (mem : w ∈ threads) (before : ∀ cb, s.worker w ≠ .calling cb) (later : ∀ cb, pc ≠ .calling cb)
    (worker : after.worker = Function.update s.worker w pc) (cb : Func) :
    after.calling threads cb = s.calling threads cb := by
  have changed := calling_update handled mem pc cb worker
  rwa [if_neg (before cb), if_neg (later cb)] at changed

theorem not_calling {w : ThreadId} {f : FiberId} (here : (s.worker w).fiber = some f) (cb : Func) :
    s.worker w ≠ .calling cb := by
  intro calls
  rw [calls] at here
  cases here

theorem placed_sleep (handled : Handled threads fibers s) (tracked : Tracked fibers s)
    (placed : Placed threads fibers s) {w : ThreadId} {f : FiberId} {timer : Addr}
    (request : Request) (now : UInt64) (here : s.worker w = .running f)
    (fresh : timer ∉ s.mgr.created) : Placed threads fibers { s with
      mgr := (s.mgr.addTimer timer (delayOf request) (some f) false now).2
      worker := Function.update s.worker w (.yielding f timer)
      status := Function.update s.status f (.asleep timer)
      sleeps := Function.update s.sleeps timer
        (some { fiber := f, start := now, delay := delayOf request }) } := by
  rcases runs_of_running handled here with ⟨runs, small⟩
  have tracked' := tracked_sleep tracked request now small runs fresh
    (Function.update s.worker w (.yielding f timer))
  have hand : (s.worker w).fiber = some f := by
    rw [here]
    rfl
  apply placed_update (f := f) placed
  · have nowhere := placed f small
    have asleep : (Function.update s.status f (.asleep timer) f).timer = some timer := by
      rw [Function.update_self]
      rfl
    have waits := waiting_eq tracked' asleep (Function.update_self ..)
    rw [places_eq] at nowhere ⊢
    rw [waits, calling_same handled (mem_of_hand handled hand) (not_calling hand)
      (fun _ => Pc.noConfusion) rfl]
    simp only [runs, Function.update_self, ↓reduceIte, reduceCtorEq] at nowhere ⊢
    omega
  · intro g other
    have status : Function.update s.status f (.asleep timer) g = s.status g :=
      Function.update_of_ne other ..
    refine ⟨?_, status⟩
    rw [places_eq, places_eq, waiting_same tracked tracked' (congrArg Status.timer status),
      calling_same handled (mem_of_hand handled hand) (not_calling hand)
        (fun _ => Pc.noConfusion) rfl]
    intro t sleep _ found
    have differs : t ≠ timer := by
      rintro rfl
      exact fresh (tracked.known t sleep found)
    exact ⟨sleep, (Function.update_of_ne differs ..).trans found, rfl⟩

theorem placed_expire (tracked : Tracked fibers s) (placed : Placed threads fibers s) {temp : Addr}
    (now : UInt64) (fresh : temp ∉ s.mgr.created) :
    Placed threads fibers { s with
      mgr := (s.mgr.listExpiredCb temp now).2
      tasks := s.tasks ++ ((s.mgr.listExpiredCb temp now).1.filterMap id).map .func
      sleeps := fun timer => (s.sleeps timer).map fun sleep => sleep.look s.mgr timer now } := by
  intro f small
  have tracked' := tracked_expire tracked now fresh
    (s.tasks ++ ((s.mgr.listExpiredCb temp now).1.filterMap id).map .func)
  have before := placed f small
  have due := count_due tracked small now
  have calling : ∀ tasks sleeps mgr, System.calling threads
      { s with mgr := mgr, tasks := tasks, sleeps := sleeps } f = s.calling threads f :=
    fun _ _ _ => rfl
  rw [← listExpiredCb_cbs tracked.held fresh] at due
  rw [places_eq] at before ⊢
  rw [List.count_append, List.count_append, count_funcs, count_fibers, due, calling]
  cases asleep : (s.status f).timer with
  | none =>
      simp only [System.waiting, asleep] at before ⊢
      omega
  | some timer =>
      rcases tracked.asleep f timer asleep with ⟨sleep, found, _⟩
      rw [waiting_eq tracked asleep found] at before
      rw [waiting_eq tracked' asleep (congrArg (Option.map _) found)]
      dsimp only at before ⊢
      rcases look_cases sleep s.mgr timer now with ⟨taken, look⟩ | ⟨left, pending, look⟩ |
        ⟨absent, look⟩
      · have unfired := (tracked.pending found).mp ((due_sublist s.mgr now).mem taken)
        simp only [look, unfired, taken, ↓reduceIte, reduceCtorEq] at before ⊢
        omega
      · simp only [look, left, ↓reduceIte] at before ⊢
        omega
      · have untaken : timer ∉ s.mgr.due now :=
          fun mem => absent ((due_sublist s.mgr now).mem mem)
        simp only [look, untaken, ↓reduceIte] at before ⊢
        omega

theorem placed_takeFunc (handled : Handled threads fibers s) (tracked : Tracked fibers s)
    (placed : Placed threads fibers s) {w : ThreadId} {cb : Func} (mem : w ∈ threads)
    (idle : s.worker w = .scan) (queued : .func cb ∈ s.tasks) :
    Placed threads fibers { s with
      tasks := s.tasks.erase (.func cb)
      worker := Function.update s.worker w (.calling cb) } := by
  intro g small
  have tracked' := tracked_moved handled tracked placed (.takeFunc mem idle queued)
  have before := placed g small
  have counted := List.count_pos_iff.mpr queued
  have changed := calling_update handled mem (.calling cb) g
    (show ({ s with
      tasks := s.tasks.erase (.func cb)
      worker := Function.update s.worker w (.calling cb) } : System).worker = _ from rfl)
  rw [places_eq] at before ⊢
  rw [waiting_same tracked tracked' rfl fun t sleep _ found => ⟨sleep, found, rfl⟩]
  by_cases same : cb = g
  · subst same
    simp only [List.count_erase, beq_self_eq_true, ↓reduceIte, reduceCtorEq, idle,
      beq_iff_eq] at before changed ⊢
    omega
  · have other : ¬ Pc.calling cb = .calling g := fun equal => same (Pc.calling.inj equal)
    simp only [List.count_erase, idle, other, same, reduceCtorEq, ↓reduceIte, beq_iff_eq,
      Task.func.injEq] at before changed ⊢
    omega

theorem placed_takeFiber (handled : Handled threads fibers s) (tracked : Tracked fibers s)
    (placed : Placed threads fibers s) {w : ThreadId} {f : FiberId} {fiber : Fiber}
    (mem : w ∈ threads) (idle : s.worker w = .scan) (queued : .fiber f ∈ s.tasks)
    (alone : ∀ v, (s.worker v).fiber ≠ some f) :
    Placed threads fibers { s with
      tasks := s.tasks.erase (.fiber f)
      worker := Function.update s.worker w (.running f)
      fiber := Function.update s.fiber f fiber
      status := Function.update s.status f .running
      sleeps := s.comeBack (s.status f).timer } := by
  have tracked' := tracked_resume tracked (taken_of_queued tracked placed queued)
    (s.tasks.erase (.fiber f)) (Function.update s.worker w (.running f))
    (Function.update s.fiber f fiber)
  have before : ∀ cb, s.worker w ≠ .calling cb := by
    intro cb calls
    cases idle.symm.trans calls
  have counted := List.count_pos_iff.mpr queued
  apply placed_update (f := f) placed
  · have one := placed f (handled.queued f queued)
    rw [if_neg (handled.free f alone).1] at one
    rw [places_eq] at one ⊢
    rw [System.waiting, calling_same handled mem before (fun _ => Pc.noConfusion) rfl]
    simp only [Function.update_self, Status.timer, List.count_erase, reduceCtorEq, ↓reduceIte,
      beq_iff_eq] at one ⊢
    omega
  · intro g other
    have status : Function.update s.status f .running g = s.status g :=
      Function.update_of_ne other ..
    refine ⟨?_, status⟩
    rw [places_eq, places_eq, waiting_same tracked tracked' (congrArg Status.timer status),
      calling_same handled mem before (fun _ => Pc.noConfusion) rfl]
    · simp [List.count_erase, other.symm]
    · intro t sleep _ found
      rcases comeBack_some (s.status f).timer found with ⟨sleep', made, _, fired⟩
      exact ⟨sleep', made, fired⟩

theorem placed_run (handled : Handled threads fibers s) (tracked : Tracked fibers s)
    (placed : Placed threads fibers s) {w : ThreadId} {cb : Func}
    (here : s.worker w = .calling cb) :
    Placed threads fibers { s with
      tasks := if cb < fibers then s.tasks ++ [.fiber cb] else s.tasks
      worker := Function.update s.worker w .scan } := by
  intro g small
  have tracked' := tracked_moved handled tracked placed (.run here)
  have before := placed g small
  have mem : w ∈ threads := handled.inside w (by rw [here]; exact Pc.noConfusion)
  have changed := calling_update handled mem .scan g
    (show ({ s with
      tasks := if cb < fibers then s.tasks ++ [.fiber cb] else s.tasks
      worker := Function.update s.worker w .scan } : System).worker = _ from rfl)
  rw [places_eq] at before ⊢
  rw [waiting_same tracked tracked' rfl fun t sleep _ found => ⟨sleep, found, rfl⟩]
  by_cases same : cb = g
  · subst same
    simp only [small, ↓reduceIte, List.count_append, List.count_cons, List.count_nil,
      beq_self_eq_true, reduceCtorEq, beq_iff_eq, here] at before changed ⊢
    omega
  · have other : ¬ Pc.calling cb = .calling g := fun equal => same (Pc.calling.inj equal)
    simp only [here, other, reduceCtorEq, ↓reduceIte] at changed
    by_cases wakes : cb < fibers
    · simp only [wakes, ↓reduceIte, List.count_append, List.count_cons, List.count_nil,
        reduceCtorEq, beq_iff_eq, Task.fiber.injEq, same] at before changed ⊢
      omega
    · simp only [wakes, ↓reduceIte] at before changed ⊢
      omega

theorem placed_moved (handled : Handled threads fibers s) (tracked : Tracked fibers s)
    (placed : Placed threads fibers s) (moved : Moved threads fibers s after) :
    Placed threads fibers after := by
  have tracked' := tracked_moved handled tracked placed moved
  cases moved with
  | sleep request now here fresh => exact placed_sleep handled tracked placed request now here fresh
  | @switch w f pc fiber context here hand =>
      intro g small
      have before := placed g small
      have later : ∀ cb, pc ≠ .calling cb := by
        rintro cb rfl
        rcases hand with held | idle
        · cases held
        · cases idle
      rw [places_eq] at before ⊢
      rw [calling_same handled (mem_of_hand handled here) (not_calling here) later rfl]
      exact before
  | foreign others taken =>
      intro g small
      have before := placed g small
      rw [places_eq] at before ⊢
      rw [waiting_same tracked tracked' rfl fun t sleep _ found => ⟨sleep, found, rfl⟩]
      exact before
  | expire now fresh => exact placed_expire tracked placed now fresh
  | takeFunc mem idle queued => exact placed_takeFunc handled tracked placed mem idle queued
  | takeFiber mem idle queued alone =>
      exact placed_takeFiber handled tracked placed mem idle queued alone
  | run here => exact placed_run handled tracked placed here

def Returns (s : System) (timer : Addr) (sleep : Sleep) : Prop :=
  (sleep.resumed = if (s.status sleep.fiber).timer = some timer then 0 else 1) ∧
    (0 < sleep.resumed → sleep.fired.isSome)

theorem returns_moved (handled : Handled threads fibers s) (tracked : Tracked fibers s)
    (placed : Placed threads fibers s)
    (returns : ∀ timer sleep, s.sleeps timer = some sleep → Returns s timer sleep)
    (moved : Moved threads fibers s after) :
    ∀ timer sleep, after.sleeps timer = some sleep → Returns after timer sleep := by
  cases moved with
  | @sleep w f timer request now here fresh =>
      have runs := (runs_of_running handled here).1
      intro t sleep found
      rcases part_cases found with ⟨rfl, made⟩ | ⟨differs, slept⟩
      · cases made
        exact ⟨by simp [Status.timer], fun positive => absurd positive (Nat.lt_irrefl 0)⟩
      · rcases returns t sleep slept with ⟨once, fired⟩
        refine ⟨?_, fired⟩
        by_cases mine : sleep.fiber = f
        · rw [mine, runs] at once
          simpa [mine, Status.timer, differs.symm] using once
        · simpa [mine] using once
  | switch => exact returns
  | foreign others taken => exact returns
  | expire now fresh =>
      intro t sleep found
      rcases Option.map_eq_some_iff.mp found with ⟨was, slept, rfl⟩
      rcases returns t was slept with ⟨once, fired⟩
      rcases look_keeps was s.mgr t now with ⟨fiber, _, _, resumed⟩
      rw [Returns, fiber, resumed]
      refine ⟨once, fun positive => ?_⟩
      rcases look_cases was s.mgr t now with ⟨_, look⟩ | ⟨_, _, look⟩ | ⟨_, look⟩
      · rw [look]
        rfl
      · rw [look]
        exact fired positive
      · rw [look]
        exact fired positive
  | takeFunc => exact returns
  | @takeFiber w f fiber mem idle queued alone =>
      intro t sleep found
      rcases comeBack_cases found with ⟨was, slept, owner, fired, _, _, _, resumed⟩
      rcases returns t was slept with ⟨once, taken⟩
      rw [owner] at once
      rw [fired] at taken
      by_cases call : (s.status f).timer = some t
      · rcases tracked.asleep f t call with ⟨mine, known, same⟩
        rw [slept] at known
        cases known
        rw [owner] at same
        subst same
        rw [if_pos call] at once resumed
        refine ⟨by simp [Status.timer, resumed, once], fun _ => ?_⟩
        rw [Option.isSome_iff_ne_none, ← fired]
        intro unfired
        exact taken_of_queued tracked placed queued t call ((tracked.pending slept).mpr unfired)
      · rw [if_neg call, Nat.add_zero] at resumed
        refine ⟨resumed.trans ?_, fun positive => taken (resumed ▸ positive)⟩
        by_cases same : sleep.fiber = f
        · rw [same, if_neg call] at once
          simp [same, Status.timer, once]
        · simpa [same] using once
  | run => exact returns

theorem onTime_moved (tracked : Tracked fibers s)
    (onTime : ∀ timer sleep, s.sleeps timer = some sleep →
      sleep.start.toNat + sleep.delay.toNat < UInt64.size → sleep.OnTime)
    (moved : Moved threads fibers s after) : ∀ timer sleep, after.sleeps timer = some sleep →
      sleep.start.toNat + sleep.delay.toNat < UInt64.size → sleep.OnTime := by
  cases moved with
  | sleep request now here fresh =>
      intro t sleep found fits
      rcases part_cases found with ⟨_, made⟩ | ⟨_, slept⟩
      · cases made
        exact ⟨fun _ _ fired => (by cases fired), fun _ mem => (by cases mem)⟩
      · exact onTime t sleep slept fits
  | takeFiber =>
      intro t sleep found fits
      rcases comeBack_cases found with ⟨was, slept, _, fired, start, delay, missed, _⟩
      rw [← start, ← delay] at fits
      have before := onTime t was slept fits
      refine ⟨?_, ?_⟩
      · rw [← fired, ← start, ← delay]
        exact before.early
      · rw [← missed, ← start, ← delay]
        exact before.late
  | switch => exact onTime
  | foreign => exact onTime
  | takeFunc => exact onTime
  | run => exact onTime
  | @expire temp now fresh =>
      intro t sleep found fits
      rcases Option.map_eq_some_iff.mp found with ⟨was, slept, rfl⟩
      rcases look_keeps was s.mgr t now with ⟨_, start, delay, _⟩
      have date : t ∈ s.mgr.m_timers → (s.mgr.heap t).m_next.toNat =
          was.start.toNat + was.delay.toNat := by
        intro pending
        rw [(tracked.waits t was slept ((tracked.pending slept).mp pending)).1, UInt64.toNat_add]
        apply Nat.mod_eq_of_lt
        rwa [start, delay] at fits
      rcases look_cases was s.mgr t now with ⟨due, look⟩ | ⟨left, pending, look⟩ | ⟨_, look⟩
      · rw [look] at fits ⊢
        refine ⟨?_, (onTime t was slept fits).late⟩
        intro reading previous fired
        cases fired
        rcases mem_due.mp due with ⟨pending, rollover | low⟩
        · exact .inr (UInt64.lt_iff_toNat_lt.mpr (rollover_iff.mp rollover).1)
        · exact .inl (date pending ▸ UInt64.le_iff_toNat_le.mp low)
      · rw [look] at fits ⊢
        have before := onTime t was slept fits
        refine ⟨before.early, ?_⟩
        intro reading mem
        rcases List.mem_append.mp mem with earlier | last
        · exact before.late reading earlier
        · rw [List.mem_singleton.mp last]
          have high : ¬ (s.mgr.heap t).m_next ≤ now := fun low =>
            left (mem_due.mpr ⟨pending, .inr low⟩)
          exact date pending ▸ UInt64.lt_iff_toNat_lt.mp (UInt64.not_le.mp high)
      · rw [look] at fits ⊢
        exact onTime t was slept fits

end Steps

section Start
variable {threads : List ThreadId} {fibers : Nat}

def start (fibers : Nat) (now : UInt64) : System :=
  { mgr := .constructed now, tasks := (List.range fibers).map fun f => .fiber f }

theorem handled_initial (nodup : threads.Nodup) (now : UInt64) :
    Handled threads fibers (start fibers now) := by
  refine ⟨nodup, fun _ busy => absurd rfl busy, ?_, ?_, ?_, fun _ => trivial, ?_⟩
  · intro v w f held
    cases held
  · intro w f held
    cases held
  · intro f mem
    rcases List.mem_map.mp mem with ⟨g, small, equal⟩
    cases equal
    exact List.mem_range.mp small
  · intro f _
    exact ⟨Status.noConfusion, rfl⟩

theorem tracked_initial (now : UInt64) : Tracked fibers (start fibers now) := by
  refine ⟨.start ⟨now, rfl⟩, ?_, ?_, ?_, ?_, ?_, ?_⟩
  · intro timer sleep found
    cases found
  · intro timer sleep found
    cases found
  · intro timer _ cb callback
    cases callback
  · intro timer sleep found
    cases found
  · intro timer sleep found
    cases found
  · intro f timer asleep
    cases asleep

theorem placed_initial (now : UInt64) : Placed threads fibers (start fibers now) := by
  intro f small
  have calling : (start fibers now).calling threads f = 0 :=
    Tally.tally_eq_zero.mpr fun _ _ => rfl
  have funcs : (start fibers now).tasks.count (.func f) = 0 := by
    apply List.count_eq_zero_of_not_mem
    intro mem
    rcases List.mem_map.mp mem with ⟨g, _, equal⟩
    cases equal
  have once : (start fibers now).tasks.count (.fiber f) = 1 := by
    apply List.count_eq_one_of_mem
    · exact List.nodup_range.map fun _ _ equal => Task.fiber.inj equal
    · exact List.mem_map.mpr ⟨f, List.mem_range.mpr small, rfl⟩
  rw [places_eq, calling, funcs, once]
  rfl

end Start

-- outside the condition: the second sleep of a fiber is entered before its context is saved, and
-- the first one returns again
example :
    (run (sleeping [4, 5] 1) { mgr := .constructed 1000, tasks := [.fiber 0] }
      [.take 4 (.fiber 0), .sleep 4 (.usleep 1000) 10 1000, .hold 4, .save 4, .inspect 4,
        .expire 99 1001, .take 5 (.func 0), .run 5, .take 4 (.fiber 0),
        .sleep 4 (.usleep 1000) 11 1002, .hold 4, .expire 99 1003, .take 5 (.func 0), .run 5,
        .take 5 (.fiber 0)]).any
      (fun s => (s.sleeps 10).map Sleep.resumed = some 2) = true := by
  decide

end Ztyco.Sleepers
