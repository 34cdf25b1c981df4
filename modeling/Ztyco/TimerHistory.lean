import Ztyco.TimerSet

/-!
What a TimerManager has done with each timer. A cancellation ends a timer, and
so does the emission of a one-shot timer; a timer has no callback exactly when
its history has ended it, and a history says nothing about a timer after its
end.
-/

namespace Ztyco.Timers

open Transition

def Happening.timer : Happening → Addr
  | .added timer | .emitted timer _ | .cancelled timer => timer

def Happening.emits (timer : Addr) : Happening → Bool
  | .emitted other _ => other = timer
  | .added _ | .cancelled _ => false

def Happening.cancels (timer : Addr) : Happening → Bool
  | .cancelled other => other = timer
  | .added _ | .emitted _ _ => false

def Happening.ends (recurring : Bool) : Happening → Bool
  | .added _ => false
  | .emitted _ _ => !recurring
  | .cancelled _ => true

def TimerManager.recurring (mgr : TimerManager) (timer : Addr) : Bool :=
  (mgr.heap timer).m_recurring

def Final (recurring : Addr → Bool) (earlier later : Happening) : Prop :=
  earlier.timer = later.timer → earlier.ends (recurring earlier.timer) = false

structure Chronicle (mgr : TimerManager) : Prop where
  final : mgr.history.Pairwise (Final mgr.recurring)
  known : ∀ happening ∈ mgr.history, happening.timer ∈ mgr.created
  spent : ∀ timer ∈ mgr.created, (mgr.heap timer).m_cb.isSome = false ↔
    ∃ happening ∈ mgr.history, happening.timer = timer ∧
      happening.ends (mgr.recurring timer) = true

section Steps
variable {mgr other : TimerManager} {timer : Addr}

theorem Chronicle.frame (chronicle : Chronicle mgr) (history : other.history = mgr.history)
    (created : other.created = mgr.created)
    (callbacks : ∀ timer, (other.heap timer).m_cb = (mgr.heap timer).m_cb)
    (kinds : other.recurring = mgr.recurring) : Chronicle other := by
  constructor
  · rw [history, kinds]
    exact chronicle.final
  · rw [history, created]
    exact chronicle.known
  · intro timer mem
    rw [created] at mem
    rw [callbacks, history, kinds]
    exact chronicle.spent timer mem

theorem write_recurring (mgr : TimerManager) {contents : Timer}
    (kind : contents.m_recurring = mgr.recurring timer) :
    (mgr.write timer contents).recurring = mgr.recurring := by
  funext a
  by_cases same : a = timer
  · subst same
    simpa [TimerManager.write, TimerManager.recurring] using kind
  · simp [TimerManager.write, TimerManager.recurring, same]

theorem write_callback (mgr : TimerManager) {contents : Timer}
    (callback : contents.m_cb = (mgr.heap timer).m_cb) (a : Addr) :
    ((mgr.write timer contents).heap a).m_cb = (mgr.heap a).m_cb := by
  by_cases same : a = timer
  · subst same
    simpa [TimerManager.write] using callback
  · simp [TimerManager.write, same]

/-- The history goes on with a timer that still has its callback; the callback
goes if and only if the timer ends. -/
theorem Chronicle.append (chronicle : Chronicle mgr) (happening : Happening)
    (known : happening.timer ∈ mgr.created)
    (live : (mgr.heap happening.timer).m_cb.isSome = true)
    (history : other.history = mgr.history ++ [happening])
    (created : other.created = mgr.created) (kinds : other.recurring = mgr.recurring)
    (gone : (other.heap happening.timer).m_cb.isSome = false ↔
      happening.ends (mgr.recurring happening.timer) = true)
    (kept : ∀ timer, timer ≠ happening.timer → (other.heap timer).m_cb = (mgr.heap timer).m_cb) :
    Chronicle other := by
  -- an ending in the past would have taken the callback
  have unspent : ∀ earlier ∈ mgr.history, earlier.timer = happening.timer →
      earlier.ends (mgr.recurring earlier.timer) = false := by
    intro earlier mem same
    by_contra ends
    have lost := (chronicle.spent happening.timer known).mpr
      ⟨earlier, mem, same, by simpa [same] using ends⟩
    rw [live] at lost
    cases lost
  constructor
  · rw [history, kinds]
    apply List.pairwise_append.mpr
    refine ⟨chronicle.final, List.pairwise_singleton _ _, ?_⟩
    intro earlier mem later last
    rw [List.mem_singleton.mp last]
    exact unspent earlier mem
  · intro later mem
    rw [history, List.mem_append, List.mem_singleton] at mem
    rw [created]
    rcases mem with earlier | rfl
    · exact chronicle.known later earlier
    · exact known
  · intro timer mem
    rw [created] at mem
    rw [history, kinds]
    by_cases same : timer = happening.timer
    · subst same
      rw [gone]
      constructor
      · intro ends
        exact ⟨happening, by simp, rfl, ends⟩
      · rintro ⟨earlier, mem_earlier, about, ends⟩
        rcases List.mem_append.mp mem_earlier with before | last
        · rw [← about, unspent earlier before about] at ends
          cases ends
        · rw [List.mem_singleton.mp last] at ends
          exact ends
    · rw [kept timer same, chronicle.spent timer mem]
      constructor
      · rintro ⟨earlier, mem_earlier, about, ends⟩
        exact ⟨earlier, List.mem_append_left _ mem_earlier, about, ends⟩
      · rintro ⟨earlier, mem_earlier, about, ends⟩
        rcases List.mem_append.mp mem_earlier with before | last
        · exact ⟨earlier, before, about, ends⟩
        · rw [List.mem_singleton.mp last] at about
          exact absurd about.symm same

theorem Chronicle.create (chronicle : Chronicle mgr) {contents : Timer}
    (fresh : timer ∉ mgr.created) (callback : contents.m_cb.isSome = true) :
    Chronicle ({ mgr.write timer contents with created := mgr.created ++ [timer] }.record
      (.added timer)) := by
  have about_other : ∀ happening ∈ mgr.history, happening.timer ≠ timer := by
    rintro happening mem rfl
    exact fresh (chronicle.known happening mem)
  have kinds : ∀ a, a ≠ timer → (mgr.write timer contents).recurring a = mgr.recurring a := by
    intro a different
    simp [TimerManager.write, TimerManager.recurring, different]
  constructor
  · apply List.pairwise_append.mpr
    refine ⟨?_, List.pairwise_singleton _ _, ?_⟩
    · apply List.Pairwise.imp_of_mem _ chronicle.final
      intro earlier later mem _ final same
      exact (congrArg earlier.ends (kinds _ (about_other earlier mem))).trans (final same)
    · intro earlier mem later last same
      rw [List.mem_singleton.mp last] at same
      exact absurd same (about_other earlier mem)
  · intro happening mem
    change happening.timer ∈ mgr.created ++ [timer]
    rcases List.mem_append.mp mem with earlier | last
    · exact List.mem_append_left _ (chronicle.known happening earlier)
    · rw [List.mem_singleton.mp last]
      simp [Happening.timer]
  · intro a mem
    change ((mgr.write timer contents).heap a).m_cb.isSome = false ↔
      ∃ happening ∈ mgr.history ++ [.added timer], _
    by_cases same : a = timer
    · subst same
      constructor
      · intro lost
        simp [TimerManager.write, callback] at lost
      · rintro ⟨happening, mem_happening, about, ends⟩
        rcases List.mem_append.mp mem_happening with earlier | last
        · exact absurd about (about_other happening earlier)
        · rw [List.mem_singleton.mp last] at ends
          cases ends
    · have old : a ∈ mgr.created := by
        change a ∈ mgr.created ++ [timer] at mem
        simpa [same] using mem
      have kept : (mgr.write timer contents).heap a = mgr.heap a := by
        simp [TimerManager.write, same]
      rw [kept, chronicle.spent a old]
      change _ ↔ ∃ happening ∈ mgr.history ++ [.added timer],
        happening.timer = a ∧ happening.ends ((mgr.write timer contents).recurring a) = true
      rw [kinds a same]
      constructor
      · rintro ⟨happening, mem_happening, about, ends⟩
        exact ⟨happening, List.mem_append_left _ mem_happening, about, ends⟩
      · rintro ⟨happening, mem_happening, about, ends⟩
        rcases List.mem_append.mp mem_happening with earlier | last
        · exact ⟨happening, earlier, about, ends⟩
        · rw [List.mem_singleton.mp last] at ends
          cases ends

end Steps

section Operations
variable {mgr : TimerManager} {timer : Addr}

theorem chronicle_addTimerLocked (chronicle : Chronicle mgr) (val : Addr) :
    Chronicle (mgr.addTimerLocked val).2 := by
  simp only [TimerManager.addTimerLocked]
  split
  · exact chronicle.frame rfl rfl (fun _ => rfl) rfl
  · exact chronicle.frame rfl rfl (fun _ => rfl) rfl

theorem chronicle_write (chronicle : Chronicle mgr) (timer : Addr) (contents : Timer)
    (callback : contents.m_cb = (mgr.heap timer).m_cb)
    (kind : contents.m_recurring = mgr.recurring timer) : Chronicle (mgr.write timer contents) :=
  chronicle.frame rfl rfl (write_callback mgr callback) (write_recurring mgr kind)

theorem chronicle_cancel (held : Held mgr []) (chronicle : Chronicle mgr)
    (known : timer ∈ mgr.created) {answer : Bool} {after : TimerManager}
    (done : mgr.cancel timer = some (answer, after)) : Chronicle after := by
  cases callback : (mgr.heap timer).m_cb.isSome with
  | false =>
      rw [cancel_spent callback] at done
      cases done
      exact chronicle
  | true =>
      rcases cancel_armed held known callback with ⟨it, _, result⟩
      rw [result] at done
      cases done
      refine chronicle.append (.cancelled timer) known callback ?_ ?_ ?_ ?_ ?_
      · rfl
      · rfl
      · exact write_recurring mgr rfl
      · simp [TimerManager.record, TimerManager.erase, TimerManager.write, Happening.timer,
          Happening.ends]
      · intro a different
        change a ≠ timer at different
        simp [TimerManager.record, TimerManager.erase, TimerManager.write, different]

theorem chronicle_refresh (chronicle : Chronicle mgr) (now : UInt64) :
    Chronicle (mgr.refresh timer now).2 := by
  rcases refresh_cases mgr timer now with result | ⟨it, _, _, result⟩
  · rw [result]
    exact chronicle
  · rw [result]
    have erased : Chronicle (mgr.erase it) := chronicle.frame rfl rfl (fun _ => rfl) rfl
    have rekeyed := chronicle_write erased timer
      { mgr.heap timer with m_next := now + (mgr.heap timer).m_ms } rfl rfl
    exact rekeyed.frame rfl rfl (fun _ => rfl) rfl

theorem chronicle_reset (chronicle : Chronicle mgr) (ms : UInt64) (from_now : Bool)
    (now : UInt64) : Chronicle (mgr.reset timer ms from_now now).2.2 := by
  rcases reset_cases mgr timer ms from_now now with result | ⟨it, _, _, result⟩
  · rw [result]
    exact chronicle
  · rw [result]
    have erased : Chronicle (mgr.erase it) := chronicle.frame rfl rfl (fun _ => rfl) rfl
    apply chronicle_addTimerLocked
    apply chronicle_write erased timer
    · rfl
    · rfl

theorem chronicle_getNextTimer (chronicle : Chronicle mgr) (now : UInt64) :
    Chronicle (mgr.getNextTimer now).2 := by
  rw [getNextTimer_set]
  exact chronicle.frame rfl rfl (fun _ => rfl) rfl

/-- A timer in flight has its callback, so its emission follows no end of it. -/
theorem chronicle_emit {flight : List Addr} (held : Held mgr (timer :: flight))
    (chronicle : Chronicle mgr) (now_ms : UInt64) : Chronicle (mgr.emit now_ms timer) := by
  have known := held.known timer (Or.inr List.mem_cons_self)
  have live := (held.armed timer known).mp (Or.inr List.mem_cons_self)
  cases kind : (mgr.heap timer).m_recurring with
  | true =>
      have emitted : mgr.emit now_ms timer = ((mgr.record
          (.emitted timer (mgr.heap timer).m_cb)).write timer
            { mgr.heap timer with m_next := now_ms + (mgr.heap timer).m_ms }).insert timer := by
        simp [TimerManager.emit, TimerManager.record, kind]
      rw [emitted]
      refine chronicle.append (.emitted timer (mgr.heap timer).m_cb) known live ?_ ?_ ?_ ?_ ?_
      · rfl
      · rfl
      · exact write_recurring mgr rfl
      · simp [TimerManager.insert, TimerManager.record, TimerManager.write, Happening.timer,
          Happening.ends, TimerManager.recurring, kind, Option.isSome_iff_ne_none.mp live]
      · intro a different
        change a ≠ timer at different
        simp [TimerManager.insert, TimerManager.record, TimerManager.write, different]
  | false =>
      have emitted : mgr.emit now_ms timer = (mgr.record
          (.emitted timer (mgr.heap timer).m_cb)).write timer
            { mgr.heap timer with m_cb := none } := by
        simp [TimerManager.emit, TimerManager.record, kind]
      rw [emitted]
      refine chronicle.append (.emitted timer (mgr.heap timer).m_cb) known live ?_ ?_ ?_ ?_ ?_
      · rfl
      · rfl
      · exact write_recurring mgr rfl
      · simp [TimerManager.record, TimerManager.write, Happening.timer, Happening.ends,
          TimerManager.recurring, kind]
      · intro a different
        change a ≠ timer at different
        simp [TimerManager.record, TimerManager.write, different]

theorem chronicle_emitAll {flight : List Addr} (held : Held mgr flight)
    (chronicle : Chronicle mgr) (now_ms : UInt64) : Chronicle (mgr.emitAll now_ms flight).2 := by
  induction flight generalizing mgr with
  | nil => exact chronicle
  | cons timer rest ih => exact ih (held_emit held now_ms) (chronicle_emit held chronicle now_ms)

theorem chronicle_listExpiredCb (held : Held mgr []) (chronicle : Chronicle mgr) (temp : Addr)
    (now_ms : UInt64) : Chronicle (mgr.listExpiredCb temp now_ms).2 := by
  unfold TimerManager.listExpiredCb
  split
  · exact chronicle
  · have read : Held (mgr.detectClockRollover now_ms).2 [] := held.frame rfl rfl rfl
    have kept : Chronicle (mgr.detectClockRollover now_ms).2 :=
      chronicle.frame rfl rfl (fun _ => rfl) rfl
    dsimp only
    split
    · exact kept
    · apply chronicle_emitAll (held_take read _)
      exact kept.frame rfl rfl (fun _ => rfl) rfl

end Operations

theorem reach_chronicle {allowed : TimerManager → Op → Prop} {mgr : TimerManager}
    (reached : Reach timers allowed mgr) : Chronicle mgr := by
  apply reached.invariant Chronicle
  · rintro state ⟨now, rfl⟩
    constructor
    · exact List.Pairwise.nil
    · intro happening mem
      cases mem
    · intro timer mem
      cases mem
  · intro before op after prior chronicle _ moved
    have held := reach_held prior
    rcases timers_step moved with ⟨admitted, done⟩
    cases op with
    | addTimer timer ms cb recurring now =>
        cases done
        apply chronicle_addTimerLocked
        exact chronicle.create (of_decide_eq_true admitted) rfl
    | cancel timer =>
        rcases Option.map_eq_some_iff.mp done with ⟨⟨answer, _⟩, cancelled, rfl⟩
        exact chronicle_cancel held chronicle (of_decide_eq_true admitted) cancelled
    | refresh timer now =>
        cases done
        exact chronicle_refresh chronicle now
    | reset timer ms from_now now =>
        cases done
        exact chronicle_reset chronicle ms from_now now
    | getNextTimer now =>
        cases done
        exact chronicle_getNextTimer chronicle now
    | listExpiredCb temp now =>
        cases done
        exact chronicle_listExpiredCb held chronicle temp now

/-! What `listExpiredCb` pushes is what the history says it emitted. -/

def Pushes (before after : TimerManager) (cbs : List (Option Fibers.Func)) : Prop :=
  ∃ fired : List (Addr × Option Fibers.Func), cbs = fired.map (·.2) ∧
    after.history = before.history ++ fired.map fun shot => .emitted shot.1 shot.2

theorem emit_history (mgr : TimerManager) (now_ms : UInt64) (timer : Addr) :
    (mgr.emit now_ms timer).history =
      mgr.history ++ [.emitted timer (mgr.heap timer).m_cb] := by
  simp only [TimerManager.emit]
  split
  · rfl
  · rfl

theorem emitAll_pushes (mgr : TimerManager) (now_ms : UInt64) (expired : List Addr) :
    Pushes mgr (mgr.emitAll now_ms expired).2 (mgr.emitAll now_ms expired).1 := by
  induction expired generalizing mgr with
  | nil => exact ⟨[], rfl, (List.append_nil _).symm⟩
  | cons timer rest ih =>
      rcases ih (mgr.emit now_ms timer) with ⟨fired, pushed, history⟩
      refine ⟨(timer, (mgr.heap timer).m_cb) :: fired, ?_, ?_⟩
      · simp [TimerManager.emitAll, pushed]
      · simp [TimerManager.emitAll, history, emit_history]

theorem listExpiredCb_pushes (mgr : TimerManager) (temp : Addr) (now_ms : UInt64) :
    Pushes mgr (mgr.listExpiredCb temp now_ms).2 (mgr.listExpiredCb temp now_ms).1 := by
  unfold TimerManager.listExpiredCb
  split
  · exact ⟨[], rfl, (List.append_nil _).symm⟩
  · dsimp only
    split
    · exact ⟨[], rfl, (List.append_nil _).symm⟩
    · exact emitAll_pushes _ now_ms _

/-! The chronicle, read one timer at a time. -/

theorem countP_le_one {Entry : Type} {rel : Entry → Entry → Prop} {entries : List Entry}
    {chosen : Entry → Bool} (pairwise : entries.Pairwise rel)
    (clash : ∀ a b, chosen a = true → chosen b = true → ¬ rel a b) :
    entries.countP chosen ≤ 1 := by
  induction pairwise with
  | nil => exact Nat.zero_le 1
  | @cons head rest first _ ih =>
      cases picked : chosen head with
      | false =>
          rw [List.countP_cons_of_neg (by simp [picked])]
          exact ih
      | true =>
          have alone : rest.countP chosen = 0 := by
            rw [List.countP_eq_zero]
            intro other mem also
            exact clash head other picked also (first other mem)
          have counts : (head :: rest).countP chosen = 1 := by
            rw [List.countP_cons_of_pos picked, alone]
          exact Nat.le_of_eq counts

theorem emits_iff {happening : Happening} {timer : Addr} :
    happening.emits timer = true ↔ ∃ cb, happening = .emitted timer cb := by
  cases happening with
  | added other => simp [Happening.emits]
  | emitted other cb =>
      simp only [Happening.emits, decide_eq_true_eq]
      constructor
      · rintro rfl
        exact ⟨cb, rfl⟩
      · rintro ⟨_, same⟩
        cases same
        rfl
  | cancelled other => simp [Happening.emits]

theorem cancels_iff {happening : Happening} {timer : Addr} :
    happening.cancels timer = true ↔ happening = .cancelled timer := by
  cases happening <;> simp [Happening.cancels]

section Consequences
variable {mgr : TimerManager} {timer : Addr}

theorem emissions_le_one (chronicle : Chronicle mgr) (oneShot : mgr.recurring timer = false) :
    mgr.history.countP (Happening.emits timer) ≤ 1 := by
  apply countP_le_one chronicle.final
  intro a b first second final
  rcases emits_iff.mp first with ⟨_, rfl⟩
  rcases emits_iff.mp second with ⟨_, rfl⟩
  have unended := final rfl
  simp [Happening.ends, Happening.timer, oneShot] at unended

theorem cancellations_le_one (chronicle : Chronicle mgr) (timer : Addr) :
    mgr.history.countP (Happening.cancels timer) ≤ 1 := by
  apply countP_le_one chronicle.final
  intro a b first second final
  rw [cancels_iff.mp first, cancels_iff.mp second] at final
  cases final rfl

theorem silent_after_cancel (chronicle : Chronicle mgr) {earlier later : List Happening}
    (split : mgr.history = earlier ++ later) (cancelled : .cancelled timer ∈ earlier) :
    ∀ happening ∈ later, happening.emits timer = false := by
  intro happening mem
  by_contra emits
  rcases emits_iff.mp (Bool.not_eq_false _ ▸ emits) with ⟨cb, rfl⟩
  have final := chronicle.final
  rw [split, List.pairwise_append] at final
  cases final.2.2 _ cancelled _ mem rfl

theorem spent_oneShot (chronicle : Chronicle mgr) (known : timer ∈ mgr.created)
    (oneShot : mgr.recurring timer = false) :
    (mgr.heap timer).m_cb.isSome = false ↔
      (∃ cb, .emitted timer cb ∈ mgr.history) ∨ .cancelled timer ∈ mgr.history := by
  rw [chronicle.spent timer known]
  constructor
  · rintro ⟨happening, mem, rfl, ends⟩
    cases happening with
    | added other => cases ends
    | emitted other cb => exact Or.inl ⟨cb, mem⟩
    | cancelled other => exact Or.inr mem
  · rintro (⟨cb, mem⟩ | mem)
    · exact ⟨_, mem, rfl, by simp [Happening.ends, oneShot]⟩
    · exact ⟨_, mem, rfl, rfl⟩

end Consequences

/-- `cancel` answers, and records itself exactly when it answers true; on a
one-shot timer it answers false exactly after an emission or a cancellation. -/
def CancelAnswers (mgr : TimerManager) (timer : Addr) : Prop :=
  ∃ answer after, mgr.cancel timer = some (answer, after) ∧
    after.history = mgr.history ++ (if answer then [.cancelled timer] else []) ∧
    (mgr.recurring timer = false → (answer = false ↔
      (∃ cb, .emitted timer cb ∈ mgr.history) ∨ .cancelled timer ∈ mgr.history))

structure CancelHonest (mgr : TimerManager) : Prop where
  oneShot_once : ∀ timer ∈ mgr.created, mgr.recurring timer = false →
    mgr.history.countP (Happening.emits timer) ≤ 1
  cancel_once : ∀ timer, mgr.history.countP (Happening.cancels timer) ≤ 1
  silent : ∀ timer earlier later, mgr.history = earlier ++ later → .cancelled timer ∈ earlier →
    ∀ happening ∈ later, happening.emits timer = false
  answers : ∀ timer ∈ mgr.created, CancelAnswers mgr timer
  pushes : ∀ temp now_ms,
    Pushes mgr (mgr.listExpiredCb temp now_ms).2 (mgr.listExpiredCb temp now_ms).1

theorem cancel_answers {mgr : TimerManager} {timer : Addr} (held : Held mgr [])
    (chronicle : Chronicle mgr) (known : timer ∈ mgr.created) : CancelAnswers mgr timer := by
  cases callback : (mgr.heap timer).m_cb.isSome with
  | false =>
      refine ⟨false, mgr, cancel_spent callback, (List.append_nil _).symm, ?_⟩
      intro oneShot
      rw [← spent_oneShot chronicle known oneShot, callback]
  | true =>
      rcases cancel_armed held known callback with ⟨it, _, result⟩
      refine ⟨true, _, result, rfl, ?_⟩
      intro oneShot
      rw [← spent_oneShot chronicle known oneShot, callback]

theorem cancel_honest {mgr : TimerManager} (reached : Reach timers anyStep mgr) :
    CancelHonest mgr := by
  have chronicle := reach_chronicle reached
  constructor
  · intro timer _ oneShot
    exact emissions_le_one chronicle oneShot
  · exact cancellations_le_one chronicle
  · intro timer earlier later split cancelled
    exact silent_after_cancel chronicle split cancelled
  · intro timer known
    exact cancel_answers (reach_held reached) chronicle known
  · exact listExpiredCb_pushes mgr

theorem cancel_honest_run :
    ∃ mgr, run timers (.constructed 1000)
        [.addTimer 8 50 1 false 1000, .addTimer 3 20 2 true 1010, .listExpiredCb 9 1060,
          .cancel 8, .cancel 3, .listExpiredCb 9 2000] = some mgr ∧ CancelHonest mgr :=
  run_meets anyStep ⟨1000, rfl⟩ (by decide) (by decide) fun _ reached => cancel_honest reached

end Ztyco.Timers
