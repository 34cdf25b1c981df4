import Ztyco.DoIo

/-!
The timers of the calls of `do_io`. A call holds at most one timer that can
still fire, the one in its local variable: all its other timers have lost their
callbacks, and a timer without a callback is not in the set.
-/

namespace Ztyco.DoIo

open Timers (Addr TimerManager)
open Transition

/-- All timers of a call but the one in its local variable have lost their callbacks. -/
structure Timed (w : World) : Prop where
  reached : Reach Timers.timers anyStep w.mgr
  known : ∀ timer call, w.owner timer = some call → timer ∈ w.mgr.created
  kept : ∀ call timer, (w.calls call).pc.timer = some timer → w.owner timer = some call
  spent : ∀ timer call, w.owner timer = some call →
    (w.mgr.heap timer).m_cb = none ∨ (w.calls call).pc.timer = some timer

section Timers
variable {w : World}

theorem Timed.outside {timer : Addr} {call : Call} (timed : Timed w)
    (owned : w.owner timer = some call) (done : (w.calls call).pc.timer = none) :
    timer ∉ w.mgr.m_timers := by
  have lost : (w.mgr.heap timer).m_cb = none := by
    rcases timed.spent timer call owned with lost | current
    · exact lost
    · rw [done] at current
      cases current
  intro pending
  have armed := (Timers.reach_held timed.reached).armed timer (timed.known timer call owned)
  have callback := armed.mp (Or.inl pending)
  rw [lost] at callback
  cases callback

theorem emitAll_callback (mgr : TimerManager) (now_ms : UInt64) (flight : List Addr)
    (timer : Addr) :
    ((mgr.emitAll now_ms flight).2.heap timer).m_cb = (mgr.heap timer).m_cb ∨
      ((mgr.emitAll now_ms flight).2.heap timer).m_cb = none := by
  induction flight generalizing mgr with
  | nil => exact Or.inl rfl
  | cons shot rest ih =>
      have once : ((mgr.emit now_ms shot).heap timer).m_cb = (mgr.heap timer).m_cb ∨
          ((mgr.emit now_ms shot).heap timer).m_cb = none := by
        by_cases same : timer = shot
        · subst same
          cases kind : (mgr.heap timer).m_recurring <;>
            simp [TimerManager.emit, TimerManager.record, TimerManager.write,
              TimerManager.insert, kind]
        · cases kind : (mgr.heap shot).m_recurring <;>
            simp [TimerManager.emit, TimerManager.record, TimerManager.write,
              TimerManager.insert, kind, same]
      rcases ih (mgr.emit now_ms shot) with kept | lost
      · rcases once with before | lost
        · exact Or.inl (kept.trans before)
        · exact Or.inr (kept.trans lost)
      · exact Or.inr lost

theorem emitAll_created (mgr : TimerManager) (now_ms : UInt64) (flight : List Addr) :
    (mgr.emitAll now_ms flight).2.created = mgr.created := by
  induction flight generalizing mgr with
  | nil => rfl
  | cons shot rest ih =>
      apply (ih (mgr.emit now_ms shot)).trans
      simp only [TimerManager.emit]
      split
      · rfl
      · rfl

/-- No operation gives a timer a new callback, and none forgets a timer. -/
theorem step_callback {mgr after : TimerManager} {op : Timers.Op} {timer : Addr}
    (moved : Timers.timers.step mgr op = some after) (known : timer ∈ mgr.created) :
    timer ∈ after.created ∧
      ((after.heap timer).m_cb = (mgr.heap timer).m_cb ∨ (after.heap timer).m_cb = none) := by
  rcases Timers.timers_step moved with ⟨admitted, done⟩
  cases op with
  | addTimer fresh ms cb recurring now =>
      cases done
      have other : timer ≠ fresh := by
        rintro rfl
        exact of_decide_eq_true admitted known
      simp only [TimerManager.addTimer, Timers.addTimerLocked_heap, Timers.addTimerLocked_created]
      constructor
      · exact List.mem_append_left _ known
      · apply Or.inl
        simp [TimerManager.record, TimerManager.write, other]
  | cancel target =>
      rcases Option.map_eq_some_iff.mp done with ⟨⟨answer, _⟩, cancelled, rfl⟩
      rcases Timers.cancel_cases cancelled with ⟨_, rfl, _⟩ | ⟨it, _, rfl⟩
      · exact ⟨known, Or.inl rfl⟩
      · constructor
        · exact known
        · by_cases same : timer = target
          · simp [TimerManager.record, TimerManager.erase, TimerManager.write, same]
          · simp [TimerManager.record, TimerManager.erase, TimerManager.write, same]
  | refresh target now =>
      cases done
      rcases Timers.refresh_cases mgr target now with result | ⟨it, _, _, result⟩
      · rw [result]
        exact ⟨known, Or.inl rfl⟩
      · rw [result]
        refine ⟨known, Or.inl ?_⟩
        change (((mgr.erase it).write target _).heap timer).m_cb = _
        apply Timers.write_callback (mgr.erase it)
        rfl
  | reset target ms from_now now =>
      cases done
      rcases Timers.reset_cases mgr target ms from_now now with result | ⟨it, _, _, result⟩
      · rw [result]
        exact ⟨known, Or.inl rfl⟩
      · rw [result, Timers.addTimerLocked_created, Timers.addTimerLocked_heap]
        refine ⟨known, Or.inl ?_⟩
        apply Timers.write_callback (mgr.erase it)
        rfl
  | getNextTimer now =>
      cases done
      rw [Timers.getNextTimer_set]
      exact ⟨known, Or.inl rfl⟩
  | listExpiredCb temp now =>
      cases done
      rcases Timers.listExpiredCb_emits mgr temp now with ⟨start, heap, created, _, result⟩
      rw [result, emitAll_created, created, ← heap]
      exact ⟨known, emitAll_callback start now _ timer⟩

theorem Timed.frame {other : World} (timed : Timed w) (mgr : other.mgr = w.mgr)
    (owner : other.owner = w.owner)
    (pcs : ∀ call, (other.calls call).pc.timer = (w.calls call).pc.timer) : Timed other := by
  constructor
  · rw [mgr]
    exact timed.reached
  · rw [owner, mgr]
    exact timed.known
  · intro call timer current
    rw [pcs] at current
    rw [owner]
    exact timed.kept call timer current
  · intro timer call owned
    rw [owner] at owned
    rw [mgr, pcs]
    exact timed.spent timer call owned

theorem Timed.reframe {call : Call} {frame : Frame} (timed : Timed w)
    (same : frame.pc.timer = (w.calls call).pc.timer) :
    Timed { w with calls := Function.update w.calls call frame } := by
  apply timed.frame
  · rfl
  · rfl
  · intro other
    by_cases itself : other = call
    · subst itself
      simpa using same
    · simp [itself]

theorem Timed.operate {op : Timers.Op} {mgr : TimerManager} (timed : Timed w)
    (moved : Timers.timers.step w.mgr op = some mgr) : Timed (w.timed mgr) := by
  constructor
  · exact timed.reached.extend (.single op trivial moved)
  · intro timer call owned
    exact (step_callback moved (timed.known timer call owned)).1
  · exact timed.kept
  · intro timer call owned
    rcases timed.spent timer call owned with lost | current
    · rcases (step_callback moved (timed.known timer call owned)).2 with same | lost
      · exact Or.inl (same.trans lost)
      · exact Or.inl lost
    · exact Or.inr current

theorem addTimer_step {timer : Addr} (fresh : timer ∉ w.mgr.created) (ms : UInt64) (call : Call)
    (now : UInt64) :
    Timers.timers.step w.mgr (.addTimer timer ms call false now) =
      some (w.mgr.addTimer timer ms (some call) false now).2 :=
  if_pos (decide_eq_true fresh)

theorem cancel_step {timer : Addr} {answer : Bool} {mgr : TimerManager}
    (known : timer ∈ w.mgr.created) (done : w.mgr.cancel timer = some (answer, mgr)) :
    Timers.timers.step w.mgr (.cancel timer) = some mgr := by
  have performed : w.mgr.perform (.cancel timer) = some mgr := by
    simp [TimerManager.perform, done]
  exact (if_pos (decide_eq_true known)).trans performed

theorem Timed.arm {call : Call} {timer : Addr} (timed : Timed w)
    (free : (w.calls call).pc.timer = none) (fresh : timer ∉ w.mgr.created) (now : UInt64) :
    Timed ({ w.timed (w.mgr.addTimer timer (w.calls call).timeout (some call) false now).2 with
      owner := Function.update w.owner timer (some call) }.goto call (.adding (some timer))) := by
  have moved := addTimer_step fresh (w.calls call).timeout call now
  have operated := timed.operate moved
  have old : ∀ one name, w.owner one = some name → one ≠ timer := by
    rintro one name owned rfl
    exact fresh (timed.known one name owned)
  constructor
  · exact operated.reached
  · intro one name owned
    by_cases same : one = timer
    · subst same
      simp [World.goto, World.timed, TimerManager.addTimer, Timers.addTimerLocked_created,
        TimerManager.record]
    · exact operated.known one name (by simpa [World.goto, World.timed, same] using owned)
  · intro name one current
    by_cases itself : name = call
    · subst itself
      rw [World.goto_pc] at current
      cases current
      exact Function.update_self timer _ _
    · rw [World.goto_other _ _ itself] at current
      have owned := timed.kept name one current
      simpa [World.goto, old one name owned] using owned
  · intro one name owned
    by_cases same : one = timer
    · subst same
      have itself : call = name := by simpa [World.goto] using owned
      rw [itself, World.goto_pc]
      exact Or.inr rfl
    · have before : w.owner one = some name := by
        simpa [World.goto, World.timed, same] using owned
      rcases operated.spent one name before with lost | current
      · exact Or.inl lost
      · have different : name ≠ call := by
          rintro rfl
          rw [show ((w.timed _).calls name).pc.timer = _ from free] at current
          cases current
        rw [World.goto_other _ _ different]
        exact Or.inr current

/-- Cancelling the current timer leaves the call with none that has a callback. -/
theorem Timed.disarm {call : Call} {timer : Option Addr} {pc : Pc} {after : World}
    (timed : Timed w) (current : (w.calls call).pc.timer = timer) (unarmed : pc.timer = none)
    (done : w.cancelTimer timer = some after) : Timed (after.goto call pc) := by
  cases timer with
  | none =>
      cases done
      exact timed.reframe (unarmed.trans current.symm)
  | some timer =>
      rcases Option.map_eq_some_iff.mp done with ⟨⟨answer, mgr⟩, cancelled, rfl⟩
      have owned := timed.kept call timer current
      have moved := cancel_step (timed.known timer call owned) cancelled
      have operated := timed.operate moved
      have lost : (mgr.heap timer).m_cb = none := by
        rcases Timers.cancel_cases cancelled with ⟨_, rfl, spent⟩ | ⟨it, _, rfl⟩
        · exact spent
        · simp [TimerManager.record, TimerManager.erase, TimerManager.write]
      constructor
      · exact operated.reached
      · exact operated.known
      · intro name one held
        by_cases itself : name = call
        · subst itself
          rw [World.goto_pc, unarmed] at held
          cases held
        · rw [World.goto_other _ _ itself] at held
          exact operated.kept name one held
      · intro one name belongs
        rcases operated.spent one name belongs with gone | held
        · exact Or.inl gone
        · by_cases itself : name = call
          · subst itself
            have same : one = timer := Option.some.inj (held.symm.trans current)
            exact Or.inl (same ▸ lost)
          · rw [World.goto_other _ _ itself]
            exact Or.inr held

end Timers

end Ztyco.DoIo
