import Mathlib.Logic.Function.Basic
import Ztyco.Transition

/-!
mutex.h: any number of `ScopedLockImpl` guards over one `CASLock`, in any interleaving
of their threads. `lock()` of the lock sets its flag and looks at what it was, again
and again; the flag and the guard's `m_locked` are written one after the other, in both
directions. A guard is one object with one owner, so its own calls do not overlap, and
it is not copied.
-/

namespace Ztyco.Guards

open Transition

abbrev GuardId := Nat

inductive Pc where
  | unborn
  | spinning
  | acquired
  | between
  | released (dying : Bool)
  | dead
  deriving DecidableEq, Repr

structure Guard where
  pc : Pc := .unborn
  m_locked : Bool := false
  deriving DecidableEq, Repr

structure State where
  m_mutex : Bool := false
  guard : GuardId → Guard := fun _ => {}

def State.set (s : State) (g : GuardId) (guard : Guard) : State :=
  { s with guard := Function.update s.guard g guard }

@[simp] theorem State.set_guard (s : State) (g : GuardId) (guard : Guard) :
    (s.set g guard).guard g = guard := by
  simp [State.set]

theorem State.set_other {g h : GuardId} (other : h ≠ g) (s : State) (guard : Guard) :
    (s.set g guard).guard h = s.guard h := by
  simp [State.set, other]

inductive Act where
  | construct (g : GuardId)
  | lock (g : GuardId)
  | testAndSet (g : GuardId)
  | setLocked (g : GuardId)
  | unlock (g : GuardId)
  | clearLocked (g : GuardId)
  | destroy (g : GuardId)
  deriving DecidableEq, Repr

def State.release (s : State) (g : GuardId) (dying : Bool) : State :=
  if (s.guard g).m_locked then
    { s with m_mutex := false }.set g { s.guard g with pc := .released dying }
  else s.set g { s.guard g with pc := if dying then .dead else .between }

def Act.effect (s : State) : Act → Option State
  | .construct g => if (s.guard g).pc = .unborn then some (s.set g { pc := .spinning }) else none
  | .lock g =>
      if (s.guard g).pc = .between then
        some (if (s.guard g).m_locked then s else s.set g { pc := .spinning })
      else none
  -- the loop goes on while the flag was set
  | .testAndSet g =>
      if (s.guard g).pc = .spinning then
        some ({ s with m_mutex := true }.set g
          { s.guard g with pc := if s.m_mutex then .spinning else .acquired })
      else none
  | .setLocked g =>
      if (s.guard g).pc = .acquired then some (s.set g { pc := .between, m_locked := true })
      else none
  | .unlock g => if (s.guard g).pc = .between then some (s.release g false) else none
  | .clearLocked g =>
      match (s.guard g).pc with
      | .released dying => some (s.set g { pc := if dying then .dead else .between })
      | _ => none
  | .destroy g => if (s.guard g).pc = .between then some (s.release g true) else none

def guards : Machine State Act where
  initial s := s = {}
  step s act := act.effect s

/-- Between winning the flag and clearing it. -/
def Guard.Holds (guard : Guard) : Prop :=
  guard.pc = .acquired ∨ guard.pc = .between ∧ guard.m_locked = true

instance Guard.Holds.decidable (guard : Guard) : Decidable guard.Holds := by
  unfold Guard.Holds
  infer_instance

def Pc.away : Pc → Bool
  | .acquired | .between => false
  | _ => true

theorem Guard.away {guard : Guard} {pc : Pc} (at_ : guard.pc = pc) (away : pc.away = true) :
    ¬ guard.Holds := by
  subst at_
  rintro (held | held)
  · rw [held] at away
    cases away
  · rw [held.1] at away
    cases away

theorem Guard.opened {guard : Guard} (at_ : guard.pc = .between)
    (unlocked : ¬ guard.m_locked = true) : ¬ guard.Holds := by
  rintro (held | held)
  · rw [at_] at held
    cases held
  · exact unlocked held.2

/-- The flag is set just when a guard holds the lock, and then one does. -/
structure Exclusive (s : State) : Prop where
  flag : s.m_mutex = true ↔ ∃ g, (s.guard g).Holds
  one : ∀ g h, (s.guard g).Holds → (s.guard h).Holds → g = h

section Steps
variable {s : State} {g : GuardId} {guard : Guard}

theorem Exclusive.keep (exclusive : Exclusive s) (same : guard.Holds ↔ (s.guard g).Holds) :
    Exclusive (s.set g guard) := by
  have holds : ∀ h, ((s.set g guard).guard h).Holds ↔ (s.guard h).Holds := by
    intro h
    by_cases self : h = g
    · subst self
      rw [State.set_guard]
      exact same
    · rw [State.set_other self]
  constructor
  · rw [State.set, exclusive.flag]
    exact exists_congr fun h => (holds h).symm
  · intro h other first second
    exact exclusive.one h other ((holds h).mp first) ((holds other).mp second)

/-- The flag was clear, and the guard that set it is the only one to hold the lock. -/
theorem Exclusive.win (exclusive : Exclusive s) (clear : s.m_mutex = false)
    (holds : guard.Holds) : Exclusive ({ s with m_mutex := true }.set g guard) := by
  have nobody : ∀ h, ¬ (s.guard h).Holds := by
    intro h held
    have set := exclusive.flag.mpr ⟨h, held⟩
    rw [clear] at set
    cases set
  have only : ∀ h, (({ s with m_mutex := true }.set g guard).guard h).Holds → h = g := by
    intro h held
    by_contra other
    rw [State.set_other other] at held
    exact nobody h held
  constructor
  · refine iff_of_true rfl ⟨g, ?_⟩
    rw [State.set_guard]
    exact holds
  · intro h other first second
    rw [only h first, only other second]

theorem Exclusive.leave (exclusive : Exclusive s) (held : (s.guard g).Holds)
    (left : ¬ guard.Holds) : Exclusive ({ s with m_mutex := false }.set g guard) := by
  have nobody : ∀ h, ¬ (({ s with m_mutex := false }.set g guard).guard h).Holds := by
    intro h holds
    by_cases self : h = g
    · subst self
      rw [State.set_guard] at holds
      exact left holds
    · rw [State.set_other self] at holds
      exact self (exclusive.one h g holds held)
  constructor
  · refine iff_of_false ?_ ?_
    · intro set
      cases set
    · rintro ⟨h, holds⟩
      exact nobody h holds
  · intro h other first
    exact absurd first (nobody h)

theorem Exclusive.release (exclusive : Exclusive s) (at_ : (s.guard g).pc = .between)
    (dying : Bool) : Exclusive (s.release g dying) := by
  unfold State.release
  split
  · rename_i locked
    exact exclusive.leave (Or.inr ⟨at_, locked⟩) (Guard.away rfl rfl)
  · rename_i unlocked
    refine exclusive.keep (iff_of_false ?_ (Guard.opened at_ unlocked))
    cases dying with
    | true => exact Guard.away rfl rfl
    | false => exact Guard.opened rfl unlocked

theorem exclusive_step {after : State} {act : Act} (exclusive : Exclusive s)
    (moved : guards.step s act = some after) : Exclusive after := by
  have done : act.effect s = some after := moved
  cases act with
  | construct g =>
      simp only [Act.effect] at done
      split at done
      · rename_i at_
        cases done
        exact exclusive.keep (iff_of_false (Guard.away rfl rfl) (Guard.away at_ rfl))
      · cases done
  | lock g =>
      simp only [Act.effect] at done
      split at done
      · rename_i at_
        cases done
        split
        · exact exclusive
        · rename_i unlocked
          exact exclusive.keep (iff_of_false (Guard.away rfl rfl) (Guard.opened at_ unlocked))
      · cases done
  | testAndSet g =>
      simp only [Act.effect] at done
      split at done
      · rename_i at_
        cases done
        cases flag : s.m_mutex with
        | true =>
            have same : ({ s with m_mutex := true } : State) = s := by
              rw [← flag]
            rw [same]
            exact exclusive.keep (iff_of_false (Guard.away rfl rfl) (Guard.away at_ rfl))
        | false => exact exclusive.win flag (Or.inl rfl)
      · cases done
  | setLocked g =>
      simp only [Act.effect] at done
      split at done
      · rename_i at_
        cases done
        exact exclusive.keep (iff_of_true (Or.inr ⟨rfl, rfl⟩) (Or.inl at_))
      · cases done
  | unlock g =>
      simp only [Act.effect] at done
      split at done
      · rename_i at_
        cases done
        exact exclusive.release at_ false
      · cases done
  | clearLocked g =>
      simp only [Act.effect] at done
      split at done
      · rename_i dying at_
        cases done
        refine exclusive.keep (iff_of_false ?_ (Guard.away at_ rfl))
        cases dying with
        | true => exact Guard.away rfl rfl
        | false => exact Guard.opened rfl (by decide)
      · cases done
  | destroy g =>
      simp only [Act.effect] at done
      split at done
      · rename_i at_
        cases done
        exact exclusive.release at_ true
      · cases done

end Steps

/-- At most one guard holds the lock at any time, and the flag says whether one does; so
the lock is free when every guard is gone or has left it. -/
theorem guards_exclusive {s : State} (reached : Reach guards anyStep s) : Exclusive s := by
  apply reached.invariant Exclusive
  · rintro _ rfl
    have none : ∀ g, ¬ (({} : State).guard g).Holds := fun _ => Guard.away rfl rfl
    constructor
    · refine iff_of_false ?_ ?_
      · intro set
        cases set
      · rintro ⟨g, held⟩
        exact none g held
    · intro g h held
      exact absurd held (none g)
  · intro before act after _ exclusive _ moved
    exact exclusive_step exclusive moved

theorem guards_exclusive_two :
    ∃ s, run guards {} [.construct 1, .testAndSet 1, .construct 2, .testAndSet 2, .setLocked 1,
        .destroy 1, .testAndSet 2, .clearLocked 1] = some s ∧ Exclusive s :=
  run_meets anyStep rfl (by decide) (by decide) fun _ reached => guards_exclusive reached

end Ztyco.Guards
