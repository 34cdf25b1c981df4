import Mathlib.Data.List.Nodup
import Mathlib.Logic.Function.Basic
import Ztyco.Transition

/-!
`ConfigVar::setValue` of config.h, called from many threads. The comparison and
the notification of the listeners are made under the read lock, which other
callers may hold as well; the value is stored under the write lock, which
nobody may. `received` is the last call each listener had, `waiting` the
threads that have notified and not stored, the latest first.
-/

namespace Ztyco.Configuration

open Transition

universe u
variable {T : Type u}

inductive Phase (T : Type u) where
  | idle
  | comparing (v : T)
  | storing (v : T)
  deriving DecidableEq, Repr

structure ConfigVar (T : Type u) where
  m_val : T
  m_cbs : List UInt64 := []
  readers : Nat := 0
  phase : Nat → Phase T := fun _ => .idle
  received : UInt64 → Option (T × T) := fun _ => none
  waiting : List Nat := []

inductive Act (T : Type u) where
  | compare (thread : Nat) (v : T)
  | notify (thread : Nat)
  | store (thread : Nat)
  deriving DecidableEq, Repr

def notifyAll (old new : T) :
    List UInt64 → (UInt64 → Option (T × T)) → UInt64 → Option (T × T)
  | [], received => received
  | key :: rest, received =>
      notifyAll old new rest (Function.update received key (some (old, new)))

namespace ConfigVar

def enter (var : ConfigVar T) (thread : Nat) (phase : Phase T) : ConfigVar T :=
  { var with phase := Function.update var.phase thread phase }

def compare [DecidableEq T] (var : ConfigVar T) (thread : Nat) (v : T) : ConfigVar T :=
  if v = var.m_val then var
  else { var with readers := var.readers + 1 }.enter thread (.comparing v)

def notify (var : ConfigVar T) (thread : Nat) (v : T) : ConfigVar T :=
  { var with
    readers := var.readers - 1
    received := notifyAll var.m_val v var.m_cbs var.received
    waiting := thread :: var.waiting }.enter thread (.storing v)

def store (var : ConfigVar T) (thread : Nat) (v : T) : ConfigVar T :=
  { var with m_val := v, waiting := var.waiting.erase thread }.enter thread .idle

def act [DecidableEq T] (var : ConfigVar T) : Act T → Option (ConfigVar T)
  | .compare thread v =>
      match var.phase thread with
      | .idle => some (var.compare thread v)
      | _ => none
  | .notify thread =>
      match var.phase thread with
      | .comparing v => some (var.notify thread v)
      | _ => none
  | .store thread =>
      match var.phase thread with
      | .storing v => if var.readers = 0 then some (var.store thread v) else none
      | _ => none

def Quiet (var : ConfigVar T) : Prop :=
  var.readers = 0 ∧ var.waiting = [] ∧ (∀ thread, var.phase thread = .idle) ∧
    ∀ key, var.received key = none

end ConfigVar

def configVar [DecidableEq T] : Machine (ConfigVar T) (Act T) where
  initial := ConfigVar.Quiet
  step := ConfigVar.act

/-- Every listener was last given the stored value, or was never called and the
value is the old one. -/
def Coherent (before after : ConfigVar T) : Prop :=
  ∀ key ∈ after.m_cbs, match after.received key with
    | some (_, new) => new = after.m_val
    | none => after.m_val = before.m_val

/-- The call that notified last does not store before another one that has
notified. -/
def LatestStoresLast (var : ConfigVar T) : Act T → Prop
  | .store thread => var.waiting = [thread] ∨ var.waiting.head? ≠ some thread
  | _ => True

instance LatestStoresLast.decidable (var : ConfigVar T) :
    (act : Act T) → Decidable (LatestStoresLast var act)
  | .store thread =>
      inferInstanceAs (Decidable (var.waiting = [thread] ∨ var.waiting.head? ≠ some thread))
  | .compare .. | .notify .. => .isTrue trivial

theorem notifyAll_eq (old new : T) (keys : List UInt64)
    (received : UInt64 → Option (T × T)) (key : UInt64) :
    notifyAll old new keys received key =
      if key ∈ keys then some (old, new) else received key := by
  induction keys generalizing received with
  | nil => rfl
  | cons head rest ih =>
      rw [notifyAll, ih]
      by_cases later : key ∈ rest
      · simp [later]
      · by_cases same : key = head
        · subst same
          simp [later]
        · simp [later, same]

/-- While calls wait to store, the listeners know the value of the latest one. -/
structure Tracks (start var : ConfigVar T) : Prop where
  nodup : var.waiting.Nodup
  waits : ∀ thread, thread ∈ var.waiting ↔ ∃ v, var.phase thread = .storing v
  settled : var.waiting = [] → Coherent start var
  latest : ∀ thread rest, var.waiting = thread :: rest →
    ∃ v, var.phase thread = .storing v ∧
      ∀ key ∈ var.m_cbs, ∃ old, var.received key = some (old, v)

theorem tracks_quiet {var : ConfigVar T} (quiet : var.Quiet) : Tracks var var := by
  rcases quiet with ⟨_, empty, idle, silent⟩
  constructor
  · rw [empty]
    exact List.nodup_nil
  · intro thread
    rw [empty, idle thread]
    constructor
    · intro mem
      cases mem
    · rintro ⟨v, busy⟩
      cases busy
  · intro _ key _
    rw [silent key]
  · intro thread rest some
    rw [empty] at some
    cases some

section Steps
variable {start var : ConfigVar T} {thread : Nat}

theorem tracks_compare [DecidableEq T] (tracks : Tracks start var)
    (idle : var.phase thread = .idle) (v : T) : Tracks start (var.compare thread v) := by
  unfold ConfigVar.compare
  split
  · exact tracks
  · have outside : thread ∉ var.waiting := by
      intro mem
      rcases (tracks.waits thread).mp mem with ⟨w, busy⟩
      rw [idle] at busy
      cases busy
    constructor
    · exact tracks.nodup
    · intro other
      change other ∈ var.waiting ↔ _
      by_cases same : other = thread
      · subst same
        simp [ConfigVar.enter, outside]
      · simpa [ConfigVar.enter, same] using tracks.waits other
    · exact tracks.settled
    · intro latest rest waiting
      rcases tracks.latest latest rest waiting with ⟨w, busy, told⟩
      have other : latest ≠ thread := by
        rintro rfl
        rw [idle] at busy
        cases busy
      exact ⟨w, by simpa [ConfigVar.enter, other] using busy, told⟩

theorem tracks_notify (tracks : Tracks start var) {v : T}
    (comparing : var.phase thread = .comparing v) : Tracks start (var.notify thread v) := by
  have outside : thread ∉ var.waiting := by
    intro mem
    rcases (tracks.waits thread).mp mem with ⟨w, busy⟩
    rw [comparing] at busy
    cases busy
  constructor
  · exact List.nodup_cons.mpr ⟨outside, tracks.nodup⟩
  · intro other
    change other ∈ thread :: var.waiting ↔ _
    by_cases same : other = thread
    · subst same
      simp [ConfigVar.notify, ConfigVar.enter]
    · simpa [ConfigVar.notify, ConfigVar.enter, same] using tracks.waits other
  · intro waiting
    cases waiting
  · intro latest rest waiting
    cases waiting
    refine ⟨v, by simp [ConfigVar.notify, ConfigVar.enter], ?_⟩
    intro key listed
    refine ⟨var.m_val, ?_⟩
    change notifyAll var.m_val v var.m_cbs var.received key = _
    have listens : key ∈ var.m_cbs := listed
    rw [notifyAll_eq, if_pos listens]

theorem tracks_store (tracks : Tracks start var) {v : T} (storing : var.phase thread = .storing v)
    (last : var.waiting = [thread] ∨ var.waiting.head? ≠ some thread) :
    Tracks start (var.store thread v) := by
  constructor
  · exact tracks.nodup.erase thread
  · intro other
    change other ∈ var.waiting.erase thread ↔ _
    rw [tracks.nodup.mem_erase_iff, tracks.waits]
    by_cases same : other = thread
    · subst same
      simp [ConfigVar.store, ConfigVar.enter]
    · simp [ConfigVar.store, ConfigVar.enter, same]
  · intro empty
    have only : var.waiting = [thread] := by
      rcases last with only | other
      · exact only
      · exfalso
        cases waiting : var.waiting with
        | nil =>
            have mem := (tracks.waits thread).mpr ⟨v, storing⟩
            rw [waiting] at mem
            cases mem
        | cons latest rest =>
            have different : latest ≠ thread := by simpa [waiting] using other
            have erased : var.waiting.erase thread = [] := empty
            rw [waiting, List.erase_cons_tail (by simpa using different)] at erased
            cases erased
    rcases tracks.latest thread [] only with ⟨w, busy, told⟩
    rw [storing] at busy
    cases busy
    intro key listed
    rcases told key listed with ⟨old, received⟩
    have known : (var.store thread v).received key = some (old, v) := received
    rw [known]
    rfl
  · intro latest rest left
    have erased : var.waiting.erase thread = latest :: rest := left
    rcases last with only | other
    · rw [only] at erased
      simp at erased
    · cases waiting : var.waiting with
      | nil =>
          rw [waiting] at erased
          cases erased
      | cons first others =>
          have different : first ≠ thread := by simpa [waiting] using other
          rw [waiting, List.erase_cons_tail (by simpa using different)] at erased
          have same : first = latest := (List.cons.inj erased).1
          subst same
          rcases tracks.latest first others waiting with ⟨w, busy, told⟩
          exact ⟨w, by simpa [ConfigVar.store, ConfigVar.enter, different] using busy, told⟩

end Steps

theorem path_tracks [DecidableEq T] {start var : ConfigVar T} (quiet : start.Quiet)
    (path : Path configVar LatestStoresLast start var) : Tracks start var := by
  refine path.invariant (Tracks start) ?_ (tracks_quiet quiet)
  intro before act after tracks allowed moved
  cases act with
  | compare thread v =>
      simp only [configVar, ConfigVar.act] at moved
      split at moved
      · rename_i idle
        cases moved
        exact tracks_compare tracks idle v
      · cases moved
  | notify thread =>
      simp only [configVar, ConfigVar.act] at moved
      split at moved
      · rename_i v comparing
        cases moved
        exact tracks_notify tracks comparing
      · cases moved
  | store thread =>
      simp only [configVar, ConfigVar.act] at moved
      split at moved
      · rename_i v storing
        split at moved
        · cases moved
          exact tracks_store tracks storing allowed
        · cases moved
      · cases moved

/-- In a run in which the call that notified last stores last, the listeners
agree with the variable once all calls have finished. -/
theorem listeners_coherent [DecidableEq T] {start var : ConfigVar T} (quiet : start.Quiet)
    (path : Path configVar LatestStoresLast start var)
    (finished : ∀ thread, var.phase thread = .idle) : Coherent start var := by
  have tracks := path_tracks quiet path
  apply tracks.settled
  cases waiting : var.waiting with
  | nil => rfl
  | cons thread rest =>
      rcases tracks.latest thread rest waiting with ⟨v, busy, _⟩
      rw [finished thread] at busy
      cases busy

section Runs

def connectTimeout : ConfigVar Int := { m_val := 5000, m_cbs := [1, 2] }

theorem connectTimeout_quiet : connectTimeout.Quiet := ⟨rfl, rfl, fun _ => rfl, fun _ => rfl⟩

def bothNotified : ConfigVar Int :=
  (((connectTimeout.compare 0 1).compare 1 2).notify 0 1).notify 1 2

theorem stored_idle (thread : Nat) (v w : Int) :
    ((bothNotified.store 0 v).store 1 w).phase thread = .idle ∧
      ((bothNotified.store 1 w).store 0 v).phase thread = .idle := by
  by_cases zero : thread = 0
  · subst zero
    exact ⟨rfl, rfl⟩
  · by_cases one : thread = 1
    · subst one
      exact ⟨rfl, rfl⟩
    · simp [bothNotified, connectTimeout, ConfigVar.compare, ConfigVar.notify, ConfigVar.store,
        ConfigVar.enter, zero, one]

theorem listeners_coherent_run : Coherent connectTimeout ((bothNotified.store 0 1).store 1 2) := by
  have follows : Follows configVar LatestStoresLast connectTimeout
      [.compare 0 1, .compare 1 2, .notify 0, .notify 1, .store 0, .store 1] := by decide
  exact listeners_coherent connectTimeout_quiet (path_of_follows follows rfl)
    fun thread => (stored_idle thread 1 2).1

/-- They store in the other order. -/
theorem listeners_diverge :
    ¬ ∀ start var : ConfigVar Int, start.Quiet → Path configVar anyStep start var →
      (∀ thread, var.phase thread = .idle) → Coherent start var := by
  intro all
  have follows : Follows configVar anyStep connectTimeout
      [.compare 0 1, .compare 1 2, .notify 0, .notify 1, .store 1, .store 0] := by decide
  have coherent := all connectTimeout ((bothNotified.store 1 2).store 0 1) connectTimeout_quiet
    (path_of_follows follows rfl) fun thread => (stored_idle thread 1 2).2
  have agree : (2 : Int) = 1 := coherent 1 (by decide)
  exact absurd agree (by decide)

end Runs

end Ztyco.Configuration
