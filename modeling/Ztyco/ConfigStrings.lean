import Mathlib.Algebra.Ring.Nat

/-!
`ConfigVar::fromString` of config.h, by one thread. The conversion and every
listener may throw, and one `catch` around both the conversion and `setValue`
takes what they throw. The listeners are called before the value is stored.
-/

namespace Ztyco.Configuration

universe u
variable {T : Type u}

/-- An entry of `m_cbs`, and for which values its callback throws. -/
structure Listener (T : Type u) where
  key : UInt64
  throws : T → T → Bool

structure Notified (T : Type u) where
  key : UInt64
  old : T
  new : T
  deriving DecidableEq, Repr

structure Variable (T : Type u) where
  m_val : T
  m_cbs : List (Listener T) := []

/-- What a call has done: what it returned, if it returned, and whom it has called. -/
structure Outcome (T : Type u) (Ret : Type) where
  ret : Option Ret
  var : Variable T
  notified : List (Notified T) := []

def Listener.called (old new : T) (listener : Listener T) : Notified T :=
  ⟨listener.key, old, new⟩

/-- `for (auto &it : m_cbs) it.second(m_val, v)`: the calls made, and whether
the last one has thrown. -/
def callAll (old new : T) : List (Listener T) → List (Notified T) × Bool
  | [] => ([], false)
  | listener :: rest =>
      if listener.throws old new then ([listener.called old new], true)
      else
        let (notified, threw) := callAll old new rest
        (listener.called old new :: notified, threw)

namespace Variable

def setValue [DecidableEq T] (var : Variable T) (v : T) : Outcome T Unit :=
  if v = var.m_val then { ret := some (), var := var } else
  match callAll var.m_val v var.m_cbs with
  | (notified, true) => { ret := none, var := var, notified := notified }
  | (notified, false) =>
      { ret := some (), var := { var with m_val := v }, notified := notified }

/-- `FromStr` is `none` where it throws. -/
def fromString [DecidableEq T] (FromStr : List Char → Option T) (var : Variable T)
    (val : List Char) : Outcome T Bool :=
  match FromStr val with
  | none => { ret := some false, var := var }
  | some v =>
      let done := var.setValue v
      -- caught or not, the function comes to its last line
      { ret := some false, var := done.var, notified := done.notified }

end Variable

/-- What is asked of a call: it returns true exactly where the value converted
is the one stored, calls every listener once where the stored value has changed
and none where it has not, and has told none of a value that is not stored. -/
def AllOrNothing (converted : Option T) (before : Variable T) (done : Outcome T Bool) : Prop :=
  (done.ret = some true ↔ converted = some done.var.m_val) ∧
    (done.var.m_val ≠ before.m_val →
      done.notified = before.m_cbs.map (·.called before.m_val done.var.m_val)) ∧
    (done.var.m_val = before.m_val → done.notified = []) ∧
    ∀ call ∈ done.notified, call.new = done.var.m_val

/-! What a call does. -/

theorem callAll_cases (old new : T) (m_cbs : List (Listener T)) :
    (callAll old new m_cbs = (m_cbs.map (·.called old new), false) ∧
      ∀ listener ∈ m_cbs, listener.throws old new = false) ∨
    ∃ before listener after, m_cbs = before ++ listener :: after ∧
      listener.throws old new = true ∧
      callAll old new m_cbs = ((before ++ [listener]).map (·.called old new), true) := by
  induction m_cbs with
  | nil => exact Or.inl ⟨rfl, fun _ mem => absurd mem List.not_mem_nil⟩
  | cons first rest ih =>
      cases throws : first.throws old new with
      | true => exact Or.inr ⟨[], first, rest, rfl, throws, by simp [callAll, throws]⟩
      | false =>
          rcases ih with ⟨all, quiet⟩ | ⟨before, listener, after, rfl, threw, some⟩
          · refine Or.inl ⟨by simp [callAll, throws, all], ?_⟩
            exact List.forall_mem_cons.mpr ⟨throws, quiet⟩
          · exact Or.inr ⟨first :: before, listener, after, rfl, threw,
              by simp [callAll, throws, some]⟩

/-- The value is the same, it is stored after every listener has been called, or
a listener has thrown after some have been called. -/
theorem setValue_cases [DecidableEq T] (var : Variable T) (v : T) :
    (v = var.m_val ∧ var.setValue v = { ret := some (), var := var }) ∨
    (v ≠ var.m_val ∧ var.setValue v =
      { ret := some (), var := { var with m_val := v }
        notified := var.m_cbs.map (·.called var.m_val v) }) ∨
    (v ≠ var.m_val ∧ ∃ before listener after, var.m_cbs = before ++ listener :: after ∧
      listener.throws var.m_val v = true ∧ var.setValue v =
        { ret := none, var := var
          notified := (before ++ [listener]).map (·.called var.m_val v) }) := by
  by_cases same : v = var.m_val
  · exact Or.inl ⟨same, by simp [Variable.setValue, same]⟩
  · rcases callAll_cases var.m_val v var.m_cbs with ⟨all, _⟩ |
      ⟨before, listener, after, split, throws, some⟩
    · exact Or.inr (Or.inl ⟨same, by simp [Variable.setValue, same, all]⟩)
    · refine Or.inr (Or.inr ⟨same, before, listener, after, split, throws, ?_⟩)
      simp [Variable.setValue, same, some]

theorem fromString_ret [DecidableEq T] (FromStr : List Char → Option T) (var : Variable T)
    (val : List Char) : (var.fromString FromStr val).ret = some false := by
  unfold Variable.fromString
  cases FromStr val with
  | none => rfl
  | some v => rfl

theorem all_or_nothing_iff [DecidableEq T] (FromStr : List Char → Option T) (var : Variable T)
    (val : List Char) :
    AllOrNothing (FromStr val) var (var.fromString FromStr val) ↔ FromStr val = none := by
  have never := fromString_ret FromStr var val
  cases converted : FromStr val with
  | none =>
      refine iff_of_true ⟨?_, ?_, ?_, ?_⟩ rfl
      · simp [never]
      · simp [Variable.fromString, converted]
      · simp [Variable.fromString, converted]
      · simp [Variable.fromString, converted]
  | some v =>
      refine iff_of_false (fun property => ?_) (by simp)
      obtain ⟨told, _, quiet, _⟩ := property
      have other : v ≠ (var.fromString FromStr val).var.m_val := by
        intro same
        have stored := told.mpr (congrArg some same)
        rw [never] at stored
        cases stored
      simp only [Variable.fromString, converted] at other quiet
      rcases setValue_cases var v with ⟨same, done⟩ | ⟨_, done⟩ |
        ⟨_, before, listener, after, _, _, done⟩
      · rw [done] at other
        exact other same
      · rw [done] at other
        exact other rfl
      · rw [done] at quiet
        simp at quiet

def listened (throws : Bool) : Variable Nat :=
  { m_val := 0, m_cbs := [⟨1, fun _ _ => false⟩, ⟨2, fun _ _ => throws⟩] }

def setOne (throws : Bool) : Outcome Nat Bool :=
  (listened throws).fromString (fun val => if val = ['1'] then some 1 else none) ['1']

/-- The value is stored and the call returns false; with a listener that throws,
two listeners have been told of a value that is not stored. -/
theorem stored_returns_false :
    ((setOne false).var.m_val = 1 ∧ (setOne false).ret = some false ∧
      ¬ AllOrNothing (some 1) (listened false) (setOne false)) ∧
    (setOne true).var.m_val = 0 ∧ (setOne true).notified = [⟨1, 0, 1⟩, ⟨2, 0, 1⟩] ∧
      ¬ AllOrNothing (some 1) (listened true) (setOne true) := by
  refine ⟨⟨by decide, by decide, ?_⟩, by decide, by decide, ?_⟩
  · rintro ⟨told, _⟩
    exact absurd (told.mpr (by decide)) (by decide)
  · rintro ⟨_, _, quiet, _⟩
    exact absurd (quiet (by decide)) (by decide)

end Ztyco.Configuration
