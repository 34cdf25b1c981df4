import Mathlib.Data.List.Perm.Basic

/-!
Histories of completed calls, each with its result, against an object that
takes one call after another. `does` relates the object's state before a call
to the state after it, for the result the call had.
-/

namespace Ztyco.SequentialOrder

universe u v
variable {State : Type u} {Call : Type v}

def Replays (does : State → Call → State → Prop) : State → List Call → State → Prop
  | start, [], final => start = final
  | start, call :: rest, final => ∃ middle, does start call middle ∧ Replays does middle rest final

/-- The results are those of some sequential order of the calls. -/
def Sequential (does : State → Call → State → Prop) (start : State) (calls : List Call) : Prop :=
  ∃ order final, order.Perm calls ∧ Replays does start order final

variable {does : State → Call → State → Prop}

theorem replays_append {start final : State} (earlier later : List Call) :
    Replays does start (earlier ++ later) final ↔
      ∃ middle, Replays does start earlier middle ∧ Replays does middle later final := by
  induction earlier generalizing start with
  | nil => simp [Replays]
  | cons call rest ih =>
      simp only [List.cons_append, Replays, ih]
      constructor
      · rintro ⟨next, done, middle, first, second⟩
        exact ⟨middle, ⟨next, done, first⟩, second⟩
      · rintro ⟨middle, ⟨next, done, first⟩, second⟩
        exact ⟨next, done, middle, first, second⟩

theorem Replays.snoc {start middle final : State} {calls : List Call} {call : Call}
    (replays : Replays does start calls middle) (done : does middle call final) :
    Replays does start (calls ++ [call]) final := by
  apply (replays_append calls [call]).mpr
  exact ⟨middle, replays, final, done, rfl⟩

end Ztyco.SequentialOrder
