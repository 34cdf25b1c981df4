import Mathlib.Logic.Function.Basic
import Mathlib.Logic.Relation

/-!
Labelled transition systems with a partial step function. A run is a path all
of whose steps meet a condition on the state before the step and the action
taken there, so one machine serves both the unrestricted runs of a component
and the runs that stay clear of one of its branches. Invariants are carried
along paths once, here; a finer machine is related to a coarser one by giving
a path for each of its steps.
-/

namespace Ztyco.Transition

universe u v w
variable {State : Type u} {Action : Type v}

structure Machine (State : Type u) (Action : Type v) where
  initial : State → Prop
  step : State → Action → Option State

def anyStep : State → Action → Prop := fun _ _ => True

instance anyStep.decidable (state : State) (action : Action) : Decidable (anyStep state action) :=
  .isTrue trivial

inductive Path (machine : Machine State Action) (allowed : State → Action → Prop) :
    State → State → Prop where
  | refl (state) : Path machine allowed state state
  | next {before middle after} (action) : Path machine allowed before middle →
      allowed middle action → machine.step middle action = some after →
      Path machine allowed before after

def Reach (machine : Machine State Action) (allowed : State → Action → Prop)
    (state : State) : Prop :=
  ∃ start, machine.initial start ∧ Path machine allowed start state

variable {machine : Machine State Action} {allowed : State → Action → Prop}

theorem Path.single {before after : State} (action : Action)
    (admitted : allowed before action) (moved : machine.step before action = some after) :
    Path machine allowed before after :=
  .next action (.refl before) admitted moved

theorem Path.trans {first second third : State} (left : Path machine allowed first second)
    (right : Path machine allowed second third) : Path machine allowed first third := by
  induction right with
  | refl => exact left
  | next action _ admitted moved ih => exact .next action ih admitted moved

theorem Path.mono {weaker : State → Action → Prop}
    (weaken : ∀ state action, allowed state action → weaker state action)
    {before after : State} (path : Path machine allowed before after) :
    Path machine weaker before after := by
  induction path with
  | refl => exact .refl _
  | next action _ admitted moved ih => exact .next action ih (weaken _ action admitted) moved

theorem Path.invariant (inv : State → Prop)
    (preserved : ∀ before action after, inv before → allowed before action →
      machine.step before action = some after → inv after)
    {before after : State} (path : Path machine allowed before after)
    (holds : inv before) : inv after := by
  induction path with
  | refl => exact holds
  | next action _ admitted moved ih => exact preserved _ action _ ih admitted moved

theorem Reach.start {state : State} (initial : machine.initial state) :
    Reach machine allowed state :=
  ⟨state, initial, .refl state⟩

theorem Reach.extend {before after : State} (reached : Reach machine allowed before)
    (path : Path machine allowed before after) : Reach machine allowed after := by
  obtain ⟨start, initial, prior⟩ := reached
  exact ⟨start, initial, prior.trans path⟩

/-- The invariant rule: what holds initially and is preserved by every allowed
step from a reachable state holds in every reachable state. Reachability of
the state before the step lets one invariant use another. -/
theorem Reach.invariant (inv : State → Prop)
    (holds : ∀ state, machine.initial state → inv state)
    (preserved : ∀ before action after, Reach machine allowed before → inv before →
      allowed before action → machine.step before action = some after → inv after)
    {state : State} (reached : Reach machine allowed state) : inv state := by
  obtain ⟨start, initial, path⟩ := reached
  induction path with
  | refl => exact holds start initial
  | next action prior admitted moved ih =>
      exact preserved _ action _ ⟨start, initial, prior⟩ ih admitted moved

/-- A machine is carried over to another one on the same states by a path of
the second for each step of the first. -/
theorem Reach.simulate {Move : Type w} {other : Machine State Move}
    {guard : State → Move → Prop}
    (initials : ∀ state, machine.initial state → other.initial state)
    (paths : ∀ before action after, Reach other guard before → allowed before action →
      machine.step before action = some after → Path other guard before after)
    {state : State} (reached : Reach machine allowed state) : Reach other guard state := by
  obtain ⟨start, initial, path⟩ := reached
  induction path with
  | refl => exact .start (initials start initial)
  | next action _ admitted moved ih => exact ih.extend (paths _ action _ ih admitted moved)

theorem part_cases {Party : Type u} {Part : Type v} [DecidableEq Party] {parts : Party → Part}
    {party other : Party} {part found : Part}
    (reads : Function.update parts party part other = found) :
    other = party ∧ part = found ∨ other ≠ party ∧ parts other = found := by
  by_cases same : other = party
  · subst same
    exact Or.inl ⟨rfl, (Function.update_self other part parts).symm.trans reads⟩
  · exact Or.inr ⟨same, (Function.update_of_ne same part parts).symm.trans reads⟩

/-! Executing a list of actions, for runs on given inputs. -/

def run (machine : Machine State Action) : State → List Action → Option State
  | state, [] => some state
  | state, action :: rest => (machine.step state action).bind fun next => run machine next rest

/-- Every action of the list is enabled and allowed where it is taken. -/
def Follows (machine : Machine State Action) (allowed : State → Action → Prop) :
    State → List Action → Prop
  | _, [] => True
  | state, action :: rest => allowed state action ∧
      ∃ next ∈ machine.step state action, Follows machine allowed next rest

instance Follows.decidable (machine : Machine State Action) (allowed : State → Action → Prop)
    [admits : ∀ state action, Decidable (allowed state action)] :
    (state : State) → (actions : List Action) → Decidable (Follows machine allowed state actions)
  | _, [] => .isTrue trivial
  | state, action :: rest =>
      match taken : machine.step state action with
      | none => .isFalse fun follows => by
          obtain ⟨_, next, moved, _⟩ := follows
          rw [taken] at moved
          cases moved
      | some next =>
          match Follows.decidable machine allowed next rest, admits state action with
          | .isTrue later, .isTrue admitted => .isTrue ⟨admitted, next, taken, later⟩
          | .isFalse later, _ => .isFalse fun follows => by
              obtain ⟨_, other, moved, tail⟩ := follows
              rw [taken] at moved
              cases moved
              exact later tail
          | _, .isFalse refused => .isFalse fun follows => refused follows.1

theorem path_of_follows {state final : State} {actions : List Action}
    (follows : Follows machine allowed state actions)
    (result : run machine state actions = some final) : Path machine allowed state final := by
  induction actions generalizing state with
  | nil =>
      cases result
      exact .refl _
  | cons action rest ih =>
      obtain ⟨admitted, next, moved, later⟩ := follows
      have taken : machine.step state action = some next := moved
      simp only [run, taken, Option.bind_some] at result
      exact (Path.single action admitted taken).trans (ih later result)

theorem reach_of_follows {state final : State} {actions : List Action}
    (initial : machine.initial state) (follows : Follows machine allowed state actions)
    (result : run machine state actions = some final) : Reach machine allowed final :=
  ⟨state, initial, path_of_follows follows result⟩

/-- What holds of every reachable state with a decided property holds at the
end of a list of enabled, allowed actions that ends in such a state. -/
theorem run_meets_where (allowed : State → Action → Prop) {state : State}
    {actions : List Action} {property : State → Prop} (good : State → Bool)
    (initial : machine.initial state) (follows : Follows machine allowed state actions)
    (ends : (run machine state actions).any good = true)
    (holds : ∀ final, Reach machine allowed final → good final = true → property final) :
    ∃ final, run machine state actions = some final ∧ property final := by
  cases result : run machine state actions with
  | none => simp [result] at ends
  | some final =>
      rw [result] at ends
      exact ⟨final, rfl, holds final (reach_of_follows initial follows result) ends⟩

theorem run_meets (allowed : State → Action → Prop) {state : State} {actions : List Action}
    {property : State → Prop} (initial : machine.initial state)
    (follows : Follows machine allowed state actions)
    (ends : (run machine state actions).isSome = true)
    (holds : ∀ final, Reach machine allowed final → property final) :
    ∃ final, run machine state actions = some final ∧ property final := by
  obtain ⟨final, result⟩ := Option.isSome_iff_exists.mp ends
  exact ⟨final, result, holds final (reach_of_follows initial follows result)⟩

/-- A list of enabled, allowed actions whose execution ends in a state with a
decided property gives a reachable state with that property. -/
theorem reach_where (machine : Machine State Action) (allowed : State → Action → Prop)
    (state : State) (actions : List Action) (good : State → Bool)
    (initial : machine.initial state) (follows : Follows machine allowed state actions)
    (ends : (run machine state actions).any good = true) :
    ∃ final, Reach machine allowed final ∧ good final = true := by
  obtain ⟨final, _, reached⟩ := run_meets_where allowed good initial follows ends
    fun final reached ends => And.intro reached ends
  exact ⟨final, reached⟩

end Ztyco.Transition
