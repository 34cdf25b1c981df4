import Mathlib.Data.Finset.Lattice.Fold
import Mathlib.Data.Finset.Range
import Mathlib.Logic.Relation
import Ztyco.Transition

/-!
Threads that take and release locks in nested scopes, mutexes and reader-writer locks, in
every interleaving. A script says which scopes a piece of code opens, not what it computes.
Where every script takes locks of rising rank only, a thread that waits waits, over a chain
of holders, for a thread that can go on.
-/

namespace Ztyco.LockOrder

open Transition

universe u

/-- A mutex is always taken exclusively. -/
inductive Mode where
  | shared | exclusive
  deriving DecidableEq, Repr

inductive Script (Lock : Type u) where
  | skip
  | scope (lock : Lock) (mode : Mode) (body : Script Lock)
  | seq (first second : Script Lock)
  | oneOf (branch : Nat → Script Lock)
  | loop (body : Script Lock)

namespace Script
variable {Lock : Type u}

def either (left right : Script Lock) : Script Lock :=
  oneOf fun pick => if pick = 0 then left else right

def perhaps (script : Script Lock) : Script Lock := either skip script

def all : List (Script Lock) → Script Lock
  | [] => skip
  | script :: rest => seq script (all rest)

end Script

/-- What a thread has still to do, the locks it has still to release among it. -/
inductive Item (Lock : Type u) where
  | todo (script : Script Lock)
  | leave (lock : Lock) (mode : Mode)

variable {Lock : Type u}

def held : List (Item Lock) → List (Lock × Mode)
  | [] => []
  | .todo _ :: rest => held rest
  | .leave lock mode :: rest => (lock, mode) :: held rest

def Mode.share : Mode → Mode → Bool
  | .shared, .shared => true
  | _, _ => false

abbrev State (Lock : Type u) := Nat → List (Item Lock)

section Machine
variable [DecidableEq Lock] (count : Nat)

def free (s : State Lock) (lock : Lock) (mode : Mode) : Bool :=
  (List.range count).all fun t =>
    (held (s t)).all fun other => other.1 ≠ lock || mode.share other.2

structure Act where
  thread : Nat
  -- the branch taken, or how often a loop goes round
  pick : Nat
  deriving DecidableEq, Repr

def advance (s : State Lock) (pick : Nat) : List (Item Lock) → Option (List (Item Lock))
  | [] => none
  | .leave _ _ :: rest => some rest
  | .todo .skip :: rest => some rest
  | .todo (.scope lock mode body) :: rest =>
      if free count s lock mode then some (.todo body :: .leave lock mode :: rest) else none
  | .todo (.seq first second) :: rest => some (.todo first :: .todo second :: rest)
  | .todo (.oneOf branch) :: rest => some (.todo (branch pick) :: rest)
  | .todo (.loop body) :: rest =>
      some (if pick = 0 then rest else .todo body :: .todo (.loop body) :: rest)

def step (s : State Lock) (act : Act) : Option (State Lock) :=
  if act.thread < count then
    (advance count s act.pick (s act.thread)).map (Function.update s act.thread)
  else none

def threads (scripts : Nat → List (Script Lock)) : Machine (State Lock) Act where
  initial s := s = fun t => (scripts t).map .todo
  step := step count

end Machine

/-! Ranks. -/

section Ranks
variable (rank : Lock → Nat)

/-- Locks below the floor may be held; every lock taken is at the floor or above it. -/
def Ordered (floor : Nat) : Script Lock → Prop
  | .skip => True
  | .scope lock _ body => floor ≤ rank lock ∧ Ordered (rank lock + 1) body
  | .seq first second => Ordered floor first ∧ Ordered floor second
  | .oneOf branch => ∀ pick, Ordered floor (branch pick)
  | .loop body => Ordered floor body

/-- The floor over the locks that are held. -/
def level : List (Item Lock) → Nat
  | [] => 0
  | .todo _ :: rest => level rest
  | .leave lock _ :: _ => rank lock + 1

def Ranked : List (Item Lock) → Prop
  | [] => True
  | .todo script :: rest => Ordered rank (level rank rest) script ∧ Ranked rest
  | .leave lock _ :: rest => level rank rest ≤ rank lock ∧ Ranked rest

end Ranks

section Order
variable {rank : Lock → Nat}

theorem Ordered.lower {floor lower : Nat} (below : lower ≤ floor) {script : Script Lock}
    (ordered : Ordered rank floor script) : Ordered rank lower script := by
  induction script with
  | skip => trivial
  | scope lock mode body _ => exact ⟨Nat.le_trans below ordered.1, ordered.2⟩
  | seq first second ih ih' => exact ⟨ih ordered.1, ih' ordered.2⟩
  | oneOf branch ih => exact fun pick => ih pick (ordered pick)
  | loop body ih => exact ih ordered

@[simp] theorem ordered_either {floor : Nat} {left right : Script Lock} :
    Ordered rank floor (.either left right) ↔
      Ordered rank floor left ∧ Ordered rank floor right := by
  constructor
  · exact fun ordered => ⟨ordered 0, ordered 1⟩
  · rintro ⟨one, other⟩ pick
    dsimp only
    split
    · exact one
    · exact other

@[simp] theorem ordered_perhaps {floor : Nat} {script : Script Lock} :
    Ordered rank floor (.perhaps script) ↔ Ordered rank floor script :=
  ordered_either.trans ⟨And.right, fun ordered => ⟨trivial, ordered⟩⟩

@[simp] theorem ordered_all {floor : Nat} {scripts : List (Script Lock)} :
    Ordered rank floor (.all scripts) ↔ ∀ script ∈ scripts, Ordered rank floor script := by
  induction scripts with
  | nil => simp [Script.all, Ordered]
  | cons script rest ih => simp [Script.all, Ordered, ih]

theorem held_below {items : List (Item Lock)} (ranked : Ranked rank items)
    {lock : Lock} {mode : Mode} (mem : (lock, mode) ∈ held items) :
    rank lock < level rank items := by
  induction items with
  | nil => cases mem
  | cons item rest ih =>
      cases item with
      | todo script => exact ih ranked.2 mem
      | leave top top_mode =>
          rcases List.mem_cons.mp mem with same | later
          · cases same
            exact Nat.lt_succ_self _
          · exact Nat.lt_succ_of_lt (Nat.lt_of_lt_of_le (ih ranked.2 later) ranked.1)

variable [DecidableEq Lock] {count : Nat}

theorem ranked_advance {s : State Lock} {pick : Nat} {items after : List (Item Lock)}
    (ranked : Ranked rank items) (moved : advance count s pick items = some after) :
    Ranked rank after := by
  match items with
  | [] => cases moved
  | .leave lock mode :: rest =>
      cases moved
      exact ranked.2
  | .todo .skip :: rest =>
      cases moved
      exact ranked.2
  | .todo (.scope lock mode body) :: rest =>
      simp only [advance] at moved
      split at moved
      · cases moved
        exact ⟨ranked.1.2, ranked.1.1, ranked.2⟩
      · cases moved
  | .todo (.seq first second) :: rest =>
      cases moved
      exact ⟨ranked.1.1, ranked.1.2, ranked.2⟩
  | .todo (.oneOf branch) :: rest =>
      cases moved
      exact ⟨ranked.1 pick, ranked.2⟩
  | .todo (.loop body) :: rest =>
      simp only [advance] at moved
      cases moved
      split
      · exact ranked.2
      · exact ⟨ranked.1, ranked.1, ranked.2⟩

theorem ranked_reach {scripts : Nat → List (Script Lock)}
    (ordered : ∀ t, ∀ script ∈ scripts t, Ordered rank 0 script) {s : State Lock}
    (reached : Reach (threads count scripts) anyStep s) (t : Nat) : Ranked rank (s t) := by
  refine reached.invariant (fun s => ∀ t, Ranked rank (s t)) ?_ ?_ t
  · rintro _ rfl t
    have started : ∀ list : List (Script Lock), (∀ script ∈ list, Ordered rank 0 script) →
        Ranked rank (list.map Item.todo) ∧ level rank (list.map Item.todo) = 0 := by
      intro list
      induction list with
      | nil => exact fun _ => ⟨trivial, rfl⟩
      | cons script rest ih =>
          intro each
          rcases ih fun other mem => each other (List.mem_cons_of_mem _ mem) with ⟨ranked, zero⟩
          refine ⟨⟨?_, ranked⟩, zero⟩
          rw [zero]
          exact each script (List.mem_cons_self ..)
    exact (started (scripts t) (ordered t)).1
  · intro before act after _ ranked _ moved u
    simp only [threads, step] at moved
    split at moved
    · rcases Option.map_eq_some_iff.mp moved with ⟨items, advanced, rfl⟩
      by_cases same : u = act.thread
      · subst same
        rw [Function.update_self]
        exact ranked_advance (ranked _) advanced
      · rw [Function.update_of_ne same]
        exact ranked u
    · cases moved

theorem not_free_of_held {s : State Lock} {t : Nat} {lock : Lock} {mode : Mode} (inside : t < count)
    (own : (lock, .exclusive) ∈ held (s t)) : free count s lock mode = false := by
  refine List.all_eq_false.mpr ⟨t, List.mem_range.mpr inside, ?_⟩
  rw [Bool.not_eq_true]
  refine List.all_eq_false.mpr ⟨_, own, ?_⟩
  cases mode with
  | shared | exclusive => simp [Mode.share]

/-- A thread that takes a lock again that it holds stays there. -/
theorem relock_stays {scripts : Nat → List (Script Lock)} {s later : State Lock} {t : Nat}
    {lock : Lock} {mode : Mode} {body : Script Lock} {rest : List (Item Lock)} (inside : t < count)
    (again : s t = .todo (.scope lock mode body) :: rest) (own : (lock, .exclusive) ∈ held rest)
    (path : Path (threads count scripts) anyStep s later) : later t = s t := by
  refine path.invariant (fun later => later t = s t) ?_ rfl
  intro before act after same _ moved
  simp only [threads, step] at moved
  split at moved
  · rcases Option.map_eq_some_iff.mp moved with ⟨items, advanced, rfl⟩
    by_cases mine : t = act.thread
    · subst mine
      have taken : free count before lock mode = false :=
        not_free_of_held inside (by rwa [same, again])
      rw [same, again, advance, taken] at advanced
      cases advanced
    · rw [Function.update_of_ne mine]
      exact same
  · cases moved

/-- A thread that does not go on waits for a lock. -/
theorem advance_none {s : State Lock} {pick : Nat} {items : List (Item Lock)}
    (stays : advance count s pick items = none) (busy : items ≠ []) :
    ∃ lock mode body rest, items = .todo (.scope lock mode body) :: rest ∧
      free count s lock mode = false := by
  match items with
  | [] => exact absurd rfl busy
  | .leave lock mode :: rest => cases stays
  | .todo .skip :: rest => cases stays
  | .todo (.scope lock mode body) :: rest =>
      refine ⟨lock, mode, body, rest, rfl, ?_⟩
      simp only [advance] at stays
      split at stays
      · cases stays
      · rename_i taken
        exact eq_false_of_ne_true taken
  | .todo (.seq first second) :: rest => cases stays
  | .todo (.oneOf branch) :: rest => cases stays
  | .todo (.loop body) :: rest => cases stays

variable (count) in
def WaitsFor (s : State Lock) (t u : Nat) : Prop :=
  u < count ∧ ∃ lock mode body rest other, s t = .todo (.scope lock mode body) :: rest ∧
    (lock, other) ∈ held (s u) ∧ mode.share other = false

theorem holder_of_not_free {s : State Lock} {lock : Lock} {mode : Mode}
    (taken : free count s lock mode = false) :
    ∃ u < count, ∃ other, (lock, other) ∈ held (s u) ∧ mode.share other = false := by
  rcases List.all_eq_false.mp taken with ⟨u, inside, refused⟩
  rcases List.all_eq_false.mp (eq_false_of_ne_true refused) with ⟨⟨name, other⟩, mem, excluded⟩
  by_cases same : name = lock
  · subst same
    exact ⟨u, List.mem_range.mp inside, other, mem, by simpa using excluded⟩
  · exact absurd (by simp [same]) excluded

def wanted (rank : Lock → Nat) : List (Item Lock) → Nat
  | .todo (.scope lock _ _) :: _ => rank lock
  | _ => 0

omit [DecidableEq Lock] in
/-- A holder that waits too waits for a lock of a higher rank. -/
theorem wanted_rises {s : State Lock} {t u : Nat} (ranked : Ranked rank (s u))
    (waits : WaitsFor count s t u) {lock : Lock} {mode : Mode} {body : Script Lock}
    {rest : List (Item Lock)} (too : s u = .todo (.scope lock mode body) :: rest) :
    wanted rank (s t) < wanted rank (s u) := by
  rcases waits with ⟨_, asked, mode', body', rest', other, front, holds, _⟩
  have below := held_below ranked holds
  rw [too] at ranked below ⊢
  rw [front]
  exact Nat.lt_of_lt_of_le below ranked.1.1

/-- Whatever a thread has still to do, over the holders of the locks that are waited for
there is a thread that can go on, whichever branch it takes. -/
theorem some_thread_advances {s : State Lock} (ranked : ∀ t, Ranked rank (s t)) {t : Nat}
    (inside : t < count) (busy : s t ≠ []) :
    ∃ u, Relation.ReflTransGen (WaitsFor count s) t u ∧
      ∀ pick, (step count s ⟨u, pick⟩).isSome = true := by
  -- the ranks asked for rise along the chain and have a bound
  obtain ⟨bound, most⟩ : ∃ bound, ∀ u < count, wanted rank (s u) ≤ bound := by
    refine ⟨(Finset.range count).sup fun u => wanted rank (s u), fun u inside => ?_⟩
    exact Finset.le_sup (f := fun u => wanted rank (s u)) (Finset.mem_range.mpr inside)
  induction room : bound - wanted rank (s t) using Nat.strongRecOn generalizing t with
  | _ room ih =>
      by_cases stays : ∃ pick, advance count s pick (s t) = none
      · rcases stays with ⟨pick, stays⟩
        rcases advance_none stays busy with ⟨lock, mode, body, rest, front, taken⟩
        rcases holder_of_not_free taken with ⟨u, inside_u, other, holds, excluded⟩
        have waits : WaitsFor count s t u :=
          ⟨inside_u, lock, mode, body, rest, other, front, holds, excluded⟩
        have busy_u : s u ≠ [] := by
          intro idle
          rw [idle] at holds
          cases holds
        by_cases stays_u : ∃ pick, advance count s pick (s u) = none
        · rcases stays_u with ⟨pick_u, stays_u⟩
          rcases advance_none stays_u busy_u with ⟨lock_u, mode_u, body_u, rest_u, front_u, _⟩
          have rises := wanted_rises (ranked u) waits front_u
          have most_u := most u inside_u
          rcases ih (bound - wanted rank (s u)) (by omega) inside_u busy_u rfl with
            ⟨v, chain, goes⟩
          exact ⟨v, .head waits chain, goes⟩
        · refine ⟨u, .single waits, fun pick => ?_⟩
          simp only [step, if_pos inside_u, Option.isSome_map, Option.isSome_iff_ne_none]
          exact fun none => stays_u ⟨pick, none⟩
      · refine ⟨t, .refl, fun pick => ?_⟩
        simp only [step, if_pos inside, Option.isSome_map, Option.isSome_iff_ne_none]
        exact fun none => stays ⟨pick, none⟩

end Order

end Ztyco.LockOrder
