import Mathlib.Data.List.Permutation
import Ztyco.FdManager
import Ztyco.SequentialOrder
import Ztyco.Transition

/-!
FdManager shared by threads. `get` takes the lock twice when it creates, so
other calls come between its lookup and its creation; every other call is one
step. The history lists the completed calls with what they returned: a context
is returned as its pointer, and its contents are what the caller reads there.
-/

namespace Ztyco.Descriptors

open EventTable (Ptr)
open SequentialOrder Transition

abbrev ThreadId := Nat

inductive Setting where
  | userNonblock (v : Bool)
  | sysNonblock (v : Bool)
  | timeout (type : Int32) (v : UInt64)
  deriving DecidableEq, Repr

def Setting.apply (ctx : FdCtx) : Setting → FdCtx
  | .userNonblock v => { ctx with m_userNonblock := v }
  | .sysNonblock v => { ctx with m_sysNonblock := v }
  | .timeout type v => ctx.setTimeout type v

inductive Completed where
  | get (fd : Int32) (auto_create : Bool) (result : Option (Ptr × FdCtx))
  | del (fd : Int32)
  | set (p : Ptr) (setting : Setting)
  deriving DecidableEq, Repr

structure SharedManager where
  fdMgr : FdManager := {}
  kernel : Kernel := {}
  creating : ThreadId → Option Int32 := fun _ => none
  history : List Completed := []

inductive Act where
  | get (thread : ThreadId) (fd : Int32) (auto_create : Bool)
  | create (thread : ThreadId)
  | del (thread : ThreadId) (fd : Int32)
  | set (thread : ThreadId) (p : Ptr) (setting : Setting)
  deriving DecidableEq, Repr

def Act.thread : Act → ThreadId
  | .get thread _ _ | .create thread | .del thread _ | .set thread _ _ => thread

namespace SharedManager

def seen (mgr : FdManager) (p : Ptr) : Ptr × FdCtx := (p, mgr.heap p)

def complete (shared : SharedManager) (call : Completed) : SharedManager :=
  { shared with history := shared.history ++ [call] }

/-- `get` up to the release of the read lock. -/
def get (shared : SharedManager) (thread : ThreadId) (fd : Int32) (auto_create : Bool) :
    Option SharedManager :=
  match shared.fdMgr.lookup fd auto_create with
  | .answered ctx => some (shared.complete (.get fd auto_create (ctx.map (seen shared.fdMgr))))
  | .missing =>
      some { shared with creating := Function.update shared.creating thread (some fd) }
  | .outOfBounds => none

/-- The rest of `get`, under the write lock. -/
def create (shared : SharedManager) (thread : ThreadId) (fd : Int32) : Option SharedManager :=
  (shared.fdMgr.create fd shared.kernel).map fun (p, fdMgr, kernel) =>
    complete { shared with
      fdMgr := fdMgr
      kernel := kernel
      creating := Function.update shared.creating thread none } (.get fd true (seen fdMgr p))

def del (shared : SharedManager) (fd : Int32) : Option SharedManager :=
  (shared.fdMgr.del fd).map fun fdMgr => complete { shared with fdMgr := fdMgr } (.del fd)

def set (shared : SharedManager) (p : Ptr) (setting : Setting) : Option SharedManager :=
  if p < shared.fdMgr.allocated then
    let fdMgr := shared.fdMgr.store p (setting.apply (shared.fdMgr.heap p))
    some (complete { shared with fdMgr := fdMgr } (.set p setting))
  else none

/-- A thread makes one call at a time, on an fd from 0 on. -/
def act (shared : SharedManager) : Act → Option SharedManager
  | .get thread fd auto_create =>
      if shared.creating thread = none ∧ 0 ≤ fd then shared.get thread fd auto_create else none
  | .create thread => (shared.creating thread).bind (shared.create thread)
  | .del thread fd => if shared.creating thread = none ∧ 0 ≤ fd then shared.del fd else none
  | .set thread p setting => if shared.creating thread = none then shared.set p setting else none

end SharedManager

def sharedManager : Machine SharedManager Act where
  initial shared := shared.fdMgr = {} ∧ shared.creating = (fun _ => none) ∧ shared.history = []
  step := SharedManager.act

/-! The map the manager is meant to be. -/

abbrev FdMap := Int32 → Option (Ptr × FdCtx)

def FdMap.empty : FdMap := fun _ => none

def FdMap.Does (kernel : Kernel) (map : FdMap) : Completed → FdMap → Prop
  | .get fd auto_create result, after =>
      match map fd with
      | some entry => result = some entry ∧ after = map
      | none =>
          if auto_create then
            ∃ p, (∀ other entry, map other = some entry → entry.1 ≠ p) ∧
              result = some (p, (FdCtx.constructed fd kernel).1) ∧
              after = Function.update map fd result
          else result = none ∧ after = map
  | .del fd, after => after = Function.update map fd none
  | .set p setting, after => after = fun fd => (map fd).map fun (q, ctx) =>
      if q = p then (q, setting.apply ctx) else (q, ctx)

def settled (p : Ptr) : FdCtx → List Completed → FdCtx
  | ctx, [] => ctx
  | ctx, .set q setting :: rest => settled p (if q = p then setting.apply ctx else ctx) rest
  | ctx, _ :: rest => settled p ctx rest

/-- The results are those of a map, and until a number is deleted every `get`
of it returns one context, with the settings made through its pointer. -/
structure ActsAsMap (kernel : Kernel) (history : List Completed) : Prop where
  sequential : Sequential (FdMap.Does kernel) .empty history
  kept : ∀ earlier middle later fd auto_create auto_create' p ctx result,
    history = earlier ++ .get fd auto_create (some (p, ctx)) ::
      (middle ++ .get fd auto_create' result :: later) →
    .del fd ∉ middle → result = some (p, settled p ctx middle)

section Map
variable {kernel : Kernel} {map after : FdMap} {fd : Int32} {p : Ptr} {ctx : FdCtx}

theorem does_get_found {auto_create : Bool} {result : Option (Ptr × FdCtx)}
    (present : map fd = some (p, ctx)) (done : map.Does kernel (.get fd auto_create result) after) :
    result = some (p, ctx) ∧ after = map := by
  simpa only [FdMap.Does, present] using done

theorem does_get_entry {auto_create : Bool}
    (done : map.Does kernel (.get fd auto_create (some (p, ctx))) after) :
    after fd = some (p, ctx) := by
  cases present : map fd with
  | some entry =>
      rcases does_get_found present done with ⟨same, rfl⟩
      rw [present, same]
  | none =>
      simp only [FdMap.Does, present] at done
      split at done
      · rcases done with ⟨_, _, _, rfl⟩
        exact Function.update_self _ _ _
      · cases done.1

/-- A call that does not delete the number keeps its context. -/
theorem does_keeps {call : Completed} (present : map fd = some (p, ctx)) (other : call ≠ .del fd)
    (done : map.Does kernel call after) : after fd = some (p, settled p ctx [call]) := by
  cases call with
  | get fd' auto_create result =>
      simp only [FdMap.Does] at done
      split at done
      · rw [done.2]
        exact present
      · rename_i absent
        split at done
        · rcases done with ⟨_, _, _, rfl⟩
          have different : fd ≠ fd' := by
            rintro rfl
            rw [absent] at present
            cases present
          rw [Function.update_of_ne different]
          exact present
        · rw [done.2]
          exact present
  | del fd' =>
      have different : fd ≠ fd' := by
        rintro rfl
        exact other rfl
      rw [done, Function.update_of_ne different]
      exact present
  | set q setting =>
      rw [done]
      simp only [present, Option.map_some, settled]
      by_cases same : q = p
      · simp [same]
      · simp [same, Ne.symm same]

theorem settled_cons (p : Ptr) (ctx : FdCtx) (call : Completed) (rest : List Completed) :
    settled p ctx (call :: rest) = settled p (settled p ctx [call]) rest := by
  cases call <;> rfl

theorem replays_keeps {calls : List Completed} (present : map fd = some (p, ctx))
    (undeleted : .del fd ∉ calls) (replays : Replays (FdMap.Does kernel) map calls after) :
    after fd = some (p, settled p ctx calls) := by
  induction calls generalizing map ctx with
  | nil =>
      cases replays
      exact present
  | cons call rest ih =>
      rcases replays with ⟨middle, done, later⟩
      rw [List.mem_cons, not_or] at undeleted
      rw [settled_cons]
      exact ih (does_keeps present (Ne.symm undeleted.1) done) undeleted.2 later

theorem actsAsMap_of_replays {history : List Completed}
    (replays : Replays (FdMap.Does kernel) .empty history after) : ActsAsMap kernel history := by
  constructor
  · exact ⟨history, after, List.Perm.refl history, replays⟩
  · intro earlier middle later fd auto_create auto_create' p ctx result split undeleted
    rw [split, replays_append] at replays
    rcases replays with ⟨_, _, first, got, replays⟩
    rw [replays_append] at replays
    rcases replays with ⟨second, between, third, again, _⟩
    have kept := replays_keeps (does_get_entry got) undeleted between
    exact (does_get_found kept again).1

end Map

/-! The manager mirrors the map as long as no context is created over another. -/

/-- The slot is still empty when the creation comes to it, and the table keeps a
size that is an int. -/
def CreatesOnce (shared : SharedManager) : Act → Prop
  | .create thread => ∀ fd, shared.creating thread = some fd →
      shared.fdMgr.context fd = none ∧ Small fd
  | _ => True

def FdManager.view (mgr : FdManager) : FdMap := fun fd =>
  if 0 ≤ fd then (mgr.context fd).map (SharedManager.seen mgr) else none

structure Mirrored (shared : SharedManager) : Prop where
  tabled : shared.fdMgr.Tabled
  allocated : ∀ fd p, 0 ≤ fd → shared.fdMgr.context fd = some p → p < shared.fdMgr.allocated
  nonneg : ∀ thread fd, shared.creating thread = some fd → 0 ≤ fd
  replays : Replays (FdMap.Does shared.kernel) .empty shared.history shared.fdMgr.view

section View
variable {mgr : FdManager} {fd : Int32}

theorem view_nonneg (nonneg : 0 ≤ fd) :
    mgr.view fd = (mgr.context fd).map (SharedManager.seen mgr) := if_pos nonneg

theorem view_create {after : FdManager} {ctx : FdCtx} (nonneg : 0 ≤ fd)
    (allocated : ∀ other p, 0 ≤ other → mgr.context other = some p → p < mgr.allocated)
    (heap : after.heap = Function.update mgr.heap mgr.allocated ctx)
    (contexts : ∀ other, 0 ≤ other →
      after.context other = if other = fd then some mgr.allocated else mgr.context other) :
    after.view = Function.update mgr.view fd (some (mgr.allocated, ctx)) := by
  funext other
  by_cases valid : 0 ≤ other
  · by_cases same : other = fd
    · subst same
      rw [view_nonneg valid, contexts other valid, if_pos rfl, Function.update_self]
      simp [SharedManager.seen, heap]
    · rw [view_nonneg valid, contexts other valid, if_neg same, Function.update_of_ne same,
        view_nonneg valid]
      cases present : mgr.context other with
      | none => rfl
      | some p =>
          have old : p ≠ mgr.allocated := Nat.ne_of_lt (allocated other p valid present)
          simp [SharedManager.seen, heap, old]
  · have different : other ≠ fd := by
      rintro rfl
      exact valid nonneg
    rw [Function.update_of_ne different, FdManager.view, FdManager.view, if_neg valid, if_neg valid]

theorem view_del {after : FdManager} (nonneg : 0 ≤ fd) (heap : after.heap = mgr.heap)
    (contexts : ∀ other, 0 ≤ other →
      after.context other = if other = fd then none else mgr.context other) :
    after.view = Function.update mgr.view fd none := by
  funext other
  by_cases same : other = fd
  · subst same
    rw [view_nonneg nonneg, contexts other nonneg, if_pos rfl, Function.update_self]
    rfl
  · rw [Function.update_of_ne same, FdManager.view, FdManager.view]
    split
    · rename_i valid
      have contents : SharedManager.seen after = SharedManager.seen mgr := by
        funext p
        rw [SharedManager.seen, heap]
        rfl
      rw [contexts other valid, if_neg same, contents]
    · rfl

theorem view_store (p : Ptr) (setting : Setting) :
    (mgr.store p (setting.apply (mgr.heap p))).view = fun fd => (mgr.view fd).map fun (q, ctx) =>
      if q = p then (q, setting.apply ctx) else (q, ctx) := by
  funext other
  simp only [FdManager.view]
  split
  · have unmoved : (mgr.store p (setting.apply (mgr.heap p))).context other = mgr.context other :=
      rfl
    rw [unmoved]
    cases mgr.context other with
    | none => rfl
    | some q =>
        by_cases same : q = p
        · subst same
          simp [SharedManager.seen, FdManager.store]
        · simp [SharedManager.seen, FdManager.store, same]
  · rfl

end View

section Calls
variable {shared after : SharedManager} {thread : ThreadId} {fd : Int32}

theorem Mirrored.complete {call : Completed} {fdMgr : FdManager} (mirrored : Mirrored shared)
    (creating : ThreadId → Option Int32) (tabled : fdMgr.Tabled)
    (allocated : ∀ fd p, 0 ≤ fd → fdMgr.context fd = some p → p < fdMgr.allocated)
    (nonneg : ∀ thread fd, creating thread = some fd → 0 ≤ fd)
    (does : shared.fdMgr.view.Does shared.kernel call fdMgr.view) :
    Mirrored (SharedManager.complete ⟨fdMgr, shared.kernel, creating, shared.history⟩ call) :=
  ⟨tabled, allocated, nonneg, mirrored.replays.snoc does⟩

theorem mirrored_get {auto_create : Bool} (mirrored : Mirrored shared) (nonneg : 0 ≤ fd)
    (called : shared.get thread fd auto_create = some after) : Mirrored after := by
  unfold SharedManager.get at called
  rw [FdManager.lookup_eq mirrored.tabled nonneg] at called
  cases present : shared.fdMgr.context fd with
  | some p =>
      rw [present] at called
      cases called
      refine mirrored.complete shared.creating mirrored.tabled mirrored.allocated mirrored.nonneg ?_
      simp only [FdMap.Does, view_nonneg nonneg, present, Option.map_some, and_self]
  | none =>
      rw [present] at called
      cases auto_create with
      | true =>
          cases called
          refine ⟨mirrored.tabled, mirrored.allocated, ?_, mirrored.replays⟩
          intro other fd' pending
          rcases part_cases pending with ⟨_, started⟩ | ⟨_, before⟩
          · cases started
            exact nonneg
          · exact mirrored.nonneg other fd' before
      | false =>
          cases called
          refine mirrored.complete shared.creating mirrored.tabled mirrored.allocated
            mirrored.nonneg ?_
          simp [FdMap.Does, view_nonneg nonneg, present]

theorem mirrored_create (mirrored : Mirrored shared) (pending : shared.creating thread = some fd)
    (absent : shared.fdMgr.context fd = none) (small : Small fd)
    (called : shared.create thread fd = some after) : Mirrored after := by
  have nonneg := mirrored.nonneg thread fd pending
  rcases FdManager.create_eq mirrored.tabled nonneg shared.kernel with
    ⟨mgr, created, size, heap, allocated, contexts⟩
  rw [SharedManager.create, created, constructed_kernel] at called
  cases called
  have view := view_create nonneg mirrored.allocated heap contexts
  refine mirrored.complete (Function.update shared.creating thread none)
    (FdManager.tabled_created mirrored.tabled nonneg small size) ?_ ?_ ?_
  · intro other p valid present
    rw [contexts other valid] at present
    rw [allocated]
    split at present
    · cases present
      exact Nat.lt_succ_self _
    · exact Nat.lt_succ_of_lt (mirrored.allocated other p valid present)
  · intro other fd' still
    rcases part_cases still with ⟨_, ended⟩ | ⟨_, before⟩
    · cases ended
    · exact mirrored.nonneg other fd' before
  · have contents : SharedManager.seen mgr shared.fdMgr.allocated =
        (shared.fdMgr.allocated, (FdCtx.constructed fd shared.kernel).1) := by
      simp [SharedManager.seen, heap]
    simp only [FdMap.Does, view_nonneg nonneg, absent, Option.map_none, ↓reduceIte, contents]
    refine ⟨shared.fdMgr.allocated, ?_, rfl, view⟩
    intro other entry present
    rw [FdManager.view] at present
    split at present
    · rename_i valid
      rcases Option.map_eq_some_iff.mp present with ⟨p, known, rfl⟩
      exact Nat.ne_of_lt (mirrored.allocated other p valid known)
    · cases present

theorem mirrored_del (mirrored : Mirrored shared) (nonneg : 0 ≤ fd)
    (called : shared.del fd = some after) : Mirrored after := by
  rcases FdManager.del_eq mirrored.tabled nonneg with
    ⟨mgr, deleted, tabled, heap, allocated, contexts⟩
  rw [SharedManager.del, deleted] at called
  cases called
  refine mirrored.complete shared.creating tabled ?_ mirrored.nonneg (view_del nonneg heap contexts)
  intro other p valid present
  rw [contexts other valid] at present
  rw [allocated]
  split at present
  · cases present
  · exact mirrored.allocated other p valid present

theorem mirrored_set {p : Ptr} {setting : Setting} (mirrored : Mirrored shared)
    (called : shared.set p setting = some after) : Mirrored after := by
  unfold SharedManager.set at called
  split at called
  · cases called
    exact mirrored.complete shared.creating ⟨mirrored.tabled.least, mirrored.tabled.fits⟩
      mirrored.allocated mirrored.nonneg (view_store p setting)
  · cases called

end Calls

theorem reach_mirrored {shared : SharedManager}
    (reached : Reach sharedManager CreatesOnce shared) : Mirrored shared := by
  apply reached.invariant Mirrored
  · rintro state ⟨manager, creating, history⟩
    refine ⟨?_, ?_, ?_, ?_⟩
    · rw [manager]
      exact FdManager.tabled_empty
    · intro fd p _ present
      rw [manager, FdManager.context_empty] at present
      cases present
    · intro thread fd pending
      rw [creating] at pending
      cases pending
    · rw [history, manager]
      funext fd
      rw [FdManager.view, FdManager.context_empty]
      split <;> rfl
  · intro before act after _ mirrored allowed moved
    cases act with
    | get thread fd auto_create =>
        simp only [sharedManager, SharedManager.act] at moved
        split at moved
        · rename_i able
          exact mirrored_get mirrored able.2 moved
        · cases moved
    | create thread =>
        rcases Option.bind_eq_some_iff.mp moved with ⟨fd, pending, called⟩
        rcases allowed fd pending with ⟨absent, small⟩
        exact mirrored_create mirrored pending absent small called
    | del thread fd =>
        simp only [sharedManager, SharedManager.act] at moved
        split at moved
        · rename_i able
          exact mirrored_del mirrored able.2 moved
        · cases moved
    | set thread p setting =>
        simp only [sharedManager, SharedManager.act] at moved
        split at moved
        · exact mirrored_set mirrored moved
        · cases moved

/-- No call of such a run leaves the table: a thread that is not creating may
make any call, and one that is creating finishes. -/
theorem calls_enabled {shared : SharedManager} (mirrored : Mirrored shared) {thread : ThreadId}
    {fd : Int32} (nonneg : 0 ≤ fd) :
    (shared.creating thread = none → ∀ auto_create,
      (shared.act (.get thread fd auto_create)).isSome = true ∧
        (shared.act (.del thread fd)).isSome = true) ∧
      (shared.creating thread = some fd → (shared.act (.create thread)).isSome = true) := by
  constructor
  · intro idle auto_create
    constructor
    · simp only [SharedManager.act, idle, nonneg, and_self, ↓reduceIte, SharedManager.get,
        FdManager.lookup_eq mirrored.tabled nonneg]
      cases shared.fdMgr.context fd <;> cases auto_create <;> rfl
    · rcases FdManager.del_eq mirrored.tabled nonneg with ⟨mgr, deleted, _⟩
      simp [SharedManager.act, idle, nonneg, SharedManager.del, deleted]
  · intro pending
    rcases FdManager.create_eq mirrored.tabled nonneg shared.kernel with ⟨mgr, created, _⟩
    simp [SharedManager.act, pending, SharedManager.create, created]

/-- In a run that creates no context over another, FdManager is one map. -/
theorem manager_acts_as_map {shared : SharedManager}
    (reached : Reach sharedManager CreatesOnce shared) :
    ActsAsMap shared.kernel shared.history :=
  actsAsMap_of_replays (reach_mirrored reached).replays

instance CreatesOnce.decidable (shared : SharedManager) :
    (act : Act) → Decidable (CreatesOnce shared act)
  | .create thread =>
      match pending : shared.creating thread with
      | none => .isTrue fun fd known => by
          rw [pending] at known
          cases known
      | some fd =>
          if once : shared.fdMgr.context fd = none ∧ Small fd then
            .isTrue fun other known => by
              rw [pending] at known
              cases known
              exact once
          else .isFalse fun all => once (all fd pending)
  | .get .. | .del .. | .set .. => .isTrue trivial

theorem manager_acts_as_map_run :
    ∃ shared, run sharedManager {} [.get 0 70 true, .get 1 70 false, .create 0,
        .set 1 0 (.timeout SO_RCVTIMEO 3000), .get 1 70 true, .del 0 70, .get 1 70 false] =
          some shared ∧ ActsAsMap shared.kernel shared.history :=
  run_meets CreatesOnce ⟨rfl, rfl, rfl⟩ (by decide) (by decide)
    fun _ reached => manager_acts_as_map reached

/-- In neither order does a map return two contexts for one number. -/
theorem not_sequential {kernel : Kernel} {fd : Int32} {p q : Ptr} {ctx ctx' : FdCtx}
    (different : p ≠ q) : ¬ Sequential (FdMap.Does kernel) .empty
      [.get fd true (some (p, ctx)), .get fd true (some (q, ctx'))] := by
  rintro ⟨order, final, permuted, replays⟩
  rcases List.perm_pair.mp permuted with rfl | rfl
  · rcases replays with ⟨_, first, _, second, _⟩
    have again := (does_get_found (does_get_entry first) second).1
    simp only [Option.some_inj, Prod.mk.injEq] at again
    exact different again.1.symm
  · rcases replays with ⟨_, first, _, second, _⟩
    have again := (does_get_found (does_get_entry first) second).1
    simp only [Option.some_inj, Prod.mk.injEq] at again
    exact different again.1

def twoContexts (shared : SharedManager) (fd : Int32) : Bool :=
  match shared.history with
  | [.get fd₁ true (some (p, _)), .get fd₂ true (some (q, _))] => fd₁ = fd ∧ fd₂ = fd ∧ p ≠ q
  | _ => false

/-- Both threads look the number up before either creates its context. -/
theorem manager_forgets_context :
    ¬ ∀ shared : SharedManager, Reach sharedManager anyStep shared →
      ActsAsMap shared.kernel shared.history := by
  intro all
  rcases reach_where sharedManager anyStep {}
      [.get 0 5 true, .get 1 5 true, .create 0, .create 1]
      (fun shared => twoContexts shared 5) ⟨rfl, rfl, rfl⟩ (by decide) (by decide) with
    ⟨shared, reached, ends⟩
  have sequential := (all shared reached).sequential
  unfold twoContexts at ends
  split at ends
  · rename_i history
    rw [history] at sequential
    rcases of_decide_eq_true ends with ⟨rfl, rfl, different⟩
    exact not_sequential different sequential
  · cases ends

end Ztyco.Descriptors
