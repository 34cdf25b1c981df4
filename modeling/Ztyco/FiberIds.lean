import Ztyco.Transition

/-!
How fiber.cc numbers its fibers. A thread's main fiber takes its id from
`s_fiber_id`, every other fiber takes it from `s_fiber_count`, which both
constructors count up and the destructor counts down. Each update of a counter
is a step, so constructors and destructors on any threads may interleave. The
marks and the three totals are read by no operation.
-/

namespace Ztyco.FiberIds

open Transition

abbrev Addr := Nat

/-- What had happened when a fiber got its id: the main fibers numbered before
it, or the increments and decrements of `s_fiber_count`. -/
inductive Mark where
  | main (numbered : Nat)
  | child (ups downs : Nat)
  deriving DecidableEq, Repr

structure Counters where
  s_fiber_id : UInt64 := 0
  s_fiber_count : UInt64 := 0
  m_id : Addr → UInt64 := fun _ => 0
  /-- Main fibers that are counted and not yet numbered. -/
  counted : List Addr := []
  /-- Other fibers that are numbered and not yet counted. -/
  numbered : List Addr := []
  alive : List Addr := []
  mark : Addr → Mark := fun _ => .main 0
  mains : Nat := 0
  ups : Nat := 0
  downs : Nat := 0

inductive Act where
  | mainCount (fiber : Addr)
  | mainId (fiber : Addr)
  | childId (fiber : Addr)
  | childCount (fiber : Addr)
  | destroy (fiber : Addr)
  deriving DecidableEq, Repr

namespace Counters

/-- A constructor runs where no other fiber is. -/
def vacant (counters : Counters) (fiber : Addr) : Bool :=
  fiber ∉ counters.counted && fiber ∉ counters.numbered && fiber ∉ counters.alive

def mainCount (counters : Counters) (fiber : Addr) : Counters :=
  { counters with
    s_fiber_count := counters.s_fiber_count + 1
    counted := fiber :: counters.counted
    ups := counters.ups + 1 }

def mainId (counters : Counters) (fiber : Addr) : Counters :=
  { counters with
    s_fiber_id := counters.s_fiber_id + 1
    m_id := Function.update counters.m_id fiber counters.s_fiber_id
    counted := counters.counted.erase fiber
    alive := fiber :: counters.alive
    mark := Function.update counters.mark fiber (.main counters.mains)
    mains := counters.mains + 1 }

def childId (counters : Counters) (fiber : Addr) : Counters :=
  { counters with
    s_fiber_count := counters.s_fiber_count + 1
    m_id := Function.update counters.m_id fiber (counters.s_fiber_count + 1)
    numbered := fiber :: counters.numbered
    mark := Function.update counters.mark fiber (.child counters.ups counters.downs)
    ups := counters.ups + 1 }

def childCount (counters : Counters) (fiber : Addr) : Counters :=
  { counters with
    s_fiber_count := counters.s_fiber_count + 1
    numbered := counters.numbered.erase fiber
    alive := fiber :: counters.alive
    ups := counters.ups + 1 }

def destroy (counters : Counters) (fiber : Addr) : Counters :=
  { counters with
    s_fiber_count := counters.s_fiber_count - 1
    alive := counters.alive.erase fiber
    downs := counters.downs + 1 }

def guard (counters : Counters) : Act → Bool
  | .mainCount fiber | .childId fiber => counters.vacant fiber
  | .mainId fiber => fiber ∈ counters.counted
  | .childCount fiber => fiber ∈ counters.numbered
  | .destroy fiber => fiber ∈ counters.alive

def effect (counters : Counters) : Act → Counters
  | .mainCount fiber => counters.mainCount fiber
  | .mainId fiber => counters.mainId fiber
  | .childId fiber => counters.childId fiber
  | .childCount fiber => counters.childCount fiber
  | .destroy fiber => counters.destroy fiber

end Counters

def fibers : Machine Counters Act where
  initial counters := counters = {}
  step counters act := if counters.guard act then some (counters.effect act) else none

def Distinct (counters : Counters) : Prop :=
  ∀ fiber ∈ counters.alive, ∀ other ∈ counters.alive, fiber ≠ other →
    counters.m_id fiber ≠ counters.m_id other

/-- Two histories after which fibers are given the same id: the main fibers'
numbers are the same; the increments and decrements of `s_fiber_count` between
two others' marks balance; or the count comes to one less than the number of
main fibers. All of it modulo 2^64. -/
def Mark.Clash : Mark → Mark → Prop
  | .main numbered, .main others => numbered % UInt64.size = others % UInt64.size
  | .child ups downs, .child up down => (ups + down) % UInt64.size = (up + downs) % UInt64.size
  | .main numbered, .child ups downs | .child ups downs, .main numbered =>
      (ups + 1) % UInt64.size = (numbered + downs) % UInt64.size

instance Mark.Clash.decidable : (mark other : Mark) → Decidable (mark.Clash other)
  | .main _, .main _ | .child _ _, .child _ _ | .main _, .child _ _ | .child _ _, .main _ =>
      inferInstanceAs (Decidable (_ = _))

/-- A fiber comes alive only where its mark clashes with no live fiber's. -/
def Apart (counters : Counters) : Act → Prop
  | .mainId _ => ∀ other ∈ counters.alive, ¬ (counters.mark other).Clash (.main counters.mains)
  | .childCount fiber =>
      ∀ other ∈ counters.alive, ¬ (counters.mark other).Clash (counters.mark fiber)
  | .mainCount _ | .childId _ | .destroy _ => True

instance Apart.decidable (counters : Counters) : (act : Act) → Decidable (Apart counters act)
  | .mainId _ => List.decidableBAll _ _
  | .childCount _ => List.decidableBAll _ _
  | .mainCount _ | .childId _ | .destroy _ => .isTrue trivial

/-! Ids from marks. -/

def Mark.id : Mark → UInt64
  | .main numbered => .ofNat numbered
  | .child ups downs => .ofNat ups - .ofNat downs + 1

theorem ofNat_eq_iff (a b : Nat) :
    UInt64.ofNat a = UInt64.ofNat b ↔ a % UInt64.size = b % UInt64.size := by
  rw [← UInt64.toNat_inj, UInt64.toNat_ofNat', UInt64.toNat_ofNat']

theorem Mark.clash_iff (mark other : Mark) : mark.Clash other ↔ mark.id = other.id := by
  cases mark with
  | main numbered =>
      cases other with
      | main others => exact (ofNat_eq_iff numbered others).symm
      | child ups downs =>
          -- in UInt64 a difference is equal where the sums are
          simp only [Mark.Clash, Mark.id, ← ofNat_eq_iff, UInt64.ofNat_add]
          grind
  | child ups downs =>
      cases other with
      | main numbered =>
          simp only [Mark.Clash, Mark.id, ← ofNat_eq_iff, UInt64.ofNat_add]
          grind
      | child up down =>
          simp only [Mark.Clash, Mark.id, ← ofNat_eq_iff, UInt64.ofNat_add]
          grind

structure Marked (counters : Counters) : Prop where
  fiber_id : counters.s_fiber_id = .ofNat counters.mains
  fiber_count : counters.s_fiber_count = .ofNat counters.ups - .ofNat counters.downs
  ids : ∀ fiber, fiber ∈ counters.numbered ∨ fiber ∈ counters.alive →
    counters.m_id fiber = (counters.mark fiber).id
  nodup : (counters.counted ++ (counters.numbered ++ counters.alive)).Nodup

section Steps
variable {counters : Counters} {fiber : Addr}

theorem Marked.initial : Marked {} := by
  constructor
  · rfl
  · rfl
  · rintro fiber (mem | mem) <;> cases mem
  · exact List.nodup_nil

theorem vacant_iff : counters.vacant fiber = true ↔
    fiber ∉ counters.counted ++ (counters.numbered ++ counters.alive) := by
  simp [Counters.vacant, and_assoc]

theorem Marked.mainCount (marked : Marked counters) (vacant : counters.vacant fiber = true) :
    Marked (counters.mainCount fiber) := by
  constructor
  · exact marked.fiber_id
  · simp only [Counters.mainCount, marked.fiber_count, UInt64.ofNat_add]
    grind
  · exact marked.ids
  · exact List.nodup_cons.mpr ⟨vacant_iff.mp vacant, marked.nodup⟩

/-- A fiber that is being constructed is in none of the later lists. -/
theorem Marked.mainId_fresh (marked : Marked counters) (mem : fiber ∈ counters.counted) :
    fiber ∉ counters.numbered ∧ fiber ∉ counters.alive := by
  have disjoint := (List.nodup_append.mp marked.nodup).2.2
  constructor
  · intro later
    exact disjoint fiber mem fiber (List.mem_append_left _ later) rfl
  · intro later
    exact disjoint fiber mem fiber (List.mem_append_right _ later) rfl

theorem Marked.childCount_fresh (marked : Marked counters) (mem : fiber ∈ counters.numbered) :
    fiber ∉ counters.alive := by
  have later := (List.nodup_append.mp marked.nodup).2.1
  intro alive
  exact (List.nodup_append.mp later).2.2 fiber mem fiber alive rfl

theorem Marked.mainId (marked : Marked counters) (mem : fiber ∈ counters.counted) :
    Marked (counters.mainId fiber) := by
  rcases marked.mainId_fresh mem with ⟨unnumbered, unborn⟩
  constructor
  · simp [Counters.mainId, marked.fiber_id]
  · exact marked.fiber_count
  · intro other later
    by_cases same : other = fiber
    · subst same
      simp [Counters.mainId, Mark.id, marked.fiber_id]
    · have known : other ∈ counters.numbered ∨ other ∈ counters.alive := by
        rcases later with numbered | alive
        · exact Or.inl numbered
        · exact Or.inr (List.mem_of_ne_of_mem same alive)
      simp [Counters.mainId, same, marked.ids other known]
  · have moved : (counters.counted.erase fiber ++
        (counters.numbered ++ fiber :: counters.alive)).Perm
        (counters.counted ++ (counters.numbered ++ counters.alive)) := by
      have front : (counters.numbered ++ fiber :: counters.alive).Perm
          (fiber :: (counters.numbered ++ counters.alive)) := List.perm_middle
      apply (front.append_left _).trans
      apply List.perm_middle.trans
      exact (List.perm_cons_erase mem).symm.append_right _
    exact moved.nodup_iff.mpr marked.nodup

theorem Marked.childId (marked : Marked counters) (vacant : counters.vacant fiber = true) :
    Marked (counters.childId fiber) := by
  have absent := vacant_iff.mp vacant
  constructor
  · exact marked.fiber_id
  · simp only [Counters.childId, marked.fiber_count, UInt64.ofNat_add]
    grind
  · intro other later
    by_cases same : other = fiber
    · subst same
      simp [Counters.childId, Mark.id, marked.fiber_count]
    · have known : other ∈ counters.numbered ∨ other ∈ counters.alive := by
        rcases later with numbered | alive
        · exact Or.inl (List.mem_of_ne_of_mem same numbered)
        · exact Or.inr alive
      simp [Counters.childId, same, marked.ids other known]
  · exact List.perm_middle.nodup_iff.mpr (List.nodup_cons.mpr ⟨absent, marked.nodup⟩)

theorem Marked.childCount (marked : Marked counters) (mem : fiber ∈ counters.numbered) :
    Marked (counters.childCount fiber) := by
  constructor
  · exact marked.fiber_id
  · simp only [Counters.childCount, marked.fiber_count, UInt64.ofNat_add]
    grind
  · intro other later
    apply marked.ids other
    rcases later with numbered | alive
    · exact Or.inl (List.mem_of_mem_erase numbered)
    · rcases List.mem_cons.mp alive with rfl | alive
      · exact Or.inl mem
      · exact Or.inr alive
  · have moved : (counters.numbered.erase fiber ++ fiber :: counters.alive).Perm
        (counters.numbered ++ counters.alive) :=
      List.perm_middle.trans ((List.perm_cons_erase mem).symm.append_right _)
    exact (moved.append_left _).nodup_iff.mpr marked.nodup

theorem Marked.destroy (marked : Marked counters) (fiber : Addr) :
    Marked (counters.destroy fiber) := by
  constructor
  · exact marked.fiber_id
  · simp only [Counters.destroy, marked.fiber_count, UInt64.ofNat_add]
    grind
  · intro other later
    apply marked.ids other
    rcases later with numbered | alive
    · exact Or.inl numbered
    · exact Or.inr (List.mem_of_mem_erase alive)
  · -- the address may be used again
    have fewer : (counters.counted ++ (counters.numbered ++ counters.alive.erase fiber)).Sublist
        (counters.counted ++ (counters.numbered ++ counters.alive)) :=
      (List.erase_sublist.append_left _).append_left _
    exact fewer.nodup marked.nodup

theorem fibers_step {after : Counters} {act : Act}
    (moved : fibers.step counters act = some after) :
    counters.guard act = true ∧ after = counters.effect act := by
  simp only [fibers] at moved
  split at moved
  · rename_i open_
    cases moved
    exact ⟨open_, rfl⟩
  · cases moved

theorem marked_step {after : Counters} {act : Act} (marked : Marked counters)
    (moved : fibers.step counters act = some after) : Marked after := by
  rcases fibers_step moved with ⟨admitted, rfl⟩
  cases act with
  | mainCount fiber => exact marked.mainCount admitted
  | mainId fiber => exact marked.mainId (of_decide_eq_true admitted)
  | childId fiber => exact marked.childId admitted
  | childCount fiber => exact marked.childCount (of_decide_eq_true admitted)
  | destroy fiber => exact marked.destroy fiber

/-! Which steps keep the ids distinct. -/

/-- A fiber that comes alive with an id of its own, and no other way, keeps
the ids distinct. -/
theorem distinct_cons {after : Counters} (distinct : Distinct counters)
    (unborn : fiber ∉ counters.alive) (alive : after.alive = fiber :: counters.alive)
    (ids : ∀ other ∈ counters.alive, after.m_id other = counters.m_id other) :
    Distinct after ↔ ∀ other ∈ counters.alive, counters.m_id other ≠ after.m_id fiber := by
  constructor
  · intro distinct_after other mem same
    have different : fiber ≠ other := fun equal => unborn (equal ▸ mem)
    have mem_after : other ∈ after.alive := alive ▸ List.mem_cons_of_mem fiber mem
    have fiber_after : fiber ∈ after.alive := alive ▸ List.mem_cons_self
    apply distinct_after fiber fiber_after other mem_after different
    rw [ids other mem, same]
  · intro own one mem_one two mem_two different
    rw [alive] at mem_one mem_two
    rcases List.mem_cons.mp mem_one with rfl | old_one
    · rcases List.mem_cons.mp mem_two with rfl | old_two
      · exact absurd rfl different
      · rw [ids two old_two]
        exact (own two old_two).symm
    · rcases List.mem_cons.mp mem_two with rfl | old_two
      · rw [ids one old_one]
        exact own one old_one
      · rw [ids one old_one, ids two old_two]
        exact distinct one old_one two old_two different

theorem update_unborn {m_id : UInt64} (unborn : fiber ∉ counters.alive) :
    ∀ other ∈ counters.alive,
      Function.update counters.m_id fiber m_id other = counters.m_id other := by
  intro other alive
  have different : other ≠ fiber := fun same => unborn (same ▸ alive)
  exact Function.update_of_ne different _ _

theorem distinct_step {after : Counters} {act : Act} (marked : Marked counters)
    (distinct : Distinct counters) (moved : fibers.step counters act = some after) :
    Distinct after ↔ Apart counters act := by
  rcases fibers_step moved with ⟨admitted, rfl⟩
  cases act with
  | mainCount fiber => exact iff_of_true distinct trivial
  | childId fiber =>
      -- the fiber has an id now, and is not alive before `childCount`
      have unborn : fiber ∉ counters.alive := fun alive =>
        vacant_iff.mp admitted (List.mem_append_right _ (List.mem_append_right _ alive))
      have kept : ∀ other ∈ counters.alive,
          (counters.childId fiber).m_id other = counters.m_id other := update_unborn unborn
      apply iff_of_true _ trivial
      intro one mem_one two mem_two different
      change (counters.childId fiber).m_id one ≠ (counters.childId fiber).m_id two
      rw [kept one mem_one, kept two mem_two]
      exact distinct one mem_one two mem_two different
  | destroy fiber =>
      apply iff_of_true _ trivial
      intro one mem_one two mem_two different
      exact distinct one (List.mem_of_mem_erase mem_one) two (List.mem_of_mem_erase mem_two)
        different
  | mainId fiber =>
      have mem : fiber ∈ counters.counted := of_decide_eq_true admitted
      have unborn := (marked.mainId_fresh mem).2
      have given : (counters.mainId fiber).m_id fiber = (Mark.main counters.mains).id :=
        (Function.update_self fiber _ _).trans marked.fiber_id
      have kept : ∀ other ∈ counters.alive,
          (counters.mainId fiber).m_id other = counters.m_id other := update_unborn unborn
      apply (distinct_cons distinct unborn rfl kept).trans
      rw [given]
      apply forall₂_congr
      intro other alive
      rw [Mark.clash_iff, marked.ids other (Or.inr alive)]
  | childCount fiber =>
      have mem : fiber ∈ counters.numbered := of_decide_eq_true admitted
      have unborn := marked.childCount_fresh mem
      have counted : Distinct (counters.childCount fiber) ↔
          ∀ other ∈ counters.alive, counters.m_id other ≠ counters.m_id fiber :=
        distinct_cons distinct unborn rfl fun _ _ => rfl
      apply counted.trans
      apply forall₂_congr
      intro other alive
      rw [Mark.clash_iff, ← marked.ids other (Or.inr alive), ← marked.ids fiber (Or.inl mem)]

end Steps

theorem reach_marked {allowed : Counters → Act → Prop} {counters : Counters}
    (reached : Reach fibers allowed counters) : Marked counters := by
  apply reached.invariant Marked
  · rintro counters rfl
    exact Marked.initial
  · intro before act after _ marked _ moved
    exact marked_step marked moved

/-- As long as every fiber comes alive apart from the live ones, the ids are
distinct; the first one that does not has the id of a live fiber. -/
theorem ids_distinct {counters : Counters} (reached : Reach fibers Apart counters) :
    Distinct counters ∧ ∀ act after, fibers.step counters act = some after →
      (Distinct after ↔ Apart counters act) := by
  have distinct : Distinct counters := by
    apply reached.invariant Distinct
    · rintro counters rfl fiber mem
      cases mem
    · intro before act after reached prior admitted moved
      exact (distinct_step (reach_marked reached) prior moved).mpr admitted
  constructor
  · exact distinct
  · intro act after moved
    exact distinct_step (reach_marked reached) distinct moved

theorem ids_distinct_run :
    ∃ counters, run fibers {}
        [.mainCount 0, .mainId 0, .childId 1, .childCount 1, .childId 2, .childCount 2,
          .destroy 1, .childId 3, .childCount 3] = some counters ∧ Distinct counters :=
  run_meets Apart rfl (by decide) (by decide) fun _ reached => (ids_distinct reached).1

/-- Two fibers end while a third one lives, and the next one gets the id of
the third. -/
theorem ids_collide : ¬ ∀ counters, Reach fibers anyStep counters → Distinct counters := by
  intro all
  rcases reach_where fibers anyStep {}
    [.mainCount 0, .mainId 0, .childId 1, .childCount 1, .childId 2, .childCount 2,
      .childId 3, .childCount 3, .destroy 1, .destroy 2, .childId 4, .childCount 4]
    (fun counters => 3 ∈ counters.alive && 4 ∈ counters.alive &&
      counters.m_id 3 == counters.m_id 4)
    rfl (by decide) (by decide) with ⟨counters, reached, found⟩
  simp only [Bool.and_eq_true, decide_eq_true_eq, beq_iff_eq] at found
  rcases found with ⟨⟨third, fourth⟩, same⟩
  exact all counters reached 3 third 4 fourth (by decide) same

/-! What `TotalFibers` returns. -/

def Counters.present (counters : Counters) : Nat :=
  counters.counted.length + counters.numbered.length + counters.alive.length

def Counters.excess (counters : Counters) : UInt64 :=
  counters.s_fiber_count - .ofNat counters.present

def Act.completes : Act → Bool
  | .childCount _ => true
  | .mainCount _ | .mainId _ | .childId _ | .destroy _ => false

theorem excess_of {before after : Counters} {ahead : UInt64} (up down : Nat)
    (count : after.s_fiber_count + .ofNat down = before.s_fiber_count + .ofNat up + ahead)
    (present : after.present + down = before.present + up) :
    after.excess = before.excess + ahead := by
  have sum : UInt64.ofNat after.present + .ofNat down = .ofNat before.present + .ofNat up := by
    rw [← UInt64.ofNat_add, ← UInt64.ofNat_add, present]
  unfold Counters.excess
  grind

theorem length_erase {fiber : Addr} {fibers : List Addr} (mem : fiber ∈ fibers) :
    (fibers.erase fiber).length + 1 = fibers.length := by
  have some : 0 < fibers.length := List.length_pos_of_mem mem
  rw [List.length_erase_of_mem mem]
  omega

theorem excess_step {before after : Counters} {act : Act}
    (moved : fibers.step before act = some after) :
    after.excess = before.excess + .ofNat act.completes.toNat := by
  rcases fibers_step moved with ⟨admitted, rfl⟩
  cases act with
  | mainCount fiber =>
      refine excess_of 1 0 ?_ ?_
      · simp [Counters.effect, Counters.mainCount, Act.completes]
      · simp only [Counters.present, Counters.effect, Counters.mainCount, List.length_cons]
        omega
  | mainId fiber =>
      have fewer := length_erase (of_decide_eq_true admitted)
      refine excess_of 0 0 ?_ ?_
      · simp [Counters.effect, Counters.mainId, Act.completes]
      · simp only [Counters.present, Counters.effect, Counters.mainId, List.length_cons]
        omega
  | childId fiber =>
      refine excess_of 1 0 ?_ ?_
      · simp [Counters.effect, Counters.childId, Act.completes]
      · simp only [Counters.present, Counters.effect, Counters.childId, List.length_cons]
        omega
  | childCount fiber =>
      have fewer := length_erase (of_decide_eq_true admitted)
      refine excess_of 0 0 ?_ ?_
      · simp [Counters.effect, Counters.childCount, Act.completes]
      · simp only [Counters.present, Counters.effect, Counters.childCount, List.length_cons]
        omega
  | destroy fiber =>
      have fewer := length_erase (of_decide_eq_true admitted)
      refine excess_of 0 1 ?_ ?_
      · simp [Counters.effect, Counters.destroy, Act.completes]
      · simp only [Counters.present, Counters.effect, Counters.destroy]
        omega

theorem excess_run {before after : Counters} {acts : List Act}
    (ran : run fibers before acts = some after) :
    after.excess = before.excess + .ofNat (acts.countP Act.completes) := by
  induction acts generalizing before with
  | nil =>
      cases ran
      simp
  | cons act rest ih =>
      rcases Option.bind_eq_some_iff.mp ran with ⟨middle, moved, later⟩
      rw [ih later, excess_step moved, List.countP_cons, UInt64.ofNat_add]
      cases act.completes with
      | true =>
          simp only [Bool.toNat_true, if_pos]
          grind
      | false => simp

/-- However constructors and destructors interleave, `TotalFibers` counts the fibers that
there are and, once more, every fiber but the main ones that was ever constructed. -/
theorem total_fibers {counters : Counters} {acts : List Act}
    (ran : run fibers {} acts = some counters) :
    counters.s_fiber_count =
      .ofNat (counters.present + acts.countP Act.completes) := by
  have ahead := excess_run ran
  have none : ({} : Counters).excess = 0 := rfl
  rw [none] at ahead
  rw [UInt64.ofNat_add]
  unfold Counters.excess at ahead
  grind

theorem total_fibers_run :
    ∃ counters, run fibers {} [.mainCount 0, .mainId 0, .childId 1, .childCount 1, .childId 2,
        .childCount 2, .destroy 1] = some counters ∧
      counters.s_fiber_count = .ofNat (counters.present + 2) := by
  have ends : (run fibers {} [.mainCount 0, .mainId 0, .childId 1, .childCount 1, .childId 2,
      .childCount 2, .destroy 1]).isSome = true := by decide
  rcases Option.isSome_iff_exists.mp ends with ⟨counters, ran⟩
  exact ⟨counters, ran, total_fibers ran⟩

end Ztyco.FiberIds
