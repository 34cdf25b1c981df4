import Mathlib.Data.List.Nodup

/-!
`std::set` as the list of its elements in iteration order, under a comparator.
An iterator is a position; `end()` is the length, or `none` where a search
returns it. The facts hold of any comparator that is a strict total order, as
long as the list is sorted by it.
-/

namespace Ztyco.OrderedSet

universe u
variable {Item : Type u}

def lowerBound (less : Item → Item → Bool) (item : Item) : List Item → Nat
  | [] => 0
  | head :: rest => if less head item then lowerBound less item rest + 1 else 0

def find (less : Item → Item → Bool) (item : Item) (items : List Item) : Option Nat :=
  match items[lowerBound less item items]? with
  | some found => if less item found then none else some (lowerBound less item items)
  | none => none

/-- An equivalent element stays. Either way the element is at the lower bound. -/
def insert (less : Item → Item → Bool) (item : Item) : List Item → List Item
  | [] => [item]
  | head :: rest =>
      if less head item then head :: insert less item rest
      else if less item head then item :: head :: rest
      else head :: rest

structure StrictTotal (less : Item → Item → Bool) : Prop where
  irrefl : ∀ a, less a a = false
  trans : ∀ a b c, less a b = true → less b c = true → less a c = true
  connected : ∀ a b, less a b = false → less b a = false → a = b

def Sorted (less : Item → Item → Bool) (items : List Item) : Prop :=
  items.Pairwise fun a b => less a b = true

variable {less : Item → Item → Bool} {items : List Item}

theorem Sorted.nodup (order : StrictTotal less) (sorted : Sorted less items) : items.Nodup := by
  apply List.Pairwise.imp _ sorted
  rintro a b below rfl
  rw [order.irrefl] at below
  cases below

theorem Sorted.congr {other : Item → Item → Bool} (sorted : Sorted less items)
    (agree : ∀ a ∈ items, ∀ b ∈ items, other a b = less a b) : Sorted other items := by
  apply List.Pairwise.imp_of_mem _ sorted
  intro a b mem_a mem_b below
  rw [agree a mem_a b mem_b]
  exact below

theorem mem_insert (order : StrictTotal less) (item other : Item) :
    other ∈ insert less item items ↔ other = item ∨ other ∈ items := by
  induction items with
  | nil => simp [insert]
  | cons head rest ih =>
      unfold insert
      split
      · rw [List.mem_cons, ih, List.mem_cons]
        constructor
        · rintro (same | same | within)
          · exact Or.inr (Or.inl same)
          · exact Or.inl same
          · exact Or.inr (Or.inr within)
        · rintro (same | same | within)
          · exact Or.inr (Or.inl same)
          · exact Or.inl same
          · exact Or.inr (Or.inr within)
      · split
        · rw [List.mem_cons]
        · rename_i above below
          have same := order.connected item head (Bool.eq_false_iff.mpr below)
            (Bool.eq_false_iff.mpr above)
          rw [same, List.mem_cons]
          constructor
          · intro within
            exact Or.inr within
          · rintro (same | within)
            · exact Or.inl same
            · exact within

theorem Sorted.insert (order : StrictTotal less) (sorted : Sorted less items) (item : Item) :
    Sorted less (insert less item items) := by
  induction items with
  | nil => exact List.pairwise_singleton _ _
  | cons head rest ih =>
      rcases List.pairwise_cons.mp sorted with ⟨least, later⟩
      unfold OrderedSet.insert
      split
      · rename_i above
        apply List.pairwise_cons.mpr
        constructor
        · intro other within
          rcases (mem_insert order item other).mp within with rfl | within
          · exact above
          · exact least other within
        · exact ih later
      · split
        · rename_i below
          apply List.pairwise_cons.mpr
          constructor
          · intro other within
            rcases List.mem_cons.mp within with rfl | within
            · exact below
            · exact order.trans item head other below (least other within)
          · exact sorted
        · exact sorted

/-- The search goes past a smaller element. -/
theorem find_cons_above {item head : Item} {rest : List Item} (above : less head item = true) :
    find less item (head :: rest) = (find less item rest).map (· + 1) := by
  simp only [find, lowerBound, above, ↓reduceIte, List.getElem?_cons_succ]
  cases rest[lowerBound less item rest]? with
  | none => rfl
  | some found => cases below : less item found <;> simp [below]

/-- The search stops at the first element that is not smaller. -/
theorem find_cons_stop {item head : Item} {rest : List Item} (stop : less head item = false) :
    find less item (head :: rest) = if less item head then none else some 0 := by
  simp [find, lowerBound, stop]

theorem find_getElem (order : StrictTotal less) {item : Item} {it : Nat}
    (found : find less item items = some it) : items[it]? = some item := by
  induction items generalizing it with
  | nil => cases found
  | cons head rest ih =>
      cases above : less head item with
      | true =>
          rw [find_cons_above above, Option.map_eq_some_iff] at found
          rcases found with ⟨position, later, rfl⟩
          exact ih later
      | false =>
          rw [find_cons_stop above] at found
          split at found
          · cases found
          · rename_i below
            cases found
            -- neither is smaller: the comparator calls them equal, and they are
            rw [order.connected head item above (Bool.eq_false_iff.mpr below)]
            rfl

theorem find_of_mem (order : StrictTotal less) (sorted : Sorted less items) {item : Item}
    (mem : item ∈ items) : ∃ it, find less item items = some it := by
  induction items with
  | nil => cases mem
  | cons head rest ih =>
      rcases List.pairwise_cons.mp sorted with ⟨least, later⟩
      rcases List.mem_cons.mp mem with rfl | within
      · exact ⟨0, by simp [find_cons_stop, order.irrefl]⟩
      · rcases ih later within with ⟨it, found⟩
        exact ⟨it + 1, by rw [find_cons_above (least item within), found]; rfl⟩

/-- Erasing what was found takes out that element and no other. -/
theorem mem_erase (order : StrictTotal less) (sorted : Sorted less items) {item : Item} {it : Nat}
    (found : find less item items = some it) (other : Item) :
    other ∈ items.eraseIdx it ↔ other ≠ item ∧ other ∈ items := by
  rcases List.getElem?_eq_some_iff.mp (find_getElem order found) with ⟨within, value⟩
  have nodup := sorted.nodup order
  classical
  rw [← nodup.erase_getElem it within, value]
  exact nodup.mem_erase_iff

theorem Sorted.erase (sorted : Sorted less items) (it : Nat) : Sorted less (items.eraseIdx it) :=
  List.Pairwise.sublist (List.eraseIdx_sublist items it) sorted

/-! Elements inserted one after another. -/

def insertAll (less : Item → Item → Bool) (items : List Item) : List Item :=
  items.foldl (fun set item => insert less item set) []

theorem insert_above {item : Item} (above : ∀ other ∈ items, less other item = true) :
    insert less item items = items ++ [item] := by
  induction items with
  | nil => rfl
  | cons head rest ih =>
      rcases List.forall_mem_cons.mp above with ⟨first, later⟩
      simp [insert, first, ih later]

/-- Elements that come in order stay as they come. -/
theorem insertAll_sorted (sorted : Sorted less items) : insertAll less items = items := by
  have all : ∀ (items set : List Item), Sorted less (set ++ items) →
      items.foldl (fun set item => insert less item set) set = set ++ items := by
    intro items
    induction items with
    | nil => intro set _; simp
    | cons item rest ih =>
        intro set sorted
        have above : ∀ other ∈ set, less other item = true := fun other mem =>
          (List.pairwise_append.mp sorted).2.2 other mem item List.mem_cons_self
        rw [List.foldl_cons, insert_above above, ih (set ++ [item]) (by simpa using sorted)]
        simp
  exact all items [] sorted

theorem mem_of_mem_insert {item other : Item} (mem : other ∈ insert less item items) :
    other = item ∨ other ∈ items := by
  induction items with
  | nil => exact Or.inl (List.mem_singleton.mp mem)
  | cons head rest ih =>
      unfold insert at mem
      split at mem
      · rcases List.mem_cons.mp mem with first | later
        · exact Or.inr (first ▸ List.mem_cons_self)
        · exact (ih later).imp_right (List.mem_cons_of_mem head)
      · split at mem
        · exact List.mem_cons.mp mem
        · exact Or.inr mem

/-- No element is made up. -/
theorem mem_of_mem_insertAll {other : Item} (mem : other ∈ insertAll less items) :
    other ∈ items := by
  have all : ∀ (items set : List Item),
      other ∈ items.foldl (fun set item => insert less item set) set →
        other ∈ set ∨ other ∈ items := by
    intro items
    induction items with
    | nil => exact fun set mem => Or.inl mem
    | cons item rest ih =>
        intro set mem
        rcases ih (insert less item set) mem with inserted | later
        · rcases mem_of_mem_insert inserted with rfl | old
          · exact Or.inr List.mem_cons_self
          · exact Or.inl old
        · exact Or.inr (List.mem_cons_of_mem item later)
  exact (all items [] mem).resolve_left List.not_mem_nil

end Ztyco.OrderedSet
