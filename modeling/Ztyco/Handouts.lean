import Mathlib.Logic.Function.Basic

/-!
Resources that are handed out under numbers which are used again, as the kernel
does with descriptors. The ledger counts how often each handout has been
closed; a number is handed out only while its latest handout is closed. `Safe`
is relative to the set of numbers that somebody owns: every handout has been
closed once, or it is open and owned.
-/

namespace Ztyco.Handouts

universe u
variable {Number : Type u}

structure Ledger (Number : Type u) where
  handouts : Nat := 0
  number : Nat → Option Number := fun _ => none
  closes : Nat → Nat := fun _ => 0
  latest : Number → Option Nat := fun _ => none

namespace Ledger

def isOpen (ledger : Ledger Number) (n : Number) : Bool :=
  (ledger.latest n).any fun k => ledger.closes k = 0

def take [DecidableEq Number] (ledger : Ledger Number) (n : Number) : Ledger Number where
  handouts := ledger.handouts + 1
  number := Function.update ledger.number ledger.handouts (some n)
  closes := Function.update ledger.closes ledger.handouts 0
  latest := Function.update ledger.latest n (some ledger.handouts)

def hand [DecidableEq Number] (ledger : Ledger Number) (n : Number) :
    Option (Ledger Number) :=
  if ledger.isOpen n then none else some (ledger.take n)

def shut (ledger : Ledger Number) (n : Number) : Ledger Number :=
  match ledger.latest n with
  | some k => { ledger with closes := Function.update ledger.closes k (ledger.closes k + 1) }
  | none => ledger

end Ledger

structure Safe (ledger : Ledger Number) (owned : Number → Prop) : Prop where
  latest : ∀ n k, ledger.latest n = some k → k < ledger.handouts ∧ ledger.number k = some n
  current : ∀ n k, k < ledger.handouts → ledger.closes k = 0 → ledger.number k = some n →
    ledger.latest n = some k
  opened : ∀ n, owned n → ledger.isOpen n = true
  settled : ∀ k, k < ledger.handouts →
    ledger.closes k = 1 ∨ ledger.closes k = 0 ∧ ∃ n, ledger.number k = some n ∧ owned n

section Rules
variable {ledger after : Ledger Number} {owned : Number → Prop} {n : Number}

theorem safe_empty : Safe ({} : Ledger Number) fun _ => False where
  latest _ _ found := by cases found
  current _ _ below := absurd below (Nat.not_lt_zero _)
  opened _ owned := owned.elim
  settled _ below := absurd below (Nat.not_lt_zero _)

theorem isOpen_iff : ledger.isOpen n = true ↔
    ∃ k, ledger.latest n = some k ∧ ledger.closes k = 0 := by
  unfold Ledger.isOpen
  rw [Option.any_eq_true]
  constructor
  · rintro ⟨k, found, unclosed⟩
    exact ⟨k, found, of_decide_eq_true unclosed⟩
  · rintro ⟨k, found, unclosed⟩
    exact ⟨k, found, decide_eq_true unclosed⟩

theorem Safe.shut (safe : Safe ledger fun m => owned m ∨ m = n) (unowned : ¬ owned n) :
    Safe (ledger.shut n) owned := by
  obtain ⟨k, found, unclosed⟩ := isOpen_iff.mp (safe.opened n (Or.inr rfl))
  have after : ledger.shut n =
      { ledger with closes := Function.update ledger.closes k 1 } := by
    unfold Ledger.shut
    rw [found]
    simp [unclosed]
  obtain ⟨old, numbered⟩ := safe.latest n k found
  rw [after]
  constructor
  · exact safe.latest
  · intro m j below open' known
    have other : j ≠ k := by
      rintro rfl
      have closed := (Function.update_self j 1 ledger.closes).symm.trans open'
      cases closed
    exact safe.current m j below ((Function.update_of_ne other _ _).symm.trans open') known
  · intro m held
    obtain ⟨j, known, opened⟩ := isOpen_iff.mp (safe.opened m (Or.inl held))
    have other : j ≠ k := by
      rintro rfl
      rw [(safe.latest m j known).2] at numbered
      obtain rfl : m = n := Option.some.inj numbered
      exact unowned held
    exact isOpen_iff.mpr ⟨j, known, (Function.update_of_ne other _ _).trans opened⟩
  · intro j below
    by_cases same : j = k
    · subst same
      exact Or.inl (Function.update_self _ _ _)
    · change Function.update ledger.closes k 1 j = 1 ∨ Function.update ledger.closes k 1 j = 0 ∧ _
      rw [Function.update_of_ne same]
      rcases safe.settled j below with closed | ⟨opened, m, known, held⟩
      · exact Or.inl closed
      · right
        refine ⟨opened, m, known, held.resolve_right ?_⟩
        rintro rfl
        have latest := safe.current m j below opened known
        rw [found] at latest
        exact same (Option.some.inj latest).symm

theorem Safe.congr (safe : Safe ledger owned) {others : Number → Prop}
    (same : ∀ m, owned m ↔ others m) : Safe ledger others := by
  obtain rfl : owned = others := funext fun m => propext (same m)
  exact safe

/-! A number is handed out. -/

variable [DecidableEq Number]

theorem hand_eq (handed : ledger.hand n = some after) :
    ledger.isOpen n = false ∧ after = ledger.take n := by
  unfold Ledger.hand at handed
  split at handed
  · cases handed
  · rename_i shut
    exact ⟨Bool.eq_false_iff.mpr shut, (Option.some.inj handed).symm⟩

theorem Safe.unowned (safe : Safe ledger owned) (handed : ledger.hand n = some after) :
    ¬ owned n := by
  intro held
  have opened := safe.opened n held
  rw [(hand_eq handed).1] at opened
  cases opened

theorem take_new : (ledger.take n).isOpen n = true :=
  isOpen_iff.mpr ⟨ledger.handouts, Function.update_self _ _ _, Function.update_self _ _ _⟩

theorem Safe.take_other (safe : Safe ledger owned) {m : Number} (other : m ≠ n)
    (opened : ledger.isOpen m = true) : (ledger.take n).isOpen m = true := by
  obtain ⟨k, found, unclosed⟩ := isOpen_iff.mp opened
  have old := (safe.latest m k found).1
  apply isOpen_iff.mpr
  refine ⟨k, ?_, ?_⟩
  · exact (Function.update_of_ne other _ _).trans found
  · exact (Function.update_of_ne (Nat.ne_of_lt old) _ _).trans unclosed

theorem Safe.hand (safe : Safe ledger owned) (handed : ledger.hand n = some after) :
    Safe after fun m => owned m ∨ m = n := by
  obtain ⟨shut, rfl⟩ := hand_eq handed
  have numbers : ∀ k, k < ledger.handouts → (ledger.take n).number k = ledger.number k :=
    fun k old => Function.update_of_ne (Nat.ne_of_lt old) _ _
  have closes : ∀ k, k < ledger.handouts → (ledger.take n).closes k = ledger.closes k :=
    fun k old => Function.update_of_ne (Nat.ne_of_lt old) _ _
  have number : (ledger.take n).number ledger.handouts = some n := Function.update_self _ _ _
  have cases : ∀ k, k < (ledger.take n).handouts → k < ledger.handouts ∨ k = ledger.handouts :=
    fun k below => Nat.lt_or_eq_of_le (Nat.le_of_lt_succ below)
  constructor
  · intro m k found
    by_cases same : m = n
    · subst same
      obtain rfl : ledger.handouts = k :=
        Option.some.inj ((Function.update_self m _ ledger.latest).symm.trans found)
      exact ⟨Nat.lt_succ_self _, number⟩
    · obtain ⟨old, numbered⟩ := safe.latest m k ((Function.update_of_ne same _ _).symm.trans found)
      exact ⟨Nat.lt_succ_of_lt old, (numbers k old).trans numbered⟩
  · intro m k below unclosed numbered
    rcases cases k below with old | rfl
    · rw [closes k old] at unclosed
      rw [numbers k old] at numbered
      have found := safe.current m k old unclosed numbered
      have other : m ≠ n := by
        rintro rfl
        rw [isOpen_iff.mpr ⟨k, found, unclosed⟩] at shut
        cases shut
      exact (Function.update_of_ne other _ _).trans found
    · rw [number] at numbered
      obtain rfl : n = m := Option.some.inj numbered
      exact Function.update_self _ _ _
  · intro m held
    by_cases same : m = n
    · subst same
      exact take_new
    · exact safe.take_other same (safe.opened m (held.resolve_right same))
  · intro k below
    rcases cases k below with old | rfl
    · rw [closes k old, numbers k old]
      rcases safe.settled k old with closed | ⟨unclosed, m, numbered, held⟩
      · exact Or.inl closed
      · exact Or.inr ⟨unclosed, m, numbered, Or.inl held⟩
    · exact Or.inr ⟨Function.update_self _ _ _, n, number, Or.inr rfl⟩

theorem Safe.lost (safe : Safe ledger owned) (handed : ledger.hand n = some after) :
    ∃ k, k < after.handouts ∧ after.closes k = 0 ∧ after.number k = some n ∧ ¬ owned n := by
  have unowned := safe.unowned handed
  obtain ⟨_, rfl⟩ := hand_eq handed
  exact ⟨ledger.handouts, Nat.lt_succ_self _, Function.update_self _ _ _,
    Function.update_self _ _ _, unowned⟩

end Rules

/-! The handouts from one on, whatever came before it. -/

/-- The latest handout of the number, made since `first` and still open. -/
structure Current (first : Nat) (ledger : Ledger Number) (n : Number) (k : Nat) : Prop where
  since : first ≤ k
  below : k < ledger.handouts
  numbered : ledger.number k = some n
  found : ledger.latest n = some k
  unclosed : ledger.closes k = 0

/-- Every handout since `first` has been closed, or is the latest of a number that
is owned. -/
def SettledSince (first : Nat) (ledger : Ledger Number) (owned : Number → Prop) : Prop :=
  ∀ k, first ≤ k → k < ledger.handouts →
    0 < ledger.closes k ∨ ∃ n, owned n ∧ ledger.latest n = some k

section Since
variable {first j k : Nat} {ledger after : Ledger Number} {owned : Number → Prop} {n m : Number}

theorem settledSince_handouts : SettledSince ledger.handouts ledger owned :=
  fun _ since below => absurd below (Nat.not_lt.mpr since)

theorem SettledSince.mono (settled : SettledSince first ledger owned) {others : Number → Prop}
    (more : ∀ n, owned n → others n) : SettledSince first ledger others := by
  intro k since below
  rcases settled k since below with closed | ⟨n, held, found⟩
  · exact Or.inl closed
  · exact Or.inr ⟨n, more n held, found⟩

theorem SettledSince.closed (settled : SettledSince first ledger owned)
    (nobody : ∀ n, ¬ owned n) (since : first ≤ k) (below : k < ledger.handouts) :
    0 < ledger.closes k := by
  rcases settled k since below with closed | ⟨n, held, _⟩
  · exact closed
  · exact absurd held (nobody n)

theorem Current.isOpen (current : Current first ledger n k) : ledger.isOpen n = true :=
  isOpen_iff.mpr ⟨k, current.found, current.unclosed⟩

theorem shut_handouts : (ledger.shut n).handouts = ledger.handouts := by
  unfold Ledger.shut
  split <;> rfl

theorem shut_latest : (ledger.shut n).latest = ledger.latest := by
  unfold Ledger.shut
  split <;> rfl

theorem shut_number : (ledger.shut n).number = ledger.number := by
  unfold Ledger.shut
  split <;> rfl

theorem shut_closes (k : Nat) :
    (ledger.shut n).closes k =
      if ledger.latest n = some k then ledger.closes k + 1 else ledger.closes k := by
  unfold Ledger.shut
  cases found : ledger.latest n with
  | none => rfl
  | some j =>
      by_cases same : j = k
      · subst same
        simp
      · have other : some j ≠ some k := fun equal => same (Option.some.inj equal)
        rw [if_neg other]
        exact Function.update_of_ne (Ne.symm same) _ _

/-- Closing a number settles its latest handout. -/
theorem SettledSince.shut (settled : SettledSince first ledger owned) :
    SettledSince first (ledger.shut n) fun m => owned m ∧ m ≠ n := by
  intro k since below
  rw [shut_handouts] at below
  rw [shut_closes, shut_latest]
  by_cases here : ledger.latest n = some k
  · rw [if_pos here]
    exact Or.inl (Nat.succ_pos _)
  -- another number, whose latest handout stays what it was
  · rw [if_neg here]
    rcases settled k since below with closed | ⟨m, held, found⟩
    · exact Or.inl closed
    · refine Or.inr ⟨m, ⟨held, ?_⟩, found⟩
      rintro rfl
      exact here found

theorem Current.shut (current : Current first ledger n k) (closing : Current first ledger m j)
    (other : n ≠ m) : Current first (ledger.shut m) n k := by
  have apart : ledger.latest m ≠ some k := by
    intro same
    rw [closing.found] at same
    obtain rfl : j = k := Option.some.inj same
    have numbered := closing.numbered
    rw [current.numbered] at numbered
    exact other (Option.some.inj numbered)
  constructor
  · exact current.since
  · rw [shut_handouts]
    exact current.below
  · rw [shut_number]
    exact current.numbered
  · rw [shut_latest]
    exact current.found
  · rw [shut_closes, if_neg apart]
    exact current.unclosed

variable [DecidableEq Number]

theorem hand_handouts (handed : ledger.hand n = some after) :
    after.handouts = ledger.handouts + 1 := by
  obtain ⟨_, rfl⟩ := hand_eq handed
  rfl

theorem SettledSince.hand (settled : SettledSince first ledger owned)
    (handed : ledger.hand n = some after) :
    SettledSince first after fun m => owned m ∨ m = n := by
  obtain ⟨shut, rfl⟩ := hand_eq handed
  intro k since below
  rcases Nat.lt_or_eq_of_le (Nat.le_of_lt_succ below) with old | rfl
  · have closes : (ledger.take n).closes k = ledger.closes k :=
      Function.update_of_ne (Nat.ne_of_lt old) _ _
    rw [closes]
    rcases settled k since old with closed | ⟨m, held, found⟩
    · exact Or.inl closed
    · by_cases same : m = n
      · left
        by_contra unclosed
        rw [same] at found
        rw [isOpen_iff.mpr ⟨k, found, Nat.eq_zero_of_not_pos unclosed⟩] at shut
        cases shut
      · exact Or.inr ⟨m, Or.inl held, (Function.update_of_ne same _ _).trans found⟩
  · exact Or.inr ⟨n, Or.inr rfl, Function.update_self _ _ _⟩

theorem Current.ne_hand (current : Current first ledger m k)
    (handed : ledger.hand n = some after) : m ≠ n := by
  rintro rfl
  have shut := (hand_eq handed).1
  rw [current.isOpen] at shut
  cases shut

theorem Current.hand (current : Current first ledger m k)
    (handed : ledger.hand n = some after) : Current first after m k := by
  have other := current.ne_hand handed
  have old := Nat.ne_of_lt current.below
  obtain ⟨_, rfl⟩ := hand_eq handed
  constructor
  · exact current.since
  · exact Nat.lt_succ_of_lt current.below
  · exact (Function.update_of_ne old _ _).trans current.numbered
  · exact (Function.update_of_ne other _ _).trans current.found
  · exact (Function.update_of_ne old _ _).trans current.unclosed

theorem current_new (since : first ≤ ledger.handouts) (handed : ledger.hand n = some after) :
    Current first after n ledger.handouts := by
  obtain ⟨_, rfl⟩ := hand_eq handed
  exact ⟨since, Nat.lt_succ_self _, Function.update_self _ _ _, Function.update_self _ _ _,
    Function.update_self _ _ _⟩

end Since

end Ztyco.Handouts
