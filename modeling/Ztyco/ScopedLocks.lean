/-!
Calls of one thread that hold non-recursive locks for the length of a scope. A
call reads the locks its own chain of callers holds, so a lock that is taken
again while it is held is a fault of its own; with `none` in their place the
locks are ignored. `Ends` is partial correctness, whatever is held; `Free` says
that no lock of the chain is taken again.
-/

namespace Ztyco.ScopedLocks

inductive Fault (Lock Error : Type) where
  | deadlock (lock : Lock)
  | error (cause : Error)
  deriving DecidableEq, Repr

abbrev Held (Lock : Type) := Option (List Lock)

def Call (Lock State Error Result : Type) :=
  Held Lock → State → Except (Fault Lock Error) (Result × State)

variable {Lock State Error Result Next Item : Type}

namespace Call

instance : Monad (Call Lock State Error) where
  pure result := fun _ state => .ok (result, state)
  bind call next := fun held state =>
    match call held state with
    | .ok (result, middle) => next result held middle
    | .error fault => .error fault

def read (part : State → Result) : Call Lock State Error Result :=
  fun _ state => .ok (part state, state)

def modify (change : State → State) : Call Lock State Error Unit :=
  fun _ state => .ok ((), change state)

def raise (cause : Error) : Call Lock State Error Result := fun _ _ => .error (.error cause)

def locking [DecidableEq Lock] (lock : Lock) (body : Call Lock State Error Result) :
    Call Lock State Error Result
  | none, state => body none state
  | some locks, state =>
      if lock ∈ locks then .error (.deadlock lock) else body (some (lock :: locks)) state

def mapEach (body : Item → Call Lock State Error Result) :
    List Item → Call Lock State Error (List Result)
  | [] => pure []
  | item :: rest => do
      let result ← body item
      let results ← mapEach body rest
      pure (result :: results)

def forEach (body : Item → Call Lock State Error Unit) (items : List Item) :
    Call Lock State Error Unit := do
  let _ ← mapEach body items
  pure ()

/-! Where a call comes to an end. -/

section Ends
variable {call : Call Lock State Error Result} {next : Result → Call Lock State Error Next}
  {held : Held Lock} {state after : State}

theorem pure_ok {result value : Result} :
    (pure value : Call Lock State Error Result) held state = .ok (result, after) ↔
      result = value ∧ after = state := by
  constructor
  · intro done
    cases done
    exact ⟨rfl, rfl⟩
  · rintro ⟨rfl, rfl⟩
    rfl

theorem bind_ok {result : Next} :
    (call >>= next) held state = .ok (result, after) ↔ ∃ value middle,
      call held state = .ok (value, middle) ∧ next value held middle = .ok (result, after) := by
  change (match call held state with
    | .ok (result, middle) => next result held middle
    | .error fault => .error fault) = _ ↔ _
  constructor
  · intro done
    split at done
    · rename_i value middle first
      exact ⟨value, middle, first, done⟩
    · cases done
  · rintro ⟨value, middle, first, second⟩
    rw [first]
    exact second

theorem read_ok {part : State → Result} {result : Result} :
    (read part : Call Lock State Error Result) held state = .ok (result, after) ↔
      result = part state ∧ after = state := by
  constructor
  · intro done
    cases done
    exact ⟨rfl, rfl⟩
  · rintro ⟨rfl, rfl⟩
    rfl

theorem modify_ok {change : State → State} :
    (modify change : Call Lock State Error Unit) held state = .ok ((), after) ↔
      after = change state := by
  constructor
  · intro done
    cases done
    rfl
  · rintro rfl
    rfl

theorem raise_ok {cause : Error} {result : Result} :
    ¬ (raise cause : Call Lock State Error Result) held state = .ok (result, after) := by
  intro done
  cases done

theorem forEach_nil {body : Item → Call Lock State Error Unit}
    (done : forEach body [] held state = .ok ((), after)) : after = state := by
  rcases bind_ok.mp done with ⟨results, middle, none, returned⟩
  rcases pure_ok.mp none with ⟨rfl, rfl⟩
  exact (pure_ok.mp returned).2

/-- The first round, and then the loop over the others. -/
theorem forEach_cons {body : Item → Call Lock State Error Unit} {item : Item} {rest : List Item}
    (done : forEach body (item :: rest) held state = .ok ((), after)) :
    ∃ middle, body item held state = .ok ((), middle) ∧
      forEach body rest held middle = .ok ((), after) := by
  rcases bind_ok.mp done with ⟨results, last, rounds, returned⟩
  rcases bind_ok.mp rounds with ⟨result, middle, round, others⟩
  rcases bind_ok.mp others with ⟨tail, two, later, collected⟩
  rcases pure_ok.mp collected with ⟨rfl, rfl⟩
  exact ⟨middle, round, bind_ok.mpr ⟨tail, last, later, returned⟩⟩

variable [DecidableEq Lock]

def inside (lock : Lock) : Held Lock → Held Lock
  | none => none
  | some locks => some (lock :: locks)

theorem locking_ok {lock : Lock} {result : Result}
    (done : locking lock call held state = .ok (result, after)) :
    call (inside lock held) state = .ok (result, after) := by
  cases held with
  | none => exact done
  | some locks =>
      simp only [locking] at done
      split at done
      · cases done
      · exact done

end Ends

/-- Partial correctness, with or without locks. -/
def Ends (pre : State → Prop) (call : Call Lock State Error Result)
    (post : Result → State → Prop) : Prop :=
  ∀ held state result after, pre state → call held state = .ok (result, after) → post result after

section Rules
variable {pre : State → Prop} {call : Call Lock State Error Result}
  {next : Result → Call Lock State Error Next}

theorem Ends.pure (value : Result) {post : Result → State → Prop}
    (holds : ∀ state, pre state → post value state) :
    Ends pre (pure value : Call Lock State Error Result) post := by
  intro held state result after before done
  rcases pure_ok.mp done with ⟨rfl, rfl⟩
  exact holds after before

theorem Ends.bind {mid : Result → State → Prop} {post : Next → State → Prop}
    (first : Ends pre call mid) (second : ∀ value, Ends (mid value) (next value) post) :
    Ends pre (call >>= next) post := by
  intro held state result after before done
  rcases bind_ok.mp done with ⟨value, middle, one, two⟩
  exact second value held middle result after (first held state value middle before one) two

theorem Ends.read (part : State → Result) {post : Result → State → Prop}
    (holds : ∀ state, pre state → post (part state) state) :
    Ends pre (Call.read part : Call Lock State Error Result) post := by
  intro held state result after before done
  rcases read_ok.mp done with ⟨rfl, rfl⟩
  exact holds after before

theorem Ends.modify (change : State → State) {post : Unit → State → Prop}
    (holds : ∀ state, pre state → post () (change state)) :
    Ends pre (Call.modify change : Call Lock State Error Unit) post := by
  intro held state result after before done
  rcases modify_ok.mp done with rfl
  exact holds state before

theorem Ends.trivial (call : Call Lock State Error Result) :
    Ends pre call fun _ _ => True := by
  intro held state result after _ _
  exact True.intro

theorem Ends.raise (cause : Error) {post : Result → State → Prop} :
    Ends pre (Call.raise cause : Call Lock State Error Result) post := by
  intro held state result after _ done
  exact absurd done raise_ok

theorem Ends.locking [DecidableEq Lock] (lock : Lock) {post : Result → State → Prop}
    (body : Ends pre call post) : Ends pre (Call.locking lock call) post := by
  intro held state result after before done
  exact body _ state result after before (locking_ok done)

theorem Ends.mapEach {body : Item → Call Lock State Error Result} {inv : State → Prop}
    (items : List Item) (round : ∀ item ∈ items, Ends inv (body item) fun _ => inv) :
    Ends inv (Call.mapEach body items) fun _ => inv := by
  induction items with
  | nil => exact Ends.pure _ fun _ before => before
  | cons item rest ih =>
      have later := ih fun other mem => round other (List.mem_cons_of_mem item mem)
      refine Ends.bind (round item List.mem_cons_self) ?_
      intro value
      refine Ends.bind later ?_
      intro values
      exact Ends.pure _ fun _ before => before

theorem Ends.forEach {body : Item → Call Lock State Error Unit} {inv : State → Prop}
    (items : List Item) (round : ∀ item ∈ items, Ends inv (body item) fun _ => inv) :
    Ends inv (Call.forEach body items) fun _ => inv := by
  refine Ends.bind (Ends.mapEach items round) ?_
  intro _
  exact Ends.pure _ fun _ before => before

end Rules

/-- With these locks held and from these states, none of them is taken again. -/
def Free (locks : List Lock) (pre : State → Prop) (call : Call Lock State Error Result) : Prop :=
  ∀ state lock, pre state → call (some locks) state ≠ .error (.deadlock lock)

section Freedom
variable {locks : List Lock} {pre : State → Prop} {call : Call Lock State Error Result}
  {next : Result → Call Lock State Error Next}

theorem Free.pure (value : Result) :
    Free locks pre (pure value : Call Lock State Error Result) := by
  intro state lock _ stuck
  cases stuck

theorem Free.read (part : State → Result) :
    Free locks pre (Call.read part : Call Lock State Error Result) := by
  intro state lock _ stuck
  cases stuck

theorem Free.modify (change : State → State) :
    Free locks pre (Call.modify change : Call Lock State Error Unit) := by
  intro state lock _ stuck
  cases stuck

theorem Free.raise (cause : Error) :
    Free locks pre (Call.raise cause : Call Lock State Error Result) := by
  intro state lock _ stuck
  cases stuck

theorem Free.weaken {weaker : State → Prop} (free : Free locks weaker call)
    (implied : ∀ state, pre state → weaker state) : Free locks pre call := by
  intro state lock before
  exact free state lock (implied state before)

theorem Free.bind {mid : Result → State → Prop} (first : Free locks pre call)
    (between : Ends pre call mid) (second : ∀ value, Free locks (mid value) (next value)) :
    Free locks pre (call >>= next) := by
  intro state lock before stuck
  change (match call (some locks) state with
    | .ok (result, middle) => next result (some locks) middle
    | .error fault => .error fault) = _ at stuck
  split at stuck
  · rename_i value middle done
    exact second value middle lock (between _ state value middle before done) stuck
  · rename_i fault failed
    cases stuck
    exact first state lock before failed

/-- Where the second call is free from any state. -/
theorem Free.seq (first : Free locks pre call)
    (second : ∀ value, Free locks (fun _ => True) (next value)) :
    Free locks pre (call >>= next) :=
  first.bind (Ends.trivial call) second

theorem Free.locking [DecidableEq Lock] {lock : Lock} (unheld : lock ∉ locks)
    (body : Free (lock :: locks) pre call) : Free locks pre (Call.locking lock call) := by
  intro state other before
  simp only [Call.locking, unheld, ↓reduceIte]
  exact body state other before

theorem Free.mapEach {body : Item → Call Lock State Error Result} {inv : State → Prop}
    (items : List Item) (round : ∀ item ∈ items, Ends inv (body item) fun _ => inv)
    (free : ∀ item ∈ items, Free locks inv (body item)) :
    Free locks inv (Call.mapEach body items) := by
  induction items with
  | nil => exact Free.pure _
  | cons item rest ih =>
      have later := fun other mem => round other (List.mem_cons_of_mem item mem)
      have freeLater := ih later fun other mem => free other (List.mem_cons_of_mem item mem)
      refine Free.bind (free item List.mem_cons_self) (round item List.mem_cons_self) ?_
      intro value
      refine Free.bind freeLater (Ends.mapEach rest later) ?_
      intro values
      exact Free.pure _

theorem Free.forEach {body : Item → Call Lock State Error Unit} {inv : State → Prop}
    (items : List Item) (round : ∀ item ∈ items, Ends inv (body item) fun _ => inv)
    (free : ∀ item ∈ items, Free locks inv (body item)) :
    Free locks inv (Call.forEach body items) := by
  refine Free.bind (Free.mapEach items round free) (Ends.mapEach items round) ?_
  intro _
  exact Free.pure _

end Freedom

end Call

end Ztyco.ScopedLocks
