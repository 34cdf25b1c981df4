import Mathlib.Data.List.Induction
import Mathlib.Logic.Function.Basic

/-!
`Env::init` of env.cc, which reads the command line into `m_args`. An argument is
a C string, without its terminator. The loop looks at every element of `argv`,
the program name among them.
-/

namespace Ztyco.CommandLines

abbrev Text := List Char

inductive Log where
  | readlinkError
  | invalidArg (idx : Nat) (val : Text)

structure Env where
  m_args : Text → Option Text := fun _ => none
  m_programname : Text := []
  m_exepath : Text := []
  m_cwd : Text := []

namespace Env

def add (env : Env) (key val : Text) : Env :=
  { env with m_args := Function.update env.m_args key (some val) }

def flush (env : Env) : Option Text → Env
  | some key => env.add key []
  | none => env

def parse (env : Env) (now_key : Option Text) (i : Nat) : List Text → Env × List Log × Bool
  | [] => (env.flush now_key, [], true)
  | ('-' :: key) :: rest =>
      -- the key before this one had no value
      if key.length + 1 > 1 then parse (env.flush now_key) (some key) (i + 1) rest
      else (env, [.invalidArg i ('-' :: key)], false)
  | val :: rest =>
      match now_key with
      | some key => parse (env.add key val) none (i + 1) rest
      | none => (env, [.invalidArg i val], false)

/-- The text before the last `/`, the whole text when there is none. -/
def directory (exepath : Text) : Text :=
  match exepath.reverse.findIdx? (· = '/') with
  | some back => exepath.take (exepath.length - 1 - back)
  | none => exepath

/-- `linked` is what `readlink` stores, `none` when it fails. A length is a
result other than 0, as a failure is. -/
def init (env : Env) (linked : Option Text) (name : Text) (args : List Text) :
    Env × List Log × Bool :=
  let exepath := linked.getD []
  let env := { env with
    m_exepath := exepath
    m_cwd := directory exepath ++ ['/']
    m_programname := name }
  -- the loop begins at the program name
  let (env, logged, result) := env.parse none 0 (name :: args)
  (env, if linked = some [] then logged else .readlinkError :: logged, result)

def addAll (env : Env) (pairs : List (Text × Text)) : Env :=
  pairs.foldl (fun env pair => env.add pair.1 pair.2) env

end Env

def Dashed (text : Text) : Prop := text.head? = some '-'

instance (text : Text) : Decidable (Dashed text) :=
  inferInstanceAs (Decidable (text.head? = some '-'))

structure CommandOption where
  key : Text
  value : Option { text : Text // ¬ Dashed text }
  nonempty : key ≠ []

namespace CommandOption

def text (option : CommandOption) : Text := (option.value.map Subtype.val).getD []

def pair (option : CommandOption) : Text × Text := (option.key, option.text)

def written (option : CommandOption) : List Text :=
  ('-' :: option.key) :: (option.value.map Subtype.val).toList

end CommandOption

def written (options : List CommandOption) : List Text := options.flatMap CommandOption.written

def WellFormed (args : List Text) : Prop := ∃ options, args = written options

/-- The value of the last occurrence of a key. -/
def lastValue (options : List CommandOption) (key : Text) : Option Text :=
  (options.filter fun option => option.key = key).getLast?.map CommandOption.text

structure ParsesCommandLine (linked : Option Text) (name : Text) (args : List Text) : Prop where
  reads : ¬ Dashed name → ∀ options, args = written options →
    (Env.init {} linked name args).2.2 = true ∧
      ∀ key, (Env.init {} linked name args).1.m_args key = lastValue options key
  refuses : ¬ WellFormed args → (Env.init {} linked name args).2.2 = false

/-! What the loop does with an argument. -/

namespace Env
variable {env : Env} {now_key : Option Text} {i : Nat} {rest : List Text}

theorem parse_key {key : Text} (nonempty : key ≠ []) :
    env.parse now_key i (('-' :: key) :: rest) =
      (env.flush now_key).parse (some key) (i + 1) rest := by
  have long : key.length + 1 > 1 := by
    have positive : 0 < key.length := List.length_pos_iff.mpr nonempty
    omega
  rw [parse, if_pos long]

theorem parse_dash : (env.parse now_key i (['-'] :: rest)).2.2 = false := rfl

/-- A value is for the key before it, if there is one. -/
theorem parse_plain {val : Text} (plain : ¬ Dashed val) :
    env.parse now_key i (val :: rest) =
      match now_key with
      | some key => (env.add key val).parse none (i + 1) rest
      | none => (env, [.invalidArg i val], false) := by
  have undashed : ∀ key, val ≠ '-' :: key := by
    rintro key rfl
    exact plain rfl
  cases now_key with
  | none => rw [parse]; exact undashed
  | some key => rw [parse]; exact undashed

theorem parse_value {key val : Text} (plain : ¬ Dashed val) :
    env.parse (some key) i (val :: rest) = (env.add key val).parse none (i + 1) rest :=
  parse_plain plain

theorem parse_stray {val : Text} (plain : ¬ Dashed val) :
    (env.parse none i (val :: rest)).2.2 = false := by
  rw [parse_plain plain]

end Env

/-! A well-formed command line is read to its end. -/

namespace Env

theorem add_pairs (env : Env) (pair : Text × Text) (pairs : List (Text × Text)) :
    env.addAll (pair :: pairs) = (env.add pair.1 pair.2).addAll pairs := rfl

def pending (now_key : Option Text) : List (Text × Text) :=
  (now_key.map fun key => (key, [])).toList

theorem flush_addAll (env : Env) (now_key : Option Text) (pairs : List (Text × Text)) :
    (env.flush now_key).addAll pairs = env.addAll (pending now_key ++ pairs) := by
  rcases now_key with _ | key
  · rfl
  · rfl

theorem parse_written (env : Env) (now_key : Option Text) (i : Nat)
    (options : List CommandOption) :
    env.parse now_key i (written options) =
      (env.addAll (pending now_key ++ options.map CommandOption.pair), [], true) := by
  induction options generalizing env now_key i with
  | nil =>
      rcases now_key with _ | key
      · rfl
      · rfl
  | cons option options ih =>
      obtain ⟨key, value, nonempty⟩ := option
      -- the key waits with the empty value, which its own value takes the place of
      rw [List.map_cons, ← flush_addAll, add_pairs]
      rcases value with _ | ⟨val, plain⟩
      · change env.parse now_key i (('-' :: key) :: written options) = _
        rw [parse_key nonempty, ih]
        rfl
      · change env.parse now_key i (('-' :: key) :: val :: written options) = _
        rw [parse_key nonempty, parse_value plain, ih]
        rfl

/-- The last pair of a key decides. -/
theorem addAll_args (env : Env) (pairs : List (Text × Text)) (key : Text) :
    (env.addAll pairs).m_args key =
      ((pairs.filter fun pair => pair.1 = key).getLast?.map Prod.snd).or (env.m_args key) := by
  induction pairs using List.reverseRecOn with
  | nil => rfl
  | append_singleton pairs pair ih =>
      have added : env.addAll (pairs ++ [pair]) = (env.addAll pairs).add pair.1 pair.2 := by
        exact List.foldl_append
      rw [added, List.filter_append]
      by_cases same : pair.1 = key
      · subst same
        simp [add]
      · have other : [pair].filter (fun pair => pair.1 = key) = [] := by simp [same]
        rw [other, List.append_nil, ← ih]
        exact Function.update_of_ne (Ne.symm same) _ _

theorem written_args (options : List CommandOption) (key : Text) (env : Env)
    (fresh : env.m_args key = none) :
    (env.addAll (options.map CommandOption.pair)).m_args key = lastValue options key := by
  rw [addAll_args, fresh, Option.or_none, lastValue, List.filter_map, List.getLast?_map,
    Option.map_map]
  rfl

end Env

/-! What is read to its end is well formed. -/

theorem wellFormed_nil : WellFormed [] := ⟨[], rfl⟩

theorem WellFormed.cons {args : List Text} (formed : WellFormed args) (option : CommandOption) :
    WellFormed (option.written ++ args) := by
  obtain ⟨options, rfl⟩ := formed
  exact ⟨option :: options, rfl⟩

theorem WellFormed.dashed {val : Text} {args : List Text} (formed : WellFormed (val :: args)) :
    Dashed val := by
  obtain ⟨_ | ⟨option, options⟩, same⟩ := formed
  · cases same
  · rw [(List.cons.inj same).1]
    rfl

theorem wellFormed_of_parse {env : Env} {i : Nat} {args : List Text} (now_key : Option Text)
    (accepted : (env.parse now_key i args).2.2 = true) :
    WellFormed args ∨
      now_key ≠ none ∧ ∃ val rest, args = val :: rest ∧ ¬ Dashed val ∧ WellFormed rest := by
  induction args generalizing env now_key i with
  | nil => exact Or.inl wellFormed_nil
  | cons arg rest ih =>
      by_cases plain : Dashed arg
      · left
        obtain ⟨key, rfl⟩ : ∃ key, arg = '-' :: key := by
          rcases arg with _ | ⟨c, key⟩
          · cases plain
          · exact ⟨key, congrArg (· :: key) (Option.some.inj plain)⟩
        by_cases nonempty : key = []
        · subst nonempty
          rw [Env.parse_dash] at accepted
          cases accepted
        · rw [Env.parse_key nonempty] at accepted
          -- what follows begins with the value of this key, or with the next option
          rcases ih _ accepted with formed | ⟨_, val, rest', rfl, plain', formed⟩
          · exact formed.cons ⟨key, none, nonempty⟩
          · exact formed.cons ⟨key, some ⟨val, plain'⟩, nonempty⟩
      · rcases now_key with _ | key
        · rw [Env.parse_stray plain] at accepted
          cases accepted
        · rw [Env.parse_value plain] at accepted
          rcases ih _ accepted with formed | ⟨some_key, _⟩
          · exact Or.inr ⟨Option.some_ne_none key, arg, rest, rfl, plain, formed⟩
          · exact absurd rfl some_key

theorem parse_iff (env : Env) (i : Nat) (args : List Text) :
    (env.parse none i args).2.2 = true ↔ WellFormed args := by
  constructor
  · intro accepted
    rcases wellFormed_of_parse none accepted with formed | ⟨some_key, _⟩
    · exact formed
    · exact absurd rfl some_key
  · rintro ⟨options, rfl⟩
    rw [Env.parse_written]

/-- `init` judges the program name as if it were an argument. -/
theorem init_iff (env : Env) (linked : Option Text) (name : Text) (args : List Text) :
    (env.init linked name args).2.2 = true ↔ WellFormed (name :: args) :=
  parse_iff _ _ _

theorem init_reads (linked : Option Text) (name : Text) (args : List Text)
    (options : List CommandOption) (all : name :: args = written options) (key : Text) :
    (Env.init {} linked name args).1.m_args key = lastValue options key := by
  rw [Env.init, all]
  simp only [Env.parse_written]
  exact Env.written_args options key _ rfl

theorem parsesCommandLine_iff (linked : Option Text) (name : Text) (args : List Text) :
    ParsesCommandLine linked name args ↔
      (¬ Dashed name → ¬ WellFormed args) ∧ (WellFormed (name :: args) → WellFormed args) := by
  constructor
  · intro parses
    constructor
    · rintro plain ⟨options, written⟩
      exact plain ((init_iff _ _ _ _).mp (parses.reads plain options written).1).dashed
    · intro formed
      by_contra stray
      have accepted := (init_iff {} linked name args).mpr formed
      rw [parses.refuses stray] at accepted
      cases accepted
  · rintro ⟨stray, shorter⟩
    constructor
    · intro plain options written
      exact absurd ⟨options, written⟩ (stray plain)
    · intro notFormed
      by_contra accepted
      rw [Bool.not_eq_false] at accepted
      exact notFormed (shorter ((init_iff _ _ _ _).mp accepted))

theorem program_name_refused :
    ¬ ParsesCommandLine (some "/bin/server".toList) "./server".toList ["-d".toList] := by
  intro parses
  have plain : ¬ Dashed "./server".toList := by decide
  have daemon := parses.reads plain [⟨['d'], none, by decide⟩] rfl
  exact absurd daemon.1 (by decide)

end Ztyco.CommandLines
