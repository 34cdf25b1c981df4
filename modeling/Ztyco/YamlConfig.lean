import Mathlib.Data.List.Nodup

/-!
`Config::LoadFromYaml` of config.cc: the tree is flattened to its nodes with
their dotted paths, and each path is folded to lower case and looked up among
the registered names. The filter of ListAllMember runs before the folding and
knows neither upper case nor the digit 9, and a variable is registered under the
name it was given, not under the folded one. A string is the list of its
characters; `emit` is what yaml-cpp prints for a node.
-/

namespace Ztyco.Config

abbrev Text := List Char

inductive Node where
  | null
  | scalar (text : Text)
  | sequence (items : List Node)
  | map (entries : List (Node × Node))

/-- The text of a scalar; other nodes have an empty one. -/
def Node.Scalar : Node → Text
  | .scalar text => text
  | _ => []

def lower (name : Text) : Text := name.map Char.toLower

def alphabet : Text := "abcdefghikjlmnopqrstuvwxyz._012345678".toList

def valid (name : Text) : Bool := name.all (alphabet.contains ·)

def entryPath (path : Text) (key : Node) : Text :=
  if path.isEmpty then key.Scalar else path ++ '.' :: key.Scalar

mutual

def ListAllMember (path : Text) : Node → List (Text × Node)
  | .map entries =>
      if valid path then (path, .map entries) :: ListEntries path entries else []
  | node => if valid path then [(path, node)] else []

def ListEntries (path : Text) : List (Node × Node) → List (Text × Node)
  | [] => []
  | (key, value) :: rest =>
      ListAllMember (entryPath path key) value ++ ListEntries path rest

end

/-- `ConfigVar`; `strings` are those `fromString` has been called with. -/
structure ConfigVar where
  m_name : Text
  strings : List Text := []
  deriving DecidableEq, Repr

def ConfigVar.make (name : Text) : ConfigVar := { m_name := lower name }

def ConfigVar.fromString (var : ConfigVar) (val : Text) : ConfigVar :=
  { var with strings := var.strings ++ [val] }

structure Datas where
  vars : List (Text × ConfigVar) := []
  keys : (vars.map Prod.fst).Nodup := by exact List.nodup_nil
  named : ∀ entry ∈ vars, entry.2.m_name = lower entry.1 := by exact fun _ mem => nomatch mem

namespace Datas

def LookupBase (datas : Datas) (name : Text) : Option ConfigVar := datas.vars.lookup name

/-- `Lookup(name, defaultV)`, which also registers an invalid name. -/
def Lookup (datas : Datas) (name : Text) : Datas :=
  if found : name ∈ datas.vars.map Prod.fst then datas
  else
    { vars := datas.vars ++ [(name, .make name)]
      keys := by
        rw [List.map_append, List.map_singleton, ← List.concat_eq_append]
        exact datas.keys.concat found
      named := by
        intro entry mem
        rcases List.mem_append.mp mem with old | new
        · exact datas.named entry old
        · rw [List.mem_singleton.mp new]
          rfl }

def call (datas : Datas) (name val : Text) : Datas where
  vars := datas.vars.map fun entry =>
    if entry.1 = name then (entry.1, entry.2.fromString val) else entry
  keys := by
    have same : (datas.vars.map fun entry => if entry.1 = name
        then (entry.1, entry.2.fromString val) else entry).map Prod.fst =
          datas.vars.map Prod.fst := by
      rw [List.map_map]
      apply List.map_congr_left
      intro entry _
      simp only [Function.comp_apply]
      split <;> rfl
    rw [same]
    exact datas.keys
  named := by
    intro entry mem
    rcases List.mem_map.mp mem with ⟨before, old, rfl⟩
    split
    · exact datas.named before old
    · exact datas.named before old

end Datas

def nodeText (emit : Node → Text) : Node → Text
  | .scalar text => text
  | node => emit node

def load (emit : Node → Text) (datas : Datas) (it : Text × Node) : Datas :=
  if it.1.isEmpty then datas
  else
    match datas.LookupBase (lower it.1) with
    | none => datas
    | some _ => datas.call (lower it.1) (nodeText emit it.2)

def LoadFromYaml (emit : Node → Text) (root : Node) (datas : Datas) : Datas :=
  (ListAllMember [] root).foldl (load emit) datas

/-! What is to be assigned. -/

mutual

def members (path : Text) : Node → List (Text × Node)
  | .map entries => (path, .map entries) :: entryMembers path entries
  | node => [(path, node)]

def entryMembers (path : Text) : List (Node × Node) → List (Text × Node)
  | [] => []
  | (key, value) :: rest => members (entryPath path key) value ++ entryMembers path rest

end

def Datas.named_by (datas : Datas) (emit : Node → Text) (root : Node) : List (Text × ConfigVar) :=
  datas.vars.map fun entry => (entry.1, { entry.2 with
    strings := entry.2.strings ++ ((members [] root).filter fun member =>
      lower member.1 = entry.2.m_name).map fun member => nodeText emit member.2 })

def documented : Text := "0123456789abcdefghijklmnopqrstuvwxyz_.".toList

/-! The filter. -/

theorem valid_entryPath {path : Text} {key : Node} (good : valid (entryPath path key) = true) :
    valid path = true := by
  unfold entryPath at good
  cases path with
  | nil => rfl
  | cons c rest =>
      simp only [List.isEmpty_cons, Bool.false_eq_true, if_false, valid, List.all_append,
        Bool.and_eq_true] at good
      exact good.1

mutual

theorem valid_members (path : Text) (node : Node) :
    ∀ member ∈ members path node, valid member.1 = true → valid path = true := by
  intro member mem good
  cases node with
  | map entries =>
      rcases List.mem_cons.mp mem with rfl | later
      · exact good
      · exact valid_entryMembers path entries member later good
  | null =>
      rw [List.mem_singleton.mp mem] at good
      exact good
  | scalar text =>
      rw [List.mem_singleton.mp mem] at good
      exact good
  | sequence items =>
      rw [List.mem_singleton.mp mem] at good
      exact good

theorem valid_entryMembers (path : Text) (entries : List (Node × Node)) :
    ∀ member ∈ entryMembers path entries, valid member.1 = true → valid path = true := by
  intro member mem good
  match entries with
  | [] => cases mem
  | (key, value) :: rest =>
      rcases List.mem_append.mp mem with first | later
      · exact valid_entryPath (valid_members (entryPath path key) value member first good)
      · exact valid_entryMembers path rest member later good

end

mutual

/-- A path that is left out has only such paths below it. -/
theorem ListAllMember_eq (path : Text) (node : Node) :
    ListAllMember path node = (members path node).filter (valid ·.1) := by
  cases node with
  | map entries =>
      unfold ListAllMember members
      cases good : valid path with
      | true => simp [good, ListEntries_eq path entries]
      | false =>
          -- the subtree is cut off, where the filter would leave it out path by path
          have below : (entryMembers path entries).filter (valid ·.1) = [] := by
            apply List.filter_eq_nil_iff.mpr
            intro member mem ok
            have all := valid_entryMembers path entries member mem ok
            rw [good] at all
            cases all
          simp [good, below]
  | null => cases good : valid path <;> simp [ListAllMember, members, good]
  | scalar text => cases good : valid path <;> simp [ListAllMember, members, good]
  | sequence items => cases good : valid path <;> simp [ListAllMember, members, good]

theorem ListEntries_eq (path : Text) (entries : List (Node × Node)) :
    ListEntries path entries = (entryMembers path entries).filter (valid ·.1) := by
  match entries with
  | [] => rfl
  | (key, value) :: rest =>
      unfold ListEntries entryMembers
      rw [List.filter_append, ListAllMember_eq (entryPath path key) value,
        ListEntries_eq path rest]

end

/-! The loop over the nodes. -/

section Load
variable {emit : Node → Text} {datas : Datas}

def finds (name : Text) (member : Text × Node) : Bool :=
  !member.1.isEmpty && lower member.1 = name

/-- An entry whose variable has read the wanted ones of some members. -/
def reads (emit : Node → Text) (wanted : Text × Node → Bool) (all : List (Text × Node))
    (entry : Text × ConfigVar) : Text × ConfigVar :=
  (entry.1, { entry.2 with
    strings := entry.2.strings ++ (all.filter wanted).map fun member => nodeText emit member.2 })

theorem reads_skip {wanted : Text × Node → Bool} {it : Text × Node} (skip : wanted it = false)
    (rest : List (Text × Node)) (entry : Text × ConfigVar) :
    reads emit wanted (it :: rest) entry = reads emit wanted rest entry := by
  simp [reads, skip]

theorem reads_nil (wanted : Text × Node → Bool) (entry : Text × ConfigVar) :
    reads emit wanted [] entry = entry := by
  simp [reads]

theorem reads_cons (wanted : Text × Node → Bool) (it : Text × Node)
    (rest : List (Text × Node)) (entry : Text × ConfigVar) :
    reads emit wanted rest (reads emit wanted [it] entry) =
      reads emit wanted (it :: rest) entry := by
  cases want : wanted it with
  | true => simp [reads, want]
  | false => simp [reads, want]

theorem load_vars (it : Text × Node) :
    (load emit datas it).vars =
      datas.vars.map fun entry => reads emit (finds entry.1) [it] entry := by
  have unread : (∀ entry ∈ datas.vars, finds entry.1 it = false) →
      datas.vars = datas.vars.map fun entry => reads emit (finds entry.1) [it] entry := by
    intro none
    have same : datas.vars.map (fun entry => reads emit (finds entry.1) [it] entry) =
        datas.vars.map id := by
      apply List.map_congr_left
      intro entry mem
      rw [reads_skip (none entry mem), reads_nil]
      rfl
    rw [same, List.map_id]
  unfold load
  cases empty : it.1.isEmpty with
  | true =>
      apply unread
      intro entry _
      simp [finds, empty]
  | false =>
      cases found : datas.LookupBase (lower it.1) with
      | none =>
          -- nothing is registered under the folded path
          apply unread
          intro entry mem
          have other : lower it.1 ≠ entry.1 := by
            simpa using List.lookup_eq_none_iff.mp found entry mem
          simp [finds, other]
      | some _ =>
          apply List.map_congr_left
          intro entry _
          obtain ⟨name, found⟩ := entry
          by_cases same : lower it.1 = name
          · subst same
            simp [reads, finds, empty, ConfigVar.fromString]
          · have other : ¬ name = lower it.1 := fun equal => same equal.symm
            simp [reads, finds, empty, same, other]

theorem foldl_load (all : List (Text × Node)) :
    (all.foldl (load emit) datas).vars =
      datas.vars.map fun entry => reads emit (finds entry.1) all entry := by
  induction all generalizing datas with
  | nil =>
      simp only [List.foldl_nil, reads_nil]
      exact (List.map_id _).symm
  | cons it rest ih =>
      rw [List.foldl_cons, ih, load_vars, List.map_map]
      apply List.map_congr_left
      intro entry _
      exact reads_cons (finds entry.1) it rest entry

end Load

/-! Which of the members are read. -/

theorem filter_map_eq_iff {Member Value : Type} (value : Member → Value)
    (narrow wide : Member → Bool) (all : List Member)
    (within : ∀ member ∈ all, narrow member = true → wide member = true) :
    (all.filter narrow).map value = (all.filter wide).map value ↔
      ∀ member ∈ all, wide member = true → narrow member = true := by
  constructor
  · intro same
    -- the lists are equally long, so the narrower choice leaves nothing out
    have lengths : (all.filter narrow).length = (all.filter wide).length := by
      simpa using congrArg List.length same
    have narrower : all.filter narrow = (all.filter wide).filter narrow := by
      rw [List.filter_filter]
      apply List.filter_congr
      intro member mem
      cases chosen : narrow member with
      | true => simp [within member mem chosen]
      | false => rfl
    rw [narrower, List.length_filter_eq_length_iff] at lengths
    intro member mem want
    exact lengths member (List.mem_filter.mpr ⟨mem, want⟩)
  · intro within'
    congr 1
    apply List.filter_congr
    intro member mem
    apply Bool.eq_iff_iff.mpr
    exact ⟨within member mem, within' member mem⟩

theorem lower_valid {name : Text} (good : valid name = true) : lower name = name := by
  have letters : alphabet.all (fun c => c.toLower = c) = true := by decide
  unfold lower
  rw [List.map_congr_left (g := id)]
  · exact List.map_id _
  · intro c mem
    have known := List.contains_iff_mem.mp (List.all_eq_true.mp good c mem)
    exact of_decide_eq_true (List.all_eq_true.mp letters c known)

/-- The filter takes a name of documented characters if it is folded and has no 9. -/
theorem valid_iff {name : Text} (known : ∀ c ∈ lower name, c ∈ documented) :
    valid name = true ↔ lower name = name ∧ '9' ∉ name := by
  have digits : '9' ∉ alphabet := by decide
  have others : documented.all (fun c => c = '9' || alphabet.contains c) = true := by decide
  constructor
  · intro good
    refine ⟨lower_valid good, ?_⟩
    intro nine
    exact digits (List.contains_iff_mem.mp (List.all_eq_true.mp good '9' nine))
  · rintro ⟨folded, missing⟩
    rw [folded] at known
    apply List.all_eq_true.mpr
    intro c mem
    rcases Bool.or_eq_true_iff.mp (List.all_eq_true.mp others c (known c mem)) with nine | known
    · rw [of_decide_eq_true nine] at mem
      exact absurd mem missing
    · exact known

theorem named_of_found {datas : Datas} {entry : Text × ConfigVar} (mem : entry ∈ datas.vars)
    {member : Text × Node} (good : valid member.1 = true)
    (found : finds entry.1 member = true) : lower member.1 = entry.2.m_name := by
  have key : lower member.1 = entry.1 := by
    simpa using (Bool.and_eq_true_iff.mp found).2
  -- a path that passes the filter is folded already
  rw [datas.named entry mem, ← key, lower_valid good, lower_valid good]

theorem reads_named_iff (emit : Node → Text) (root : Node) {datas : Datas}
    {entry : Text × ConfigVar} (mem : entry ∈ datas.vars)
    (names : ∀ c ∈ entry.2.m_name, c ∈ documented) :
    reads emit (finds entry.1) (ListAllMember [] root) entry =
        reads emit (fun member => lower member.1 = entry.2.m_name) (members [] root) entry ↔
      ∀ member ∈ members [] root, lower member.1 = entry.2.m_name →
        member.1 ≠ [] ∧ member.1 = entry.1 ∧ lower member.1 = member.1 ∧ '9' ∉ member.1 := by
  have within : ∀ member ∈ members [] root,
      (finds entry.1 member && valid member.1) = true →
        decide (lower member.1 = entry.2.m_name) = true := by
    intro member _ both
    rcases Bool.and_eq_true_iff.mp both with ⟨found, good⟩
    exact decide_eq_true (named_of_found mem good found)
  have texts := filter_map_eq_iff (fun member => nodeText emit member.2)
    (fun member => finds entry.1 member && valid member.1)
    (fun member => decide (lower member.1 = entry.2.m_name)) (members [] root) within
  have strings : reads emit (finds entry.1) (ListAllMember [] root) entry =
      reads emit (fun member => lower member.1 = entry.2.m_name) (members [] root) entry ↔
        ((members [] root).filter fun member => finds entry.1 member && valid member.1).map
          (fun member => nodeText emit member.2) =
        ((members [] root).filter fun member => decide (lower member.1 = entry.2.m_name)).map
          fun member => nodeText emit member.2 := by
    simp [reads, ListAllMember_eq, List.filter_filter]
  rw [strings, texts]
  have each : ∀ member : Text × Node, lower member.1 = entry.2.m_name →
      ((finds entry.1 member && valid member.1) = true ↔
        member.1 ≠ [] ∧ member.1 = entry.1 ∧ lower member.1 = member.1 ∧ '9' ∉ member.1) := by
    intro member named
    rw [← named] at names
    rw [Bool.and_eq_true, valid_iff names]
    constructor
    · rintro ⟨found, folded, missing⟩
      simp only [finds, Bool.and_eq_true, Bool.not_eq_true', List.isEmpty_eq_false_iff,
        decide_eq_true_eq] at found
      exact ⟨found.1, folded.symm.trans found.2, folded, missing⟩
    · rintro ⟨given, registered, folded, missing⟩
      refine ⟨?_, folded, missing⟩
      simp only [finds, Bool.and_eq_true, Bool.not_eq_true', List.isEmpty_eq_false_iff,
        decide_eq_true_eq]
      exact ⟨given, folded.trans registered⟩
  constructor
  · intro read member mem named
    exact (each member named).mp (read member mem (decide_eq_true named))
  · intro read member mem want
    have named := of_decide_eq_true want
    exact (each member named).mpr (read member mem named)

/-- Each variable reads the nodes that are named like it, if and only if the
paths of these nodes are the names they were registered under, folded already
and without a 9. -/
theorem loads_named (emit : Node → Text) (root : Node) (datas : Datas)
    (names : ∀ entry ∈ datas.vars, ∀ c ∈ entry.2.m_name, c ∈ documented) :
    (LoadFromYaml emit root datas).vars = datas.named_by emit root ↔
      ∀ member ∈ members [] root, ∀ entry ∈ datas.vars, lower member.1 = entry.2.m_name →
        member.1 ≠ [] ∧ member.1 = entry.1 ∧ lower member.1 = member.1 ∧ '9' ∉ member.1 := by
  have each : (LoadFromYaml emit root datas).vars = datas.named_by emit root ↔
      ∀ entry ∈ datas.vars, reads emit (finds entry.1) (ListAllMember [] root) entry =
        reads emit (fun member => lower member.1 = entry.2.m_name) (members [] root) entry := by
    unfold LoadFromYaml
    rw [foldl_load]
    exact List.map_inj_left
  rw [each]
  constructor
  · intro same member mem entry registered
    exact (reads_named_iff emit root registered (names entry registered)).mp
      (same entry registered) member mem
  · intro named entry registered
    apply (reads_named_iff emit root registered (names entry registered)).mpr
    intro member mem
    exact named member mem entry registered

def Node.entry (key : String) (value : Node) : Node := .map [(.scalar key.toList, value)]

theorem names_of_all {datas : Datas}
    (all : (datas.vars.all fun entry => entry.2.m_name.all (documented.contains ·)) = true) :
    ∀ entry ∈ datas.vars, ∀ c ∈ entry.2.m_name, c ∈ documented := by
  intro entry mem c known
  exact List.contains_iff_mem.mp (List.all_eq_true.mp (List.all_eq_true.mp all entry mem) c known)

theorem loads_named_port :
    (LoadFromYaml (fun _ => []) (.entry "system" (.entry "port" (.scalar "80".toList)))
        (({} : Datas).Lookup "system.port".toList)).vars =
      (({} : Datas).Lookup "system.port".toList).named_by (fun _ => [])
        (.entry "system" (.entry "port" (.scalar "80".toList))) ↔
      ∀ member ∈ members [] (.entry "system" (.entry "port" (.scalar "80".toList))),
        ∀ entry ∈ (({} : Datas).Lookup "system.port".toList).vars,
          lower member.1 = entry.2.m_name →
            member.1 ≠ [] ∧ member.1 = entry.1 ∧ lower member.1 = member.1 ∧ '9' ∉ member.1 :=
  loads_named _ _ _ (names_of_all (by decide))

theorem nine_not_loaded :
    ¬ ∀ (emit : Node → Text) (root : Node) (datas : Datas),
      (∀ entry ∈ datas.vars, ∀ c ∈ entry.2.m_name, c ∈ documented) →
        (LoadFromYaml emit root datas).vars = datas.named_by emit root := by
  intro always
  have loaded := always (fun _ => []) (.entry "http9" (.scalar "80".toList))
    (({} : Datas).Lookup "http9".toList) (names_of_all (by decide))
  revert loaded
  decide

end Ztyco.Config
