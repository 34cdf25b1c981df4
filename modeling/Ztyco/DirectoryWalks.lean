import Mathlib.Data.List.Nodup
import Mathlib.Data.UInt
import Mathlib.Logic.Function.Basic

/-!
`ListAllFile`, `Unlink` and `Rm` of FSUtil in util.cc, over what the system calls
answer about a disk. A walk that takes more rounds and calls than its fuel has no
result. Both loops read the first entry of a directory before they begin, and no
other.
-/

namespace Ztyco.FSUtil

abbrev Path := List Char

inductive Kind where
  | regular | directory | symlink | socket | fifo | character | block
  deriving DecidableEq, Repr

def Kind.st_mode : Kind → UInt32
  | .regular => 0x8000
  | .directory => 0x4000
  | .symlink => 0xa000
  | .socket => 0xc000
  | .fifo => 0x1000
  | .character => 0x2000
  | .block => 0x6000

def S_IFDIR : UInt32 := 0x4000

structure Dirent where
  d_name : Path
  d_type : Kind
  deriving DecidableEq, Repr

def Dirent.isDot (d : Dirent) : Bool := d.d_name = ['.'] || d.d_name = ['.', '.']

def child (path name : Path) : Path := path ++ '/' :: name

/-- `stream` is what `readdir` returns of a directory, one entry after another,
and `unlinks` and `rmdirs` are the permissions. -/
structure Disk where
  access : Path → Bool
  kind : Path → Option Kind
  opens : Path → Bool
  stream : Path → List Dirent
  unlinks : Path → Bool
  rmdirs : Path → Bool
  dots : ∀ path, opens path = true → ∀ name ∈ [['.'], ['.', '.']],
    { d_name := name, d_type := .directory } ∈ stream path
  once : ∀ path, ((stream path).map Dirent.d_name).Nodup
  typed : ∀ path, ∀ d ∈ stream path, d.isDot = false →
    kind (child path d.d_name) = some d.d_type

namespace Disk

def entries (disk : Disk) (path : Path) : List Dirent :=
  (disk.stream path).filter fun d => !d.isDot

def remove (disk : Disk) (path : Path) : Disk where
  access other := disk.access other && other ≠ path
  kind := Function.update disk.kind path none
  opens other := disk.opens other && other ≠ path
  stream other := (disk.stream other).filter fun d => d.isDot || child other d.d_name ≠ path
  unlinks := disk.unlinks
  rmdirs := disk.rmdirs
  dots other opened name mem := by
    have listed := disk.dots other (Bool.and_eq_true_iff.mp opened).1 name mem
    refine List.mem_filter.mpr ⟨listed, ?_⟩
    rcases List.mem_cons.mp mem with rfl | mem
    · rfl
    · rw [List.mem_singleton.mp mem]
      rfl
  once other := (disk.once other).sublist (List.filter_sublist.map _)
  typed other d mem entry := by
    obtain ⟨listed, kept⟩ := List.mem_filter.mp mem
    rw [entry, Bool.false_or] at kept
    rw [Function.update_of_ne (of_decide_eq_true kept)]
    exact disk.typed other d listed entry

def unlink (disk : Disk) (path : Path) : Bool × Disk :=
  if disk.unlinks path ∧ disk.kind path ≠ none ∧ disk.kind path ≠ some .directory
  then (true, disk.remove path) else (false, disk)

def rmdir (disk : Disk) (path : Path) : Bool × Disk :=
  if disk.rmdirs path ∧ disk.kind path = some .directory ∧ disk.entries path = []
  then (true, disk.remove path) else (false, disk)

end Disk

/-! `ListAllFile`. -/

def listRound (list : Path → List Path → Option (List Path)) (subfix path : Path) (d : Dirent)
    (files : List Path) : Option (List Path) :=
  if d.d_type = .directory then
    if d.isDot then some files else list (child path d.d_name) files
  else if d.d_type = .regular then
    if subfix = [] then some (files ++ [child path d.d_name])
    else if d.d_name.length < subfix.length then some files
    else if d.d_name.drop (d.d_name.length - subfix.length) = subfix
    then some (files ++ [child path d.d_name]) else some files
  else some files

/-- `while (d != nullptr)`; a round leaves `d` as it is. -/
def listLoop (list : Path → List Path → Option (List Path)) (subfix path : Path) :
    Nat → Option Dirent → List Path → Option (List Path)
  | 0, _, _ => none
  | _ + 1, none, files => some files
  | fuel + 1, some d, files =>
      (listRound list subfix path d files).bind (listLoop list subfix path fuel (some d))

def listAllFile (disk : Disk) (subfix : Path) : Nat → Path → List Path → Option (List Path)
  | 0, _, _ => none
  | fuel + 1, path, files =>
      if !disk.access path then some files
      else if !disk.opens path then some files
      else listLoop (listAllFile disk subfix fuel) subfix path fuel (disk.stream path).head? files

/-! `Rm`. -/

def unlink (disk : Disk) (filename : Path) (exist : Bool) : Bool × Disk :=
  if !exist && (disk.kind filename).isNone then (true, disk) else disk.unlink filename

def rmLoop (rm : Disk → Path → Option (Bool × Disk)) (path : Path) :
    Nat → Option Dirent → Bool → Disk → Option (Bool × Disk)
  | 0, _, _, _ => none
  | _ + 1, none, ret, disk => some (ret, disk)
  | fuel + 1, some d, ret, disk =>
      if d.isDot then rmLoop rm path fuel (some d) ret disk
      -- the result of the last child alone
      else (rm disk (child path d.d_name)).bind fun done =>
        rmLoop rm path fuel (some d) done.1 done.2

def rm : Nat → Disk → Path → Option (Bool × Disk)
  | 0, _, _ => none
  | fuel + 1, disk, path =>
      match disk.kind path with
      | none => some (true, disk)
      | some kind =>
          -- sockets and block devices have the bit too
          if kind.st_mode &&& S_IFDIR = 0 then some (unlink disk path false)
          else if !disk.opens path then some (false, disk)
          else
            (rmLoop (rm fuel) path fuel (disk.stream path).head? true disk).map fun (ret, disk) =>
              let (gone, disk) := disk.rmdir path
              (if gone then ret else false, disk)

/-! What the walks are for. -/

inductive RegularBelow (disk : Disk) (subfix : Path) : Path → Path → Prop where
  | entry (path : Path) (d : Dirent) (listed : d ∈ disk.entries path)
      (regular : d.d_type = .regular) (ends : subfix <:+ d.d_name) :
      RegularBelow disk subfix path (child path d.d_name)
  | deeper (path file : Path) (d : Dirent) (listed : d ∈ disk.entries path)
      (directory : d.d_type = .directory)
      (below : RegularBelow disk subfix (child path d.d_name) file) :
      RegularBelow disk subfix path file

/-- Every `unlink` and `rmdir` that is needed succeeds. -/
inductive Removable (disk : Disk) : Path → Prop where
  | missing (path : Path) (nothing : disk.kind path = none) : Removable disk path
  | file (path : Path) (kind : Kind) (found : disk.kind path = some kind)
      (other : kind ≠ .directory) (allowed : disk.unlinks path = true) : Removable disk path
  | directory (path : Path) (found : disk.kind path = some .directory)
      (children : ∀ d ∈ disk.entries path, Removable disk (child path d.d_name))
      (allowed : disk.rmdirs path = true) : Removable disk path

/-- The call ends, and has appended each file once. -/
def ListsAll (disk : Disk) (subfix path : Path) (files : List Path) : Prop :=
  ∃ fuel added, listAllFile disk subfix fuel path files = some (files ++ added) ∧
    added.Nodup ∧ ∀ file, file ∈ added ↔ RegularBelow disk subfix path file

/-- The call ends, and says whether the path is gone. -/
def RemovesAll (disk : Disk) (path : Path) : Prop :=
  ∃ fuel result after, rm fuel disk path = some (result, after) ∧
    (result = true ↔ Removable disk path) ∧ (result = true → after.kind path = none)

/-! A loop that has an entry does not end. -/

theorem listLoop_some (list : Path → List Path → Option (List Path)) (subfix path : Path)
    (fuel : Nat) (d : Dirent) (files : List Path) :
    listLoop list subfix path fuel (some d) files = none := by
  induction fuel generalizing files with
  | zero => rfl
  | succ fuel ih =>
      rw [listLoop]
      -- the call of a round may not end; if it does, `d` is still there
      cases round : listRound list subfix path d files with
      | none => rfl
      | some files' => exact ih files'

theorem rmLoop_some (rm : Disk → Path → Option (Bool × Disk)) (path : Path) (fuel : Nat)
    (d : Dirent) (ret : Bool) (disk : Disk) : rmLoop rm path fuel (some d) ret disk = none := by
  induction fuel generalizing ret disk with
  | zero => rfl
  | succ fuel ih =>
      rw [rmLoop]
      by_cases dot : d.isDot = true
      · rw [if_pos dot]
        exact ih ret disk
      · rw [if_neg dot]
        cases rm disk (child path d.d_name) with
        | none => rfl
        | some done => exact ih done.1 done.2

section Walks
variable {disk : Disk} {path : Path}

theorem stream_head (opened : disk.opens path = true) :
    ∃ d, (disk.stream path).head? = some d := by
  have mem := disk.dots path opened ['.'] List.mem_cons_self
  cases listed : disk.stream path with
  | nil =>
      rw [listed] at mem
      exact absurd mem List.not_mem_nil
  | cons d rest => exact ⟨d, rfl⟩

theorem listAllFile_opened (accessed : disk.access path = true) (opened : disk.opens path = true)
    (subfix : Path) (fuel : Nat) (files : List Path) :
    listAllFile disk subfix fuel path files = none := by
  cases fuel with
  | zero => rfl
  | succ fuel =>
      obtain ⟨d, head⟩ := stream_head opened
      rw [listAllFile, accessed, opened, head, listLoop_some]
      rfl

theorem listAllFile_unopened (closed : ¬ (disk.access path = true ∧ disk.opens path = true))
    (subfix : Path) (fuel : Nat) (files : List Path) :
    listAllFile disk subfix (fuel + 1) path files = some files := by
  rw [listAllFile]
  cases accessed : disk.access path with
  | false => rfl
  | true =>
      have unopened : disk.opens path = false :=
        Bool.eq_false_iff.mpr fun opened => closed ⟨accessed, opened⟩
      rw [unopened]
      rfl

theorem listsAll_iff (subfix : Path) (files : List Path) :
    ListsAll disk subfix path files ↔
      ¬ (disk.access path = true ∧ disk.opens path = true) ∧
        ∀ file, ¬ RegularBelow disk subfix path file := by
  constructor
  · rintro ⟨fuel, added, ended, _, complete⟩
    have closed : ¬ (disk.access path = true ∧ disk.opens path = true) := by
      rintro ⟨accessed, opened⟩
      rw [listAllFile_opened accessed opened] at ended
      cases ended
    refine ⟨closed, ?_⟩
    cases fuel with
    | zero => cases ended
    | succ fuel =>
        rw [listAllFile_unopened closed] at ended
        have nothing : added = [] := List.self_eq_append_right.mp (Option.some.inj ended)
        intro file regular
        have mem := (complete file).mpr regular
        rw [nothing] at mem
        exact absurd mem List.not_mem_nil
  · rintro ⟨closed, nothing⟩
    refine ⟨1, [], ?_, List.nodup_nil, ?_⟩
    · rw [listAllFile_unopened closed, List.append_nil]
    · intro file
      exact iff_of_false List.not_mem_nil (nothing file)

theorem rm_missing (nothing : disk.kind path = none) (fuel : Nat) :
    rm (fuel + 1) disk path = some (true, disk) := by
  rw [rm, nothing]

theorem rm_file {kind : Kind} (found : disk.kind path = some kind)
    (clear : kind.st_mode &&& S_IFDIR = 0) (fuel : Nat) :
    rm (fuel + 1) disk path = some (disk.unlink path) := by
  rw [rm, found]
  simp only [if_pos clear, unlink, found]
  rfl

theorem rm_unopened {kind : Kind} (found : disk.kind path = some kind)
    (bit : kind.st_mode &&& S_IFDIR ≠ 0) (closed : disk.opens path = false) (fuel : Nat) :
    rm (fuel + 1) disk path = some (false, disk) := by
  rw [rm, found]
  simp only [if_neg bit, closed]
  rfl

theorem rm_opened {kind : Kind} (found : disk.kind path = some kind)
    (bit : kind.st_mode &&& S_IFDIR ≠ 0) (opened : disk.opens path = true) (fuel : Nat) :
    rm fuel disk path = none := by
  cases fuel with
  | zero => rfl
  | succ fuel =>
      obtain ⟨d, head⟩ := stream_head opened
      rw [rm, found]
      simp only [if_neg bit, opened, head, rmLoop_some]
      rfl

/-- What has no directory bit is unlinked. -/
theorem unlink_removable {kind : Kind} (found : disk.kind path = some kind)
    (clear : kind.st_mode &&& S_IFDIR = 0) :
    ((disk.unlink path).1 = true ↔ Removable disk path) ∧
      ((disk.unlink path).1 = true → (disk.unlink path).2.kind path = none) := by
  have other : kind ≠ .directory := by
    rintro rfl
    exact absurd clear (by decide)
  have unlinkable : disk.kind path ≠ none ∧ disk.kind path ≠ some .directory := by
    rw [found]
    exact ⟨Option.some_ne_none kind, fun same => other (Option.some.inj same)⟩
  unfold Disk.unlink
  by_cases allowed : disk.unlinks path = true
  · rw [if_pos ⟨allowed, unlinkable⟩]
    exact ⟨iff_of_true rfl (.file path kind found other allowed),
      fun _ => Function.update_self _ _ _⟩
  · rw [if_neg fun all => allowed all.1]
    refine ⟨iff_of_false Bool.false_ne_true ?_, fun gone => Bool.noConfusion gone⟩
    intro removable
    cases removable with
    | missing _ nothing => exact unlinkable.1 nothing
    | file _ _ _ _ allowed' => exact allowed allowed'
    | directory _ found' => exact unlinkable.2 found'

theorem removesAll_iff :
    RemovesAll disk path ↔
      disk.kind path = none ∨
        (∃ kind, disk.kind path = some kind ∧ kind.st_mode &&& S_IFDIR = 0) ∨
          disk.opens path = false ∧ ¬ Removable disk path := by
  cases found : disk.kind path with
  | none =>
      refine iff_of_true ?_ (Or.inl rfl)
      exact ⟨1, true, disk, rm_missing found 0, iff_of_true rfl (.missing path found),
        fun _ => found⟩
  | some kind =>
      by_cases clear : kind.st_mode &&& S_IFDIR = 0
      · refine iff_of_true ?_ (Or.inr (Or.inl ⟨kind, rfl, clear⟩))
        exact ⟨1, _, _, rm_file found clear 0, unlink_removable found clear⟩
      · constructor
        · rintro ⟨fuel, result, after, ended, right, _⟩
          refine Or.inr (Or.inr ?_)
          cases opened : disk.opens path with
          | true =>
              rw [rm_opened found clear opened] at ended
              cases ended
          | false =>
              refine ⟨rfl, fun removable => ?_⟩
              cases fuel with
              | zero => cases ended
              | succ fuel =>
                  rw [rm_unopened found clear opened] at ended
                  cases ended
                  exact Bool.false_ne_true (right.mpr removable)
        · rintro (nothing | ⟨kind', same, clear'⟩ | ⟨closed, fixed⟩)
          · cases nothing
          · obtain rfl : kind = kind' := Option.some.inj same
            exact absurd clear' clear
          · exact ⟨1, false, disk, rm_unopened found clear closed 0,
              iff_of_false Bool.false_ne_true fixed, fun gone => Bool.noConfusion gone⟩

end Walks

theorem walks_iff (disk : Disk) :
    (∀ subfix path files, ListsAll disk subfix path files ↔
      ¬ (disk.access path = true ∧ disk.opens path = true) ∧
        ∀ file, ¬ RegularBelow disk subfix path file) ∧
    ∀ path, RemovesAll disk path ↔
      disk.kind path = none ∨
        (∃ kind, disk.kind path = some kind ∧ kind.st_mode &&& S_IFDIR = 0) ∨
          disk.opens path = false ∧ ¬ Removable disk path :=
  ⟨fun _ _ _ => listsAll_iff _ _, fun _ => removesAll_iff⟩

def emptyDirectory : Disk where
  access path := path = ['d']
  kind path := if path = ['d'] then some .directory else none
  opens path := path = ['d']
  stream path := if path = ['d']
    then [{ d_name := ['.'], d_type := .directory }, { d_name := ['.', '.'], d_type := .directory }]
    else []
  unlinks _ := true
  rmdirs _ := true
  dots path opened name mem := by
    rw [if_pos (of_decide_eq_true opened)]
    rcases List.mem_cons.mp mem with rfl | mem
    · exact List.mem_cons_self
    · rw [List.mem_singleton.mp mem]
      exact List.mem_cons_of_mem _ List.mem_cons_self
  once path := by
    split
    · decide
    · exact List.nodup_nil
  typed path d mem entry := by
    split at mem
    · rcases List.mem_cons.mp mem with rfl | mem
      · cases entry
      · rw [List.mem_singleton.mp mem] at entry
        cases entry
    · exact absurd mem List.not_mem_nil

theorem walks_endless :
    ¬ ListsAll emptyDirectory [] ['d'] [] ∧ ¬ RemovesAll emptyDirectory ['d'] := by
  constructor
  · rintro ⟨fuel, added, ended, _⟩
    rw [listAllFile_opened rfl rfl] at ended
    cases ended
  · rintro ⟨fuel, result, after, ended, _⟩
    rw [rm_opened rfl (by decide) rfl] at ended
    cases ended

end Ztyco.FSUtil
