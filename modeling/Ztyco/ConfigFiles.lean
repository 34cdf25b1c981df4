import Mathlib.Logic.Function.Basic
import Ztyco.Transition

/-!
`Config::LoadFromConDir` of config.cc: calls for any directories, while files
are written in between. `ListAllFile` and `lstat` read the file system, every
file is parsed with success, and the modification times of the last calls are
looked up in `s_file2modifytime`, where a file that is not there gets a zero.
-/

namespace Ztyco.Configuration

open Transition

abbrev FileName := List Char

/-- A file of a call's listing. `last` is its modification time when it was last
parsed before. -/
structure Visit where
  file : FileName
  force : Bool
  st_mtime : Int64
  last : Option Int64
  parsed : Bool
  deriving DecidableEq, Repr

/-- `listing` is what `ListAllFile` finds in a directory. `lastParsed` and
`visits` are history. -/
structure Files where
  listing : FileName → List FileName := fun _ => []
  st_mtime : FileName → Int64 := fun _ => 0
  s_file2modifytime : FileName → Option UInt64 := fun _ => none
  lastParsed : FileName → Option Int64 := fun _ => none
  visits : List Visit := []

inductive FileAct where
  | list (dir : FileName) (files : List FileName)
  | write (file : FileName) (st_mtime : Int64)
  | load (dir : FileName) (force : Bool)
  deriving DecidableEq, Repr

namespace Files

/-- `s_file2modifytime[it]`, which makes an entry where there is none. -/
def subscript (w : Files) (file : FileName) : UInt64 × Files :=
  match w.s_file2modifytime file with
  | some time => (time, w)
  | none => (0, { w with
      s_file2modifytime := Function.update w.s_file2modifytime file (some 0) })

def unchanged (w : Files) (file : FileName) (force : Bool) : Bool × Files :=
  if force then (false, w)
  else
    let (time, w) := w.subscript file
    (time == (w.st_mtime file).toUInt64, w)

def record (w : Files) (file : FileName) (force parsed : Bool) : Files :=
  { w with visits := w.visits ++
      [{ file := file, force := force, st_mtime := w.st_mtime file, last := w.lastParsed file,
         parsed := parsed }] }

def parse (w : Files) (file : FileName) (force : Bool) : Files :=
  { w.record file force true with
    lastParsed := Function.update w.lastParsed file (some (w.st_mtime file)) }

def visit (w : Files) (force : Bool) (file : FileName) : Files :=
  let (same, w) := w.unchanged file force
  if same then w.record file force false else w.parse file force

def loadFromConDir (w : Files) (dir : FileName) (force : Bool) : Files :=
  (w.listing dir).foldl (fun w file => w.visit force file) w

def act (w : Files) : FileAct → Option Files
  | .list dir files => some { w with listing := Function.update w.listing dir files }
  | .write file st_mtime => some { w with st_mtime := Function.update w.st_mtime file st_mtime }
  | .load dir force => some (w.loadFromConDir dir force)

end Files

def conDirs : Machine Files FileAct where
  initial w := w.s_file2modifytime = (fun _ => none) ∧ w.lastParsed = (fun _ => none) ∧
    w.visits = []
  step := Files.act

def Visit.Changed (visit : Visit) : Prop := visit.last ≠ some visit.st_mtime

instance Visit.Changed.decidable (visit : Visit) : Decidable visit.Changed :=
  inferInstanceAs (Decidable (¬ _ = _))

def ParsesChanged (w : Files) : Prop :=
  ∀ visit ∈ w.visits, visit.force = false → (visit.parsed = true ↔ visit.Changed)

/-- The files visited by unforced calls are changed ones, but for those that are
dated at the epoch, which are not. -/
def OnlyChanged (w : Files) : Prop :=
  ∀ visit ∈ w.visits, visit.force = false → (visit.st_mtime ≠ 0 ↔ visit.Changed)

/-! The times that are recorded. -/

/-- No modification time is ever written, so all there are are zeros. -/
structure Zeros (w : Files) : Prop where
  times : ∀ file time, w.s_file2modifytime file = some time → time = 0
  visits : ∀ visit ∈ w.visits, visit.force = false → (visit.parsed = true ↔ visit.st_mtime ≠ 0)

theorem subscript_zeros {w : Files} (zeros : Zeros w) (file : FileName) :
    (w.subscript file).1 = 0 ∧ Zeros (w.subscript file).2 ∧
      (w.subscript file).2.st_mtime = w.st_mtime := by
  cases found : w.s_file2modifytime file with
  | some time =>
      have zero := zeros.times file time found
      simpa [Files.subscript, found] using ⟨zero, zeros⟩
  | none =>
      simp only [Files.subscript, found]
      refine ⟨trivial, ⟨?_, zeros.visits⟩, trivial⟩
      intro other time present
      by_cases same : other = file
      · subst same
        simpa using present.symm
      · exact zeros.times other time (by simpa [same] using present)

theorem record_zeros {w : Files} (zeros : Zeros w) (file : FileName) (force parsed : Bool)
    (dated : force = false → (parsed = true ↔ w.st_mtime file ≠ 0)) :
    Zeros (w.record file force parsed) := by
  refine ⟨zeros.times, ?_⟩
  intro visit mem
  rcases List.mem_append.mp mem with old | new
  · exact zeros.visits visit old
  · rw [List.mem_singleton.mp new]
    exact dated

theorem unchanged_zeros {w : Files} (zeros : Zeros w) (file : FileName) (force : Bool) :
    ((w.unchanged file force).1 = true ↔ force = false ∧ w.st_mtime file = 0) ∧
      Zeros (w.unchanged file force).2 ∧ (w.unchanged file force).2.st_mtime = w.st_mtime := by
  cases force with
  | true => exact ⟨by simp [Files.unchanged], zeros, rfl⟩
  | false =>
      rcases subscript_zeros zeros file with ⟨zero, kept, times⟩
      refine ⟨?_, kept, times⟩
      have cast : (w.st_mtime file).toUInt64 = 0 ↔ w.st_mtime file = 0 := by
        constructor
        · exact fun same => congrArg UInt64.toInt64 same
        · rintro same
          rw [same]
          rfl
      simp only [Files.unchanged, Bool.false_eq_true, ↓reduceIte, zero, times, beq_iff_eq,
        true_and]
      rw [eq_comm, cast]

theorem visit_zeros {w : Files} (zeros : Zeros w) (force : Bool) (file : FileName) :
    Zeros (w.visit force file) := by
  rcases unchanged_zeros zeros file force with ⟨skips, kept, times⟩
  simp only [Files.visit]
  cases same : (w.unchanged file force).1 with
  | true =>
      obtain ⟨unforced, epoch⟩ := skips.mp same
      exact record_zeros kept file force false (by simp [times, epoch])
  | false =>
      have recorded := record_zeros kept file force true fun unforced => by
        have dated : ¬ (force = false ∧ w.st_mtime file = 0) := by
          rw [← skips, same]
          decide
        rw [times]
        exact iff_of_true rfl fun epoch => dated ⟨unforced, epoch⟩
      exact ⟨recorded.times, recorded.visits⟩

theorem load_zeros {w : Files} (zeros : Zeros w) (dir : FileName) (force : Bool) :
    Zeros (w.loadFromConDir dir force) := by
  have all : ∀ (files : List FileName) (w : Files), Zeros w →
      Zeros (files.foldl (fun w file => w.visit force file) w) := by
    intro files
    induction files with
    | nil => exact fun _ zeros => zeros
    | cons file rest ih =>
        exact fun w zeros => ih (w.visit force file) (visit_zeros zeros force file)
  exact all (w.listing dir) w zeros

theorem reach_zeros {w : Files} (reached : Reach conDirs anyStep w) : Zeros w := by
  apply reached.invariant Zeros
  · rintro w ⟨times, _, visits⟩
    constructor
    · intro file time found
      rw [times] at found
      cases found
    · rw [visits]
      exact fun _ mem => absurd mem List.not_mem_nil
  · intro before act after _ zeros _ moved
    cases act with
    | list dir files =>
        cases moved
        exact ⟨zeros.times, zeros.visits⟩
    | write file st_mtime =>
        cases moved
        exact ⟨zeros.times, zeros.visits⟩
    | load dir force =>
        cases moved
        exact load_zeros zeros dir force

/-- Unforced calls have parsed the changed files and no others where they have
visited no others. -/
theorem parses_changed_iff {w : Files} (reached : Reach conDirs anyStep w) :
    ParsesChanged w ↔ OnlyChanged w := by
  have zeros := reach_zeros reached
  constructor
  · intro parses visit mem unforced
    exact (zeros.visits visit mem unforced).symm.trans (parses visit mem unforced)
  · intro only visit mem unforced
    exact (zeros.visits visit mem unforced).trans (only visit mem unforced)

def confFile : FileName := ['a', '.', 'y', 'm', 'l']

theorem parses_changed_iff_once :
    ∃ w, run conDirs {} [.list [] [confFile], .write confFile 7, .load [] false] = some w ∧
      (ParsesChanged w ↔ OnlyChanged w) :=
  run_meets anyStep ⟨rfl, rfl, rfl⟩ (by decide) (by decide) fun _ => parses_changed_iff

/-- The second unforced call finds the file as it was, and parses it again. -/
theorem unforced_parses_again :
    ∃ w, Reach conDirs anyStep w ∧ w.visits = [⟨confFile, false, 7, none, true⟩,
      ⟨confFile, false, 7, some 7, true⟩] ∧ ¬ ParsesChanged w := by
  rcases reach_where conDirs anyStep {} [.list [] [confFile], .write confFile 7, .load [] false,
      .load [] false]
      (fun w => decide (w.visits = [⟨confFile, false, 7, none, true⟩,
        ⟨confFile, false, 7, some 7, true⟩]))
      ⟨rfl, rfl, rfl⟩ (by decide) (by decide) with ⟨w, reached, ends⟩
  have visits := of_decide_eq_true ends
  refine ⟨w, reached, visits, fun parses => ?_⟩
  have again := parses ⟨confFile, false, 7, some 7, true⟩ (by simp [visits]) rfl
  exact again.mp rfl rfl

end Ztyco.Configuration
