import Mathlib.Logic.Function.Basic

/-!
A store with one place for each key. An item is put in an empty place and
taken out of an occupied one. The history of such a store accounts for every
item: per key, what was put is what was taken, in order, and then what is
still there.
-/

namespace Ztyco.SlotStore

universe u v
variable {Key : Type u} {Item : Type v} [DecidableEq Key]

inductive Entry (Key : Type u) (Item : Type v) where
  | put (key : Key) (item : Item)
  | take (key : Key) (item : Item)

/-- The stores that a list of entries, oldest first, can lead to. -/
inductive History : (Key → Option Item) → List (Entry Key Item) → Prop where
  | start : History (fun _ => none) []
  | put {store entries key} (item) : History store entries → store key = none →
      History (Function.update store key (some item)) (entries ++ [.put key item])
  | take {store entries key item} : History store entries → store key = some item →
      History (Function.update store key none) (entries ++ [.take key item])

def Entry.putAt (key : Key) : Entry Key Item → Option Item
  | .put key' item => if key' = key then some item else none
  | .take _ _ => none

def Entry.takenAt (key : Key) : Entry Key Item → Option Item
  | .put _ _ => none
  | .take key' item => if key' = key then some item else none

def puts (key : Key) (entries : List (Entry Key Item)) : List Item :=
  entries.filterMap (Entry.putAt key)

def takes (key : Key) (entries : List (Entry Key Item)) : List Item :=
  entries.filterMap (Entry.takenAt key)

@[simp] theorem puts_concat (key : Key) (entries : List (Entry Key Item)) (entry) :
    puts key (entries ++ [entry]) = puts key entries ++ (entry.putAt key).toList := by
  cases added : entry.putAt key <;> simp [puts, added]

@[simp] theorem takes_concat (key : Key) (entries : List (Entry Key Item)) (entry) :
    takes key (entries ++ [entry]) = takes key entries ++ (entry.takenAt key).toList := by
  cases added : entry.takenAt key <;> simp [takes, added]

theorem History.balance {store : Key → Option Item} {entries : List (Entry Key Item)}
    (history : History store entries) (key : Key) :
    puts key entries = takes key entries ++ (store key).toList := by
  induction history with
  | start => rfl
  | put item _ empty ih =>
      rename_i changed _
      by_cases same : changed = key
      · subst same
        simp [Entry.putAt, Entry.takenAt, ih, empty]
      · simp [Entry.putAt, Entry.takenAt, same, Ne.symm same, ih]
  | take _ holds ih =>
      rename_i changed _ _
      by_cases same : changed = key
      · subst same
        simp [Entry.putAt, Entry.takenAt, ih, holds]
      · simp [Entry.putAt, Entry.takenAt, same, Ne.symm same, ih]

end Ztyco.SlotStore
