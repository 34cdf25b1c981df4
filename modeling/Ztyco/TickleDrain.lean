import Mathlib.Algebra.Ring.Nat
import Ztyco.FdManager

/-!
The tickle pipe of iomanager.cc: the constructor that sets its read end up,
`tickle`, and the loop with which `idle` reads it empty. The loop has to be
told by the last `read` that nothing is left, which an empty pipe does only on
a read end with `O_NONBLOCK`. Of the kernel it is assumed that a `read` of an
empty pipe returns -1 there and blocks elsewhere, and that `fcntl` changes the
flags of a file for `F_SETFL` only.
-/

namespace Ztyco.TickleDrain

open Descriptors (Flags O_NONBLOCK SETFL_MASK)

def F_GETFL : Flags := 3
def F_SETFL : Flags := 4

structure Pipe where
  bytes : Nat := 0
  flags : Flags
  deriving DecidableEq, Repr

/-- A `read` that returns, or that waits for a writer. -/
inductive ReadResult where
  | returned (n : Int)
  | blocked
  deriving DecidableEq, Repr

namespace Pipe

def nonblocking (pipe : Pipe) : Bool := pipe.flags &&& O_NONBLOCK != 0

/-- `fcntl(m_tickleFds[0], cmd, arg)`; a command that reads no argument is
given one all the same, and `ret` is what the other commands return. -/
def fcntl (pipe : Pipe) (cmd arg ret : Flags) : Flags × Pipe :=
  if cmd = F_GETFL then (pipe.flags, pipe)
  else if cmd = F_SETFL then
    (0, { pipe with flags := (pipe.flags &&& ~~~SETFL_MASK) ||| (arg &&& SETFL_MASK) })
  else (ret, pipe)

/-- `IOManager::IOManager`, from `pipe` to the registration of the read end;
`made` are the flags of a new pipe. -/
def constructed (made arg ret : Flags) : Pipe :=
  let pipe : Pipe := { flags := made }
  let flag := (pipe.fcntl F_GETFL 0 ret).1
  let flag := flag ||| O_NONBLOCK
  -- the flags stand where the command belongs
  (pipe.fcntl flag arg ret).2

def tickle (pipe : Pipe) (hasIdleThreads : Bool) : Pipe :=
  if !hasIdleThreads then pipe else { pipe with bytes := pipe.bytes + 1 }

def read (pipe : Pipe) (count : Nat) : ReadResult × Pipe :=
  if 0 < pipe.bytes then
    (.returned (min pipe.bytes count : Nat),
      { pipe with bytes := pipe.bytes - min pipe.bytes count })
  else if pipe.nonblocking then (.returned (-1), pipe) else (.blocked, pipe)

def dummySize : Nat := 256

theorem read_shrinks {pipe rest : Pipe} {n : Int} (positive : 0 < n)
    (done : pipe.read dummySize = (.returned n, rest)) : rest.bytes < pipe.bytes := by
  unfold read at done
  split at done
  · rename_i some_left
    cases done
    exact Nat.sub_lt some_left (Nat.lt_min.mpr ⟨some_left, by decide⟩)
  · split at done
    · cases done
      cases positive
    · cases done

def drain (pipe : Pipe) : List ReadResult × Pipe :=
  match done : pipe.read dummySize with
  | (.returned n, rest) =>
      if positive : 0 < n then
        have := read_shrinks positive done
        (.returned n :: rest.drain.1, rest.drain.2)
      else ([.returned n], rest)
  | (.blocked, rest) => ([.blocked], rest)
termination_by pipe.bytes

end Pipe

open Pipe

def Drains (pipe : Pipe) : Prop := pipe.drain.2.bytes = 0 ∧ .blocked ∉ pipe.drain.1

def Pipe.last (pipe : Pipe) : ReadResult := if pipe.nonblocking then .returned (-1) else .blocked

theorem drain_empty {pipe : Pipe} (empty : pipe.bytes = 0) : pipe.drain = ([pipe.last], pipe) := by
  have done : pipe.read dummySize = (pipe.last, pipe) := by
    unfold Pipe.read Pipe.last
    rw [if_neg (Nat.not_lt.mpr (Nat.le_of_eq empty))]
    split <;> rfl
  unfold Pipe.drain
  split
  · rename_i n rest result
    rw [done] at result
    cases kind : pipe.nonblocking with
    | true =>
        simp only [Pipe.last, kind, ↓reduceIte, Prod.mk.injEq, ReadResult.returned.injEq] at result
        rcases result with ⟨rfl, rfl⟩
        rw [dif_neg (by decide), Pipe.last, if_pos kind]
    | false => simp [Pipe.last, kind] at result
  · rename_i rest result
    rw [done, Prod.mk.injEq] at result
    rw [← result.2, ← result.1]

theorem drain_some {pipe : Pipe} (some_left : 0 < pipe.bytes) :
    let rest := { pipe with bytes := pipe.bytes - min pipe.bytes dummySize }
    pipe.drain =
      (.returned (min pipe.bytes dummySize : Nat) :: rest.drain.1, rest.drain.2) := by
  have done : pipe.read dummySize = (.returned (min pipe.bytes dummySize : Nat),
      { pipe with bytes := pipe.bytes - min pipe.bytes dummySize }) := if_pos some_left
  have taken : 0 < min pipe.bytes dummySize := Nat.lt_min.mpr ⟨some_left, by decide⟩
  rw [Pipe.drain]
  split
  · rename_i n rest result
    rw [done] at result
    cases result
    rw [dif_pos (Int.natCast_pos.mpr taken)]
  · rename_i rest result
    rw [done] at result
    cases result

theorem drain_chunks (pipe : Pipe) :
    ∃ chunks : List Nat, chunks.sum = pipe.bytes ∧ (∀ n ∈ chunks, 0 < n ∧ n ≤ dummySize) ∧
      pipe.drain =
        (chunks.map (fun n => .returned (n : Int)) ++ [pipe.last], { pipe with bytes := 0 }) := by
  induction size : pipe.bytes using Nat.strongRecOn generalizing pipe with
  | _ bytes ih =>
      subst size
      by_cases empty : pipe.bytes = 0
      · refine ⟨[], empty.symm, nofun, ?_⟩
        rw [drain_empty empty, List.map_nil, List.nil_append, ← empty]
      · have some_left := Nat.pos_of_ne_zero empty
        have taken : 0 < min pipe.bytes dummySize := Nat.lt_min.mpr ⟨some_left, by decide⟩
        have part := Nat.min_le_left pipe.bytes dummySize
        rcases ih _ (Nat.sub_lt some_left taken)
          { pipe with bytes := pipe.bytes - min pipe.bytes dummySize } rfl with
          ⟨chunks, total, bounded, rest⟩
        refine ⟨min pipe.bytes dummySize :: chunks, ?_, ?_, ?_⟩
        · rw [List.sum_cons, total]
          omega
        · intro n mem
          rcases List.mem_cons.mp mem with rfl | mem
          · exact ⟨taken, Nat.min_le_right pipe.bytes dummySize⟩
          · exact bounded n mem
        · rw [drain_some some_left, rest]
          rfl

theorem drains_iff (pipe : Pipe) : Drains pipe ↔ pipe.nonblocking = true := by
  rcases drain_chunks pipe with ⟨chunks, _, _, result⟩
  rw [Drains, result]
  cases kind : pipe.nonblocking with
  | true => simp [Pipe.last, kind]
  | false => simp [Pipe.last, kind]

/-! The constructor and `tickle`. -/

/-- The flags with `O_NONBLOCK` are no command of `fcntl` that is known here. -/
theorem flag_no_command (flags : Flags) :
    flags ||| O_NONBLOCK ≠ F_GETFL ∧ flags ||| O_NONBLOCK ≠ F_SETFL := by
  have high : (flags ||| O_NONBLOCK).getLsbD 11 = true := by simp [O_NONBLOCK]
  constructor
  · intro same
    rw [same] at high
    exact absurd high (by decide)
  · intro same
    rw [same] at high
    exact absurd high (by decide)

/-- The read end keeps the flags it was made with. -/
theorem constructed_flags (made arg ret : Flags) :
    Pipe.constructed made arg ret = { flags := made } := by
  rcases flag_no_command made with ⟨other, another⟩
  simp only [Pipe.constructed, Pipe.fcntl, ↓reduceIte, if_neg other, if_neg another]

theorem tickle_flags (pipe : Pipe) (idle : List Bool) :
    idle.foldl Pipe.tickle pipe =
      { bytes := pipe.bytes + idle.count true, flags := pipe.flags } := by
  induction idle generalizing pipe with
  | nil => rfl
  | cons hasIdleThreads rest ih =>
      rw [List.foldl_cons, ih]
      cases hasIdleThreads with
      | true => simp [Pipe.tickle, Nat.add_comm 1, Nat.add_assoc]
      | false => simp [Pipe.tickle]

/-- Whatever was written, the loop takes it all and then blocks: `pipe` makes a
read end that blocks, and the constructor does not change that. -/
theorem tickle_drain_blocks {made : Flags} (blocking : made &&& O_NONBLOCK = 0) (arg ret : Flags)
    (idle : List Bool) :
    let pipe := idle.foldl Pipe.tickle (Pipe.constructed made arg ret)
    pipe.bytes = idle.count true ∧ pipe.drain.2.bytes = 0 ∧
      pipe.drain.1.getLast? = some .blocked ∧ ¬ Drains pipe := by
  intro pipe
  have same : pipe = { bytes := idle.count true, flags := made } := by
    have written := tickle_flags (Pipe.constructed made arg ret) idle
    rw [constructed_flags] at written
    simpa [pipe, constructed_flags] using written
  have waits : pipe.nonblocking = false := by simp [same, Pipe.nonblocking, blocking]
  rcases drain_chunks pipe with ⟨chunks, _, _, result⟩
  refine ⟨by rw [same], by rw [result], ?_, ?_⟩
  · rw [result, List.getLast?_append, Pipe.last, waits]
    rfl
  · rw [drains_iff, waits]
    exact Bool.false_ne_true

theorem tickle_drain_blocks_full :
    let pipe := (List.replicate 512 true).foldl Pipe.tickle (Pipe.constructed 0 0 0)
    pipe.bytes = (List.replicate 512 true).count true ∧ pipe.drain.2.bytes = 0 ∧
      pipe.drain.1.getLast? = some .blocked ∧ ¬ Drains pipe :=
  tickle_drain_blocks (by decide : (0 : Flags) &&& O_NONBLOCK = 0) 0 0 (List.replicate 512 true)

theorem single_tickle_blocks : ¬ Drains ((Pipe.constructed 0 0 0).tickle true) := by
  rw [drains_iff]
  decide

end Ztyco.TickleDrain
