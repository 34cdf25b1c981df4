import Mathlib.Data.List.Basic
import Ztyco.Transition

/-!
daemon.cc: the parent process of `real_daemon` and the children that it forks one
after another. A child runs `main_cb` in a process of its own and ends with what it
returns or by a signal; the parent sees the status word that `waitpid` leaves. A call
of `waitpid` that fails, as one that a signal interrupts does, leaves `status` at 0.
Logging and the length of the sleep are left out. `children` is the history of all forks, in order.
-/

namespace Ztyco.Daemon

open Transition

abbrev Pid := Int32

structure ProcessInfo where
  parent_id : Pid := 0
  main_id : Pid := 0
  parent_start_time : UInt64 := 0
  main_start_time : UInt64 := 0
  restart_count : UInt32 := 0
  deriving DecidableEq, Repr

inductive Ending where
  | exit (code : UInt32)
  | killed (signal : Fin 64) (core : Bool)
  deriving DecidableEq, Repr

/-- The word that `waitpid` stores. The signals are numbered from 1. -/
def Ending.status : Ending → UInt32
  | .exit code => (code &&& 0xff) <<< 8
  | .killed signal core => (UInt32.ofNat signal.val + 1) ||| (if core then 0x80 else 0)

structure Child where
  info : ProcessInfo
  ended : Option Ending := none
  reaped : Bool := false
  deriving DecidableEq, Repr

inductive Pc where
  | fork
  | waitpid (pid : Pid)
  | sleep
  | done
  deriving DecidableEq, Repr

structure State where
  pc : Pc := .fork
  info : ProcessInfo
  children : List Child := []
  deriving DecidableEq, Repr

inductive Act where
  | fork (pid : Pid) (now : UInt64)
  | forkFails
  | childEnds (pid : Pid) (ending : Ending)
  | waitpid
  | interrupted
  | wakes
  deriving DecidableEq, Repr

def Child.is (pid : Pid) (child : Child) : Bool := !child.reaped && child.info.main_id = pid

/-- The child goes on with a copy of the parent's ProcessInfo. -/
def ProcessInfo.ofChild (info : ProcessInfo) (pid : Pid) (now : UInt64) : ProcessInfo :=
  { info with main_id := pid, main_start_time := now }

def update (change : Child → Child) (pid : Pid) (children : List Child) : List Child :=
  children.map fun child => if child.is pid then change child else child

def State.returned (s : State) (status : UInt32) : State :=
  if status ≠ 0 then
    { s with pc := .sleep, info := { s.info with restart_count := s.info.restart_count + 1 } }
  else { s with pc := .done }

def Act.effect (s : State) : Act → Option State
  | .fork pid now =>
      -- a process id that is in use is not given again
      if s.pc = .fork ∧ 0 < pid ∧ s.children.all (fun child => !child.is pid) then
        some { s with
          pc := .waitpid pid
          children := s.children ++ [{ info := s.info.ofChild pid now }] }
      else none
  | .forkFails => if s.pc = .fork then some s else none
  | .childEnds pid ending =>
      if s.children.any fun child => child.is pid && child.ended.isNone then
        some { s with
          children := update (fun child => { child with ended := some ending }) pid s.children }
      else none
  | .waitpid =>
      match s.pc with
      | .waitpid pid =>
          match s.children.find? (Child.is pid) with
          | some { ended := some ending, .. } =>
              some ({ s with
                children := update (fun child => { child with reaped := true }) pid s.children
                }.returned ending.status)
          | _ => none
      | _ => none
  | .interrupted =>
      match s.pc with
      | .waitpid _ => some (s.returned 0)
      | _ => none
  | .wakes => if s.pc = .sleep then some { s with pc := .fork } else none

def daemon : Machine State Act where
  initial s := ∃ pid now, s = { info := { parent_id := pid, parent_start_time := now } }
  step s act := act.effect s

/-- `waitpid` does not fail. -/
def Uninterrupted (_ : State) (act : Act) : Prop := act ≠ .interrupted

instance Uninterrupted.decidable (s : State) (act : Act) : Decidable (Uninterrupted s act) := by
  unfold Uninterrupted
  infer_instance

/-! What the parent can say of its children. -/

/-- `main` returned a multiple of 256. -/
def Ending.Clean : Ending → Prop
  | .exit code => code.toNat % 256 = 0
  | .killed _ _ => False

theorem status_eq_zero (ending : Ending) : ending.status = 0 ↔ ending.Clean := by
  cases ending with
  | exit code =>
      have low : (code &&& 0xff).toNat = code.toNat % 256 := by
        rw [UInt32.toNat_and]
        exact Nat.and_two_pow_sub_one_eq_mod code.toNat 8
      have word : ((code &&& 0xff) <<< 8).toNat = code.toNat % 256 * 256 := by
        rw [UInt32.toNat_shiftLeft, low, Nat.shiftLeft_eq]
        exact Nat.mod_eq_of_lt (by simp; omega)
      rw [Ending.status, Ending.Clean, ← UInt32.toNat_inj, word]
      exact Nat.mul_eq_zero.trans (or_iff_left (by decide))
  | killed signal core =>
      have all : ∀ (signal : Fin 64) (core : Bool), (Ending.killed signal core).status ≠ 0 := by
        decide +kernel
      exact iff_of_false (all signal core) not_false

def Crashed (child : Child) : Prop :=
  child.reaped = true ∧ ∃ ending, child.ended = some ending ∧ ¬ ending.Clean

def Tends : Pc → List Child → Prop
  | .fork, [] | .sleep, [] => True
  | .waitpid pid, [child] => child.reaped = false ∧ child.info.main_id = pid
  | .done, [child] => child.reaped = true ∧ ∃ ending, child.ended = some ending ∧ ending.Clean
  | _, _ => False

/-- All children but the last one have crashed, and have been counted. -/
def Supervises (s : State) : Prop :=
  ∃ past last, s.children = past ++ last ∧ (∀ child ∈ past, Crashed child) ∧
    s.info.restart_count = UInt32.ofNat past.length ∧ Tends s.pc last

def Numbered (s : State) : Prop :=
  ∀ i child, s.children[i]? = some child →
    child.info.parent_id = s.info.parent_id ∧
    child.info.parent_start_time = s.info.parent_start_time ∧
    child.info.restart_count = UInt32.ofNat i

section Children
variable {past : List Child} {pid : Pid}

theorem not_is_past (crashed : ∀ child ∈ past, Crashed child) :
    ∀ child ∈ past, child.is pid = false := by
  intro child mem
  rw [Child.is, (crashed child mem).1]
  rfl

theorem update_last (change : Child → Child) (crashed : ∀ child ∈ past, Crashed child)
    (child : Child) :
    update change pid (past ++ [child]) =
      past ++ [if child.is pid then change child else child] := by
  have same : update change pid past = past := by
    refine (List.map_congr_left (g := id) ?_).trans (List.map_id past)
    intro other mem
    rw [not_is_past crashed other mem]
    rfl
  rw [update, List.map_append]
  exact congrArg (· ++ _) same

theorem find_last (crashed : ∀ child ∈ past, Crashed child) (child : Child) :
    (past ++ [child]).find? (Child.is pid) = if child.is pid then some child else none := by
  have absent : past.find? (Child.is pid) = none := by
    rw [List.find?_eq_none]
    intro other mem is_
    rw [not_is_past crashed other mem] at is_
    cases is_
  rw [List.find?_append, absent, Option.none_or, List.find?_singleton]

/-- Only the last child can be told apart by its process id. -/
theorem any_last (crashed : ∀ child ∈ past, Crashed child) (last : List Child)
    (alive : (past ++ last).any (fun child => child.is pid && child.ended.isNone) = true) :
    ∃ child ∈ last, child.is pid = true := by
  rcases List.any_eq_true.mp alive with ⟨child, mem, both⟩
  rw [Bool.and_eq_true] at both
  rcases List.mem_append.mp mem with before | after
  · rw [not_is_past crashed child before] at both
    cases both.1
  · exact ⟨child, after, both.1⟩

end Children

theorem tends_waits {last : List Child} {pid : Pid} (tends : Tends (.waitpid pid) last) :
    ∃ child, last = [child] ∧ child.reaped = false ∧ child.info.main_id = pid := by
  rcases last with _ | ⟨child, _ | ⟨second, rest⟩⟩
  · exact tends.elim
  · exact ⟨child, rfl, tends⟩
  · exact tends.elim

theorem tends_done {last : List Child} (tends : Tends .done last) :
    ∃ child, last = [child] ∧ child.reaped = true ∧
      ∃ ending, child.ended = some ending ∧ ending.Clean := by
  rcases last with _ | ⟨child, _ | ⟨second, rest⟩⟩
  · exact tends.elim
  · exact ⟨child, rfl, tends⟩
  · exact tends.elim

theorem tends_forks {last : List Child} {pc : Pc} (forks : pc = .fork ∨ pc = .sleep)
    (tends : Tends pc last) : last = [] := by
  rcases last with _ | ⟨child, rest⟩
  · rfl
  · rcases forks with rfl | rfl
    · exact tends.elim
    · exact tends.elim

section Steps
variable {s s' : State}

theorem supervises_ends {pid : Pid} {ending : Ending} (holds : Supervises s)
    (done : (Act.childEnds pid ending).effect s = some s') : Supervises s' := by
  rcases holds with ⟨past, last, children, crashed, count, tends⟩
  simp only [Act.effect] at done
  split at done
  · rename_i alive
    cases done
    rw [children] at alive
    rcases any_last crashed last alive with ⟨child, mem, is_⟩
    rw [Child.is, Bool.and_eq_true, Bool.not_eq_true'] at is_
    cases pc : s.pc with
    | fork =>
        rw [tends_forks (Or.inl pc) tends] at mem
        cases mem
    | sleep =>
        rw [tends_forks (Or.inr pc) tends] at mem
        cases mem
    | done =>
        rw [pc] at tends
        rcases tends_done tends with ⟨only, rfl, reaped, _⟩
        rw [List.mem_singleton.mp mem, reaped] at is_
        cases is_.1
    | waitpid wanted =>
        rw [pc] at tends
        rcases tends_waits tends with ⟨only, rfl, alive, named⟩
        cases List.mem_singleton.mp mem
        refine ⟨past, [{ child with ended := some ending }], ?_, crashed, count, ?_⟩
        · rw [children, update_last _ crashed, if_pos]
          rw [Child.is, Bool.and_eq_true, Bool.not_eq_true']
          exact is_
        · exact ⟨alive, named⟩
  · cases done

theorem supervises_waitpid (holds : Supervises s) (done : Act.waitpid.effect s = some s') :
    Supervises s' := by
  rcases holds with ⟨past, last, children, crashed, count, tends⟩
  simp only [Act.effect] at done
  split at done
  · rename_i wanted pc
    rw [pc] at tends
    rcases tends_waits tends with ⟨child, rfl, alive, named⟩
    have is_ : child.is wanted = true := by
      rw [Child.is, alive, named]
      exact decide_eq_true rfl
    rw [children, find_last crashed, if_pos is_, update_last _ crashed, if_pos is_] at done
    split at done
    · rename_i info ending reaped found
      cases found
      cases done
      unfold State.returned
      by_cases clean : ending.Clean
      · rw [if_neg (not_not.mpr ((status_eq_zero ending).mpr clean))]
        exact ⟨past, _, rfl, crashed, count, rfl, ending, rfl, clean⟩
      · rw [if_pos fun zero => clean ((status_eq_zero ending).mp zero)]
        refine ⟨past ++ [{ info := info, ended := some ending, reaped := true }], [],
          (List.append_nil _).symm, ?_, ?_, trivial⟩
        · intro other mem
          rcases List.mem_append.mp mem with before | last
          · exact crashed other before
          · cases List.mem_singleton.mp last
            exact ⟨rfl, ending, rfl, clean⟩
        · rw [List.length_append, List.length_singleton, UInt32.ofNat_add]
          exact congrArg (· + 1) count
    · cases done
  · cases done

theorem supervises_step {act : Act} (holds : Supervises s) (quiet : Uninterrupted s act)
    (moved : daemon.step s act = some s') : Supervises s' := by
  have done : act.effect s = some s' := moved
  cases act with
  | childEnds pid ending => exact supervises_ends holds done
  | waitpid => exact supervises_waitpid holds done
  | interrupted => exact absurd rfl quiet
  | fork pid now =>
      simp only [Act.effect] at done
      split at done
      · rename_i able
        cases done
        rcases holds with ⟨past, last, children, crashed, count, tends⟩
        rw [tends_forks (Or.inl able.1) tends, List.append_nil] at children
        refine ⟨past, [{ info := s.info.ofChild pid now }], ?_, crashed, count, rfl, rfl⟩
        rw [children]
      · cases done
  | forkFails =>
      simp only [Act.effect] at done
      split at done
      · cases done
        exact holds
      · cases done
  | wakes =>
      simp only [Act.effect] at done
      split at done
      · rename_i sleeps
        cases done
        rcases holds with ⟨past, last, children, crashed, count, tends⟩
        have none := tends_forks (Or.inr sleeps) tends
        subst none
        exact ⟨past, [], children, crashed, count, trivial⟩
      · cases done

theorem Numbered.update (numbered : Numbered s) {change : Child → Child} {pid : Pid}
    (children : s'.children = update change pid s.children)
    (keeps : ∀ child, (change child).info = child.info)
    (parent : s'.info.parent_id = s.info.parent_id)
    (started : s'.info.parent_start_time = s.info.parent_start_time) : Numbered s' := by
  intro i child found
  rw [children, Daemon.update, List.getElem?_map, Option.map_eq_some_iff] at found
  rcases found with ⟨before, at_, rfl⟩
  have same : (if before.is pid = true then change before else before).info = before.info := by
    split
    · exact keeps before
    · rfl
  rw [same, parent, started]
  exact numbered i before at_

theorem numbered_step {act : Act} (supervises : Supervises s) (numbered : Numbered s)
    (quiet : Uninterrupted s act) (moved : daemon.step s act = some s') : Numbered s' := by
  have done : act.effect s = some s' := moved
  cases act with
  | fork pid now =>
      simp only [Act.effect] at done
      split at done
      · rename_i able
        cases done
        rcases supervises with ⟨past, last, children, _, count, tends⟩
        rw [tends_forks (Or.inl able.1) tends, List.append_nil] at children
        intro i child found
        simp only [List.getElem?_append] at found
        split at found
        · exact numbered i child found
        · rename_i behind
          rcases List.getElem?_eq_some_iff.mp found with ⟨first, rfl⟩
          have index : i = past.length := by
            rw [children] at behind first
            simp only [List.length_singleton] at first
            omega
          rw [List.getElem_singleton, index]
          exact ⟨rfl, rfl, count⟩
      · cases done
  | forkFails =>
      simp only [Act.effect] at done
      split at done
      · cases done
        exact numbered
      · cases done
  | childEnds pid ending =>
      simp only [Act.effect] at done
      split at done
      · cases done
        exact numbered.update rfl (fun _ => rfl) rfl rfl
      · cases done
  | waitpid =>
      simp only [Act.effect] at done
      split at done
      · split at done
        · cases done
          unfold State.returned
          split
          · exact numbered.update rfl (fun _ => rfl) rfl rfl
          · exact numbered.update rfl (fun _ => rfl) rfl rfl
        · cases done
      · cases done
  | interrupted => exact absurd rfl quiet
  | wakes =>
      simp only [Act.effect] at done
      split at done
      · cases done
        exact numbered
      · cases done

end Steps

/-- Unless `waitpid` fails, the parent has one child at a time, starts
another one just when the last one has crashed, counts the crashes modulo 2 ^ 32, hands
every child its number, and ends when a child's `main` has returned a multiple of 256. -/
theorem restarts_supervised {s : State} (reached : Reach daemon Uninterrupted s) :
    Supervises s ∧ Numbered s := by
  apply reached.invariant fun s => Supervises s ∧ Numbered s
  · rintro _ ⟨pid, now, rfl⟩
    refine ⟨⟨[], [], rfl, ?_, rfl, trivial⟩, ?_⟩
    · intro child mem
      cases mem
    · intro i child found
      cases found
  · rintro before act after _ ⟨supervises, numbered⟩ quiet moved
    exact ⟨supervises_step supervises quiet moved, numbered_step supervises numbered quiet moved⟩

theorem restarts_supervised_run :
    ∃ s, run daemon { info := { parent_id := 7, parent_start_time := 100 } }
        [.fork 8 101, .childEnds 8 (.killed 10 true), .waitpid, .wakes, .forkFails,
          .fork 9 106, .childEnds 9 (.exit 256), .waitpid] = some s ∧
      Supervises s ∧ Numbered s :=
  run_meets Uninterrupted ⟨7, 100, rfl⟩ (by decide) (by decide)
    fun _ reached => restarts_supervised reached

-- an interrupted waitpid takes the child for a finished one, which still runs
example : (run daemon { info := { parent_id := 7, parent_start_time := 100 } }
    [.fork 8 101, .interrupted]).map (fun s => (s.pc, s.children.map (·.reaped))) =
      some (.done, [false]) := by decide

end Ztyco.Daemon
