import Ztyco.TcpServer

/-!
How long accept loops outlive their sockets. While a socket with a loop is
closed only under the flag, and the flag stays until the loops of closed sockets
have ended, such a loop makes the attempt it may have been about to make, and its
next test ends it. A step outside this leaves a loop on a closed socket with the
flag reset, and that loop goes on as often as it is run.
-/

namespace Ztyco.TcpServer

open Transition

structure Ending (server : Server) : Prop where
  attempts : ∀ loop ∈ server.loops, loop.late ≤ 1
  first : ∀ loop ∈ server.loops, server.closed loop.sock = false ∨ loop.phase = .calling →
    loop.late = 0
  stopping : ∀ loop ∈ server.loops, server.closed loop.sock = true → loop.phase ≠ .ended →
    server.m_isStop = true

def Runaway (server : Server) (i : Nat) : Prop :=
  server.m_isStop = false ∧ ∃ loop, server.loops[i]? = some loop ∧
    server.closed loop.sock = true ∧ loop.phase ≠ .ended

section Steps
variable {server after : Server} {act : Act}

/-! What the steps of a loop and of a closure do. -/

theorem loop_moved {moves : Loop → Option Loop} {i : Nat}
    (moved : (server.loops[i]?.bind moves).map (server.setLoop i) = some after) :
    ∃ loop next, server.loops[i]? = some loop ∧ moves loop = some next ∧
      after = server.setLoop i next := by
  rcases Option.map_eq_some_iff.mp moved with ⟨next, moving, rfl⟩
  rcases Option.bind_eq_some_iff.mp moving with ⟨loop, found, done⟩
  exact ⟨loop, next, found, done, rfl⟩

theorem begin_moved {j : Nat} (moved : server.step (.begin j) = some after) :
    after = server.setClosure j (.running server.m_socks) := by
  unfold Server.step at moved
  dsimp only at moved
  split at moved
  · cases moved
    rfl
  · cases moved

theorem close_moved {j : Nat} (moved : server.step (.close j) = some after) :
    ∃ sock rest, server.closures[j]? = some (.running (sock :: rest)) ∧
      after = { server.setClosure j (.running rest) with
        closed := Function.update server.closed sock true } := by
  unfold Server.step at moved
  dsimp only at moved
  split at moved
  · rename_i sock rest running
    cases moved
    exact ⟨sock, rest, running, rfl⟩
  · cases moved

theorem clear_moved {j : Nat} (moved : server.step (.clear j) = some after) :
    after = { server.setClosure j .done with m_socks := [], cleared := true } := by
  unfold Server.step at moved
  dsimp only at moved
  split at moved
  · cases moved
    rfl
  · cases moved

/-! Within the condition. -/

theorem ending_initial : Ending {} where
  attempts _ mem := by cases mem
  first _ mem := by cases mem
  stopping _ mem := by cases mem

theorem Ending.frame (ending : Ending server) (loops : after.loops = server.loops)
    (closed : after.closed = server.closed) (flag : after.m_isStop = server.m_isStop) :
    Ending after := by
  constructor
  · rw [loops]
    exact ending.attempts
  · rw [loops, closed]
    exact ending.first
  · rw [loops, closed, flag]
    exact ending.stopping

theorem Ending.stop (ending : Ending server) : Ending server.stop :=
  ⟨ending.attempts, ending.first, fun _ _ _ _ => rfl⟩

theorem Ending.setLoop (ending : Ending server) (i : Nat) {loop : Loop}
    (attempts : loop.late ≤ 1)
    (first : server.closed loop.sock = false ∨ loop.phase = .calling → loop.late = 0)
    (stopping : server.closed loop.sock = true → loop.phase ≠ .ended →
      server.m_isStop = true) :
    Ending (server.setLoop i loop) := by
  constructor
  · intro other mem
    rcases List.mem_or_eq_of_mem_set mem with old | rfl
    · exact ending.attempts other old
    · exact attempts
  · intro other mem
    rcases List.mem_or_eq_of_mem_set mem with old | rfl
    · exact ending.first other old
    · exact first
  · intro other mem
    rcases List.mem_or_eq_of_mem_set mem with old | rfl
    · exact ending.stopping other old
    · exact stopping

theorem Ending.test (ending : Ending server) {i : Nat} {loop moved : Loop}
    (found : server.loops[i]? = some loop) (tested : server.test loop = some moved) :
    Ending (server.setLoop i moved) := by
  have mem := List.mem_of_getElem? found
  unfold Server.test at tested
  split at tested
  · rename_i testing
    cases tested
    apply ending.setLoop
    · exact ending.attempts loop mem
    · intro case
      cases closed : server.closed loop.sock with
      | false => exact ending.first loop mem (Or.inl closed)
      | true =>
          -- the flag is still set, so this test has ended the loop
          have flag := ending.stopping loop mem closed (by simp [testing])
          simp [flag, closed] at case
    · intro closed _
      exact ending.stopping loop mem closed (by simp [testing])
  · cases tested

theorem Ending.accept (ending : Ending server) {i : Nat} {loop moved : Loop}
    (found : server.loops[i]? = some loop) (called : server.accept loop = some moved) :
    Ending (server.setLoop i moved) := by
  have mem := List.mem_of_getElem? found
  unfold Server.accept at called
  split at called
  · rename_i calling
    cases called
    -- a loop about to call has not been late before
    have none := ending.first loop mem (Or.inr calling)
    apply ending.setLoop
    · dsimp only
      split <;> omega
    · rintro (opened | other)
      · simp [show server.closed loop.sock = false from opened, none]
      · cases other
    · intro closed _
      exact ending.stopping loop mem closed (by simp [calling])
  · cases called

theorem Ending.accepted (ending : Ending server) {i : Nat} {client : Bool} {loop moved : Loop}
    (found : server.loops[i]? = some loop) (returned : server.accepted client loop = some moved) :
    Ending (server.setLoop i moved) := by
  have mem := List.mem_of_getElem? found
  unfold Server.accepted at returned
  split at returned
  · rename_i guard
    cases returned
    apply ending.setLoop
    · exact ending.attempts loop mem
    · rintro (opened | other)
      · exact ending.first loop mem (Or.inl opened)
      · cases other
    · intro closed _
      exact ending.stopping loop mem closed (by simp [guard.1])
  · cases returned

theorem Ending.start (ending : Ending server) (ordered : Act.Ordered server .start) :
    Ending server.start := by
  unfold Server.start
  split
  · exact ending
  · rename_i flag
    have stopped : server.m_isStop = true := by simpa using flag
    rcases ordered stopped with ⟨opened, ended⟩
    constructor
    · intro loop mem
      rcases List.mem_append.mp mem with old | new
      · exact ending.attempts loop old
      · rcases List.mem_map.mp new with ⟨sock, _, rfl⟩
        exact Nat.zero_le 1
    · intro loop mem case
      rcases List.mem_append.mp mem with old | new
      · exact ending.first loop old case
      · rcases List.mem_map.mp new with ⟨sock, _, rfl⟩
        rfl
    · intro loop mem closed live
      rcases List.mem_append.mp mem with old | new
      · exact absurd (ended loop old closed) live
      · rcases List.mem_map.mp new with ⟨sock, known, rfl⟩
        rw [opened sock known] at closed
        cases closed

theorem not_busy {sock : SocketPtr} (idle : server.busy sock = false) :
    ∀ loop ∈ server.loops, loop.sock = sock → loop.phase = .ended := by
  intro loop mem same
  have none := List.any_eq_false.mp idle loop mem
  simpa [same] using none

theorem Ending.close (ending : Ending server) {j : Nat} {sock : SocketPtr}
    {rest : List SocketPtr} (ordered : server.m_isStop = true ∨ server.busy sock = false) :
    Ending { server.setClosure j (.running rest) with
      closed := Function.update server.closed sock true } := by
  have opened : ∀ other, Function.update server.closed sock true other = false →
      server.closed other = false := by
    intro other shut
    by_cases same : other = sock
    · subst same
      rw [Function.update_self] at shut
      cases shut
    · rwa [Function.update_of_ne same] at shut
  constructor
  · exact ending.attempts
  · rintro loop mem (shut | calling)
    · exact ending.first loop mem (Or.inl (opened loop.sock shut))
    · exact ending.first loop mem (Or.inr calling)
  · intro loop mem closed live
    -- only the loops of this socket come under the rule now
    by_cases same : loop.sock = sock
    · rcases ordered with flag | idle
      · exact flag
      · exact absurd (not_busy idle loop mem same) live
    · apply ending.stopping loop mem _ live
      exact (Function.update_of_ne same _ _).symm.trans closed

theorem Ending.step (ending : Ending server) (ordered : act.Ordered server)
    (moved : server.step act = some after) : Ending after := by
  cases act with
  | bind listening failed =>
      cases moved
      exact ending.frame rfl rfl rfl
  | start =>
      cases moved
      exact ending.start ordered
  | stop =>
      cases moved
      exact ending.stop
  | test i =>
      rcases loop_moved moved with ⟨loop, next, found, tested, rfl⟩
      exact ending.test found tested
  | accept i =>
      rcases loop_moved moved with ⟨loop, next, found, called, rfl⟩
      exact ending.accept found called
  | accepted i client =>
      rcases loop_moved moved with ⟨loop, next, found, returned, rfl⟩
      exact ending.accepted found returned
  | begin j =>
      rcases begin_moved moved with rfl
      exact ending.frame rfl rfl rfl
  | close j =>
      rcases close_moved moved with ⟨sock, rest, running, rfl⟩
      exact ending.close (ordered sock rest running)
  | clear j =>
      rcases clear_moved moved with rfl
      exact ending.frame rfl rfl rfl

theorem cleared_step (empty : server.cleared = true → server.m_socks = [])
    (moved : server.step act = some after) : after.cleared = true → after.m_socks = [] := by
  cases act with
  | bind listening failed =>
      cases moved
      intro cleared
      cases cleared
  | start =>
      cases moved
      unfold Server.start
      split
      · exact empty
      · exact empty
  | stop =>
      cases moved
      exact empty
  | test i =>
      rcases loop_moved moved with ⟨_, _, _, _, rfl⟩
      exact empty
  | accept i =>
      rcases loop_moved moved with ⟨_, _, _, _, rfl⟩
      exact empty
  | accepted i client =>
      rcases loop_moved moved with ⟨_, _, _, _, rfl⟩
      exact empty
  | begin j =>
      rcases begin_moved moved with rfl
      exact empty
  | close j =>
      rcases close_moved moved with ⟨sock, rest, _, rfl⟩
      exact empty
  | clear j =>
      rcases clear_moved moved with rfl
      intro _
      rfl

/-! Outside the condition. -/

theorem runaway_of_mem {loop : Loop} (flag : server.m_isStop = false) (mem : loop ∈ server.loops)
    (closed : server.closed loop.sock = true) (live : loop.phase ≠ .ended) :
    ∃ i, Runaway server i := by
  obtain ⟨i, found⟩ := List.getElem?_of_mem mem
  exact ⟨i, flag, loop, found, closed, live⟩

theorem start_runaway (unordered : ¬ Act.Ordered server .start) :
    ∃ i, Runaway server.start i := by
  by_cases stopped : server.m_isStop = true
  · have started : server.start = { server with
        m_isStop := false
        loops := server.loops ++ server.m_socks.map fun sock => { sock := sock } } := by
      simp [Server.start, stopped]
    rw [started]
    by_cases opened : ∀ sock ∈ server.m_socks, server.closed sock = false
    · have live : ∃ loop ∈ server.loops,
          server.closed loop.sock = true ∧ loop.phase ≠ .ended := by
        by_contra none
        apply unordered
        intro _
        refine ⟨opened, ?_⟩
        intro loop mem closed
        by_contra live
        exact none ⟨loop, mem, closed, live⟩
      rcases live with ⟨loop, mem, closed, live⟩
      exact runaway_of_mem rfl (List.mem_append_left _ mem) closed live
    · have shut : ∃ sock ∈ server.m_socks, server.closed sock = true := by
        by_contra none
        apply opened
        intro sock mem
        apply Bool.eq_false_iff.mpr
        intro closed
        exact none ⟨sock, mem, closed⟩
      rcases shut with ⟨sock, mem, closed⟩
      have made : ({ sock := sock } : Loop) ∈
          server.loops ++ server.m_socks.map fun sock => { sock := sock } :=
        List.mem_append_right _ (List.mem_map_of_mem mem)
      exact runaway_of_mem rfl made closed Phase.noConfusion
  · exact absurd (fun flag => absurd flag stopped) unordered

theorem close_runaway {j : Nat} (unordered : ¬ Act.Ordered server (.close j))
    (moved : server.step (.close j) = some after) : ∃ i, Runaway after i := by
  rcases close_moved moved with ⟨sock, rest, running, rfl⟩
  have broken : ¬ (server.m_isStop = true ∨ server.busy sock = false) := by
    intro ordered
    apply unordered
    intro other others found
    rw [running] at found
    cases found
    exact ordered
  rcases not_or.mp broken with ⟨flag, busy⟩
  rcases List.any_eq_true.mp ((Bool.not_eq_false _).mp busy) with ⟨loop, mem, live⟩
  rcases Bool.and_eq_true_iff.mp live with ⟨same, phase⟩
  have closed : Function.update server.closed sock true loop.sock = true := by
    rw [of_decide_eq_true same]
    exact Function.update_self _ _ _
  exact runaway_of_mem (Bool.eq_false_iff.mpr flag) mem closed (of_decide_eq_true phase)

theorem unordered_runaway (unordered : ¬ act.Ordered server)
    (moved : server.step act = some after) : ∃ i, Runaway after i := by
  cases act with
  | start =>
      cases moved
      exact start_runaway unordered
  | close j => exact close_runaway unordered moved
  | _ => exact absurd trivial unordered

/-- A loop of a closed socket before its test, after so many attempts. -/
def Tries (server : Server) (i n : Nat) : Prop :=
  server.m_isStop = false ∧ ∃ loop, server.loops[i]? = some loop ∧
    server.closed loop.sock = true ∧ loop.phase = .testing ∧ n ≤ loop.late

theorem setLoop_get {i : Nat} {loop : Loop} (found : server.loops[i]? = some loop)
    (moved : Loop) : (server.setLoop i moved).loops[i]? = some moved := by
  have below : i < server.loops.length := (List.getElem?_eq_some_iff.mp found).1
  exact List.getElem?_set_self below

theorem returns (server : Server) {i : Nat} {loop : Loop} (flag : server.m_isStop = false)
    (found : server.loops[i]? = some loop) (closed : server.closed loop.sock = true)
    (accepting : loop.phase = .accepting) :
    ∃ later, Path serving anyStep server later ∧ Tries later i loop.late := by
  have returned : server.accepted false loop = some { loop with phase := .testing } := by
    simp [Server.accepted, accepting]
  refine ⟨server.setLoop i { loop with phase := .testing }, ?_, ?_⟩
  · apply Path.single (.accepted i false) trivial
    simp [serving, Server.step, found, returned]
  · exact ⟨flag, _, setLoop_get found _, closed, rfl, Nat.le_refl _⟩

theorem calls (server : Server) {i : Nat} {loop : Loop} (flag : server.m_isStop = false)
    (found : server.loops[i]? = some loop) (closed : server.closed loop.sock = true)
    (calling : loop.phase = .calling) :
    ∃ later, Path serving anyStep server later ∧ Tries later i (loop.late + 1) := by
  have called : server.accept loop =
      some { loop with phase := .accepting, late := loop.late + 1 } := by
    simp [Server.accept, calling, closed]
  have path : Path serving anyStep server
      (server.setLoop i { loop with phase := .accepting, late := loop.late + 1 }) := by
    apply Path.single (.accept i) trivial
    simp [serving, Server.step, found, called]
  have inside := setLoop_get found { loop with phase := .accepting, late := loop.late + 1 }
  rcases returns (server.setLoop i _) flag inside closed rfl with ⟨later, back, tries⟩
  exact ⟨later, path.trans back, tries⟩

theorem Tries.again {i n : Nat} (tries : Tries server i n) :
    ∃ later, Path serving anyStep server later ∧ Tries later i (n + 1) := by
  rcases tries with ⟨flag, loop, found, closed, testing, attempts⟩
  have tested : server.test loop = some { loop with phase := .calling } := by
    simp [Server.test, testing, flag]
  have path : Path serving anyStep server (server.setLoop i { loop with phase := .calling }) := by
    apply Path.single (.test i) trivial
    simp [serving, Server.step, found, tested]
  have next := setLoop_get found { loop with phase := .calling }
  rcases calls (server.setLoop i _) flag next closed rfl
    with ⟨later, on, reset, moved, now, shut, back, more⟩
  exact ⟨later, path.trans on, reset, moved, now, shut, back,
    Nat.le_trans (Nat.succ_le_succ attempts) more⟩

theorem Runaway.tries {i : Nat} (runaway : Runaway server i) :
    ∃ later, Path serving anyStep server later ∧ Tries later i 0 := by
  rcases runaway with ⟨flag, loop, found, closed, live⟩
  have weaken : ∀ {later n}, Tries later i n → Tries later i 0 := by
    rintro later n ⟨flag, loop, found, closed, testing, _⟩
    exact ⟨flag, loop, found, closed, testing, Nat.zero_le _⟩
  cases phase : loop.phase with
  | testing => exact ⟨server, .refl _, flag, loop, found, closed, phase, Nat.zero_le _⟩
  | calling =>
      rcases calls server flag found closed phase with ⟨later, path, tries⟩
      exact ⟨later, path, weaken tries⟩
  | accepting =>
      rcases returns server flag found closed phase with ⟨later, path, tries⟩
      exact ⟨later, path, weaken tries⟩
  | ended => exact absurd phase live

theorem Runaway.unbounded {i : Nat} (runaway : Runaway server i) :
    ∃ later, Path serving anyStep server later ∧ ¬ later.Bounded := by
  -- the first attempt after the socket was closed is allowed, the second is not
  rcases runaway.tries with ⟨first, path, none⟩
  rcases none.again with ⟨second, once, one⟩
  rcases one.again with ⟨third, twice, _, loop, found, _, _, attempts⟩
  refine ⟨third, (path.trans once).trans twice, ?_⟩
  intro bounded
  have atMost := bounded.attempts loop (List.mem_of_getElem? found)
  omega

end Steps

/-- In every run that meets the condition no loop of a closed socket tries more
than once again; after a step that does not meet it, one can. -/
theorem accept_loops_end {server : Server}
    (reached : Reach serving (fun server act => act.Ordered server) server) :
    server.Bounded ∧ ∀ act after, serving.step server act = some after →
      ¬ act.Ordered server →
        ∃ later, Path serving anyStep after later ∧ ¬ later.Bounded := by
  have ending : Ending server := by
    apply reached.invariant Ending
    · rintro server rfl
      exact ending_initial
    · intro before act after _ ending ordered moved
      exact ending.step ordered moved
  have empty : server.cleared = true → server.m_socks = [] := by
    apply reached.invariant fun server => server.cleared = true → server.m_socks = []
    · rintro server rfl _
      rfl
    · intro before act after _ empty _ moved
      exact cleared_step empty moved
  refine ⟨⟨ending.attempts, empty⟩, ?_⟩
  intro act after moved unordered
  rcases unordered_runaway unordered moved with ⟨i, runaway⟩
  exact runaway.unbounded

theorem accept_loops_end_stopped :
    ∃ server, run serving {}
        [.bind 1 false, .start, .test 0, .stop, .begin 0, .close 0, .accept 0, .accepted 0 false,
          .test 0, .clear 0] = some server ∧
      (server.Bounded ∧ ∀ act after, serving.step server act = some after →
        ¬ act.Ordered server →
          ∃ later, Path serving anyStep after later ∧ ¬ later.Bounded) :=
  run_meets (fun server act => act.Ordered server) rfl (by decide) (by decide)
    fun _ reached => accept_loops_end reached

/-- The server is started again before the closure has run. -/
theorem accept_loop_runs_on :
    ¬ ∀ server, Reach serving anyStep server → server.Bounded := by
  intro always
  rcases reach_where serving anyStep {}
    [.bind 1 false, .start, .test 0, .stop, .start, .begin 0, .close 0, .clear 0, .accept 0,
      .accepted 0 false, .test 0, .accept 0]
    (fun server => server.loops.any fun loop => decide (1 < loop.late)) rfl (by decide) (by decide)
    with ⟨server, reached, late⟩
  rcases List.any_eq_true.mp late with ⟨loop, mem, more⟩
  exact Nat.not_lt.mpr ((always server reached).attempts loop mem) (of_decide_eq_true more)

end Ztyco.TcpServer
