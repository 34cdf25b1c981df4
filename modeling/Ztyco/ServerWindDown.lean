import Ztyco.ClientHandoff

/-!
How a stopped TcpServer comes to rest. While nobody calls it, each step of a loop,
a closure or a handler leaves less work, whatever order they come in: a loop that
has accepted a client hands it over and ends at its next test. Where nothing is left
to do, no `accept` being under way, every client has been served and let go.
-/

namespace Ztyco.TcpServer

open SharedPointers
open Transition

def Move.ofUser : Move → Bool
  | .server (.bind _ _) | .server .start | .server .stop => true
  | .setRecvTimeout _ | .share | .drop => true
  | _ => false

/-- One test is left, or a client to hand over before it. -/
def Loop.work (loop : Loop) : Nat :=
  match loop.phase with
  | .testing => 1
  | .calling => 8
  | .accepting => 7
  | .ended => 0

/-- Once it is scheduled a client has been queued, with more to do there. -/
def Hand.work (hand : Hand) : Nat :=
  match hand.stage with
  | .fresh => 5
  | .timed => 4
  | .scheduled => 1

def Closure.work (socks : Nat) : Closure → Nat
  | .pending => socks + 2
  | .running rest => rest.length + 1
  | .done => 0

def Server.work (server : Server) : Nat :=
  (server.loops.map Loop.work).sum +
    (server.closures.map (Closure.work server.m_socks.length)).sum

def Hall.work (hall : Hall) : Nat :=
  hall.server.work + (hall.hands.map Hand.work).sum + 2 * hall.queue.length + hall.handling.length

structure Settled (hall : Hall) : Prop where
  loops : ∀ loop ∈ hall.server.loops, loop.phase = .ended
  closures : ∀ closure ∈ hall.server.closures, closure = .done
  clients : ∀ client < hall.clients,
    hall.served client = 1 ∧ (hall.sockets client).destroyed = 1
  references : hall.references.use = hall.owners

section Steps
variable {hall after : Hall} {server moved : Server} {act : Act} {move : Move}

/-- A closure has less to close when the sockets are forgotten. -/
theorem closures_lighter (socks : Nat) (closures : List Closure) :
    (closures.map (Closure.work 0)).sum ≤ (closures.map (Closure.work socks)).sum := by
  apply List.sum_le_sum
  intro closure _
  cases closure with
  | pending =>
      simp only [Closure.work]
      omega
  | running rest => exact Nat.le_refl _
  | done => exact Nat.le_refl _

/-- A step of a loop or a closure; a client that is accepted brings work of its own. -/
theorem server_winds (stopped : server.m_isStop = true) (quiet : Move.ofUser (.server act) = false)
    (stepped : server.step act = some moved) : moved.m_isStop = true ∧
      moved.work + (match act with | .accepted _ _ => 6 | _ => 1) ≤ server.work := by
  cases act with
  | bind listening failed => cases quiet
  | start => cases quiet
  | stop => cases quiet
  | test i =>
      rcases loop_moved stepped with ⟨loop, next, found, tested, rfl⟩
      have changed := sum_map_set Loop.work found next
      rcases Option.ite_none_right_eq_some.mp tested with ⟨testing, done⟩
      cases done
      refine ⟨stopped, ?_⟩
      simp only [Server.work, Server.setLoop, Loop.work, stopped, testing, ↓reduceIte]
        at changed ⊢
      omega
  | accept i =>
      rcases loop_moved stepped with ⟨loop, next, found, called, rfl⟩
      have changed := sum_map_set Loop.work found next
      rcases Option.ite_none_right_eq_some.mp called with ⟨calling, done⟩
      cases done
      refine ⟨stopped, ?_⟩
      simp only [Server.work, Server.setLoop, Loop.work, calling] at changed ⊢
      omega
  | accepted i client =>
      rcases loop_moved stepped with ⟨loop, next, found, returned, rfl⟩
      have changed := sum_map_set Loop.work found next
      rcases Option.ite_none_right_eq_some.mp returned with ⟨guard, done⟩
      cases done
      refine ⟨stopped, ?_⟩
      simp only [Server.work, Server.setLoop, Loop.work, guard.1] at changed ⊢
      omega
  | begin j =>
      have changed := sum_map_set (Closure.work server.m_socks.length) (begin_found stepped)
        (.running server.m_socks)
      rcases begin_moved stepped with rfl
      refine ⟨stopped, ?_⟩
      simp only [Server.work, Server.setClosure, Closure.work] at changed ⊢
      omega
  | close j =>
      rcases close_moved stepped with ⟨sock, rest, found, rfl⟩
      have changed := sum_map_set (Closure.work server.m_socks.length) found (.running rest)
      refine ⟨stopped, ?_⟩
      simp only [Server.work, Server.setClosure, Closure.work, List.length_cons] at changed ⊢
      omega
  | clear j =>
      have changed := sum_map_set (Closure.work 0) (clear_found stepped) .done
      have lighter := closures_lighter server.m_socks.length server.closures
      rcases clear_moved stepped with rfl
      refine ⟨stopped, ?_⟩
      simp only [Server.work, Server.setClosure, Closure.work, List.length_nil] at changed ⊢
      omega

theorem release_winds (hall : Hall) (stopped : hall.server.m_isStop = true) :
    hall.release.server.m_isStop = true ∧ hall.release.work ≤ hall.work := by
  unfold Hall.release
  split
  · refine ⟨stopped, ?_⟩
    have lighter := closures_lighter hall.server.m_socks.length hall.server.closures
    simp only [Hall.work, Server.work, Server.destroy, List.length_nil]
    omega
  · exact ⟨stopped, Nat.le_refl _⟩

theorem setHand_work {hand : Hand} (mem : hand ∈ hall.hands) (stage : Stage) :
    ((hall.setHand hand stage).hands.map Hand.work).sum + hand.work =
      (hall.hands.map Hand.work).sum + Hand.work { hand with stage := stage } := by
  have kept := List.sum_map_erase Hand.work mem
  simp only [Hall.setHand, List.map_cons, List.sum_cons]
  omega

theorem follow_winds (stopped : hall.server.m_isStop = true)
    (quiet : Move.ofUser (.server act) = false) (stepped : hall.server.step act = some moved) :
    (hall.follow act moved).server.m_isStop = true ∧ (hall.follow act moved).work < hall.work := by
  rcases server_winds stopped quiet stepped with ⟨still, less⟩
  have below : (hall.stepped act moved).work < hall.work := by
    simp only [Hall.work, Hall.stepped]
    split at less <;> omega
  rcases follow_cases hall act moved with ⟨i, rfl, same⟩ | ⟨_, same⟩ | ⟨_, same⟩
  · rw [same]
    refine ⟨still, ?_⟩
    simp only [Hall.work, Hall.receive, Hall.stepped, List.map_cons, List.sum_cons, Hand.work]
    dsimp only at less
    omega
  · rw [same]
    rcases release_winds (hall.stepped act moved) still with ⟨kept, lighter⟩
    exact ⟨kept, Nat.lt_of_le_of_lt lighter below⟩
  · rw [same]
    exact ⟨still, below⟩

/-- Every step that is not a call leaves less to do, and the flag as it is. -/
theorem winds (stopped : hall.server.m_isStop = true) (quiet : move.ofUser = false)
    (taken : hall.step move = some after) :
    after.server.m_isStop = true ∧ after.work < hall.work := by
  cases move with
  | server act =>
      rcases Option.ite_none_right_eq_some.mp taken with ⟨_, following⟩
      rcases Option.map_eq_some_iff.mp following with ⟨server, stepped, rfl⟩
      exact follow_winds stopped quiet stepped
  | setRecvTimeout v => cases quiet
  | share => cases quiet
  | drop => cases quiet
  | setTimeout i =>
      rcases hand_moved taken with ⟨hand, mem, fresh, rfl⟩
      have changed := setHand_work mem .timed
      refine ⟨stopped, ?_⟩
      simp only [Hall.work, Hall.setTimeout, Hall.setHand, Hand.work, fresh] at changed ⊢
      omega
  | schedule i =>
      rcases hand_moved taken with ⟨hand, mem, timed, rfl⟩
      have changed := setHand_work mem .scheduled
      refine ⟨stopped, ?_⟩
      simp only [Hall.work, Hall.schedule, Hall.setHand, Hand.work, timed, List.length_append,
        List.length_singleton] at changed ⊢
      omega
  | leave i =>
      rcases hand_moved taken with ⟨hand, mem, scheduled, rfl⟩
      have kept := List.sum_map_erase Hand.work mem
      refine ⟨stopped, ?_⟩
      simp only [Hand.work, scheduled] at kept
      simp only [Hall.work, Hall.leave, Hall.close]
      omega
  | take =>
      unfold Hall.step at taken
      dsimp only at taken
      split at taken
      · cases taken
      · rename_i client rest queued
        cases taken
        refine ⟨stopped, ?_⟩
        simp only [Hall.work, queued, List.length_cons]
        omega
  | done client =>
      rcases Option.ite_none_right_eq_some.mp taken with ⟨mem, done⟩
      cases done
      have shorter := List.length_erase_of_mem mem
      have some_client := List.length_pos_of_mem mem
      rcases release_winds { hall.close client with
        handling := hall.handling.erase client
        served := Function.update hall.served client (hall.served client + 1) } stopped
        with ⟨kept, lighter⟩
      refine ⟨kept, Nat.lt_of_le_of_lt lighter ?_⟩
      simp only [Hall.work, Hall.close]
      omega

end Steps

section Runs
variable {hall after : Hall}

theorem run_winds {moves : List Move} (reached : Reach receiving anyStep hall)
    (stopped : hall.server.m_isStop = true) (quiet : ∀ move ∈ moves, move.ofUser = false)
    (ran : run receiving hall moves = some after) :
    Reach receiving anyStep after ∧ moves.length + after.work ≤ hall.work := by
  induction moves generalizing hall with
  | nil =>
      cases ran
      exact ⟨reached, Nat.le_of_eq (Nat.zero_add _)⟩
  | cons move rest ih =>
      rcases Option.bind_eq_some_iff.mp ran with ⟨next, taken, later⟩
      rcases winds stopped (quiet move List.mem_cons_self) taken with ⟨still, less⟩
      have on := reached.extend (.single move trivial taken)
      rcases ih on still (fun other mem => quiet other (List.mem_cons_of_mem move mem)) later
        with ⟨there, total⟩
      refine ⟨there, ?_⟩
      rw [List.length_cons]
      omega

/-- Nothing but a call can happen. -/
def Stuck (hall : Hall) : Prop := ∀ move, move.ofUser = false → hall.step move = none

theorem hand_goes_on (stuck : Stuck hall) (i : Nat) : hall.hand i = none := by
  cases found : hall.hand i with
  | none => rfl
  | some hand =>
      cases stage : hand.stage with
      | fresh =>
          have blocked := stuck (.setTimeout i) rfl
          simp [Hall.step, found, stage] at blocked
      | timed =>
          have blocked := stuck (.schedule i) rfl
          simp [Hall.step, found, stage] at blocked
      | scheduled =>
          have blocked := stuck (.leave i) rfl
          simp [Hall.step, found, stage] at blocked

theorem loops_ended (stuck : Stuck hall) : ∀ loop ∈ hall.server.loops, loop.phase = .ended := by
  intro loop mem
  obtain ⟨i, found⟩ := List.getElem?_of_mem mem
  cases phase : loop.phase with
  | testing =>
      have blocked := stuck (.server (.test i)) rfl
      simp [Hall.step, Hall.admits, hand_goes_on stuck i, Server.step, found, Server.test, phase]
        at blocked
  | calling =>
      have blocked := stuck (.server (.accept i)) rfl
      simp [Hall.step, Hall.admits, Server.step, found, Server.accept, phase] at blocked
  | accepting =>
      have blocked := stuck (.server (.accepted i false)) rfl
      simp [Hall.step, Hall.admits, Server.step, found, Server.accepted, phase] at blocked
  | ended => rfl

theorem closures_done (stuck : Stuck hall) : ∀ closure ∈ hall.server.closures, closure = .done := by
  intro closure mem
  obtain ⟨j, found⟩ := List.getElem?_of_mem mem
  cases closure with
  | pending =>
      have blocked := stuck (.server (.begin j)) rfl
      simp [Hall.step, Hall.admits, Server.step, found] at blocked
  | running rest =>
      cases rest with
      | nil =>
          have blocked := stuck (.server (.clear j)) rfl
          simp [Hall.step, Hall.admits, Server.step, found] at blocked
      | cons sock rest =>
          have blocked := stuck (.server (.close j)) rfl
          simp [Hall.step, Hall.admits, Server.step, found] at blocked
  | done => rfl

theorem settled (reached : Reach receiving anyStep hall) (stuck : Stuck hall) : Settled hall := by
  have referenced := referenced_reach reached
  have passed := passed_reach reached
  have loops := loops_ended stuck
  have closures := closures_done stuck
  have queue : hall.queue = [] := by
    have blocked := stuck .take rfl
    cases found : hall.queue with
    | nil => rfl
    | cons client rest => simp [Hall.step, found] at blocked
  have handling : hall.handling = [] := by
    apply List.eq_nil_iff_forall_not_mem.mpr
    intro client mem
    have blocked := stuck (.done client) rfl
    simp [Hall.step, mem] at blocked
  have hands : hall.hands = [] := by
    apply List.eq_nil_iff_forall_not_mem.mpr
    intro hand mem
    rcases referenced.in_body hand mem with ⟨loop, found, testing⟩
    rw [loops loop (List.mem_of_getElem? found)] at testing
    cases testing
  refine ⟨loops, closures, ?_, ?_⟩
  · intro client known
    have once := passed.once client
    have block := (passed.counts client known).once
    have none : hall.holds client = 0 := by
      simp [Hall.holds, Hall.inHand, queue, handling, hands]
    refine ⟨?_, ?_⟩
    · simpa [Hall.waiting, Hall.inHand, queue, handling, hands, known] using once
    · rw [block, if_pos none]
  · have inside : hall.server.holders = 0 := by
      have ended : (hall.server.loops.map Loop.holds).sum = 0 :=
        List.sum_eq_zero (List.forall_mem_map.mpr fun loop mem => if_pos (loops loop mem))
      have done : (hall.server.closures.map Closure.holds).sum = 0 :=
        List.sum_eq_zero (List.forall_mem_map.mpr fun closure mem =>
          if_pos (closures closure mem))
      rw [Server.holders, ended, done]
    rw [referenced.counts.use, Hall.holders, inside, queue, handling]
    rfl

theorem stuck_of_work (stopped : hall.server.m_isStop = true) (none : hall.work = 0) :
    Stuck hall := by
  intro move quiet
  by_contra some_step
  rcases Option.ne_none_iff_exists'.mp some_step with ⟨after, taken⟩
  have less := (winds stopped quiet taken).2
  omega

end Runs

/-- The server is stopped while a loop is in `accept`, which returns one more client. -/
def lateClient : List Move :=
  [.server (.bind 1 false), .server .start, .server (.test 0), .server (.accept 0),
    .server .stop]

def lastSteps : List Move :=
  [.server (.accepted 0 true), .server (.begin 0), .setTimeout 0, .schedule 0, .take,
    .server (.close 0), .leave 0, .server (.test 0), .done 0, .server (.clear 0)]

end Ztyco.TcpServer
