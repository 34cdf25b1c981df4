import Ztyco.AcceptLoops
import Ztyco.SharedPointers

/-!
The clients of a TcpServer, from `accept` to the end of their handler. A loop sets
the timeout of its client, hands it over in a closure with pointers to the server
and to the client, and keeps its own pointer to the end of its body, so a handler
may end first. Who has no pointer calls nothing: `bind`, `start` and `stop` come
from an owner or from a handler. The server and the sockets of the clients go with
their last pointer; a handler keeps the client only while it runs.
-/

namespace Ztyco.TcpServer

open SharedPointers
open Transition

abbrev Client := Nat

/-- How far the body of `startAccept` has come with its client. -/
inductive Stage where
  | fresh | timed | scheduled
  deriving DecidableEq, Repr

structure Hand where
  loop : Nat
  client : Client
  stage : Stage
  deriving DecidableEq, Repr

/-- `references` counts the pointers to the server, of which `owners` are outside,
and `sockets` those to the clients. -/
structure Hall where
  server : Server := {}
  m_recvTimeout : UInt64
  /-- The values it has had before. -/
  earlier : List UInt64 := []
  owners : Nat := 1
  references : Block := {}
  clients : Nat := 0
  sockets : Client → Block := fun _ => {}
  timeout : Client → Option UInt64 := fun _ => none
  hands : List Hand := []
  /-- What the I/O worker has to start. -/
  queue : List Client := []
  handling : List Client := []
  served : Client → Nat := fun _ => 0

inductive Move where
  | server (act : Act)
  | setRecvTimeout (v : UInt64)
  | share
  | drop
  | setTimeout (i : Nat)
  | schedule (i : Nat)
  | leave (i : Nat)
  | take
  | done (client : Client)
  deriving DecidableEq, Repr

def Act.copies (server : Server) : Act → Nat
  | .start => if server.m_isStop then server.m_socks.length else 0
  | .stop => 1
  | _ => 0

def Act.drops (server : Server) : Act → Bool
  | .test _ => server.m_isStop
  | .clear _ => true
  | _ => false

def Server.destroy (server : Server) : Server :=
  { server with
    m_socks := []
    closed := fun sock => server.closed sock || decide (sock ∈ server.m_socks) }

namespace Hall

def caller (hall : Hall) : Bool := decide (0 < hall.owners) || !hall.handling.isEmpty

def hand (hall : Hall) (i : Nat) : Option Hand := hall.hands.find? fun hand => hand.loop = i

def admits (hall : Hall) : Act → Bool
  | .bind _ _ | .start | .stop => hall.caller
  | .test i => (hall.hand i).isNone
  | _ => true

def receive (hall : Hall) (i : Nat) : Hall :=
  { hall with
    hands := ⟨i, hall.clients, .fresh⟩ :: hall.hands
    sockets := Function.update hall.sockets hall.clients {}
    clients := hall.clients + 1 }

def release (hall : Hall) : Hall :=
  if hall.references.drop.use = 0
  then { hall with references := hall.references.drop, server := hall.server.destroy }
  else { hall with references := hall.references.drop }

def close (hall : Hall) (client : Client) : Hall :=
  { hall with
    sockets := Function.update hall.sockets client (hall.sockets client).drop }

def setHand (hall : Hall) (hand : Hand) (stage : Stage) : Hall :=
  { hall with hands := { hand with stage := stage } :: hall.hands.erase hand }

def setTimeout (hall : Hall) (hand : Hand) : Hall :=
  { hall.setHand hand .timed with
    timeout := Function.update hall.timeout hand.client (some hall.m_recvTimeout) }

def schedule (hall : Hall) (hand : Hand) : Hall :=
  { hall.setHand hand .scheduled with
    sockets := Function.update hall.sockets hand.client ((hall.sockets hand.client).copies 1)
    references := hall.references.copies 1
    queue := hall.queue ++ [hand.client] }

def leave (hall : Hall) (hand : Hand) : Hall :=
  { hall.close hand.client with hands := hall.hands.erase hand }

def follow (hall : Hall) (act : Act) (server : Server) : Hall :=
  let moved := { hall with
    server := server
    references := hall.references.copies (act.copies hall.server) }
  match act with
  | .accepted i true => moved.receive i
  | _ => if act.drops hall.server then moved.release else moved

def finish (hall : Hall) (client : Client) : Hall :=
  release { hall.close client with
    handling := hall.handling.erase client
    served := Function.update hall.served client (hall.served client + 1) }

def step (hall : Hall) : Move → Option Hall
  | .server act =>
      if hall.admits act then (hall.server.step act).map (hall.follow act) else none
  | .setRecvTimeout v =>
      if hall.caller
      then some { hall with m_recvTimeout := v, earlier := hall.m_recvTimeout :: hall.earlier }
      else none
  | .share =>
      if hall.caller
      then some { hall with owners := hall.owners + 1, references := hall.references.copies 1 }
      else none
  | .drop =>
      if 0 < hall.owners then some (release { hall with owners := hall.owners - 1 }) else none
  | .setTimeout i => (hall.hand i).bind fun hand =>
      if hand.stage = .fresh then some (hall.setTimeout hand) else none
  | .schedule i => (hall.hand i).bind fun hand =>
      if hand.stage = .timed then some (hall.schedule hand) else none
  | .leave i => (hall.hand i).bind fun hand =>
      if hand.stage = .scheduled then some (hall.leave hand) else none
  | .take =>
      match hall.queue with
      | [] => none
      | client :: rest => some { hall with queue := rest, handling := client :: hall.handling }
  | .done client => if client ∈ hall.handling then some (hall.finish client) else none

end Hall

def receiving : Machine Hall Move where
  initial hall := ∃ v, hall = { m_recvTimeout := v }
  step := Hall.step

inductive Moved (hall : Hall) : Hall → Prop where
  | follow {act server} : hall.admits act → hall.server.step act = some server →
      Moved hall (hall.follow act server)
  | setRecvTimeout (v : UInt64) : hall.caller →
      Moved hall { hall with m_recvTimeout := v, earlier := hall.m_recvTimeout :: hall.earlier }
  | share : hall.caller →
      Moved hall { hall with owners := hall.owners + 1, references := hall.references.copies 1 }
  | drop : 0 < hall.owners → Moved hall (Hall.release { hall with owners := hall.owners - 1 })
  | setTimeout {hand} : hand ∈ hall.hands → hand.stage = .fresh →
      Moved hall (hall.setTimeout hand)
  | schedule {hand} : hand ∈ hall.hands → hand.stage = .timed →
      Moved hall (hall.schedule hand)
  | leave {hand} : hand ∈ hall.hands → hand.stage = .scheduled →
      Moved hall (hall.leave hand)
  | take {client rest} : hall.queue = client :: rest →
      Moved hall { hall with queue := rest, handling := client :: hall.handling }
  | done {client} : client ∈ hall.handling → Moved hall (hall.finish client)

section Steps
variable {hall after : Hall}

theorem hand_mem {i : Nat} {hand : Hand} (found : hall.hand i = some hand) : hand ∈ hall.hands :=
  List.mem_of_find?_eq_some found

theorem hand_moved {i : Nat} {stage : Stage} {next : Hand → Hall}
    (moved : ((hall.hand i).bind fun hand =>
      if hand.stage = stage then some (next hand) else none) = some after) :
    ∃ hand ∈ hall.hands, hand.stage = stage ∧ after = next hand := by
  rcases Option.bind_eq_some_iff.mp moved with ⟨hand, found, going⟩
  split at going
  · rename_i at_stage
    exact ⟨hand, hand_mem found, at_stage, (Option.some.inj going).symm⟩
  · cases going

theorem moved_of_step {move : Move} (moved : hall.step move = some after) : Moved hall after := by
  cases move with
  | server act =>
      rcases Option.ite_none_right_eq_some.mp moved with ⟨admitted, following⟩
      rcases Option.map_eq_some_iff.mp following with ⟨server, stepped, rfl⟩
      exact .follow admitted stepped
  | setRecvTimeout v =>
      rcases Option.ite_none_right_eq_some.mp moved with ⟨caller, done⟩
      cases done
      exact .setRecvTimeout v caller
  | share =>
      rcases Option.ite_none_right_eq_some.mp moved with ⟨caller, done⟩
      cases done
      exact .share caller
  | drop =>
      rcases Option.ite_none_right_eq_some.mp moved with ⟨owned, done⟩
      cases done
      exact .drop owned
  | setTimeout i =>
      rcases hand_moved moved with ⟨hand, mem, fresh, rfl⟩
      exact .setTimeout mem fresh
  | schedule i =>
      rcases hand_moved moved with ⟨hand, mem, timed, rfl⟩
      exact .schedule mem timed
  | leave i =>
      rcases hand_moved moved with ⟨hand, mem, scheduled, rfl⟩
      exact .leave mem scheduled
  | take =>
      unfold Hall.step at moved
      dsimp only at moved
      split at moved
      · cases moved
      · rename_i client rest queued
        cases moved
        exact .take queued
  | done client =>
      rcases Option.ite_none_right_eq_some.mp moved with ⟨mem, done⟩
      cases done
      exact .done mem

end Steps

/-! Who has a pointer to the server. -/

def Loop.holds (loop : Loop) : Nat := if loop.phase = .ended then 0 else 1

def Closure.holds (closure : Closure) : Nat := if closure = .done then 0 else 1

def Server.holders (server : Server) : Nat :=
  (server.loops.map Loop.holds).sum + (server.closures.map Closure.holds).sum

def Hall.holders (hall : Hall) : Nat :=
  hall.owners + hall.server.holders + hall.queue.length + hall.handling.length

def Hall.InBody (hall : Hall) : Prop :=
  ∀ hand ∈ hall.hands, ∃ loop,
    hall.server.loops[hand.loop]? = some loop ∧ loop.phase = .testing

/-- The pointers to the server are counted, it goes with the last one and its
sockets with it. -/
structure Referenced (hall : Hall) : Prop where
  counts : hall.references.Counts hall.holders
  gone : hall.holders = 0 → hall.server.m_socks = []
  in_body : hall.InBody

section References
variable {hall after : Hall} {server moved : Server} {act : Act}

theorem begin_found {j : Nat} (stepped : server.step (.begin j) = some moved) :
    server.closures[j]? = some .pending := by
  unfold Server.step at stepped
  dsimp only at stepped
  split at stepped
  · assumption
  · cases stepped

theorem clear_found {j : Nat} (stepped : server.step (.clear j) = some moved) :
    server.closures[j]? = some (.running []) := by
  unfold Server.step at stepped
  dsimp only at stepped
  split at stepped
  · assumption
  · cases stepped

/-- A pointer to the server is copied for each loop and each closure, and one goes with
each of them. -/
theorem holders_step (stepped : server.step act = some moved) :
    moved.holders + (if act.drops server then 1 else 0) = server.holders + act.copies server := by
  cases act with
  | bind listening failed =>
      cases stepped
      rfl
  | start =>
      cases stepped
      unfold Server.start
      cases flag : server.m_isStop with
      | false => simp [Act.drops, Act.copies, flag]
      | true =>
          have each : ∀ socks : List SocketPtr,
              ((socks.map fun sock => ({ sock := sock } : Loop)).map Loop.holds).sum =
                socks.length := by
            intro socks
            induction socks with
            | nil => rfl
            | cons sock rest ih =>
                rw [List.map_cons, List.map_cons, List.sum_cons, ih, List.length_cons, Loop.holds,
                  Nat.add_comm]
                rfl
          simp only [Server.holders, Act.drops, Act.copies, flag, List.map_append,
            List.sum_append, each, Bool.not_true, Bool.false_eq_true, ↓reduceIte]
          omega
  | stop =>
      cases stepped
      simp only [Server.holders, Server.stop, Act.drops, Act.copies, List.map_append,
        List.sum_append, List.map_cons, List.sum_cons, List.map_nil, List.sum_nil, Closure.holds,
        reduceCtorEq, Bool.false_eq_true, ↓reduceIte]
      omega
  | test i =>
      rcases loop_moved stepped with ⟨loop, next, found, tested, rfl⟩
      have changed := sum_map_set Loop.holds found next
      unfold Server.test at tested
      split at tested
      · rename_i testing
        cases tested
        cases flag : server.m_isStop <;>
          simp [Server.holders, Server.setLoop, Act.drops, Act.copies, Loop.holds, flag,
            testing] at changed ⊢ <;> omega
      · cases tested
  | accept i =>
      rcases loop_moved stepped with ⟨loop, next, found, called, rfl⟩
      have changed := sum_map_set Loop.holds found next
      unfold Server.accept at called
      split at called
      · rename_i calling
        cases called
        simp [Server.holders, Server.setLoop, Act.drops, Act.copies, Loop.holds, calling]
          at changed ⊢
        omega
      · cases called
  | accepted i client =>
      rcases loop_moved stepped with ⟨loop, next, found, returned, rfl⟩
      have changed := sum_map_set Loop.holds found next
      unfold Server.accepted at returned
      split at returned
      · rename_i guard
        cases returned
        simp [Server.holders, Server.setLoop, Act.drops, Act.copies, Loop.holds, guard.1]
          at changed ⊢
        omega
      · cases returned
  | begin j =>
      have changed := sum_map_set Closure.holds (begin_found stepped)
        (.running server.m_socks)
      rcases begin_moved stepped with rfl
      simp [Server.holders, Server.setClosure, Act.drops, Act.copies, Closure.holds] at changed ⊢
      omega
  | close j =>
      rcases close_moved stepped with ⟨sock, rest, found, rfl⟩
      have changed := sum_map_set Closure.holds found (.running rest)
      simp [Server.holders, Server.setClosure, Act.drops, Act.copies, Closure.holds] at changed ⊢
      omega
  | clear j =>
      have changed := sum_map_set Closure.holds (clear_found stepped) .done
      rcases clear_moved stepped with rfl
      simp [Server.holders, Server.setClosure, Act.drops, Act.copies, Closure.holds] at changed ⊢
      omega

/-! Nobody makes a step without a pointer to the server. -/

theorem loop_holds {i : Nat} {loop : Loop} (found : server.loops[i]? = some loop)
    (live : loop.phase ≠ .ended) : 0 < server.holders := by
  have one : loop.holds = 1 := if_neg live
  have part : loop.holds ≤ (server.loops.map Loop.holds).sum :=
    List.le_sum_of_mem (List.mem_map_of_mem (List.mem_of_getElem? found))
  unfold Server.holders
  omega

theorem closure_holds {j : Nat} {closure : Closure} (found : server.closures[j]? = some closure)
    (waiting : closure ≠ .done) : 0 < server.holders := by
  have one : closure.holds = 1 := if_neg waiting
  have part : closure.holds ≤ (server.closures.map Closure.holds).sum :=
    List.le_sum_of_mem (List.mem_map_of_mem (List.mem_of_getElem? found))
  unfold Server.holders
  omega

theorem caller_holds (caller : hall.caller) : 0 < hall.holders := by
  unfold Hall.caller at caller
  unfold Hall.holders
  rcases Bool.or_eq_true_iff.mp caller with owned | handling
  · have := of_decide_eq_true owned
    omega
  · have : hall.handling ≠ [] := by simpa using handling
    have := List.length_pos_iff.mpr this
    omega

theorem follow_holds (admitted : hall.admits act) (stepped : hall.server.step act = some moved) :
    0 < hall.holders := by
  have inside : 0 < hall.server.holders → 0 < hall.holders := by
    unfold Hall.holders
    omega
  cases act with
  | bind listening failed => exact caller_holds admitted
  | start => exact caller_holds admitted
  | stop => exact caller_holds admitted
  | test i =>
      rcases loop_moved stepped with ⟨loop, next, found, tested, _⟩
      have testing := (Option.ite_none_right_eq_some.mp tested).1
      exact inside (loop_holds found (by simp [testing]))
  | accept i =>
      rcases loop_moved stepped with ⟨loop, next, found, called, _⟩
      have calling := (Option.ite_none_right_eq_some.mp called).1
      exact inside (loop_holds found (by simp [calling]))
  | accepted i client =>
      rcases loop_moved stepped with ⟨loop, next, found, returned, _⟩
      have accepting := (Option.ite_none_right_eq_some.mp returned).1.1
      exact inside (loop_holds found (by simp [accepting]))
  | begin j => exact inside (closure_holds (begin_found stepped) Closure.noConfusion)
  | close j =>
      rcases close_moved stepped with ⟨sock, rest, found, _⟩
      exact inside (closure_holds found Closure.noConfusion)
  | clear j => exact inside (closure_holds (clear_found stepped) Closure.noConfusion)

theorem Referenced.hand_holds (referenced : Referenced hall) {hand : Hand}
    (mem : hand ∈ hall.hands) : 0 < hall.holders := by
  rcases referenced.in_body hand mem with ⟨loop, found, testing⟩
  have := loop_holds found (by simp [testing])
  unfold Hall.holders
  omega

theorem Referenced.moved_holds (referenced : Referenced hall) (moved : Moved hall after) :
    0 < hall.holders := by
  cases moved with
  | follow admitted stepped => exact follow_holds admitted stepped
  | setRecvTimeout v caller => exact caller_holds caller
  | share caller => exact caller_holds caller
  | drop owned =>
      unfold Hall.holders
      omega
  | setTimeout mem => exact referenced.hand_holds mem
  | schedule mem => exact referenced.hand_holds mem
  | leave mem => exact referenced.hand_holds mem
  | take queued =>
      rw [Hall.holders, queued, List.length_cons]
      omega
  | done mem =>
      have := List.length_pos_of_mem mem
      unfold Hall.holders
      omega

/-! The steps keep the account. -/

theorem testing_step (stepped : server.step act = some moved) {i : Nat}
    (apart : act ≠ .test i) {loop : Loop} (found : server.loops[i]? = some loop)
    (testing : loop.phase = .testing) :
    ∃ loop, moved.loops[i]? = some loop ∧ loop.phase = .testing := by
  have others : ∀ {j : Nat} {old : Loop} (next : Loop), server.loops[j]? = some old →
      (i = j → old.phase ≠ .testing) →
      ∃ loop, (server.setLoop j next).loops[i]? = some loop ∧ loop.phase = .testing := by
    intro j old next at_j busy
    by_cases same : i = j
    · subst same
      rw [found] at at_j
      cases at_j
      exact absurd testing (busy rfl)
    · refine ⟨loop, ?_, testing⟩
      rw [← found]
      exact List.getElem?_set_ne (Ne.symm same)
  cases act with
  | bind listening failed =>
      cases stepped
      exact ⟨loop, found, testing⟩
  | start =>
      cases stepped
      unfold Server.start
      split
      · exact ⟨loop, found, testing⟩
      · have inside := (List.getElem?_eq_some_iff.mp found).1
        exact ⟨loop, (List.getElem?_append_left inside).trans found, testing⟩
  | stop =>
      cases stepped
      exact ⟨loop, found, testing⟩
  | test j =>
      rcases loop_moved stepped with ⟨old, next, at_j, _, rfl⟩
      exact others next at_j fun same => absurd (same ▸ rfl) apart
  | accept j =>
      rcases loop_moved stepped with ⟨old, next, at_j, called, rfl⟩
      have calling := (Option.ite_none_right_eq_some.mp called).1
      exact others next at_j fun _ => by simp [calling]
  | accepted j client =>
      rcases loop_moved stepped with ⟨old, next, at_j, returned, rfl⟩
      have accepting := (Option.ite_none_right_eq_some.mp returned).1.1
      exact others next at_j fun _ => by simp [accepting]
  | begin j =>
      rcases begin_moved stepped with rfl
      exact ⟨loop, found, testing⟩
  | close j =>
      rcases close_moved stepped with ⟨_, _, _, rfl⟩
      exact ⟨loop, found, testing⟩
  | clear j =>
      rcases clear_moved stepped with rfl
      exact ⟨loop, found, testing⟩

theorem release_holders : hall.release.holders = hall.holders := by
  unfold Hall.release
  split <;> rfl

theorem release_hands : hall.release.hands = hall.hands := by
  unfold Hall.release
  split <;> rfl

theorem release_loops : hall.release.server.loops = hall.server.loops := by
  unfold Hall.release
  split <;> rfl

theorem Referenced.release (counts : hall.references.Counts (hall.holders + 1))
    (in_body : hall.InBody) : Referenced hall.release := by
  have dropped := counts.drop
  refine ⟨?_, ?_, ?_⟩
  · rw [release_holders]
    have references : hall.release.references = hall.references.drop := by
      unfold Hall.release
      split <;> rfl
    rwa [references]
  · intro none
    rw [release_holders] at none
    have last : hall.references.drop.use = 0 := by rw [dropped.use, none]
    unfold Hall.release
    rw [if_pos last]
    rfl
  · unfold Hall.InBody
    rw [release_hands, release_loops]
    exact in_body

theorem Hall.InBody.setHand (in_body : hall.InBody) {hand : Hand} (mem : hand ∈ hall.hands)
    (stage : Stage) : (hall.setHand hand stage).InBody := by
  intro other within
  rcases List.mem_cons.mp within with rfl | old
  · exact in_body hand mem
  · exact in_body other (List.mem_of_mem_erase old)

theorem Referenced.copied (counts : after.references.Counts after.holders)
    (some_left : 0 < after.holders) (in_body : after.InBody) : Referenced after :=
  ⟨counts, fun none => absurd none (Nat.pos_iff_ne_zero.mp some_left), in_body⟩

def Hall.stepped (hall : Hall) (act : Act) (server : Server) : Hall :=
  { hall with
    server := server
    references := hall.references.copies (act.copies hall.server) }

theorem follow_cases (hall : Hall) (act : Act) (server : Server) :
    (∃ i, act = .accepted i true ∧
      hall.follow act server = (hall.stepped act server).receive i) ∨
    (act.drops hall.server ∧ hall.follow act server = (hall.stepped act server).release) ∨
    (¬ act.drops hall.server ∧ hall.follow act server = hall.stepped act server) := by
  unfold Hall.follow
  split
  · rename_i i
    exact Or.inl ⟨i, rfl, rfl⟩
  · split
    · rename_i ends
      exact Or.inr (Or.inl ⟨ends, rfl⟩)
    · rename_i goes_on
      exact Or.inr (Or.inr ⟨goes_on, rfl⟩)

theorem Referenced.follow (referenced : Referenced hall) (admitted : hall.admits act)
    (stepped : hall.server.step act = some moved) : Referenced (hall.follow act moved) := by
  have held := follow_holds admitted stepped
  have steps := holders_step stepped
  have copied := referenced.counts.copies (act.copies hall.server) (Or.inr held)
  have in_body : (hall.stepped act moved).InBody := by
    intro hand mem
    rcases referenced.in_body hand mem with ⟨loop, found, testing⟩
    refine testing_step stepped ?_ found testing
    rintro rfl
    -- its body has not ended
    have free := Option.isNone_iff_eq_none.mp admitted
    have other := List.find?_eq_none.mp free hand mem
    simp at other
  have total : (hall.stepped act moved).holders + (if act.drops hall.server then 1 else 0) =
      hall.holders + act.copies hall.server := by
    simp only [Hall.holders, Hall.stepped]
    omega
  rcases follow_cases hall act moved with
    ⟨i, rfl, same⟩ | ⟨ends, same⟩ | ⟨goes_on, same⟩
  · rw [same]
    have kept : (hall.stepped (.accepted i true) moved).holders = hall.holders := total
    refine Referenced.copied (kept ▸ copied) (kept ▸ held) ?_
    intro hand mem
    rcases List.mem_cons.mp mem with rfl | old
    · rcases loop_moved stepped with ⟨loop, next, found, returned, rfl⟩
      have back := (Option.ite_none_right_eq_some.mp returned).2
      cases back
      exact ⟨_, setLoop_get found _, rfl⟩
    · exact in_body hand old
  · rw [same]
    rw [if_pos ends] at total
    exact Referenced.release (total ▸ copied) in_body
  · rw [same]
    rw [if_neg goes_on, Nat.add_zero] at total
    exact Referenced.copied (total ▸ copied) (by omega) in_body

theorem referenced_moved (referenced : Referenced hall) (moved : Moved hall after) :
    Referenced after := by
  have held := referenced.moved_holds moved
  have in_body := referenced.in_body
  cases moved with
  | follow admitted stepped => exact referenced.follow admitted stepped
  | setRecvTimeout v caller => exact ⟨referenced.counts, referenced.gone, in_body⟩
  | share caller =>
      have copied := referenced.counts.copies 1 (Or.inr held)
      have total : hall.holders + 1 = Hall.holders { hall with
          owners := hall.owners + 1, references := hall.references.copies 1 } := by
        simp only [Hall.holders]
        omega
      exact Referenced.copied (total ▸ copied) (by omega) in_body
  | drop owned =>
      have total : hall.holders = Hall.holders { hall with owners := hall.owners - 1 } + 1 := by
        simp only [Hall.holders]
        omega
      exact Referenced.release (total ▸ referenced.counts) in_body
  | setTimeout mem fresh =>
      exact ⟨referenced.counts, referenced.gone, in_body.setHand mem .timed⟩
  | @schedule hand mem timed =>
      have copied := referenced.counts.copies 1 (Or.inr held)
      have total : (hall.schedule hand).holders = hall.holders + 1 := by
        simp only [Hall.holders, Hall.schedule, Hall.setHand, List.length_append,
          List.length_singleton]
        omega
      exact Referenced.copied (total ▸ copied) (by omega) (in_body.setHand mem .scheduled)
  | @leave hand mem scheduled =>
      refine ⟨referenced.counts, referenced.gone, ?_⟩
      intro other kept
      exact in_body other (List.mem_of_mem_erase kept)
  | @take client rest queued =>
      have total : hall.holders = Hall.holders { hall with
          queue := rest, handling := client :: hall.handling } := by
        simp only [Hall.holders, queued, List.length_cons]
        omega
      exact ⟨total ▸ referenced.counts, total ▸ referenced.gone, in_body⟩
  | @done client mem =>
      have shorter := List.length_erase_of_mem mem
      have some_client := List.length_pos_of_mem mem
      apply Referenced.release
      · have total : hall.holders = Hall.holders { hall.close client with
            handling := hall.handling.erase client
            served := Function.update hall.served client (hall.served client + 1) } + 1 := by
          simp only [Hall.holders, Hall.close]
          omega
        exact total ▸ referenced.counts
      · exact in_body

end References

/-! Who has a pointer to a client. -/

def Hall.inHand (hall : Hall) (stages : Stage → Bool) (client : Client) : Nat :=
  (hall.hands.map fun hand => if hand.client = client ∧ stages hand.stage then 1 else 0).sum

def Hall.holds (hall : Hall) (client : Client) : Nat :=
  hall.inHand (fun _ => true) client + hall.queue.count client + hall.handling.count client

def Hall.waiting (hall : Hall) (client : Client) : Nat :=
  hall.inHand (fun stage => stage ≠ .scheduled) client

def Hall.fresh (hall : Hall) (client : Client) : Nat :=
  hall.inHand (fun stage => stage = .fresh) client

/-- Each client is on its way in one place or has been served once; the pointers to
it are counted; it has a timeout as soon as it has left the first stage. -/
structure Passed (hall : Hall) : Prop where
  once : ∀ client, hall.waiting client + hall.queue.count client + hall.handling.count client +
    hall.served client = if client < hall.clients then 1 else 0
  known : ∀ client, hall.clients ≤ client → hall.holds client = 0
  counts : ∀ client < hall.clients, (hall.sockets client).Counts (hall.holds client)
  timed : ∀ client < hall.clients, hall.fresh client = 0 →
    ∃ v ∈ hall.m_recvTimeout :: hall.earlier, hall.timeout client = some v

section Clients
variable {hall after : Hall} {hand : Hand} {client : Client} {stages : Stage → Bool}

theorem inHand_setHand (mem : hand ∈ hall.hands) (stage : Stage) (stages : Stage → Bool)
    (client : Client) :
    (hall.setHand hand stage).inHand stages client +
        (if hand.client = client ∧ stages hand.stage then 1 else 0) =
      hall.inHand stages client + (if hand.client = client ∧ stages stage then 1 else 0) := by
  have kept := List.sum_map_erase
    (fun hand : Hand => if hand.client = client ∧ stages hand.stage then 1 else 0) mem
  simp only [Hall.inHand, Hall.setHand, List.map_cons, List.sum_cons]
  omega

theorem inHand_same (mem : hand ∈ hall.hands) (stage : Stage) (stages : Stage → Bool)
    (alike : stages stage = stages hand.stage) :
    (hall.setHand hand stage).inHand stages client = hall.inHand stages client := by
  have moved := inHand_setHand mem stage stages client
  rw [alike] at moved
  exact Nat.add_right_cancel moved

theorem inHand_leave (mem : hand ∈ hall.hands) (stages : Stage → Bool) (client : Client) :
    (hall.leave hand).inHand stages client +
        (if hand.client = client ∧ stages hand.stage then 1 else 0) =
      hall.inHand stages client :=
  (Nat.add_comm ..).trans (List.sum_map_erase (fun hand : Hand =>
    if hand.client = client ∧ stages hand.stage then 1 else 0) mem)

theorem hand_counts (mem : hand ∈ hall.hands) : 0 < hall.holds hand.client := by
  have part := List.le_sum_of_mem (List.mem_map_of_mem (f := fun other : Hand =>
    if other.client = hand.client ∧ true then 1 else 0) mem)
  simp only [true_and, ↓reduceIte] at part
  simp only [Hall.holds, Hall.inHand]
  omega

theorem Passed.hand_known (passed : Passed hall) (mem : hand ∈ hall.hands) :
    hand.client < hall.clients := by
  by_contra unknown
  have none := passed.known hand.client (Nat.le_of_not_lt unknown)
  exact absurd none (Nat.pos_iff_ne_zero.mp (hand_counts mem))

theorem Passed.release (passed : Passed hall) : Passed hall.release := by
  unfold Hall.release
  split
  · exact ⟨passed.once, passed.known, passed.counts, passed.timed⟩
  · exact ⟨passed.once, passed.known, passed.counts, passed.timed⟩

theorem Passed.receive (passed : Passed hall) (i : Nat) : Passed (hall.receive i) := by
  have more : ∀ stages client, (hall.receive i).inHand stages client =
      (if hall.clients = client ∧ stages .fresh then 1 else 0) + hall.inHand stages client :=
    fun _ _ => rfl
  have none := passed.known hall.clients (Nat.le_refl _)
  refine ⟨?_, ?_, ?_, ?_⟩
  · intro client
    have before := passed.once client
    by_cases same : hall.clients = client
    · subst same
      simp only [Hall.waiting, more]
      simp [Hall.waiting, Hall.receive] at before ⊢
      omega
    · have bound : client < hall.clients + 1 ↔ client < hall.clients :=
        Nat.lt_succ_iff_lt_or_eq.trans (or_iff_left (Ne.symm same))
      simp only [Hall.waiting, more, same, false_and, ↓reduceIte, Nat.zero_add]
      exact before.trans (if_congr bound rfl rfl).symm
  · intro client unknown
    have later : hall.clients + 1 ≤ client := unknown
    have before := passed.known client (by omega)
    rw [Hall.holds, more, if_neg (by omega)]
    simp only [Hall.holds] at before
    simp only [Hall.receive]
    omega
  · intro client known
    by_cases same : hall.clients = client
    · subst same
      have alone : (hall.receive i).holds hall.clients = 1 := by
        rw [Hall.holds, more]
        simp only [Hall.holds] at none
        simp only [Hall.receive, true_and, ↓reduceIte]
        omega
      have made : (hall.receive i).sockets hall.clients = {} := Function.update_self ..
      rw [alone, made]
      exact Block.counts_made
    · have old : client < hall.clients := by
        have : client < hall.clients + 1 := known
        omega
      have holds : (hall.receive i).holds client = hall.holds client := by
        rw [Hall.holds, more, if_neg (by simp [same]), Nat.zero_add]
        rfl
      have block : (hall.receive i).sockets client = hall.sockets client :=
        Function.update_of_ne (Ne.symm same) ..
      rw [holds, block]
      exact passed.counts client old
  · intro client known
    simp only [Hall.fresh, more]
    by_cases same : hall.clients = client
    · intro timed
      simp [same] at timed
    · have old : client < hall.clients := by
        have : client < hall.clients + 1 := known
        omega
      rw [if_neg (by simp [same]), Nat.zero_add]
      exact passed.timed client old

theorem Passed.setTimeout (passed : Passed hall) (mem : hand ∈ hall.hands)
    (fresh : hand.stage = .fresh) : Passed (hall.setTimeout hand) := by
  have holds : ∀ client, (hall.setTimeout hand).holds client = hall.holds client := by
    intro client
    exact congrArg (· + _ + _) (inHand_same mem .timed (fun _ => true) rfl)
  refine ⟨?_, ?_, ?_, ?_⟩
  · intro client
    have waiting : (hall.setTimeout hand).waiting client = hall.waiting client :=
      inHand_same mem .timed (fun stage => decide (stage ≠ .scheduled)) (by simp [fresh])
    rw [waiting]
    exact passed.once client
  · intro client unknown
    rw [holds]
    exact passed.known client unknown
  · intro client known
    rw [holds]
    exact passed.counts client known
  · intro client known timed
    by_cases same : client = hand.client
    · subst same
      exact ⟨_, List.mem_cons_self, Function.update_self ..⟩
    · have unset : (hall.setTimeout hand).timeout client = hall.timeout client :=
        Function.update_of_ne same ..
      have moved := inHand_setHand mem .timed (fun stage => decide (stage = .fresh)) client
      rw [if_neg (by simp [Ne.symm same]), if_neg (by simp)] at moved
      rw [unset]
      exact passed.timed client known (moved.symm.trans timed)

theorem Passed.schedule (passed : Passed hall) (mem : hand ∈ hall.hands)
    (timed : hand.stage = .timed) : Passed (hall.schedule hand) := by
  have waiting := inHand_setHand mem .scheduled fun stage => decide (stage ≠ .scheduled)
  have fresh : ∀ client, (hall.schedule hand).fresh client = hall.fresh client := fun client =>
    inHand_same mem .scheduled (fun stage => decide (stage = .fresh)) (by simp [timed])
  have holds : ∀ client, (hall.schedule hand).holds client =
      hall.holds client + if hand.client = client then 1 else 0 := by
    intro client
    have inside : (hall.schedule hand).inHand (fun _ => true) client =
        hall.inHand (fun _ => true) client := inHand_same mem .scheduled (fun _ => true) rfl
    rw [Hall.holds, inside]
    simp only [Hall.schedule, Hall.setHand, List.count_append, List.count_singleton, beq_iff_eq,
      Hall.holds]
    omega
  refine ⟨?_, ?_, ?_, ?_⟩
  · intro client
    refine Eq.trans ?_ (passed.once client)
    have moved : (hall.schedule hand).waiting client + (if hand.client = client then 1 else 0) =
        hall.waiting client := by
      have left := waiting client
      simp only [timed, ne_eq, reduceCtorEq, not_false_eq_true, not_true_eq_false, decide_true,
        decide_false, Bool.false_eq_true, and_true, and_false, ↓reduceIte, Nat.add_zero] at left
      exact left
    simp only [Hall.schedule, Hall.setHand, List.count_append, List.count_singleton, beq_iff_eq]
      at moved ⊢
    omega
  · intro client unknown
    rw [holds, passed.known client unknown, if_neg]
    rintro rfl
    exact Nat.not_lt.mpr unknown (passed.hand_known mem)
  · intro client known
    rw [holds]
    by_cases same : hand.client = client
    · subst same
      have block : (hall.schedule hand).sockets hand.client =
          (hall.sockets hand.client).copies 1 := Function.update_self ..
      rw [block, if_pos rfl]
      exact (passed.counts hand.client known).copies 1 (Or.inr (hand_counts mem))
    · have block : (hall.schedule hand).sockets client = hall.sockets client :=
        Function.update_of_ne (Ne.symm same) ..
      rw [block, if_neg same]
      exact passed.counts client known
  · intro client known
    rw [fresh]
    exact passed.timed client known

theorem drop_counts {holders : Client → Nat}
    (counts : ∀ client < hall.clients, (hall.sockets client).Counts (hall.holds client))
    {client : Client} (kept : ∀ other, hall.holds other =
      holders other + if client = other then 1 else 0) :
    ∀ other < hall.clients, ((hall.close client).sockets other).Counts (holders other) := by
  intro other known
  have before := counts other known
  rw [kept] at before
  by_cases same : client = other
  · subst same
    have block : (hall.close client).sockets client = (hall.sockets client).drop :=
      Function.update_self ..
    rw [if_pos rfl] at before
    rw [block]
    exact before.drop
  · have block : (hall.close client).sockets other = hall.sockets other :=
      Function.update_of_ne (Ne.symm same) ..
    rw [if_neg same] at before
    rw [block]
    exact before

theorem Passed.leave (passed : Passed hall) (mem : hand ∈ hall.hands)
    (scheduled : hand.stage = .scheduled) : Passed (hall.leave hand) := by
  have waiting : ∀ client, (hall.leave hand).waiting client = hall.waiting client := by
    intro client
    have left := inHand_leave mem (fun stage => decide (stage ≠ .scheduled)) client
    rw [if_neg (by simp [scheduled])] at left
    exact left
  have fresh : ∀ client, (hall.leave hand).fresh client = hall.fresh client := by
    intro client
    have left := inHand_leave mem (fun stage => decide (stage = .fresh)) client
    rw [if_neg (by simp [scheduled])] at left
    exact left
  have kept : ∀ client, hall.holds client = (hall.leave hand).holds client +
      if hand.client = client then 1 else 0 := by
    intro client
    have left := inHand_leave mem (fun _ => true) client
    simp only [and_true] at left
    rw [Hall.holds, Hall.holds, ← left]
    simp only [Hall.leave, Hall.close]
    omega
  refine ⟨?_, ?_, ?_, ?_⟩
  · intro client
    rw [waiting]
    exact passed.once client
  · intro client unknown
    have none := passed.known client unknown
    rw [kept] at none
    exact Nat.eq_zero_of_add_eq_zero_right none
  · exact drop_counts passed.counts kept
  · intro client known
    rw [fresh]
    exact passed.timed client known

theorem Passed.take (passed : Passed hall) {rest : List Client}
    (queued : hall.queue = client :: rest) :
    Passed { hall with queue := rest, handling := client :: hall.handling } := by
  have moved : ∀ other, rest.count other + (client :: hall.handling).count other =
      hall.queue.count other + hall.handling.count other := by
    intro other
    rw [queued, List.count_cons, List.count_cons]
    omega
  have holds : ∀ other, Hall.holds { hall with
      queue := rest, handling := client :: hall.handling } other = hall.holds other := by
    intro other
    have same := moved other
    simp only [Hall.holds, Hall.inHand]
    omega
  refine ⟨?_, ?_, ?_, passed.timed⟩
  · intro other
    have before := passed.once other
    have same := moved other
    simp only [Hall.waiting, Hall.inHand] at before ⊢
    omega
  · intro other unknown
    rw [holds]
    exact passed.known other unknown
  · intro other known
    rw [holds]
    exact passed.counts other known

theorem Passed.finish (passed : Passed hall) (mem : client ∈ hall.handling) :
    Passed (hall.finish client) := by
  have taken : ∀ other, hall.handling.count other =
      (hall.handling.erase client).count other + if client = other then 1 else 0 := by
    intro other
    rw [(List.perm_cons_erase mem).count_eq, List.count_cons]
    simp only [beq_iff_eq]
  apply Passed.release
  refine ⟨?_, ?_, ?_, passed.timed⟩
  · intro other
    refine Eq.trans ?_ (passed.once other)
    rw [taken]
    by_cases same : client = other
    · subst same
      simp only [Hall.waiting, Hall.inHand, Hall.close, Function.update_self, ↓reduceIte]
      omega
    · simp only [Hall.waiting, Hall.inHand, Hall.close, Function.update_of_ne (Ne.symm same), same,
        ↓reduceIte]
      omega
  · intro other unknown
    have none := passed.known other unknown
    simp only [Hall.holds, taken] at none
    simp only [Hall.holds, Hall.inHand, Hall.close] at none ⊢
    omega
  · apply drop_counts passed.counts
    intro other
    simp only [Hall.holds, taken, Hall.inHand, Hall.close]
    omega

theorem passed_moved (passed : Passed hall) (moved : Moved hall after) : Passed after := by
  cases moved with
  | @follow act server admitted stepped =>
      have same : Passed (hall.stepped act server) :=
        ⟨passed.once, passed.known, passed.counts, passed.timed⟩
      rcases follow_cases hall act server with
        ⟨i, _, result⟩ | ⟨_, result⟩ | ⟨_, result⟩
      · rw [result]
        exact same.receive i
      · rw [result]
        exact same.release
      · rw [result]
        exact same
  | setRecvTimeout v caller =>
      refine ⟨passed.once, passed.known, passed.counts, ?_⟩
      intro client known timed
      rcases passed.timed client known timed with ⟨w, had, set_to⟩
      exact ⟨w, List.mem_cons_of_mem v had, set_to⟩
  | share caller => exact ⟨passed.once, passed.known, passed.counts, passed.timed⟩
  | drop owned =>
      exact Passed.release ⟨passed.once, passed.known, passed.counts, passed.timed⟩
  | setTimeout mem fresh => exact passed.setTimeout mem fresh
  | schedule mem timed => exact passed.schedule mem timed
  | leave mem scheduled => exact passed.leave mem scheduled
  | take queued => exact passed.take queued
  | done mem => exact passed.finish mem

end Clients

def Hall.InUse (hall : Hall) : Prop :=
  0 < hall.owners ∨ (∃ loop ∈ hall.server.loops, loop.phase ≠ .ended) ∨
    (∃ closure ∈ hall.server.closures, closure ≠ .done) ∨
      hall.queue ≠ [] ∨ hall.handling ≠ []

def Hall.Keeps (hall : Hall) (client : Client) : Prop :=
  (∃ hand ∈ hall.hands, hand.client = client) ∨
    client ∈ hall.queue ∨ client ∈ hall.handling

/-- Each client is with its loop, is queued, is handled or has been served once. Its
socket is closed once, when nobody needs it, and has a timeout before it is queued.
The server is destroyed once, when nobody needs it, and from then on nothing goes on. -/
structure Handed (hall : Hall) : Prop where
  once : ∀ client < hall.clients, hall.waiting client + hall.queue.count client +
    hall.handling.count client + hall.served client = 1
  opened : ∀ client < hall.clients, (hall.sockets client).destroyed ≤ 1 ∧
    ((hall.sockets client).destroyed = 0 ↔ hall.Keeps client)
  timed : ∀ client < hall.clients, hall.waiting client = 0 →
    ∃ v ∈ hall.m_recvTimeout :: hall.earlier, hall.timeout client = some v
  alive : hall.references.destroyed ≤ 1 ∧ (hall.references.destroyed = 0 ↔ hall.InUse)
  gone : hall.references.destroyed = 1 →
    hall.server.m_socks = [] ∧ ∀ move, hall.step move = none

section Runs
variable {hall : Hall}

theorem holders_pos : 0 < hall.holders ↔ hall.InUse := by
  have loops : 0 < (hall.server.loops.map Loop.holds).sum ↔
      ∃ loop ∈ hall.server.loops, loop.phase ≠ .ended := by
    rw [List.sum_pos_iff_exists_pos_nat]
    simp [Nat.pos_iff_ne_zero, Loop.holds]
  have closures : 0 < (hall.server.closures.map Closure.holds).sum ↔
      ∃ closure ∈ hall.server.closures, closure ≠ .done := by
    rw [List.sum_pos_iff_exists_pos_nat]
    simp [Nat.pos_iff_ne_zero, Closure.holds]
  rw [Hall.InUse, ← loops, ← closures, ← List.length_pos_iff, ← List.length_pos_iff]
  unfold Hall.holders Server.holders
  omega

theorem holds_pos {client : Client} : 0 < hall.holds client ↔ hall.Keeps client := by
  have hands : 0 < hall.inHand (fun _ => true) client ↔
      ∃ hand ∈ hall.hands, hand.client = client := by
    rw [Hall.inHand, List.sum_pos_iff_exists_pos_nat]
    simp [Nat.pos_iff_ne_zero]
  rw [Hall.Keeps, ← hands, ← List.count_pos_iff, ← List.count_pos_iff]
  unfold Hall.holds
  omega

theorem referenced_reach (reached : Reach receiving anyStep hall) : Referenced hall := by
  refine reached.invariant Referenced ?_ ?_
  · rintro _ ⟨v, rfl⟩
    refine ⟨Block.counts_made, fun _ => rfl, ?_⟩
    intro hand mem
    cases mem
  · intro before move after _ referenced _ moved
    exact referenced_moved referenced (moved_of_step moved)

theorem passed_reach (reached : Reach receiving anyStep hall) : Passed hall := by
  refine reached.invariant Passed ?_ ?_
  · rintro _ ⟨v, rfl⟩
    refine ⟨fun _ => rfl, fun _ _ => rfl, ?_, ?_⟩
    · intro client known
      exact absurd known (Nat.not_lt_zero client)
    · intro client known
      exact absurd known (Nat.not_lt_zero client)
  · intro before move after _ passed _ moved
    exact passed_moved passed (moved_of_step moved)

theorem fresh_le_waiting (hall : Hall) (client : Client) :
    hall.fresh client ≤ hall.waiting client := by
  apply List.sum_le_sum
  intro hand _
  by_cases fresh : hand.client = client ∧ hand.stage = .fresh
  · simp [fresh.1, fresh.2]
  · rw [if_neg (by simpa using fresh)]
    exact Nat.zero_le _

end Runs

/-- One client, whose handler ends before the loop does; then the server is stopped and
its owner lets it go. -/
def oneClient : List Move :=
  [.server (.bind 1 false), .server .start, .server (.test 0), .server (.accept 0),
    .server (.accepted 0 true), .setTimeout 0, .schedule 0, .take, .done 0, .leave 0,
    .server .stop, .drop, .server (.test 0), .server (.begin 0), .server (.close 0),
    .server (.clear 0)]

end Ztyco.TcpServer
