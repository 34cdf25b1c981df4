import Ztyco.Transition

/-!
The accept loops of TcpServer. `start` schedules one loop for each listening
socket, `stop` sets the flag they test and schedules a closure that closes the
sockets one after another and then forgets them. Loops, closures and calls
interleave at any point: between a test of the flag and the `accept` after it,
and between two sockets of a closure, which goes over the sockets there are when
it begins: no `bind` is called while it does. `late` counts the attempts of a loop
that began on a closed socket.
-/

namespace Ztyco.TcpServer

open Transition

abbrev SocketPtr := Nat

/-- Where a `startAccept` is: before its test of `m_isStop`, before or in
`sock->accept()`, or at its end. -/
inductive Phase where
  | testing | calling | accepting | ended
  deriving DecidableEq, Repr

structure Loop where
  sock : SocketPtr
  phase : Phase := .testing
  late : Nat := 0
  deriving DecidableEq, Repr

/-- A closure that `stop` has scheduled, with the sockets it has still to close. -/
inductive Closure where
  | pending
  | running (rest : List SocketPtr)
  | done
  deriving DecidableEq, Repr

structure Server where
  m_isStop : Bool := true
  m_socks : List SocketPtr := []
  made : Nat := 0
  closed : SocketPtr → Bool := fun _ => false
  loops : List Loop := []
  closures : List Closure := []
  /-- A closure has ended since the last `bind`. -/
  cleared : Bool := false

inductive Act where
  | bind (listening : Nat) (failed : Bool)
  | start
  | stop
  | test (i : Nat)
  | accept (i : Nat)
  | accepted (i : Nat) (client : Bool)
  | begin (j : Nat)
  | close (j : Nat)
  | clear (j : Nat)
  deriving DecidableEq, Repr

namespace Server

/-- `bind`: so many sockets listen; when an address has failed, all are dropped. -/
def bind (server : Server) (listening : Nat) (failed : Bool) : Server :=
  { server with
    m_socks := if failed then []
      else server.m_socks ++ (List.range listening).map (server.made + ·)
    made := server.made + listening
    cleared := false }

def start (server : Server) : Server :=
  if !server.m_isStop then server
  else { server with
    m_isStop := false
    loops := server.loops ++ server.m_socks.map fun sock => { sock := sock } }

def stop (server : Server) : Server :=
  { server with
    m_isStop := true
    closures := server.closures ++ [.pending] }

def setLoop (server : Server) (i : Nat) (loop : Loop) : Server :=
  { server with loops := server.loops.set i loop }

def setClosure (server : Server) (j : Nat) (closure : Closure) : Server :=
  { server with closures := server.closures.set j closure }

def test (server : Server) (loop : Loop) : Option Loop :=
  if loop.phase = .testing
  then some { loop with phase := if server.m_isStop then .ended else .calling } else none

def accept (server : Server) (loop : Loop) : Option Loop :=
  if loop.phase = .calling
  then some { loop with
    phase := .accepting
    late := if server.closed loop.sock then loop.late + 1 else loop.late }
  else none

/-- It returns a client or null, and on a closed socket null. -/
def accepted (server : Server) (client : Bool) (loop : Loop) : Option Loop :=
  if loop.phase = .accepting ∧ (client = true → server.closed loop.sock = false)
  then some { loop with phase := .testing } else none

def step (server : Server) : Act → Option Server
  | .bind listening failed => some (server.bind listening failed)
  | .start => some server.start
  | .stop => some server.stop
  | .test i => (server.loops[i]?.bind server.test).map (server.setLoop i)
  | .accept i => (server.loops[i]?.bind server.accept).map (server.setLoop i)
  | .accepted i client => (server.loops[i]?.bind (server.accepted client)).map (server.setLoop i)
  | .begin j =>
      match server.closures[j]? with
      -- what a `bind` adds from here on is not gone over
      | some .pending => some (server.setClosure j (.running server.m_socks))
      | _ => none
  | .close j =>
      match server.closures[j]? with
      | some (.running (sock :: rest)) =>
          some { server.setClosure j (.running rest) with
            closed := Function.update server.closed sock true }
      | _ => none
  | .clear j =>
      match server.closures[j]? with
      | some (.running []) =>
          some { server.setClosure j .done with m_socks := [], cleared := true }
      | _ => none

structure Bounded (server : Server) : Prop where
  attempts : ∀ loop ∈ server.loops, loop.late ≤ 1
  socks : server.cleared = true → server.m_socks = []

end Server

def serving : Machine Server Act where
  initial server := server = {}
  step := Server.step

def Server.busy (server : Server) (sock : SocketPtr) : Bool :=
  server.loops.any fun loop => loop.sock = sock && loop.phase ≠ .ended

/-- The flag is set while a socket with a loop is closed, and is reset only when
every loop of a closed socket has ended and no socket to start is closed. -/
def Act.Ordered (server : Server) : Act → Prop
  | .start => server.m_isStop = true → (∀ sock ∈ server.m_socks, server.closed sock = false) ∧
      ∀ loop ∈ server.loops, server.closed loop.sock = true → loop.phase = .ended
  | .close j => ∀ sock rest, server.closures[j]? = some (.running (sock :: rest)) →
      server.m_isStop = true ∨ server.busy sock = false
  | _ => True

instance Act.Ordered.decidable (server : Server) : (act : Act) → Decidable (act.Ordered server)
  | .start => by unfold Act.Ordered; infer_instance
  | .close j =>
      match found : server.closures[j]? with
      | some (.running (sock :: rest)) =>
          decidable_of_iff (server.m_isStop = true ∨ server.busy sock = false) (by
            simp [Act.Ordered, found])
      | some (.running []) | some .pending | some .done | none => .isTrue (by
          simp [Act.Ordered, found])
  | .bind _ _ | .stop | .test _ | .accept _ | .accepted _ _ | .begin _ | .clear _ => .isTrue trivial

end Ztyco.TcpServer
