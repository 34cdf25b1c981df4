import Ztyco.Handouts
import Ztyco.Transition

/-!
Socket of socket.cc, without the options it sets and the data it moves. A call
brings what the kernel and the FdManager answer in it; the kernel hands out only
numbers that are not open (`none` otherwise), and reports some names for a
descriptor, which bind and connect may change, whether they succeed or not.
`bind` looks for another listener on a UNIX path with a socket of its own.
-/

namespace Ztyco.Sockets

open Handouts

abbrev Fd := Nat
abbrev Sockaddr := List UInt8

inductive Family where
  | IPv4 | IPv6 | UNIX
  | other (family : Nat)
  deriving DecidableEq, Repr

inductive SocketType where
  | TCP | UDP
  deriving DecidableEq, Repr

/-- `isUnix`: it is a UnixAddress. -/
structure Address where
  family : Family
  isUnix : Bool := false
  sockaddr : Sockaddr := []
  deriving DecidableEq, Repr

/-- A descriptor of -1 is `none`. -/
structure Socket where
  m_sock : Option Fd := none
  m_family : Family
  m_type : SocketType
  m_protocol : Nat := 0
  m_isConnected : Bool := false
  m_localAddress : Option Address := none
  m_remoteAddress : Option Address := none
  deriving DecidableEq, Repr

/-! What the system answers. -/

structure Kernel where
  ledger : Ledger Fd := {}
  sockname : Fd → Option Sockaddr := fun _ => none
  peername : Fd → Option Sockaddr := fun _ => none

/-- What `getsockname` and `getpeername` report from now on. -/
structure Names where
  sockname : Option Sockaddr := none
  peername : Option Sockaddr := none
  deriving DecidableEq, Repr

structure NewFd where
  fd : Fd
  names : Names := {}
  deriving DecidableEq, Repr

structure Answer where
  ok : Bool
  names : Names := {}
  deriving DecidableEq, Repr

/-- What `FdMgr::GetInstance()->get(fd)` is found to be. -/
structure FdCtx where
  isSocket : Bool := true
  isClosed : Bool := false
  deriving DecidableEq, Repr

structure ConnectAnswers where
  socket : Option NewFd := none
  connect : Answer
  deriving DecidableEq, Repr

/-- `unixConnect` is for the socket that looks for another listener. -/
structure BindAnswers where
  socket : Option NewFd := none
  unixConnect : ConnectAnswers := { connect := { ok := false } }
  bind : Answer
  deriving DecidableEq, Repr

structure AcceptAnswers where
  accept : Option NewFd := none
  context : Option FdCtx := none
  deriving DecidableEq, Repr

namespace Kernel

def name (kernel : Kernel) (fd : Fd) (names : Names) : Kernel :=
  { kernel with
    sockname := Function.update kernel.sockname fd names.sockname
    peername := Function.update kernel.peername fd names.peername }

def hand (kernel : Kernel) (new : NewFd) : Option Kernel :=
  (kernel.ledger.hand new.fd).map fun ledger =>
    { kernel with ledger := ledger }.name new.fd new.names

def shut (kernel : Kernel) (fd : Fd) : Kernel :=
  { kernel with ledger := kernel.ledger.shut fd }

end Kernel

/-! The operations of one socket. -/

namespace Socket

def make (family : Family) (type : SocketType) : Socket := { m_family := family, m_type := type }

def isValid (sock : Socket) : Bool := sock.m_sock.isSome

def address (m_family : Family) (sockaddr : Sockaddr) : Address where
  family := m_family
  isUnix := m_family = .UNIX
  sockaddr := sockaddr

def getLocalAddress (sock : Socket) (kernel : Kernel) : Address × Socket :=
  match sock.m_localAddress with
  | some m_localAddress => (m_localAddress, sock)
  | none =>
      match sock.m_sock.bind kernel.sockname with
      | some name =>
          let res := address sock.m_family name
          (res, { sock with m_localAddress := some res })
      | none => ({ family := sock.m_family }, sock)

def getRemoteAddress (sock : Socket) (kernel : Kernel) : Address × Socket :=
  match sock.m_remoteAddress with
  | some m_remoteAddress => (m_remoteAddress, sock)
  | none =>
      match sock.m_sock.bind kernel.peername with
      | some name =>
          let result := address sock.m_family name
          (result, { sock with m_remoteAddress := some result })
      | none => ({ family := sock.m_family }, sock)

def newSock (sock : Socket) (socket : Option NewFd) (kernel : Kernel) : Option (Socket × Kernel) :=
  match socket with
  | some new => (kernel.hand new).map fun kernel => ({ sock with m_sock := some new.fd }, kernel)
  | none => some ({ sock with m_sock := none }, kernel)

def ensure (sock : Socket) (socket : Option NewFd) (kernel : Kernel) : Option (Socket × Kernel) :=
  if sock.isValid then some (sock, kernel) else sock.newSock socket kernel

def close (sock : Socket) (kernel : Kernel) : Bool × Socket × Kernel :=
  if !sock.m_isConnected && sock.m_sock = none then (true, sock, kernel)
  else
    match sock.m_sock with
    | some fd => (true, { sock with m_isConnected := false, m_sock := none }, kernel.shut fd)
    | none => (false, { sock with m_isConnected := false }, kernel)

def forever : UInt64 := -1

def connectTo (sock : Socket) (fd : Fd) (timeout_ms : UInt64) (answer : Answer)
    (kernel : Kernel) : Bool × Socket × Kernel :=
  let kernel := kernel.name fd answer.names
  if answer.ok then
    let sock := { sock with m_isConnected := true }
    let sock := (sock.getRemoteAddress kernel).2
    let sock := (sock.getLocalAddress kernel).2
    (true, sock, kernel)
  -- only a call with a timeout closes what it could not connect
  else if timeout_ms = forever then (false, sock, kernel)
  else (false, (sock.close kernel).2)

def connect (sock : Socket) (addr : Address) (timeout_ms : UInt64) (answers : ConnectAnswers)
    (kernel : Kernel) : Option (Bool × Socket × Kernel) := do
  -- remembered whether or not the call succeeds
  let sock := { sock with m_remoteAddress := some addr }
  let (sock, kernel) ← sock.ensure answers.socket kernel
  match sock.m_sock with
  | none => pure (false, sock, kernel)
  | some fd =>
      if addr.family = sock.m_family
      then pure (sock.connectTo fd timeout_ms answers.connect kernel)
      else pure (false, sock, kernel)

/-- Whether a socket of its own finds a listener on a UNIX address. -/
def unixTaken (addr : Address) (answers : ConnectAnswers) (kernel : Kernel) :
    Option (Bool × Kernel) :=
  if addr.isUnix then do
    let (taken, sock, kernel) ← (make .UNIX .TCP).connect addr forever answers kernel
    pure (taken, (sock.close kernel).2.2)
  else some (false, kernel)

def bindTo (sock : Socket) (fd : Fd) (answer : Answer) (kernel : Kernel) : Bool × Socket × Kernel :=
  let kernel := kernel.name fd answer.names
  if answer.ok then (true, (sock.getLocalAddress kernel).2, kernel) else (false, sock, kernel)

def bind (sock : Socket) (addr : Address) (answers : BindAnswers) (kernel : Kernel) :
    Option (Bool × Socket × Kernel) := do
  let sock := { sock with m_localAddress := some addr }
  let (sock, kernel) ← sock.ensure answers.socket kernel
  match sock.m_sock with
  | none => pure (false, sock, kernel)
  | some fd =>
      if addr.family = sock.m_family then
        -- a path with another listener is left alone
        let (taken, kernel) ← unixTaken addr answers.unixConnect kernel
        if taken then pure (false, sock, kernel)
        else pure (sock.bindTo fd answers.bind kernel)
      else pure (false, sock, kernel)

def reconnect (sock : Socket) (timeout_ms : UInt64) (answers : ConnectAnswers) (kernel : Kernel) :
    Option (Bool × Socket × Kernel) :=
  match sock.m_remoteAddress with
  | none => some (false, sock, kernel)
  | some m_remoteAddress =>
      { sock with m_localAddress := none }.connect m_remoteAddress timeout_ms answers kernel

def init (sock : Socket) (fd : Fd) (context : Option FdCtx) (kernel : Kernel) : Option Socket :=
  if context.any fun ctx => ctx.isSocket && !ctx.isClosed then
    let sock := { sock with m_sock := some fd, m_isConnected := true }
    let sock := (sock.getLocalAddress kernel).2
    some (sock.getRemoteAddress kernel).2
  else none

def accept (sock : Socket) (answers : AcceptAnswers) (kernel : Kernel) :
    Option (Option Socket × Kernel) :=
  match answers.accept with
  | none => some (none, kernel)
  | some new => do
      let _ ← sock.m_sock
      let kernel ← kernel.hand new
      pure ((make sock.m_family sock.m_type).init new.fd answers.context kernel, kernel)

/-! What `connect` and `bind` can do once there is a descriptor. -/

section Calls
variable {sock after : Socket} {addr : Address} {kernel later : Kernel} {result : Bool}

theorem connect_cases {timeout_ms : UInt64} {answers : ConnectAnswers}
    (done : sock.connect addr timeout_ms answers kernel = some (result, after, later)) :
    ∃ mid given,
      { sock with m_remoteAddress := some addr }.ensure answers.socket kernel =
        some (mid, given) ∧
      ((result, after, later) = (false, mid, given) ∨
        ∃ fd, mid.m_sock = some fd ∧
          mid.connectTo fd timeout_ms answers.connect given = (result, after, later)) := by
  rcases Option.bind_eq_some_iff.mp done with ⟨⟨mid, given⟩, ensured, rest⟩
  refine ⟨mid, given, ensured, ?_⟩
  dsimp only at rest
  split at rest
  · exact Or.inl (Option.some.inj rest).symm
  · rename_i fd found
    split at rest
    · exact Or.inr ⟨fd, found, Option.some.inj rest⟩
    · exact Or.inl (Option.some.inj rest).symm

theorem bind_cases {answers : BindAnswers}
    (done : sock.bind addr answers kernel = some (result, after, later)) :
    ∃ mid given,
      { sock with m_localAddress := some addr }.ensure answers.socket kernel =
        some (mid, given) ∧
      ((result, after, later) = (false, mid, given) ∨
        ∃ fd taken looked, mid.m_sock = some fd ∧
          unixTaken addr answers.unixConnect given = some (taken, looked) ∧
          ((result, after, later) = (false, mid, looked) ∨
            mid.bindTo fd answers.bind looked = (result, after, later))) := by
  rcases Option.bind_eq_some_iff.mp done with ⟨⟨mid, given⟩, ensured, rest⟩
  refine ⟨mid, given, ensured, ?_⟩
  dsimp only at rest
  split at rest
  · exact Or.inl (Option.some.inj rest).symm
  · rename_i fd found
    split at rest
    · rcases Option.bind_eq_some_iff.mp rest with ⟨⟨taken, looked⟩, looking, last⟩
      refine Or.inr ⟨fd, taken, looked, found, looking, ?_⟩
      dsimp only at last
      split at last
      · exact Or.inl (Option.some.inj last).symm
      · exact Or.inr (Option.some.inj last)
    · exact Or.inl (Option.some.inj rest).symm

end Calls

end Socket

/-! A program with any number of sockets. -/

abbrev SocketPtr := Nat

structure Program where
  kernel : Kernel := {}
  sockets : SocketPtr → Option Socket := fun _ => none
  made : Nat := 0

inductive Act where
  | CreateTCP (address : Address)
  | CreateUDP (address : Address)
  | CreateTCPSocket
  | CreateUDPSocket (socket : Option NewFd)
  | CreateTCPSocket6
  | CreateUDPSocket6 (socket : Option NewFd)
  | CreateUnixTCPSocket
  | CreateUnixUDPSocket
  | bind (s : SocketPtr) (addr : Address) (answers : BindAnswers)
  | connect (s : SocketPtr) (addr : Address) (timeout_ms : UInt64) (answers : ConnectAnswers)
  | reconnect (s : SocketPtr) (timeout_ms : UInt64) (answers : ConnectAnswers)
  | accept (s : SocketPtr) (answers : AcceptAnswers)
  | close (s : SocketPtr)
  | destroy (s : SocketPtr)
  deriving DecidableEq, Repr

namespace Program

def set (program : Program) (s : SocketPtr) (sock : Option Socket) (kernel : Kernel) : Program :=
  { program with
    kernel := kernel
    sockets := Function.update program.sockets s sock }

def add (program : Program) (sock : Socket) (kernel : Kernel) : Program :=
  { program.set program.made (some sock) kernel with made := program.made + 1 }

def createUDP (program : Program) (m_family : Family) (socket : Option NewFd) : Option Program := do
  let (sock, kernel) ← (Socket.make m_family .UDP).newSock socket program.kernel
  pure (program.add { sock with m_isConnected := true } kernel)

def step (program : Program) : Act → Option Program
  | .CreateTCP address => some (program.add (.make address.family .TCP) program.kernel)
  | .CreateUDP address => some (program.add (.make address.family .UDP) program.kernel)
  | .CreateTCPSocket => some (program.add (.make .IPv4 .TCP) program.kernel)
  | .CreateUDPSocket socket => program.createUDP .IPv4 socket
  | .CreateTCPSocket6 => some (program.add (.make .IPv6 .TCP) program.kernel)
  | .CreateUDPSocket6 socket => program.createUDP .IPv6 socket
  | .CreateUnixTCPSocket => some (program.add (.make .UNIX .TCP) program.kernel)
  | .CreateUnixUDPSocket => some (program.add (.make .UNIX .UDP) program.kernel)
  | .bind s addr answers => do
      let sock ← program.sockets s
      let (_, sock, kernel) ← sock.bind addr answers program.kernel
      pure (program.set s (some sock) kernel)
  | .connect s addr timeout_ms answers => do
      let sock ← program.sockets s
      let (_, sock, kernel) ← sock.connect addr timeout_ms answers program.kernel
      pure (program.set s (some sock) kernel)
  | .reconnect s timeout_ms answers => do
      let sock ← program.sockets s
      let (_, sock, kernel) ← sock.reconnect timeout_ms answers program.kernel
      pure (program.set s (some sock) kernel)
  | .accept s answers => do
      let sock ← program.sockets s
      match ← sock.accept answers program.kernel with
      | (some accepted, kernel) => pure (program.add accepted kernel)
      | (none, kernel) => pure { program with kernel := kernel }
  | .close s => do
      let sock ← program.sockets s
      let (_, sock, kernel) := sock.close program.kernel
      pure (program.set s (some sock) kernel)
  | .destroy s => do
      let sock ← program.sockets s
      pure (program.set s none (sock.close program.kernel).2.2)

end Program

def descriptors : Transition.Machine Program Act where
  initial program := program = {}
  step := Program.step

end Ztyco.Sockets
