import Mathlib.Data.List.Forall2
import Ztyco.DescriptorOwners

/-!
`TcpServer::bind` of tcpserver.cc, on the sockets of a program. Each address
brings what the kernel answers for it. A socket is destroyed, and so closed, with
the last pointer to it: that of the call, that of `m_socks` or that of an accept
loop. A call that fails drops all of `m_socks`.
-/

namespace Ztyco.ServerBinds

open Handouts
open Sockets

structure Attempt where
  addr : Address
  bind : BindAnswers
  listen : Bool

/-- `kept`: an accept loop has a pointer to it. `listening` is about handouts. -/
structure Server where
  program : Program := {}
  m_socks : List SocketPtr := []
  kept : SocketPtr → Bool := fun _ => false
  listening : Nat → Bool := fun _ => false

namespace Server

/-- The last pointer to a socket goes. -/
def destroy (server : Server) (s : SocketPtr) : Server :=
  match server.program.sockets s with
  | some sock => { server with program := server.program.set s none (sock.close
      server.program.kernel).2.2 }
  | none => server

def listen (server : Server) (sock : Socket) (ok : Bool) : Bool × Server :=
  match sock.m_sock.bind server.program.kernel.ledger.latest with
  | some handout =>
      if ok then (true, { server with listening := Function.update server.listening handout true })
      else (false, server)
  | none => (false, server)

/-- A socket that is made, and told to bind; nobody else has a pointer to it. -/
def add (server : Server) (sock : Socket) (kernel : Kernel) : Server :=
  { server with
    program := server.program.add sock kernel
    kept := Function.update server.kept server.program.made false }

def bindOne (server : Server) (attempt : Attempt) : Option (Bool × Server) := do
  let s := server.program.made
  let made := Socket.make attempt.addr.family .TCP
  let (bound, sock, kernel) ← made.bind attempt.addr attempt.bind server.program.kernel
  let server := server.add sock kernel
  if bound then
    let (listens, server) := server.listen sock attempt.listen
    if listens then pure (true, { server with m_socks := server.m_socks ++ [s] })
    else pure (false, server.destroy s)
  else pure (false, server.destroy s)

def bindEach (server : Server) (fails : List Address) :
    List Attempt → Option (List Address × Server)
  | [] => some (fails, server)
  | attempt :: rest => do
      let (bound, server) ← server.bindOne attempt
      server.bindEach (if bound then fails else fails ++ [attempt.addr]) rest

def release (server : Server) : List SocketPtr → Server
  | [] => server
  | s :: rest => (if server.kept s then server else server.destroy s).release rest

def bind (server : Server) (attempts : List Attempt) (fails : List Address) :
    Option (Bool × List Address × Server) := do
  let (fails, server) ← server.bindEach fails attempts
  -- `m_socks` as a whole, not what this call has added
  if fails ≠ [] then pure (false, fails, { server.release server.m_socks with m_socks := [] })
  else pure (true, fails, server)

end Server

/-- There is no descriptor, the UNIX path has a listener, or a call fails. -/
def Attempt.failed (attempt : Attempt) : Bool :=
  attempt.bind.socket.isNone ||
    (attempt.addr.isUnix && attempt.addr.family = .UNIX &&
      attempt.bind.unixConnect.socket.isSome && attempt.bind.unixConnect.connect.ok) ||
    !attempt.bind.bind.ok || !attempt.listen

def Server.Listens (first : Nat) (server : Server) (s : SocketPtr) (addr : Address) : Prop :=
  ∃ sock fd k, server.program.sockets s = some sock ∧ sock.m_localAddress = some addr ∧
    sock.m_sock = some fd ∧ Current first server.program.kernel.ledger fd k ∧
      server.listening k = true

/-- What a call of `bind` is to leave: all or nothing. -/
structure BindsAll (server : Server) (attempts : List Attempt) (result : Bool)
    (fails : List Address) (after : Server) : Prop where
  bound : result = true → ∃ added, after.m_socks = server.m_socks ++ added ∧
    List.Forall₂ (after.Listens server.program.kernel.ledger.handouts) added
      (attempts.map Attempt.addr)
  unchanged : result = false → after.m_socks = server.m_socks
  destroyed : result = false → ∀ s, server.program.made ≤ s → s < after.program.made →
    after.program.sockets s = none
  closed : result = false → ∀ k, server.program.kernel.ledger.handouts ≤ k →
    k < after.program.kernel.ledger.handouts → 0 < after.program.kernel.ledger.closes k
  reported : result = false →
    fails = (attempts.filter Attempt.failed).map Attempt.addr

/-! What `Socket::bind` does with a socket that is just made. -/

section Fresh
variable {sock after : Socket} {kernel later : Kernel} {addr : Address}

theorem close_ledger {fd : Fd} (found : sock.m_sock = some fd) :
    (sock.close kernel).2.2.ledger = kernel.ledger.shut fd := by
  unfold Socket.close
  rw [if_neg (by simp [found])]
  simp only [found]
  rfl

theorem close_nothing (empty : sock.m_sock = none) : (sock.close kernel).2.2 = kernel := by
  unfold Socket.close
  split
  · rfl
  · simp only [empty]

theorem ensure_cases {socket : Option NewFd} (empty : sock.m_sock = none)
    (done : sock.ensure socket kernel = some (after, later)) :
    (socket = none ∧ after = sock ∧ later = kernel) ∨
      ∃ new ledger, socket = some new ∧ kernel.ledger.hand new.fd = some ledger ∧
        after = { sock with m_sock := some new.fd } ∧ later.ledger = ledger := by
  have invalid : sock.isValid = false := by
    rw [Socket.isValid, empty]
    rfl
  rw [Socket.ensure, invalid, if_neg Bool.false_ne_true, Socket.newSock.eq_def] at done
  rcases socket with _ | new
  · obtain ⟨rfl, rfl⟩ := Prod.mk.inj (Option.some.inj done)
    refine Or.inl ⟨rfl, ?_, rfl⟩
    rw [← empty]
  · obtain ⟨mid, handed, same⟩ := Option.map_eq_some_iff.mp done
    obtain ⟨ledger, taken, named⟩ := Option.map_eq_some_iff.mp handed
    obtain ⟨rfl, rfl⟩ := Prod.mk.inj same
    exact Or.inr ⟨new, ledger, rfl, taken, rfl, by rw [← named]; rfl⟩

/-- Without a time a connection that fails leaves the descriptor open. -/
theorem connectTo_forever (fd : Fd) (answer : Answer) (result : Bool)
    (done : sock.connectTo fd Socket.forever answer kernel = (result, after, later)) :
    result = answer.ok ∧ after.m_sock = sock.m_sock ∧ later.ledger = kernel.ledger := by
  unfold Socket.connectTo at done
  dsimp only at done
  by_cases ok : answer.ok = true
  · rw [if_pos ok] at done
    cases done
    rw [getLocalAddress_sock, getRemoteAddress_sock]
    exact ⟨ok.symm, rfl, rfl⟩
  · rw [if_neg ok, if_pos rfl] at done
    cases done
    exact ⟨(Bool.eq_false_iff.mpr ok).symm, rfl, rfl⟩

theorem unixTaken_cases {answers : ConnectAnswers} {taken : Bool}
    (done : Socket.unixTaken addr answers kernel = some (taken, later)) :
    taken = (addr.isUnix && addr.family = .UNIX && answers.socket.isSome && answers.connect.ok) ∧
      (later.ledger = kernel.ledger ∨ ∃ fd ledger, kernel.ledger.hand fd = some ledger ∧
        later.ledger = ledger.shut fd) := by
  unfold Socket.unixTaken at done
  by_cases unix : addr.isUnix = true
  · rw [if_pos unix] at done
    obtain ⟨⟨found, other, mid⟩, connected, rest⟩ := Option.bind_eq_some_iff.mp done
    obtain ⟨rfl, rfl⟩ := Prod.mk.inj (Option.some.inj rest)
    obtain ⟨⟨ready, given⟩, ensured, tried⟩ := Option.bind_eq_some_iff.mp connected
    rcases ensure_cases rfl ensured with
      ⟨absent, rfl, rfl⟩ | ⟨new, ledger, present, handed, rfl, opened⟩
    · cases tried
      rw [close_nothing rfl]
      exact ⟨by simp [absent], Or.inl rfl⟩
    · dsimp only at tried
      by_cases same : addr.family = (Socket.make .UNIX .TCP).m_family
      · have family : addr.family = .UNIX := same
        rw [if_pos same] at tried
        obtain ⟨result, kept, ledger'⟩ := connectTo_forever _ _ _ (Option.some.inj tried)
        rw [close_ledger kept, ledger', opened]
        exact ⟨by simp [unix, family, result, present], Or.inr ⟨new.fd, ledger, handed, rfl⟩⟩
      · have family : addr.family ≠ .UNIX := same
        rw [if_neg same] at tried
        cases tried
        rw [close_ledger rfl, opened]
        exact ⟨by simp [family], Or.inr ⟨new.fd, ledger, handed, rfl⟩⟩
  · rw [if_neg unix] at done
    cases done
    exact ⟨by simp [Bool.eq_false_iff.mpr unix], Or.inl rfl⟩

theorem bindTo_cases (fd : Fd) (answer : Answer) (result : Bool)
    (known : sock.m_localAddress = some addr)
    (done : sock.bindTo fd answer kernel = (result, after, later)) :
    result = answer.ok ∧ after = sock ∧ later.ledger = kernel.ledger := by
  have kept : (sock.getLocalAddress (kernel.name fd answer.names)).2 = sock := by
    simp only [Socket.getLocalAddress, known]
  unfold Socket.bindTo at done
  dsimp only at done
  by_cases ok : answer.ok = true
  · rw [if_pos ok, kept] at done
    cases done
    exact ⟨ok.symm, rfl, rfl⟩
  · rw [if_neg ok] at done
    cases done
    exact ⟨(Bool.eq_false_iff.mpr ok).symm, rfl, rfl⟩

/-- The ledger after a descriptor and, it may be, one that comes and goes. -/
def Took (before : Ledger Fd) (fd : Fd) (after : Ledger Fd) : Prop :=
  ∃ handed, before.hand fd = some handed ∧
    (after = handed ∨ ∃ other mid, handed.hand other = some mid ∧ after = mid.shut other)

theorem bind_made {attempt : Attempt} {bound : Bool}
    (done : (Socket.make attempt.addr.family .TCP).bind attempt.addr attempt.bind kernel =
      some (bound, after, later)) :
    (bound = true → attempt.failed = !attempt.listen) ∧ (bound = false → attempt.failed = true) ∧
      after.m_localAddress = some attempt.addr ∧
      ((bound = false ∧ after.m_sock = none ∧ later.ledger = kernel.ledger) ∨
        ∃ fd, after.m_sock = some fd ∧ Took kernel.ledger fd later.ledger) := by
  obtain ⟨⟨ready, given⟩, ensured, tried⟩ := Option.bind_eq_some_iff.mp done
  rcases ensure_cases rfl ensured with
    ⟨absent, rfl, rfl⟩ | ⟨new, ledger, present, handed, rfl, opened⟩
  · cases tried
    refine ⟨fun yes => (by cases yes), fun _ => ?_, rfl, Or.inl ⟨rfl, rfl, rfl⟩⟩
    simp [Attempt.failed, absent]
  · have family : attempt.addr.family = (Socket.make attempt.addr.family .TCP).m_family := rfl
    dsimp only at tried
    rw [if_pos family] at tried
    obtain ⟨⟨taken, looked⟩, looking, last⟩ := Option.bind_eq_some_iff.mp tried
    obtain ⟨listener, went⟩ := unixTaken_cases looking
    have took : Took kernel.ledger new.fd looked.ledger := by
      refine ⟨ledger, handed, ?_⟩
      rcases went with same | ⟨other, mid, handed', shut⟩
      · exact Or.inl (same.trans opened)
      · exact Or.inr ⟨other, mid, by rw [← opened]; exact handed', shut⟩
    have failed : attempt.failed = (taken || !attempt.bind.bind.ok || !attempt.listen) := by
      rw [Attempt.failed, present, listener]
      rfl
    dsimp only at last
    by_cases busy : taken = true
    · rw [if_pos busy] at last
      cases last
      refine ⟨fun yes => (by cases yes), fun _ => ?_, rfl, Or.inr ⟨new.fd, rfl, took⟩⟩
      rw [failed, busy]
      rfl
    · rw [if_neg busy] at last
      obtain ⟨result, rfl, same⟩ := bindTo_cases _ _ _ rfl (Option.some.inj last)
      rw [Bool.eq_false_iff.mpr busy, Bool.false_or, ← result] at failed
      refine ⟨?_, ?_, rfl, Or.inr ⟨new.fd, rfl, by rw [same]; exact took⟩⟩
      · intro yes
        rw [failed, yes]
        rfl
      · intro no
        rw [failed, no]
        rfl

end Fresh

/-! The descriptors that a call has to close. -/

section Taking
variable {first k : Nat} {before after : Ledger Fd} {owned : Fd → Prop} {fd m : Fd}

theorem Took.settled (took : Took before fd after) (settled : SettledSince first before owned) :
    SettledSince first after fun m => owned m ∨ m = fd := by
  obtain ⟨handed, made, went⟩ := took
  have opened := settled.hand made
  rcases went with rfl | ⟨other, mid, made', rfl⟩
  · exact opened
  · refine (opened.hand made').shut.mono ?_
    rintro m ⟨held | rfl, apart⟩
    · exact held
    · exact absurd rfl apart

theorem Took.handouts (took : Took before fd after) : before.handouts ≤ after.handouts := by
  obtain ⟨handed, made, went⟩ := took
  have more := hand_handouts made
  rcases went with rfl | ⟨other, mid, made', rfl⟩
  · omega
  · have again := hand_handouts made'
    rw [shut_handouts]
    omega

/-- What has been open since before is not what is taken, and stays open. -/
theorem Took.current (took : Took before fd after) (since : first ≤ before.handouts)
    (current : Current first before m k) : Current first after m k ∧ m ≠ fd := by
  obtain ⟨handed, made, went⟩ := took
  refine ⟨?_, current.ne_hand made⟩
  have still := current.hand made
  rcases went with rfl | ⟨other, mid, made', rfl⟩
  · exact still
  · have room : first ≤ handed.handouts := by
      rw [hand_handouts made]
      exact Nat.le_succ_of_le since
    exact (still.hand made').shut (current_new room made') (still.ne_hand made')

theorem Took.current_new (took : Took before fd after) (since : first ≤ before.handouts) :
    ∃ k, Current first after fd k := by
  obtain ⟨handed, made, went⟩ := took
  have opened := Handouts.current_new since made
  refine ⟨before.handouts, ?_⟩
  rcases went with rfl | ⟨other, mid, made', rfl⟩
  · exact opened
  · have room : first ≤ handed.handouts := by
      rw [hand_handouts made]
      exact Nat.le_succ_of_le since
    exact (opened.hand made').shut (Handouts.current_new room made') (opened.ne_hand made')

end Taking

/-! Destroying a socket. -/

def Server.Holds (server : Server) (s : SocketPtr) (fd : Fd) : Prop :=
  ∃ sock, server.program.sockets s = some sock ∧ sock.m_sock = some fd

section Destroy
variable {server : Server} {first : Nat} {s t : SocketPtr} {addr : Address}

theorem destroy_same (server : Server) (t : SocketPtr) :
    (server.destroy t).m_socks = server.m_socks ∧ (server.destroy t).kept = server.kept ∧
      (server.destroy t).listening = server.listening ∧
        (server.destroy t).program.made = server.program.made := by
  unfold Server.destroy
  split <;> exact ⟨rfl, rfl, rfl, rfl⟩

theorem destroy_socket (server : Server) (t : SocketPtr) :
    (server.destroy t).program.sockets t = none := by
  unfold Server.destroy
  split
  · exact Function.update_self _ _ _
  · assumption

theorem destroy_other (server : Server) (other : s ≠ t) :
    (server.destroy t).program.sockets s = server.program.sockets s := by
  unfold Server.destroy
  split
  · exact Function.update_of_ne other _ _
  · rfl

theorem destroy_ledger (server : Server) (t : SocketPtr) :
    ((server.destroy t).program.kernel.ledger = server.program.kernel.ledger ∧
        ∀ fd, ¬ server.Holds t fd) ∨
      ∃ fd, server.Holds t fd ∧ (server.destroy t).program.kernel.ledger =
        server.program.kernel.ledger.shut fd := by
  unfold Server.destroy
  cases live : server.program.sockets t with
  | none =>
      refine Or.inl ⟨rfl, ?_⟩
      rintro fd ⟨sock, other, _⟩
      rw [live] at other
      cases other
  | some sock =>
      cases found : sock.m_sock with
      | none =>
          refine Or.inl ⟨congrArg Kernel.ledger (close_nothing found), ?_⟩
          rintro fd ⟨sock', other, held⟩
          rw [live] at other
          obtain rfl : sock = sock' := Option.some.inj other
          rw [found] at held
          cases held
      | some fd => exact Or.inr ⟨fd, ⟨sock, live, found⟩, close_ledger found⟩

theorem destroy_handouts (server : Server) (t : SocketPtr) :
    (server.destroy t).program.kernel.ledger.handouts =
      server.program.kernel.ledger.handouts := by
  rcases destroy_ledger server t with ⟨same, _⟩ | ⟨fd, _, same⟩
  · rw [same]
  · rw [same, shut_handouts]

theorem Server.Holds.unique {fd fd' : Fd} (holds : server.Holds s fd)
    (holds' : server.Holds s fd') : fd = fd' := by
  obtain ⟨sock, live, found⟩ := holds
  obtain ⟨sock', live', found'⟩ := holds'
  rw [live] at live'
  obtain rfl : sock = sock' := Option.some.inj live'
  rw [found] at found'
  exact Option.some.inj found'

theorem Server.Holds.destroy {fd : Fd} (holds : server.Holds s fd) (other : s ≠ t) :
    (server.destroy t).Holds s fd := by
  obtain ⟨sock, live, found⟩ := holds
  exact ⟨sock, (destroy_other server other).trans live, found⟩

theorem not_holds_destroy (fd : Fd) : ¬ (server.destroy t).Holds t fd := by
  rintro ⟨sock, live, _⟩
  rw [destroy_socket] at live
  cases live

theorem destroy_settled {added : List SocketPtr}
    (settled : SettledSince first server.program.kernel.ledger fun fd =>
      ∃ s ∈ added, server.Holds s fd) (t : SocketPtr) :
    SettledSince first (server.destroy t).program.kernel.ledger fun fd =>
      ∃ s ∈ added, (server.destroy t).Holds s fd := by
  rcases destroy_ledger server t with ⟨same, empty⟩ | ⟨fd, holds, same⟩
  · rw [same]
    refine settled.mono ?_
    rintro fd ⟨s, mem, holds⟩
    have other : s ≠ t := by
      rintro rfl
      exact empty fd holds
    exact ⟨s, mem, holds.destroy other⟩
  · rw [same]
    refine settled.shut.mono ?_
    rintro fd' ⟨⟨s, mem, holds'⟩, apart⟩
    have other : s ≠ t := by
      rintro rfl
      exact apart (holds'.unique holds)
    exact ⟨s, mem, holds'.destroy other⟩

theorem Server.Listens.destroy (listens : server.Listens first s addr) (other : s ≠ t)
    (apart : ∀ fd, server.Holds t fd → ¬ server.Holds s fd ∧
      ∃ k, Current first server.program.kernel.ledger fd k) :
    (server.destroy t).Listens first s addr := by
  obtain ⟨sock, fd, k, live, named, found, current, on⟩ := listens
  refine ⟨sock, fd, k, (destroy_other server other).trans live, named, found, ?_, ?_⟩
  · rcases destroy_ledger server t with ⟨same, _⟩ | ⟨fd', holds, same⟩
    · rw [same]
      exact current
    · obtain ⟨unheld, j, closing⟩ := apart fd' holds
      rw [same]
      refine current.shut closing ?_
      rintro rfl
      exact unheld ⟨sock, live, found⟩
  · rw [(destroy_same server t).2.2.1]
    exact on

end Destroy

theorem Server.Listens.mark {server : Server} {first : Nat} {s : SocketPtr} {addr : Address}
    (listens : server.Listens first s addr) (k : Nat) (m_socks : List SocketPtr) :
    Server.Listens first
      { server with
        listening := Function.update server.listening k true
        m_socks := m_socks } s addr := by
  obtain ⟨sock, fd, j, live, named, found, current, on⟩ := listens
  refine ⟨sock, fd, j, live, named, found, current, ?_⟩
  by_cases same : j = k
  · rw [same]
    exact Function.update_self _ _ _
  · exact (Function.update_of_ne same _ _).trans on

/-! What the loop keeps, with the sockets it has added for some addresses. -/

structure Progress (start : Server) (added : List SocketPtr) (addrs : List Address)
    (server : Server) : Prop where
  socks : server.m_socks = start.m_socks ++ added
  made : start.program.made ≤ server.program.made
  handouts : start.program.kernel.ledger.handouts ≤ server.program.kernel.ledger.handouts
  mine : ∀ s ∈ added, s < server.program.made ∧ server.kept s = false
  created : ∀ s, start.program.made ≤ s → s < server.program.made →
    s ∈ added ∨ server.program.sockets s = none
  listens : List.Forall₂ (fun s addr => s < server.program.made ∧
    server.Listens start.program.kernel.ledger.handouts s addr) added addrs
  settled : SettledSince start.program.kernel.ledger.handouts server.program.kernel.ledger
    fun fd => ∃ s ∈ added, server.Holds s fd

theorem progress_start (start : Server) : Progress start [] [] start where
  socks := (List.append_nil _).symm
  made := Nat.le_refl _
  handouts := Nat.le_refl _
  mine _ mem := absurd mem List.not_mem_nil
  created _ since below := absurd below (Nat.not_lt.mpr since)
  listens := .nil
  settled := settledSince_handouts

/-- `next` has one more socket, which is not yet in `m_socks`. -/
structure Pending (start server : Server) (added : List SocketPtr) (addrs : List Address)
    (sock : Socket) (next : Server) : Prop where
  socks : next.m_socks = start.m_socks ++ added
  made : next.program.made = server.program.made + 1
  handouts : start.program.kernel.ledger.handouts ≤ next.program.kernel.ledger.handouts
  live : next.program.sockets server.program.made = some sock
  others : ∀ s, s < server.program.made → next.program.sockets s = server.program.sockets s
  unkept : next.kept server.program.made = false
  kept : ∀ s, s < server.program.made → next.kept s = server.kept s
  listens : List.Forall₂ (fun s addr => s < server.program.made ∧
    next.Listens start.program.kernel.ledger.handouts s addr ∧
      ∀ fd, sock.m_sock = some fd → ¬ next.Holds s fd) added addrs
  settled : SettledSince start.program.kernel.ledger.handouts next.program.kernel.ledger
    fun fd => ∃ s ∈ added ++ [server.program.made], next.Holds s fd
  current : ∀ fd, sock.m_sock = some fd →
    ∃ k, Current start.program.kernel.ledger.handouts next.program.kernel.ledger fd k

section Loop
variable {start server next : Server} {added : List SocketPtr} {addrs : List Address}
  {sock : Socket}

theorem add_other (server : Server) (sock : Socket) (kernel : Kernel) {s : SocketPtr}
    (old : s < server.program.made) :
    (server.add sock kernel).program.sockets s = server.program.sockets s :=
  Function.update_of_ne (Nat.ne_of_lt old) _ _

theorem add_new (server : Server) (sock : Socket) (kernel : Kernel) :
    (server.add sock kernel).program.sockets server.program.made = some sock :=
  Function.update_self _ _ _

theorem Progress.add (progress : Progress start added addrs server) {kernel : Kernel}
    (took : (sock.m_sock = none ∧ kernel.ledger = server.program.kernel.ledger) ∨
      ∃ fd, sock.m_sock = some fd ∧ Took server.program.kernel.ledger fd kernel.ledger) :
    Pending start server added addrs sock (server.add sock kernel) := by
  have room := progress.handouts
  have holds_old : ∀ s fd, s < server.program.made → server.Holds s fd →
      (server.add sock kernel).Holds s fd := by
    rintro s fd old ⟨sock', live, found⟩
    exact ⟨sock', (add_other _ _ _ old).trans live, found⟩
  constructor
  · exact progress.socks
  · rfl
  · rcases took with ⟨_, same⟩ | ⟨fd, _, taking⟩
    · change _ ≤ kernel.ledger.handouts
      rw [same]
      exact room
    · exact Nat.le_trans room taking.handouts
  · exact add_new _ _ _
  · exact fun s old => add_other _ _ _ old
  · exact Function.update_self _ _ _
  · exact fun s old => Function.update_of_ne (Nat.ne_of_lt old) _ _
  · refine progress.listens.imp ?_
    rintro s addr ⟨old, sock', fd', k, live, named, found, current, on⟩
    have live' := (add_other server sock kernel old).trans live
    rcases took with ⟨empty, same⟩ | ⟨fd, held, taking⟩
    · refine ⟨old, ⟨sock', fd', k, live', named, found, ?_, on⟩, ?_⟩
      · change Current _ kernel.ledger fd' k
        rw [same]
        exact current
      · intro fd held
        rw [empty] at held
        cases held
    -- the new descriptor was closed before, so no listening socket has it
    · obtain ⟨still, apart⟩ := taking.current room current
      refine ⟨old, ⟨sock', fd', k, live', named, found, still, on⟩, ?_⟩
      intro other same holds
      rw [held] at same
      obtain rfl : fd = other := Option.some.inj same
      exact apart (Server.Holds.unique ⟨sock', live', found⟩ holds)
  · rcases took with ⟨_, same⟩ | ⟨fd, held, taking⟩
    · change SettledSince _ kernel.ledger _
      rw [same]
      refine progress.settled.mono ?_
      rintro fd ⟨s, mem, holds⟩
      exact ⟨s, List.mem_append_left _ mem, holds_old s fd (progress.mine s mem).1 holds⟩
    · refine (taking.settled progress.settled).mono ?_
      rintro m (⟨s, mem, holds⟩ | rfl)
      · exact ⟨s, List.mem_append_left _ mem, holds_old s m (progress.mine s mem).1 holds⟩
      · exact ⟨_, List.mem_append_right _ List.mem_cons_self, sock, add_new _ _ _, held⟩
  · intro fd held
    rcases took with ⟨empty, _⟩ | ⟨fd', held', taking⟩
    · rw [empty] at held
      cases held
    · rw [held'] at held
      obtain rfl : fd' = fd := Option.some.inj held
      exact taking.current_new room

theorem Pending.fail (pending : Pending start server added addrs sock next)
    (progress : Progress start added addrs server) :
    Progress start added addrs (next.destroy server.program.made) := by
  obtain ⟨socks, kept, _, made⟩ := destroy_same next server.program.made
  constructor
  · rw [socks]
    exact pending.socks
  · rw [made, pending.made]
    exact Nat.le_succ_of_le progress.made
  · rw [destroy_handouts]
    exact pending.handouts
  · intro s mem
    obtain ⟨old, unkept⟩ := progress.mine s mem
    rw [made, kept, pending.made, pending.kept s old]
    exact ⟨Nat.lt_succ_of_lt old, unkept⟩
  · intro s since below
    rw [made, pending.made] at below
    rcases Nat.lt_or_eq_of_le (Nat.le_of_lt_succ below) with old | rfl
    · rw [destroy_other next (Nat.ne_of_lt old), pending.others s old]
      exact progress.created s since old
    · exact Or.inr (destroy_socket next _)
  · refine pending.listens.imp ?_
    rintro s addr ⟨old, listens, unheld⟩
    rw [made, pending.made]
    refine ⟨Nat.lt_succ_of_lt old, listens.destroy (Nat.ne_of_lt old) ?_⟩
    rintro fd ⟨sock', live, held⟩
    rw [pending.live] at live
    obtain rfl : sock = sock' := Option.some.inj live
    exact ⟨unheld fd held, pending.current fd held⟩
  · refine (destroy_settled pending.settled server.program.made).mono ?_
    rintro fd ⟨s, mem, holds⟩
    rcases List.mem_append.mp mem with old | here
    · exact ⟨s, old, holds⟩
    · rw [List.mem_singleton.mp here] at holds
      exact absurd holds (not_holds_destroy fd)

theorem Pending.ok (pending : Pending start server added addrs sock next)
    (progress : Progress start added addrs server) {addr : Address} {fd : Fd} {k : Nat}
    (named : sock.m_localAddress = some addr) (found : sock.m_sock = some fd)
    (latest : next.program.kernel.ledger.latest fd = some k) :
    Progress start (added ++ [server.program.made]) (addrs ++ [addr])
      { next with
        listening := Function.update next.listening k true
        m_socks := next.m_socks ++ [server.program.made] } := by
  constructor
  · change next.m_socks ++ _ = _
    rw [pending.socks, List.append_assoc]
  · change _ ≤ next.program.made
    rw [pending.made]
    exact Nat.le_succ_of_le progress.made
  · exact pending.handouts
  · intro s mem
    change s < next.program.made ∧ next.kept s = false
    rw [pending.made]
    rcases List.mem_append.mp mem with old | here
    · obtain ⟨below, unkept⟩ := progress.mine s old
      rw [pending.kept s below]
      exact ⟨Nat.lt_succ_of_lt below, unkept⟩
    · rw [List.mem_singleton.mp here]
      exact ⟨Nat.lt_succ_self _, pending.unkept⟩
  · intro s since below
    change s < next.program.made at below
    rw [pending.made] at below
    rcases Nat.lt_or_eq_of_le (Nat.le_of_lt_succ below) with old | rfl
    · change _ ∨ next.program.sockets s = none
      rw [pending.others s old]
      rcases progress.created s since old with mem | gone
      · exact Or.inl (List.mem_append_left _ mem)
      · exact Or.inr gone
    · exact Or.inl (List.mem_append_right _ List.mem_cons_self)
  · refine List.rel_append (pending.listens.imp ?_) (.cons ?_ .nil)
    · rintro s addr' ⟨old, listens, _⟩
      change s < next.program.made ∧ _
      rw [pending.made]
      exact ⟨Nat.lt_succ_of_lt old, listens.mark k (next.m_socks ++ [server.program.made])⟩
    -- the handout that listens is that of the new descriptor
    · obtain ⟨j, current⟩ := pending.current fd found
      obtain rfl : j = k := Option.some.inj (current.found.symm.trans latest)
      change _ < next.program.made ∧ _
      rw [pending.made]
      exact ⟨Nat.lt_succ_self _, sock, fd, j, pending.live, named, found, current,
        Function.update_self _ _ _⟩
  · exact pending.settled

/-- One round keeps the progress, and the address fails or is bound. -/
theorem bindOne_progress (progress : Progress start added addrs server) {attempt : Attempt}
    {bound : Bool} {after : Server} (done : server.bindOne attempt = some (bound, after)) :
    (bound = true ∧ attempt.failed = false ∧
        Progress start (added ++ [server.program.made]) (addrs ++ [attempt.addr]) after) ∨
      bound = false ∧ attempt.failed = true ∧ Progress start added addrs after := by
  obtain ⟨⟨binds, sock, kernel⟩, made, rest⟩ := Option.bind_eq_some_iff.mp done
  obtain ⟨failed_bound, failed_unbound, named, took⟩ := bind_made made
  have pending : Pending start server added addrs sock (server.add sock kernel) := by
    apply progress.add
    rcases took with ⟨_, empty, same⟩ | taking
    · exact Or.inl ⟨empty, same⟩
    · exact Or.inr taking
  dsimp only at rest
  cases binds with
  | false =>
      cases rest
      exact Or.inr ⟨rfl, failed_unbound rfl, pending.fail progress⟩
  | true =>
      rw [if_pos rfl] at rest
      rcases took with ⟨no, _⟩ | ⟨fd, found, _⟩
      · cases no
      · obtain ⟨k, current⟩ := pending.current fd found
        have latest : sock.m_sock.bind (server.add sock kernel).program.kernel.ledger.latest =
            some k := by
          rw [found]
          exact current.found
        unfold Server.listen at rest
        simp only [latest] at rest
        cases on : attempt.listen with
        | false =>
            rw [on] at rest
            cases rest
            exact Or.inr ⟨rfl, by rw [failed_bound rfl, on]; rfl, pending.fail progress⟩
        | true =>
            rw [on] at rest
            cases rest
            exact Or.inl ⟨rfl, by rw [failed_bound rfl, on]; rfl,
              pending.ok progress named found current.found⟩

/-- The addresses that are bound get a socket each, and the others are reported. -/
theorem bindEach_progress (progress : Progress start added addrs server)
    {fails fails' : List Address} {attempts : List Attempt} {after : Server}
    (done : server.bindEach fails attempts = some (fails', after)) :
    ∃ more, Progress start (added ++ more)
        (addrs ++ (attempts.filter fun attempt => !attempt.failed).map Attempt.addr) after ∧
      fails' = fails ++ (attempts.filter Attempt.failed).map Attempt.addr := by
  induction attempts generalizing server added addrs fails with
  | nil =>
      cases done
      refine ⟨[], ?_, (List.append_nil _).symm⟩
      rw [List.append_nil, List.filter_nil, List.map_nil, List.append_nil]
      exact progress
  | cons attempt rest ih =>
      obtain ⟨⟨bound, next⟩, round, others⟩ := Option.bind_eq_some_iff.mp done
      rcases bindOne_progress progress round with ⟨rfl, fine, step⟩ | ⟨rfl, failed, step⟩
      · obtain ⟨more, run, reported⟩ := ih step others
        refine ⟨server.program.made :: more, ?_, ?_⟩
        · rw [List.filter_cons_of_pos (by rw [fine]; rfl), List.map_cons]
          rw [List.append_assoc, List.append_assoc] at run
          exact run
        · rw [List.filter_cons_of_neg (by rw [fine]; exact Bool.false_ne_true)]
          exact reported
      · obtain ⟨more, run, reported⟩ := ih step others
        refine ⟨more, ?_, ?_⟩
        · rw [List.filter_cons_of_neg (by rw [failed]; exact Bool.false_ne_true)]
          exact run
        · rw [List.filter_cons_of_pos failed, List.map_cons, reported]
          exact List.append_assoc _ _ _

end Loop

/-! Dropping the sockets. -/

section Release
variable {server : Server} {first : Nat} {added : List SocketPtr}

theorem release_cons (server : Server) (s : SocketPtr) (rest : List SocketPtr) :
    server.release (s :: rest) =
      (if server.kept s then server else server.destroy s).release rest := rfl

theorem release_same (server : Server) (pointers : List SocketPtr) :
    (server.release pointers).program.made = server.program.made ∧
      (server.release pointers).program.kernel.ledger.handouts =
        server.program.kernel.ledger.handouts := by
  induction pointers generalizing server with
  | nil => exact ⟨rfl, rfl⟩
  | cons s rest ih =>
      rw [release_cons]
      by_cases kept : server.kept s = true
      · rw [if_pos kept]
        exact ih server
      · rw [if_neg kept]
        obtain ⟨made, handouts⟩ := ih (server.destroy s)
        rw [made, handouts, (destroy_same server s).2.2.2, destroy_handouts]
        exact ⟨rfl, rfl⟩

theorem release_settled
    (settled : SettledSince first server.program.kernel.ledger fun fd =>
      ∃ s ∈ added, server.Holds s fd) (pointers : List SocketPtr) :
    SettledSince first (server.release pointers).program.kernel.ledger fun fd =>
      ∃ s ∈ added, (server.release pointers).Holds s fd := by
  induction pointers generalizing server with
  | nil => exact settled
  | cons s rest ih =>
      rw [release_cons]
      by_cases kept : server.kept s = true
      · rw [if_pos kept]
        exact ih settled
      · rw [if_neg kept]
        exact ih (destroy_settled settled s)

theorem release_gone (pointers : List SocketPtr) {s : SocketPtr}
    (gone : server.program.sockets s = none) :
    (server.release pointers).program.sockets s = none := by
  induction pointers generalizing server with
  | nil => exact gone
  | cons t rest ih =>
      rw [release_cons]
      apply ih
      by_cases kept : server.kept t = true
      · rw [if_pos kept]
        exact gone
      · rw [if_neg kept]
        by_cases same : s = t
        · rw [same]
          exact destroy_socket server t
        · rw [destroy_other server same]
          exact gone

theorem release_mem {pointers : List SocketPtr} {s : SocketPtr} (mem : s ∈ pointers)
    (unkept : server.kept s = false) :
    (server.release pointers).program.sockets s = none := by
  induction pointers generalizing server with
  | nil => exact absurd mem List.not_mem_nil
  | cons t rest ih =>
      rw [release_cons]
      rcases List.mem_cons.mp mem with rfl | later
      · rw [unkept, if_neg Bool.false_ne_true]
        exact release_gone rest (destroy_socket server s)
      · by_cases kept : server.kept t = true
        · rw [if_pos kept]
          exact ih later unkept
        · rw [if_neg kept]
          apply ih later
          rw [(destroy_same server t).2.1]
          exact unkept

end Release

/-! The two ends of a call. -/

section Call
variable {server after : Server} {attempts : List Attempt} {result : Bool}
  {fails : List Address} (done : server.bind attempts [] = some (result, fails, after))
include done

theorem bind_true (none_failed : ∀ attempt ∈ attempts, attempt.failed = false) :
    result = true ∧ ∃ added, Progress server added (attempts.map Attempt.addr) after := by
  obtain ⟨⟨reports, mid⟩, each, rest⟩ := Option.bind_eq_some_iff.mp done
  obtain ⟨added, progress, reported⟩ := bindEach_progress (progress_start server) each
  have nothing : attempts.filter Attempt.failed = [] := by
    rw [List.filter_eq_nil_iff]
    intro attempt mem
    rw [none_failed attempt mem]
    exact Bool.false_ne_true
  have all : (attempts.filter fun attempt => !attempt.failed) = attempts := by
    rw [List.filter_eq_self]
    intro attempt mem
    rw [none_failed attempt mem]
    rfl
  rw [nothing] at reported
  rw [all] at progress
  subst reported
  cases rest
  exact ⟨rfl, added, progress⟩

/-- All sockets are dropped, those of earlier calls too. -/
theorem bind_false (some_failed : ∃ attempt ∈ attempts, attempt.failed = true) :
    result = false ∧ after.m_socks = [] ∧
      fails = (attempts.filter Attempt.failed).map Attempt.addr ∧
      (∀ s, server.program.made ≤ s → s < after.program.made →
        after.program.sockets s = none) ∧
      ∀ k, server.program.kernel.ledger.handouts ≤ k →
        k < after.program.kernel.ledger.handouts → 0 < after.program.kernel.ledger.closes k := by
  obtain ⟨⟨reports, mid⟩, each, rest⟩ := Option.bind_eq_some_iff.mp done
  obtain ⟨added, progress, reported⟩ := bindEach_progress (progress_start server) each
  rw [List.nil_append] at progress reported
  have something : reports ≠ [] := by
    obtain ⟨attempt, mem, failed⟩ := some_failed
    rw [reported]
    have listed := List.mem_map_of_mem (f := Attempt.addr) (List.mem_filter.mpr ⟨mem, failed⟩)
    exact List.ne_nil_of_mem listed
  dsimp only at rest
  rw [if_pos something] at rest
  cases rest
  obtain ⟨made, handouts⟩ := release_same mid mid.m_socks
  -- a socket of the call has failed, or is among those that are dropped
  have gone : ∀ s, server.program.made ≤ s → s < mid.program.made →
      (mid.release mid.m_socks).program.sockets s = none := by
    intro s since below
    rcases progress.created s since below with mem | dead
    · apply release_mem _ (progress.mine s mem).2
      rw [progress.socks]
      exact List.mem_append_right _ mem
    · exact release_gone _ dead
  refine ⟨rfl, rfl, reported, ?_, ?_⟩
  · intro s since below
    exact gone s since (Nat.lt_of_lt_of_eq below made)
  · intro k since below
    refine (release_settled progress.settled mid.m_socks).closed ?_ since below
    rintro fd ⟨s, mem, sock, live, _⟩
    rw [release_mem (by rw [progress.socks]; exact List.mem_append_right _ mem)
      (progress.mine s mem).2] at live
    cases live

theorem bindsAll_iff : BindsAll server attempts result fails after ↔
    server.m_socks = [] ∨ ∀ attempt ∈ attempts, attempt.failed = false := by
  by_cases some_failed : ∃ attempt ∈ attempts, attempt.failed = true
  · obtain ⟨rfl, dropped, reported, gone, closed⟩ := bind_false done some_failed
    constructor
    · intro binds
      left
      rw [← binds.unchanged rfl, dropped]
    · rintro (empty | none_failed)
      · constructor
        · intro bound
          cases bound
        · intro _
          rw [dropped, empty]
        · exact fun _ => gone
        · exact fun _ => closed
        · exact fun _ => reported
      · obtain ⟨attempt, mem, failed⟩ := some_failed
        rw [none_failed attempt mem] at failed
        cases failed
  · have none_failed : ∀ attempt ∈ attempts, attempt.failed = false := by
      intro attempt mem
      exact Bool.eq_false_iff.mpr fun failed => some_failed ⟨attempt, mem, failed⟩
    obtain ⟨rfl, added, progress⟩ := bind_true done none_failed
    refine iff_of_true ?_ (Or.inr none_failed)
    constructor
    · intro _
      exact ⟨added, progress.socks, progress.listens.imp fun _ _ both => both.2⟩
    all_goals
      intro failed
      cases failed

end Call

def granted : Attempt where
  addr := { family := .IPv4, sockaddr := [1] }
  bind := { socket := some { fd := 5 }, bind := { ok := true } }
  listen := true

def refused : Attempt where
  addr := { family := .IPv4, sockaddr := [2] }
  bind := { socket := some { fd := 6 }, bind := { ok := false } }
  listen := false

theorem bindsAll_granted : ∃ result fails after,
    ({} : Server).bind [granted, refused] [] = some (result, fails, after) ∧
      BindsAll {} [granted, refused] result fails after :=
  ⟨_, _, _, rfl, (bindsAll_iff rfl).mpr (Or.inl rfl)⟩

theorem earlier_dropped : ∃ served result fails after,
    ({} : Server).bind [granted] [] = some (true, [], served) ∧
      served.bind [refused] [] = some (result, fails, after) ∧
        ¬ BindsAll served [refused] result fails after := by
  refine ⟨_, _, _, _, rfl, rfl, ?_⟩
  intro binds
  have dropped : ([] : List SocketPtr) = [0] := binds.unchanged rfl
  cases dropped

end Ztyco.ServerBinds
