import Ztyco.Sockets

/-!
The local address a socket remembers. `bind` remembers the address it is asked
for before it asks the kernel, `connect` keeps whatever is remembered, and
`close` does not forget it; only `reconnect` asks anew.
-/

namespace Ztyco.Sockets

open Transition

/-- Equality of addresses is that of their bytes, which begin with the family. -/
def Address.same (left right : Address) : Prop :=
  left.family = right.family ∧ left.sockaddr = right.sockaddr

instance (left right : Address) : Decidable (left.same right) :=
  inferInstanceAs (Decidable (_ ∧ _))

/-- One socket; `usable` after a `bind`, `connect` or `reconnect` that returned
true, until the next one or `close`. -/
structure Endpoint where
  sock : Socket
  kernel : Kernel := {}
  usable : Bool := false

inductive AddressAct where
  | bind (addr : Address) (answers : BindAnswers)
  | connect (addr : Address) (timeout_ms : UInt64) (answers : ConnectAnswers)
  | reconnect (timeout_ms : UInt64) (answers : ConnectAnswers)
  | close
  | getLocalAddress
  deriving DecidableEq, Repr

def Endpoint.result (done : Bool × Socket × Kernel) : Endpoint where
  sock := done.2.1
  kernel := done.2.2
  usable := done.1

def Endpoint.step (endpoint : Endpoint) : AddressAct → Option Endpoint
  | .bind addr answers => (endpoint.sock.bind addr answers endpoint.kernel).map .result
  | .connect addr timeout_ms answers =>
      (endpoint.sock.connect addr timeout_ms answers endpoint.kernel).map .result
  | .reconnect timeout_ms answers =>
      (endpoint.sock.reconnect timeout_ms answers endpoint.kernel).map .result
  | .close =>
      let (_, sock, kernel) := endpoint.sock.close endpoint.kernel
      some { sock := sock, kernel := kernel }
  | .getLocalAddress =>
      some { endpoint with sock := (endpoint.sock.getLocalAddress endpoint.kernel).2 }

def endpoints : Machine Endpoint AddressAct where
  initial endpoint := endpoint.usable = false ∧
    (endpoint.sock.m_family = .IPv4 ∨ endpoint.sock.m_family = .IPv6)
  step := Endpoint.step

def Endpoint.Coherent (endpoint : Endpoint) : Prop :=
  endpoint.usable = true → ∀ name, endpoint.sock.m_sock.bind endpoint.kernel.sockname = some name →
    (endpoint.sock.getLocalAddress endpoint.kernel).1.same
      (Socket.address endpoint.sock.m_family name)

def Answer.reports (answer : Answer) (family : Family) (addr : Address) : Prop :=
  answer.ok = true → ∀ name ∈ answer.names.sockname, addr.same (Socket.address family name)

instance (answer : Answer) (family : Family) (addr : Address) :
    Decidable (answer.reports family addr) := by
  unfold Answer.reports
  infer_instance

/-- A successful `bind` gives the name that was asked for, and a successful
`connect` gives the name that is remembered, if any is. -/
def AddressAct.Agrees (endpoint : Endpoint) : AddressAct → Prop
  | .bind addr answers => answers.bind.reports endpoint.sock.m_family addr
  | .connect _ _ answers => ∀ cached ∈ endpoint.sock.m_localAddress,
      answers.connect.reports endpoint.sock.m_family cached
  | _ => True

instance (endpoint : Endpoint) (act : AddressAct) : Decidable (act.Agrees endpoint) := by
  unfold AddressAct.Agrees
  split <;> infer_instance

section Steps
variable {sock after mid : Socket} {kernel later : Kernel} {endpoint next : Endpoint}

theorem newSock_kept {socket : Option NewFd}
    (done : sock.newSock socket kernel = some (after, later)) :
    after.m_family = sock.m_family ∧ after.m_localAddress = sock.m_localAddress := by
  cases socket with
  | none =>
      cases done
      exact ⟨rfl, rfl⟩
  | some new =>
      rcases Option.map_eq_some_iff.mp done with ⟨mid, _, made⟩
      cases made
      exact ⟨rfl, rfl⟩

theorem ensure_kept {socket : Option NewFd}
    (done : sock.ensure socket kernel = some (after, later)) :
    after.m_family = sock.m_family ∧ after.m_localAddress = sock.m_localAddress := by
  unfold Socket.ensure at done
  split at done
  · cases done
    exact ⟨rfl, rfl⟩
  · exact newSock_kept done

/-- A cached address stays. -/
theorem getLocalAddress_cached {cached : Address} (found : sock.m_localAddress = some cached) :
    sock.getLocalAddress kernel = (cached, sock) := by
  unfold Socket.getLocalAddress
  rw [found]

/-- Without one, the reported name is returned and cached. -/
theorem getLocalAddress_asks (empty : sock.m_localAddress = none) {name : Sockaddr}
    (reported : sock.m_sock.bind kernel.sockname = some name) :
    (sock.getLocalAddress kernel).1 = Socket.address sock.m_family name ∧
      (sock.getLocalAddress kernel).2 =
        { sock with m_localAddress := some (Socket.address sock.m_family name) } := by
  unfold Socket.getLocalAddress
  rw [empty, reported]
  exact ⟨rfl, rfl⟩

theorem getLocalAddress_kept :
    (sock.getLocalAddress kernel).2.m_sock = sock.m_sock ∧
      (sock.getLocalAddress kernel).2.m_family = sock.m_family := by
  unfold Socket.getLocalAddress
  split
  · exact ⟨rfl, rfl⟩
  · split
    · exact ⟨rfl, rfl⟩
    · exact ⟨rfl, rfl⟩

theorem getLocalAddress_again :
    ((sock.getLocalAddress kernel).2.getLocalAddress kernel).1 =
      (sock.getLocalAddress kernel).1 := by
  cases found : sock.m_localAddress with
  | some cached =>
      rw [getLocalAddress_cached found]
      exact congrArg Prod.fst (getLocalAddress_cached found)
  | none =>
      cases reported : sock.m_sock.bind kernel.sockname with
      | some name =>
          rcases getLocalAddress_asks found reported with ⟨returned, asked⟩
          rw [returned, asked, getLocalAddress_cached rfl]
      | none =>
          -- without a name nothing is cached
          have kept : sock.getLocalAddress kernel = ({ family := sock.m_family }, sock) := by
            unfold Socket.getLocalAddress
            rw [found, reported]
          rw [kept]
          exact congrArg Prod.fst kept

theorem getRemoteAddress_kept (sock : Socket) (kernel : Kernel) :
    (sock.getRemoteAddress kernel).2.m_sock = sock.m_sock ∧
      (sock.getRemoteAddress kernel).2.m_family = sock.m_family ∧
      (sock.getRemoteAddress kernel).2.m_localAddress = sock.m_localAddress := by
  unfold Socket.getRemoteAddress
  split
  · exact ⟨rfl, rfl, rfl⟩
  · split
    · exact ⟨rfl, rfl, rfl⟩
    · exact ⟨rfl, rfl, rfl⟩

/-- A call has succeeded: the address is the one remembered before it, or else
the name it left. -/
structure Named (before : Option Address) (answer : Answer) (family : Family) (after : Socket)
    (later : Kernel) : Prop where
  succeeded : answer.ok = true
  kind : after.m_family = family
  reported : after.m_sock.bind later.sockname = answer.names.sockname
  returned : ∀ name ∈ answer.names.sockname,
    (after.getLocalAddress later).1 = before.getD (Socket.address family name)

theorem Named.coherent_iff {before : Option Address} {answer : Answer} {family : Family}
    (named : Named before answer family after later) :
    (Endpoint.result (true, after, later)).Coherent ↔
      ∀ cached ∈ before, answer.reports family cached := by
  have coherent : (Endpoint.result (true, after, later)).Coherent ↔
      ∀ name ∈ answer.names.sockname,
        (before.getD (Socket.address family name)).same (Socket.address family name) := by
    unfold Endpoint.Coherent Endpoint.result
    dsimp only
    rw [named.reported, named.kind]
    constructor
    · intro holds name mem
      rw [← named.returned name mem]
      exact holds rfl name mem
    · intro holds _ name mem
      rw [named.returned name mem]
      exact holds name mem
  rw [coherent]
  cases before with
  | none =>
      -- nothing was remembered, so the new name is
      apply iff_of_true
      · intro name _
        exact ⟨rfl, rfl⟩
      · intro cached mem
        cases mem
  | some addr =>
      constructor
      · intro holds cached mem _ name reported
        cases mem
        exact holds name reported
      · intro agrees name reported
        exact agrees addr rfl named.succeeded name reported

theorem name_sockname (kernel : Kernel) (fd : Fd) (names : Names) :
    (kernel.name fd names).sockname fd = names.sockname := by
  simp [Kernel.name]

theorem asked_named (kernel : Kernel) {fd : Fd} (found : sock.m_sock = some fd) {answer : Answer}
    (succeeded : answer.ok = true) :
    Named sock.m_localAddress answer sock.m_family
      (sock.getLocalAddress (kernel.name fd answer.names)).2 (kernel.name fd answer.names) where
  succeeded := succeeded
  kind := getLocalAddress_kept.2
  reported := by
    rw [getLocalAddress_kept.1, found, Option.bind_some, name_sockname]
  returned name mem := by
    have reported : sock.m_sock.bind (kernel.name fd answer.names).sockname = some name := by
      rw [found, Option.bind_some, name_sockname]
      exact mem
    rw [getLocalAddress_again]
    cases remembered : sock.m_localAddress with
    | some cached => exact congrArg Prod.fst (getLocalAddress_cached remembered)
    | none => exact (getLocalAddress_asks remembered reported).1

theorem connectTo_named {fd : Fd} (found : sock.m_sock = some fd) {timeout_ms : UInt64}
    {answer : Answer} (done : sock.connectTo fd timeout_ms answer kernel = (true, after, later)) :
    Named sock.m_localAddress answer sock.m_family after later := by
  unfold Socket.connectTo at done
  dsimp only at done
  split at done
  · rename_i succeeded
    cases done
    have kept := getRemoteAddress_kept { sock with m_isConnected := true }
      (kernel.name fd answer.names)
    have asked := asked_named kernel (kept.1.trans found) succeeded
    rw [kept.2.1, kept.2.2] at asked
    exact asked
  · split at done
    · cases done
    · cases done

theorem connect_named {addr : Address} {timeout_ms : UInt64} {answers : ConnectAnswers}
    (done : sock.connect addr timeout_ms answers kernel = some (true, after, later)) :
    Named sock.m_localAddress answers.connect sock.m_family after later := by
  rcases Socket.connect_cases done with ⟨mid, given, ensured, ended⟩
  rcases ensure_kept ensured with ⟨family, cached⟩
  rcases ended with failed | ⟨fd, found, tried⟩
  · cases failed
  · have named := connectTo_named found tried
    rw [family, cached] at named
    exact named

theorem bind_named {addr : Address} {answers : BindAnswers}
    (done : sock.bind addr answers kernel = some (true, after, later)) :
    Named (some addr) answers.bind sock.m_family after later := by
  rcases Socket.bind_cases done with ⟨mid, given, ensured, ended⟩
  rcases ensure_kept ensured with ⟨family, cached⟩
  rcases ended with failed | ⟨fd, taken, looked, found, _, tried⟩
  · cases failed
  · rcases tried with occupied | tried
    · cases occupied
    · unfold Socket.bindTo at tried
      dsimp only at tried
      split at tried
      · rename_i succeeded
        cases tried
        have named := asked_named looked found succeeded
        rw [family, cached] at named
        exact named
      · cases tried

theorem reconnect_named {timeout_ms : UInt64} {answers : ConnectAnswers}
    (done : sock.reconnect timeout_ms answers kernel = some (true, after, later)) :
    Named none answers.connect sock.m_family after later := by
  unfold Socket.reconnect at done
  split at done
  · cases done
  · exact connect_named done

/-! Every call. -/

theorem coherent_unusable (idle : endpoint.usable = false) : endpoint.Coherent := by
  intro usable
  rw [idle] at usable
  cases usable

theorem coherent_result (before : Option Address) (answer : Answer) (family : Family)
    {done : Bool × Socket × Kernel}
    (named : ∀ after later, done = (true, after, later) → Named before answer family after later) :
    (Endpoint.result done).Coherent ↔
      ((Endpoint.result done).usable = true → ∀ cached ∈ before, answer.reports family cached) := by
  obtain ⟨result, after, later⟩ := done
  cases result with
  | false =>
      apply iff_of_true (coherent_unusable rfl)
      intro usable
      cases usable
  | true =>
      rw [(named after later rfl).coherent_iff]
      exact ⟨fun holds _ => holds, fun holds => holds rfl⟩

theorem coherent_step (coherent : endpoint.Coherent) {act : AddressAct}
    (moved : endpoint.step act = some next) :
    next.Coherent ↔ (next.usable = true → act.Agrees endpoint) := by
  cases act with
  | bind addr answers =>
      rcases Option.map_eq_some_iff.mp moved with ⟨done, bound, rfl⟩
      rw [coherent_result (some addr) answers.bind endpoint.sock.m_family]
      · simp [AddressAct.Agrees]
      · rintro after later rfl
        exact bind_named bound
  | connect addr timeout_ms answers =>
      rcases Option.map_eq_some_iff.mp moved with ⟨done, connected, rfl⟩
      apply coherent_result endpoint.sock.m_localAddress
      rintro after later rfl
      exact connect_named connected
  | reconnect timeout_ms answers =>
      rcases Option.map_eq_some_iff.mp moved with ⟨done, connected, rfl⟩
      -- `reconnect` has forgotten the address
      rw [coherent_result none answers.connect endpoint.sock.m_family]
      · simp [AddressAct.Agrees]
      · rintro after later rfl
        exact reconnect_named connected
  | close =>
      cases moved
      apply iff_of_true (coherent_unusable rfl)
      intro usable
      cases usable
  | getLocalAddress =>
      cases moved
      apply iff_of_true
      · intro usable name reported
        dsimp only at reported usable ⊢
        rw [getLocalAddress_kept.1] at reported
        rw [getLocalAddress_again, getLocalAddress_kept.2]
        exact coherent usable name reported
      · intro _
        trivial

end Steps

/-- In every run in which the kernel gives the names that are remembered,
`getLocalAddress` is what `getsockname` reports after each successful call; and
a successful call that gives another name breaks this. -/
theorem local_address_coherent {endpoint : Endpoint}
    (reached : Reach endpoints (fun endpoint act => act.Agrees endpoint) endpoint) :
    endpoint.Coherent ∧ ∀ act after, endpoints.step endpoint act = some after →
      (after.Coherent ↔ (after.usable = true → act.Agrees endpoint)) := by
  have coherent : endpoint.Coherent := by
    apply reached.invariant Endpoint.Coherent
    · intro start initial
      exact coherent_unusable initial.1
    · intro before act after _ coherent agrees moved
      exact (coherent_step coherent moved).mpr fun _ => agrees
  exact ⟨coherent, fun act after moved => coherent_step coherent moved⟩

def tcpEndpoint : Endpoint := { sock := .make .IPv4 .TCP }

def bound : BindAnswers where
  socket := some { fd := 3 }
  bind := { ok := true, names := { sockname := some [0, 80] } }

theorem local_address_coherent_bound :
    ∃ endpoint, run endpoints tcpEndpoint
        [.bind { family := .IPv4, sockaddr := [0, 80] } bound] = some endpoint ∧
      (endpoint.Coherent ∧ ∀ act after, endpoints.step endpoint act = some after →
        (after.Coherent ↔ (after.usable = true → act.Agrees endpoint))) :=
  run_meets (fun endpoint act => act.Agrees endpoint) ⟨rfl, Or.inl rfl⟩ (by decide) (by decide)
    fun _ reached => local_address_coherent reached

/-- Port 0 is asked for, and the kernel gives another one. -/
theorem local_address_stale :
    ¬ ∀ endpoint, Reach endpoints anyStep endpoint → endpoint.Coherent := by
  intro always
  rcases reach_where endpoints anyStep tcpEndpoint
    [.bind { family := .IPv4, sockaddr := [0, 0] } bound]
    (fun endpoint => endpoint.usable && endpoint.sock.m_sock = some 3 &&
      endpoint.kernel.sockname 3 = some [0, 80] &&
      endpoint.sock.m_localAddress = some { family := .IPv4, sockaddr := [0, 0] })
    ⟨rfl, Or.inl rfl⟩ (by decide) (by decide) with ⟨endpoint, reached, ends⟩
  simp only [Bool.and_eq_true, decide_eq_true_eq] at ends
  rcases ends with ⟨⟨⟨usable, found⟩, reported⟩, cached⟩
  have name : endpoint.sock.m_sock.bind endpoint.kernel.sockname = some [0, 80] := by
    rw [found]
    exact reported
  have same := always endpoint reached usable [0, 80] name
  rw [getLocalAddress_cached cached] at same
  cases same.2

end Ztyco.Sockets
