import Ztyco.Sockets

/-!
Who owns a descriptor. A descriptor that is handed out becomes the `m_sock` of
one socket, which closes it once; the socket that looks at a UNIX path is gone
before `bind` goes on. Only an accepted descriptor can get no owner: `init`
refuses one whose context is missing, is no socket or is closed, and `accept`
then drops it.
-/

namespace Ztyco.Sockets

open Handouts
open Transition

/-- Every descriptor handed out was closed once, or is open and the `m_sock` of
one live socket. -/
def Program.Accounted (program : Program) : Prop :=
  ∀ k, k < program.kernel.ledger.handouts →
    program.kernel.ledger.closes k = 1 ∨
    program.kernel.ledger.closes k = 0 ∧ ∃ fd, program.kernel.ledger.number k = some fd ∧
      ∃! s, ∃ sock, program.sockets s = some sock ∧ sock.m_sock = some fd

/-- A descriptor that `::accept` returns has a context: a socket, not closed. -/
def Act.Inits : Act → Bool
  | .accept _ answers =>
      answers.accept.isNone || answers.context.any fun ctx => ctx.isSocket && !ctx.isClosed
  | _ => true

/-! One socket, next to the owners of other descriptors. -/

structure Held (others : Fd → Prop) (sock : Socket) (kernel : Kernel) : Prop where
  safe : Safe kernel.ledger fun fd => others fd ∨ sock.m_sock = some fd
  apart : ∀ fd, sock.m_sock = some fd → ¬ others fd

section Operations
variable {others : Fd → Prop} {sock after : Socket} {kernel later : Kernel} {result : Bool}

theorem Held.frame (held : Held others sock kernel) (same : after.m_sock = sock.m_sock)
    (ledger : later.ledger = kernel.ledger) : Held others after later := by
  constructor
  · rw [ledger, same]
    exact held.safe
  · rw [same]
    exact held.apart

theorem getLocalAddress_sock : (sock.getLocalAddress kernel).2.m_sock = sock.m_sock := by
  unfold Socket.getLocalAddress
  split
  · rfl
  · split <;> rfl

theorem getRemoteAddress_sock : (sock.getRemoteAddress kernel).2.m_sock = sock.m_sock := by
  unfold Socket.getRemoteAddress
  split
  · rfl
  · split <;> rfl

theorem held_none (safe : Safe kernel.ledger others) (empty : sock.m_sock = none) :
    Held others sock kernel := by
  constructor
  · apply safe.congr
    intro fd
    simp [empty]
  · intro fd found
    rw [empty] at found
    cases found

theorem Held.released (held : Held others sock kernel) (empty : sock.m_sock = none) :
    Safe kernel.ledger others := by
  apply held.safe.congr
  intro fd
  simp [empty]

theorem Held.hand (held : Held others sock kernel) (empty : sock.m_sock = none) {new : NewFd}
    (handed : kernel.hand new = some later) :
    Held others { sock with m_sock := some new.fd } later := by
  rcases Option.map_eq_some_iff.mp handed with ⟨ledger, taken, rfl⟩
  have safe := held.released empty
  constructor
  · apply (safe.hand taken).congr
    intro fd
    change _ ↔ others fd ∨ some new.fd = some fd
    rw [Option.some_inj, eq_comm]
  · intro fd found
    obtain rfl : new.fd = fd := Option.some.inj found
    exact safe.unowned taken

theorem Held.newSock (held : Held others sock kernel) (empty : sock.m_sock = none)
    {socket : Option NewFd} (done : sock.newSock socket kernel = some (after, later)) :
    Held others after later := by
  cases socket with
  | none =>
      cases done
      exact held.frame empty.symm rfl
  | some new =>
      rcases Option.map_eq_some_iff.mp done with ⟨mid, handed, made⟩
      cases made
      exact held.hand empty handed

theorem Held.ensure (held : Held others sock kernel) {socket : Option NewFd}
    (done : sock.ensure socket kernel = some (after, later)) : Held others after later := by
  unfold Socket.ensure at done
  split at done
  · cases done
    exact held
  · rename_i invalid
    exact held.newSock (Option.not_isSome_iff_eq_none.mp invalid) done

theorem close_sock : (sock.close kernel).2.1.m_sock = none := by
  unfold Socket.close
  split
  · rename_i idle
    simpa using (Bool.and_eq_true_iff.mp idle).2
  · split
    · rfl
    · rename_i empty
      exact empty

theorem Held.close (held : Held others sock kernel) :
    Held others (sock.close kernel).2.1 (sock.close kernel).2.2 := by
  apply held_none _ close_sock
  unfold Socket.close
  split
  · rename_i idle
    exact held.released (by simpa using (Bool.and_eq_true_iff.mp idle).2)
  · split
    · rename_i fd found
      apply Safe.shut _ (held.apart fd found)
      apply held.safe.congr
      intro other
      rw [found, Option.some_inj, eq_comm]
    · rename_i empty
      exact held.released empty

theorem Held.connectTo (held : Held others sock kernel) (fd : Fd) (timeout_ms : UInt64)
    (answer : Answer) : Held others (sock.connectTo fd timeout_ms answer kernel).2.1
      (sock.connectTo fd timeout_ms answer kernel).2.2 := by
  have named : Held others sock (kernel.name fd answer.names) := held.frame rfl rfl
  unfold Socket.connectTo
  dsimp only
  split
  · apply named.frame _ rfl
    rw [getLocalAddress_sock, getRemoteAddress_sock]
  · split
    · exact named
    · exact named.close

theorem Held.connect (held : Held others sock kernel) {addr : Address} {timeout_ms : UInt64}
    {answers : ConnectAnswers}
    (done : sock.connect addr timeout_ms answers kernel = some (result, after, later)) :
    Held others after later := by
  rcases Socket.connect_cases done with ⟨mid, given, ensured, ended⟩
  have remote : Held others { sock with m_remoteAddress := some addr } kernel := held.frame rfl rfl
  have ready := remote.ensure ensured
  rcases ended with failed | ⟨fd, _, tried⟩
  · cases failed
    exact ready
  · have connected := ready.connectTo fd timeout_ms answers.connect
    rw [tried] at connected
    exact connected

theorem unixTaken_safe {owned : Fd → Prop} (safe : Safe kernel.ledger owned) {addr : Address}
    {answers : ConnectAnswers}
    (done : Socket.unixTaken addr answers kernel = some (result, later)) :
    Safe later.ledger owned := by
  unfold Socket.unixTaken at done
  split at done
  · rcases Option.bind_eq_some_iff.mp done with ⟨⟨taken, other, mid⟩, connected, rest⟩
    cases rest
    have looking : Held owned (Socket.make .UNIX .TCP) kernel := held_none safe rfl
    exact (looking.connect connected).close.released close_sock
  · cases done
    exact safe

theorem Held.bindTo (held : Held others sock kernel) (fd : Fd) (answer : Answer) :
    Held others (sock.bindTo fd answer kernel).2.1 (sock.bindTo fd answer kernel).2.2 := by
  unfold Socket.bindTo
  dsimp only
  split
  · exact held.frame getLocalAddress_sock rfl
  · exact held.frame rfl rfl

theorem Held.bind (held : Held others sock kernel) {addr : Address} {answers : BindAnswers}
    (done : sock.bind addr answers kernel = some (result, after, later)) :
    Held others after later := by
  rcases Socket.bind_cases done with ⟨mid, given, ensured, ended⟩
  have wanted : Held others { sock with m_localAddress := some addr } kernel := held.frame rfl rfl
  have ready := wanted.ensure ensured
  rcases ended with failed | ⟨fd, taken, looked, _, looking, tried⟩
  · cases failed
    exact ready
  · have free : Held others mid looked := ⟨unixTaken_safe ready.safe looking, ready.apart⟩
    rcases tried with occupied | tried
    · cases occupied
      exact free
    · have bound := free.bindTo fd answers.bind
      rw [tried] at bound
      exact bound

theorem Held.reconnect (held : Held others sock kernel) {timeout_ms : UInt64}
    {answers : ConnectAnswers}
    (done : sock.reconnect timeout_ms answers kernel = some (result, after, later)) :
    Held others after later := by
  unfold Socket.reconnect at done
  split at done
  · cases done
    exact held
  · have reset : Held others { sock with m_localAddress := none } kernel := held.frame rfl rfl
    exact reset.connect done

end Operations

/-! The whole program. -/

def Program.others (program : Program) (s : SocketPtr) (fd : Fd) : Prop :=
  ∃ t sock, t ≠ s ∧ program.sockets t = some sock ∧ sock.m_sock = some fd

structure Owned (program : Program) : Prop where
  safe : Safe program.kernel.ledger fun fd =>
    ∃ s sock, program.sockets s = some sock ∧ sock.m_sock = some fd
  unique : ∀ s t one two fd, program.sockets s = some one → program.sockets t = some two →
    one.m_sock = some fd → two.m_sock = some fd → s = t
  unmade : ∀ s, program.made ≤ s → program.sockets s = none

section Program
variable {program after : Program} {s : SocketPtr} {sock : Socket} {kernel : Kernel} {act : Act}

theorem owned_empty : Owned {} where
  safe := by
    apply (safe_empty).congr
    intro fd
    simp
  unique _ _ _ _ _ found := by cases found
  unmade _ _ := rfl

theorem Owned.held (owned : Owned program) (live : program.sockets s = some sock) :
    Held (program.others s) sock program.kernel := by
  constructor
  · apply owned.safe.congr
    intro fd
    constructor
    · rintro ⟨t, other, found, holds⟩
      by_cases same : t = s
      · subst same
        obtain rfl : sock = other := Option.some.inj (live.symm.trans found)
        exact Or.inr holds
      · exact Or.inl ⟨t, other, same, found, holds⟩
    · rintro (⟨t, other, _, found, holds⟩ | holds)
      · exact ⟨t, other, found, holds⟩
      · exact ⟨s, sock, live, holds⟩
  · rintro fd holds ⟨t, other, different, found, same⟩
    exact different (owned.unique t s other sock fd found live same holds)

theorem Owned.held_new (owned : Owned program) (empty : sock.m_sock = none) :
    Held (program.others program.made) sock program.kernel := by
  apply held_none _ empty
  apply owned.safe.congr
  intro fd
  constructor
  · rintro ⟨t, other, found, holds⟩
    refine ⟨t, other, ?_, found, holds⟩
    rintro rfl
    rw [owned.unmade _ (Nat.le_refl _)] at found
    cases found
  · rintro ⟨t, other, _, found, holds⟩
    exact ⟨t, other, found, holds⟩

theorem Owned.set (owned : Owned program) (held : Held (program.others s) sock kernel)
    (made : s < program.made) : Owned (program.set s (some sock) kernel) where
  safe := by
    apply held.safe.congr
    intro fd
    constructor
    · rintro (⟨t, other, different, found, holds⟩ | holds)
      · exact ⟨t, other, (Function.update_of_ne different _ _).trans found, holds⟩
      · exact ⟨s, sock, Function.update_self _ _ _, holds⟩
    · rintro ⟨t, other, found, holds⟩
      rcases part_cases found with ⟨rfl, same⟩ | ⟨different, old⟩
      · cases same
        exact Or.inr holds
      · exact Or.inl ⟨t, other, different, old, holds⟩
  unique t u one two fd first second mine yours := by
    rcases part_cases first with ⟨rfl, same⟩ | ⟨away, old⟩
    · rcases part_cases second with ⟨rfl, _⟩ | ⟨far, found⟩
      · rfl
      · cases same
        exact absurd ⟨u, two, far, found, yours⟩ (held.apart fd mine)
    · rcases part_cases second with ⟨rfl, same⟩ | ⟨far, found⟩
      · cases same
        exact absurd ⟨t, one, away, old, mine⟩ (held.apart fd yours)
      · exact owned.unique t u one two fd old found mine yours
  unmade t later := by
    have different : t ≠ s := Nat.ne_of_gt (Nat.lt_of_lt_of_le made later)
    exact (Function.update_of_ne different _ _).trans (owned.unmade t later)

theorem Owned.grow (owned : Owned program) : Owned { program with made := program.made + 1 } :=
  ⟨owned.safe, owned.unique, fun t later => owned.unmade t (Nat.le_of_succ_le later)⟩

theorem Owned.add (owned : Owned program)
    (held : Held (program.others program.made) sock kernel) : Owned (program.add sock kernel) :=
  owned.grow.set held (Nat.lt_succ_self _)

theorem Owned.live_made (owned : Owned program) (live : program.sockets s = some sock) :
    s < program.made := by
  by_contra later
  rw [owned.unmade s (Nat.not_lt.mp later)] at live
  cases live

theorem Owned.destroyed (owned : Owned program)
    (safe : Safe kernel.ledger (program.others s)) : Owned (program.set s none kernel) where
  safe := by
    apply safe.congr
    intro fd
    constructor
    · rintro ⟨t, other, different, found, holds⟩
      exact ⟨t, other, (Function.update_of_ne different _ _).trans found, holds⟩
    · rintro ⟨t, other, found, holds⟩
      rcases part_cases found with ⟨_, same⟩ | ⟨different, old⟩
      · cases same
      · exact ⟨t, other, different, old, holds⟩
  unique t u one two fd first second mine yours := by
    rcases part_cases first with ⟨_, same⟩ | ⟨_, old⟩
    · cases same
    · rcases part_cases second with ⟨_, same⟩ | ⟨_, found⟩
      · cases same
      · exact owned.unique t u one two fd old found mine yours
  unmade t later := by
    by_cases same : t = s
    · subst same
      exact Function.update_self _ _ _
    · exact (Function.update_of_ne same _ _).trans (owned.unmade t later)

theorem Owned.accounted (owned : Owned program) : program.Accounted := by
  intro k below
  rcases owned.safe.settled k below with closed | ⟨unclosed, fd, numbered, s, sock, live, holds⟩
  · exact Or.inl closed
  · refine Or.inr ⟨unclosed, fd, numbered, s, ⟨sock, live, holds⟩, ?_⟩
    rintro t ⟨other, found, same⟩
    exact owned.unique t s other sock fd found live same holds

theorem Owned.createUDP (owned : Owned program) {m_family : Family} {socket : Option NewFd}
    (done : program.createUDP m_family socket = some after) : Owned after := by
  rcases Option.bind_eq_some_iff.mp done with ⟨⟨sock, kernel⟩, created, rest⟩
  cases rest
  have fresh : Held (program.others program.made) (.make m_family .UDP) program.kernel :=
    owned.held_new rfl
  exact owned.add ((fresh.newSock rfl created).frame rfl rfl)

theorem accept_cases {answers : AcceptAnswers} {accepted : Option Socket}
    (done : sock.accept answers program.kernel = some (accepted, kernel)) :
    answers.accept = none ∧ accepted = none ∧ kernel = program.kernel ∨
      ∃ new, answers.accept = some new ∧ program.kernel.hand new = some kernel ∧
        accepted = (Socket.make sock.m_family sock.m_type).init new.fd answers.context kernel := by
  unfold Socket.accept at done
  cases found : answers.accept with
  | none =>
      rw [found] at done
      cases done
      exact Or.inl ⟨rfl, rfl, rfl⟩
  | some new =>
      rw [found] at done
      rcases Option.bind_eq_some_iff.mp done with ⟨fd, _, rest⟩
      rcases Option.bind_eq_some_iff.mp rest with ⟨later, handed, last⟩
      cases last
      exact Or.inr ⟨new, rfl, handed, rfl⟩

theorem Owned.lost (owned : Owned program) {new : NewFd}
    (handed : program.kernel.hand new = some kernel) :
    ¬ ({ program with kernel := kernel } : Program).Accounted := by
  intro accounted
  rcases Option.map_eq_some_iff.mp handed with ⟨ledger, taken, rfl⟩
  rcases owned.safe.lost taken with ⟨k, below, unclosed, numbered, unowned⟩
  rcases accounted k below with closed | ⟨_, fd, found, s, ⟨sock, live, holds⟩, _⟩
  · rw [show ledger.closes k = 1 from closed] at unclosed
    cases unclosed
  · obtain rfl : new.fd = fd := Option.some.inj (numbered.symm.trans found)
    exact unowned ⟨s, sock, live, holds⟩

/-- An operation keeps the owners, or it has lost an accepted descriptor. -/
theorem Owned.step (owned : Owned program) (moved : program.step act = some after) :
    act.Inits = true ∧ Owned after ∨ act.Inits = false ∧ ¬ after.Accounted := by
  have created : ∀ m_family type, Owned (program.add (.make m_family type) program.kernel) :=
    fun m_family type => owned.add (owned.held_new rfl)
  cases act with
  | CreateTCP address =>
      cases moved
      exact Or.inl ⟨rfl, created _ _⟩
  | CreateUDP address =>
      cases moved
      exact Or.inl ⟨rfl, created _ _⟩
  | CreateTCPSocket =>
      cases moved
      exact Or.inl ⟨rfl, created _ _⟩
  | CreateUDPSocket socket => exact Or.inl ⟨rfl, owned.createUDP moved⟩
  | CreateTCPSocket6 =>
      cases moved
      exact Or.inl ⟨rfl, created _ _⟩
  | CreateUDPSocket6 socket => exact Or.inl ⟨rfl, owned.createUDP moved⟩
  | CreateUnixTCPSocket =>
      cases moved
      exact Or.inl ⟨rfl, created _ _⟩
  | CreateUnixUDPSocket =>
      cases moved
      exact Or.inl ⟨rfl, created _ _⟩
  | bind s addr answers =>
      rcases Option.bind_eq_some_iff.mp moved with ⟨sock, live, rest⟩
      rcases Option.bind_eq_some_iff.mp rest with ⟨⟨_, changed, kernel⟩, bound, last⟩
      cases last
      exact Or.inl ⟨rfl, owned.set ((owned.held live).bind bound) (owned.live_made live)⟩
  | connect s addr timeout_ms answers =>
      rcases Option.bind_eq_some_iff.mp moved with ⟨sock, live, rest⟩
      rcases Option.bind_eq_some_iff.mp rest with ⟨⟨_, changed, kernel⟩, connected, last⟩
      cases last
      exact Or.inl ⟨rfl, owned.set ((owned.held live).connect connected) (owned.live_made live)⟩
  | reconnect s timeout_ms answers =>
      rcases Option.bind_eq_some_iff.mp moved with ⟨sock, live, rest⟩
      rcases Option.bind_eq_some_iff.mp rest with ⟨⟨_, changed, kernel⟩, connected, last⟩
      cases last
      exact Or.inl ⟨rfl, owned.set ((owned.held live).reconnect connected) (owned.live_made live)⟩
  | accept s answers =>
      rcases Option.bind_eq_some_iff.mp moved with ⟨sock, live, rest⟩
      rcases Option.bind_eq_some_iff.mp rest with ⟨⟨accepted, kernel⟩, accepting, last⟩
      rcases accept_cases accepting with ⟨refused, rfl, rfl⟩ | ⟨new, given, handed, rfl⟩
      · cases last
        left
        exact ⟨by simp [Act.Inits, refused], owned⟩
      · cases usable : answers.context.any fun ctx => ctx.isSocket && !ctx.isClosed with
        | true =>
            left
            refine ⟨by simp [Act.Inits, usable], ?_⟩
            have fresh : Held (program.others program.made)
                (.make sock.m_family sock.m_type) program.kernel := owned.held_new rfl
            have taken := fresh.hand rfl handed
            simp only [Socket.init, usable, if_true] at last
            cases last
            apply owned.add
            apply taken.frame _ rfl
            rw [getRemoteAddress_sock, getLocalAddress_sock]
        | false =>
            right
            refine ⟨by simp [Act.Inits, given, usable], ?_⟩
            simp only [Socket.init, usable] at last
            cases last
            exact owned.lost handed
  | close s =>
      rcases Option.bind_eq_some_iff.mp moved with ⟨sock, live, rest⟩
      cases rest
      exact Or.inl ⟨rfl, owned.set (owned.held live).close (owned.live_made live)⟩
  | destroy s =>
      rcases Option.bind_eq_some_iff.mp moved with ⟨sock, live, rest⟩
      cases rest
      exact Or.inl ⟨rfl, owned.destroyed ((owned.held live).close.released close_sock)⟩

theorem reach_owned (reached : Reach descriptors (fun _ act => act.Inits = true) program) :
    Owned program := by
  apply reached.invariant Owned
  · rintro program rfl
    exact owned_empty
  · intro before act after _ owned inits moved
    rcases owned.step moved with ⟨_, kept⟩ | ⟨fails, _⟩
    · exact kept
    · rw [inits] at fails
      cases fails

end Program

/-- In every run in which accepted descriptors have contexts, no descriptor is
lost or closed twice; and an operation that accepts another one loses it. -/
theorem descriptors_accounted {program : Program}
    (reached : Reach descriptors (fun _ act => act.Inits = true) program) :
    program.Accounted ∧ ∀ act after, descriptors.step program act = some after →
      (after.Accounted ↔ act.Inits = true) := by
  have owned := reach_owned reached
  refine ⟨owned.accounted, ?_⟩
  intro act after moved
  rcases owned.step moved with ⟨inits, kept⟩ | ⟨fails, lost⟩
  · exact iff_of_true kept.accounted inits
  · exact iff_of_false lost (Bool.eq_false_iff.mp fails)

def listening : List Act :=
  [.CreateTCPSocket,
    .bind 0 { family := .IPv4 } { socket := some { fd := 3 }, bind := { ok := true } }]

theorem descriptors_accounted_accept :
    ∃ program, run descriptors {}
        (listening ++ [.accept 0 { accept := some { fd := 4 }, context := some {} }, .destroy 0]) =
          some program ∧
      (program.Accounted ∧ ∀ act after, descriptors.step program act = some after →
        (after.Accounted ↔ act.Inits = true)) :=
  run_meets (fun _ act => act.Inits = true) rfl (by decide) (by decide)
    fun _ reached => descriptors_accounted reached

/-- It accepts a client whose context is missing. -/
theorem descriptor_lost :
    ¬ ∀ program, Reach descriptors anyStep program → program.Accounted := by
  intro always
  have allowed : ∀ (program : Program) (act : Act), act.Inits = true → anyStep program act :=
    fun _ _ _ => trivial
  rcases reach_where descriptors (fun _ act => act.Inits = true) {} listening
    (fun program => (program.step (.accept 0 { accept := some { fd := 4 } })).isSome)
    rfl (by decide) (by decide) with ⟨program, reached, accepts⟩
  obtain ⟨after, moved⟩ := Option.isSome_iff_exists.mp accepts
  rcases (reach_owned reached).step moved with ⟨inits, _⟩ | ⟨_, lost⟩
  · cases inits
  · obtain ⟨start, initial, path⟩ := reached
    apply lost
    have step : descriptors.step program (.accept 0 { accept := some { fd := 4 } }) = some after :=
      moved
    exact always after ⟨start, initial, .next _ (path.mono allowed) trivial step⟩

end Ztyco.Sockets
