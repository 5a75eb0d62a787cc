/-
The descriptors of the connections, from where they are opened to where they go
(`server/server_main.cpp`, `client/client_main.cpp`,
`common/socket_producer_consumer.cpp`).

`addSocket` owns the descriptor it is given until it posts the task, which takes
it along; an exception before that closes it. So of what the server accepts and
the client connects, everything is posted or closed, once (`Accounts`), whatever
the system calls return, with one exception: descriptor 0, which `close()` does
not take and whose owner aborts.
-/
import RuralPipe.InterfaceNames

namespace RuralPipe

open Machine Routine

/-- The body of a constructor, which an exception leaves with the member `sock`
destroyed. -/
def Routine.unwinding {α : Type} (sock : FileDescriptor) (body : Routine α) : Routine α := fun k =>
  match body k with
  | (.error (.failure (.throw ex)), k') => (do destroy sock; throw ex : Routine α) k'
  | r => r

/-- What the calls of `addSocket` return; `fstat` whether it is a socket. -/
structure AddSyscalls where
  fstat : Syscall Bool
  setSndBuf : Syscall Nat
  setNoDelay : Syscall Nat
  getRcvBuf : Syscall Nat
  getSndBuf : Syscall Nat

/-- `addSocket` up to the post: what the task takes along. -/
def addSocket (config : FileDescriptor) (sys : AddSyscalls) : Routine FileDescriptor :=
  withScoped config do
    let isSocket ← syscall "::fstat(config.fd, &s)" sys.fstat
    if isSocket then
      let _ ← syscall "::setsockopt(config.fd, SOL_SOCKET, SO_SNDBUF, &kSendBufSize, sizeof(kSendBufSize))" sys.setSndBuf
      let _ ← syscall "::setsockopt(config.fd, IPPROTO_TCP, TCP_NODELAY, &kTCPNoDelay, sizeof(kTCPNoDelay))"
        sys.setNoDelay
      let _ ← syscall
        "::getsockopt(config.fd, SOL_SOCKET, SO_RCVBUF, (void *)&recvBufSize, (socklen_t *)&recvBufSizeLen)" sys.getRcvBuf
      let _ ← syscall
        "::getsockopt(config.fd, SOL_SOCKET, SO_SNDBUF, (void *)&sendBufSize, (socklen_t *)&sendBufSizeLen)" sys.getSndBuf
    return config.moveConstruct

/-- What the calls of one turn of `runAcceptConnectionLoop` return; `accept` with
the peer's address. -/
structure AcceptSyscalls where
  listen : Syscall Nat
  accept : Syscall (Nat × String)
  add : AddSyscalls

/-- The second `try` block of `runAcceptConnectionLoop`. -/
def acceptConnection (sys : AcceptSyscalls) : Routine FileDescriptor := do
  let (clientSocket, addr) ← syscall
    "::accept(_serverSock, (struct sockaddr *)&addr, (socklen_t *)&addrlen)" sys.accept
  let sock ← openDescriptor s!"Client {addr}" (.ok clientSocket)
  addSocket sock sys.add

/-- A server in its loop: what was done, the descriptors that went along with a
task, and what the process was stopped by. -/
structure Server where
  serverSock : FileDescriptor
  trace : Trace
  posted : List FileDescriptor
  stopped : Option Stop

namespace Server

/-- The constructor. -/
def construct (socket bind : Syscall Nat) : Routine FileDescriptor := do
  let serverSock ← openDescriptor "Server socket" socket
  let _ ← unwinding serverSock (syscall "::bind(_serverSock, (sockaddr *)&addr, sizeof(addr))" bind)
  return serverSock

/-- One turn of `runAcceptConnectionLoop`: a failed `listen` is tried again after a
sleep, and an exception in the rest is logged. -/
def turn (s : Server) (sys : AcceptSyscalls) : Server :=
  match sys.listen with
  | .error _ => s
  | .ok _ =>
    match acceptConnection sys s.trace with
    | (.ok sock, trace) => { s with trace, posted := s.posted ++ [sock] }
    | (.error (.failure (.throw _)), trace) => { s with trace }
    | (.error e, trace) => { s with trace, stopped := some e }

end Server

/-- The server's loop, whatever the system calls return. -/
def serverLoop : Machine Server AcceptSyscalls where
  init s := ∃ socket bind, Server.construct socket bind .start = (.ok s.serverSock, s.trace) ∧
    s.posted = [] ∧ s.stopped = none
  step s sys s' := s.stopped = none ∧ s' = s.turn sys

/-! ## One connection -/

/-- Where two actions returned, the first did. -/
theorem Routine.bind_returned {α β : Type} {x : Routine α} {f : α → Routine β} {k k'' : Trace} {b : β}
    (h : (x >>= f) k = (.ok b, k'')) : ∃ a k', x k = (.ok a, k') ∧ f a k' = (.ok b, k'') := by
  cases hx : x k with
  | mk r k' =>
    cases r with
    | ok a => exact ⟨a, k', rfl, by rwa [bind_ok hx] at h⟩
    | error e =>
      rw [bind_error hx] at h
      cases h

/-- A body that returned did not unwind. -/
theorem Routine.unwinding_returned {α : Type} {sock : FileDescriptor} {body : Routine α} {k k' : Trace} {a : α}
    (h : unwinding sock body k = (.ok a, k')) : body k = (.ok a, k') := by
  unfold unwinding at h
  split at h
  · obtain ⟨_, _, -, hthrow⟩ := Routine.bind_returned h
    cases hthrow
  · exact h

/-- No call of `addSocket` fails; of a descriptor that is no socket only the kind
is asked. -/
def AddSyscalls.works (sys : AddSyscalls) : Bool :=
  match sys.fstat with
  | .error _ => false
  | .ok false => true
  | .ok true => sys.setSndBuf.isOk && sys.setNoDelay.isOk && sys.getRcvBuf.isOk && sys.getSndBuf.isOk

/-- An object that was moved from has nothing to close. -/
theorem destroy_moved (sock : FileDescriptor) (k : Trace) : destroy sock.moveConstruct.2 k = (.ok (), k) := by
  simp only [destroy, FileDescriptor.moveConstruct, FileDescriptor.moveAssign, FileDescriptor.close,
    FileDescriptor.passedToClose]
  simp

/-- What becomes of a descriptor: it goes on in an object of its own; or an
exception has closed it; or, when it is 0, the process was aborted. -/
inductive Passes (fd : Int) (k : Trace) : Except Stop FileDescriptor × Trace → Prop
  | on {d : FileDescriptor} : d.fd = fd → Passes fd k (.ok d, k)
  | closed {ex} : 0 < fd → Passes fd k (.error (.failure (.throw ex)), { k with closed := k.closed ++ [fd] })
  | aborted {c} : fd = 0 → Passes fd k (.error (.failure (.abort c)), k)

/-- An object whose function moves it on passes it on. -/
theorem passes_on {sock : FileDescriptor} {body : Routine (FileDescriptor × FileDescriptor)} {k k' : Trace}
    (h : body k = (.ok sock.moveConstruct, k')) : withScoped sock body k = (.ok sock.moveConstruct.1, k') := by
  have h' : body k = (.ok (sock.moveConstruct.1, sock.moveConstruct.2), k') := h
  exact (withScoped_ok h').trans (bind_ok (destroy_moved sock k'))

/-- One whose function throws is closed, or cannot be. -/
theorem passes_throw {sock : FileDescriptor} (hfd : 0 ≤ sock.fd) {body : Routine (FileDescriptor × FileDescriptor)}
    {k k' : Trace} {ex : Exception} (h : body k = (.error (.failure (.throw ex)), k')) :
    Passes sock.fd k' (withScoped sock body k) ∧ ∀ d, (withScoped sock body k).1 ≠ .ok d := by
  rcases Int.lt_or_eq_of_le hfd with hpos | hzero
  · rw [withScoped_unwinds hpos h]
    exact ⟨.closed hpos, by simp⟩
  · obtain ⟨c, hc⟩ := withScoped_zero hzero.symm (.inr ⟨ex, h⟩)
    rw [hc]
    exact ⟨.aborted hzero.symm, by simp⟩

/-- The body of `addSocket` moves the descriptor on exactly where no call fails. -/
theorem addSocket_cases {config : FileDescriptor} (hfd : 0 ≤ config.fd) (sys : AddSyscalls) (k : Trace) :
    Passes config.fd k (addSocket config sys k) ∧ ((∃ d, (addSocket config sys k).1 = .ok d) ↔ sys.works = true) := by
  have hon : ∀ {body : Routine (FileDescriptor × FileDescriptor)}, body k = (.ok config.moveConstruct, k) →
      sys.works = true → Passes config.fd k (withScoped config body k) ∧
      ((∃ d, (withScoped config body k).1 = .ok d) ↔ sys.works = true) := by
    intro body h hw
    rw [passes_on h]
    exact ⟨.on rfl, iff_of_true ⟨_, rfl⟩ hw⟩
  have hthrow : ∀ {body : Routine (FileDescriptor × FileDescriptor)} {ex}, body k = (.error (.failure (.throw ex)), k) →
      sys.works = false → Passes config.fd k (withScoped config body k) ∧
      ((∃ d, (withScoped config body k).1 = .ok d) ↔ sys.works = true) := by
    intro body ex h hw
    obtain ⟨hpass, hno⟩ := passes_throw hfd h
    refine ⟨hpass, iff_of_false (fun hex => ?_) (by simp [hw])⟩
    obtain ⟨d, hd⟩ := hex
    exact hno d hd
  unfold addSocket
  cases hf : sys.fstat with
  | error errno => exact hthrow rfl (by simp [AddSyscalls.works, hf])
  | ok isSocket =>
    cases isSocket with
    | false => exact hon rfl (by simp [AddSyscalls.works, hf])
    | true =>
      cases h₁ : sys.setSndBuf with
      | error errno => exact hthrow rfl (by simp [AddSyscalls.works, hf, h₁, Except.isOk, Except.toBool])
      | ok a =>
        cases h₂ : sys.setNoDelay with
        | error errno => exact hthrow rfl (by simp [AddSyscalls.works, hf, h₂, Except.isOk, Except.toBool])
        | ok a =>
          cases h₃ : sys.getRcvBuf with
          | error errno => exact hthrow rfl (by simp [AddSyscalls.works, hf, h₃, Except.isOk, Except.toBool])
          | ok a =>
            cases h₄ : sys.getSndBuf with
            | error errno => exact hthrow rfl (by simp [AddSyscalls.works, hf, h₄, Except.isOk, Except.toBool])
            | ok a => exact hon rfl (by simp [AddSyscalls.works, hf, h₁, h₂, h₃, h₄, Except.isOk, Except.toBool])

/-- What was opened and not closed is `fds`. -/
def Trace.Open (k : Trace) (fds : List Int) : Prop := k.opened.Perm (k.closed ++ fds)

theorem Trace.Open.opens {k k' : Trace} {fds : List Int} {fd : Int} (h : k.Open fds) (ho : k'.opened = k.opened ++ [fd])
    (hc : k'.closed = k.closed) : k'.Open (fd :: fds) := by
  rw [Trace.Open, ho, hc]
  exact (List.perm_append_comm.trans (h.cons fd)).trans List.perm_middle.symm

theorem Trace.Open.closes {k : Trace} {fds : List Int} {fd : Int} (h : k.Open (fd :: fds)) :
    Trace.Open { k with closed := k.closed ++ [fd] } fds := by
  show k.opened.Perm (k.closed ++ [fd] ++ fds)
  rw [List.append_assoc]
  exact h

theorem Trace.Open.perm {k : Trace} {fds fds' : List Int} (h : k.Open fds) (hp : fds.Perm fds') : k.Open fds' :=
  List.Perm.trans h (hp.append_left _)

/-! ## The server -/

namespace AcceptSyscalls

/-- The descriptor of the turn's connection. -/
def accepted (sys : AcceptSyscalls) : Option Nat :=
  match sys.listen, sys.accept with
  | .ok _, .ok (fd, _) => some fd
  | _, _ => none

/-- The one that goes along with a task. -/
def posts (sys : AcceptSyscalls) : Option Nat := sys.accepted.filter fun _ => sys.add.works

/-- The one whose owner aborts. -/
def Aborts (sys : AcceptSyscalls) : Prop := sys.accepted = some 0 ∧ sys.add.works = false

end AcceptSyscalls

namespace Server

variable {s s' : Server} {sys : AcceptSyscalls}

/-- What a turn can do: nothing, without a connection; post it; close it; or
abort. -/
theorem turn_cases (s : Server) (sys : AcceptSyscalls) :
    (sys.posts = none ∧ ¬ sys.Aborts ∧ s.turn sys = s) ∨
    (∃ (fd : Nat) (d : FileDescriptor), sys.posts = some fd ∧ ¬ sys.Aborts ∧ d.fd = fd ∧
      s.turn sys = { s with
        trace := { s.trace with opened := s.trace.opened ++ [(fd : Int)] }, posted := s.posted ++ [d] }) ∨
    (∃ fd : Nat, sys.posts = none ∧ ¬ sys.Aborts ∧ s.turn sys = { s with
        trace := { s.trace with opened := s.trace.opened ++ [(fd : Int)], closed := s.trace.closed ++ [(fd : Int)] } }) ∨
    sys.posts = none ∧ sys.Aborts ∧ (s.turn sys).posted = s.posted ∧ (s.turn sys).stopped ≠ none := by
  cases hl : sys.listen with
  | error errno => exact .inl (by simp [AcceptSyscalls.posts, AcceptSyscalls.Aborts, AcceptSyscalls.accepted, turn, hl])
  | ok a =>
    cases ha : sys.accept with
    | error errno =>
      obtain ⟨ex, hex⟩ := syscall_error (α := Nat × String)
        "::accept(_serverSock, (struct sockaddr *)&addr, (socklen_t *)&addrlen)" errno s.trace
      have hrun : acceptConnection sys s.trace = (.error (.failure (.throw ex)), s.trace) := by
        rw [acceptConnection, ha, bind_error hex]
      exact .inl (by simp [AcceptSyscalls.posts, AcceptSyscalls.Aborts, AcceptSyscalls.accepted, turn, hl, ha, hrun])
    | ok conn =>
      obtain ⟨fd, addr⟩ := conn
      have hacc : sys.accepted = some fd := by simp [AcceptSyscalls.accepted, hl, ha]
      have hrun : acceptConnection sys s.trace =
          addSocket ⟨s!"Client {addr}", fd⟩ sys.add { s.trace with opened := s.trace.opened ++ [(fd : Int)] } := by
        rw [acceptConnection, ha, bind_ok (syscall_ok _ _ _)]
        exact bind_ok (openDescriptor_ok _ fd _)
      have hfd : (0 : Int) ≤ (⟨s!"Client {addr}", fd⟩ : FileDescriptor).fd := Int.natCast_nonneg fd
      obtain ⟨hpass, hworks⟩ := addSocket_cases hfd sys.add { s.trace with opened := s.trace.opened ++ [(fd : Int)] }
      rw [← hrun] at hpass hworks
      have hturn : s.turn sys = match acceptConnection sys s.trace with
          | (.ok sock, trace) => { s with trace, posted := s.posted ++ [sock] }
          | (.error (.failure (.throw _)), trace) => { s with trace }
          | (.error e, trace) => { s with trace, stopped := some e } := by simp only [turn, hl]
      have hposts : sys.posts = if sys.add.works then some fd else none := by
        simp [AcceptSyscalls.posts, hacc, Option.filter]
      have haborts : sys.Aborts ↔ fd = 0 ∧ sys.add.works = false := by simp [AcceptSyscalls.Aborts, hacc]
      rw [hturn, hposts, haborts]
      clear hturn hposts haborts hacc hrun
      generalize acceptConnection sys s.trace = r at hpass hworks
      cases hpass with
      | @on d hd =>
        have hw : sys.add.works = true := hworks.1 ⟨d, rfl⟩
        exact .inr (.inl ⟨fd, d, by simp [hw], by simp [hw], hd, rfl⟩)
      | closed hpos =>
        have hw : sys.add.works = false := by simpa using mt hworks.2 (by simp)
        have hne : fd ≠ 0 := by
          have : (0 : Int) < fd := hpos
          omega
        exact .inr (.inr (.inl ⟨fd, by simp [hw], by simp [hne], rfl⟩))
      | aborted hzero =>
        have hw : sys.add.works = false := by simpa using mt hworks.2 (by simp)
        have hz : fd = 0 := Int.natCast_eq_zero.1 hzero
        exact .inr (.inr (.inr ⟨by simp [hw], ⟨hz, hw⟩, rfl, by simp⟩))

/-- What is open is the server's own socket and what was posted. -/
def Keeps (s : Server) : Prop := s.trace.Open (s.serverSock.fd :: s.posted.map (·.fd))

theorem Keeps.construct {socket bind : Syscall Nat}
    (h : Server.construct socket bind .start = (.ok s.serverSock, s.trace)) (hp : s.posted = []) : s.Keeps := by
  obtain ⟨serverSock, k, hopen, h⟩ := Routine.bind_returned h
  obtain ⟨n, k', hbind, h⟩ := Routine.bind_returned h
  have hbind := Routine.unwinding_returned hbind
  cases socket with
  | error errno => cases hopen
  | ok fd =>
    cases bind with
    | error errno => cases hbind
    | ok a =>
      cases hopen
      cases hbind
      obtain ⟨hsock, htrace⟩ := Prod.mk.inj h
      rw [Keeps, hp, ← htrace, ← Except.ok.inj hsock]
      exact List.Perm.refl _

end Server

/-- **What the server accepts is posted or closed, once.** In every run of its
loop, the descriptors posted are those of the connections no call of `addSocket`
failed for, in order; those of the others have been closed, and nothing else is
open but the server's own socket; and the loop goes on for ever unless
`addSocket` fails for a connection with descriptor 0. -/
theorem server_posts_or_closes {tr : List (Transition Server AcceptSyscalls)} {s : Server} (h : serverLoop.Run tr s) :
    s.posted.map (·.fd) = tr.filterMap (fun t => t.label.posts.map Int.ofNat) ∧
    (s.stopped = none → s.trace.Open (s.serverSock.fd :: s.posted.map (·.fd))) ∧
    (s.stopped ≠ none ↔ ∃ t ∈ tr, t.label.Aborts) := by
  induction h with
  | init hi =>
    obtain ⟨socket, bind, hc, hp, hs⟩ := hi
    refine ⟨by rw [hp]; rfl, fun _ => Server.Keeps.construct hc hp, by simp [hs]⟩
  | @step tr s sys s' hr hs ih =>
    obtain ⟨hrun, rfl⟩ := hs
    obtain ⟨hposted, hopen, hstop⟩ := ih
    have hno : ¬ ∃ t ∈ tr, t.label.Aborts := fun hex => hstop.2 hex hrun
    have hopen := hopen hrun
    rw [List.filterMap_append, ← hposted]
    have hex : (∃ t ∈ tr ++ [⟨s, sys, s.turn sys⟩], t.label.Aborts) ↔ sys.Aborts := by
      simp only [List.mem_append, List.mem_singleton]
      constructor
      · intro hex
        obtain ⟨t, ht | rfl, ha⟩ := hex
        · exact absurd ⟨t, ht, ha⟩ hno
        · exact ha
      · exact fun ha => ⟨_, .inr rfl, ha⟩
    rw [hex]
    rcases Server.turn_cases s sys with ⟨hp, ha, he⟩ | ⟨fd, d, hp, ha, hd, he⟩ | ⟨fd, hp, ha, he⟩ | ⟨hp, ha, hposted', hstop'⟩
    · rw [he]
      exact ⟨by simp [hp], fun _ => hopen, by simp [hrun, ha]⟩
    · rw [he]
      refine ⟨by simp [hp, hd], fun _ => ?_, by simp [hrun, ha]⟩
      have hopened : Trace.Open { s.trace with opened := s.trace.opened ++ [(fd : Int)] }
          (fd :: s.serverSock.fd :: s.posted.map (·.fd)) := hopen.opens rfl rfl
      refine hopened.perm ?_
      rw [List.map_append, List.map_singleton, hd]
      exact (List.perm_append_singleton (fd : Int) (s.serverSock.fd :: s.posted.map (·.fd))).symm
    · rw [he]
      refine ⟨by simp [hp], fun _ => ?_, by simp [hrun, ha]⟩
      have hopened : Trace.Open { s.trace with opened := s.trace.opened ++ [(fd : Int)] }
          (fd :: s.serverSock.fd :: s.posted.map (·.fd)) := hopen.opens rfl rfl
      exact hopened.closes
    · exact ⟨by simp [hp, hposted'], fun hs => absurd hs hstop', iff_of_true hstop' ha⟩

def addWorks : AddSyscalls := ⟨.ok true, .ok 0, .ok 0, .ok 4096, .ok 8192⟩
def addFails : AddSyscalls := ⟨.ok true, .ok 0, .error 22, .ok 4096, .ok 8192⟩

/-- A run, and one turn more. -/
theorem server_turn {tr : List (Transition Server AcceptSyscalls)} {s : Server} (h : serverLoop.Run tr s)
    (sys : AcceptSyscalls) (hs : s.stopped = none) : serverLoop.Run (tr ++ [⟨s, sys, s.turn sys⟩]) (s.turn sys) :=
  .step h ⟨hs, rfl⟩

/-- Of three connections the second is closed, and no `accept` gave the third. -/
theorem server_posts_or_closes_two : ∃ tr s, serverLoop.Run tr s ∧ s.posted.map (·.fd) = [4] ∧ s.trace.closed = [5] ∧
    s.trace.Open [3, 4] := by
  have h : serverLoop.Run []
      { serverSock := ⟨"Server socket", 3⟩, trace := ⟨[3], [], []⟩, posted := [], stopped := none } :=
    .init ⟨.ok 3, .ok 0, rfl, rfl, rfl⟩
  have h := server_turn h ⟨.ok 0, .ok (4, "10.0.0.1"), addWorks⟩ rfl
  have h := server_turn h ⟨.ok 0, .ok (5, "10.0.0.2"), addFails⟩ rfl
  have h := server_turn h ⟨.ok 0, .error 24, addWorks⟩ rfl
  exact ⟨_, _, h, rfl, rfl, (server_posts_or_closes h).2.1 rfl⟩

/-! ## The client -/

/-- The client in its loop: the loop itself, what was done, the socket that has
been connected and not yet added, those that went along with a task, and what the
process was stopped by. -/
structure ClientSockets where
  client : Client
  trace : Trace
  connected : Option FileDescriptor
  posted : List FileDescriptor
  stopped : Option Stop

inductive ClientSocketsEvent
  | connect (sys : ConnectSyscalls)
  | add (sys : AddSyscalls)
  | tau

namespace ClientSockets

def start (interfaces : List Name) : ClientSockets where
  client := .start (interfaces.map Name.text)
  trace := .start
  connected := none
  posted := []
  stopped := none

/-- The loop's own step. -/
def advance (interfaces : List Name) (c : ClientSockets) (ev : ConnectEvent) : Option ClientSockets :=
  (c.client.step (interfaces.map Name.text) ev).map fun client => { c with client }

/-- The interface whose `_connectToServer` is next. -/
def next (interfaces : List Name) (c : ClientSockets) : Option Name :=
  match c.client.loop with
  | .connecting i => interfaces[i]?
  | _ => none

def step (interfaces : List Name) (c : ClientSockets) : ClientSocketsEvent → Option ClientSockets
  | .connect sys =>
    match c.next interfaces with
    | none => none
    | some intf =>
      match connectToServer intf sys c.trace with
      | (.ok sock, trace) => advance interfaces { c with trace, connected := some sock } (.connect (.ok ()))
      | (.error (.failure (.throw ex)), trace) => advance interfaces { c with trace } (.connect (.error ex))
      | (.error e, trace) => some { c with trace, stopped := some e }
  | .add sys =>
    match c.connected with
    | none => none
    | some sock =>
      match addSocket sock sys c.trace with
      | (.ok sock, trace) =>
        advance interfaces { c with trace, connected := none, posted := c.posted ++ [sock] } (.add (.ok ()))
      | (.error (.failure (.throw ex)), trace) =>
        advance interfaces { c with trace, connected := none } (.add (.error ex))
      | (.error e, trace) => some { c with trace, stopped := some e }
  | .tau => c.advance interfaces .tau

end ClientSockets

/-- The client's loop, whatever the system calls return. -/
def clientSockets (interfaces : List Name) : Machine ClientSockets ClientSocketsEvent where
  init c := c = .start interfaces
  step c ev c' := c.stopped = none ∧ c.step interfaces ev = some c'

/-- `_connectToServer` passes its socket on, unless it was stopped by a name that
does not fit, or by an address of another family. -/
theorem connectToServer_cases (intf : Name) (sys : ConnectSyscalls) (k : Trace) :
    (∃ ex, connectToServer intf sys k = (.error (.failure (.throw ex)), k)) ∨
    ∃ (fd : Nat) (k' : Trace), sys.socket = .ok fd ∧ k'.opened = k.opened ++ [(fd : Int)] ∧ k'.closed = k.closed ∧
      (Passes fd k' (connectToServer intf sys k) ∨
        (IFNAMSIZ ≤ intf.length ∨ ∃ family, sys.getIfAddr = .ok family ∧ family ≠ AF_INET) ∧
          ∃ e, (∀ ex, e ≠ .failure (.throw ex)) ∧ connectToServer intf sys k = (.error e, k')) := by
  unfold connectToServer
  cases hs : sys.socket with
  | error errno =>
    obtain ⟨ex, hex⟩ := openDescriptor_error s!"Server on {intf.text}" errno k
    exact .inl ⟨ex, bind_error hex⟩
  | ok fd =>
    rw [bind_ok (openDescriptor_ok s!"Server on {intf.text}" fd k)]
    by_cases hfits : intf.length < IFNAMSIZ
    · refine .inr ⟨fd, { k with opened := k.opened ++ [(fd : Int)], copied := k.copied ++ [intf.length + 1] }, rfl, rfl, rfl, ?_⟩
      have hcopy := fun {α : Type} (f : Unit → Routine α) =>
        bind_ok (f := f) (strcpy_fits hfits { k with opened := k.opened ++ [(fd : Int)] })
      have hfd : (0 : Int) ≤ (⟨s!"Server on {intf.text}", fd⟩ : FileDescriptor).fd := Int.natCast_nonneg fd
      cases hg : sys.getIfAddr with
      | error errno => exact .inl (passes_throw hfd (hcopy _)).1
      | ok family =>
        by_cases hfam : family = AF_INET
        · subst hfam
          cases ho : sys.setsockopt with
          | error errno => exact .inl (passes_throw hfd (hcopy _)).1
          | ok a =>
            cases hc : sys.connect with
            | error errno => exact .inl (passes_throw hfd (hcopy _)).1
            | ok a =>
              left
              rw [passes_on (hcopy _)]
              exact .on rfl
        · have hrassert : ∀ k, rassert (decide (family = AF_INET)) "ifr.ifr_ifru.ifru_addr.sa_family == AF_INET" k =
              (.error (.failure (.abort "ifr.ifr_ifru.ifru_addr.sa_family == AF_INET")), k) := fun k => by
            rw [decide_eq_false hfam]
            rfl
          refine .inr ⟨.inr ⟨family, rfl, hfam⟩,
            .failure (.abort "ifr.ifr_ifru.ifru_addr.sa_family == AF_INET"), by simp, ?_⟩
          exact withScoped_stop (by simp) ((hcopy _).trans ((bind_ok (syscall_ok _ _ _)).trans (bind_error (hrassert _))))
    · refine .inr ⟨fd, { k with opened := k.opened ++ [(fd : Int)], copied := k.copied ++ [intf.length + 1] }, rfl, rfl, rfl,
        .inr ⟨.inl (Nat.not_lt.1 hfits), .overrun, by simp, ?_⟩⟩
      exact withScoped_stop (by simp) (bind_error (strcpy_overrun (Nat.not_lt.1 hfits) _))

/-- An address is of the family asked for, and no socket is descriptor 0. -/
def ClientSocketsEvent.Plain : ClientSocketsEvent → Prop
  | .connect sys => sys.socket ≠ .ok 0 ∧ ∀ family, sys.getIfAddr = .ok family → family = AF_INET
  | _ => True

/-- The loop is at an `addSocket`. -/
def Client.Adding (c : Client) : Prop := ∃ i, c.loop = .adding i

/-- The head of the inner loop is before any. -/
theorem Client.head_adding {interfaces : List String} (c : Client) (i : Nat) : ¬ (c.head interfaces i).Adding := by
  intro hex
  obtain ⟨j, hj⟩ := hex
  unfold Client.head at hj
  simp only at hj
  split at hj <;> cases hj

theorem Client.adding_iff {interfaces : List String} {c c' : Client} {ev : ConnectEvent}
    (h : c.step interfaces ev = some c') : c'.Adding ↔ ev = .connect (.ok ()) := by
  have hcaught : ∀ ex, ¬ (c.caught ex).Adding := fun ex hex => by
    obtain ⟨i, hi⟩ := hex
    rcases Client.caught_loop ex with hl | hl <;> rw [hl] at hi <;> cases hi
  cases ev with
  | connect res =>
    cases hl : c.loop with
    | connecting i =>
      cases res <;> simp only [Client.step, hl, Option.some.injEq] at h <;> subst h
      · exact iff_of_false (hcaught _) (by simp)
      · exact iff_of_true ⟨i, rfl⟩ rfl
    | _ => simp [Client.step, hl] at h
  | add res =>
    cases hl : c.loop with
    | adding i =>
      cases res <;> simp only [Client.step, hl, Option.some.injEq] at h <;> subst h
      · exact iff_of_false (hcaught _) (by simp)
      · exact iff_of_false (Client.head_adding _ _) (by simp)
    | _ => simp [Client.step, hl] at h
  | tau =>
    cases hl : c.loop with
    | sleeping | waitForExit =>
      simp only [Client.step, hl, Option.some.injEq] at h
      subst h
      first
        | exact iff_of_false (Client.head_adding _ _) (by simp)
        | exact iff_of_false (fun hex => by obtain ⟨i, hi⟩ := hex; cases hi) (by simp)
    | _ => simp [Client.step, hl] at h

namespace ClientSockets

variable {interfaces : List Name} {c c' : ClientSockets} {ev : ClientSocketsEvent}

/-- The invariant, while the process runs: open are the socket in hand and those
posted, and there is one in hand exactly at an `addSocket`. -/
structure Inv (c : ClientSockets) : Prop where
  opened : c.trace.Open (c.connected.toList.map (·.fd) ++ c.posted.map (·.fd))
  adding : c.connected.isSome = true ↔ c.client.Adding
  valid : ∀ d, c.connected = some d → 0 ≤ d.fd

/-- The loop's own step, where there is a socket in hand exactly if one was just
connected. -/
theorem Inv.advance (h : c.trace.Open (c.connected.toList.map (·.fd) ++ c.posted.map (·.fd)))
    (hv : ∀ d, c.connected = some d → 0 ≤ d.fd) {ev : ConnectEvent}
    (hc : c.connected.isSome = true ↔ ev = .connect (.ok ())) (hs : c.advance interfaces ev = some c') :
    c'.Inv ∧ c'.stopped = c.stopped ∧ c'.connected = c.connected := by
  obtain ⟨client, hst, rfl⟩ := Option.map_eq_some_iff.1 hs
  exact ⟨⟨h, hc.trans (Client.adding_iff hst).symm, hv⟩, rfl, rfl⟩

/-- The socket in hand is not descriptor 0. -/
def Positive (c : ClientSockets) : Prop := ∀ d, c.connected = some d → d.fd ≠ 0

/-- What a step comes to: the invariant, or the end of the process. -/
def Goes (interfaces : List Name) (c : ClientSockets) (ev : ClientSocketsEvent) (c' : ClientSockets) : Prop :=
  (c'.stopped = c.stopped ∧ c'.Inv ∧ (ev.Plain → c.Positive → c'.Positive)) ∨
    c'.stopped ≠ none ∧ ((∃ intf ∈ interfaces, IFNAMSIZ ≤ intf.length) ∨ ¬ ev.Plain ∨ ¬ c.Positive)

/-- Nothing is in hand before a connection. -/
theorem Inv.next (h : c.Inv) {intf : Name} (hn : c.next interfaces = some intf) : c.connected = none ∧ intf ∈ interfaces := by
  unfold ClientSockets.next at hn
  split at hn
  · rename_i loop i hl
    refine ⟨?_, List.mem_of_getElem? hn⟩
    by_contra hne
    obtain ⟨j, hj⟩ := h.adding.1 (Option.isSome_iff_ne_none.2 hne)
    rw [hl] at hj
    cases hj
  · cases hn

theorem Inv.connect (h : c.Inv) {sys : ConnectSyscalls} (hs : c.step interfaces (.connect sys) = some c') :
    c.Goes interfaces (.connect sys) c' := by
  simp only [step] at hs
  cases hn : c.next interfaces with
  | none => simp [hn] at hs
  | some intf =>
    obtain ⟨hnone, hmem⟩ := h.next hn
    have hopen : c.trace.Open (c.posted.map (·.fd)) := by simpa [hnone] using h.opened
    simp only [hn] at hs
    rcases connectToServer_cases intf sys c.trace with ⟨ex, he⟩ | ⟨fd, k', hsock, ho, hc, hpass | ⟨hcause, e, hne, he⟩⟩
    · simp only [he] at hs
      obtain ⟨hinv, hstop, hconn⟩ := Inv.advance (by exact h.opened) (by exact h.valid) (by simp [hnone]) hs
      exact .inl ⟨hstop, hinv, fun _ hpos d hd => hpos d (hconn ▸ hd)⟩
    · generalize connectToServer intf sys c.trace = r at hpass hs
      cases hpass with
      | @on d hd =>
        obtain ⟨hinv, hstop, hconn⟩ := Inv.advance
          (by simpa [hd] using hopen.opens ho hc) (by simp [hd]) (by simp) hs
        refine .inl ⟨hstop, hinv, fun hplain _ d' hd' => ?_⟩
        rw [hconn] at hd'
        cases hd'
        rw [hd]
        exact fun hz => hplain.1 (by rw [hsock, Int.natCast_eq_zero.1 hz])
      | closed hpos =>
        obtain ⟨hinv, hstop, hconn⟩ := Inv.advance
          (by simpa [hnone] using (hopen.opens ho hc).closes) (by exact h.valid) (by simp [hnone]) hs
        exact .inl ⟨hstop, hinv, fun _ hpos d hd => hpos d (hconn ▸ hd)⟩
      | aborted hzero =>
        cases hs
        refine .inr ⟨by simp, .inr (.inl fun hplain => hplain.1 ?_)⟩
        rw [hsock, Int.natCast_eq_zero.1 hzero]
    · rw [he] at hs
      have hc' : c' = { c with trace := k', stopped := some e } := by
        split at hs
        · rename_i heq
          cases heq
        · rename_i ex _ heq
          cases heq
          exact absurd rfl (hne ex)
        · rename_i heq
          cases heq
          exact (Option.some.inj hs).symm
      rw [hc']
      refine .inr ⟨by simp, ?_⟩
      rcases hcause with hlong | ⟨family, hg, hfam⟩
      · exact .inl ⟨intf, hmem, hlong⟩
      · exact .inr (.inl fun hplain => hfam (hplain.2 family hg))

theorem Inv.add (h : c.Inv) {sys : AddSyscalls} (hs : c.step interfaces (.add sys) = some c') :
    c.Goes interfaces (.add sys) c' := by
  simp only [step] at hs
  cases hd : c.connected with
  | none => simp [hd] at hs
  | some sock =>
    have hopen : c.trace.Open (sock.fd :: c.posted.map (·.fd)) := by simpa [hd] using h.opened
    have hpass := (addSocket_cases (h.valid sock hd) sys c.trace).1
    simp only [hd] at hs
    generalize addSocket sock sys c.trace = r at hpass hs
    cases hpass with
    | @on d hfd =>
      obtain ⟨hinv, hstop, hconn⟩ := Inv.advance
        (by simpa [hfd] using hopen.perm (List.perm_append_singleton _ _).symm) (by simp) (by simp) hs
      exact .inl ⟨hstop, hinv, fun _ _ d' hd' => by rw [hconn] at hd'; cases hd'⟩
    | closed hpos =>
      obtain ⟨hinv, hstop, hconn⟩ := Inv.advance (by simpa using hopen.closes) (by simp) (by simp) hs
      exact .inl ⟨hstop, hinv, fun _ _ d' hd' => by rw [hconn] at hd'; cases hd'⟩
    | aborted hzero =>
      cases hs
      exact .inr ⟨by simp, .inr (.inr fun hpos => hpos sock hd hzero)⟩

theorem Inv.step (h : c.Inv) (hs : c.step interfaces ev = some c') : c.Goes interfaces ev c' := by
  cases ev with
  | connect sys => exact h.connect hs
  | add sys => exact h.add hs
  | tau =>
    have hloop : c.connected = none := by
      by_contra hne
      obtain ⟨i, hi⟩ := h.adding.1 (Option.isSome_iff_ne_none.2 hne)
      simp [ClientSockets.step, ClientSockets.advance, Client.step, hi] at hs
    obtain ⟨hinv, hstop, hconn⟩ := Inv.advance h.opened h.valid (by simp [hloop]) hs
    exact .inl ⟨hstop, hinv, fun _ hpos d hd => hpos d (hconn ▸ hd)⟩

theorem Inv.start : (start interfaces).Inv where
  opened := List.Perm.refl _
  adding := iff_of_false (by simp [ClientSockets.start]) (Client.head_adding _ 0)
  valid := fun _ hd => nomatch hd

end ClientSockets

/-- **What the client connects is posted or closed, once.** In every run of its
loop, through all refusals and failures, the descriptors that are open are those
posted and, at an `addSocket`, the one in hand; so at its end, and while it sleeps
or waits, nothing is left open that no task has. And the process goes on if every
name fits, every address is an IPv4 one and no socket is descriptor 0. -/
theorem client_posts_or_closes {interfaces : List Name} {tr : List (Transition ClientSockets ClientSocketsEvent)}
    {c : ClientSockets} (h : (clientSockets interfaces).Run tr c) :
    (c.stopped = none → c.trace.Open (c.connected.toList.map (·.fd) ++ c.posted.map (·.fd)) ∧
      (c.connected.isSome = true ↔ c.client.Adding)) ∧
    ((∀ intf ∈ interfaces, intf.length < IFNAMSIZ) → (∀ t ∈ tr, t.label.Plain) → c.stopped = none) := by
  have hinv : c.stopped = none → c.Inv := by
    refine h.reachable.invariant (I := fun c : ClientSockets => c.stopped = none → c.Inv) ?_ ?_
    · intro c hc _
      subst hc
      exact .start
    · intro c ev c' _ hI hs hrun
      rcases (hI hs.1).step hs.2 with ⟨-, hinv, -⟩ | ⟨hstop, -⟩
      · exact hinv
      · exact absurd hrun hstop
  refine ⟨fun hrun => ⟨(hinv hrun).opened, (hinv hrun).adding⟩, fun hfits hplain => ?_⟩
  refine (h.guarded (I := fun c : ClientSockets => c.stopped = none ∧ c.Inv ∧ c.Positive) (C := fun t => t.label.Plain)
    ?_ ?_ hplain).1.1
  · intro c hc
    subst hc
    exact ⟨rfl, .start, fun _ hd => nomatch hd⟩
  · intro c ev c' _ hI hC hs
    rcases hI.2.1.step hs.2 with ⟨hstop, hinv, hpos⟩ | ⟨-, hcause⟩
    · exact ⟨hstop.trans hI.1, hinv, hpos hC hI.2.2⟩
    · rcases hcause with ⟨intf, hmem, hlong⟩ | hno | hno
      · exact absurd (hfits intf hmem) (Nat.not_lt.2 hlong)
      · exact absurd hC hno
      · exact absurd hI.2.2 hno

/-- A run, and one event more. -/
theorem client_event {interfaces : List Name} {tr : List (Transition ClientSockets ClientSocketsEvent)}
    {c c' : ClientSockets} (h : (clientSockets interfaces).Run tr c) (ev : ClientSocketsEvent) (hrun : c.stopped = none)
    (hs : c.step interfaces ev = some c') : (clientSockets interfaces).Run (tr ++ [⟨c, ev, c'⟩]) c' := .step h ⟨hrun, hs⟩

/-- The first `connect` is refused, the second socket cannot be configured. -/
theorem client_posts_or_closes_refused : ∃ tr c, (clientSockets [eth0]).Run tr c ∧ c.client.loop = .ended ∧
    c.trace.opened = [8, 8] ∧ c.trace.Open [] ∧ c.stopped = none := by
  have h : (clientSockets [eth0]).Run [] (.start [eth0]) := .init rfl
  have h := client_event h (.connect { connectWorks with connect := .error ECONNREFUSED }) rfl rfl
  have h := client_event h .tau rfl rfl
  have h := client_event h (.connect connectWorks) rfl rfl
  have h := client_event h (.add addFails) rfl rfl
  obtain ⟨hopen, hgoes⟩ := client_posts_or_closes h
  refine ⟨_, _, h, rfl, rfl, (hopen rfl).1, hgoes (by decide) ?_⟩
  simp only [List.nil_append, List.cons_append, List.forall_mem_cons, List.not_mem_nil, false_implies, implies_true,
    and_true]
  have hworks : ∀ connect, (ClientSocketsEvent.connect { connectWorks with connect }).Plain :=
    fun connect => ⟨by simp [connectWorks], fun family hf => (Except.ok.inj hf).symm⟩
  exact ⟨hworks _, trivial, hworks _, trivial⟩

end RuralPipe
