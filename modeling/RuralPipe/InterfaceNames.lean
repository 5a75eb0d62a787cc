/-
Names of interfaces on their way into `ifr_name` (`common/tun_ctl.cpp`,
`client/client_main.cpp`).

Three functions copy a name into a field of `IFNAMSIZ` bytes with `strcpy`. The
tunnel's constructor checks the length of a string it has moved from, and
`_connectToServer` checks none, so a copy stays in its field exactly where the
name does, or where `::socket` fails before it.

`clientProcess` is the client from the construction of its tunnel device through
any outcomes of its connect loop, with each use of a name on the way.
-/
import RuralPipe.ConnectLoop
import RuralPipe.TunCtl

namespace RuralPipe

open Machine Routine

def AF_INET : Nat := 2

/-- What the calls of `_connectToServer` return; `SIOCGIFADDR` a family. -/
structure ConnectSyscalls where
  socket : Syscall Nat
  getIfAddr : Syscall Nat
  setsockopt : Syscall Nat
  connect : Syscall Nat

def connectToServer (interface : Name) (sys : ConnectSyscalls) : Routine FileDescriptor := do
  let sock ← openDescriptor s!"Server on {interface.text}" sys.socket
  withScoped sock do
    strcpy interface
    let family ← syscall "::ioctl(sock, SIOCGIFADDR, &ifr)" sys.getIfAddr
    rassert (family = AF_INET) "ifr.ifr_ifru.ifru_addr.sa_family == AF_INET"
    let _ ← syscall "::setsockopt(sock, SOL_SOCKET, SO_BINDTODEVICE, interface.c_str(), interface.size())"
      sys.setsockopt
    let _ ← syscall "::connect(sock, (struct sockaddr *)&_serverAddr, sizeof(_serverAddr))" sys.connect
    return sock.moveConstruct

/-- A call of a function that copies `name`: what each copy wrote, and what the
call stopped with, if it did not return. -/
structure NameUse where
  name : Name
  copied : List Nat
  stopped : Option Stop

def NameUse.of {α : Type} (name : Name) (x : Routine α) : NameUse where
  name := name
  copied := (x .start).2.copied
  stopped := match (x .start).1 with
    | .ok _ => none
    | .error e => some e

/-- Every copy stays in its field, and for a name that does not fit an exception
comes before any. -/
def NameUse.Bounded (u : NameUse) : Prop :=
  (∀ n ∈ u.copied, n ≤ IFNAMSIZ) ∧
  (IFNAMSIZ ≤ u.name.length → u.copied = [] ∧ ∃ ex, u.stopped = some (.failure (.throw ex)))

/-- The connect loop, while the client is in it, and the uses of names so far. -/
structure ClientProcess where
  loop : Option Client
  uses : List NameUse

inductive ClientEvent
  | connect (sys : ConnectSyscalls)
  | add (res : Except Exception Unit)
  | tau

namespace ClientProcess

/-- The number of queues `Context::start` sets. -/
def nqueues (configured : Int) (interfaces : List Name) : Int :=
  if configured = 0 then interfaces.length else configured

/-- `clientMain` up to its connect loop; an exception leaves it. -/
def clientMain (tunnel : Name) (interfaces : List Name) (configured : Int) (sys : TunSyscalls) (mtu : MtuSyscalls) :
    ClientProcess :=
  let construct := TunCtl.construct tunnel (nqueues configured interfaces) sys
  match (construct .start).1 with
  | .error _ => { loop := none, uses := [.of tunnel construct] }
  | .ok tun =>
    let getMTU := tun.getMTU mtu
    match (getMTU .start).1 with
    | .error _ => { loop := none, uses := [.of tunnel construct, .of tunnel getMTU] }
    | .ok _ =>
      { loop := some (.start (interfaces.map Name.text)), uses := [.of tunnel construct, .of tunnel getMTU] }

/-- The interface whose `_connectToServer` is next. -/
def next (interfaces : List Name) (p : ClientProcess) : Option Name :=
  match p.loop with
  | some { loop := .connecting i, .. } => interfaces[i]?
  | _ => none

/-- The connect loop's own step. -/
def advance (interfaces : List Name) (p : ClientProcess) (ev : ConnectEvent) : Option ClientProcess :=
  p.loop.bind fun c => (c.step (interfaces.map Name.text) ev).map fun c' => { p with loop := some c' }

def step (interfaces : List Name) (p : ClientProcess) : ClientEvent → Option ClientProcess
  | .connect sys =>
    match p.next interfaces with
    | none => none
    | some intf =>
      let x := connectToServer intf sys
      let p' := { p with uses := p.uses ++ [NameUse.of intf x] }
      match (x .start).1 with
      | .ok _ => p'.advance interfaces (.connect (.ok ()))
      | .error (.failure (.throw ex)) => p'.advance interfaces (.connect (.error ex))
      | .error _ => some { p' with loop := none }
  | .add res => p.advance interfaces (.add res)
  | .tau => p.advance interfaces .tau

end ClientProcess

/-- The client with this tunnel name and these interfaces, whatever the system
calls return. -/
def clientProcess (tunnel : Name) (interfaces : List Name) : Machine ClientProcess ClientEvent where
  init p := ∃ configured sys mtu, p = .clientMain tunnel interfaces configured sys mtu
  step p ev p' := p.step interfaces ev = some p'

/-! ## One use of a name -/

/-- Every copy so far stayed in its field. -/
def InField (k : Trace) : Prop := ∀ n ∈ k.copied, n ≤ IFNAMSIZ

theorem inField_start : InField .start := fun n hn => by cases hn

theorem inField_open {desc : String} {res : Syscall Nat} : Ensures InField (openDescriptor desc res) fun _ => True := by
  intro k hk
  cases res <;> exact ⟨hk, fun _ _ => trivial⟩

theorem inField_strcpy {name : Name} (h : name.length < IFNAMSIZ) : Ensures InField (strcpy name) fun _ => True := by
  intro k hk
  rw [strcpy_fits h]
  refine ⟨fun n hn => ?_, fun _ _ => trivial⟩
  rcases List.mem_append.1 hn with hn | hn
  · exact hk n hn
  · rw [List.mem_singleton.1 hn]
    exact h

theorem inField_getMTU {tun : TunCtl} (h : tun.deviceName.length < IFNAMSIZ) (sys : MtuSyscalls) :
    Ensures InField (tun.getMTU sys) fun _ => True := by
  refine inField_open.bind fun sock _ => ensures_withScoped ?_ fun k fd hk => hk
  exact (inField_strcpy h).bind fun _ _ => (ensures_syscall _ _).bind fun mtu _ => ensures_pure trivial

theorem inField_openQueues (sys : TunSyscalls) (n i : Nat) (tun : TunCtl) :
    Ensures InField (TunCtl.openQueues sys tun n i) fun tun' => tun'.deviceName = tun.deviceName := by
  induction n generalizing i tun with
  | zero => exact ensures_pure rfl
  | succ n ih => exact inField_open.bind fun fd _ => (ensures_syscall _ _).bind fun _ _ => ih (i + 1) _

theorem inField_construct {name : Name} (h : name.length < IFNAMSIZ) (numQueues : Int) (sys : TunSyscalls) :
    Ensures InField (TunCtl.construct name numQueues sys) fun tun => tun.deviceName = name := by
  intro k hk
  rw [TunCtl.construct_fits h]
  have hk' := (inField_strcpy h k hk).1
  rw [strcpy_fits h] at hk'
  refine ((inField_openQueues sys numQueues.toNat 0 { deviceName := name, fds := [] }).bind fun tun htun => ?_) _ hk'
  exact (inField_getMTU (htun ▸ h) sys.mtu).bind fun _ _ => ensures_pure htun

theorem inField_connectToServer {intf : Name} (h : intf.length < IFNAMSIZ) (sys : ConnectSyscalls) :
    Ensures InField (connectToServer intf sys) fun _ => True := by
  refine inField_open.bind fun sock _ => ensures_withScoped ?_ fun k fd hk => hk
  refine (inField_strcpy h).bind fun _ _ => (ensures_syscall _ _).bind fun _ _ =>
    (ensures_rassert _ _).bind fun _ _ => ?_
  exact (ensures_syscall _ _).bind fun _ _ => (ensures_syscall _ _).bind fun _ _ => ensures_pure trivial

namespace NameUse

variable {α : Type} {name : Name} {x : Routine α} {Q : α → Prop}

/-- With a name that fits there is nothing but the copies to look at. -/
theorem bounded_of_fits (h : name.length < IFNAMSIZ) (hx : Ensures InField x Q) : (NameUse.of name x).Bounded :=
  ⟨(hx .start inField_start).1, fun hlong => absurd h (Nat.not_lt.2 hlong)⟩

/-- With another, no copy may come. -/
theorem not_bounded_of_copy (h : IFNAMSIZ ≤ name.length) (hx : (x .start).2.copied ≠ []) :
    ¬ (NameUse.of name x).Bounded := fun hb => hx (hb.2 h).1

theorem construct_bounded_iff (tunnel : Name) (numQueues : Int) (sys : TunSyscalls) :
    (NameUse.of tunnel (TunCtl.construct tunnel numQueues sys)).Bounded ↔ tunnel.length < IFNAMSIZ := by
  constructor
  · intro hb
    by_contra hlong
    refine not_bounded_of_copy (Nat.not_lt.1 hlong) ?_ hb
    rw [TunCtl.construct_overrun (Nat.not_lt.1 hlong)]
    exact List.cons_ne_nil _ _
  · exact fun h => bounded_of_fits h (inField_construct h numQueues sys)

theorem connectToServer_bounded_iff (intf : Name) (sys : ConnectSyscalls) :
    (NameUse.of intf (connectToServer intf sys)).Bounded ↔
      intf.length < IFNAMSIZ ∨ ∃ errno, sys.socket = .error errno := by
  constructor
  · intro hb
    by_contra hn
    rw [not_or, Nat.not_lt] at hn
    obtain ⟨hlong, hsock⟩ := hn
    cases hs : sys.socket with
    | error errno => exact hsock ⟨errno, hs⟩
    | ok fd =>
      refine not_bounded_of_copy hlong ?_ hb
      rw [connectToServer, hs, bind_ok (openDescriptor_ok _ fd _),
        withScoped_stop (fun ex hex => by cases hex) (bind_error (strcpy_overrun hlong _))]
      exact List.cons_ne_nil _ _
  · intro h
    rcases h with h | ⟨errno, hs⟩
    · exact bounded_of_fits h (inField_connectToServer h sys)
    · obtain ⟨ex, hex⟩ := openDescriptor_error s!"Server on {intf.text}" errno .start
      have hrun : connectToServer intf sys .start = (.error (.failure (.throw ex)), .start) := by
        rw [connectToServer, hs, bind_error hex]
      refine ⟨?_, fun _ => ⟨?_, ex, ?_⟩⟩
      · simp only [NameUse.of, hrun]
        exact inField_start
      · simp only [NameUse.of, hrun]
        rfl
      · simp only [NameUse.of, hrun]

end NameUse

/-! ## The client -/

namespace ClientProcess

variable {interfaces : List Name} {p p' : ClientProcess} {ev : ClientEvent} {tunnel : Name}

/-- Where the step copies a name, the name fits; or `::socket` fails before. -/
def Fits (interfaces : List Name) (t : Transition ClientProcess ClientEvent) : Prop :=
  match t.label with
  | .connect sys => ∀ intf, t.pre.next interfaces = some intf →
    intf.length < IFNAMSIZ ∨ ∃ errno, sys.socket = .error errno
  | _ => True

def Bounded (p : ClientProcess) : Prop := ∀ u ∈ p.uses, u.Bounded

theorem advance_uses {ev : ConnectEvent} (h : p.advance interfaces ev = some p') : p'.uses = p.uses := by
  simp only [advance, Option.bind_eq_some_iff, Option.map_eq_some_iff] at h
  obtain ⟨c, -, c', -, rfl⟩ := h
  rfl

/-- A step uses the name of the interface it connects on, and no other. -/
theorem step_uses (h : p.step interfaces ev = some p') :
    (∃ sys intf, ev = .connect sys ∧ p.next interfaces = some intf ∧
      p'.uses = p.uses ++ [NameUse.of intf (connectToServer intf sys)]) ∨
    (∀ sys, ev ≠ .connect sys) ∧ p'.uses = p.uses := by
  cases ev with
  | connect sys =>
    simp only [step] at h
    cases hn : p.next interfaces with
    | none => simp [hn] at h
    | some intf =>
      simp only [hn] at h
      refine .inl ⟨sys, intf, rfl, rfl, ?_⟩
      split at h
      · exact advance_uses h
      · exact advance_uses h
      · cases h
        rfl
  | add res => exact .inr ⟨by simp, advance_uses h⟩
  | tau => exact .inr ⟨by simp, advance_uses h⟩

theorem bounded_step (h : p.step interfaces ev = some p') :
    p'.Bounded ↔ p.Bounded ∧ Fits interfaces ⟨p, ev, p'⟩ := by
  rcases step_uses h with ⟨sys, intf, rfl, hn, hu⟩ | ⟨hev, hu⟩
  · have hfits : Fits interfaces ⟨p, .connect sys, p'⟩ ↔ (NameUse.of intf (connectToServer intf sys)).Bounded := by
      rw [NameUse.connectToServer_bounded_iff]
      simp [Fits, hn]
    rw [hfits]
    simp only [Bounded, hu, List.mem_append, List.mem_singleton]
    constructor
    · exact fun hb => ⟨fun u hu => hb u (.inl hu), hb _ (.inr rfl)⟩
    · intro hb u hu
      rcases hu with hu | rfl
      · exact hb.1 u hu
      · exact hb.2
  · have hfits : Fits interfaces ⟨p, ev, p'⟩ := by
      cases ev with
      | connect sys => exact absurd rfl (hev sys)
      | _ => trivial
    simp only [Bounded, hu, hfits, and_true]

/-- Before the loop it is the tunnel's name that counts. -/
theorem bounded_clientMain (configured : Int) (sys : TunSyscalls) (mtu : MtuSyscalls) :
    (clientMain tunnel interfaces configured sys mtu).Bounded ↔ tunnel.length < IFNAMSIZ := by
  have hconstruct := NameUse.construct_bounded_iff tunnel (nqueues configured interfaces) sys
  unfold clientMain
  simp only
  split
  · rw [← hconstruct]
    exact List.forall_mem_singleton
  · rename_i tun htun
    have hgetMTU : tunnel.length < IFNAMSIZ → (NameUse.of tunnel (tun.getMTU mtu)).Bounded := by
      intro h
      have hname := (inField_construct h (nqueues configured interfaces) sys .start inField_start).2 tun htun
      exact NameUse.bounded_of_fits h (inField_getMTU (hname ▸ h) mtu)
    split <;>
    · rw [← hconstruct]
      constructor
      · exact fun hb => hb _ (List.mem_cons_self ..)
      · intro hb u hu
        rcases List.mem_cons.1 hu with rfl | hu
        · exact hb
        · rw [List.mem_singleton.1 hu]
          exact hgetMTU (hconstruct.1 hb)

end ClientProcess

open ClientProcess

/-- **Interface names stay in their fields exactly in the runs of the client whose
names fit**: the tunnel's has at most 15 bytes, and so has each interface's on
which a socket is opened. -/
theorem names_bounded_iff {tunnel : Name} {interfaces : List Name} {tr : List (Transition ClientProcess ClientEvent)}
    {p : ClientProcess} (h : (clientProcess tunnel interfaces).Run tr p) :
    (∀ u ∈ p.uses, u.Bounded) ↔ tunnel.length < IFNAMSIZ ∧ ∀ t ∈ tr, Fits interfaces t := by
  induction h with
  | init hi =>
    obtain ⟨configured, sys, mtu, rfl⟩ := hi
    refine (bounded_clientMain configured sys mtu).trans ?_
    simp
  | @step tr p ev p' hr hs ih =>
    refine (bounded_step hs).trans ?_
    rw [show p.Bounded ↔ _ from ih, List.forall_mem_append, List.forall_mem_singleton, and_assoc]

/-- `"eth0"`, and a name of 16 bytes. -/
def eth0 : Name := ⟨[101, 116, 104, 48], by decide⟩
def longName : Name := ⟨List.replicate 16 97, by decide⟩

def tunWorks : TunSyscalls := ⟨fun i => .ok (i + 5), fun _ => .ok 0, .ok 7, .ok 1500⟩
def mtuWorks : MtuSyscalls := ⟨.ok 7, .ok 1500⟩
def connectWorks : ConnectSyscalls := ⟨.ok 8, .ok AF_INET, .ok 0, .ok 0⟩

/-- A run, and one event more. -/
theorem client_step {tunnel : Name} {interfaces : List Name} {tr : List (Transition ClientProcess ClientEvent)}
    {p p' : ClientProcess} (h : (clientProcess tunnel interfaces).Run tr p) (ev : ClientEvent)
    (hs : p.step interfaces ev = some p') : (clientProcess tunnel interfaces).Run (tr ++ [⟨p, ev, p'⟩]) p' := .step h hs

/-- The names of the default configuration. -/
theorem names_bounded_eth0 : ∃ tr p, (clientProcess tun0 [eth0]).Run tr p ∧ p.uses.map (·.copied) = [[5, 5], [5], [5]] ∧
    ∀ u ∈ p.uses, u.Bounded := by
  have h₀ : (clientProcess tun0 [eth0]).Run [] (clientMain tun0 [eth0] 0 tunWorks mtuWorks) := .init ⟨_, _, _, rfl⟩
  have h₁ := client_step h₀ (.connect connectWorks) rfl
  refine ⟨_, _, h₁, rfl, (names_bounded_iff h₁).2 ⟨by decide, fun t ht => ?_⟩⟩
  rw [List.nil_append, List.mem_singleton] at ht
  subst ht
  intro intf hintf
  cases hintf
  exact .inl (by decide)

/-- A tunnel's name of 16 bytes, and an interface's, are copied with their
terminator. -/
theorem not_names_bounded :
    (∃ tr p, (clientProcess longName [eth0]).Run tr p ∧ p.uses.map (·.copied) = [[17]] ∧ ¬ ∀ u ∈ p.uses, u.Bounded) ∧
    ∃ tr p, (clientProcess tun0 [longName]).Run tr p ∧ p.uses.map (·.copied) = [[5, 5], [5], [17]] ∧
      ¬ ∀ u ∈ p.uses, u.Bounded := by
  constructor
  · have h₀ : (clientProcess longName [eth0]).Run [] (clientMain longName [eth0] 0 tunWorks mtuWorks) :=
      .init ⟨_, _, _, rfl⟩
    refine ⟨_, _, h₀, rfl, fun hb => ?_⟩
    exact absurd ((hb _ (List.mem_cons_self ..)).1 17 (List.mem_cons_self ..)) (by decide)
  · have h₀ : (clientProcess tun0 [longName]).Run [] (clientMain tun0 [longName] 0 tunWorks mtuWorks) :=
      .init ⟨_, _, _, rfl⟩
    have h₁ := client_step h₀ (.connect connectWorks) rfl
    refine ⟨_, _, h₁, rfl, fun hb => ?_⟩
    exact absurd ((hb _ (List.mem_append_right _ (List.mem_singleton_self _))).1 17 (List.mem_cons_self ..)) (by decide)

end RuralPipe
