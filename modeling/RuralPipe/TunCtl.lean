/-
The tunnel device (`common/tun_ctl.cpp`).

Its constructor opens a descriptor for each queue, configures it, and at the end
asks for the MTU through a socket of its own. That socket is a
`ScopedFileDescriptor` and is closed on every way out (`getMTU_cases`); the queues
are `FileDescriptor`s, which own nothing, and what the loop opened stays open
(`openQueues_cases`), whether a later call throws or the device is destroyed.

A `strcpy` past `ifr_name` ends the model's run: the language promises nothing
about what follows.
-/
import RuralPipe.SystemCalls

namespace RuralPipe

open Routine

/-- What the calls of `getMTU` return. -/
structure MtuSyscalls where
  socket : Syscall Nat
  getMtu : Syscall Nat

/-- What `::open` and the `TUNSETIFF` call return at each turn of the
constructor's loop, and what its `getMTU` gets. -/
structure TunSyscalls where
  openTun : Nat → Syscall Nat
  setIff : Nat → Syscall Nat
  mtu : MtuSyscalls

structure TunCtl where
  deviceName : Name
  fds : List FileDescriptor

namespace TunCtl

def systemTunnelDevice : String := "/dev/net/tun"

def getMTU (tun : TunCtl) (sys : MtuSyscalls) : Routine Nat := do
  let sock ← openDescriptor "MTU check socket" sys.socket
  withScoped sock do
    strcpy tun.deviceName
    let mtu ← syscall "::ioctl(sock, SIOCGIFMTU, (void *)&ifr)" sys.getMtu
    return (mtu, sock)

/-- The constructor's loop, with `n` turns left from the `i`-th. -/
def openQueues (sys : TunSyscalls) (tun : TunCtl) : (n i : Nat) → Routine TunCtl
  | 0, _ => pure tun
  | n + 1, i => do
    let fd ← openDescriptor systemTunnelDevice (sys.openTun i)
    let _ ← syscall "Error configuring tunnel device" (sys.setIff i)
    openQueues sys { tun with fds := tun.fds ++ [fd] } n (i + 1)

/-- The constructor. The length it checks is that of its parameter, which has been
moved from. -/
def construct (deviceName : Name) (numQueues : Int) (sys : TunSyscalls) : Routine TunCtl := do
  let tun : TunCtl := { deviceName, fds := [] }
  let deviceName := Name.empty
  if IFNAMSIZ ≤ deviceName.length then
    throw ⟨.exception, s!"Device name {deviceName.text} is too long"⟩
  strcpy tun.deviceName
  let tun ← openQueues sys tun numQueues.toNat 0
  -- for the message, which the log's filter lets through
  let _ ← getMTU tun sys.mtu
  return tun

def getQueues (tun : TunCtl) : List FileDescriptor := tun.fds

/-- The end of a vector of queues: a `FileDescriptor` does not own what it has,
and its destructor leaves it open. -/
def destroyQueues : List FileDescriptor → Routine Unit
  | [] => pure ()
  | _ :: fds => destroyQueues fds

/-- A tunnel device from its construction to its end, with the copies
`getQueues()` handed out. -/
def lifetime (deviceName : Name) (numQueues : Int) (sys : TunSyscalls) (handedOut : Nat) : Routine Unit := do
  let tun ← construct deviceName numQueues sys
  destroyQueues (List.replicate handedOut tun.getQueues).flatten
  destroyQueues tun.fds

/-- Where the device was not constructed, or is no more, every descriptor has been
closed as often as opened. -/
def LeavesNothingOpen (out : Except Stop Unit × Trace) : Prop :=
  match out.1 with
  | .ok _ | .error (.failure (.throw _)) => out.2.AllClosed
  | .error (.failure (.abort _)) | .error .overrun => True

/-- No call fails in the `n` turns from the `i`-th. -/
def Turns (sys : TunSyscalls) (n i : Nat) : Prop :=
  ∀ j < n, (∃ fd, sys.openTun (i + j) = .ok fd) ∧ ∃ x, sys.setIff (i + j) = .ok x

theorem turns_zero (sys : TunSyscalls) (i : Nat) : Turns sys 0 i := fun j hj => absurd hj (Nat.not_lt_zero j)

theorem turns_succ {sys : TunSyscalls} {n i : Nat} :
    Turns sys (n + 1) i ↔ ((∃ fd, sys.openTun i = .ok fd) ∧ ∃ x, sys.setIff i = .ok x) ∧ Turns sys n (i + 1) := by
  constructor
  · intro h
    refine ⟨h 0 (Nat.succ_pos n), fun j hj => ?_⟩
    rw [Nat.add_assoc, Nat.add_comm 1]
    exact h (j + 1) (Nat.succ_lt_succ hj)
  · intro h j hj
    cases j with
    | zero => exact h.1
    | succ j =>
      rw [← Nat.add_assoc, Nat.add_right_comm]
      exact h.2 j (Nat.lt_of_succ_lt_succ hj)

/-- What the loop opens it leaves open, whether it gets through or not. -/
theorem openQueues_cases (sys : TunSyscalls) (n i : Nat) (tun : TunCtl) (k : Trace) :
    ∃ os, (openQueues sys tun n i k).2 = { k with opened := k.opened ++ os } ∧
      (os = [] ↔ n = 0 ∨ ∃ errno, sys.openTun i = .error errno) ∧
      ((∃ ex, (openQueues sys tun n i k).1 = .error (.failure (.throw ex)) ∧ ¬ Turns sys n i) ∨
        ∃ fds, (openQueues sys tun n i k).1 = .ok { tun with fds := fds } ∧ Turns sys n i) := by
  induction n generalizing i tun k with
  | zero =>
    refine ⟨[], ?_, by simp, .inr ⟨tun.fds, rfl, turns_zero sys i⟩⟩
    rw [List.append_nil]
    rfl
  | succ n ih =>
    cases ho : sys.openTun i with
    | error errno =>
      obtain ⟨ex, hex⟩ := openDescriptor_error systemTunnelDevice errno k
      have hrun : openQueues sys tun (n + 1) i k = (.error (.failure (.throw ex)), k) := by
        rw [openQueues, ho, bind_error hex]
      rw [hrun]
      refine ⟨[], by rw [List.append_nil], by simp, .inl ⟨ex, rfl, fun ht => ?_⟩⟩
      obtain ⟨⟨⟨fd, hfd⟩, -⟩, -⟩ := turns_succ.1 ht
      rw [ho] at hfd
      cases hfd
    | ok fd =>
      cases hset : sys.setIff i with
      | error errno =>
        obtain ⟨ex, hex⟩ := syscall_error (α := Nat) "Error configuring tunnel device" errno
          { k with opened := k.opened ++ [(fd : Int)] }
        have hrun : openQueues sys tun (n + 1) i k =
            (.error (.failure (.throw ex)), { k with opened := k.opened ++ [(fd : Int)] }) := by
          rw [openQueues, ho, bind_ok (openDescriptor_ok _ fd k), hset, bind_error hex]
        rw [hrun]
        refine ⟨[(fd : Int)], rfl, by simp, .inl ⟨ex, rfl, fun ht => ?_⟩⟩
        obtain ⟨⟨-, x, hx⟩, -⟩ := turns_succ.1 ht
        rw [hset] at hx
        cases hx
      | ok x =>
        have hrun : openQueues sys tun (n + 1) i k =
            openQueues sys { tun with fds := tun.fds ++ [{ desc := systemTunnelDevice, fd := fd }] } n (i + 1)
              { k with opened := k.opened ++ [(fd : Int)] } := by
          rw [openQueues, ho, bind_ok (openDescriptor_ok _ fd k), hset, bind_ok (syscall_ok _ x _)]
        have hturns : Turns sys (n + 1) i ↔ Turns sys n (i + 1) := by
          rw [turns_succ]
          exact and_iff_right ⟨⟨fd, ho⟩, x, hset⟩
        obtain ⟨os, hos, -, hres⟩ :=
          ih (i + 1) { tun with fds := tun.fds ++ [{ desc := systemTunnelDevice, fd := fd }] }
          { k with opened := k.opened ++ [(fd : Int)] }
        rw [hrun, hturns]
        exact ⟨(fd : Int) :: os, by rw [hos]; simp, by simp, hres⟩

/-- What `getMTU` does while its socket lives. -/
theorem getMTU_body (tun : TunCtl) (sys : MtuSyscalls) (sock : FileDescriptor) (k : Trace)
    (h : tun.deviceName.length < IFNAMSIZ) :
    let body : Routine (Nat × FileDescriptor) := do
      strcpy tun.deviceName
      let mtu ← syscall "::ioctl(sock, SIOCGIFMTU, (void *)&ifr)" sys.getMtu
      return (mtu, sock)
    ∃ k', k'.opened = k.opened ∧ k'.closed = k.closed ∧
      ((∃ mtu, body k = (.ok (mtu, sock), k')) ∨ ∃ ex, body k = (.error (.failure (.throw ex)), k')) := by
  intro body
  refine ⟨{ k with copied := k.copied ++ [tun.deviceName.length + 1] }, rfl, rfl, ?_⟩
  cases hm : sys.getMtu with
  | ok mtu => exact .inl ⟨mtu, by simp only [body, bind_ok (strcpy_fits h k), hm, bind_ok (syscall_ok _ mtu _), pure_apply]⟩
  | error errno =>
    obtain ⟨ex, hex⟩ := syscall_error (α := Nat) "::ioctl(sock, SIOCGIFMTU, (void *)&ifr)" errno
      { k with copied := k.copied ++ [tun.deviceName.length + 1] }
    exact .inr ⟨ex, by simp only [body, bind_ok (strcpy_fits h k), hm, bind_error hex]⟩

/-- With a name that fits, the check of the MTU closes the socket it opened, or
aborts on descriptor 0. -/
theorem getMTU_cases (tun : TunCtl) (sys : MtuSyscalls) (k : Trace) (h : tun.deviceName.length < IFNAMSIZ) :
    (∃ errno ex, sys.socket = .error errno ∧ getMTU tun sys k = (.error (.failure (.throw ex)), k)) ∨
    (∃ c k', sys.socket = .ok 0 ∧ getMTU tun sys k = (.error (.failure (.abort c)), k')) ∨
    ∃ (fd : Nat) (k' : Trace), sys.socket = .ok fd ∧ 0 < fd ∧
      k'.opened = k.opened ++ [(fd : Int)] ∧ k'.closed = k.closed ++ [(fd : Int)] ∧
      ((∃ ex, getMTU tun sys k = (.error (.failure (.throw ex)), k')) ∨ ∃ mtu, getMTU tun sys k = (.ok mtu, k')) := by
  cases hs : sys.socket with
  | error errno =>
    obtain ⟨ex, hex⟩ := openDescriptor_error "MTU check socket" errno k
    exact .inl ⟨errno, ex, rfl, by rw [getMTU, hs, bind_error hex]⟩
  | ok fd =>
    obtain ⟨k', ho, hc, hbody⟩ := getMTU_body tun sys { desc := "MTU check socket", fd := fd }
      { k with opened := k.opened ++ [(fd : Int)] } h
    rw [getMTU, hs, bind_ok (openDescriptor_ok _ fd k)]
    rcases Nat.eq_zero_or_pos fd with rfl | hpos
    · have hzero : ({ desc := "MTU check socket", fd := (0 : Nat) } : FileDescriptor).fd = 0 := rfl
      obtain ⟨c, hc⟩ := withScoped_zero hzero hbody
      exact .inr (.inl ⟨c, k', rfl, hc⟩)
    · refine .inr (.inr ⟨fd, { k' with closed := k'.closed ++ [(fd : Int)] }, rfl, hpos, ho, by rw [hc], ?_⟩)
      have hfd : 0 < (fd : Int) := by omega
      rcases hbody with ⟨mtu, hmtu⟩ | ⟨ex, hex⟩
      · exact .inr ⟨mtu, withScoped_closes hfd hmtu⟩
      · exact .inl ⟨ex, withScoped_unwinds hfd hex⟩

/-- The constructor on a name that fits: the loop, and then the check. -/
theorem construct_fits {deviceName : Name} (h : deviceName.length < IFNAMSIZ) (numQueues : Int) (sys : TunSyscalls)
    (k : Trace) : construct deviceName numQueues sys k =
      (do
        let tun ← openQueues sys { deviceName, fds := [] } numQueues.toNat 0
        let _ ← getMTU tun sys.mtu
        return tun : Routine TunCtl) { k with copied := k.copied ++ [deviceName.length + 1] } := by
  have hempty : ¬ IFNAMSIZ ≤ Name.empty.length := by decide
  rw [construct]
  simp only [if_neg hempty]
  rw [bind_ok (strcpy_fits h k)]

/-- On a longer one nothing comes before the copy. -/
theorem construct_overrun {deviceName : Name} (h : IFNAMSIZ ≤ deviceName.length) (numQueues : Int) (sys : TunSyscalls)
    (k : Trace) : construct deviceName numQueues sys k =
      (.error .overrun, { k with copied := k.copied ++ [deviceName.length + 1] }) := by
  have hempty : ¬ IFNAMSIZ ≤ Name.empty.length := by decide
  rw [construct]
  simp only [if_neg hempty]
  rw [bind_error (strcpy_overrun h k)]

theorem destroyQueues_apply (fds : List FileDescriptor) (k : Trace) : destroyQueues fds k = (.ok (), k) := by
  induction fds with
  | nil => rfl
  | cons fd fds ih => exact ih

theorem lifetime_ok {deviceName : Name} {numQueues : Int} {sys : TunSyscalls} {k k' : Trace} {tun : TunCtl}
    (h : construct deviceName numQueues sys k = (.ok tun, k')) (handedOut : Nat) :
    lifetime deviceName numQueues sys handedOut k = (.ok (), k') := by
  rw [lifetime, bind_ok h, bind_ok (destroyQueues_apply _ k'), destroyQueues_apply]

theorem lifetime_error {deviceName : Name} {numQueues : Int} {sys : TunSyscalls} {k k' : Trace} {e : Stop}
    (h : construct deviceName numQueues sys k = (.error e, k')) (handedOut : Nat) :
    lifetime deviceName numQueues sys handedOut k = (.error e, k') := by
  rw [lifetime, bind_error h]

/-- The constructor on a name that fits. What it leaves open is what its loop
opened, whether it throws or returns; and it aborts where no call fails until the
socket of the check, which is descriptor 0. -/
theorem construct_cases {deviceName : Name} (h : deviceName.length < IFNAMSIZ) (numQueues : Int) (sys : TunSyscalls) :
    (∃ c k, construct deviceName numQueues sys .start = (.error (.failure (.abort c)), k) ∧
      Turns sys numQueues.toNat 0 ∧ sys.mtu.socket = .ok 0) ∨
    ∃ os k, k.opened = os ++ k.closed ∧ (os = [] ↔ numQueues ≤ 0 ∨ ∃ errno, sys.openTun 0 = .error errno) ∧
      ¬ (Turns sys numQueues.toNat 0 ∧ sys.mtu.socket = .ok 0) ∧
      ((∃ ex, construct deviceName numQueues sys .start = (.error (.failure (.throw ex)), k)) ∨
        ∃ tun, construct deviceName numQueues sys .start = (.ok tun, k)) := by
  rw [construct_fits h]
  generalize hk₀ : ({ Trace.start with copied := Trace.start.copied ++ [deviceName.length + 1] } : Trace) = k₀
  have hopened₀ : k₀.opened = [] := by rw [← hk₀]; rfl
  have hclosed₀ : k₀.closed = [] := by rw [← hk₀]; rfl
  obtain ⟨os, hos, hnil, hres⟩ := openQueues_cases sys numQueues.toNat 0 { deviceName, fds := [] } k₀
  rw [Int.toNat_eq_zero] at hnil
  generalize hq : openQueues sys { deviceName, fds := [] } numQueues.toNat 0 k₀ = out at hos hres
  obtain ⟨r, k⟩ := out
  subst hos
  rcases hres with ⟨ex, hr, hturns⟩ | ⟨fds, hr, hturns⟩
  · subst hr
    refine .inr ⟨os, _, ?_, hnil, fun hn => hturns hn.1, .inl ⟨ex, bind_error hq⟩⟩
    rw [hopened₀, hclosed₀, List.nil_append, List.append_nil]
  · subst hr
    rw [bind_ok hq]
    rcases getMTU_cases { deviceName, fds } sys.mtu _ h with ⟨errno, ex, hs, hg⟩ | ⟨c, k', hs, hg⟩ |
      ⟨fd, k', hs, hpos, hopened, hclosed, hg⟩
    · refine .inr ⟨os, _, ?_, hnil, fun hn => ?_, .inl ⟨ex, bind_error hg⟩⟩
      · rw [hopened₀, hclosed₀, List.nil_append, List.append_nil]
      · rw [hs] at hn
        cases hn.2
    · exact .inl ⟨c, k', bind_error hg, hturns, hs⟩
    · refine .inr ⟨os, k', ?_, hnil, fun hn => ?_, ?_⟩
      · rw [hopened, hclosed, hopened₀, hclosed₀, List.nil_append, List.nil_append]
      · rw [hs] at hn
        cases hn.2
        exact Nat.lt_irrefl 0 hpos
      · rcases hg with ⟨ex, hg⟩ | ⟨mtu, hg⟩
        · exact .inl ⟨ex, bind_error hg⟩
        · exact .inr ⟨_, bind_ok hg⟩

end TunCtl

open TunCtl

/-- **The tunnel device closes what it opened exactly where it opened no
queue**: where none is asked for or the first `::open` fails. Otherwise the
queues stay open, whether the constructor throws or the device is destroyed; or
the process does not get so far: the name is longer than its field, or the socket
of the check is descriptor 0. -/
theorem tunnel_leavesNothingOpen_iff (deviceName : Name) (numQueues : Int) (sys : TunSyscalls) (handedOut : Nat) :
    LeavesNothingOpen (lifetime deviceName numQueues sys handedOut .start) ↔
      (numQueues ≤ 0 ∨ ∃ errno, sys.openTun 0 = .error errno) ∨ IFNAMSIZ ≤ deviceName.length ∨
        Turns sys numQueues.toNat 0 ∧ sys.mtu.socket = .ok 0 := by
  rcases Nat.lt_or_ge deviceName.length IFNAMSIZ with hfit | hlong
  · rcases construct_cases hfit numQueues sys with ⟨c, k, hc, hzero⟩ | ⟨os, k, hk, hnil, hzero, hres⟩
    · rw [lifetime_error hc]
      exact iff_of_true trivial (.inr (.inr hzero))
    · have hclosed : LeavesNothingOpen (lifetime deviceName numQueues sys handedOut .start) ↔ k.AllClosed := by
        rcases hres with ⟨ex, hc⟩ | ⟨tun, hc⟩
        · rw [lifetime_error hc]
          rfl
        · rw [lifetime_ok hc]
          rfl
      rw [hclosed, Trace.allClosed_iff hk, hnil]
      constructor
      · exact .inl
      · intro h
        rcases h with h | h | h
        · exact h
        · exact absurd hfit (Nat.not_lt.2 h)
        · exact absurd h hzero
  · rw [lifetime_error (construct_overrun hlong numQueues sys .start)]
    exact iff_of_true trivial (.inr (.inl hlong))

/-- `"tun0"`. -/
def tun0 : Name := ⟨[116, 117, 110, 48], by decide⟩

/-- Two queues are opened, and nobody closes them: neither the device nor the
copies; and where the second `TUNSETIFF` fails, the constructor leaves both. -/
theorem not_tunnel_leavesNothingOpen :
    (let out := lifetime tun0 2 ⟨fun i => .ok (i + 5), fun _ => .ok 0, .ok 7, .ok 1500⟩ 1 .start
    out.2.opened = [5, 6, 7] ∧ out.2.closed = [7] ∧ ¬ LeavesNothingOpen out) ∧
    let out := lifetime tun0 2 ⟨fun i => .ok (i + 5), fun i => if i = 0 then .ok 0 else .error 16,
      .ok 7, .ok 1500⟩ 1 .start
    out.2.opened = [5, 6] ∧ out.2.closed = [] ∧ ¬ LeavesNothingOpen out := by
  refine ⟨⟨rfl, rfl, fun h => ?_⟩, rfl, rfl, fun h => ?_⟩
  · exact absurd (h 5) (by decide)
  · exact absurd (h 5) (by decide)

end RuralPipe
