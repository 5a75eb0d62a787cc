/-
The sending stack: the threads of the tunnel's loop, their calls down the
pipes, and the sockets at the end of these.

A thread in its hand-over runs its call (`calls`), and while the call is in
the socket's pipe, a sender of the sockets. Any interleaving of the threads
and of the sockets' tasks is a run. `Linked` says how the three parts of one
thread fit together, and `Carries` that its frame and its sender's buffer hold
the same datagrams, since the sender changes no more than the header.
-/
import RuralPipe.SessionTable
import RuralPipe.TunnelFacts
import RuralPipe.TunnelFramePipe

namespace RuralPipe

/-- `interrupted` is the tunnel's own flag; `aborted` an assertion that failed
in the pipes. -/
structure SendingStack (S K : Type) where
  pipes : Pipes
  threads : S → TunnelThread
  calls : S → Option Invocation
  sockets : SocketState S K
  interrupted : Bool
  aborted : Option String

inductive StackLabel (S K : Type)
  | loop (i : S) (ev : LoopEvent)
  | invoke (i : S)
  | pipe (i : S)
  | enter (i : S)
  | leave (i : S)
  | outcome (i : S)
  | socket (l : SocketLabel S K)
  | interrupt

/-- The steps that enter and leave `onTunnelFrameFromPrev`. -/
def SocketLabel.OfCaller {S K : Type} : SocketLabel S K → Prop
  | .call _ _ => True
  | .leave _ => True
  | _ => False

namespace SendingStack

variable {S K : Type}

section
variable [DecidableEq S]

def setThread (x : SendingStack S K) (i : S) (t : TunnelThread) : SendingStack S K :=
  { x with threads := Function.update x.threads i t }

def setCall (x : SendingStack S K) (i : S) (c : Option Invocation) : SendingStack S K :=
  { x with calls := Function.update x.calls i c }

variable {x : SendingStack S K} {i j : S} {t : TunnelThread} {c : Option Invocation}

@[simp] theorem setThread_self : (x.setThread i t).threads i = t := Function.update_self ..
theorem setThread_ne (h : j ≠ i) : (x.setThread i t).threads j = x.threads j := Function.update_of_ne h ..
@[simp] theorem setThread_calls : (x.setThread i t).calls = x.calls := rfl
@[simp] theorem setThread_sockets : (x.setThread i t).sockets = x.sockets := rfl
@[simp] theorem setThread_pipes : (x.setThread i t).pipes = x.pipes := rfl

@[simp] theorem setCall_self : (x.setCall i c).calls i = c := Function.update_self ..
theorem setCall_ne (h : j ≠ i) : (x.setCall i c).calls j = x.calls j := Function.update_of_ne h ..
@[simp] theorem setCall_threads : (x.setCall i c).threads = x.threads := rfl
@[simp] theorem setCall_sockets : (x.setCall i c).sockets = x.sockets := rfl
@[simp] theorem setCall_pipes : (x.setCall i c).pipes = x.pipes := rfl

end

/-- The process runs. -/
def Alive (x : SendingStack S K) : Prop :=
  x.sockets.crash = none ∧ x.aborted = none ∧ ∀ i c, (x.threads i).loop ≠ .ended (.abort c)

end SendingStack

inductive StackStep {S K : Type} [DecidableEq S] [DecidableEq K] (fds : S → FileDescriptor) (mtu : Nat)
    (client : Option SessionId) : SendingStack S K → StackLabel S K → SendingStack S K → Prop
  | loop {x : SendingStack S K} {i ev t} : ev.Own → (x.threads i).step (fds i) mtu x.interrupted ev = some t →
      StackStep fds mtu client x (.loop i ev) (x.setThread i t)
  | invoke {x : SendingStack S K} {i buf} : (x.threads i).loop = .invoking buf → x.calls i = none →
      StackStep fds mtu client x (.invoke i)
        ({ x with pipes := (Invocation.invoke x.pipes [] .tunnel).1 }.setCall i
          (some (Invocation.invoke x.pipes [] .tunnel).2))
  | pipe {x : SendingStack S K} {i c pipes c'} : x.calls i = some c → c.step x.pipes = some (.ok (pipes, c')) →
      StackStep fds mtu client x (.pipe i) ({ x with pipes }.setCall i (some c'))
  | pipeAborts {x : SendingStack S K} {i c cond} : x.calls i = some c →
      c.step x.pipes = some (.error (.abort cond)) →
      StackStep fds mtu client x (.pipe i) { x with aborted := some cond }
  | enter {x : SendingStack S K} {i inside buf sockets} : x.calls i = some (.down inside (some .socket)) →
      (x.threads i).loop = .invoking buf → SocketStep client x.sockets (.call i buf) sockets →
      StackStep fds mtu client x (.enter i) { x with sockets }
  | leave {x : SendingStack S K} {i inside buf res sockets} : x.calls i = some (.down inside (some .socket)) →
      x.sockets.senders i = .returned buf res → SocketStep client x.sockets (.leave i) sockets →
      StackStep fds mtu client x (.leave i)
        (({ x with sockets }.setThread i { x.threads i with loop := .invoking buf }).setCall i
          (some (.up inside res)))
  | outcome {x : SendingStack S K} {i buf res t} : x.calls i = some (.up [] res) →
      (x.threads i).loop = .invoking buf →
      (x.threads i).step (fds i) mtu x.interrupted (.outcome buf res) = some t →
      StackStep fds mtu client x (.outcome i) ((x.setThread i t).setCall i none)
  | socket {x : SendingStack S K} {l sockets} : ¬ l.OfCaller → SocketStep client x.sockets l sockets →
      StackStep fds mtu client x (.socket l) { x with sockets }
  | interrupt {x : SendingStack S K} : StackStep fds mtu client x .interrupt { x with interrupted := true }

/-- The pipes are attached, and nothing has happened yet. -/
def SendingStack.Starts {S K : Type} (x : SendingStack S K) : Prop :=
  ∃ pipes, TunnelFramePipe.attached = .ok pipes ∧
    x = { pipes, threads := fun _ => .start, calls := fun _ => none, sockets := .start S K, interrupted := false,
          aborted := none }

/-- A stack with the tunnel queues `S`, whose descriptors are `fds`, and the
sockets `K`. -/
def sendingStack {S : Type} (K : Type) [DecidableEq S] [DecidableEq K] (fds : S → FileDescriptor) (mtu : Nat)
    (client : Option SessionId) : Machine (SendingStack S K) (StackLabel S K) where
  init := SendingStack.Starts
  step x l x' := x.Alive ∧ StackStep fds mtu client x l x'

/-! ## How the parts of a thread fit together -/

/-- The buffer a sender works with. -/
def Sender.buf {K : Type} : Sender K → Option TunnelFrameBuffer
  | .idle => none
  | .entered buf => some buf
  | .waiting _ buf _ _ => some buf
  | .sending s => some s.buf
  | .returned buf _ => some buf

namespace SocketState

variable {S K : Type}

/-- The sender is idle in both states or in neither, and no more of its frame
has changed than the sequence number. -/
def Keeps (x x' : SocketState S K) (j : S) : Prop :=
  (x'.senders j = .idle ↔ x.senders j = .idle) ∧
    ∀ buf', (x'.senders j).buf = some buf' → ∃ buf, (x.senders j).buf = some buf ∧ ∃ n, buf' = patched buf n

end SocketState

open SocketState

/-- A step of the sockets starts and ends no sender but through its caller. -/
theorem SocketStep.keeps {S K : Type} [DecidableEq S] [DecidableEq K] {client : Option SessionId}
    {x x' : SocketState S K} {l : SocketLabel S K} (hs : SocketStep client x l x') (hl : ¬ l.OfCaller) (j : S) :
    x.Keeps x' j := by
  unfold Keeps
  rcases sender_step hs j with heq | hst
  · rw [heq]
    exact ⟨Iff.rfl, fun b hb => ⟨b, hb, none, rfl⟩⟩
  · generalize x.senders j = a at hst ⊢
    generalize x'.senders j = a' at hst ⊢
    cases hst with
    | call => exact absurd trivial hl
    | leave => exact absurd trivial hl
    | take hsel =>
      obtain ⟨s, -, -, -, -, rfl, -⟩ := SessionsMap.select_take hsel
      refine ⟨by simp, fun b hb => ?_⟩
      cases hb
      exact ⟨_, rfl, some _, rfl⟩
    | wait hsel =>
      obtain ⟨s, -, -, -, -, rfl, -⟩ := SessionsMap.select_wait hsel
      refine ⟨by simp, fun b hb => ?_⟩
      cases hb
      exact ⟨_, rfl, some _, rfl⟩
    | notYetReady | recheckTake | recheckWait | io | complete | woken =>
      exact ⟨by simp, fun b hb => ⟨b, hb, none, rfl⟩⟩

theorem SocketStep.call_eq {S K : Type} [DecidableEq S] [DecidableEq K] {client : Option SessionId}
    {x x' : SocketState S K} {i : S} {buf : TunnelFrameBuffer} (hs : SocketStep client x (.call i buf) x') :
    x.senders i = .idle ∧ x' = x.setSender i (.entered buf) := by
  cases hs with
  | call hi => exact ⟨hi, rfl⟩

theorem SocketStep.leave_eq {S K : Type} [DecidableEq S] [DecidableEq K] {client : Option SessionId}
    {x x' : SocketState S K} {i : S} (hs : SocketStep client x (.leave i) x') : x' = x.setSender i .idle := by
  cases hs with
  | leave hi => rfl

/-- A thread in its hand-over takes no step of its own. -/
theorem TunnelThread.step_invoking {fd : FileDescriptor} {mtu : Nat} {interrupted : Bool} {t : TunnelThread}
    {ev : LoopEvent} {buf : TunnelFrameBuffer} (hl : t.loop = .invoking buf) (ho : ev.Own) :
    t.step fd mtu interrupted ev = none := by
  cases ev with
  | outcome buf res => exact absurd ho id
  | _ => simp [step, hl]

theorem TunnelThread.holds_invoking {t : TunnelThread} {buf : TunnelFrameBuffer} {ds} (hl : t.loop = .invoking buf)
    (h : t.Ended ∨ t.Holds ds) : buf.Closed ds := by
  rcases h with ⟨why, hw⟩ | h
  · rw [hl] at hw
    cases hw
  · rw [Holds, hl] at h
    exact h

namespace SendingStack

variable {S K : Type} {x x' : SendingStack S K} {i j : S}

/-- A call between two pipes that hand it on. -/
def Passing (inside : List PipeId) (next : Option PipeId) : Prop :=
  (inside = [.tunnel] ∧ next = some .compressing) ∨ (inside = [.compressing, .tunnel] ∧ next = some .signing)

/-- A thread's loop, its call and its sender, one inside the other. -/
inductive Linked (x : SendingStack S K) (i : S) : Prop
  | own : x.calls i = none → x.sockets.senders i = .idle → Linked x i
  | down {inside next buf} : x.calls i = some (.down inside next) → Passing inside next →
      (x.threads i).loop = .invoking buf → x.sockets.senders i = .idle → Linked x i
  | inside {buf} : x.calls i = some (.down [.signing, .compressing, .tunnel] (some .socket)) →
      (x.threads i).loop = .invoking buf → Linked x i
  | up {inside res buf} : x.calls i = some (.up inside res) → (x.threads i).loop = .invoking buf →
      x.sockets.senders i = .idle → Linked x i

/-- The frame at hand and the sender's buffer hold the same datagrams. -/
def Carries (x : SendingStack S K) (i : S) : Prop :=
  ∃ ds, ((x.threads i).Ended ∨ (x.threads i).Holds ds) ∧ ∀ buf, (x.sockets.senders i).buf = some buf → buf.Closed ds

structure Inv (x : SendingStack S K) : Prop where
  chain : TunnelFramePipe.Chain x.pipes
  linked : ∀ i, x.Linked i
  carries : ∀ i, x.Carries i

theorem Linked.congr (h : x.Linked i) (hc : x'.calls i = x.calls i) (ht : x'.threads i = x.threads i)
    (hs : x.sockets.senders i = .idle → x'.sockets.senders i = .idle) : x'.Linked i := by
  cases h with
  | own h₁ h₂ => exact .own (hc.trans h₁) (hs h₂)
  | down h₁ h₂ h₃ h₄ => exact .down (hc.trans h₁) h₂ (by rw [ht]; exact h₃) (hs h₄)
  | inside h₁ h₂ => exact .inside (hc.trans h₁) (by rw [ht]; exact h₂)
  | up h₁ h₂ h₃ => exact .up (hc.trans h₁) (by rw [ht]; exact h₂) (hs h₃)

theorem Carries.congr (h : x.Carries i) (ht : x'.threads i = x.threads i)
    (hs : ∀ buf', (x'.sockets.senders i).buf = some buf' →
      ∃ buf, (x.sockets.senders i).buf = some buf ∧ ∃ n, buf' = patched buf n) : x'.Carries i := by
  obtain ⟨ds, hh, hb⟩ := h
  refine ⟨ds, by rw [ht]; exact hh, fun buf' h' => ?_⟩
  obtain ⟨buf, hbuf, n, rfl⟩ := hs buf' h'
  exact patched_closed (hb buf hbuf) n

theorem Carries.same (h : x.Carries i) (ht : x'.threads i = x.threads i)
    (hs : x'.sockets.senders i = x.sockets.senders i) : x'.Carries i :=
  h.congr ht fun buf' h' => ⟨buf', by rw [← hs]; exact h', none, rfl⟩

/-- A thread outside its hand-over has an idle sender. -/
theorem Linked.idle (h : x.Linked i) (hl : ∀ buf, (x.threads i).loop ≠ .invoking buf) :
    x.calls i = none ∧ x.sockets.senders i = .idle := by
  cases h with
  | own h₁ h₂ => exact ⟨h₁, h₂⟩
  | down _ _ h₃ => exact absurd h₃ (hl _)
  | inside _ h₂ => exact absurd h₂ (hl _)
  | up _ h₂ => exact absurd h₂ (hl _)

/-- A sender works only for a call at the socket's pipe. -/
theorem Linked.idle_outside (h : x.Linked i)
    (hc : x.calls i ≠ some (.down [.signing, .compressing, .tunnel] (some .socket))) : x.sockets.senders i = .idle := by
  cases h with
  | own _ h₂ => exact h₂
  | down _ _ _ h₄ => exact h₄
  | inside h₁ => exact absurd h₁ hc
  | up _ _ h₃ => exact h₃

/-- A thread in a call is in its hand-over. -/
theorem Linked.invoking (h : x.Linked i) {c : Invocation} (hc : x.calls i = some c) :
    ∃ buf, (x.threads i).loop = .invoking buf := by
  cases h with
  | own h₁ => rw [hc] at h₁; cases h₁
  | down _ _ h₃ => exact ⟨_, h₃⟩
  | inside _ h₂ => exact ⟨_, h₂⟩
  | up _ h₂ => exact ⟨_, h₂⟩

/-- A call at the socket's pipe has passed all others. -/
theorem Linked.atSocket (h : x.Linked i) {inside : List PipeId}
    (hc : x.calls i = some (.down inside (some .socket))) : inside = [.signing, .compressing, .tunnel] := by
  cases h with
  | own h₁ => rw [hc] at h₁; cases h₁
  | down h₁ h₂ =>
    rw [hc] at h₁
    cases h₁
    rcases h₂ with ⟨-, h⟩ | ⟨-, h⟩ <;> cases h
  | inside h₁ =>
    rw [hc] at h₁
    cases h₁
    rfl
  | up h₁ => rw [hc] at h₁; cases h₁

section
variable [DecidableEq S]

/-- A pipe hands the call on, towards the socket or back. -/
theorem Linked.pipe (hch : TunnelFramePipe.Chain x.pipes) (h : x.Linked i) {c c' : Invocation} {pipes : Pipes}
    (hc : x.calls i = some c) (hs : c.step x.pipes = some (.ok (pipes, c'))) :
    TunnelFramePipe.Chain pipes ∧ ({ x with pipes }.setCall i (some c')).Linked i := by
  cases h with
  | own h₁ => rw [hc] at h₁; cases h₁
  | down h₁ h₂ h₃ h₄ =>
    rw [hc] at h₁
    cases h₁
    rcases h₂ with ⟨rfl, rfl⟩ | ⟨rfl, rfl⟩
    · cases hs
      refine ⟨hch.invokeBegin _, .down setCall_self (.inr ⟨rfl, ?_⟩) h₃ h₄⟩
      exact hch.compressing
    · cases hs
      refine ⟨hch.invokeBegin _, .inside (by rw [setCall_self, ← hch.signing]) h₃⟩
  | inside h₁ h₂ =>
    rw [hc] at h₁
    cases h₁
    cases hs
  | @up inside res buf h₁ h₂ h₃ =>
    rw [hc] at h₁
    cases h₁
    cases inside with
    | nil => cases hs
    | cons self inside =>
      cases hs
      exact ⟨hch.invokeEnd _, .up setCall_self h₂ h₃⟩

variable [DecidableEq K] {fds : S → FileDescriptor} {mtu : Nat} {client : Option SessionId} {l : StackLabel S K}

omit [DecidableEq S] [DecidableEq K] in
/-- A step of one thread leaves the others as they are. -/
theorem Inv.of_thread (h : x.Inv) (hch : TunnelFramePipe.Chain x'.pipes) (hl : x'.Linked i) (hc : x'.Carries i)
    (ho : ∀ j, j ≠ i →
      x'.calls j = x.calls j ∧ x'.threads j = x.threads j ∧ x'.sockets.senders j = x.sockets.senders j) : x'.Inv := by
  refine ⟨hch, fun j => ?_, fun j => ?_⟩
  · by_cases hij : j = i
    · subst hij
      exact hl
    · obtain ⟨hcall, hthread, hsender⟩ := ho j hij
      exact (h.linked j).congr hcall hthread fun hj => hsender.trans hj
  · by_cases hij : j = i
    · subst hij
      exact hc
    · obtain ⟨-, hthread, hsender⟩ := ho j hij
      exact (h.carries j).same hthread hsender

omit [DecidableEq S] [DecidableEq K] in
/-- A thread whose sender has no frame. -/
theorem Carries.of_idle {ds} (hi : x.sockets.senders i = .idle) (hh : (x.threads i).Ended ∨ (x.threads i).Holds ds) :
    x.Carries i := by
  refine ⟨ds, hh, fun buf hb => ?_⟩
  rw [hi] at hb
  cases hb

theorem Inv.step (h : x.Inv) (hs : StackStep fds mtu client x l x') : x'.Inv := by
  cases hs with
  | @loop i ev t ho hst =>
    have hl : ∀ buf, (x.threads i).loop ≠ .invoking buf := by
      intro buf hl
      rw [TunnelThread.step_invoking hl ho] at hst
      cases hst
    obtain ⟨hc, hi⟩ := (h.linked i).idle hl
    refine h.of_thread h.chain (.own hc hi) ?_ fun j hij => ⟨rfl, setThread_ne hij, rfl⟩
    obtain ⟨ds, hh, -⟩ := h.carries i
    have hh := hh.resolve_left fun he => by rw [TunnelThread.step_ended he] at hst; cases hst
    have hself : (x.setThread i t).threads i = t := setThread_self
    have hcarries : ∀ ds, t.Ended ∨ t.Holds ds → (x.setThread i t).Carries i := by
      intro ds ht
      exact .of_idle hi (by rw [hself]; exact ht)
    rcases TunnelThread.step_holds hst ho hh with ⟨why, hw, -⟩ | ⟨h₁, -⟩ | ⟨-, h₁, -⟩ | ⟨d, -, -, -, ⟨h₁, -⟩ | ⟨h₁, -⟩⟩
    · exact hcarries [] (.inl ⟨why, hw⟩)
    · exact hcarries _ (.inr h₁)
    · exact hcarries _ (.inr h₁)
    · exact hcarries _ (.inr h₁)
    · exact hcarries _ (.inr h₁)
  | @invoke i buf hl hc =>
    have hi := (h.linked i).idle_outside (by simp [hc])
    exact h.of_thread (h.chain.invokeBegin _) (.down setCall_self (.inl ⟨rfl, h.chain.tunnel⟩) hl hi)
      ((h.carries i).same rfl rfl) fun j hij => ⟨setCall_ne hij, rfl, rfl⟩
  | @pipe i c pipes c' hc hst =>
    obtain ⟨hch, hlinked⟩ := (h.linked i).pipe h.chain hc hst
    exact h.of_thread hch hlinked ((h.carries i).same rfl rfl) fun j hij => ⟨setCall_ne hij, rfl, rfl⟩
  | pipeAborts hc hst => exact ⟨h.chain, fun j => (h.linked j).congr rfl rfl id, fun j => (h.carries j).same rfl rfl⟩
  | @enter i inside buf sockets hc hl hst =>
    obtain ⟨-, rfl⟩ := hst.call_eq
    obtain rfl := (h.linked i).atSocket hc
    refine h.of_thread h.chain (.inside hc hl) ?_ fun j hij => ⟨rfl, rfl, SocketState.setSender_ne hij⟩
    obtain ⟨ds, hh, -⟩ := h.carries i
    refine ⟨ds, hh, fun buf' hb => ?_⟩
    rw [SocketState.setSender_self] at hb
    cases hb
    exact TunnelThread.holds_invoking hl hh
  | @leave i inside buf res sockets hc hi hst =>
    obtain rfl := hst.leave_eq
    have hidle : (x.sockets.setSender i .idle).senders i = .idle := SocketState.setSender_self
    have hself : (({ x with sockets := x.sockets.setSender i .idle }.setThread i
        { x.threads i with loop := .invoking buf }).setCall i (some (.up inside res))).threads i =
        { x.threads i with loop := .invoking buf } := setThread_self
    obtain ⟨ds, -, hb⟩ := h.carries i
    have hheld := hb buf (by rw [hi]; rfl)
    exact h.of_thread h.chain (.up setCall_self (congrArg TunnelThread.loop hself) hidle)
      (.of_idle hidle (by rw [hself]; exact .inr hheld))
      fun j hij => ⟨setCall_ne hij, setThread_ne hij, SocketState.setSender_ne hij⟩
  | @outcome i buf res t hc hl hst =>
    have hidle := (h.linked i).idle_outside (by simp [hc])
    refine h.of_thread h.chain (.own setCall_self hidle) ?_ fun j hij => ⟨setCall_ne hij, setThread_ne hij, rfl⟩
    obtain ⟨ds, hh, -⟩ := h.carries i
    have hh := TunnelThread.holds_invoking hl hh
    have hself : ((x.setThread i t).setCall i none).threads i = t := setThread_self
    have hcarries : ∀ ds, t.Ended ∨ t.Holds ds → ((x.setThread i t).setCall i none).Carries i := by
      intro ds ht
      exact .of_idle hidle (by rw [hself]; exact ht)
    obtain ⟨-, -, ⟨-, ht⟩ | ⟨ex, -, ⟨-, ht⟩ | ⟨-, ht⟩⟩⟩ := TunnelThread.step_outcome hst
    · exact hcarries [] (.inr (by rw [TunnelThread.Holds, ht]))
    · exact hcarries ds (.inr (by rw [TunnelThread.Holds, ht]; exact hh))
    · exact hcarries [] (.inl ⟨_, ht⟩)
  | socket hl hst =>
    have hk := hst.keeps hl
    exact ⟨h.chain, fun j => (h.linked j).congr rfl rfl (hk j).1.2, fun j => (h.carries j).congr rfl (hk j).2⟩
  | interrupt => exact ⟨h.chain, fun j => (h.linked j).congr rfl rfl id, fun j => (h.carries j).same rfl rfl⟩

theorem reachable_inv (h : (sendingStack K fds mtu client).Reachable x) : x.Inv := by
  refine h.invariant (I := Inv) ?_ ?_
  · intro y hy
    obtain ⟨pipes, hp, rfl⟩ := hy
    obtain ⟨ps, hps, hch⟩ := TunnelFramePipe.attached_chain
    rw [hp] at hps
    cases hps
    exact ⟨hch, fun _ => .own rfl rfl, fun _ => ⟨[], .inr rfl, fun _ hb => nomatch hb⟩⟩
  · intro y l y' _ hI hs
    exact hI.step hs.2

/-- The sockets of a run of the stack have had a run of their own. -/
theorem maps_sockets : Machine.Maps (sendingStack K fds mtu client) (RuralPipe.sockets S K client)
    (·.sockets) := by
  refine ⟨fun s hs => ?_, fun s l s' _ hs => ?_⟩
  · obtain ⟨pipes, -, rfl⟩ := hs
    rfl
  · obtain ⟨⟨hc, -⟩, hs⟩ := hs
    cases hs with
    | loop ho hst => exact .refl
    | invoke hl hi => exact .refl
    | pipe hi hst => exact .refl
    | pipeAborts hi hst => exact .refl
    | enter hi hl hst => exact .one ⟨hc, hst⟩
    | leave hi hr hst => exact .one ⟨hc, hst⟩
    | outcome hi hl hst => exact .refl
    | socket hl hst => exact .one ⟨hc, hst⟩
    | interrupt => exact .refl

/-! ## Runs from the start -/

variable {tr : List (Machine.Transition (SendingStack S K) (StackLabel S K))}

variable (fds mtu) in
/-- A run of the sockets without callers is a run of the stack. -/
theorem run_sockets {pipes : Pipes} (hp : TunnelFramePipe.attached = .ok pipes)
    {trs : List (Machine.Transition (SocketState S K) (SocketLabel S K))} {y : SocketState S K}
    (h : (RuralPipe.sockets S K client).Run trs y) (hl : ∀ t ∈ trs, ¬ t.label.OfCaller) :
    ∃ tr, (sendingStack K fds mtu client).Run tr
      { pipes, threads := fun _ => .start, calls := fun _ => none, sockets := y,
        interrupted := false, aborted := none } ∧
      tr.map (·.label) = trs.map (.socket ·.label) := by
  induction h with
  | init hy =>
    cases hy
    exact ⟨[], .init ⟨pipes, hp, rfl⟩, rfl⟩
  | @step trs y l y' hr hs ih =>
    obtain ⟨tr, hrun, htr⟩ := ih fun t ht => hl t (List.mem_append_left _ ht)
    have hl' := hl ⟨y, l, y'⟩ (List.mem_append_right _ (List.mem_singleton_self _))
    exact ⟨_, hrun.step (l := .socket l) ⟨⟨hs.1, rfl, fun _ _ h => nomatch h⟩, .socket hl' hs.2⟩, by simp [htr]⟩

/-- What a thread can do by itself, it can do in the stack. -/
theorem run_own {evs : List LoopEvent} {t : TunnelThread} (h : (sendingStack K fds mtu client).Run tr x)
    (hc : x.sockets.crash = none) (ha : x.aborted = none)
    (hj : ∀ j, j ≠ i → ∀ c, (x.threads j).loop ≠ .ended (.abort c)) (ho : ∀ ev ∈ evs, ev.Own)
    (hrun : (x.threads i).run (fds i) mtu x.interrupted evs = some t) :
    ∃ tr', (sendingStack K fds mtu client).Run tr' (x.setThread i t) ∧
      tr'.map (·.label) = tr.map (·.label) ++ evs.map (.loop i) := by
  induction evs generalizing x tr with
  | nil =>
    cases hrun
    have hx : x.setThread i (x.threads i) = x := by simp [setThread]
    rw [hx]
    exact ⟨tr, h, by simp⟩
  | cons ev evs ih =>
    obtain ⟨t₁, hst, hrun⟩ := Option.bind_eq_some_iff.1 hrun
    have halive : x.Alive := by
      refine ⟨hc, ha, fun j c hl => ?_⟩
      by_cases hij : j = i
      · subst hij
        rw [TunnelThread.step_ended ⟨_, hl⟩] at hst
        cases hst
      · exact hj j hij c hl
    have h₁ := h.step (l := .loop i ev) ⟨halive, .loop (ho ev List.mem_cons_self) hst⟩
    obtain ⟨tr', h₂, htr⟩ := ih h₁ hc ha (fun j hij => by rw [setThread_ne hij]; exact hj j hij)
      (fun ev hev => ho ev (List.mem_cons_of_mem _ hev)) (by rw [setThread_self]; exact hrun)
    have hx : (x.setThread i t₁).setThread i t = x.setThread i t := by simp [setThread]
    rw [hx] at h₂
    exact ⟨tr', h₂, by simp [htr]⟩

/-- The states differ in the pipes and the calls only. -/
structure Beside (x y : SendingStack S K) : Prop where
  threads : y.threads = x.threads
  sockets : y.sockets = x.sockets
  interrupted : y.interrupted = x.interrupted
  aborted : y.aborted = x.aborted

omit [DecidableEq S] [DecidableEq K] in
theorem Beside.trans {x y z : SendingStack S K} (h : Beside x y) (h' : Beside y z) : Beside x z :=
  ⟨h'.threads.trans h.threads, h'.sockets.trans h.sockets, h'.interrupted.trans h.interrupted,
    h'.aborted.trans h.aborted⟩

omit [DecidableEq S] [DecidableEq K] in
theorem Beside.alive {x y : SendingStack S K} (h : Beside x y) (ha : x.Alive) : y.Alive := by
  rw [Alive, h.sockets, h.aborted, h.threads]
  exact ha

theorem run_pipe {c c' : Invocation} {pipes : Pipes} (h : (sendingStack K fds mtu client).Run tr x)
    (ha : x.Alive) (hc : x.calls i = some c) (hs : c.step x.pipes = some (.ok (pipes, c'))) :
    ∃ tr' y, (sendingStack K fds mtu client).Run tr' y ∧ tr'.map (·.label) = tr.map (·.label) ++ [.pipe i] ∧
      Beside x y ∧ y.calls i = some c' := by
  obtain ⟨tr', h', hls⟩ := h.labelled (l := .pipe i) rfl ⟨ha, .pipe hc hs⟩
  exact ⟨tr', _, h', hls, ⟨rfl, rfl, rfl, rfl⟩, setCall_self⟩

/-- A hand-over gets to the socket's pipe. -/
theorem run_down {buf : TunnelFrameBuffer} (h : (sendingStack K fds mtu client).Run tr x) (ha : x.Alive)
    (hl : (x.threads i).loop = .invoking buf) (hc : x.calls i = none) :
    ∃ tr' y, (sendingStack K fds mtu client).Run tr' y ∧
      tr'.map (·.label) = tr.map (·.label) ++ [.invoke i, .pipe i, .pipe i] ∧ Beside x y ∧
      y.calls i = some (.down [.signing, .compressing, .tunnel] (some .socket)) := by
  obtain ⟨tr₁, h₁, hls₁⟩ := h.labelled (l := .invoke i) rfl ⟨ha, .invoke hl hc⟩
  have hc₁ : (Invocation.invoke x.pipes [] .tunnel).2 = .down [.tunnel] (some .compressing) :=
    congrArg (Invocation.down [.tunnel]) (reachable_inv h.reachable).chain.tunnel
  rw [hc₁] at h₁
  obtain ⟨tr₂, x₂, h₂, hls₂, hb₂, hc₂⟩ := run_pipe (i := i) h₁ ha setCall_self rfl
  have hc₂ : x₂.calls i = some (.down [.compressing, .tunnel] (some .signing)) :=
    hc₂.trans (congrArg (fun p => some (Invocation.down _ p)) (reachable_inv h₁.reachable).chain.compressing)
  obtain ⟨tr₃, x₃, h₃, hls₃, hb₃, hc₃⟩ := run_pipe h₂ (hb₂.alive ha) hc₂ rfl
  have hc₃ : x₃.calls i = some (.down [.signing, .compressing, .tunnel] (some .socket)) :=
    hc₃.trans (congrArg (fun p => some (Invocation.down _ p)) (reachable_inv h₂.reachable).chain.signing)
  exact ⟨tr₃, x₃, h₃, by simp [hls₃, hls₂, hls₁],
    Beside.trans ⟨hb₂.threads, hb₂.sockets, hb₂.interrupted, hb₂.aborted⟩ hb₃, hc₃⟩

/-- And its outcome gets back to the tunnel. -/
theorem reachable_up {inside : List PipeId} {res : Except Exception Unit}
    (h : (sendingStack K fds mtu client).Reachable x) (ha : x.Alive) (hc : x.calls i = some (.up inside res)) :
    ∃ y, (sendingStack K fds mtu client).Reachable y ∧ Beside x y ∧ y.calls i = some (.up [] res) := by
  induction inside generalizing x with
  | nil => exact ⟨x, h, ⟨rfl, rfl, rfl, rfl⟩, hc⟩
  | cons self inside ih =>
    obtain ⟨_, h⟩ := h
    obtain ⟨_, y, hy, -, hb, hc⟩ := run_pipe h ha hc rfl
    obtain ⟨z, hz, hb', hc⟩ := ih hy.reachable (hb.alive ha) hc
    exact ⟨z, hz, hb.trans hb', hc⟩

omit [DecidableEq S] in
/-- Over sockets that nobody has called yet, the one thread of a stack reads a
datagram, waits in vain for another, and hands its frame over. -/
theorem run_entered {tr : List (Machine.Transition (SocketState Unit K) (SocketLabel Unit K))}
    {y : SocketState Unit K} (h : (RuralPipe.sockets Unit K client).Run tr y) (hl : ∀ t ∈ tr, ¬ t.label.OfCaller)
    (hc : y.crash = none) (hi : y.senders () = .idle) :
    ∃ (tr' : List (Machine.Transition (SendingStack Unit K) (StackLabel Unit K))) (x : SendingStack Unit K)
      (buf : TunnelFrameBuffer),
      (sendingStack K (fun _ : Unit => ⟨"tun", 3⟩) 1500 client).Run tr'
        { x with sockets := y.setSender () (.entered buf) } ∧
      (∀ t ∈ tr, ∃ t' ∈ tr', t'.label = .socket t.label) ∧
      (∀ t' ∈ tr', ∀ l, t'.label = .socket l → ∃ t ∈ tr, t.label = l) ∧
      x.calls () = some (.down [.signing, .compressing, .tunnel] (some .socket)) ∧
      (x.threads ()).loop = .invoking buf ∧ buf.size = 163 ∧ x.aborted = none ∧ x.interrupted = false := by
  obtain ⟨pipes, hp, -⟩ := TunnelFramePipe.attached_chain
  obtain ⟨_, h₀, hls₀⟩ := run_sockets (fun _ : Unit => ⟨"tun", 3⟩) 1500 hp h hl
  obtain ⟨t, hrun, buf, hbuf, hsize⟩ : ∃ t, TunnelThread.start.run ⟨"tun", 3⟩ 1500 false
      [.tau, .tau, .polled (.ok 1), .io (.call (.ok [1, 2, 3])), .tau, .polled (.ok 0), .tau] = some t ∧
      ∃ buf, t.loop = .invoking buf ∧ buf.size = 163 := ⟨_, rfl, _, rfl, rfl⟩
  obtain ⟨_, h₁, hls₁⟩ := run_own (i := ()) h₀ hc rfl (fun j hj => absurd rfl hj) (by simp [LoopEvent.Own]) hrun
  have halive : ∀ (z : SendingStack Unit K) {b}, z.sockets.crash = none → z.aborted = none →
      (z.threads ()).loop = .invoking b → z.Alive :=
        fun z _ h h' hl => ⟨h, h', fun _ c hc => by rw [hl] at hc; cases hc⟩
  have hl₁ : ∀ z : SendingStack Unit K, ((z.setThread () t).threads ()).loop = .invoking buf :=
    fun _ => (congrArg TunnelThread.loop setThread_self).trans hbuf
  obtain ⟨_, x, h₂, hls₂, hb, hdown⟩ := run_down (i := ()) h₁ (halive _ hc rfl (hl₁ _)) (hl₁ _) rfl
  have hl₂ : (x.threads ()).loop = .invoking buf := by
    rw [hb.threads, setThread_self]
    exact hbuf
  have hk : x.sockets = y := hb.sockets
  obtain ⟨tr', h₃, hls₃⟩ := h₂.labelled (l := .enter ()) rfl
    ⟨halive _ (by rw [hk]; exact hc) hb.aborted hl₂, .enter hdown hl₂ (.call (by rw [hk]; exact hi))⟩
  rw [hk] at h₃
  rw [hls₂, hls₁, hls₀] at hls₃
  refine ⟨tr', x, buf, h₃, fun t ht => ?_, fun t' ht' l hl' => ?_, hdown, hl₂, hsize, hb.aborted, hb.interrupted⟩
  · have hmem : .socket t.label ∈ tr'.map (·.label) := by
      rw [hls₃]
      simp only [List.mem_append]
      exact .inl (.inl (.inl (List.mem_map_of_mem ht)))
    exact List.mem_map.1 hmem
  · have hmem := List.mem_map_of_mem (f := (·.label)) ht'
    rw [hls₃, hl'] at hmem
    simpa using hmem

end

end SendingStack

end RuralPipe
