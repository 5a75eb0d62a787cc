/-
A hand-over that is refused.

Whether the call meets the placeholder on its way down the pipes or no session
at the socket, all that it has changed are the counts of the pipes it is in. So
a state in the middle of it is one in which the thread had not called at all,
with these counts added (`erase`): a step of the thread leaves that state as it
is (`Unmoved.own`), and a step of anybody else is one there too
(`Unmoved.other`). Calls that were refused can be taken out of a run, whatever
the others did meanwhile (`refused_no_trace`).
-/
import Mathlib.Algebra.BigOperators.Group.List.Basic
import Mathlib.Algebra.Ring.Int.Defs
import RuralPipe.SendingStack
import RuralPipe.StreamFacts

namespace RuralPipe

open Machine

/-! ## The counts of a call -/

namespace TunnelFramePipe

/-- The pipes without the calls from `inside` on to the next. -/
def uncount (inside : List PipeId) (ps : Pipes) : Pipes := fun p =>
  { ps p with numCallsToNext := (ps p).numCallsToNext - inside.count p }

/-- Somebody attaches or detaches a pipe. -/
def relink (ps : Pipes) (p : PipeId) (prev next : Option PipeId) (nextIsDetaching : Bool) : Pipes :=
  Function.update ps p { ps p with prev, next, nextIsDetaching }

variable {ps : Pipes} {inside : List PipeId} {p self : PipeId}

@[simp] theorem uncount_nil : uncount [] ps = ps := by
  funext p
  simp [uncount]

theorem uncount_invokeBegin : uncount (self :: inside) (invokeBegin ps self).1 = uncount inside ps := by
  funext p
  by_cases hp : p = self
  · subst hp
    simp only [uncount, invokeBegin, Function.update_self, List.count_cons_self]
    congr 1
    omega
  · simp only [uncount, invokeBegin, Function.update_of_ne hp, List.count_cons_of_ne (Ne.symm hp)]

theorem uncount_invokeEnd : uncount inside (invokeEnd ps self) = uncount (self :: inside) ps := by
  funext p
  by_cases hp : p = self
  · subst hp
    simp only [uncount, invokeEnd, Function.update_self, List.count_cons_self]
    congr 1
    omega
  · simp only [uncount, invokeEnd, Function.update_of_ne hp, List.count_cons_of_ne (Ne.symm hp)]

/-- Calls of others count the same. -/
theorem invokeBegin_uncount : invokeBegin (uncount inside ps) self =
    (uncount inside (invokeBegin ps self).1, (invokeBegin ps self).2) := by
  refine Prod.ext (funext fun p => ?_) rfl
  by_cases hp : p = self
  · subst hp
    simp only [uncount, invokeBegin, Function.update_self]
    congr 1
    omega
  · simp only [uncount, invokeBegin, Function.update_of_ne hp]

theorem invokeEnd_uncount : invokeEnd (uncount inside ps) self = uncount inside (invokeEnd ps self) := by
  funext p
  by_cases hp : p = self
  · subst hp
    simp only [uncount, invokeEnd, Function.update_self]
    congr 1
    omega
  · simp only [uncount, invokeEnd, Function.update_of_ne hp]

theorem relink_uncount (prev next : Option PipeId) (nextIsDetaching : Bool) :
    relink (uncount inside ps) self prev next nextIsDetaching = uncount inside
      (relink ps self prev next nextIsDetaching) := by
  funext p
  by_cases hp : p = self
  · subst hp
    simp only [uncount, relink, Function.update_self]
  · simp only [uncount, relink, Function.update_of_ne hp]

end TunnelFramePipe

namespace Invocation

open TunnelFramePipe

/-- The pipes whose guards are armed. -/
def armed : Invocation → List PipeId
  | .down inside _ => inside
  | .up inside _ => inside

variable {ps ps' : Pipes} {inside : List PipeId} {c c' : Invocation}

theorem invoke_uncount (inner : List PipeId) (self : PipeId) : invoke (uncount inside ps) inner self =
    (uncount inside (invoke ps inner self).1, (invoke ps inner self).2) := by
  simp only [invoke, invokeBegin_uncount]

theorem step_uncount (h : c.step ps = some (.ok (ps', c'))) :
    c.step (uncount inside ps) = some (.ok (uncount inside ps', c')) := by
  rcases c with ⟨inner, _ | _ | _ | _ | _⟩ | ⟨_ | ⟨self, inner⟩, res⟩ <;> cases h
  · rfl
  · exact congrArg (some ∘ Except.ok) (invoke_uncount inner .compressing)
  · exact congrArg (some ∘ Except.ok) (invoke_uncount inner .signing)
  · show some (Except.ok (invokeEnd (uncount inside ps) self, Invocation.up inner res)) = _
    rw [invokeEnd_uncount]

theorem step_aborts {e : Failure} (h : c.step ps = some (.error e)) : c.step ps' = some (.error e) := by
  rcases c with ⟨inner, _ | _ | _ | _ | _⟩ | ⟨_ | ⟨self, inner⟩, res⟩ <;> cases h
  rfl

/-- A call's own step moves its counts with it. -/
theorem step_armed (h : c.step ps = some (.ok (ps', c'))) : uncount c'.armed ps' = uncount c.armed ps := by
  rcases c with ⟨inner, _ | _ | _ | _ | _⟩ | ⟨_ | ⟨self, inner⟩, res⟩ <;> cases h
  · rfl
  · exact uncount_invokeBegin
  · exact uncount_invokeBegin
  · exact uncount_invokeEnd

end Invocation

/-! ## A sender that does not wait -/

/-- The sender that takes a step. -/
def SocketLabel.sender {S K : Type} : SocketLabel S K → Option S
  | .call i _ => some i
  | .select i => some i
  | .recheck i => some i
  | .io i _ => some i
  | .complete i _ => some i
  | .leave i => some i
  | _ => none

namespace SocketState

variable {S K : Type} [DecidableEq S] {x x' : SocketState S K} {i j : S} {a b : Sender K}

theorem setSender_comm (h : j ≠ i) : (x.setSender j a).setSender i b = (x.setSender i b).setSender j a := by
  simp only [setSender, Function.update_comm h]

@[simp] theorem setSender_setSender : (x.setSender i a).setSender i b = x.setSender i b := by simp [setSender]

theorem setSender_of_eq (h : x.senders i = a) : x.setSender i a = x := by
  subst h
  simp [setSender]

/-- To those who wake and to those who want the lock it is as good as idle. -/
theorem setIdle_waiting (h : ∀ obj buf st n, x.senders i ≠ .waiting obj buf st n) {obj : Nat}
    {buf : TunnelFrameBuffer} {st : K} {n : Bool} :
    (x.setSender i .idle).senders j = .waiting obj buf st n ↔ x.senders j = .waiting obj buf st n := by
  by_cases hij : j = i
  · subst hij
    rw [setSender_self]
    exact ⟨(fun he => nomatch he), fun he => absurd he (h obj buf st n)⟩
  · rw [setSender_ne hij]

theorem setIdle_shared (h : ∀ obj buf st n, x.senders i ≠ .waiting obj buf st n) :
    (x.setSender i .idle).Shared ↔ x.Shared := by
  simp only [Shared, setIdle_waiting h]

theorem setIdle_wakes (h : ∀ obj buf st n, x.senders i ≠ .waiting obj buf st n) {obj : Nat} {wake : Option S}
    (hw : x.Wakes obj wake) : (x.setSender i .idle).Wakes obj wake := by
  cases wake with
  | none => exact fun j buf st hj => hw j buf st ((setIdle_waiting h).1 hj)
  | some w =>
    obtain ⟨buf, st, hw⟩ := hw
    exact ⟨buf, st, (setIdle_waiting h).2 hw⟩

theorem notify_setIdle (h : ∀ obj buf st n, x.senders i ≠ .waiting obj buf st n) (wake : Option S) :
    (x.notify wake).setSender i .idle = (x.setSender i .idle).notify wake := by
  cases wake with
  | none => rfl
  | some w =>
    by_cases hwi : w = i
    · subst hwi
      have hstays : x.notify (some w) = x := by
        rcases hx : x.senders w with _ | _ | ⟨obj, buf, st, n⟩ | _ | _ <;> simp only [notify, hx]
        exact absurd hx (h obj buf st n)
      rw [hstays, notify, setSender_self]
    · rw [notify, notify, setSender_ne hwi]
      rcases hx : x.senders w with _ | _ | ⟨obj, buf, st, n⟩ | _ | _ <;> simp only
      exact setSender_comm hwi

/-- Nobody's step depends on it. -/
theorem step_setIdle [DecidableEq K] {client : Option SessionId} {l : SocketLabel S K} (hs : SocketStep client x l x')
    (hl : l.sender ≠ some i) (h : ∀ obj buf st n, x.senders i ≠ .waiting obj buf st n) :
    SocketStep client (x.setSender i .idle) l (x'.setSender i .idle) := by
  have other : ∀ {j : S} {a : Sender K}, some j ≠ some i → x.senders j = a →
      j ≠ i ∧ (x.setSender i .idle).senders j = a := by
    intro j a hji hj
    have hne : j ≠ i := fun he => hji (congrArg some he)
    exact ⟨hne, (setSender_ne hne).trans hj⟩
  have hsh : ¬ x.Shared → ¬ (x.setSender i .idle).Shared := fun hno hsh => hno ((setIdle_shared h).1 hsh)
  cases hs with
  | call hj =>
    obtain ⟨hne, hj⟩ := other hl hj
    rw [setSender_comm hne]
    exact .call hj
  | notYetReady hj hsel =>
    obtain ⟨hne, hj⟩ := other hl hj
    rw [setSender_comm hne]
    exact .notYetReady hj hsel
  | selectCrash hj hsel => exact .selectCrash (other hl hj).2 hsel
  | take hj hsel =>
    obtain ⟨hne, hj⟩ := other hl hj
    rw [setSender_comm hne]
    exact .take hj hsel
  | wait hj hsel =>
    obtain ⟨hne, hj⟩ := other hl hj
    rw [setSender_comm hne]
    exact .wait hj hsel
  | recheckTake hj hre =>
    obtain ⟨hne, hj⟩ := other hl hj
    rw [setSender_comm hne]
    exact .recheckTake hj hre
  | recheckWait hj hre =>
    obtain ⟨hne, hj⟩ := other hl hj
    rw [setSender_comm hne]
    exact .recheckWait hj hre
  | io hj hal hst =>
    obtain ⟨hne, hj⟩ := other hl hj
    rw [setSender_comm hne]
    exact .io hj hal hst
  | @complete j s res map wake hj hout hc hwk =>
    obtain ⟨hne, hj⟩ := other hl hj
    have hstays : ∀ obj buf st n, ((({ x with map }).record s.st
        { sender := j, frame := s.buf.bytes, written := s.out, ok := res.isOk }).setSender j
          (.returned s.buf res)).senders i ≠ .waiting obj buf st n :=
      fun obj buf st n hw => h obj buf st n ((setSender_ne hne.symm).symm.trans hw)
    rw [notify_setIdle hstays, setSender_comm hne]
    exact .complete hj hout hc (setIdle_wakes h hwk)
  | completeCrash hj hout hc => exact .completeCrash (other hl hj).2 hout hc
  | leave hj =>
    obtain ⟨hne, hj⟩ := other hl hj
    rw [setSender_comm hne]
    exact .leave hj
  | add hk => exact .add hk
  | start hk hnb => exact .start hk hnb
  | startThrows hk hnb => exact .startThrows hk hnb
  | exchange hk hex => exact .exchange hk hex
  | exchangeThrows hk hex => exact .exchangeThrows hk hex
  | exchangeAborts hk hex => exact .exchangeAborts hk hex
  | register hk hno hreg => exact .register hk (hsh hno) hreg
  | registerThrows hk hno hreg => exact .registerThrows hk (hsh hno) hreg
  | receiveEnds hk => exact .receiveEnds hk
  | receiveAborts hk => exact .receiveAborts hk
  | close hk hcl => exact .close hk hcl
  | closeAborts hk hcl => exact .closeAborts hk hcl
  | cleanup hk hno hcl => exact .cleanup hk (hsh hno) hcl
  | cleanupCrash hk hno hcl => exact .cleanupCrash hk (hsh hno) hcl
  | interrupt => exact .interrupt

end SocketState

/-! ## Hand-overs, from any state on -/

/-- The thread that takes a step, or whose sender does. -/
def StackLabel.thread {S K : Type} : StackLabel S K → Option S
  | .loop i _ => some i
  | .invoke i => some i
  | .pipe i => some i
  | .enter i => some i
  | .leave i => some i
  | .outcome i => some i
  | .socket l => l.sender
  | .interrupt => none

/-- A step of the stack, or a change of a pipe's links, as others attach or
detach pipes. -/
inductive HandOverLabel (S K : Type)
  | stack (l : StackLabel S K)
  | relink (p : PipeId) (prev next : Option PipeId) (nextIsDetaching : Bool)

def HandOverLabel.thread {S K : Type} : HandOverLabel S K → Option S
  | .stack l => l.thread
  | .relink _ _ _ _ => none

inductive HandOverStep {S K : Type} [DecidableEq S] [DecidableEq K] (fds : S → FileDescriptor) (mtu : Nat)
    (client : Option SessionId) : SendingStack S K → HandOverLabel S K → SendingStack S K → Prop
  | stack {x x' : SendingStack S K} {l} : StackStep fds mtu client x l x' →
      HandOverStep fds mtu client x (.stack l) x'
  | relink {x : SendingStack S K} {p prev next d} :
      HandOverStep fds mtu client x (.relink p prev next d)
        { x with pipes := TunnelFramePipe.relink x.pipes p prev next d }

/-- The stack from the state `x₀` on. -/
def handOvers {S K : Type} [DecidableEq S] [DecidableEq K] (fds : S → FileDescriptor) (mtu : Nat)
    (client : Option SessionId) (x₀ : SendingStack S K) : Machine (SendingStack S K) (HandOverLabel S K) where
  init x := x = x₀
  step x l x' := x.Alive ∧ HandOverStep fds mtu client x l x'

/-- Past the point where its call can be refused. -/
def Sender.Taken {K : Type} : Sender K → Prop
  | .waiting _ _ _ _ => True
  | .sending s => ∀ ex, s.send = .threw ex → ex.isNotYetReady = false
  | .returned _ res => ∀ ex, res = .error ex → ex.isNotYetReady = false
  | _ => False

/-- A sender that is not at work takes no step but its caller's. -/
theorem SocketStep.ofCaller {S K : Type} [DecidableEq S] [DecidableEq K] {client : Option SessionId}
    {x x' : SocketState S K} {l : SocketLabel S K} {i : S} (hs : SocketStep client x l x') (hl : l.sender = some i)
    (h : x.senders i = .idle ∨ ∃ buf res, x.senders i = .returned buf res) : l.OfCaller := by
  cases hs with
  | call _ => trivial
  | leave _ => trivial
  | notYetReady hi | selectCrash hi | take hi | wait hi | recheckTake hi | recheckWait hi | io hi | complete hi
  | completeCrash hi =>
    cases hl
    rw [hi] at h
    rcases h with h | ⟨_, _, h⟩ <;> cases h
  | _ => cases hl

/-- A selection refuses the call, or it is taken. -/
theorem SocketStep.select_cases {S K : Type} [DecidableEq S] [DecidableEq K] {client : Option SessionId}
    {x x' : SocketState S K} {l : SocketLabel S K} {i : S} {buf : TunnelFrameBuffer} (hs : SocketStep client x l x')
    (hl : l.sender = some i) (h : x.senders i = .entered buf) :
    (∃ ex, ex.isNotYetReady = true ∧ x' = x.setSender i (.returned buf (.error ex))) ∨ x'.crash ≠ none ∨
      ∃ map a, a.Taken ∧ x' = { x with map }.setSender i a := by
  cases hs with
  | call hi | leave hi | recheckTake hi | recheckWait hi | io hi | complete hi | completeCrash hi =>
    cases hl
    rw [h] at hi
    cases hi
  | notYetReady hi hsel =>
    cases hl
    rw [h] at hi
    cases hi
    exact .inl ⟨_, (SessionsMap.select_notYetReady hsel).2, rfl⟩
  | selectCrash hi hsel => exact .inr (.inl (fun hc => nomatch hc))
  | take hi hsel =>
    cases hl
    exact .inr (.inr ⟨_, .sending _, fun ex hex => absurd hex TunnelFrameStream.sendLoop_ne_threw, rfl⟩)
  | wait hi hsel =>
    cases hl
    exact .inr (.inr ⟨_, .waiting _ _ _ _, trivial, rfl⟩)
  | _ => cases hl

theorem SocketStep.taken {S K : Type} [DecidableEq S] [DecidableEq K] {client : Option SessionId}
    {x x' : SocketState S K} {l : SocketLabel S K} {i : S} (hs : SocketStep client x l x') (hl : ¬ l.OfCaller)
    (h : (x.senders i).Taken) : (x'.senders i).Taken := by
  rcases sender_step hs i with heq | hst
  · rw [heq]
    exact h
  · generalize x.senders i = a at hst h
    generalize x'.senders i = a' at hst ⊢
    cases hst with
    | call => exact h.elim
    | notYetReady => exact h.elim
    | take => exact h.elim
    | wait => exact h.elim
    | recheckTake => exact fun ex hex => absurd hex TunnelFrameStream.sendLoop_ne_threw
    | recheckWait => trivial
    | @io ev send out s _ hsend =>
      intro ex hex
      obtain ⟨n, io, -, ⟨k, -, -, -, hloop, -⟩ | ⟨io', hwr, -⟩ | ⟨ex', hthrew, -, -, hnot, -⟩⟩ :=
        TunnelFrameStream.sendStep_cases hsend
      · exact absurd (hloop.symm.trans hex) TunnelFrameStream.sendLoop_ne_threw
      · cases hwr.symm.trans hex
      · cases hthrew.symm.trans hex
        exact hnot
    | @complete s res map wake hout _ =>
      intro ex hex
      subst hex
      rcases hsend : s.send with ⟨n, io⟩ | _ | ex' <;> rw [hsend] at hout <;> cases hout
      exact h ex hsend
    | woken => trivial
    | leave => exact absurd trivial hl

/-- In the hand-over of `buf`, or between two of its attempts. -/
def TunnelLoop.Offers (buf : TunnelFrameBuffer) (l : TunnelLoop) : Prop :=
  l = .invoking buf ∨ l = .sleep buf ∨ l = .handOver buf ∨ l = .ended .interrupted

theorem TunnelLoop.Offers.invoking {buf buf' : TunnelFrameBuffer} {l : TunnelLoop} (h : l.Offers buf)
    (hl : l = .invoking buf') : buf = buf' := by
  subst hl
  rcases h with h | h | h | h <;> cases h
  rfl

/-- A step of such a loop is another such loop's. -/
theorem TunnelThread.step_offers {fd : FileDescriptor} {mtu : Nat} {interrupted : Bool} {t t' : TunnelThread}
    {ev : LoopEvent} {buf : TunnelFrameBuffer} (h : t.loop.Offers buf) (ho : ev.Own)
    (hs : t.step fd mtu interrupted ev = some t') :
    t'.loop.Offers buf ∧ { t' with loop := .invoking buf } = { t with loop := .invoking buf } := by
  rcases h with hl | hl | hl | hl
  · rw [step_invoking hl ho] at hs
    cases hs
  · cases ev <;> simp only [step, hl] at hs <;> cases hs
    exact ⟨.inr (.inr (.inl rfl)), rfl⟩
  · cases ev <;> simp only [step, hl] at hs <;> cases hs
    refine ⟨?_, rfl⟩
    cases interrupted
    · exact .inl rfl
    · exact .inr (.inr (.inr rfl))
  · rw [step_ended ⟨_, hl⟩] at hs
    cases hs

namespace SendingStack

variable {S K : Type} {x x' : SendingStack S K} {i j : S} {buf : TunnelFrameBuffer}

/-- The pipes that count the thread's call. -/
def armed (x : SendingStack S K) (i : S) : List PipeId := ((x.calls i).map Invocation.armed).getD []

/-- The hand-over of `buf` has moved nothing yet. -/
inductive Unmoved (x : SendingStack S K) (i : S) (buf : TunnelFrameBuffer) : Prop
  | between : x.calls i = none → (x.threads i).loop.Offers buf → x.sockets.senders i = .idle → Unmoved x i buf
  | down {inside next} : x.calls i = some (.down inside next) → (x.threads i).loop = .invoking buf →
      x.sockets.senders i = .idle → Unmoved x i buf
  | entered {inside} : x.calls i = some (.down inside (some .socket)) → (x.threads i).loop = .invoking buf →
      x.sockets.senders i = .entered buf → Unmoved x i buf
  | refused {inside ex} : x.calls i = some (.down inside (some .socket)) → (x.threads i).loop = .invoking buf →
      x.sockets.senders i = .returned buf (.error ex) → ex.isNotYetReady = true → Unmoved x i buf
  | up {inside ex} : x.calls i = some (.up inside (.error ex)) → (x.threads i).loop = .invoking buf →
      x.sockets.senders i = .idle → ex.isNotYetReady = true → Unmoved x i buf

/-- It is in a call that will not be refused. -/
inductive Taken (x : SendingStack S K) (i : S) : Prop
  | dead {c} : x.calls i = some c → ¬ x.Alive → Taken x i
  | inside {inside} : x.calls i = some (.down inside (some .socket)) → (x.sockets.senders i).Taken → Taken x i
  | up {inside res} : x.calls i = some (.up inside res) → (∀ ex, res = .error ex → ex.isNotYetReady = false) →
      Taken x i

theorem Taken.calls (h : x.Taken i) : x.calls i ≠ none := by
  intro hc
  cases h with
  | dead h => rw [hc] at h; cases h
  | inside h => rw [hc] at h; cases h
  | up h => rw [hc] at h; cases h

theorem Taken.congr (h : x.Taken i) (ha : x.Alive) (hc : x'.calls i = x.calls i)
    (hs : x'.sockets.senders i = x.sockets.senders i) : x'.Taken i := by
  cases h with
  | dead _ hno => exact absurd ha hno
  | inside h₁ h₂ => exact .inside (hc.trans h₁) (by rw [hs]; exact h₂)
  | up h₁ h₂ => exact .up (hc.trans h₁) h₂

theorem armed_eq {c : Invocation} (h : x.calls i = some c) : x.armed i = c.armed := by
  rw [armed, h]
  rfl

theorem Unmoved.of_none (h : x.Unmoved i buf) (hc : x.calls i = none) :
    (x.threads i).loop.Offers buf ∧ x.sockets.senders i = .idle := by
  cases h with
  | between _ h₂ h₃ => exact ⟨h₂, h₃⟩
  | down h₁ => rw [hc] at h₁; cases h₁
  | entered h₁ => rw [hc] at h₁; cases h₁
  | refused h₁ => rw [hc] at h₁; cases h₁
  | up h₁ => rw [hc] at h₁; cases h₁

theorem Unmoved.invoking (h : x.Unmoved i buf) {c : Invocation} (hc : x.calls i = some c) :
    (x.threads i).loop = .invoking buf := by
  cases h with
  | between h₁ => rw [hc] at h₁; cases h₁
  | down _ h₂ => exact h₂
  | entered _ h₂ => exact h₂
  | refused _ h₂ => exact h₂
  | up _ h₂ => exact h₂

theorem Unmoved.congr (h : x.Unmoved i buf) (hc : x'.calls i = x.calls i) (ht : x'.threads i = x.threads i)
    (hs : x'.sockets.senders i = x.sockets.senders i) : x'.Unmoved i buf := by
  cases h with
  | between h₁ h₂ h₃ => exact .between (hc.trans h₁) (by rw [ht]; exact h₂) (hs.trans h₃)
  | down h₁ h₂ h₃ => exact .down (hc.trans h₁) (by rw [ht]; exact h₂) (hs.trans h₃)
  | entered h₁ h₂ h₃ => exact .entered (hc.trans h₁) (by rw [ht]; exact h₂) (hs.trans h₃)
  | refused h₁ h₂ h₃ h₄ => exact .refused (hc.trans h₁) (by rw [ht]; exact h₂) (hs.trans h₃) h₄
  | up h₁ h₂ h₃ h₄ => exact .up (hc.trans h₁) (by rw [ht]; exact h₂) (hs.trans h₃) h₄

theorem Unmoved.of_up (h : x.Unmoved i buf) {inside : List PipeId} {res : Except Exception Unit}
    (hc : x.calls i = some (.up inside res)) :
    ∃ ex, res = .error ex ∧ ex.isNotYetReady = true ∧ x.sockets.senders i = .idle := by
  cases h with
  | between h₁ => rw [hc] at h₁; cases h₁
  | down h₁ => rw [hc] at h₁; cases h₁
  | entered h₁ => rw [hc] at h₁; cases h₁
  | refused h₁ => rw [hc] at h₁; cases h₁
  | up h₁ _ h₃ h₄ =>
    rw [hc] at h₁
    cases h₁
    exact ⟨_, rfl, h₄, h₃⟩

theorem Unmoved.of_returned (h : x.Unmoved i buf) {buf' : TunnelFrameBuffer} {res : Except Exception Unit}
    (hi : x.sockets.senders i = .returned buf' res) : ∃ ex, res = .error ex ∧ buf' = buf ∧ ex.isNotYetReady = true := by
  cases h with
  | between _ _ h₃ => rw [hi] at h₃; cases h₃
  | down _ _ h₃ => rw [hi] at h₃; cases h₃
  | entered _ _ h₃ => rw [hi] at h₃; cases h₃
  | up _ _ h₃ => rw [hi] at h₃; cases h₃
  | refused _ _ h₃ h₄ =>
    rw [hi] at h₃
    cases h₃
    exact ⟨_, rfl, rfl, h₄⟩

/-- Where its sender is. -/
theorem Unmoved.sender (h : x.Unmoved i buf) : x.sockets.senders i = .idle ∨
    (∃ inside, x.calls i = some (.down inside (some .socket)) ∧ x.sockets.senders i = .entered buf) ∨
      ∃ ex, x.sockets.senders i = .returned buf (.error ex) := by
  cases h with
  | between _ _ h₃ => exact .inl h₃
  | down _ _ h₃ => exact .inl h₃
  | entered h₁ _ h₃ => exact .inr (.inl ⟨_, h₁, h₃⟩)
  | refused _ _ h₃ => exact .inr (.inr ⟨_, h₃⟩)
  | up _ _ h₃ => exact .inl h₃

theorem Unmoved.not_waiting (h : x.Unmoved i buf) : ∀ obj buf st n, x.sockets.senders i ≠ .waiting obj buf st n := by
  intro obj b st n hw
  rcases h.sender with hi | ⟨_, _, hi⟩ | ⟨_, hi⟩ <;> rw [hw] at hi <;> cases hi

variable [DecidableEq S]

/-- The state in which the thread is about to hand `buf` over. -/
def erase (x : SendingStack S K) (i : S) (buf : TunnelFrameBuffer) : SendingStack S K where
  pipes := TunnelFramePipe.uncount (x.armed i) x.pipes
  threads := Function.update x.threads i { x.threads i with loop := .invoking buf }
  calls := Function.update x.calls i none
  sockets := x.sockets.setSender i .idle
  interrupted := x.interrupted
  aborted := x.aborted

/-- What is erased may differ. -/
theorem erase_eq (hp : TunnelFramePipe.uncount (x'.armed i) x'.pipes = TunnelFramePipe.uncount (x.armed i) x.pipes)
    (ht : ∀ j, j ≠ i → x'.threads j = x.threads j)
    (hti : { x'.threads i with loop := TunnelLoop.invoking buf } = { x.threads i with loop := .invoking buf })
    (hc : ∀ j, j ≠ i → x'.calls j = x.calls j)
    (hs : x'.sockets.setSender i .idle = x.sockets.setSender i .idle) (hi : x'.interrupted = x.interrupted)
    (ha : x'.aborted = x.aborted) : x'.erase i buf = x.erase i buf := by
  have hthreads : Function.update x'.threads i { x'.threads i with loop := .invoking buf } =
      Function.update x.threads i { x.threads i with loop := .invoking buf } := by
    funext j
    by_cases hij : j = i
    · subst hij
      simp only [Function.update_self, hti]
    · simp only [Function.update_of_ne hij, ht j hij]
  have hcalls : Function.update x'.calls i none = Function.update x.calls i none := by
    funext j
    by_cases hij : j = i
    · subst hij
      simp only [Function.update_self]
    · simp only [Function.update_of_ne hij, hc j hij]
  simp only [erase, hp, hthreads, hcalls, hs, hi, ha]

/-- Between two attempts nothing but the loop's position is erased. -/
theorem erase_between (hc : x.calls i = none) (hi : x.sockets.senders i = .idle) :
    x.erase i buf = x.setThread i { x.threads i with loop := .invoking buf } := by
  have harmed : x.armed i = [] := by rw [armed, hc]; rfl
  have hcalls : Function.update x.calls i none = x.calls := by rw [← hc, Function.update_eq_self]
  simp only [erase, harmed, TunnelFramePipe.uncount_nil, hcalls, SocketState.setSender_of_eq hi]
  rfl

theorem erase_alive (h : x.Alive) : (x.erase i buf).Alive := by
  refine ⟨h.1, h.2.1, fun j c hl => ?_⟩
  by_cases hij : j = i
  · subst hij
    have hself : (x.erase j buf).threads j = { x.threads j with loop := .invoking buf } := Function.update_self ..
    rw [hself] at hl
    cases hl
  · have hother : (x.erase i buf).threads j = x.threads j := Function.update_of_ne hij ..
    rw [hother] at hl
    exact h.2.2 j c hl

section
variable {t : TunnelThread} {c : Option Invocation}

theorem erase_threads (h : j ≠ i) : (x.erase i buf).threads j = x.threads j := Function.update_of_ne h ..
theorem erase_calls (h : j ≠ i) : (x.erase i buf).calls j = x.calls j := Function.update_of_ne h ..
theorem erase_pipes : (x.erase i buf).pipes = TunnelFramePipe.uncount (x.armed i) x.pipes := rfl

theorem erase_setThread (h : j ≠ i) : (x.setThread j t).erase i buf = (x.erase i buf).setThread j t := by
  simp only [erase, setThread, Function.update_of_ne h.symm, Function.update_comm h]
  rfl

theorem erase_setCall (h : j ≠ i) : (x.setCall j c).erase i buf = (x.erase i buf).setCall j c := by
  have harmed : (x.setCall j c).armed i = x.armed i := by rw [armed, setCall_ne h.symm, armed]
  simp only [erase, harmed]
  simp only [setCall, Function.update_comm h]

end

theorem erase_start (hc : x.calls i = none) (hi : x.sockets.senders i = .idle)
    (hl : (x.threads i).loop = .invoking buf) : x.erase i buf = x := by
  rw [erase_between hc hi, ← hl]
  simp [setThread]

/-- It is still in the hand-over, of which only the counts are new. -/
def Stays (x x' : SendingStack S K) (i : S) (buf : TunnelFrameBuffer) : Prop :=
  x'.Unmoved i buf ∧ x'.erase i buf = x.erase i buf

theorem Unmoved.loop (h : x.Unmoved i buf) {fd : FileDescriptor} {mtu : Nat} {ev : LoopEvent} {t : TunnelThread}
    (ho : ev.Own) (hst : (x.threads i).step fd mtu x.interrupted ev = some t) : x.Stays (x.setThread i t) i buf := by
  have hno : (x.threads i).loop ≠ .invoking buf := fun hl => by
    rw [TunnelThread.step_invoking hl ho] at hst
    cases hst
  have hc : x.calls i = none := by
    cases hc : x.calls i with
    | none => rfl
    | some c => exact absurd (h.invoking hc) hno
  obtain ⟨hoff, hi⟩ := h.of_none hc
  obtain ⟨hoff', ht⟩ := TunnelThread.step_offers hoff ho hst
  have hself : (x.setThread i t).threads i = t := setThread_self
  refine ⟨.between hc (by rw [hself]; exact hoff') hi, ?_⟩
  exact erase_eq rfl (fun j hj => setThread_ne hj) (by rw [hself, ht]) (fun _ _ => rfl) rfl rfl rfl

theorem Unmoved.invoke (h : x.Unmoved i buf) {buf' : TunnelFrameBuffer} (hl : (x.threads i).loop = .invoking buf')
    (hc : x.calls i = none) :
    x.Stays ({ x with pipes := (Invocation.invoke x.pipes [] .tunnel).1 }.setCall i
      (some (Invocation.invoke x.pipes [] .tunnel).2)) i buf := by
  obtain ⟨hoff, hi⟩ := h.of_none hc
  have hbuf : (x.threads i).loop = .invoking buf := by
    rw [hoff.invoking hl]
    exact hl
  refine ⟨.down setCall_self hbuf hi, erase_eq ?_ (fun _ _ => rfl) rfl (fun j hj => setCall_ne hj) rfl rfl rfl⟩
  rw [armed_eq setCall_self, armed, hc]
  exact TunnelFramePipe.uncount_invokeBegin

theorem Unmoved.pipe (h : x.Unmoved i buf) {c c' : Invocation} {pipes : Pipes} (hc : x.calls i = some c)
    (hst : c.step x.pipes = some (.ok (pipes, c'))) : x.Stays ({ x with pipes }.setCall i (some c')) i buf := by
  have hcounts : TunnelFramePipe.uncount (({ x with pipes }.setCall i (some c')).armed i) pipes =
      TunnelFramePipe.uncount (x.armed i) x.pipes := by
    rw [armed_eq hc, armed_eq setCall_self]
    exact Invocation.step_armed hst
  refine ⟨?_, erase_eq hcounts (fun _ _ => rfl) rfl (fun j hj => setCall_ne hj) rfl rfl rfl⟩
  cases h with
  | between h₁ => rw [hc] at h₁; cases h₁
  | @down inside next h₁ h₂ h₃ =>
    rw [hc] at h₁
    cases h₁
    rcases next with _ | _ | _ | _ | _ <;> cases hst
    · exact .up setCall_self h₂ h₃ rfl
    · exact .down setCall_self h₂ h₃
    · exact .down setCall_self h₂ h₃
  | entered h₁ => rw [hc] at h₁; cases h₁; cases hst
  | refused h₁ => rw [hc] at h₁; cases h₁; cases hst
  | @up inside ex h₁ h₂ h₃ h₄ =>
    rw [hc] at h₁
    cases h₁
    cases inside with
    | nil => cases hst
    | cons self inside =>
      cases hst
      exact .up setCall_self h₂ h₃ h₄

theorem Unmoved.enter (h : x.Unmoved i buf) {inside : List PipeId} {buf' : TunnelFrameBuffer}
    (hc : x.calls i = some (.down inside (some .socket))) (hl : (x.threads i).loop = .invoking buf') :
    x.Stays { x with sockets := x.sockets.setSender i (.entered buf') } i buf := by
  have hbuf := h.invoking hc
  rw [hl] at hbuf
  cases hbuf
  exact ⟨.entered hc hl SocketState.setSender_self,
    erase_eq rfl (fun _ _ => rfl) rfl (fun _ _ => rfl) SocketState.setSender_setSender rfl rfl⟩

theorem Unmoved.leave (h : x.Unmoved i buf) {inside : List PipeId} {buf' : TunnelFrameBuffer}
    {res : Except Exception Unit} (hc : x.calls i = some (.down inside (some .socket)))
    (hi : x.sockets.senders i = .returned buf' res) :
    x.Stays (({ x with sockets := x.sockets.setSender i .idle }.setThread i
      { x.threads i with loop := .invoking buf' }).setCall i (some (.up inside res))) i buf := by
  have hself : (({ x with sockets := x.sockets.setSender i .idle }.setThread i
      { x.threads i with loop := .invoking buf' }).setCall i (some (.up inside res))).threads i =
      { x.threads i with loop := .invoking buf' } := setThread_self
  obtain ⟨ex, rfl, rfl, hex⟩ := h.of_returned hi
  refine ⟨.up setCall_self (congrArg TunnelThread.loop hself) SocketState.setSender_self hex, ?_⟩
  refine erase_eq ?_ (fun j hj => setThread_ne hj) (by rw [hself]) (fun j hj => setCall_ne hj)
    SocketState.setSender_setSender rfl rfl
  rw [armed_eq hc, armed_eq setCall_self]
  rfl

theorem Unmoved.outcome (h : x.Unmoved i buf) {buf' : TunnelFrameBuffer} {res : Except Exception Unit}
    {fd : FileDescriptor} {mtu : Nat} {t : TunnelThread} (hc : x.calls i = some (.up [] res))
    (hl : (x.threads i).loop = .invoking buf')
    (hst : (x.threads i).step fd mtu x.interrupted (.outcome buf' res) = some t) :
    x.Stays ((x.setThread i t).setCall i none) i buf := by
  have hbuf := h.invoking hc
  rw [hl] at hbuf
  cases hbuf
  obtain ⟨ex, rfl, hex, hi⟩ := h.of_up hc
  have hself : ((x.setThread i t).setCall i none).threads i = t := setThread_self
  have ht : t = { x.threads i with loop := .sleep buf } := by
    simp only [TunnelThread.step, hl, hex, if_true] at hst
    exact (Option.some.inj hst).symm
  refine ⟨.between setCall_self (by rw [hself, ht]; exact .inr (.inl rfl)) hi, ?_⟩
  refine erase_eq ?_ (fun j hj => setThread_ne hj) (by rw [hself, ht]) (fun j hj => setCall_ne hj) rfl rfl rfl
  rw [armed_eq hc, armed, setCall_self]
  rfl

section
variable [DecidableEq K] {fds : S → FileDescriptor} {mtu : Nat} {client : Option SessionId} {l : StackLabel S K}

theorem Unmoved.socket (h : x.Unmoved i buf) {l : SocketLabel S K} {sockets : SocketState S K} (hno : ¬ l.OfCaller)
    (hst : SocketStep client x.sockets l sockets) (hl : l.sender = some i) :
    x.Stays { x with sockets } i buf ∨ ({ x with sockets } : SendingStack S K).Taken i := by
  rcases h.sender with hi | ⟨inside, hc, hi⟩ | ⟨ex, hi⟩
  · exact absurd (hst.ofCaller hl (.inl hi)) hno
  · rcases hst.select_cases hl hi with ⟨ex, hex, rfl⟩ | hcrash | ⟨map, a, ha, rfl⟩
    · exact .inl ⟨.refused hc (h.invoking hc) SocketState.setSender_self hex,
        erase_eq rfl (fun _ _ => rfl) rfl (fun _ _ => rfl) SocketState.setSender_setSender rfl rfl⟩
    · exact .inr (.dead hc fun halive => hcrash halive.1)
    · exact .inr (.inside hc (by rw [SocketState.setSender_self]; exact ha))
  · exact absurd (hst.ofCaller hl (.inr ⟨_, _, hi⟩)) hno

/-- A step of the thread in its hand-over: it stays where it was but for the
counts, or gets into a call that is not refused. -/
theorem Unmoved.own (h : x.Unmoved i buf) (hs : StackStep fds mtu client x l x') (hl : l.thread = some i) :
    x.Stays x' i buf ∨ x'.Taken i := by
  cases hs with
  | loop ho hst =>
    cases hl
    exact .inl (h.loop ho hst)
  | invoke hl' hc =>
    cases hl
    exact .inl (h.invoke hl' hc)
  | pipe hc hst =>
    cases hl
    exact .inl (h.pipe hc hst)
  | pipeAborts hc hst =>
    cases hl
    exact .inr (.dead hc fun ha => nomatch ha.2.1)
  | enter hc hl' hst =>
    cases hl
    obtain ⟨-, rfl⟩ := hst.call_eq
    exact .inl (h.enter hc hl')
  | leave hc hi hst =>
    cases hl
    obtain rfl := hst.leave_eq
    exact .inl (h.leave hc hi)
  | outcome hc hl' hst =>
    cases hl
    exact .inl (h.outcome hc hl' hst)
  | socket hno hst => exact h.socket hno hst hl
  | interrupt => cases hl

theorem Unmoved.stays (h : x.Unmoved i buf) {l : SocketLabel S K} {sockets : SocketState S K}
    (hs : SocketStep client x.sockets l sockets) (hl : l.sender ≠ some i) :
    sockets.senders i = x.sockets.senders i := by
  rcases sender_step hs i with heq | hst
  · exact heq
  · generalize ha : x.sockets.senders i = a at hst ⊢
    generalize sockets.senders i = a' at hst ⊢
    cases hst with
    | woken _ => exact absurd ha (h.not_waiting _ _ _ _)
    | _ => exact absurd rfl hl

/-- What others do, they do beside the erased call too. -/
theorem Unmoved.other (h : x.Unmoved i buf) (hs : StackStep fds mtu client x l x') (hl : l.thread ≠ some i) :
    x'.Unmoved i buf ∧ StackStep fds mtu client (x.erase i buf) l (x'.erase i buf) := by
  have hne : ∀ {k : S}, some k ≠ some i → k ≠ i := fun h he => h (congrArg some he)
  cases hs with
  | @loop k ev t ho hst =>
    have hk := hne hl
    refine ⟨h.congr rfl (setThread_ne hk.symm) rfl, ?_⟩
    rw [erase_setThread hk]
    exact .loop ho (by rw [erase_threads hk]; exact hst)
  | @invoke k buf' hl' hc =>
    have hk := hne hl
    refine ⟨h.congr (setCall_ne hk.symm) rfl rfl, ?_⟩
    rw [erase_setCall hk]
    have hinv : Invocation.invoke (TunnelFramePipe.uncount (x.armed i) x.pipes) [] .tunnel = _ :=
      Invocation.invoke_uncount [] .tunnel
    have hs : StackStep fds mtu client (x.erase i buf) (.invoke k) _ := .invoke
      (by rw [erase_threads hk]; exact hl') (by rw [erase_calls hk]; exact hc)
    rw [erase_pipes, hinv] at hs
    exact hs
  | @pipe k c pipes c' hc hst =>
    have hk := hne hl
    refine ⟨h.congr (setCall_ne hk.symm) rfl rfl, ?_⟩
    rw [erase_setCall hk]
    exact .pipe (x := x.erase i buf) ((erase_calls hk).trans hc) (Invocation.step_uncount hst)
  | @pipeAborts k c cond hc hst =>
    have hk := hne hl
    exact ⟨h.congr rfl rfl rfl, .pipeAborts (x := x.erase i buf) ((erase_calls hk).trans hc)
      (Invocation.step_aborts hst)⟩
  | @enter k inside buf' sockets hc hl' hst =>
    have hk := hne hl
    refine ⟨h.congr rfl rfl (h.stays hst hl), ?_⟩
    exact .enter (x := x.erase i buf) ((erase_calls hk).trans hc) (by rw [erase_threads hk]; exact hl')
      (SocketState.step_setIdle hst hl h.not_waiting)
  | @leave k inside buf' res sockets hc hi hst =>
    have hk := hne hl
    refine ⟨h.congr (setCall_ne hk.symm) (setThread_ne hk.symm) (h.stays hst hl), ?_⟩
    rw [erase_setCall hk, erase_setThread hk]
    have hs : StackStep fds mtu client (x.erase i buf) (.leave k) _ := .leave
      ((erase_calls hk).trans hc) ((SocketState.setSender_ne hk).trans hi)
      (SocketState.step_setIdle hst hl h.not_waiting)
    rw [erase_threads hk] at hs
    exact hs
  | @outcome k buf' res t hc hl' hst =>
    have hk := hne hl
    refine ⟨h.congr (setCall_ne hk.symm) (setThread_ne hk.symm) rfl, ?_⟩
    rw [erase_setCall hk, erase_setThread hk]
    exact .outcome ((erase_calls hk).trans hc) (by rw [erase_threads hk]; exact hl')
      (by rw [erase_threads hk]; exact hst)
  | @socket l sockets hno hst =>
    exact ⟨h.congr rfl rfl (h.stays hst hl),
      .socket (x := x.erase i buf) hno (SocketState.step_setIdle hst hl h.not_waiting)⟩
  | interrupt => exact ⟨h.congr rfl rfl rfl, .interrupt (x := x.erase i buf)⟩

/-- A call that is taken stays so until it returns, and then has not been refused. -/
theorem Taken.step (h : x.Taken i) (ha : x.Alive) (hs : StackStep fds mtu client x l x') :
    x'.Taken i ∨ l = .outcome i ∧ ∀ ex, x.calls i = some (.up [] (.error ex)) → ex.isNotYetReady = false := by
  cases hs with
  | loop ho hst => exact .inl (h.congr ha rfl rfl)
  | @invoke k buf' hl hc =>
    by_cases hk : k = i
    · subst hk
      exact absurd hc h.calls
    · exact .inl (h.congr ha (setCall_ne (Ne.symm hk)) rfl)
  | @pipe k c pipes c' hc hst =>
    by_cases hk : k = i
    · subst hk
      cases h with
      | dead _ hno => exact absurd ha hno
      | inside h₁ => rw [hc] at h₁; cases h₁; cases hst
      | @up inside res h₁ h₂ =>
        rw [hc] at h₁
        cases h₁
        cases inside with
        | nil => cases hst
        | cons self inside =>
          cases hst
          exact .inl (.up setCall_self h₂)
    · exact .inl (h.congr ha (setCall_ne (Ne.symm hk)) rfl)
  | pipeAborts hc hst => exact .inl (h.congr ha rfl rfl)
  | @enter k inside buf' sockets hc hl hst =>
    obtain ⟨hi, rfl⟩ := hst.call_eq
    by_cases hk : k = i
    · subst hk
      cases h with
      | dead _ hno => exact absurd ha hno
      | inside _ h₂ => rw [hi] at h₂; exact h₂.elim
      | up h₁ => rw [hc] at h₁; cases h₁
    · exact .inl (h.congr ha rfl (SocketState.setSender_ne (Ne.symm hk)))
  | @leave k inside buf' res sockets hc hi hst =>
    obtain rfl := hst.leave_eq
    by_cases hk : k = i
    · subst hk
      cases h with
      | dead _ hno => exact absurd ha hno
      | inside _ h₂ =>
        rw [hi] at h₂
        exact .inl (.up setCall_self h₂)
      | up h₁ => rw [hc] at h₁; cases h₁
    · exact .inl (h.congr ha (setCall_ne (Ne.symm hk)) (SocketState.setSender_ne (Ne.symm hk)))
  | @outcome k buf' res t hc hl hst =>
    by_cases hk : k = i
    · subst hk
      refine .inr ⟨rfl, fun ex hex => ?_⟩
      cases h with
      | dead _ hno => exact absurd ha hno
      | inside h₁ => rw [hex] at h₁; cases h₁
      | up h₁ h₂ =>
        rw [hex] at h₁
        cases h₁
        exact h₂ ex rfl
    · exact .inl (h.congr ha (setCall_ne (Ne.symm hk)) rfl)
  | socket hno hst =>
    cases h with
    | dead _ hno => exact absurd ha hno
    | inside h₁ h₂ => exact .inl (.inside h₁ (hst.taken hno h₂))
    | up h₁ h₂ => exact .inl (.up h₁ h₂)
  | interrupt => exact .inl (h.congr ha rfl rfl)

/-- Only its thread moves a call. -/
theorem calls_other (hs : StackStep fds mtu client x l x') (hl : l.thread ≠ some i) : x'.calls i = x.calls i := by
  have hne : ∀ {k : S}, some k ≠ some i → i ≠ k := fun h he => h (congrArg some he.symm)
  cases hs with
  | invoke | pipe | leave | outcome => exact setCall_ne (hne hl)
  | _ => rfl

/-! ## Runs in which every call is refused -/

/-- The thread's call has come back with an exception that its loop retries. -/
def Refused (x : SendingStack S K) (i : S) : Prop :=
  ∃ ex, x.calls i = some (.up [] (.error ex)) ∧ ex.isNotYetReady = true

abbrev HandOvers (S K : Type) : Type := List (Transition (SendingStack S K) (HandOverLabel S K))

/-- What the thread itself has added to a pipe's count. -/
def ownCount (i : S) (p : PipeId) (tr : HandOvers S K) : Int :=
  ((tr.filter fun t => t.label.thread = some i).map fun t =>
    (t.post.pipes p).numCallsToNext - (t.pre.pipes p).numCallsToNext).sum

/-- What has happened besides. -/
def besides (i : S) (tr : HandOvers S K) : List (HandOverLabel S K) :=
  (tr.map (·.label)).filter fun l => l.thread ≠ some i

section
variable {tr : HandOvers S K} {l : HandOverLabel S K} {p : PipeId}

omit [DecidableEq K] in
theorem ownCount_own (h : l.thread = some i) : ownCount i p (tr ++ [⟨x, l, x'⟩]) =
    ownCount i p tr + ((x'.pipes p).numCallsToNext - (x.pipes p).numCallsToNext) := by
  simp [ownCount, h]

omit [DecidableEq K] in
theorem ownCount_other (h : l.thread ≠ some i) : ownCount i p (tr ++ [⟨x, l, x'⟩]) = ownCount i p tr := by
  simp [ownCount, h]

omit [DecidableEq K] in
theorem besides_own (h : l.thread = some i) : besides i (tr ++ [⟨x, l, x'⟩]) = besides i tr := by
  simp [besides, h]

omit [DecidableEq K] in
theorem besides_other (h : l.thread ≠ some i) : besides i (tr ++ [⟨x, l, x'⟩]) = besides i tr ++ [l] := by
  simp [besides, h]

end

/-- A run whose every call of the thread was refused, but for one that may
still be under way. -/
structure Traceless (fds : S → FileDescriptor) (mtu : Nat) (client : Option SessionId) (x₀ : SendingStack S K) (i : S)
    (buf : TunnelFrameBuffer) (tr : HandOvers S K) (x : SendingStack S K) : Prop where
  unmoved : x.Unmoved i buf
  erased : ∃ tr', (handOvers fds mtu client x₀).Run tr' (x.erase i buf) ∧ tr'.map (·.label) = besides i tr
  count : ∀ p, ownCount i p tr = (x.armed i).count p
  quiet : ∀ t ∈ tr, t.label.thread = some i →
    t.post.sockets.map = t.pre.sockets.map ∧ t.post.sockets.wire = t.pre.sockets.wire ∧
      t.post.sockets.sends = t.pre.sockets.sends

variable {x₀ : SendingStack S K} {tr : HandOvers S K}

theorem Traceless.own (h : Traceless fds mtu client x₀ i buf tr x) (hs : StackStep fds mtu client x l x')
    (hl : l.thread = some i) : Traceless fds mtu client x₀ i buf (tr ++ [⟨x, .stack l, x'⟩]) x' ∨ x'.Taken i := by
  rcases h.unmoved.own hs hl with ⟨hunmoved, herase⟩ | htaken
  · have hmap : x'.sockets.map = x.sockets.map := congrArg (fun y => y.sockets.map) herase
    have hwire : x'.sockets.wire = x.sockets.wire := congrArg (fun y => y.sockets.wire) herase
    have hsends : x'.sockets.sends = x.sockets.sends := congrArg (fun y => y.sockets.sends) herase
    refine .inl ⟨hunmoved, ?_, fun p => ?_, fun t ht hti => ?_⟩
    · obtain ⟨tr', hrun, htr⟩ := h.erased
      exact ⟨tr', by rw [herase]; exact hrun, by rw [besides_own (l := .stack l) hl]; exact htr⟩
    · have hcount : (x'.pipes p).numCallsToNext - (x'.armed i).count p =
          (x.pipes p).numCallsToNext - (x.armed i).count p := congrArg (fun y => (y.pipes p).numCallsToNext) herase
      rw [ownCount_own (l := .stack l) hl, h.count p]
      omega
    · rcases List.mem_append.1 ht with ht | ht
      · exact h.quiet t ht hti
      · rw [List.mem_singleton] at ht
        subst ht
        exact ⟨hmap, hwire, hsends⟩
  · exact .inr htaken

/-- A step of the others, which leaves the thread's call where it is. -/
theorem Traceless.other (h : Traceless fds mtu client x₀ i buf tr x) {l : HandOverLabel S K} (hl : l.thread ≠ some i)
    (hunmoved : x'.Unmoved i buf) (hc : x'.calls i = x.calls i)
    (hs : (handOvers fds mtu client x₀).step (x.erase i buf) l (x'.erase i buf)) :
    Traceless fds mtu client x₀ i buf (tr ++ [⟨x, l, x'⟩]) x' := by
  obtain ⟨tr', hrun, htr⟩ := h.erased
  refine ⟨hunmoved, ⟨_, hrun.step hs, ?_⟩, fun p => ?_, fun t ht hti => ?_⟩
  · rw [besides_other hl, List.map_append, htr]
    rfl
  · have harmed : x'.armed i = x.armed i := by rw [armed, hc, armed]
    rw [ownCount_other hl, harmed, h.count p]
  · rcases List.mem_append.1 ht with ht | ht
    · exact h.quiet t ht hti
    · rw [List.mem_singleton] at ht
      subst ht
      exact absurd hti hl

/-- A run from where the thread is about to hand `buf` over, whose every call of
the thread that has ended was refused. -/
theorem Traceless.run (hc₀ : x₀.calls i = none) (hi₀ : x₀.sockets.senders i = .idle)
    (hl₀ : (x₀.threads i).loop = .invoking buf) (h : (handOvers fds mtu client x₀).Run tr x)
    (href : ∀ t ∈ tr, t.label = .stack (.outcome i) → t.pre.Refused i) :
    Traceless fds mtu client x₀ i buf tr x ∨ x.Taken i := by
  induction h with
  | init hx =>
    cases hx
    refine .inl ⟨.between hc₀ (.inl hl₀) hi₀, ⟨[], .init (erase_start hc₀ hi₀ hl₀), rfl⟩,
      fun p => ?_, fun _ ht => nomatch ht⟩
    rw [armed, hc₀]
    rfl
  | @step tr x l x' hr hs ih =>
    have ih := ih fun t ht => href t (List.mem_append_left _ ht)
    have hlast := href ⟨x, l, x'⟩ (List.mem_append_right _ (List.mem_singleton_self _))
    obtain ⟨ha, hs⟩ := hs
    cases hs with
    | @relink p prev next d =>
      rcases ih with htr | htaken
      · have hno : (HandOverLabel.relink p prev next d : HandOverLabel S K).thread ≠ some i := by
          intro h
          cases h
        refine .inl (htr.other hno (htr.unmoved.congr rfl rfl rfl) rfl ⟨erase_alive ha, ?_⟩)
        have hrelink : HandOverStep fds mtu client (x.erase i buf) (.relink p prev next d) _ := .relink
        rw [erase_pipes, TunnelFramePipe.relink_uncount] at hrelink
        exact hrelink
      · exact .inr (htaken.congr ha rfl rfl)
    | @stack _ l hs =>
      rcases ih with htr | htaken
      · by_cases hl : l.thread = some i
        · exact htr.own hs hl
        · obtain ⟨hunmoved, hs'⟩ := htr.unmoved.other hs hl
          exact .inl (htr.other hl hunmoved (calls_other hs hl) ⟨erase_alive ha, .stack hs'⟩)
      · rcases htaken.step ha hs with htaken | ⟨rfl, hnot⟩
        · exact .inr htaken
        · obtain ⟨ex, hex, hready⟩ := hlast rfl
          rw [hnot ex hex] at hready
          cases hready

/-- **Refused hand-overs leave no trace.** Whatever state of the pipes and the
sockets a thread starts from with its frame, and whatever the others do, to the
pipes' links too: while all of its calls are refused, it keeps the frame as it
is, its own steps change no session, no stream and no wire and add nothing to
the counts, and without them the others get to the same state. Where it tries
again, what follows is thus what follows one call. -/
theorem refused_no_trace (hc₀ : x₀.calls i = none) (hi₀ : x₀.sockets.senders i = .idle)
    (hl₀ : (x₀.threads i).loop = .invoking buf) (h : (handOvers fds mtu client x₀).Run tr x)
    (href : ∀ t ∈ tr, t.label = .stack (.outcome i) → t.pre.Refused i) (hc : x.calls i = none) :
    ((x.threads i).loop.Offers buf ∧ x.sockets.senders i = .idle) ∧
      (∀ t ∈ tr, t.label.thread = some i →
        t.post.sockets.map = t.pre.sockets.map ∧ t.post.sockets.wire = t.pre.sockets.wire ∧
          t.post.sockets.sends = t.pre.sockets.sends) ∧
      (∀ p, ownCount i p tr = 0) ∧
      ((∀ t ∈ tr, t.label.thread = some i) → x.setThread i { x.threads i with loop := .invoking buf } = x₀) ∧
      ∃ tr', tr'.map (·.label) = besides i tr ∧
        (handOvers fds mtu client x₀).Run tr' (x.setThread i { x.threads i with loop := .invoking buf }) ∧
        ∀ tr₂ z, (x.threads i).loop = .invoking buf → (handOvers fds mtu client x).Run tr₂ z →
          (handOvers fds mtu client x₀).Run (tr' ++ tr₂) z := by
  have htr := (Traceless.run hc₀ hi₀ hl₀ h href).resolve_right fun htaken => htaken.calls hc
  obtain ⟨hoff, hi⟩ := htr.unmoved.of_none hc
  obtain ⟨tr', hrun, hlabels⟩ := htr.erased
  have herase : x.erase i buf = _ := erase_between hc hi
  refine ⟨⟨hoff, hi⟩, htr.quiet, fun p => ?_, fun hall => ?_, tr', hlabels, by rw [← herase]; exact hrun, ?_⟩
  · rw [htr.count p, armed, hc]
    rfl
  · have hnil : besides i tr = [] := by
      simpa [besides] using hall
    rw [hnil, List.map_eq_nil_iff] at hlabels
    subst hlabels
    rw [← herase]
    exact hrun.of_nil
  · intro tr₂ z hl hz
    rw [erase_start hc hi hl] at hrun
    exact hrun.append hz (fun _ hy => hy) fun y l y' hs => hs

end

/-- A thread with its frame, before it hands it over. -/
def offering (pipes : Pipes) (buf : TunnelFrameBuffer) : SendingStack Unit Unit where
  pipes
  threads _ := { loop := .invoking buf, mtuBuffer := [], bytesIn := 0 }
  calls _ := none
  sockets := .start Unit Unit
  interrupted := false
  aborted := none

/-- The pipes are attached, and the socket refuses the frame. -/
theorem refused_no_trace_once : ∃ (pipes : Pipes) (tr : HandOvers Unit Unit) (x : SendingStack Unit Unit),
    TunnelFramePipe.attached = .ok pipes ∧
    (handOvers (fun _ => ⟨"tun", 3⟩) 1500 none (offering pipes ⟨fun _ => 0xAA, 163⟩)).Run tr x ∧
      tr.map (·.label) = [.stack (.invoke ()), .stack (.pipe ()), .stack (.pipe ()), .stack (.enter ()),
        .stack (.socket (.select ())), .stack (.leave ()), .stack (.pipe ()), .stack (.pipe ()), .stack (.pipe ()),
        .stack (.outcome ())] ∧
      (x.threads ()).loop.Offers ⟨fun _ => 0xAA, 163⟩ ∧ ∀ p, ownCount () p tr = 0 := by
  generalize (⟨fun _ => 0xAA, 163⟩ : TunnelFrameBuffer) = buf
  obtain ⟨pipes, hp, hch⟩ := TunnelFramePipe.attached_chain
  have halive : ∀ {x : SendingStack Unit Unit}, x.sockets.crash = none → x.aborted = none →
      (x.threads ()).loop = .invoking buf → x.Alive :=
    fun h h' hl => ⟨h, h', fun _ c hc => by rw [hl] at hc; cases hc⟩
  have h : (handOvers (fun _ => ⟨"tun", 3⟩) 1500 none (offering pipes buf)).Run [] (offering pipes buf) := .init rfl
  obtain ⟨_, h, hls⟩ := h.labelled (l := .stack (.invoke ())) rfl ⟨halive rfl rfl rfl, .stack (.invoke rfl rfl)⟩
  obtain ⟨_, h, hls⟩ := h.labelled (l := .stack (.pipe ())) hls ⟨halive rfl rfl rfl,
    .stack (.pipe (c := .down [.tunnel] (some .compressing))
      (congrArg (fun p => some (Invocation.down [.tunnel] p)) hch.tunnel) rfl)⟩
  obtain ⟨tr₁, h, hls⟩ := h.labelled (l := .stack (.pipe ())) hls ⟨halive rfl rfl rfl,
    .stack (.pipe (c := .down [.compressing, .tunnel] (some .signing))
      (congrArg (fun p => some (Invocation.down [.compressing, .tunnel] p)) hch.compressing) rfl)⟩
  obtain ⟨x₁, h, hcall, ht, hs, ha⟩ : ∃ x, (handOvers _ 1500 none (offering pipes buf)).Run tr₁ x ∧
      x.calls () = some (.down [.signing, .compressing, .tunnel] (some .socket)) ∧
      x.threads () = ⟨.invoking buf, [], 0⟩ ∧ x.sockets = .start Unit Unit ∧ x.aborted = none :=
    ⟨_, h, congrArg (fun p => some (Invocation.down [.signing, .compressing, .tunnel] p)) hch.signing, rfl, rfl, rfl⟩
  have hl : (x₁.threads ()).loop = .invoking buf := by rw [ht]
  have hc : x₁.sockets.crash = none := by rw [hs]; rfl
  -- The socket has no session, and refuses.
  obtain ⟨_, h, hls⟩ := h.labelled (l := .stack (.enter ())) hls ⟨halive hc ha hl,
    .stack (.enter hcall hl (.call (by rw [hs]; rfl)))⟩
  obtain ⟨_, h, hls⟩ := h.labelled (l := .stack (.socket (.select ()))) hls ⟨halive hc ha hl,
    .stack (.socket id (.notYetReady SocketState.setSender_self (by rw [SocketState.setSender_map, hs]; rfl)))⟩
  obtain ⟨tr₂, h, hls⟩ := h.labelled (l := .stack (.leave ())) hls ⟨halive hc ha hl,
    .stack (.leave (by exact hcall) SocketState.setSender_self (.leave SocketState.setSender_self))⟩
  obtain ⟨x₂, h, hcall, hl, hc, ha⟩ : ∃ x, (handOvers _ 1500 none (offering pipes buf)).Run tr₂ x ∧
      x.calls () = some (.up [.signing, .compressing, .tunnel]
        (.error (NotYetReadyException "The other side of the tunnel is not connected yet"))) ∧
      (x.threads ()).loop = .invoking buf ∧ x.sockets.crash = none ∧ x.aborted = none :=
    ⟨_, h, setCall_self, congrArg TunnelThread.loop setThread_self, hc, ha⟩
  -- Back through the pipes.
  obtain ⟨_, h, hls⟩ := h.labelled (l := .stack (.pipe ())) hls ⟨halive hc ha hl, .stack (.pipe hcall rfl)⟩
  obtain ⟨_, h, hls⟩ := h.labelled (l := .stack (.pipe ())) hls ⟨halive hc ha hl, .stack (.pipe setCall_self rfl)⟩
  obtain ⟨tr₃, h, hls⟩ := h.labelled (l := .stack (.pipe ())) hls ⟨halive hc ha hl, .stack (.pipe setCall_self rfl)⟩
  have hstep : ∀ t : TunnelThread, t.loop = .invoking buf →
      t.step ⟨"tun", 3⟩ 1500 x₂.interrupted (.outcome buf (.error (NotYetReadyException
        "The other side of the tunnel is not connected yet"))) = some { t with loop := .sleep buf } := by
    intro t ht
    simp only [TunnelThread.step, ht]
    rfl
  have h := h.step (l := .stack (.outcome ())) ⟨halive hc ha hl, .stack (.outcome setCall_self (by exact hl)
    (by exact hstep _ hl))⟩
  have hall := refused_no_trace (i := ()) rfl rfl rfl h (fun t ht hl => by
    rcases List.mem_append.1 ht with ht | ht
    · have hmem := List.mem_map_of_mem (f := Transition.label) ht
      rw [hls, hl] at hmem
      simp at hmem
    · rw [List.mem_singleton.1 ht]
      exact ⟨_, setCall_self, rfl⟩) setCall_self
  refine ⟨pipes, _, _, hp, h, ?_, hall.1.1, hall.2.2.1⟩
  rw [List.map_append, hls]
  rfl

end SendingStack

end RuralPipe
