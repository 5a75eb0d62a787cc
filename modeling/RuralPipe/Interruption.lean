/-
What `_interrupted` does to the threads that look at it.

A thread of the tunnel looks at it before it waits and before it hands a frame
over. With nobody at the other end of the pipes, as when the tunnel's own
destructor joins its threads, each has no more than six steps left
(`interrupted_threads_end`).

A receive loop looks at it only between two frames, so one more frame may come,
and until one does, or the stream fails, the loop stays in `receive`
(`interrupted_delivers_once`).
-/
import RuralPipe.EndToEnd
import RuralPipe.Teardown

namespace RuralPipe

open Machine

/-! ## The tunnel's threads -/

namespace TunnelLoop

/-- The steps left before the end, those of the call in progress apart. -/
def left : TunnelLoop → Nat
  | .frame _ => 2
  | .wait _ _ => 1
  | .poll _ _ => 3
  | .read _ _ _ => 2
  | .handOver _ => 1
  | .invoking _ => 3
  | .sleep _ => 2
  | .ended _ => 0

def reading : TunnelLoop → Bool
  | .read _ _ _ => true
  | _ => false

end TunnelLoop

/-- The steps left of a call that finds nobody beyond the tunnel. -/
def Invocation.left : Option Invocation → Nat
  | none => 3
  | some (.down _ _) => 2
  | some (.up inside _) => inside.length

namespace TunnelThread

variable {fd : FileDescriptor} {mtu : Nat} {t t' : TunnelThread} {ev : LoopEvent}

/-- The frame takes the datagram or is closed without it. -/
theorem append_left (t : TunnelThread) (w : TunnelFrameWriter) (n : Nat) : (t.append w n).loop.left ≤ 1 ∧
    ∀ buf, (t.append w n).loop ≠ .invoking buf := by
  unfold append
  split
  · split
    · exact ⟨Nat.zero_le _, by simp⟩
    · exact ⟨Nat.le_refl _, by simp⟩
  · split
    · rename_i e _
      cases e <;> exact ⟨Nat.zero_le _, by simp [fail]⟩
    · exact ⟨Nat.le_refl _, by simp⟩

theorem polled_left (t : TunnelThread) (w : TunnelFrameWriter) (n res : Nat) : (t.polled w n res).loop.left ≤ 2 ∧
    ∀ buf, (t.polled w n res).loop ≠ .invoking buf := by
  unfold polled
  split
  · split
    · exact ⟨by simp [TunnelLoop.left], by simp⟩
    · exact ⟨by simp [TunnelLoop.left], by simp⟩
  · split
    · exact ⟨Nat.le_refl _, by simp⟩
    · exact ⟨Nat.zero_le _, by simp⟩

/-- Once interrupted, every step of a thread but a repeated read brings it nearer
its end, and none begins a hand-over. -/
theorem step_left (h : t.step fd mtu true ev = some t') :
    t'.loop.left + (if t.loop.reading && t'.loop.reading then 0 else 1) ≤ t.loop.left ∧
      ∀ buf, t'.loop ≠ .invoking buf := by
  cases step_taken h with
  | frame hl hw => simp [hl, TunnelLoop.left, TunnelLoop.reading]
  | wait hl => simp [hl, wait, TunnelLoop.left, TunnelLoop.reading]
  | pollThrows hl => simp [hl, TunnelLoop.left, TunnelLoop.reading]
  | @polled w n res hl =>
    have hp := polled_left t w n res
    rw [hl]
    exact ⟨Nat.succ_le_succ hp.1, hp.2⟩
  | readThrows hl hsm => simp [hl, TunnelLoop.left, TunnelLoop.reading]
  | again hl hne => simp [hl, TunnelLoop.left, TunnelLoop.reading]
  | @read w n io d hl hd hle =>
    have ha := append_left { t with mtuBuffer := d } w n
    rw [hl]
    refine ⟨?_, ha.2⟩
    have hle : (if (TunnelLoop.read w n io).reading && ({ t with mtuBuffer := d }.append w n).loop.reading
        then 0 else 1) ≤ 1 := by split <;> decide
    exact Nat.add_le_add ha.1 hle
  | handOver hl => simp [hl, TunnelLoop.left, TunnelLoop.reading]
  | sleep hl => simp [hl, TunnelLoop.left, TunnelLoop.reading]
  | accepted hl => simp [hl, TunnelLoop.left, TunnelLoop.reading]
  | refused hl hx => simp [hl, TunnelLoop.left, TunnelLoop.reading]
  | failed hl hx => simp [hl, TunnelLoop.left, TunnelLoop.reading]

/-- A thread that is neither at its end nor in its hand-over can go on. -/
theorem can_step (hend : ¬ t.Ended) (hinv : ∀ buf, t.loop ≠ .invoking buf) :
    ∃ ev t', ev.Own ∧ t.step fd mtu true ev = some t' := by
  cases hl : t.loop with
  | frame buffer =>
    obtain ⟨w, hw, -⟩ := TunnelFrameWriter.new_holds ⟨buffer, kTunnelFrameMaxSize⟩
      (show kTunnelFrameMinSize ≤ kTunnelFrameMaxSize by decide) (Nat.le_refl _)
    exact ⟨.tau, _, trivial, by simp only [step, hl, hw]; rfl⟩
  | wait w n => exact ⟨.tau, _, trivial, by simp only [step, hl]; rfl⟩
  | poll w n => exact ⟨.polled (.ok 0), _, trivial, by simp only [step, hl]; rfl⟩
  | read w n io =>
    cases io with
    | call => exact ⟨.io (.call (.error EWOULDBLOCK)), _, trivial, by simp only [step, hl]; rfl⟩
    | poll => exact ⟨.io (.poll (.ok 1)), _, trivial, by simp only [step, hl]; rfl⟩
  | handOver buf => exact ⟨.tau, _, trivial, by simp only [step, hl]; rfl⟩
  | invoking buf => exact absurd hl (hinv buf)
  | sleep buf => exact ⟨.tau, _, trivial, by simp only [step, hl]; rfl⟩
  | ended why => exact absurd ⟨why, hl⟩ hend

end TunnelThread

namespace SendingStack

variable {S K : Type} {x x' : SendingStack S K} {i : S}

/-- The steps a thread has left, repeated reads apart. -/
def left (x : SendingStack S K) (i : S) : Nat :=
  match (x.threads i).loop with
  | .invoking _ => 3 + Invocation.left (x.calls i)
  | l => l.left

theorem left_invoking {buf : TunnelFrameBuffer} (h : (x.threads i).loop = .invoking buf) :
    x.left i = 3 + Invocation.left (x.calls i) := by rw [left, h]

theorem left_outside (h : ∀ buf, (x.threads i).loop ≠ .invoking buf) : x.left i = (x.threads i).loop.left := by
  unfold left
  split
  · rename_i buf hl
    exact absurd hl (h buf)
  · rfl

/-- A call beside which nothing is attached is in the tunnel's pipe at most. -/
theorem Within.at_tunnel (h : x.Within 0 0) {c : Invocation} (hc : x.calls i = some c) :
    c = .down [.tunnel] none ∨ ∃ inside res, c = .up inside res ∧ (inside = [] ∨ inside = [.tunnel]) := by
  have hplaced := h.placed i c hc
  cases c with
  | down inside next =>
    obtain ⟨p, -, rfl, hd, hnext⟩ := hplaced
    cases p with
    | tunnel =>
      rcases hnext with rfl | ⟨-, hlt⟩
      · exact .inl rfl
      · exact absurd hlt (Nat.lt_irrefl _)
    | _ => exact absurd hd (by decide)
  | up inside res =>
    refine .inr ⟨inside, res, rfl, hplaced.imp_right fun hp => ?_⟩
    obtain ⟨p, -, rfl, hd⟩ := hp
    cases p with
    | tunnel => rfl
    | _ => exact absurd hd (by decide)

theorem Within.left_le (h : x.Within 0 0) (i : S) : x.left i ≤ 6 := by
  unfold left
  split
  · cases hc : x.calls i with
    | none => exact Nat.le_refl 6
    | some c =>
      rcases h.at_tunnel hc with rfl | ⟨inside, res, rfl, rfl | rfl⟩ <;> simp [Invocation.left]
  · cases (x.threads i).loop <;> simp [TunnelLoop.left]

/-- A step of the stack leaves the tunnel interrupted. -/
theorem interrupted_step [DecidableEq S] [DecidableEq K] {fds : S → FileDescriptor} {mtu : Nat}
    {client : Option SessionId} {l : StackLabel S K} (h : x.interrupted = true)
    (hs : StackStep fds mtu client x l x') : x'.interrupted = true := by
  cases hs with
  | interrupt => rfl
  | _ => exact h

section
variable [DecidableEq S] [DecidableEq K] {fds : S → FileDescriptor} {mtu : Nat} {client : Option SessionId}
  {l : StackLabel S K}

/-- With nothing attached, what a thread does leads to its end. -/
theorem left_step (h : x.Within 0 0) (hint : x.interrupted = true) (hs : StackStep fds mtu client x l x')
    (hl : l.thread = some i) :
    x'.left i + (if (x.threads i).loop.reading && (x'.threads i).loop.reading then 0 else 1) ≤ x.left i ∧
      ((∃ buf, (x'.threads i).loop = .invoking buf) → ∃ buf, (x.threads i).loop = .invoking buf) := by
  have hidle := h.senders_idle (by decide) i
  cases hs with
  | @loop i' ev t ho hst =>
    cases hl
    have hno : ∀ buf, (x.threads i).loop ≠ .invoking buf := fun buf hl => by
      rw [TunnelThread.step_invoking hl ho] at hst
      cases hst
    rw [hint] at hst
    obtain ⟨hle, hno'⟩ := TunnelThread.step_left hst
    have hself : (x.setThread i t).threads i = t := setThread_self
    have hno'' : ∀ buf, ((x.setThread i t).threads i).loop ≠ .invoking buf := by rwa [hself]
    rw [left_outside hno, left_outside hno'', hself]
    exact ⟨hle, fun hb => absurd hb (not_exists.mpr hno')⟩
  | @invoke i' buf hl' hc =>
    cases hl
    have hbuf' : (({ x with pipes := (Invocation.invoke x.pipes [] .tunnel).1 }.setCall i
        (some (Invocation.invoke x.pipes [] .tunnel).2)).threads i).loop = .invoking buf := hl'
    rw [left_invoking hbuf', left_invoking hl', hc, setCall_self, hl', hbuf']
    refine ⟨?_, fun _ => ⟨buf, rfl⟩⟩
    exact Nat.le_refl _
  | @pipe i' c pipes c' hc hst =>
    cases hl
    obtain ⟨buf, hbuf⟩ := h.invoking i c hc
    have hbuf' : (({ x with pipes }.setCall i (some c')).threads i).loop = .invoking buf := hbuf
    rw [left_invoking hbuf, left_invoking hbuf', hc, setCall_self, hbuf, hbuf']
    refine ⟨?_, fun _ => ⟨buf, rfl⟩⟩
    rcases h.at_tunnel hc with rfl | ⟨inside, res, rfl, rfl | rfl⟩ <;> cases hst
    · exact Nat.le_refl _
    · exact Nat.le_refl _
  | pipeAborts hc hst => exact absurd hst (h.no_abort hc)
  | enter hc hl' hst =>
    rcases h.at_tunnel hc with he | ⟨_, _, he, -⟩ <;> cases he
  | leave hc hi hst =>
    rcases h.at_tunnel hc with he | ⟨_, _, he, -⟩ <;> cases he
  | @outcome i' buf res t hc hl' hst =>
    cases hl
    rw [hint] at hst
    obtain ⟨hle, hno'⟩ := TunnelThread.step_left hst
    have hself : ((x.setThread i t).setCall i none).threads i = t := setThread_self
    have hno'' : ∀ buf, (((x.setThread i t).setCall i none).threads i).loop ≠ .invoking buf := by rwa [hself]
    rw [left_invoking hl', left_outside hno'', hself, hc]
    rw [hl'] at hle ⊢
    exact ⟨hle, fun hb => absurd hb (not_exists.mpr hno')⟩
  | socket hno hst => exact absurd (hst.ofCaller hl (.inl hidle)) hno
  | interrupt => cases hl

theorem left_other (hs : StackStep fds mtu client x l x') (hl : l.thread ≠ some i) : x'.left i = x.left i := by
  simp only [left, threads_other hs hl, calls_other hs hl]

/-- And it can go on until then. -/
theorem Within.can_step (h : x.Within 0 0) (hint : x.interrupted = true) (hend : ¬ (x.threads i).Ended) :
    ∃ l x', l.thread = some i ∧ (∀ l', l ≠ .socket l') ∧ StackStep fds mtu client x l x' := by
  by_cases hinv : ∃ buf, (x.threads i).loop = .invoking buf
  · obtain ⟨buf, hbuf⟩ := hinv
    cases hc : x.calls i with
    | none => exact ⟨.invoke i, _, rfl, (by simp), .invoke hbuf hc⟩
    | some c =>
      rcases h.at_tunnel hc with rfl | ⟨inside, res, rfl, rfl | rfl⟩
      · exact ⟨.pipe i, _, rfl, (by simp), .pipe hc rfl⟩
      · obtain ⟨t, hst⟩ : ∃ t, (x.threads i).step (fds i) mtu x.interrupted (.outcome buf res) = some t := by
          simp only [TunnelThread.step, hbuf]
          cases res with
          | ok u => exact ⟨_, rfl⟩
          | error ex =>
            simp only
            split <;> exact ⟨_, rfl⟩
        exact ⟨.outcome i, _, rfl, (by simp), .outcome hc hbuf hst⟩
      · exact ⟨.pipe i, _, rfl, (by simp), .pipe hc rfl⟩
  · obtain ⟨ev, t, ho, hst⟩ : ∃ ev t, ev.Own ∧ (x.threads i).step (fds i) mtu true ev = some t :=
      TunnelThread.can_step hend fun buf hb => hinv ⟨buf, hb⟩
    rw [← hint] at hst
    exact ⟨.loop i ev, _, rfl, (by simp), .loop ho hst⟩

end

end SendingStack

section
variable {S K : Type} [DecidableEq S] [DecidableEq K] {fds : S → FileDescriptor} {mtu : Nat} {client : Option SessionId}

/-- The thread `i` took the step, and not from one read to the next: the kernel
may have it try that any number of times. -/
def GoesOn (i : S) (u : Machine.Transition (Lifecycle S K) (LifeLabel S K)) : Bool :=
  match u.label with
  | .stack l =>
    l.thread == some i && !((u.pre.stack.threads i).loop.reading && (u.post.stack.threads i).loop.reading)
  | _ => false

/-- A step that leaves no socket side is one of the stack. -/
theorem Lifecycle.absent_step {x x' : Lifecycle S K} {l : LifeLabel S K} (hph : x.phase = .absent)
    (hs : LifeStep fds mtu client x l x') (hph' : x'.phase = .absent) :
    ∃ l', l = .stack l' ∧ StackStep fds mtu client x.stack l' x'.stack := by
  cases hs with
  | stack hper hst => exact ⟨_, rfl, hst⟩
  | construct => cases hph'
  | push h | pushAborts h | interrupt h | join h | joinAborts h | pop h | popAborts h | recheck h | popped h =>
    rw [hph] at h
    cases h

theorem Lifecycle.within_absent {x : Lifecycle S K} (h : (lifecycle K fds mtu client).Reachable x)
    (hph : x.phase = .absent) : x.stack.Within 0 0 := by
  have hw := (reachable_inv h).within
  rwa [hph] at hw

open Lifecycle

/-- **Interrupted threads end.** Once the tunnel is interrupted and while there
is no socket side, a thread takes at most six steps, repeated reads apart, and
begins no hand-over; and it has not got stuck before its end. -/
theorem interrupted_threads_end {tr : List (Machine.Transition (Lifecycle S K) (LifeLabel S K))} {x : Lifecycle S K}
    (h : (lifecycle K fds mtu client).Run tr x) {l₁ l₂ : List (Machine.Transition (Lifecycle S K) (LifeLabel S K))}
    {t : Machine.Transition (Lifecycle S K) (LifeLabel S K)} (htr : tr = l₁ ++ t :: l₂)
    (hint : t.post.stack.interrupted = true) (habsent : ∀ u ∈ t :: l₂, u.post.phase = .absent) (i : S) :
    l₂.countP (GoesOn i) ≤ 6 ∧
    (∀ u ∈ l₂, (∃ buf, (u.post.stack.threads i).loop = .invoking buf) →
      ∃ buf, (u.pre.stack.threads i).loop = .invoking buf) ∧
    (x.stack.Alive → (x.stack.threads i).Ended ∨
      ∃ l x', l.thread = some i ∧ (lifecycle K fds mtu client).step x (.stack l) x') := by
  subst htr
  let I : Lifecycle S K → Prop := fun y => y.stack.interrupted = true ∧ y.phase = .absent
  let C : Machine.Transition (Lifecycle S K) (LifeLabel S K) → Prop := fun u => u.post.phase = .absent
  have hstep : ∀ y l y', (lifecycle K fds mtu client).Reachable y → I y → C ⟨y, l, y'⟩ →
      (lifecycle K fds mtu client).step y l y' → I y' ∧
        y'.stack.left i + (if GoesOn i ⟨y, l, y'⟩ then 1 else 0) ≤ y.stack.left i ∧
        ((∃ buf, (y'.stack.threads i).loop = .invoking buf) → ∃ buf, (y.stack.threads i).loop = .invoking buf) := by
    intro y l y' hr hI hC hs
    obtain ⟨l', rfl, hst⟩ := absent_step hI.2 hs.2 hC
    refine ⟨⟨SendingStack.interrupted_step hI.1 hst, hC⟩, ?_⟩
    by_cases hl : l'.thread = some i
    · obtain ⟨hle, hinv⟩ := SendingStack.left_step (within_absent hr hI.2) hI.1 hst hl
      refine ⟨?_, hinv⟩
      cases hreads : ((y.stack.threads i).loop.reading && (y'.stack.threads i).loop.reading) <;>
        simpa [GoesOn, hl, hreads] using hle
    · have hleft := SendingStack.left_other hst hl
      rw [SendingStack.threads_other hst hl]
      exact ⟨by simp [GoesOn, hl, hleft], id⟩
  have hC : ∀ u ∈ l₂, C u := fun u hu => habsent u (List.mem_cons_of_mem _ hu)
  have h₀ : I t.post := ⟨hint, habsent t List.mem_cons_self⟩
  have hrun := h.measure_since (fun y => y.stack.left i)
    (fun y l y' hr hI hC hs => ⟨(hstep y l y' hr hI hC hs).1, (hstep y l y' hr hI hC hs).2.1⟩) h₀ hC
  obtain ⟨hI, hall⟩ := h.since (fun y l y' hr hI hC hs => (hstep y l y' hr hI hC hs).1) h₀ hC
  have htmem : t ∈ l₁ ++ t :: l₂ := by simp
  refine ⟨?_, fun u hu => ?_, fun halive => ?_⟩
  · have hle := (within_absent (h.transition t htmem).2.2 h₀.2).left_le i
    omega
  · -- What precedes a step of `l₂` is the post of `t`, or of a step before it.
    obtain ⟨a, b, rfl⟩ := List.append_of_mem hu
    rw [← List.cons_append, ← List.append_assoc] at h
    obtain ⟨hr, hs⟩ := h.before
    have hpre := (hr.since (fun y l y' hr hI hC hs => (hstep y l y' hr hI hC hs).1) h₀
      fun v hv => hC v (List.mem_append_left _ hv)).1
    exact (hstep _ _ _ hr.reachable hpre (hC u hu) hs).2.2
  · by_cases hend : (x.stack.threads i).Ended
    · exact .inl hend
    · obtain ⟨l, stack, hl, hno, hst⟩ : ∃ l stack, l.thread = some i ∧ (∀ l', l ≠ .socket l') ∧
          StackStep fds mtu client x.stack l stack := (within_absent h.reachable hI.2).can_step hI.1 hend
      refine .inr ⟨l, { x with stack }, hl, halive, .stack ?_ hst⟩
      cases l with
      | socket l => exact absurd rfl (hno l)
      | _ => exact trivial

end

/-- Interrupted on its way into a hand-over, the one thread takes the six steps. -/
theorem interrupted_threads_end_offering :
    ∃ (l₁ l₂ : List (Machine.Transition (Lifecycle Unit Unit) (LifeLabel Unit Unit)))
      (t : Machine.Transition (Lifecycle Unit Unit) (LifeLabel Unit Unit)) (x : Lifecycle Unit Unit),
    oneQueue.Run (l₁ ++ t :: l₂) x ∧ t.label = .stack .interrupt ∧ l₂.length = 6 ∧ (x.stack.threads ()).Ended ∧
    l₂.countP (GoesOn ()) ≤ 6 := by
  obtain ⟨tr, t, buf, hbuf, h⟩ := run_offering
  have halive : ∀ {x : SendingStack Unit Unit}, x.sockets.crash = none → x.aborted = none → x.threads () = t →
      x.Alive := fun hc ha ht => alive_offering hc ha (ht ▸ hbuf)
  have h := h.step (l := .stack .interrupt) ⟨halive rfl rfl rfl, .stack (l := .interrupt) trivial .interrupt⟩
  have h := h.step (l := .stack (.invoke ())) ⟨halive rfl rfl rfl, .stack (l := .invoke ()) trivial (.invoke hbuf rfl)⟩
  have h := h.step (l := .stack (.pipe ())) ⟨halive rfl rfl rfl, .stack (l := .pipe ()) trivial (.pipe rfl rfl)⟩
  have h := h.step (l := .stack (.pipe ())) ⟨halive rfl rfl rfl, .stack (l := .pipe ()) trivial (.pipe rfl rfl)⟩
  have hsleep : t.step ⟨"tun", 3⟩ 1500 true
      (.outcome buf (.error (NotYetReadyException "Received frame before the pipe was configured"))) =
      some { t with loop := .sleep buf } := by
    simp only [TunnelThread.step, hbuf]
    rfl
  have h := h.step (l := .stack (.outcome ()))
    ⟨halive rfl rfl rfl, .stack (l := .outcome ()) trivial (.outcome rfl hbuf hsleep)⟩
  have hgoes : ∀ {x : SendingStack Unit Unit} {l : TunnelLoop}, x.sockets.crash = none → x.aborted = none →
      (x.threads ()).loop = l → (∀ c, l ≠ .ended (.abort c)) → x.Alive :=
    fun hc ha hl hne => ⟨hc, ha, fun i c he => hne c (hl.symm.trans he)⟩
  have h := h.step (l := .stack (.loop () .tau))
    ⟨hgoes rfl rfl rfl (by simp), .stack (l := .loop () .tau) trivial (.loop trivial rfl)⟩
  have h := h.step (l := .stack (.loop () .tau))
    ⟨hgoes rfl rfl rfl (by simp), .stack (l := .loop () .tau) trivial (.loop trivial rfl)⟩
  simp only [List.append_assoc, List.cons_append, List.nil_append] at h
  refine ⟨_, _, _, _, h, rfl, rfl, ⟨_, rfl⟩, (interrupted_threads_end h rfl rfl ?_ ()).1⟩
  simp only [List.forall_mem_cons, List.not_mem_nil, false_implies, implies_true, and_true]

/-! ## The receive loops -/

namespace ReceiveLoop

/-- Frames a loop may still take off its stream once it is interrupted. -/
def left : ReceiveLoop → Nat
  | .receiving _ => 1
  | _ => 0

def delivers : ReceiveLoop → Bool
  | .delivering _ => true
  | _ => false

/-- The loop waits in `receive` for bytes of its stream. -/
def Waits (l : ReceiveLoop) : Prop := ∃ r, l = .receiving r ∧ TunnelFrameStream.receiveTarget r ≠ none

end ReceiveLoop

namespace ReceivingStack

variable {K : Type} [DecidableEq K] {x x' : ReceivingStack K} {k : K} {ev : ReceiveEvent}
  {out : Option (Nat × List UInt8)}

/-- Interrupted, a loop begins to deliver no more than the frame it is about to
have. -/
theorem step_left (hint : x.interrupted = true) (h : x.step k ev = some (x', out)) :
    (x'.loops k).left + (if (x'.loops k).delivers && !(x.loops k).delivers then 1 else 0) ≤ (x.loops k).left := by
  cases hl : x.loops k with
  | head =>
    cases ev with
    | tau =>
      simp only [step, hl, hint] at h
      cases h
      simp [ReceiveLoop.left, ReceiveLoop.delivers]
    | read ev | deliver ev => simp [step, hl] at h
  | receiving r =>
    cases hl' : x'.loops k with
    | delivering d | head | receiving r' | ended e => simp [ReceiveLoop.left, ReceiveLoop.delivers]
  | delivering d =>
    have hz : (x'.loops k).left = 0 := by
      cases ev with
      | tau =>
        cases d with
        | returned | failed e =>
          simp only [step, hl] at h
          cases h
          rw [setLoop_self]
          rfl
        | next r | lock r idx | write r idx io => simp [step, hl] at h
      | read ev => simp [step, hl] at h
      | deliver ev =>
        simp only [step, hl] at h
        split at h
        · cases h
        · cases h
          rw [setLoop_self]
          rfl
    rw [hz]
    simp [ReceiveLoop.delivers]
  | ended e => cases ev <;> simp [step, hl] at h

/-- Given nothing, a loop in `receive` stays there. -/
theorem step_waits (hsm : ev.Smooth) (hno : ev.bytes = []) (h : x.step k ev = some (x', out))
    (hw : (x.loops k).Waits) : (x'.loops k).Waits := by
  obtain ⟨r, hl, hr⟩ := hw
  cases ev with
  | tau =>
    cases r with
    | header n io => simp [step, hl] at h
    | body n t io => simp [step, hl] at h
    | returned buf => exact absurd rfl hr
    | failed e => exact absurd rfl hr
  | deliver ev => simp [step, hl] at h
  | read ev =>
    -- Of what a smooth read can come to, only bytes take `receive` on.
    have hagain : ∀ {n io at'}, (x.streams k).fd.readStep n io ev = some at' → ∃ io', at' = .again io' := by
      intro n io at' hst
      rcases FileDescriptor.retryStep_cases hst with ⟨bs, -, rfl, hpos, -⟩ | ⟨io', rfl, -⟩ | ⟨-, -, -, -, hbad, -⟩
      · exact absurd (congrArg List.length hno) (Nat.ne_of_gt hpos)
      · exact ⟨io', rfl⟩
      · exact absurd hsm hbad
    cases r with
    | header n io =>
      simp only [step, hl, TunnelFrameStream.receiveStep] at h
      cases hst : (x.streams k).fd.readStep (sizeofTunnelFrameHeaderInfo - n) io ev with
      | none => simp [hst] at h
      | some at' =>
        obtain ⟨io', rfl⟩ := hagain hst
        simp only [hst] at h
        cases h
        exact ⟨.header n io', setLoop_self, by simp [TunnelFrameStream.receiveTarget]⟩
    | body n t io =>
      simp only [step, hl, TunnelFrameStream.receiveStep] at h
      cases hst : (x.streams k).fd.readStep (t - n) io ev with
      | none => simp [hst] at h
      | some at' =>
        obtain ⟨io', rfl⟩ := hagain hst
        simp only [hst] at h
        cases h
        exact ⟨.body n t io', setLoop_self, by simp [TunnelFrameStream.receiveTarget]⟩
    | returned buf => exact absurd rfl hr
    | failed e => exact absurd rfl hr

end ReceivingStack

section
variable {S K : Type} [DecidableEq S] [DecidableEq K] {fds : S → FileDescriptor} {mtu : Nat} {client : Option SessionId}

/-- The loop `k` has taken a whole frame and turns to its datagrams. -/
def Delivers (k : K) (u : Machine.Transition (EndToEnd S K) (EndToEndLabel S K)) : Bool :=
  (u.post.receiving.loops k).delivers && !(u.pre.receiving.loops k).delivers

/-- Whatever else moves, a loop only moves by its own steps. -/
theorem EndToEnd.loop_step {x x' : EndToEnd S K} {l : EndToEndLabel S K} (hs : EndToEndStep fds mtu client x l x') (k : K) :
    x'.receiving.loops k = x.receiving.loops k ∧ x'.taken k = x.taken k ∨
      ∃ ev out, l = .receive k ev ∧ x.receiving.step k ev = some (x'.receiving, out) ∧
        x'.taken k = x.taken k + ev.bytes.length := by
  cases hs with
  | send | interrupt => exact .inl ⟨rfl, rfl⟩
  | @receive k' ev receiving out hal hb hst =>
    by_cases hk : k = k'
    · subst hk
      exact .inr ⟨ev, out, rfl, hst, Function.update_self ..⟩
    · exact .inl ⟨((ReceivingStack.step_others hst).2.2 k hk).1, Function.update_of_ne hk ..⟩

theorem EndToEnd.interrupted_step {x x' : EndToEnd S K} {l : EndToEndLabel S K} (h : x.receiving.interrupted = true)
    (hs : EndToEndStep fds mtu client x l x') : x'.receiving.interrupted = true := by
  cases hs with
  | send => exact h
  | interrupt => rfl
  | receive hal hb hst => exact (ReceivingStack.step_others hst).2.1.trans h

/-- **An interrupted loop takes one more frame at most**: the one it is in
`receive` for, if any. And it waits for that one: until its stream brings
something, or fails, the loop stays where it is, whatever else goes on. -/
theorem interrupted_delivers_once {tr : List (Machine.Transition (EndToEnd S K) (EndToEndLabel S K))} {x : EndToEnd S K}
    (h : (endToEnd K fds mtu client).Run tr x) {l₁ l₂ : List (Machine.Transition (EndToEnd S K) (EndToEndLabel S K))}
    {t : Machine.Transition (EndToEnd S K) (EndToEndLabel S K)} (htr : tr = l₁ ++ t :: l₂)
    (hint : t.post.receiving.interrupted = true) (k : K) :
    l₂.countP (Delivers k) + (x.receiving.loops k).left ≤ (t.post.receiving.loops k).left ∧
    ((t.post.receiving.loops k).Waits →
      (∀ u ∈ l₂, ∀ ev, u.label = .receive k ev → ev.Smooth ∧ ev.bytes = []) →
      (x.receiving.loops k).Waits ∧ x.taken k = t.post.taken k) := by
  subst htr
  constructor
  · refine h.measure_since (I := fun y => y.receiving.interrupted = true) (C := fun _ => True)
      (fun y => (y.receiving.loops k).left) (fun y l y' _ hI _ hs => ⟨EndToEnd.interrupted_step hI hs, ?_⟩) hint
      fun _ _ => trivial
    rcases EndToEnd.loop_step hs k with ⟨hl, -⟩ | ⟨ev, out, -, hst, -⟩
    · simp [Delivers, hl]
    · exact ReceivingStack.step_left hI hst
  · intro hw hquiet
    refine (h.since (C := fun u => ∀ ev, u.label = .receive k ev → ev.Smooth ∧ ev.bytes = [])
      (I := fun y => (y.receiving.loops k).Waits ∧ y.taken k = t.post.taken k) ?_ ⟨hw, rfl⟩ hquiet).1
    intro y l y' _ hI hC hs
    rcases EndToEnd.loop_step hs k with ⟨hl, ht⟩ | ⟨ev, out, rfl, hst, ht⟩
    · rw [hl, ht]
      exact hI
    · obtain ⟨hsm, hno⟩ := hC ev rfl
      refine ⟨ReceivingStack.step_waits hsm hno hst hI.1, ?_⟩
      rw [ht, hno]
      exact hI.2

end

/-- The loop is interrupted in `receive`, and its next read would block. -/
theorem interrupted_delivers_once_blocked : ∃ tr x, (endToEnd Unit (fun _ : Unit => ⟨"tun", 3⟩) 1500 none).Run tr x ∧
    x.receiving.interrupted = true ∧ (x.receiving.loops ()).Waits ∧ x.taken () = 0 := by
  obtain ⟨pipes, hp, -⟩ := TunnelFramePipe.attached_chain
  have h : (endToEnd Unit (fun _ : Unit => ⟨"tun", 3⟩) 1500 none).Run []
      { sending :=
          { pipes, threads := fun _ => .start, calls := fun _ => none, sockets := .start Unit Unit, interrupted := false,
            aborted := none },
        receiving :=
          { pipes, queues := ⟨[⟨"tun", 4⟩], by decide, 0, fun _ => false, fun _ => 0⟩,
            streams := fun _ => ⟨⟨"Server", 6⟩, fun _ => 0⟩, loops := fun _ => .head, interrupted := false },
        taken := fun _ => 0, read := [], written := [] } :=
    .init ⟨⟨pipes, hp, rfl⟩, ⟨hp, fun _ => rfl, rfl, fun _ => rfl⟩, fun _ => rfl, rfl, rfl⟩
  have h := h.step (l := .receive () .tau) (by exact .receive (fun _ _ h => by cases h) List.nil_prefix rfl)
  have h := h.step (l := .interrupt) (by exact .interrupt)
  have h := h.step (l := .receive () (.read (.call (.error EWOULDBLOCK))))
    (by exact .receive (fun _ _ h => by cases h) List.nil_prefix rfl)
  simp only [List.cons_append, List.nil_append] at h
  rw [← List.singleton_append] at h
  obtain ⟨-, hwaits⟩ := interrupted_delivers_once h rfl rfl ()
  obtain ⟨hw, ht⟩ := hwaits ⟨_, rfl, show some (0, sizeofTunnelFrameHeaderInfo) ≠ none by decide⟩ (by
    intro u hu ev hev
    cases List.mem_singleton.1 hu
    cases hev
    exact ⟨rfl, rfl⟩)
  exact ⟨_, _, h, rfl, hw, ht⟩

end RuralPipe
