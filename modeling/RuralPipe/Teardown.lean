/-
What holds while a `SocketProducerConsumer` comes and goes under the tunnel's
threads (`Lifecycle`).

The links are those of the pipes pushed so far and not yet popped
(`Phase.links`), and a call is in no pipe beyond those a `pipePop` still waits
to empty (`Phase.reach`). Once a pool has run out, its table is empty. So no
assertion of the constructor or the destructor fails, and whoever destroys a
pipe is alone with it.
-/
import RuralPipe.Lifecycle
import RuralPipe.PipeCalls

namespace RuralPipe

open TunnelFramePipe

/-! ## Phases -/

def Layer.depth (l : Layer) : Nat := l.pipe.depth

namespace Phase

/-- How many pipes are attached to the tunnel. -/
def links : Phase → Nat
  | .absent => 0
  | .pushing l => l.depth - 1
  | .running => 3
  | .joining => 3
  | .popping l => l.depth
  | .waiting l _ => l.depth - 1
  | .leaving l => l.depth - 1

/-- How many know the pipe before them. -/
def backs : Phase → Nat
  | .waiting l _ => l.depth
  | .leaving l => l.depth
  | ph => ph.links

/-- How many a call may be in. -/
def reach : Phase → Nat
  | .waiting l _ => l.depth
  | ph => ph.links

/-- The pipe is not pushed yet, or its `pipePop` is past the wait. -/
def Gone (ph : Phase) (l : Layer) : Prop := ph.reach < l.depth

/-- The pool's threads may run. -/
def Pooled (ph : Phase) : Prop := ph = .running ∨ ph = .joining

theorem links_le_reach (ph : Phase) : ph.links ≤ ph.reach := by
  cases ph with
  | waiting l prev => exact Nat.sub_le ..
  | _ => exact Nat.le_refl _

end Phase

/-- A push in its turn passes its assertions. -/
theorem push_links {ps : Pipes} {l : Layer} (h : Onward ps (l.depth - 1)) (h' : Backward ps (l.depth - 1)) :
    ∃ ps', pipePush ps l.pipe l.prev = .ok ps' ∧ Onward ps' l.depth ∧ Backward ps' l.depth ∧
      ∀ p, (ps' p).numCallsToNext = (ps p).numCallsToNext := by
  have hprev : (ps l.pipe).prev = none := (h' _).trans (by cases l <;> rfl)
  have hnext : (ps l.pipe).next = none := (h _).trans (by cases l <;> rfl)
  have hopen : (ps l.prev).next = none := (h _).trans (by cases l <;> rfl)
  refine ⟨_, by rw [pipePush, if_neg (not_not.2 hprev), if_neg (not_not.2 hnext), if_neg (not_not.2 hopen)], ?_⟩
  refine ⟨fun p => ?_, fun p => ?_, fun p => ?_⟩
  · have hp := h p
    cases l <;> cases p <;> simp_all [Function.update, Layer.pipe, Layer.prev, Layer.depth, PipeId.depth, PipeId.after]
  · have hp := h' p
    cases l <;> cases p <;> simp_all [Function.update, Layer.pipe, Layer.prev, Layer.depth, PipeId.depth, PipeId.before]
  · cases l <;> cases p <;> simp [Function.update, Layer.pipe, Layer.prev]

/-- And so does a pop. -/
theorem pop_links {ps : Pipes} {l : Layer} (h : Onward ps l.depth) (h' : Backward ps l.depth) :
    ∃ ps', popBegin ps l.pipe = .ok (ps', l.prev) ∧ Onward ps' (l.depth - 1) ∧ Backward ps' l.depth ∧
      ∀ p, (ps' p).numCallsToNext = (ps p).numCallsToNext := by
  have hnext : (ps l.pipe).next = none := (h _).trans (by cases l <;> rfl)
  have hprev : (ps l.pipe).prev = some l.prev := (h' _).trans (by cases l <;> rfl)
  have hat : (ps l.prev).next = some l.pipe := (h _).trans (by cases l <;> rfl)
  refine ⟨Function.update ps l.prev { ps l.prev with nextIsDetaching := true, next := none },
    by simp only [popBegin, hnext, hprev, hat, ne_eq, not_true_eq_false, if_false], ?_⟩
  refine ⟨fun p => ?_, fun p => ?_, fun p => ?_⟩
  · have hp := h p
    cases l <;> cases p <;> simp_all [Function.update, Layer.pipe, Layer.prev, Layer.depth, PipeId.depth, PipeId.after]
  · have hp := h' p
    cases l <;> cases p <;> simp_all [Function.update, Layer.pipe, Layer.prev, Layer.depth, PipeId.depth, PipeId.before]
  · cases l <;> cases p <;> simp [Function.update, Layer.prev]

theorem popEnd_links {ps : Pipes} {l : Layer} (h : Onward ps (l.depth - 1)) (h' : Backward ps l.depth) :
    Onward (popEnd ps l.pipe) (l.depth - 1) ∧ Backward (popEnd ps l.pipe) (l.depth - 1) ∧
      ∀ p, (popEnd ps l.pipe p).numCallsToNext = (ps p).numCallsToNext := by
  refine ⟨fun p => ?_, fun p => ?_, fun p => ?_⟩
  · have hp := h p
    cases l <;> cases p <;> simp_all [popEnd, Function.update, Layer.pipe]
  · have hp := h' p
    cases l <;> cases p <;> simp_all [popEnd, Function.update, Layer.pipe, Layer.depth, PipeId.depth, PipeId.before]
  · cases l <;> cases p <;> simp [popEnd, Function.update, Layer.pipe]

/-! ## Tasks -/

/-- A task that is over takes no step but to be posted. -/
theorem over_step {S K : Type} [DecidableEq S] [DecidableEq K] {client : Option SessionId} {y y' : SocketState S K}
    {l : SocketLabel S K} (hs : SocketStep client y l y') (hl : ∀ k fd, l ≠ .add k fd) {k : K}
    (h : (y.tasks k).Over) : (y'.tasks k).Over := by
  rcases task_step hs k with ⟨-, heq⟩ | ⟨-, hst⟩
  · rwa [heq]
  · generalize y.tasks k = a at h hst
    generalize y'.tasks k = a' at hst
    cases hst with
    | add => exact absurd rfl (hl _ _)
    | _ => exact h.elim

/-- When every task is over there is no session left. -/
theorem sessions_of_over {S K : Type} {y : SocketState S K} (ht : y.Table) (h : ∀ k, (y.tasks k).Over) :
    y.map.sessions = [] := by
  cases ht with
  | empty hs => exact hs
  | one s hs hne hnd hk =>
    obtain ⟨k, hmem⟩ := List.exists_mem_of_ne_nil _ hne
    have hreg := (hk k).1 hmem
    have hover := h k
    generalize y.tasks k = a at hreg hover
    cases a with
    | notAdded | done => cases hreg
    | _ => exact hover.elim

namespace Lifecycle

variable {S K : Type} [DecidableEq S] [DecidableEq K] {fds : S → FileDescriptor} {mtu : Nat}
  {client : Option SessionId} {x x' : Lifecycle S K} {l : LifeLabel S K}

variable (client) in
/-- The invariant: the pipes and the calls are as the phase has them; the
destructor waits on the pipe before the one it pops; the sockets have had a run
of their own since they were constructed; and outside the life of the pool no
task of it runs. -/
structure Inv (x : Lifecycle S K) : Prop where
  within : x.stack.Within x.phase.links x.phase.reach
  backward : Backward x.stack.pipes x.phase.backs
  prev : ∀ l prev, x.phase = .waiting l prev → prev = l.prev
  sockets : (sockets S K client).Reachable x.stack.sockets
  finished : ¬ x.phase.Pooled → ∀ k, (x.stack.sockets.tasks k).Over

theorem Inv.start : (Lifecycle.start S K).Inv client where
  within :=
    { onward := fun p => by cases p <;> rfl
      counted := fun p => Counts.zero.congr fun i => by simp [SendingStack.armed, Lifecycle.start]
      placed := fun i c hc => nomatch hc
      invoking := fun i c hc => nomatch hc
      sender := fun i hi => absurd rfl hi
      aborted := rfl }
  backward := fun p => by cases p <;> rfl
  prev := fun l prev hp => nomatch hp
  sockets := .init rfl
  finished := fun _ k => trivial

/-- A step of the stack, between two of the constructor or the destructor. -/
theorem Inv.stack (h : x.Inv client) {l : StackLabel S K} {stack : SendingStack S K} (ha : x.stack.Alive)
    (hper : x.Permits l) (hs : StackStep fds mtu client x.stack l stack) : Inv client { x with stack } := by
  refine ⟨h.within.step x.phase.links_le_reach hs, h.backward.congr (SendingStack.step_prev hs), h.prev, ?_, ?_⟩
  · have hc := ha.1
    cases hs with
    | enter _ _ hst => exact h.sockets.step ⟨hc, hst⟩
    | leave _ _ hst => exact h.sockets.step ⟨hc, hst⟩
    | socket _ hst => exact h.sockets.step ⟨hc, hst⟩
    | _ => exact h.sockets
  · intro hph k
    have hover := h.finished hph k
    cases hs with
    | enter _ _ hst => exact over_step hst (by simp) hover
    | leave _ _ hst => exact over_step hst (by simp) hover
    | socket _ hst =>
      refine over_step hst (fun k fd hl => ?_) hover
      subst hl
      exact hph (.inl hper)
    | _ => exact hover

theorem Inv.construct (h : x.Inv client) (hph : x.phase = .absent) : x.construct.Inv client := by
  have hw := h.within
  rw [hph] at hw
  have hidle := hw.senders_idle (by decide)
  have hsockets : x.construct.stack.sockets = .start S K := by
    simp only [Lifecycle.construct, SocketState.start]
    congr 1
    exact funext hidle
  refine ⟨⟨fun p => ?_, fun p => ?_, fun i c hc => hw.placed i c hc, hw.invoking, ?_, hw.aborted⟩, fun p => ?_,
    (fun l prev hp => nomatch hp), .init hsockets, fun _ k => ?_⟩
  · cases p with
    | tunnel => exact hw.onward .tunnel
    | _ => rfl
  · cases p with
    | tunnel => exact hw.counted .tunnel
    | _ =>
      refine Counts.zero.congr fun i => iff_false_intro fun hi => ?_
      exact absurd (hw.mem_armed (i := i) hi) (by decide)
  · intro i hi
    rw [hsockets] at hi
    exact absurd rfl hi
  · have hback := h.backward
    rw [hph] at hback
    cases p with
    | tunnel => exact hback .tunnel
    | _ => rfl
  · rw [hsockets]
    trivial

/-- The destructor's wait ends only on an empty pipe. -/
theorem Inv.afterWait {l : Layer} {pipes : Pipes} (hw : ({ x.stack with pipes } : SendingStack S K).Within
      (l.depth - 1) l.depth) (hback : Backward pipes l.depth) (hr : (RuralPipe.sockets S K client).Reachable x.stack.sockets)
    (hover : ∀ k, (x.stack.sockets.tasks k).Over) : (x.setPipes pipes (.afterWait pipes l l.prev)).Inv client := by
  unfold Phase.afterWait
  split
  · rename_i hcount
    refine ⟨hw.setPipes hw.onward (fun _ => rfl) fun i c hc => ?_, hback, (fun l prev hp => nomatch hp), hr,
      fun _ => hover⟩
    have hplaced := hw.emptied hcount i c hc
    cases l <;> exact hplaced
  · exact ⟨hw, hback, (fun l' prev hp => by cases hp; rfl), hr, fun _ => hover⟩

theorem Inv.step (h : x.Inv client) (hs : (lifecycle K fds mtu client).step x l x') : x'.Inv client := by
  obtain ⟨ha, hs⟩ := hs
  have hw := h.within
  have hback := h.backward
  cases hs with
  | stack hper hst => exact h.stack ha hper hst
  | construct hph => exact h.construct hph
  | @push l pipes hph hpush =>
    rw [hph] at hw hback
    have hover := h.finished (by rw [hph]; simp [Phase.Pooled])
    obtain ⟨ps', hps, hon, hba, hcount⟩ := push_links hw.onward hback
    obtain rfl : pipes = ps' := Except.ok.inj (hpush.symm.trans hps)
    have hphase : (Phase.pushed l).links = l.depth ∧ (Phase.pushed l).reach = l.depth ∧
        (Phase.pushed l).backs = l.depth := by cases l <;> exact ⟨rfl, rfl, rfl⟩
    refine ⟨?_, ?_, fun l' prev hp => ?_, h.sockets, fun _ => hover⟩
    · show ({ x.stack with pipes } : SendingStack S K).Within (Phase.pushed l).links (Phase.pushed l).reach
      rw [hphase.1, hphase.2.1]
      exact hw.setPipes hon hcount fun i c hc => (hw.placed i c hc).mono (Nat.sub_le ..)
    · show Backward pipes (Phase.pushed l).backs
      rw [hphase.2.2]
      exact hba
    · cases l <;> cases hp
  | @pushAborts l c hph hpush =>
    rw [hph] at hw hback
    obtain ⟨ps', hps, -⟩ := push_links hw.onward hback
    rw [hps] at hpush
    cases hpush
  | interrupt hph =>
    rw [hph] at hw hback
    exact ⟨hw.congr rfl rfl (fun _ _ _ => rfl) (fun i hi => .inl hi) hw.aborted, hback, (fun l prev hp => nomatch hp),
      h.sockets.step ⟨ha.1, .interrupt⟩, fun hn => absurd (.inr rfl) hn⟩
  | join hph hover hsess =>
    rw [hph] at hw hback
    exact ⟨hw, hback, (fun l prev hp => nomatch hp), h.sockets, fun _ => hover⟩
  | joinAborts hph hover hsess => exact absurd (sessions_of_over (SocketState.reachable_table h.sockets) hover) hsess
  | @pop l pipes prev hph hpop =>
    rw [hph] at hw hback
    obtain ⟨ps', hps, hon, hba, hcount⟩ := pop_links hw.onward hback
    obtain ⟨rfl, rfl⟩ : pipes = ps' ∧ prev = l.prev := by simpa using hpop.symm.trans hps
    exact .afterWait (hw.setPipes hon hcount hw.placed) hba h.sockets (h.finished (by rw [hph]; simp [Phase.Pooled]))
  | @popAborts l c hph hpop =>
    rw [hph] at hw hback
    obtain ⟨ps', hps, -⟩ := pop_links hw.onward hback
    rw [hps] at hpop
    cases hpop
  | @recheck l prev hph =>
    obtain rfl := h.prev l prev hph
    have hover := h.finished (by rw [hph]; simp [Phase.Pooled])
    rw [hph] at hw hback
    exact .afterWait hw hback h.sockets hover
  | @popped l hph =>
    have hover := h.finished (by rw [hph]; simp [Phase.Pooled])
    rw [hph] at hw hback
    obtain ⟨hon, hba, hcount⟩ := popEnd_links hw.onward hback
    have hphase : (Phase.popped l).links = l.depth - 1 ∧ (Phase.popped l).reach = l.depth - 1 ∧
        (Phase.popped l).backs = l.depth - 1 := by cases l <;> exact ⟨rfl, rfl, rfl⟩
    refine ⟨?_, ?_, fun l' prev hp => ?_, h.sockets, fun _ => hover⟩
    · show ({ x.stack with pipes := _ } : SendingStack S K).Within (Phase.popped l).links (Phase.popped l).reach
      rw [hphase.1, hphase.2.1]
      exact hw.setPipes hon hcount hw.placed
    · show Backward _ (Phase.popped l).backs
      rw [hphase.2.2]
      exact hba
    · cases l <;> cases hp

theorem reachable_inv (h : (lifecycle K fds mtu client).Reachable x) : x.Inv client :=
  h.invariant (fun _ hi => by cases hi; exact .start) fun _ _ _ _ hI hs => hI.step hs

/-- A step that takes place beside the thread's hand-over. -/
theorem unmoved_step {i : S} {buf : TunnelFrameBuffer} (h : x.Inv client) (hgone : x.phase.Gone .socket)
    (hu : x.stack.Unmoved i buf) (hs : (lifecycle K fds mtu client).step x l x') :
    x'.stack.Unmoved i buf ∧ { x'.stack.threads i with loop := TunnelLoop.invoking buf } =
      { x.stack.threads i with loop := .invoking buf } := by
  obtain ⟨-, hs⟩ := hs
  cases hs with
  | stack hper hst => exact hu.without_socket h.within hgone hst
  | _ => exact ⟨hu.congr rfl rfl rfl, rfl⟩

end Lifecycle

open Lifecycle

variable {S K : Type} [DecidableEq S] [DecidableEq K] {fds : S → FileDescriptor} {mtu : Nat}
  {client : Option SessionId}

namespace Lifecycle

/-- What a thread can do by itself, it can do beside the socket side. -/
theorem run_own {x : Lifecycle S K} {tr : List (Machine.Transition (Lifecycle S K) (LifeLabel S K))} {i : S}
    {evs : List LoopEvent} {t : TunnelThread} (h : (lifecycle K fds mtu client).Run tr x)
    (hc : x.stack.sockets.crash = none) (ha : x.stack.aborted = none)
    (hj : ∀ j, j ≠ i → ∀ c, (x.stack.threads j).loop ≠ .ended (.abort c)) (ho : ∀ ev ∈ evs, ev.Own)
    (hrun : (x.stack.threads i).run (fds i) mtu x.stack.interrupted evs = some t) :
    ∃ tr', (lifecycle K fds mtu client).Run tr' { x with stack := x.stack.setThread i t } ∧
      tr'.map (·.label) = tr.map (·.label) ++ evs.map (.stack <| .loop i ·) := by
  induction evs generalizing x tr with
  | nil =>
    cases hrun
    have hx : x.stack.setThread i (x.stack.threads i) = x.stack := by simp [SendingStack.setThread]
    rw [hx]
    exact ⟨tr, h, by simp⟩
  | cons ev evs ih =>
    obtain ⟨t₁, hst, hrun⟩ := Option.bind_eq_some_iff.1 hrun
    have halive : x.stack.Alive := by
      refine ⟨hc, ha, fun j c hl => ?_⟩
      by_cases hij : j = i
      · subst hij
        rw [TunnelThread.step_ended ⟨_, hl⟩] at hst
        cases hst
      · exact hj j hij c hl
    have h₁ := h.step (l := .stack (.loop i ev))
      ⟨halive, .stack (l := .loop i ev) trivial (.loop (ho ev List.mem_cons_self) hst)⟩
    obtain ⟨tr', h₂, htr⟩ := ih h₁ hc ha
      (fun j hij => by simp only [SendingStack.setThread_ne hij]; exact hj j hij)
      (fun ev hev => ho ev (List.mem_cons_of_mem _ hev))
      (by simp only [SendingStack.setThread_self]; exact hrun)
    have hx : (x.stack.setThread i t₁).setThread i t = x.stack.setThread i t := by simp [SendingStack.setThread]
    rw [hx] at h₂
    exact ⟨tr', h₂, by simp [htr]⟩

end Lifecycle

abbrev oneQueue : Machine (Lifecycle Unit Unit) (LifeLabel Unit Unit) := lifecycle Unit (fun _ => ⟨"tun", 3⟩) 1500 none

/-- The one thread has read a datagram, waited in vain for another, and is about
to hand its frame over. -/
theorem run_offering : ∃ (tr : List (Machine.Transition (Lifecycle Unit Unit) (LifeLabel Unit Unit)))
    (t : TunnelThread) (buf : TunnelFrameBuffer), t.loop = .invoking buf ∧
    oneQueue.Run tr { stack := (Lifecycle.start Unit Unit).stack.setThread () t, phase := .absent } := by
  obtain ⟨t, hrun, buf, hbuf⟩ : ∃ t, TunnelThread.start.run ⟨"tun", 3⟩ 1500 false
      [.tau, .tau, .polled (.ok 1), .io (.call (.ok [1, 2, 3])), .tau, .polled (.ok 0), .tau] = some t ∧
      ∃ buf, t.loop = .invoking buf := ⟨_, rfl, _, rfl⟩
  obtain ⟨tr, h, -⟩ := Lifecycle.run_own (i := ()) (.init rfl : oneQueue.Run [] (Lifecycle.start Unit Unit)) rfl rfl
    (fun j hj => absurd rfl hj) (by simp [LoopEvent.Own]) hrun
  exact ⟨tr, t, buf, hbuf, h⟩

theorem alive_offering {x : SendingStack Unit Unit} {buf : TunnelFrameBuffer} (hc : x.sockets.crash = none)
    (ha : x.aborted = none) (hl : (x.threads ()).loop = .invoking buf) : x.Alive :=
  ⟨hc, ha, fun i c he => by rw [show (x.threads i).loop = _ from hl] at he; cases he⟩

/-- **Coming and going, a socket side fails no assertion**: its pipes are pushed
and popped without one, `_sessions` is empty when the pool has run out, and no
call ever gets to a pipe that must not be called, whatever the tunnel's threads
do meanwhile. -/
theorem lifecycle_asserts_nothing {x : Lifecycle S K} (h : (lifecycle K fds mtu client).Reachable x) :
    x.stack.aborted = none ∧
    (∀ l, x.phase = .pushing l → ∃ pipes, pipePush x.stack.pipes l.pipe l.prev = .ok pipes) ∧
    ((∀ k, (x.stack.sockets.tasks k).Over) → x.stack.sockets.map.sessions = []) ∧
    ∀ l, x.phase = .popping l → ∃ pipes, popBegin x.stack.pipes l.pipe = .ok (pipes, l.prev) := by
  have hI := reachable_inv h
  have hw := hI.within
  have hback := hI.backward
  refine ⟨hw.aborted, fun l hph => ?_, sessions_of_over (SocketState.reachable_table hI.sockets), fun l hph => ?_⟩
  · rw [hph] at hw hback
    obtain ⟨ps, hps, -⟩ := push_links hw.onward hback
    exact ⟨ps, hps⟩
  · rw [hph] at hw hback
    obtain ⟨ps, hps, -⟩ := pop_links hw.onward hback
    exact ⟨ps, hps⟩

/-- A socket side comes and goes while the thread's call is in the tunnel's pipe:
the destructor waits for it before it lets go of the compressing pipe. -/
theorem lifecycle_asserts_nothing_once : ∃ tr x, oneQueue.Run tr x ∧ x.phase = .leaving .compresser ∧
    x.stack.aborted = none := by
  obtain ⟨_, t, buf, hbuf, h⟩ := run_offering
  have halive : ∀ {x : SendingStack Unit Unit}, x.sockets.crash = none → x.aborted = none → x.threads () = t →
      x.Alive := fun hc ha ht => alive_offering hc ha (ht ▸ hbuf)
  have h := h.step (l := .construct) ⟨halive rfl rfl rfl, .construct rfl⟩
  have h := h.step (l := .push) ⟨halive rfl rfl rfl, .push (l := .compresser) rfl rfl⟩
  have h := h.step (l := .push) ⟨halive rfl rfl rfl, .push (l := .signer) rfl rfl⟩
  have h := h.step (l := .push) ⟨halive rfl rfl rfl, .push (l := .socket) rfl rfl⟩
  have h := h.step (l := .stack (.invoke ())) ⟨halive rfl rfl rfl, .stack (l := .invoke ()) trivial (.invoke hbuf rfl)⟩
  have h := h.step (l := .interrupt) ⟨halive rfl rfl rfl, .interrupt rfl⟩
  have h := h.step (l := .join) ⟨halive rfl rfl rfl, .join rfl (by exact fun _ => trivial) rfl⟩
  have h := h.step (l := .pop) ⟨halive rfl rfl rfl, .pop (l := .socket) rfl rfl⟩
  have h := h.step (l := .popped) ⟨halive rfl rfl rfl, .popped (l := .socket) rfl⟩
  have h := h.step (l := .pop) ⟨halive rfl rfl rfl, .pop (l := .signer) rfl rfl⟩
  have h := h.step (l := .popped) ⟨halive rfl rfl rfl, .popped (l := .signer) rfl⟩
  have h := h.step (l := .pop) ⟨halive rfl rfl rfl, .pop (l := .compresser) rfl rfl⟩
  -- The call that had read its link is still to come to the compressing pipe.
  have h := h.step (l := .stack (.pipe ())) ⟨halive rfl rfl rfl, .stack (l := .pipe ()) trivial (.pipe rfl rfl)⟩
  have h := h.step (l := .recheck) ⟨halive rfl rfl rfl, .recheck rfl⟩
  have h := h.step (l := .stack (.pipe ())) ⟨halive rfl rfl rfl, .stack (l := .pipe ()) trivial (.pipe rfl rfl)⟩
  have h := h.step (l := .stack (.pipe ())) ⟨halive rfl rfl rfl, .stack (l := .pipe ()) trivial (.pipe rfl rfl)⟩
  have h := h.step (l := .stack (.pipe ())) ⟨halive rfl rfl rfl, .stack (l := .pipe ()) trivial (.pipe rfl rfl)⟩
  have h := h.step (l := .recheck) ⟨halive rfl rfl rfl, .recheck rfl⟩
  exact ⟨_, _, h, rfl, (lifecycle_asserts_nothing h.reachable).1⟩

/-- **Whoever destroys a pipe is alone with it**: from the end of the wait in its
`pipePop` on, and until it is pushed, no call has its guard on the pipe armed or
holds a link to it, its count is zero, and nobody is in the socket. -/
theorem destroyed_alone {x : Lifecycle S K} (h : (lifecycle K fds mtu client).Reachable x) {l : Layer}
    (hgone : x.phase.Gone l) :
    (∀ i c, x.stack.calls i = some c → l.pipe ∉ c.armed ∧ ∀ inside, c ≠ .down inside (some l.pipe)) ∧
    (x.stack.pipes l.pipe).numCallsToNext = 0 ∧ ∀ i, x.stack.sockets.senders i = .idle := by
  have hw := (reachable_inv h).within
  have hgone : x.phase.reach < l.pipe.depth := hgone
  have hnot : ∀ i, l.pipe ∉ x.stack.armed i := fun i hi => Nat.not_le.2 hgone (hw.mem_armed hi)
  refine ⟨fun i c hc => ⟨fun hin => hnot i (by rwa [SendingStack.armed_eq hc]), fun inside he => ?_⟩, ?_,
    hw.senders_idle (hgone.trans_le (by cases l <;> decide))⟩
  · subst he
    obtain ⟨p, -, -, -, hnext | ⟨hnext, hlt⟩⟩ := hw.placed i _ hc
    · cases hnext
    · have hdepth := (PipeId.armed_after hnext.symm).2.2
      omega
  · obtain ⟨s, hs, hcount⟩ := hw.counted l.pipe
    rw [hcount, Finset.eq_empty_of_forall_notMem fun i hi => hnot i ((hs i).1 hi)]
    rfl

/-- The socket is popped while the thread's call is on its way to the compressing
pipe. -/
theorem destroyed_alone_socket : ∃ tr x, oneQueue.Run tr x ∧ x.phase = .leaving .socket ∧
    x.stack.calls () = some (.down [.tunnel] (some .compressing)) ∧
    (x.stack.pipes .socket).numCallsToNext = 0 ∧ x.stack.sockets.senders () = .idle := by
  obtain ⟨_, t, buf, hbuf, h⟩ := run_offering
  have halive : ∀ {x : SendingStack Unit Unit}, x.sockets.crash = none → x.aborted = none → x.threads () = t →
      x.Alive := fun hc ha ht => alive_offering hc ha (ht ▸ hbuf)
  have h := h.step (l := .construct) ⟨halive rfl rfl rfl, .construct rfl⟩
  have h := h.step (l := .push) ⟨halive rfl rfl rfl, .push (l := .compresser) rfl rfl⟩
  have h := h.step (l := .push) ⟨halive rfl rfl rfl, .push (l := .signer) rfl rfl⟩
  have h := h.step (l := .push) ⟨halive rfl rfl rfl, .push (l := .socket) rfl rfl⟩
  have h := h.step (l := .stack (.invoke ())) ⟨halive rfl rfl rfl, .stack (l := .invoke ()) trivial (.invoke hbuf rfl)⟩
  have h := h.step (l := .interrupt) ⟨halive rfl rfl rfl, .interrupt rfl⟩
  have h := h.step (l := .join) ⟨halive rfl rfl rfl, .join rfl (by exact fun _ => trivial) rfl⟩
  have h := h.step (l := .pop) ⟨halive rfl rfl rfl, .pop (l := .socket) rfl rfl⟩
  obtain ⟨-, hcount, hidle⟩ := destroyed_alone h.reachable (l := .socket) (show 2 < 3 by decide)
  exact ⟨_, _, h, rfl, rfl, hcount, hidle ()⟩

/-- **The receive loops find their way to the tunnel**: while any task of the pool
is not over, the chain is whole, to the socket and back. -/
theorem chain_whole_for_tasks {x : Lifecycle S K} (h : (lifecycle K fds mtu client).Reachable x) {k : K}
    (hk : ¬ (x.stack.sockets.tasks k).Over) : Chain x.stack.pipes := by
  have hI := reachable_inv h
  have hw := hI.within
  have hback := hI.backward
  have hpool : x.phase.Pooled := by
    by_contra hn
    exact hk (hI.finished hn k)
  rcases hpool with hph | hph <;> rw [hph] at hw hback <;> exact chain_of_links hw.onward hback

/-- A socket has been posted to the pool. -/
theorem chain_whole_posted : ∃ tr x, oneQueue.Run tr x ∧ x.phase = .joining ∧
    x.stack.sockets.tasks () = .posted ⟨"Server", 5⟩ ∧ Chain x.stack.pipes := by
  obtain ⟨_, t, buf, hbuf, h⟩ := run_offering
  have halive : ∀ {x : SendingStack Unit Unit}, x.sockets.crash = none → x.aborted = none → x.threads () = t →
      x.Alive := fun hc ha ht => alive_offering hc ha (ht ▸ hbuf)
  have h := h.step (l := .construct) ⟨halive rfl rfl rfl, .construct rfl⟩
  have h := h.step (l := .push) ⟨halive rfl rfl rfl, .push (l := .compresser) rfl rfl⟩
  have h := h.step (l := .push) ⟨halive rfl rfl rfl, .push (l := .signer) rfl rfl⟩
  have h := h.step (l := .push) ⟨halive rfl rfl rfl, .push (l := .socket) rfl rfl⟩
  have h := h.step (l := .stack (.socket (.add () ⟨"Server", 5⟩)))
    ⟨halive rfl rfl rfl, .stack (l := .socket (.add () ⟨"Server", 5⟩)) (by exact rfl) (.socket id (.add rfl))⟩
  have h := h.step (l := .interrupt) ⟨halive rfl rfl rfl, .interrupt rfl⟩
  exact ⟨_, _, h, rfl, rfl, chain_whole_for_tasks h.reachable (k := ()) id⟩

/-- **A frame outlives the socket side.** A thread that is handing a frame over,
and whose call the socket has not taken, keeps the frame, and all else it has,
for as long as no call gets to the socket: every outcome is one its loop
retries, and only an interruption ends it. -/
theorem frame_outlives_socket {tr : List (Machine.Transition (Lifecycle S K) (LifeLabel S K))} {x : Lifecycle S K}
    (h : (lifecycle K fds mtu client).Run tr x) {l₁ l₂ : List (Machine.Transition (Lifecycle S K) (LifeLabel S K))}
    {t : Machine.Transition (Lifecycle S K) (LifeLabel S K)} {i : S} {buf : TunnelFrameBuffer}
    (htr : tr = l₁ ++ t :: l₂) (hbuf : t.post.stack.Unmoved i buf)
    (hgone : ∀ u ∈ t :: l₂, u.post.phase.Gone .socket) :
    ∀ u ∈ l₂, u.post.stack.Unmoved i buf ∧ { u.post.stack.threads i with loop := TunnelLoop.invoking buf } =
      { t.post.stack.threads i with loop := .invoking buf } := by
  subst htr
  obtain ⟨-, hall⟩ := h.since (C := fun u => u.post.phase.Gone .socket)
    (I := fun y => y.phase.Gone .socket ∧ y.stack.Unmoved i buf ∧
      { y.stack.threads i with loop := TunnelLoop.invoking buf } = { t.post.stack.threads i with loop := .invoking buf })
    (fun y l y' hr hI hC hs => by
      obtain ⟨hu, ht⟩ := unmoved_step (reachable_inv hr) hI.1 hI.2.1 hs
      exact ⟨hC, hu, ht.trans hI.2.2⟩)
    ⟨hgone t List.mem_cons_self, hbuf, rfl⟩ fun u hu => hgone u (List.mem_cons_of_mem _ hu)
  exact fun u hu => (hall u hu).2

/-- Before there is a socket side the thread calls in vain, and sleeps. -/
theorem frame_outlives_socket_unattached :
    ∃ (tr : List (Machine.Transition (Lifecycle Unit Unit) (LifeLabel Unit Unit)))
      (x : Lifecycle Unit Unit) (buf : TunnelFrameBuffer), oneQueue.Run tr x ∧ (x.stack.threads ()).loop = .sleep buf ∧
    x.stack.Unmoved () buf := by
  obtain ⟨tr, t, buf, hbuf, h⟩ := run_offering
  have halive : ∀ {x : SendingStack Unit Unit}, x.sockets.crash = none → x.aborted = none → x.threads () = t →
      x.Alive := fun hc ha ht => alive_offering hc ha (ht ▸ hbuf)
  have h := h.step (l := .stack (.invoke ())) ⟨halive rfl rfl rfl, .stack (l := .invoke ()) trivial (.invoke hbuf rfl)⟩
  have h := h.step (l := .stack (.pipe ())) ⟨halive rfl rfl rfl, .stack (l := .pipe ()) trivial (.pipe rfl rfl)⟩
  have h := h.step (l := .stack (.pipe ())) ⟨halive rfl rfl rfl, .stack (l := .pipe ()) trivial (.pipe rfl rfl)⟩
  have hsleep : t.step ⟨"tun", 3⟩ 1500 false
      (.outcome buf (.error (NotYetReadyException "Received frame before the pipe was configured"))) =
      some { t with loop := .sleep buf } := by
    simp only [TunnelThread.step, hbuf]
    rfl
  have h := h.step (l := .stack (.outcome ()))
    ⟨halive rfl rfl rfl, .stack (l := .outcome ()) trivial (.outcome rfl hbuf hsleep)⟩
  simp only [List.append_assoc, List.cons_append, List.nil_append] at h
  have hgone : (0 : Nat) < 3 := by decide
  have hall := frame_outlives_socket (i := ()) h rfl (.down rfl (show _ = TunnelLoop.invoking buf from hbuf) rfl) ?_
  · exact ⟨_, _, buf, h, rfl, (hall _ (.tail _ (.tail _ (.head _)))).1⟩
  simp only [List.forall_mem_cons, List.not_mem_nil, false_implies, implies_true, and_true]
  exact ⟨hgone, hgone, hgone, hgone⟩

end RuralPipe
