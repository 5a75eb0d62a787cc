/-
The pipes always form proper chains.

What a push and a pop check are only the pipe's own links and its neighbour's.
The abstract machine `chains` has no links: a push puts a lone pipe at the end
of a chain, and a pop takes the last pipe of a chain off. The heap follows it
(`pipes_on`), so its links are those of disjoint chains, and a frame travels
along them from one end to the other.
-/
import Mathlib.Data.List.Induction
import RuralPipe.Chains
import RuralPipe.Machine
import RuralPipe.PipeHeap

namespace RuralPipe

/-- What is done to the pipes. -/
inductive PipeOp (P : Type)
  | push (self prev : P)
  | pop (self : P)

section
variable {P : Type} [DecidableEq P]

inductive PipeStep : PipeHeap P → PipeOp P → PipeHeap P → Prop
  | push {ps ps' self prev} : self ≠ prev → PipeHeap.pipePush ps self prev = .ok ps' →
      PipeStep ps (.push self prev) ps'
  | pop {ps ps' self} : PipeHeap.pipePop ps self = .ok ps' → PipeStep ps (.pop self) ps'

/-- The same on chains. -/
inductive ChainStep : Chains P → PipeOp P → Chains P → Prop
  | push {c : Chains P} {self prev} (ha : c.chain self = [self]) (hab : self ∉ c.chain prev) :
      (∃ l, c.chain prev = l ++ [prev]) → ChainStep c (.push self prev) (c.append self prev ha hab)
  | pop {c : Chains P} {self l} (ha : c.chain self = l ++ [self]) : l ≠ [] →
      ChainStep c (.pop self) (c.dropLast self l ha)

end

/-- Pushes and pops that pass their assertions, from pipes just constructed. -/
def pipes (P : Type) [DecidableEq P] : Machine (PipeHeap P) (PipeOp P) where
  init ps := ps = PipeHeap.new
  step := PipeStep

def chains (P : Type) [DecidableEq P] : Machine (Chains P) (PipeOp P) where
  init c := c = Chains.single
  step := ChainStep

namespace PipeHeap

/-- The links run along the chains `c`. -/
def On {P : Type} (ps : PipeHeap P) (c : Chains P) : Prop := Linked (fun p => (ps p).next) (fun p => (ps p).prev) c

variable {P : Type} {ps ps' : PipeHeap P} {c : Chains P} {self prev p q : P}

theorem On.congr (h : ps.On c) (hn : ∀ p, (ps' p).next = (ps p).next) (hp : ∀ p, (ps' p).prev = (ps p).prev) :
    ps'.On c := by
  have hn' : (fun p => (ps' p).next) = fun p => (ps p).next := funext hn
  have hp' : (fun p => (ps' p).prev) = fun p => (ps p).prev := funext hp
  rw [On, hn', hp']
  exact h

variable [DecidableEq P]

/-- A step of the heap is a step of its chains. -/
theorem On.step {op : PipeOp P} (h : ps.On c) (hs : PipeStep ps op ps') : ∃ c', ChainStep c op c' ∧ ps'.On c' := by
  cases hs with
  | @push _ self prev hne hpush =>
    obtain ⟨hprev, hnext, hopen, -⟩ := pipePush_ok hpush hne
    have halone := h.alone hnext hprev
    have hnot : self ∉ c.chain prev := fun hmem => by
      have hp := c.mem prev
      rw [← c.same prev self hmem, halone, List.mem_singleton] at hp
      exact hne hp.symm
    refine ⟨_, .push halone hnot (h.last hopen), ?_⟩
    obtain ⟨hn, hp⟩ := pipePush_links hpush hne
    rw [On, hn, hp]
    exact h.append halone hnot hopen
  | @pop _ self hpop =>
    obtain ⟨prev, hnext, hprev, -, hn, hp⟩ := pipePop_links hpop
    obtain ⟨l, hl⟩ := h.last hnext
    have hl₀ : l ≠ [] := fun hnil => by
      have hlast := (h.neighbours l self [] hl).2
      rw [hprev, hnil] at hlast
      cases hlast
    refine ⟨_, .pop hl hl₀, ?_⟩
    rw [On, hn, hp]
    exact h.dropLast hl hprev

/-- The heap of pipes refines the machine of chains. -/
theorem pipes_on (h : (pipes P).Reachable ps) : ∃ c, (chains P).Reachable c ∧ ps.On c := by
  refine h.invariant (I := fun ps => ∃ c, (chains P).Reachable c ∧ PipeHeap.On ps c) ?_ ?_
  · intro ps hps
    cases hps
    exact ⟨Chains.single, .init rfl, Linked.single⟩
  · intro ps op ps' _ hI hs
    obtain ⟨c, hr, hc⟩ := hI
    obtain ⟨c', hstep, hc'⟩ := hc.step hs
    exact ⟨c', hr.step hstep, hc'⟩

/-! ## Along a chain -/

variable {kind : P → PipeKind} {on : P → TunnelFrameBuffer → Except Failure Unit} {buf : TunnelFrameBuffer}

/-- What becomes of a frame at the last pipe that gets it. -/
def ending (kind : P → PipeKind) (on : P → TunnelFrameBuffer → Except Failure Unit)
    (last : P) (buf : TunnelFrameBuffer) :
    Except Failure Unit :=
  if kind last = .other then on last buf else .error notYetReady

theorem On.invokeBegin (h : ps.On c) (self : P) : (PipeHeap.invokeBegin ps self).1.On c :=
  h.congr (fun _ => invokeBegin_next) fun _ => invokeBegin_prev

/-- The open end of a chain takes no frame. -/
theorem pipeInvokeNext_open (h : (ps p).next = none) (n : Nat) :
    pipeInvokeNext kind on (n + 1) ps p buf = some (ps, [], .error notYetReady) := by
  have hnext : (invokeBegin ps p).2 = none := h
  simp only [pipeInvokeNext, hnext, invokeEnd_invokeBegin]

/-- A frame goes from a pipe to the end of its chain, through passing pipes. -/
theorem On.pipeInvokeNext {l inner : List P} {last : P} (h : ps.On c) (hchain : c.chain p = l ++ p :: (inner ++ [last]))
    (hpass : ∀ r ∈ inner, kind r ≠ .other) {n : Nat} (hn : inner.length + 2 ≤ n) :
    pipeInvokeNext kind on n ps p buf = some (ps, (inner ++ [last]).map (·, buf), ending kind on last buf) := by
  induction inner generalizing ps p l n with
  | nil =>
    obtain ⟨n, rfl⟩ : ∃ m, n = m + 2 := ⟨n - 2, by simp at hn; omega⟩
    have hnext : (PipeHeap.invokeBegin ps p).2 = some last := (h.neighbours l p [last] hchain).1
    have hopen : ((PipeHeap.invokeBegin ps p).1 last).next = none := by
      have hlast : c.chain last = (l ++ [p]) ++ last :: [] := by rw [c.same p last (by simp [hchain]), hchain]; simp
      exact invokeBegin_next.trans (h.neighbours _ _ _ hlast).1
    by_cases hk : kind last = .other
    · simp [PipeHeap.pipeInvokeNext, hnext, hk, invokeEnd_invokeBegin, ending]
    · unfold PipeHeap.pipeInvokeNext
      simp [hnext, hk, pipeInvokeNext_open hopen, invokeEnd_invokeBegin, ending]
  | cons r inner ih =>
    obtain ⟨n, rfl⟩ : ∃ m, n = m + 1 := ⟨n - 1, by simp at hn; omega⟩
    have hnext : (PipeHeap.invokeBegin ps p).2 = some r := (h.neighbours l p _ hchain).1
    have hr : c.chain r = (l ++ [p]) ++ r :: (inner ++ [last]) := by
      rw [c.same p r (by simp [hchain]), hchain]
      simp
    have hrest := ih (h.invokeBegin p) hr (fun q hq => hpass q (by simp [hq])) (n := n) (by simp at hn; omega)
    simp [PipeHeap.pipeInvokeNext, hnext, hpass r (by simp), hrest, invokeEnd_invokeBegin]

omit [DecidableEq P] in
/-- And back, from a pipe to the start of its chain. -/
theorem On.pipeInvokePrev {l inner : List P} {first : P} (h : ps.On c) (hchain : c.chain p = first :: inner ++ p :: l)
    (hpass : ∀ r ∈ inner, kind r ≠ .other) {n : Nat} (hn : inner.length + 2 ≤ n) :
    pipeInvokePrev kind on ps n p buf = some ((inner.reverse ++ [first]).map (·, buf), ending kind on first buf) := by
  induction inner using List.reverseRecOn generalizing p l n with
  | nil =>
    obtain ⟨n, rfl⟩ : ∃ m, n = m + 2 := ⟨n - 2, by simp at hn; omega⟩
    have hprev : (ps p).prev = some first := (h.neighbours [first] p l hchain).2
    have hopen : (ps first).prev = none := by
      have hfirst : c.chain first = [] ++ first :: p :: l := by rw [c.same p first (by simp [hchain]), hchain]; rfl
      exact (h.neighbours _ _ _ hfirst).2
    by_cases hk : kind first = .other
    · simp [PipeHeap.pipeInvokePrev, hprev, hk, ending]
    · simp [PipeHeap.pipeInvokePrev, hprev, hk, hopen, ending]
  | append_singleton inner r ih =>
    obtain ⟨n, rfl⟩ : ∃ m, n = m + 1 := ⟨n - 1, by simp at hn; omega⟩
    have hprev : (ps p).prev = some r := by
      rw [(h.neighbours _ p l hchain).2, ← List.cons_append, List.getLast?_concat]
    have hr : c.chain r = first :: inner ++ r :: (p :: l) := by
      rw [c.same p r (by simp [hchain]), hchain]
      simp
    have hrest := ih hr (fun q hq => hpass q (by simp [hq])) (n := n) (by simp at hn; omega)
    simp [PipeHeap.pipeInvokePrev, hprev, hpass r (by simp), hrest]

/-- A pop right after a push leaves the links as they were. -/
theorem pipePop_pipePush (h : pipePush ps self prev = .ok ps') (hne : self ≠ prev) :
    ∃ ps'', pipePop ps' self = .ok ps'' ∧ ∀ p, (ps'' p).next = (ps p).next ∧ (ps'' p).prev = (ps p).prev := by
  obtain ⟨hprev, hnext, hopen, -⟩ := pipePush_ok h hne
  obtain ⟨hn, hp⟩ := pipePush_links h hne
  have hn' : ∀ p, (ps' p).next = Function.update (fun p => (ps p).next) prev (some self) p := congrFun hn
  have hp' : ∀ p, (ps' p).prev = Function.update (fun p => (ps p).prev) self (some prev) p := congrFun hp
  have hok : ∃ ps'', pipePop ps' self = .ok ps'' := by
    simp [pipePop, popBegin, hn', hp', Function.update_of_ne hne, hnext]
  obtain ⟨ps'', hpop⟩ := hok
  obtain ⟨prev', -, hprev', -, hn₂, hp₂⟩ := pipePop_links hpop
  obtain rfl : prev = prev' := by simpa [hp'] using hprev'
  refine ⟨ps'', hpop, fun p => ⟨?_, ?_⟩⟩
  · refine (congrFun hn₂ p).trans ?_
    rw [hn, Function.update_idem]
    exact congrFun (Function.update_eq_self_iff.2 hopen.symm) p
  · refine (congrFun hp₂ p).trans ?_
    rw [hp, Function.update_idem]
    exact congrFun (Function.update_eq_self_iff.2 hprev.symm) p

end PipeHeap

open PipeHeap

/-- **The pipes form proper chains.** After any pushes and pops that pass their
assertions, `next` and `prev` are inverse to one another and are the links of
disjoint chains without cycles. A frame given to the first pipe of a chain
reaches the last through the passing pipes between them, each once and in
order, and one given to the last reaches the first in the reverse order; the
open end of a chain throws; and a pop undoes the push before it. -/
theorem pipes_form_chains {P : Type} [DecidableEq P] {ps : PipeHeap P} (h : (pipes P).Reachable ps) :
    (∀ p q, (ps p).next = some q ↔ (ps q).prev = some p) ∧
    (∀ p, ¬ Relation.TransGen (fun p q => (ps p).next = some q) p p) ∧
    (∃ c : Chains P, ps.On c ∧
      ∀ kind on buf first inner last, c.chain first = first :: inner ++ [last] → (∀ r ∈ inner, kind r ≠ .other) →
        ∀ n, (c.chain first).length ≤ n →
          pipeInvokeNext kind on n ps first buf =
            some (ps, (inner ++ [last]).map (·, buf), ending kind on last buf) ∧
          pipeInvokePrev kind on ps n last buf =
            some ((inner.reverse ++ [first]).map (·, buf), ending kind on first buf)) ∧
    (∀ kind on buf p, (ps p).next = none → ∀ n,
      pipeInvokeNext kind on (n + 1) ps p buf = some (ps, [], .error notYetReady)) ∧
    ∀ self prev ps', self ≠ prev → pipePush ps self prev = .ok ps' →
      ∃ ps'', pipePop ps' self = .ok ps'' ∧ ∀ p, (ps'' p).next = (ps p).next ∧ (ps'' p).prev = (ps p).prev := by
  obtain ⟨c, -, hc⟩ := pipes_on h
  refine ⟨fun p q => hc.inverse, fun p => hc.acyclic, ⟨c, hc, ?_⟩, fun kind on buf p hp n => pipeInvokeNext_open hp n,
    fun self prev ps' hne hpush => pipePop_pipePush hpush hne⟩
  intro kind on buf first inner last hchain hpass n hn
  have hlast : c.chain last = first :: inner ++ last :: [] := by rw [c.same first last (by simp [hchain]), hchain]
  have hlen : inner.length + 2 ≤ n := by
    rw [hchain] at hn
    simp only [List.length_append, List.length_cons, List.length_nil] at hn
    omega
  exact ⟨hc.pipeInvokeNext (l := []) hchain hpass hlen, hc.pipeInvokePrev hlast hpass hlen⟩

/-- The program's own chain: three pushes behind the tunnel. -/
theorem pipes_form_chains_attached : ∃ ps : PipeHeap PipeId, (pipes PipeId).Reachable ps ∧
    (∃ attached, TunnelFramePipe.attached = .ok attached ∧ ps = ofPipes attached) ∧
    (∀ p q, (ps p).next = some q ↔ (ps q).prev = some p) := by
  obtain ⟨attached, hatt, -⟩ := TunnelFramePipe.attached_chain
  have hsteps := hatt
  simp only [TunnelFramePipe.attached] at hsteps
  obtain ⟨ps₁, h₁, hsteps⟩ := bind_eq_ok hsteps
  obtain ⟨ps₂, h₂, h₃⟩ := bind_eq_ok hsteps
  have hstep : ∀ {ps ps' : Pipes} {self prev : PipeId}, TunnelFramePipe.pipePush ps self prev = .ok ps' → self ≠ prev →
      (pipes PipeId).step (ofPipes ps) (.push self prev) (ofPipes ps') := by
    intro ps ps' self prev hpush hne
    exact .push hne (by rw [ofPipes_pipePush, hpush]; rfl)
  have hr : (pipes PipeId).Reachable (ofPipes attached) :=
    (((Machine.Reachable.init rfl).step (hstep h₁ (by decide))).step (hstep h₂ (by decide))).step (hstep h₃ (by decide))
  exact ⟨_, hr, ⟨attached, hatt, rfl⟩, (pipes_form_chains hr).1⟩

end RuralPipe
