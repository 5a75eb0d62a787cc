/-
Detaching a pipe while others call through its neighbour.

Any number of calls of `pipeInvokeNext` and of threads in `pipePop` take the
sections that the code runs under a pipe's mutex, in any order. The count of a
pipe is the number of calls in progress through it, and a `pipePop` that waits
with no notification has something to wait for (`Sound`). So once it returns,
nobody is in the popped pipe, and nobody gets there (`pipePop_waits`).

`pipePush` takes no lock, and is one step here.
-/
import Mathlib.Data.Finset.Card
import RuralPipe.Machine
import RuralPipe.PipeHeap

namespace RuralPipe

/-- A thread in `pipePop`: in its wait on the previous pipe's condition
variable, or past it. -/
inductive Popping (P : Type)
  | idle
  | waiting (self prev : P) (notified : Bool)
  | leaving (self prev : P)

/-- The pipe being popped. -/
def Popping.pipe {P : Type} : Popping P → Option (P × P)
  | .idle => none
  | .waiting self prev _ => some (self, prev)
  | .leaving self prev => some (self, prev)

/-- The pipes, the calls of `pipeInvokeNext` in progress, each with its pipe
and the next one it read, and the threads in `pipePop`. -/
structure PipeUse (P C D : Type) where
  pipes : PipeHeap P
  calls : C → Option (P × Option P)
  pops : D → Popping P

inductive PipeUseLabel (P C D : Type)
  | invoke (c : C) (p : P)
  | leave (c : C) (res : Except Exception Unit)
  | push (self prev : P)
  | pop (d : D) (self : P)
  | recheck (d : D)
  | popped (d : D)

namespace PipeUse

variable {P C D : Type}

/-- The call `c` is in progress through the pipe `p`. -/
def Calls (x : PipeUse P C D) (c : C) (p : P) : Prop := ∃ next, x.calls c = some (p, next)

/-- The wait of `pipePop` looks at the count. -/
def afterWait [DecidableEq P] (ps : PipeHeap P) (self prev : P) : Popping P :=
  if (ps prev).numCallsToNext = 0 then .leaving self prev else .waiting self prev false

/-- `prev->_cv.notify_all()`. -/
def notifyAll [DecidableEq P] (pops : D → Popping P) (p : P) : D → Popping P := fun d =>
  match pops d with
  | .waiting self prev n => if prev = p then .waiting self prev true else .waiting self prev n
  | a => a

end PipeUse

open PipeUse in
inductive PipeUseStep {P C D : Type} [DecidableEq P] [DecidableEq C] [DecidableEq D] :
    PipeUse P C D → PipeUseLabel P C D → PipeUse P C D → Prop
  | invoke {x : PipeUse P C D} {c p} : x.calls c = none →
      PipeUseStep x (.invoke c p)
        { x with pipes := (x.pipes.invokeBegin p).1,
                 calls := Function.update x.calls c (some (p, (x.pipes.invokeBegin p).2)) }
  | leave {x : PipeUse P C D} {c p next res} : x.calls c = some (p, next) →
      PipeUseStep x (.leave c res)
        { pipes := x.pipes.invokeEnd p,
          calls := Function.update x.calls c none,
          pops := if x.pipes.notifies p then notifyAll x.pops p else x.pops }
  | push {x : PipeUse P C D} {self prev ps} : self ≠ prev → x.pipes.pipePush self prev = .ok ps →
      PipeUseStep x (.push self prev) { x with pipes := ps }
  | pop {x : PipeUse P C D} {d self prev ps} : x.pops d = .idle → x.pipes.popBegin self = .ok (ps, prev) →
      PipeUseStep x (.pop d self) { x with pipes := ps, pops := Function.update x.pops d (afterWait ps self prev) }
  | recheck {x : PipeUse P C D} {d self prev n} : x.pops d = .waiting self prev n →
      PipeUseStep x (.recheck d) { x with pops := Function.update x.pops d (afterWait x.pipes self prev) }
  | popped {x : PipeUse P C D} {d self prev} : x.pops d = .leaving self prev →
      PipeUseStep x (.popped d)
        { x with pipes := x.pipes.popEnd self, pops := Function.update x.pops d .idle }

/-- Any pipes, with any number of calls and of threads in `pipePop`. -/
def pipeUse (P C D : Type) [DecidableEq P] [DecidableEq C] [DecidableEq D] :
    Machine (PipeUse P C D) (PipeUseLabel P C D) where
  init x := x = { pipes := PipeHeap.new, calls := fun _ => none, pops := fun _ => .idle }
  step := PipeUseStep

namespace PipeUse

variable {P C D : Type} {x x' : PipeUse P C D}

/-- The invariant: a pipe's count is its calls in progress; a call is inside
the next pipe as attached, or as being popped; a popped pipe is off its
neighbour, which knows that it is being detached; a wait without notification
has calls to wait for; and a pipe is popped by one thread. -/
structure Sound (x : PipeUse P C D) : Prop where
  counted : ∀ p, ∃ s : Finset C, (∀ c, c ∈ s ↔ x.Calls c p) ∧ (x.pipes p).numCallsToNext = s.card
  inside : ∀ c p q, x.calls c = some (p, some q) → (x.pipes p).next = some q ∨ ∃ d n, x.pops d = .waiting q p n
  popped : ∀ d q p, (x.pops d).pipe = some (q, p) →
    (x.pipes q).prev = some p ∧ (x.pipes p).next ≠ some q ∧ (x.pipes p).nextIsDetaching = true
  wakeful : ∀ d q p, x.pops d = .waiting q p false → (x.pipes p).numCallsToNext ≠ 0
  unique : ∀ d d' q p p', (x.pops d).pipe = some (q, p) → (x.pops d').pipe = some (q, p') → d = d'

theorem Sound.start [DecidableEq P] :
    Sound ({ pipes := PipeHeap.new, calls := fun _ => none, pops := fun _ => .idle } : PipeUse P C D) where
  counted p := ⟨∅, fun c => by simp [Calls], rfl⟩
  inside c p q h := nomatch h
  popped d q p h := nomatch h
  wakeful d q p h := nomatch h
  unique d d' q p p' h := nomatch h

section
variable [DecidableEq P]

theorem afterWait_pipe (ps : PipeHeap P) (q p : P) : (afterWait ps q p).pipe = some (q, p) := by
  unfold afterWait
  split <;> rfl

theorem afterWait_waiting {ps : PipeHeap P} {q p q' p' : P} {n : Bool} (h : afterWait ps q p = .waiting q' p' n) :
    q' = q ∧ p' = p ∧ (ps p).numCallsToNext ≠ 0 := by
  unfold afterWait at h
  split at h
  · cases h
  · rename_i hne
    cases h
    exact ⟨rfl, rfl, hne⟩

theorem afterWait_count {ps : PipeHeap P} {q p : P} (h : (ps p).numCallsToNext ≠ 0) :
    afterWait ps q p = .waiting q p false := if_neg h

theorem notifyAll_pipe (pops : D → Popping P) (p : P) (d : D) : (notifyAll pops p d).pipe = (pops d).pipe := by
  unfold notifyAll
  split
  · rename_i self prev n hd
    rw [hd]
    split <;> rfl
  · rfl

theorem notifyAll_unnotified {pops : D → Popping P} {p : P} {d : D} {q r : P}
    (h : notifyAll pops p d = .waiting q r false) :
    pops d = .waiting q r false ∧ r ≠ p := by
  unfold notifyAll at h
  split at h
  · rename_i self prev n hd
    split at h
    · cases h
    · rename_i hne
      cases h
      exact ⟨hd, hne⟩
  · rename_i hno
    exact absurd h (hno q r false)

theorem notifyAll_waiting {pops : D → Popping P} {p : P} {d : D} {q r : P} {n : Bool} (h : pops d = .waiting q r n) :
    ∃ n', notifyAll pops p d = .waiting q r n' := by
  simp only [notifyAll, h]
  split <;> exact ⟨_, rfl⟩

theorem waiting_of_notifyAll {pops : D → Popping P} {p : P} {d : D} {q r : P} {n : Bool}
    (h : notifyAll pops p d = .waiting q r n) : ∃ m, pops d = .waiting q r m := by
  unfold notifyAll at h
  split at h
  · rename_i self prev m hd
    split at h <;> cases h <;> exact ⟨_, hd⟩
  · exact ⟨n, h⟩

omit [DecidableEq P] in
theorem Sound.count_ne_zero (h : x.Sound) {c : C} {p : P} (hc : x.Calls c p) : (x.pipes p).numCallsToNext ≠ 0 := by
  obtain ⟨s, hs, hcard⟩ := h.counted p
  have := Finset.card_pos.2 ⟨c, (hs c).2 hc⟩
  omega

omit [DecidableEq P] in
/-- A step that changes no count and no call. -/
theorem Sound.counted_congr (h : x.Sound) (hc : x'.calls = x.calls)
    (hp : ∀ p, (x'.pipes p).numCallsToNext = (x.pipes p).numCallsToNext) (p : P) :
    ∃ s : Finset C, (∀ c, c ∈ s ↔ x'.Calls c p) ∧ (x'.pipes p).numCallsToNext = s.card := by
  obtain ⟨s, hs, hcard⟩ := h.counted p
  exact ⟨s, fun c => by rw [hs, Calls, Calls, hc], (hp p).trans hcard⟩

theorem Sound.invoke [DecidableEq C] (h : x.Sound) {c : C} {p : P} (hc : x.calls c = none) :
    Sound { x with pipes := (x.pipes.invokeBegin p).1,
                   calls := Function.update x.calls c (some (p, (x.pipes.invokeBegin p).2)) } where
  counted r := by
    obtain ⟨s, hs, hcard⟩ := h.counted r
    have hnot : c ∉ s := fun hmem => by
      obtain ⟨next, hnext⟩ := (hs c).1 hmem
      rw [hc] at hnext
      cases hnext
    by_cases hr : r = p
    · subst hr
      refine ⟨insert c s, fun c' => ?_, ?_⟩
      · by_cases hcc : c' = c
        · subst hcc
          simp [Calls]
        · simp [Calls, hcc, hs]
      · rw [Finset.card_insert_of_notMem hnot, PipeHeap.invokeBegin_numCallsToNext, if_pos rfl, hcard]
        push_cast
        rfl
    · refine ⟨s, fun c' => ?_, by rw [PipeHeap.invokeBegin_numCallsToNext, if_neg hr, hcard]⟩
      by_cases hcc : c' = c
      · subst hcc
        simp [Calls, hnot, Ne.symm hr]
      · simp [Calls, hcc, hs]
  inside c' r q hq := by
    rw [PipeHeap.invokeBegin_next]
    by_cases hcc : c' = c
    · subst hcc
      simp only [Function.update_self, Option.some.injEq, Prod.mk.injEq] at hq
      obtain ⟨rfl, hnext⟩ := hq
      exact .inl hnext
    · exact h.inside c' r q (by simpa [Function.update_of_ne hcc] using hq)
  popped d q r hd := by simpa using h.popped d q r hd
  wakeful d q r hd := by
    have := h.wakeful d q r hd
    obtain ⟨s, -, hcard⟩ := h.counted r
    rw [PipeHeap.invokeBegin_numCallsToNext]
    split <;> omega
  unique := h.unique

theorem Sound.leave [DecidableEq C] (h : x.Sound) {c : C} {p : P} {next : Option P} (hc : x.calls c = some (p, next)) :
    Sound { pipes := x.pipes.invokeEnd p,
            calls := Function.update x.calls c none,
            pops := if x.pipes.notifies p then notifyAll x.pops p else x.pops } := by
  have hpipe : ∀ d, ((if x.pipes.notifies p then notifyAll x.pops p else x.pops) d).pipe = (x.pops d).pipe := by
    intro d
    split
    · exact notifyAll_pipe x.pops p d
    · rfl
  refine ⟨fun r => ?_, fun c' r q hq => ?_, fun d q r hd => ?_, fun d q r hd => ?_, fun d d' q r r' hd hd' => ?_⟩
  · obtain ⟨s, hs, hcard⟩ := h.counted r
    have hiff : ∀ c', c' ≠ c → (c' ∈ s ↔ ∃ next, Function.update x.calls c none c' = some (r, next)) := by
      intro c' hcc
      rw [hs, Function.update_of_ne hcc]
      exact Iff.rfl
    by_cases hr : r = p
    · subst hr
      have hmem : c ∈ s := (hs c).2 ⟨next, hc⟩
      refine ⟨s.erase c, fun c' => ?_, ?_⟩
      · by_cases hcc : c' = c
        · subst hcc
          simp [Calls]
        · rw [Finset.mem_erase, hiff c' hcc]
          exact and_iff_right hcc
      · have := Finset.card_pos.2 ⟨c, hmem⟩
        rw [Finset.card_erase_of_mem hmem, PipeHeap.invokeEnd_numCallsToNext, if_pos rfl, hcard]
        omega
    · refine ⟨s, fun c' => ?_, by rw [PipeHeap.invokeEnd_numCallsToNext, if_neg hr, hcard]⟩
      by_cases hcc : c' = c
      · subst hcc
        simp [Calls, hs, hc, Ne.symm hr]
      · exact hiff c' hcc
  · rw [PipeHeap.invokeEnd_next]
    have hcc : c' ≠ c := fun he => by
      subst he
      simp at hq
    simp only [Function.update_of_ne hcc] at hq
    rcases h.inside c' r q hq with hn | ⟨d, n, hd⟩
    · exact .inl hn
    · refine .inr ⟨d, ?_⟩
      simp only
      split
      · exact notifyAll_waiting hd
      · exact ⟨n, hd⟩
  · simpa using h.popped d q r (by rw [← hpipe d]; exact hd)
  · -- Whoever waits unnotified either was not told, or waits on another pipe.
    simp only [PipeHeap.invokeEnd_numCallsToNext] at hd ⊢
    by_cases hnot : x.pipes.notifies p = true
    · rw [if_pos hnot] at hd
      obtain ⟨hd, hne⟩ := notifyAll_unnotified hd
      rw [if_neg hne]
      exact h.wakeful d q r hd
    · rw [if_neg hnot] at hd
      by_cases hr : r = p
      · subst hr
        have hdet := (h.popped d q r (by rw [hd]; rfl)).2.2
        rw [if_pos rfl]
        simpa [PipeHeap.notifies, hdet] using hnot
      · rw [if_neg hr]
        exact h.wakeful d q r hd
  · exact h.unique d d' q r r' (by rw [← hpipe d]; exact hd) (by rw [← hpipe d']; exact hd')

theorem Sound.push (h : x.Sound) {self prev : P} {ps : PipeHeap P} (hne : self ≠ prev)
    (hpush : x.pipes.pipePush self prev = .ok ps) : Sound { x with pipes := ps } := by
  obtain ⟨hprev, -, hopen, -⟩ := PipeHeap.pipePush_ok hpush hne
  obtain ⟨hn, hp⟩ := PipeHeap.pipePush_links hpush hne
  have hnext : ∀ p, (ps p).next = Function.update (fun p => (x.pipes p).next) prev (some self) p := congrFun hn
  have hback : ∀ p, (ps p).prev = Function.update (fun p => (x.pipes p).prev) self (some prev) p := congrFun hp
  have hrest := PipeHeap.pipePush_rest hpush hne
  refine ⟨h.counted_congr rfl fun p => (hrest p).1, fun c p q hq => ?_, fun d q p hd => ?_,
    fun d q p hd => ?_, h.unique⟩
  · rcases h.inside c p q hq with hin | hw
    · have hpp : p ≠ prev := fun he => by
        rw [he, hopen] at hin
        cases hin
      exact .inl ((hnext p).trans (by rw [Function.update_of_ne hpp, hin]))
    · exact .inr hw
  · obtain ⟨hq, hout, hdet⟩ := h.popped d q p hd
    have hqs : q ≠ self := fun he => by
      rw [he, hprev] at hq
      cases hq
    refine ⟨(hback q).trans (by rw [Function.update_of_ne hqs, hq]), ?_, (hrest p).2.trans hdet⟩
    show (ps p).next ≠ some q
    rw [hnext]
    by_cases hpp : p = prev
    · subst hpp
      simpa using Ne.symm hqs
    · rwa [Function.update_of_ne hpp]
  · show (ps p).numCallsToNext ≠ 0
    rw [(hrest p).1]
    exact h.wakeful d q p hd

theorem Sound.pop [DecidableEq D] (h : x.Sound) {d : D} {self prev : P} {ps : PipeHeap P} (hd : x.pops d = .idle)
    (hpop : x.pipes.popBegin self = .ok (ps, prev)) :
    Sound { x with pipes := ps, pops := Function.update x.pops d (afterWait ps self prev) } := by
  obtain ⟨-, hprev, hnext, hps⟩ := PipeHeap.popBegin_ok hpop
  have hcount : ∀ p, (ps p).numCallsToNext = (x.pipes p).numCallsToNext := fun p => by
    rw [hps]
    exact PipeHeap.update_field PipeNode.numCallsToNext (by rfl) p
  have hback : ∀ p, (ps p).prev = (x.pipes p).prev := fun p => by
    rw [hps]
    exact PipeHeap.update_field PipeNode.prev (by rfl) p
  have hother : ∀ d', d' ≠ d → Function.update x.pops d (afterWait ps self prev) d' = x.pops d' := fun d' hne =>
    Function.update_of_ne hne ..
  -- The pipe was attached, so nobody was popping it.
  have hfresh : ∀ d' p, (x.pops d').pipe ≠ some (self, p) := fun d' p hd' => by
    obtain ⟨hp, hout, -⟩ := h.popped d' self p hd'
    rw [hprev] at hp
    cases hp
    exact hout hnext
  refine ⟨h.counted_congr rfl hcount, fun c p q hq => ?_, fun d' q p hd' => ?_, fun d' q p hd' => ?_,
    fun d₁ d₂ q p p' h₁ h₂ => ?_⟩
  · rcases h.inside c p q hq with hin | ⟨d', n, hw⟩
    · by_cases hp : p = prev
      · subst hp
        rw [hnext] at hin
        cases hin
        refine .inr ⟨d, false, (Function.update_self ..).trans (afterWait_count ?_)⟩
        rw [hcount]
        exact h.count_ne_zero ⟨_, hq⟩
      · refine .inl ?_
        show (ps p).next = some q
        rw [hps, Function.update_of_ne hp, hin]
    · have hne : d' ≠ d := fun he => by
        rw [he, hd] at hw
        cases hw
      exact .inr ⟨d', n, (hother d' hne).trans hw⟩
  · by_cases hne : d' = d
    · subst hne
      simp only [Function.update_self, afterWait_pipe, Option.some.injEq, Prod.mk.injEq] at hd'
      obtain ⟨rfl, rfl⟩ := hd'
      exact ⟨(hback self).trans hprev, by rw [hps]; simp, by rw [hps]; simp⟩
    · simp only [hother d' hne] at hd'
      obtain ⟨hp, hout, hdet⟩ := h.popped d' q p hd'
      refine ⟨(hback q).trans hp, ?_, ?_⟩ <;> simp only [hps]
      · by_cases hpp : p = prev
        · subst hpp
          simp
        · rwa [Function.update_of_ne hpp]
      · by_cases hpp : p = prev
        · subst hpp
          simp
        · rwa [Function.update_of_ne hpp]
  · by_cases hne : d' = d
    · subst hne
      simp only [Function.update_self] at hd'
      obtain ⟨-, rfl, hcnt⟩ := afterWait_waiting hd'
      exact hcnt
    · simp only [hother d' hne] at hd'
      show (ps p).numCallsToNext ≠ 0
      rw [hcount]
      exact h.wakeful d' q p hd'
  · by_cases hne₁ : d₁ = d <;> by_cases hne₂ : d₂ = d
    · rw [hne₁, hne₂]
    · subst hne₁
      simp only [Function.update_self, afterWait_pipe, Option.some.injEq, Prod.mk.injEq] at h₁
      simp only [hother d₂ hne₂, ← h₁.1] at h₂
      exact absurd h₂ (hfresh d₂ p')
    · subst hne₂
      simp only [Function.update_self, afterWait_pipe, Option.some.injEq, Prod.mk.injEq] at h₂
      simp only [hother d₁ hne₁, ← h₂.1] at h₁
      exact absurd h₁ (hfresh d₁ p)
    · simp only [hother d₁ hne₁] at h₁
      simp only [hother d₂ hne₂] at h₂
      exact h.unique d₁ d₂ q p p' h₁ h₂

theorem Sound.recheck [DecidableEq D] (h : x.Sound) {d : D} {self prev : P} {n : Bool}
    (hd : x.pops d = .waiting self prev n) :
    Sound { x with pops := Function.update x.pops d (afterWait x.pipes self prev) } := by
  have hpipe : ∀ d', (Function.update x.pops d (afterWait x.pipes self prev) d').pipe = (x.pops d').pipe := by
    intro d'
    by_cases hne : d' = d
    · subst hne
      rw [Function.update_self, afterWait_pipe, hd]
      rfl
    · rw [Function.update_of_ne hne]
  refine ⟨h.counted, fun c p q hq => ?_, fun d' q p hd' => h.popped d' q p (hpipe d' ▸ hd'), fun d' q p hd' => ?_,
    fun d₁ d₂ q p p' h₁ h₂ => h.unique d₁ d₂ q p p' (hpipe d₁ ▸ h₁) (hpipe d₂ ▸ h₂)⟩
  · rcases h.inside c p q hq with hin | ⟨d', m, hw⟩
    · exact .inl hin
    · by_cases hne : d' = d
      · subst hne
        rw [hd] at hw
        cases hw
        exact .inr ⟨d', false, (Function.update_self ..).trans (afterWait_count (h.count_ne_zero ⟨_, hq⟩))⟩
      · exact .inr ⟨d', m, (Function.update_of_ne hne ..).trans hw⟩
  · by_cases hne : d' = d
    · subst hne
      simp only [Function.update_self] at hd'
      obtain ⟨-, rfl, hcnt⟩ := afterWait_waiting hd'
      exact hcnt
    · simp only [Function.update_of_ne hne] at hd'
      exact h.wakeful d' q p hd'

theorem Sound.leaves [DecidableEq D] (h : x.Sound) {d : D} {self prev : P} (hd : x.pops d = .leaving self prev) :
    Sound { x with pipes := x.pipes.popEnd self, pops := Function.update x.pops d .idle } := by
  have hcount : ∀ p, (x.pipes.popEnd self p).numCallsToNext = (x.pipes p).numCallsToNext :=
    PipeHeap.update_field PipeNode.numCallsToNext (by rfl)
  have hnext : ∀ p, (x.pipes.popEnd self p).next = (x.pipes p).next := PipeHeap.update_field PipeNode.next (by rfl)
  have hdetach : ∀ p, (x.pipes.popEnd self p).nextIsDetaching = (x.pipes p).nextIsDetaching :=
    PipeHeap.update_field PipeNode.nextIsDetaching (by rfl)
  have hother : ∀ {d' q p}, (Function.update x.pops d .idle d').pipe = some (q, p) →
    d' ≠ d ∧ (x.pops d').pipe = some (q, p) := by
    intro d' q p hd'
    by_cases hne : d' = d
    · subst hne
      rw [Function.update_self] at hd'
      cases hd'
    · rw [Function.update_of_ne hne] at hd'
      exact ⟨hne, hd'⟩
  refine ⟨h.counted_congr rfl hcount, fun c p q hq => ?_, fun d' q p hd' => ?_, fun d' q p hd' => ?_,
    fun d₁ d₂ q p p' h₁ h₂ => h.unique d₁ d₂ q p p' (hother h₁).2 (hother h₂).2⟩
  · rcases h.inside c p q hq with hin | ⟨d', n, hw⟩
    · exact .inl ((hnext p).trans hin)
    · have hne : d' ≠ d := fun he => by
        rw [he, hd] at hw
        cases hw
      exact .inr ⟨d', n, (Function.update_of_ne hne ..).trans hw⟩
  · obtain ⟨hne, hd'⟩ := hother hd'
    obtain ⟨hp, hout, hdet⟩ := h.popped d' q p hd'
    have hqs : q ≠ self := fun he => hne (h.unique d' d q p prev hd' (by rw [hd, he]; rfl))
    refine ⟨?_, by simpa [hnext] using hout, (hdetach p).trans hdet⟩
    show (x.pipes.popEnd self q).prev = some p
    rw [PipeHeap.popEnd, Function.update_of_ne hqs, hp]
  · have hne : d' ≠ d := fun he => by
      rw [he] at hd'
      simp at hd'
    simp only [Function.update_of_ne hne] at hd'
    simp only [hcount]
    exact h.wakeful d' q p hd'

theorem Sound.step [DecidableEq C] [DecidableEq D] {l : PipeUseLabel P C D} (h : x.Sound) (hs : PipeUseStep x l x') :
    x'.Sound := by
  cases hs with
  | invoke hc => exact h.invoke hc
  | leave hc => exact h.leave hc
  | push hne hpush => exact h.push hne hpush
  | pop hd hpop => exact h.pop hd hpop
  | recheck hd => exact h.recheck hd
  | popped hd => exact h.leaves hd

theorem reachable_sound [DecidableEq C] [DecidableEq D] (h : (pipeUse P C D).Reachable x) : x.Sound := by
  refine h.invariant (I := Sound) ?_ fun y l y' _ hI hs => hI.step hs
  intro y hy
  cases hy
  exact Sound.start

/-- While `q` is not attached to `p` and nobody waits to detach it, only a push
of `q` on `p` changes that. -/
theorem kept_off [DecidableEq C] [DecidableEq D] {l : PipeUseLabel P C D} {p q : P} (hs : PipeUseStep x l x')
    (hl : l ≠ .push q p) (hoff : (x.pipes p).next ≠ some q ∧ ∀ d n, x.pops d ≠ .waiting q p n) :
    (x'.pipes p).next ≠ some q ∧ ∀ d n, x'.pops d ≠ .waiting q p n := by
  obtain ⟨hnext, hwait⟩ := hoff
  cases hs with
  | invoke hc => exact ⟨by simpa using hnext, hwait⟩
  | @leave c r next res hc =>
    refine ⟨by simpa using hnext, fun d n hd => ?_⟩
    simp only at hd
    split at hd
    · obtain ⟨m, hm⟩ := waiting_of_notifyAll hd
      exact hwait d m hm
    · exact hwait d n hd
  | @push self prev ps hne hpush =>
    refine ⟨?_, hwait⟩
    have hn := congrFun (PipeHeap.pipePush_links hpush hne).1 p
    show (ps p).next ≠ some q
    rw [show (ps p).next = _ from hn]
    by_cases hp : p = prev
    · subst hp
      rw [Function.update_self]
      exact fun he => hl (by rw [Option.some.inj he])
    · rwa [Function.update_of_ne hp]
  | @pop d self prev ps hd hpop =>
    obtain ⟨-, -, hat, hps⟩ := PipeHeap.popBegin_ok hpop
    refine ⟨?_, fun d' n hd' => ?_⟩
    · simp only [hps]
      by_cases hp : p = prev
      · subst hp
        simp
      · rwa [Function.update_of_ne hp]
    · by_cases hne : d' = d
      · subst hne
        simp only [Function.update_self] at hd'
        obtain ⟨rfl, rfl, -⟩ := afterWait_waiting hd'
        exact hnext hat
      · simp only [Function.update_of_ne hne] at hd'
        exact hwait d' n hd'
  | @recheck d self prev m hd =>
    refine ⟨hnext, fun d' n hd' => ?_⟩
    by_cases hne : d' = d
    · subst hne
      simp only [Function.update_self] at hd'
      obtain ⟨rfl, rfl, -⟩ := afterWait_waiting hd'
      exact hwait d' m hd
    · simp only [Function.update_of_ne hne] at hd'
      exact hwait d' n hd'
  | @popped d self prev hd =>
    refine ⟨?_, fun d' n hd' => ?_⟩
    · rw [show (x.pipes.popEnd self p).next = (x.pipes p).next from PipeHeap.update_field PipeNode.next (by rfl) p]
      exact hnext
    · by_cases hne : d' = d
      · subst hne
        simp at hd'
      · simp only [Function.update_of_ne hne] at hd'
        exact hwait d' n hd'

omit [DecidableEq P] in
theorem Sound.nobody_in (h : x.Sound) {p q : P} (hoff : (x.pipes p).next ≠ some q ∧ ∀ d n, x.pops d ≠ .waiting q p n)
    (c : C) : x.calls c ≠ some (p, some q) := by
  intro hc
  rcases h.inside c p q hc with hin | ⟨d, n, hd⟩
  · exact hoff.1 hin
  · exact hoff.2 d n hd

end

end PipeUse

open PipeUse

/-- **Detaching a pipe waits for its callers.** In every run, a pipe's count is
the number of calls of `pipeInvokeNext` in progress through it; whoever is left
waiting without a notification waits for a count that is not zero; and from the
return of a `pipePop` on, no call is in the popped pipe through the pipe it was
attached to, until it is pushed there again. -/
theorem pipePop_waits {P C D : Type} [DecidableEq P] [DecidableEq C] [DecidableEq D]
    {tr : List (Machine.Transition (PipeUse P C D) (PipeUseLabel P C D))} {x : PipeUse P C D}
    (h : (pipeUse P C D).Run tr x) :
    (∀ p, 0 ≤ (x.pipes p).numCallsToNext ∧
      ∃ s : Finset C, (∀ c, c ∈ s ↔ x.Calls c p) ∧ (x.pipes p).numCallsToNext = s.card) ∧
    (∀ d self prev, x.pops d = .waiting self prev false → (x.pipes prev).numCallsToNext ≠ 0) ∧
    ∀ l₁ t l₂ d self prev, tr = l₁ ++ t :: l₂ → t.label = .popped d → t.pre.pops d = .leaving self prev →
      (∀ u ∈ l₂, u.label ≠ .push self prev) → ∀ u ∈ t :: l₂, ∀ c, u.post.calls c ≠ some (prev, some self) := by
  have hx := reachable_sound h.reachable
  refine ⟨fun p => ?_, hx.wakeful, ?_⟩
  · obtain ⟨s, hs, hcard⟩ := hx.counted p
    exact ⟨by omega, s, hs, hcard⟩
  · intro l₁ t l₂ d self prev htr hlab hleave hpush
    subst htr
    obtain ⟨hr, hstep⟩ := h.before
    have hpre := reachable_sound hr.reachable
    have hpost : t.post.Sound := hpre.step hstep
    -- Who popped it is past its wait, and nobody else pops it.
    have hoff : (t.pre.pipes prev).next ≠ some self ∧ ∀ d' n, t.pre.pops d' ≠ .waiting self prev n := by
      refine ⟨(hpre.popped d self prev (by rw [hleave]; rfl)).2.1, fun d' n hd' => ?_⟩
      have hd : d' = d := hpre.unique d' d self prev prev (by rw [hd']; rfl) (by rw [hleave]; rfl)
      rw [hd, hleave] at hd'
      cases hd'
    have hoff' := kept_off hstep (by rw [hlab]; simp) hoff
    obtain ⟨-, hall⟩ := h.since (C := fun u => u.label ≠ .push self prev)
      (I := fun y => (y.pipes prev).next ≠ some self ∧ ∀ d' n, y.pops d' ≠ .waiting self prev n)
      (fun s l s' _ hI hl hs => kept_off hs hl hI) hoff' hpush
    intro u hu c
    rcases List.mem_cons.1 hu with rfl | hu
    · exact hpost.nobody_in hoff' c
    · have hmem : u ∈ l₁ ++ t :: l₂ := List.mem_append_right _ (List.mem_cons_of_mem _ hu)
      exact (reachable_sound (h.transition u hmem).2.2).nobody_in (hall u hu) c

/-- A call that throws while the pop waits: its guard wakes the pop. -/
theorem pipePop_waits_once : ∃ tr x, (pipeUse Bool Unit Unit).Run tr x ∧
    tr.map (·.label) = [.push true false, .invoke () false, .pop () true,
      .leave () (.error (NotYetReadyException "The other side of the tunnel is not connected yet")),
      .recheck (), .popped ()] ∧
    (x.pipes false).numCallsToNext = 0 ∧ x.calls () ≠ some (false, some true) := by
  have h₁ := Machine.Run.step (.init rfl : (pipeUse Bool Unit Unit).Run [] _)
    (.push (by decide) rfl : PipeUseStep _ (.push true false) _)
  have h₂ := h₁.step (.invoke rfl : PipeUseStep _ (.invoke () false) _)
  have h₃ := h₂.step (.pop rfl rfl : PipeUseStep _ (.pop () true) _)
  have h₄ := h₃.step (.leave rfl : PipeUseStep _
    (.leave () (.error (NotYetReadyException "The other side of the tunnel is not connected yet"))) _)
  have h₅ := h₄.step (.recheck rfl : PipeUseStep _ (.recheck ()) _)
  have h₆ := h₅.step (.popped rfl : PipeUseStep _ (.popped ()) _)
  refine ⟨_, _, h₆, rfl, rfl, ?_⟩
  obtain ⟨-, -, hout⟩ := pipePop_waits h₆
  exact hout _ _ [] () true false rfl rfl rfl (fun _ hu => nomatch hu) _ List.mem_cons_self ()

end RuralPipe
