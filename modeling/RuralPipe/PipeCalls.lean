/-
The calls of the tunnel's threads through a chain of pipes of which only the
first few may be attached.

A call has its guards armed on the pipes it is in. The count of a pipe is the
number of such calls (`Counts`), and how far calls have come is kept by every
step of the stack, whatever is attached (`Within.step`). A pipe whose count is
zero has no call in it nor in any pipe beyond (`Within.emptied`).
-/
import Mathlib.Data.Finset.Card
import RuralPipe.Rejection

namespace RuralPipe

open TunnelFramePipe

/-! ## Counting -/

/-- `n` is the number of those that `A` holds of. -/
def Counts {S : Type} (n : Int) (A : S → Prop) : Prop := ∃ s : Finset S, (∀ i, i ∈ s ↔ A i) ∧ n = s.card

namespace Counts

variable {S : Type} {n : Int} {A B : S → Prop} {i : S}

theorem congr (h : Counts n A) (hab : ∀ j, B j ↔ A j) : Counts n B := by
  obtain ⟨s, hs, hn⟩ := h
  exact ⟨s, fun j => (hs j).trans (hab j).symm, hn⟩

theorem zero : Counts (0 : Int) fun _ : S => False := ⟨∅, by simp, rfl⟩

theorem none_of_zero (h : Counts 0 A) (j : S) : ¬ A j := by
  obtain ⟨s, hs, hn⟩ := h
  intro hj
  have := Finset.card_pos.2 ⟨j, (hs j).2 hj⟩
  omega

/-- One more. -/
theorem insert [DecidableEq S] (h : Counts n A) (hi : ¬ A i) (hab : ∀ j, B j ↔ j = i ∨ A j) : Counts (n + 1) B := by
  obtain ⟨s, hs, hn⟩ := h
  refine ⟨Insert.insert i s, fun j => by rw [Finset.mem_insert, hs, hab], ?_⟩
  rw [Finset.card_insert_of_notMem fun hmem => hi ((hs i).1 hmem), hn]
  push_cast
  rfl

/-- One less. -/
theorem erase [DecidableEq S] (h : Counts n A) (hi : A i) (hab : ∀ j, B j ↔ j ≠ i ∧ A j) : Counts (n - 1) B := by
  obtain ⟨s, hs, hn⟩ := h
  refine ⟨s.erase i, fun j => by rw [Finset.mem_erase, hs, hab], ?_⟩
  have := Finset.card_pos.2 ⟨i, (hs i).2 hi⟩
  rw [Finset.card_erase_of_mem ((hs i).2 hi), hn]
  omega

end Counts

/-! ## The chain, link by link -/

namespace PipeId

/-- How many pipes are before it. -/
def depth : PipeId → Nat
  | .tunnel => 0
  | .compressing => 1
  | .signing => 2
  | .socket => 3

def after : PipeId → Option PipeId
  | .tunnel => some .compressing
  | .compressing => some .signing
  | .signing => some .socket
  | .socket => none

def before : PipeId → Option PipeId
  | .tunnel => none
  | .compressing => some .tunnel
  | .signing => some .compressing
  | .socket => some .signing

/-- The guards armed while a call runs in `pipeInvokeNext` of a pipe. -/
def armed : PipeId → List PipeId
  | .tunnel => [.tunnel]
  | .compressing => [.compressing, .tunnel]
  | .signing => [.signing, .compressing, .tunnel]
  | .socket => [.socket, .signing, .compressing, .tunnel]

end PipeId

/-- The links to the next pipe, for `n` attached pipes. -/
def Onward (ps : Pipes) (n : Nat) : Prop := ∀ p, (ps p).next = if p.depth < n then p.after else none

/-- The links to the pipe before. -/
def Backward (ps : Pipes) (n : Nat) : Prop := ∀ p, (ps p).prev = if p.depth ≤ n then p.before else none

theorem Onward.congr {ps ps' : Pipes} {n : Nat} (h : Onward ps n) (hs : ∀ p, (ps' p).next = (ps p).next) :
    Onward ps' n := fun p => (hs p).trans (h p)

theorem Backward.congr {ps ps' : Pipes} {n : Nat} (h : Backward ps n) (hs : ∀ p, (ps' p).prev = (ps p).prev) :
    Backward ps' n := fun p => (hs p).trans (h p)

/-- With all three attached the chain is whole. -/
theorem chain_of_links {ps : Pipes} (h : Onward ps 3) (h' : Backward ps 3) : Chain ps := by
  refine ⟨(h _).trans rfl, (h _).trans rfl, (h _).trans rfl, ?_⟩
  have hsocket : (ps .socket).prev = some .signing := h' _
  have hsigning : (ps .signing).prev = some .compressing := h' _
  have hcompressing : (ps .compressing).prev = some .tunnel := h' _
  simp only [pipeInvokePrev, hsocket, hsigning, hcompressing]

/-! ## Calls -/

/-- A call that has come to a pipe of depth `r` at most, and on its way down found
the next one attached or none. -/
def Invocation.Placed (r : Nat) : Invocation → Prop
  | .down inside next =>
    ∃ p : PipeId, p ≠ .socket ∧ inside = p.armed ∧ p.depth ≤ r ∧ (next = none ∨ next = p.after ∧ p.depth < r)
  | .up inside _ => inside = [] ∨ ∃ p : PipeId, p ≠ .socket ∧ inside = p.armed ∧ p.depth ≤ r

theorem Invocation.Placed.mono {c : Invocation} {r r' : Nat} (h : c.Placed r) (hr : r ≤ r') : c.Placed r' := by
  cases c with
  | down inside next =>
    obtain ⟨p, hp, hin, hd, hnext⟩ := h
    exact ⟨p, hp, hin, by omega, hnext.imp_right fun hn => ⟨hn.1, by omega⟩⟩
  | up inside res =>
    refine h.imp_right fun h => ?_
    obtain ⟨p, hp, hin, hd⟩ := h
    exact ⟨p, hp, hin, by omega⟩

/-- The guard of a pipe armed, its own is armed nowhere before. -/
theorem PipeId.armed_cons (p : PipeId) : ∃ rest, p.armed = p :: rest ∧ p ∉ rest ∧
    (rest = [] ∨ ∃ q : PipeId, q ≠ .socket ∧ rest = q.armed ∧ q.depth ≤ p.depth) := by
  cases p with
  | tunnel => exact ⟨_, rfl, by decide, .inl rfl⟩
  | compressing => exact ⟨_, rfl, by decide, .inr ⟨.tunnel, by decide, rfl, by decide⟩⟩
  | signing => exact ⟨_, rfl, by decide, .inr ⟨.compressing, by decide, rfl, by decide⟩⟩
  | socket => exact ⟨_, rfl, by decide, .inr ⟨.signing, by decide, rfl, by decide⟩⟩

/-- A pipe that hands a call on arms its guard before it reads its link. -/
theorem PipeId.armed_after {p q : PipeId} (h : p.after = some q) :
    q.armed = q :: p.armed ∧ q ∉ p.armed ∧ q.depth = p.depth + 1 := by
  cases p <;> cases h <;> exact ⟨rfl, by decide, rfl⟩

theorem PipeId.mem_armed {p q : PipeId} : p ∈ q.armed ↔ p.depth ≤ q.depth := by
  cases p <;> cases q <;> decide

section
variable {S : Type} [DecidableEq S] {ps : Pipes} {armed armed' : S → List PipeId} {self : PipeId} {i : S}

/-- A call enters a pipe. -/
theorem counted_enter (h : ∀ p, Counts (ps p).numCallsToNext fun j => p ∈ armed j) (hi : self ∉ armed i)
    (hself : armed' i = self :: armed i) (hother : ∀ j, j ≠ i → armed' j = armed j) (p : PipeId) :
    Counts ((invokeBegin ps self).1 p).numCallsToNext fun j => p ∈ armed' j := by
  by_cases hp : p = self
  · subst hp
    have hcount : ((invokeBegin ps p).1 p).numCallsToNext = (ps p).numCallsToNext + 1 := by simp [invokeBegin]
    rw [hcount]
    refine (h p).insert hi fun j => ?_
    by_cases hj : j = i
    · subst hj
      simp [hself]
    · simp [hother j hj, hj]
  · have hcount : ((invokeBegin ps self).1 p).numCallsToNext = (ps p).numCallsToNext := by simp [invokeBegin, hp]
    rw [hcount]
    refine (h p).congr fun j => ?_
    by_cases hj : j = i
    · subst hj
      simp [hself, hp]
    · simp [hother j hj]

/-- A call leaves the pipe it is in. -/
theorem counted_leave (h : ∀ p, Counts (ps p).numCallsToNext fun j => p ∈ armed j) (hi : self ∉ armed' i)
    (hself : armed i = self :: armed' i) (hother : ∀ j, j ≠ i → armed' j = armed j) (p : PipeId) :
    Counts ((invokeEnd ps self) p).numCallsToNext fun j => p ∈ armed' j := by
  by_cases hp : p = self
  · subst hp
    have hcount : ((invokeEnd ps p) p).numCallsToNext = (ps p).numCallsToNext - 1 := by simp [invokeEnd]
    rw [hcount]
    refine (h p).erase (i := i) (by simp [hself]) fun j => ?_
    by_cases hj : j = i
    · subst hj
      simp [hi]
    · simp [hother j hj, hj]
  · have hcount : ((invokeEnd ps self) p).numCallsToNext = (ps p).numCallsToNext := by simp [invokeEnd, hp]
    rw [hcount]
    refine (h p).congr fun j => ?_
    by_cases hj : j = i
    · subst hj
      simp [hself, hp]
    · simp [hother j hj]

end

namespace SendingStack

variable {S K : Type}

/-- The calls of a stack with `n` pipes attached, of which no call has come
further than to the pipe of depth `r`. -/
structure Within (x : SendingStack S K) (n r : Nat) : Prop where
  onward : Onward x.pipes n
  counted : ∀ p, Counts (x.pipes p).numCallsToNext fun i => p ∈ x.armed i
  placed : ∀ i c, x.calls i = some c → c.Placed r
  invoking : ∀ i c, x.calls i = some c → ∃ buf, (x.threads i).loop = .invoking buf
  sender : ∀ i, x.sockets.senders i ≠ .idle →
    x.calls i = some (.down [.signing, .compressing, .tunnel] (some .socket))
  aborted : x.aborted = none

variable {x x' : SendingStack S K} {i j : S} {n r : Nat}

theorem armed_none (h : x.calls i = none) : x.armed i = [] := by rw [armed, h]; rfl

theorem armed_congr (h : x'.calls i = x.calls i) : x'.armed i = x.armed i := by rw [armed, armed, h]

/-- A sender outside its call is idle. -/
theorem Within.idle (h : x.Within n r)
    (hc : x.calls i ≠ some (.down [.signing, .compressing, .tunnel] (some .socket))) :
    x.sockets.senders i = .idle := by
  by_contra hi
  exact hc (h.sender i hi)

/-- A step that leaves the calls alone. -/
theorem Within.congr (h : x.Within n r) (hp : x'.pipes = x.pipes) (hc : x'.calls = x.calls)
    (ht : ∀ i c, x.calls i = some c → x'.threads i = x.threads i)
    (hs : ∀ i, x'.sockets.senders i ≠ .idle → x.sockets.senders i ≠ .idle ∨
      x.calls i = some (.down [.signing, .compressing, .tunnel] (some .socket)))
    (ha : x'.aborted = none) : x'.Within n r := by
  refine ⟨by rw [hp]; exact h.onward, fun p => ?_, by rw [hc]; exact h.placed, fun i c hi => ?_, fun i hi => ?_, ha⟩
  · rw [hp]
    exact (h.counted p).congr fun j => by rw [armed_congr (congrFun hc j)]
  · rw [hc] at hi
    rw [ht i c hi]
    exact h.invoking i c hi
  · rw [hc]
    exact (hs i hi).elim (h.sender i) id

section
variable [DecidableEq S]

/-- A call moves on, outside the socket's pipe. -/
theorem Within.call (h : x.Within n r) {pipes : Pipes} {c : Invocation} (hp : Onward pipes n)
    (hcount : ∀ p, Counts (pipes p).numCallsToNext fun j => p ∈ ({ x with pipes }.setCall i (some c)).armed j)
    (hc : c.Placed r) (hl : ∃ buf, (x.threads i).loop = .invoking buf) (hi : x.sockets.senders i = .idle) :
    ({ x with pipes }.setCall i (some c)).Within n r := by
  refine ⟨hp, hcount, fun j c' hj => ?_, fun j c' hj => ?_, fun j hj => ?_, h.aborted⟩
  · by_cases hij : j = i
    · subst hij
      rw [setCall_self] at hj
      cases hj
      exact hc
    · rw [setCall_ne hij] at hj
      exact h.placed j c' hj
  · by_cases hij : j = i
    · subst hij
      exact hl
    · rw [setCall_ne hij] at hj
      exact h.invoking j c' hj
  · by_cases hij : j = i
    · subst hij
      exact absurd hi hj
    · rw [setCall_ne hij]
      exact h.sender j hj

theorem armed_setCall {pipes : Pipes} {c : Invocation} :
    ({ x with pipes }.setCall i (some c)).armed i = c.armed ∧
      ∀ j, j ≠ i → ({ x with pipes }.setCall i (some c)).armed j = x.armed j :=
  ⟨armed_eq setCall_self, fun _ hj => armed_congr (setCall_ne hj)⟩

/-- A pipe that is entered reads its link. -/
theorem Within.enters (h : x.Within n r) (hnr : n ≤ r) {self : PipeId} (hsocket : self ≠ .socket)
    (hself : self.armed = self :: x.armed i) (hnot : self ∉ x.armed i) (hd : self.depth ≤ r)
    (hl : ∃ buf, (x.threads i).loop = .invoking buf) (hi : x.sockets.senders i = .idle) :
    ({ x with pipes := (Invocation.invoke x.pipes (x.armed i) self).1 }.setCall i
      (some (Invocation.invoke x.pipes (x.armed i) self).2)).Within n r := by
  refine h.call (h.onward.congr fun p => (invokeBegin_links x.pipes self p).1) ?_ ?_ hl hi
  · exact counted_enter h.counted hnot armed_setCall.1 armed_setCall.2
  · refine ⟨self, hsocket, hself.symm, hd, ?_⟩
    show (x.pipes self).next = none ∨ (x.pipes self).next = self.after ∧ _
    rw [h.onward self]
    split
    · exact .inr ⟨rfl, by omega⟩
    · exact .inl rfl

/-- A pipe hands the call on, or its guard runs. -/
theorem Within.pipe (h : x.Within n r) (hnr : n ≤ r) {c c' : Invocation} {pipes : Pipes} (hc : x.calls i = some c)
    (hs : c.step x.pipes = some (.ok (pipes, c'))) : ({ x with pipes }.setCall i (some c')).Within n r := by
  have hplaced := h.placed i c hc
  have hl := h.invoking i c hc
  cases c with
  | down inside next =>
    obtain ⟨p, hp, hin, hd, hnext⟩ := hplaced
    have hi : next ≠ some .socket → x.sockets.senders i = .idle := fun hne => h.idle fun he => by
      rw [hc] at he
      cases he
      exact hne rfl
    have harmed : x.armed i = inside := armed_eq hc
    rcases hnext with rfl | ⟨hnext, hlt⟩
    · cases hs
      exact h.call h.onward (fun q => (h.counted q).congr fun j => by
        by_cases hj : j = i
        · subst hj
          rw [armed_setCall.1, harmed]
          rfl
        · rw [armed_setCall.2 j hj]) (.inr ⟨p, hp, hin, hd⟩) hl (hi (by simp))
    · subst hnext
      -- The link is the next pipe's, which is not the tunnel and may be the socket.
      cases hq : p.after with
      | none =>
        cases p with
        | socket => exact absurd rfl hp
        | _ => cases hq
      | some q =>
        obtain ⟨hqa, hqn, hqd⟩ := PipeId.armed_after hq
        rw [hq] at hs
        rw [← hin, ← harmed] at hqa hqn
        have hent : q ≠ .socket → ({ x with pipes := (Invocation.invoke x.pipes (x.armed i) q).1 }.setCall i
            (some (Invocation.invoke x.pipes (x.armed i) q).2)).Within n r := fun hq' =>
          h.enters hnr hq' hqa hqn (by omega) hl (hi (by rw [hq]; exact fun he => hq' (Option.some.inj he)))
        rw [harmed] at hent
        cases q with
        | tunnel => cases p <;> cases hq
        | socket => cases hs
        | compressing =>
          cases hs
          exact hent (by decide)
        | signing =>
          cases hs
          exact hent (by decide)
  | up inside res =>
    have hi : x.sockets.senders i = .idle := h.idle fun he => by
      rw [hc] at he
      cases he
    rcases hplaced with rfl | ⟨p, hp, rfl, hd⟩
    · cases hs
    · obtain ⟨rest, hrest, hnot, hplace⟩ := p.armed_cons
      have harmed : x.armed i = p :: rest := (armed_eq hc).trans hrest
      rw [hrest] at hs
      cases hs
      refine h.call (h.onward.congr fun q => (invokeEnd_links x.pipes p q).1) ?_ ?_ hl hi
      · refine counted_leave h.counted ?_ ?_ armed_setCall.2
        · rw [armed_setCall.1]
          exact hnot
        · rw [harmed, armed_setCall.1]
          rfl
      · refine hplace.imp_right fun hq => ?_
        obtain ⟨q, hq, hqa, hqd⟩ := hq
        exact ⟨q, hq, hqa, by omega⟩

omit [DecidableEq S] in
/-- Only a call at the tunnel's pipe aborts, and no pipe's link leads there. -/
theorem Within.no_abort (h : x.Within n r) {c : Invocation} {e : Failure} (hc : x.calls i = some c) :
    c.step x.pipes ≠ some (.error e) := by
  intro hst
  have hplaced := h.placed i c hc
  cases c with
  | up inside res => cases inside <;> cases hst
  | down inside next =>
    obtain ⟨p, hp, -, -, rfl | ⟨rfl, -⟩⟩ := hplaced
    · cases hst
    · cases p <;> cases hst

variable [DecidableEq K] {fds : S → FileDescriptor} {mtu : Nat} {client : Option SessionId} {l : StackLabel S K}

/-- A step of the stack keeps its calls where they may be, whatever is attached. -/
theorem Within.step (h : x.Within n r) (hnr : n ≤ r) (hs : StackStep fds mtu client x l x') : x'.Within n r := by
  cases hs with
  | @loop i ev t ho hst =>
    refine h.congr rfl rfl (fun j c hj => setThread_ne fun hij => ?_) (fun j hj => .inl hj) h.aborted
    subst hij
    obtain ⟨buf, hl⟩ := h.invoking j c hj
    rw [TunnelThread.step_invoking hl ho] at hst
    cases hst
  | @invoke i buf hl hc =>
    have harmed := armed_none hc
    have hself : PipeId.tunnel.armed = .tunnel :: x.armed i := by
      rw [harmed]
      rfl
    have hent := h.enters hnr (by decide : PipeId.tunnel ≠ .socket) hself (by simp [harmed]) (Nat.zero_le r)
      ⟨buf, hl⟩ (h.idle (by simp [hc]))
    rw [harmed] at hent
    exact hent
  | pipe hc hst => exact h.pipe hnr hc hst
  | pipeAborts hc hst => exact absurd hst (h.no_abort hc)
  | @enter i inside buf sockets hc hl hst =>
    obtain ⟨-, rfl⟩ := hst.call_eq
    refine h.congr rfl rfl (fun _ _ _ => rfl) (fun j hj => ?_) h.aborted
    by_cases hij : j = i
    · subst hij
      obtain ⟨p, hp, rfl, -, hnext | ⟨hnext, -⟩⟩ := h.placed j _ hc
      · cases hnext
      · cases p <;> cases hnext
        exact .inr hc
    · exact .inl (by rwa [SocketState.setSender_ne hij] at hj)
  | @leave i inside buf res sockets hc hi hst =>
    obtain rfl := hst.leave_eq
    obtain ⟨p, hp, rfl, hd, -⟩ := h.placed i _ hc
    have harmed : ∀ j, (({ x with sockets := x.sockets.setSender i .idle }.setThread i
        { x.threads i with loop := .invoking buf }).setCall i (some (.up p.armed res))).armed j = x.armed j := by
      intro j
      by_cases hj : j = i
      · subst hj
        exact (armed_eq setCall_self).trans (armed_eq hc).symm
      · exact armed_congr (setCall_ne hj)
    refine ⟨h.onward, fun q => (h.counted q).congr fun j => by rw [harmed], fun j c hj => ?_, fun j c hj => ?_,
      fun j hj => ?_, h.aborted⟩
    · by_cases hij : j = i
      · subst hij
        rw [setCall_self] at hj
        cases hj
        exact .inr ⟨p, hp, rfl, hd⟩
      · rw [setCall_ne hij] at hj
        exact h.placed j c hj
    · by_cases hij : j = i
      · subst hij
        exact ⟨buf, congrArg TunnelThread.loop setThread_self⟩
      · rw [setCall_ne hij] at hj
        rw [setCall_threads, setThread_ne hij]
        exact h.invoking j c hj
    · by_cases hij : j = i
      · subst hij
        exact absurd SocketState.setSender_self hj
      · rw [setCall_ne hij]
        exact h.sender j (by rwa [setCall_sockets, setThread_sockets, SocketState.setSender_ne hij] at hj)
  | @outcome i buf res t hc hl hst =>
    have harmed : ∀ j, ((x.setThread i t).setCall i none).armed j = x.armed j := by
      intro j
      by_cases hj : j = i
      · subst hj
        exact (armed_none setCall_self).trans (armed_eq hc).symm
      · exact armed_congr (setCall_ne hj)
    refine ⟨h.onward, fun q => (h.counted q).congr fun j => by rw [harmed], fun j c hj => ?_, fun j c hj => ?_,
      fun j hj => ?_, h.aborted⟩
    · by_cases hij : j = i
      · subst hij
        rw [setCall_self] at hj
        cases hj
      · rw [setCall_ne hij] at hj
        exact h.placed j c hj
    · by_cases hij : j = i
      · subst hij
        rw [setCall_self] at hj
        cases hj
      · rw [setCall_ne hij] at hj
        rw [setCall_threads, setThread_ne hij]
        exact h.invoking j c hj
    · by_cases hij : j = i
      · subst hij
        exact absurd (h.idle (by simp [hc])) hj
      · rw [setCall_ne hij]
        exact h.sender j hj
  | socket hl hst =>
    have hk := hst.keeps hl
    exact h.congr rfl rfl (fun _ _ _ => rfl) (fun j hj => .inl fun he => hj ((hk j).1.2 he)) h.aborted
  | interrupt => exact h.congr rfl rfl (fun _ _ _ => rfl) (fun j hj => .inl hj) h.aborted

end

theorem Within.mem_armed (h : x.Within n r) {p : PipeId} (hp : p ∈ x.armed i) : p.depth ≤ r := by
  cases hc : x.calls i with
  | none =>
    rw [armed_none hc] at hp
    cases hp
  | some c =>
    rw [armed_eq hc] at hp
    have hplaced := h.placed i c hc
    cases c with
    | down inside next =>
      obtain ⟨q, -, rfl, hd, -⟩ := hplaced
      exact (PipeId.mem_armed.1 hp).trans hd
    | up inside res =>
      rcases hplaced with rfl | ⟨q, -, rfl, hd⟩
      · cases hp
      · exact (PipeId.mem_armed.1 hp).trans hd

/-- While no call gets to the socket's pipe, nobody sends. -/
theorem Within.senders_idle (h : x.Within n r) (hr : r < 3) (i : S) : x.sockets.senders i = .idle := by
  refine h.idle fun hc => ?_
  obtain ⟨p, hp, hin, -, hnext | ⟨hnext, hd⟩⟩ := h.placed i _ hc
  · cases hnext
  · cases p with
    | signing => exact absurd hd (Nat.not_lt.2 (Nat.le_of_lt_succ hr))
    | socket => exact absurd rfl hp
    | _ => cases hnext

/-- A pipe whose count is zero has no call in it, and none beyond. -/
theorem Within.emptied (h : x.Within n r) {p : PipeId} (hcount : (x.pipes p).numCallsToNext = 0) (i : S)
    (c : Invocation) (hc : x.calls i = some c) : c.Placed p.depth := by
  have hcounted := h.counted p
  rw [hcount] at hcounted
  have hnot := hcounted.none_of_zero i
  rw [armed_eq hc] at hnot
  have hplaced := h.placed i c hc
  cases c with
  | down inside next =>
    obtain ⟨q, hq, rfl, hd, hnext⟩ := hplaced
    have hlt : q.depth < p.depth := Nat.not_le.1 fun hle => hnot (PipeId.mem_armed.2 hle)
    exact ⟨q, hq, rfl, hlt.le, hnext.imp_right fun hn => ⟨hn.1, hlt⟩⟩
  | up inside res =>
    refine hplaced.imp_right fun hq => ?_
    obtain ⟨q, hq, rfl, hd⟩ := hq
    have hlt : q.depth < p.depth := Nat.not_le.1 fun hle => hnot (PipeId.mem_armed.2 hle)
    exact ⟨q, hq, rfl, hlt.le⟩

/-- The links change, and the calls stay where they are. -/
theorem Within.setPipes (h : x.Within n r) {pipes : Pipes} {n' r' : Nat} (hp : Onward pipes n')
    (hcount : ∀ p, (pipes p).numCallsToNext = (x.pipes p).numCallsToNext)
    (hplaced : ∀ i c, x.calls i = some c → c.Placed r') : ({ x with pipes } : SendingStack S K).Within n' r' :=
  ⟨hp, fun p => by rw [hcount]; exact h.counted p, hplaced, h.invoking, h.sender, h.aborted⟩

/-- No step of the stack changes a link to the pipe before. -/
theorem step_prev [DecidableEq S] [DecidableEq K] {fds : S → FileDescriptor} {mtu : Nat} {client : Option SessionId}
    {l : StackLabel S K} (hs : StackStep fds mtu client x l x') (p : PipeId) :
    (x'.pipes p).prev = (x.pipes p).prev := by
  cases hs with
  | invoke => exact (invokeBegin_links x.pipes _ p).2
  | @pipe i c pipes c' hc hst =>
    show (pipes p).prev = (x.pipes p).prev
    cases c with
    | up inside res =>
      cases inside with
      | nil => cases hst
      | cons self inside =>
        cases hst
        exact (invokeEnd_links x.pipes self p).2
    | down inside next =>
      cases next with
      | none =>
        cases hst
        rfl
      | some q =>
        cases q with
        | compressing | signing =>
          cases hst
          exact (invokeBegin_links x.pipes _ p).2
        | tunnel | socket => cases hst
  | _ => rfl

/-! ## A hand-over with nobody at the other end -/

section
variable [DecidableEq S] {buf : TunnelFrameBuffer}

/-- The thread's own state, its position apart, is the one it had. -/
theorem Stays.thread (h : x.Stays x' i buf) :
    { x'.threads i with loop := TunnelLoop.invoking buf } = { x.threads i with loop := .invoking buf } := by
  have heq := congrArg (fun y => SendingStack.threads y i) h.2
  simpa only [erase, Function.update_self] using heq

variable [DecidableEq K] {fds : S → FileDescriptor} {mtu : Nat} {client : Option SessionId} {l : StackLabel S K}

theorem threads_other (hs : StackStep fds mtu client x l x') (hl : l.thread ≠ some i) :
    x'.threads i = x.threads i := by
  have hne : ∀ {k : S}, some k ≠ some i → i ≠ k := fun h he => h (congrArg some he.symm)
  cases hs with
  | loop | leave | outcome => exact setThread_ne (hne hl)
  | _ => rfl

/-- While no call gets to the socket, a frame being handed over stays with its
thread. -/
theorem Unmoved.without_socket (h : x.Unmoved i buf) (hw : x.Within n r) (hr : r < 3)
    (hs : StackStep fds mtu client x l x') : x'.Unmoved i buf ∧
      { x'.threads i with loop := TunnelLoop.invoking buf } = { x.threads i with loop := .invoking buf } := by
  by_cases hl : l.thread = some i
  · have hidle := hw.senders_idle hr i
    have hstays : x.Stays x' i buf := by
      cases hs with
      | loop ho hst =>
        cases hl
        exact h.loop ho hst
      | invoke hl' hc =>
        cases hl
        exact h.invoke hl' hc
      | pipe hc hst =>
        cases hl
        exact h.pipe hc hst
      | @pipeAborts j c cond hc hst => exact absurd hst (hw.no_abort hc)
      | enter hc hl' hst =>
        cases hl
        obtain ⟨-, rfl⟩ := hst.call_eq
        exact h.enter hc hl'
      | leave hc hi hst =>
        cases hl
        rw [hidle] at hi
        cases hi
      | outcome hc hl' hst =>
        cases hl
        exact h.outcome hc hl' hst
      | socket hno hst => exact absurd (hst.ofCaller hl (.inl hidle)) hno
      | interrupt => cases hl
    exact ⟨hstays.1, hstays.thread⟩
  · rw [threads_other hs hl]
    exact ⟨(h.other hs hl).1, rfl⟩

end

end SendingStack

end RuralPipe
