/-
Whatever fails, every datagram is accounted for.

Threads, loops and sends may fail, be interrupted or abort at any point. A
datagram is then still at one place at a time, or it is lost: with the thread
that had it in hand when it ended, or on the stream whose loop no longer runs.
The lost ones are in the drains of a conveyor (`Drains`) that the datagrams
move on, each from the queue where it was read to the loop that delivers it
(`Accounted`).

Only a stream taken again with a torn frame on it is left out, which has its
reader lose the frames' boundaries, and a tunnel device that takes part of a
datagram.
-/
import RuralPipe.Drains
import RuralPipe.EndToEnd
import RuralPipe.ReceivingLosses
import RuralPipe.SendingLosses
import RuralPipe.Ways

namespace RuralPipe

open Bytes

/-- No sender takes a stream with a torn frame on it, and the tunnel device
takes whole datagrams; all else may fail. -/
def Tolerable {S K : Type} [DecidableEq S] [DecidableEq K]
    (t : Machine.Transition (EndToEnd S K) (EndToEndLabel S K)) : Prop :=
  match t.label with
  | .send l => ∀ l', l = .socket l' → ¬ TakesTorn ⟨t.pre.sending.sockets, l', t.post.sending.sockets⟩
  | .receive k ev => (t.pre.receiving.loops k).Whole ev
  | .interrupt => True

/-- What a thread loses is lost with it, and what is on a stream, or is put
there, on the stream. -/
def falls (S K : Type) : Place S K → S ⊕ K → Prop
  | .carried i, .inl j => i = j
  | .batch i, .inl j => i = j
  | .batch _, .inr _ => True
  | .stream k, .inr k' => k = k'
  | .delivery k, .inr k' => k = k'
  | _, _ => False

namespace EndToEnd

variable {S K : Type} {x x' : EndToEnd S K} {i : S} {k : K} {lost : S ⊕ K → List (List UInt8)}
  {out : List (K × List UInt8)}

/-! ## Where the datagrams are -/

/-- The bytes on the stream: those its loop has of the next frame, and those on
their way. -/
def arriving (x : EndToEnd S K) (k : K) : List UInt8 :=
  (x.receiving.loops k).given (x.receiving.streams k) ++ (x.sending.sockets.wire k).drop (x.taken k)

/-- The datagrams in whole frames on a stream whose loop runs. -/
def onWay (x : EndToEnd S K) (k : K) : List (List UInt8) :=
  if (x.receiving.loops k).dead then [] else (frames.chunks (x.arriving k)).1.flatMap frameDatagrams

def held (x : EndToEnd S K) : Place S K → List (List UInt8)
  | .carried i => x.sending.ownSpare i
  | .batch i => x.sending.ownBatch i
  | .stream k => x.onWay k
  | .delivery k => x.pending k

/-- The conveyor, with `lost` in its drains. -/
def leakyBelt (x : EndToEnd S K) (lost : S ⊕ K → List (List UInt8)) : Conveyor (Place S K ⊕ (S ⊕ K)) (List UInt8) where
  holds := Sum.elim x.held lost
  loaded := x.read.map (·.2)
  unloaded := x.written.map (·.2)

/-- A datagram at its queue. -/
def atQueue (r : S × List UInt8) : (Place S K ⊕ (S ⊕ K)) × List UInt8 := (.inl (.carried r.1), r.2)

/-- A datagram at its loop. -/
def atLoop (r : K × List UInt8) : (Place S K ⊕ (S ⊕ K)) × List UInt8 := (.inl (.delivery r.1), r.2)

theorem atQueue_injective : Function.Injective (atQueue (S := S) (K := K)) := by
  rintro ⟨i, d⟩ ⟨i', d'⟩ ⟨⟩
  rfl

theorem atLoop_injective : Function.Injective (atLoop (S := S) (K := K)) := by
  rintro ⟨k, d⟩ ⟨k', d'⟩ ⟨⟩
  rfl

/-- The datagrams have moved as on the conveyor: read at their queues, and those
of `out` delivered by their loops. -/
def Moved (x : EndToEnd S K) (lost : S ⊕ K → List (List UInt8)) (out : List (K × List UInt8)) : Prop :=
  ∃ tr, (conveyor _ ((places S K).withDrains (falls S K))).Run tr (x.leakyBelt lost) ∧
    Conveyor.entries tr = x.read.map atQueue ∧
    Conveyor.exits tr = out.map atLoop

/-- The places, where `o` comes in and `u` goes out. -/
def gate (o : Option (S × List UInt8)) (u : Option (K × List UInt8)) : Layout (Place S K) :=
  (places S K).through (fun p => ∃ r, o = some r ∧ p = .carried r.1) fun p => ∃ r, u = some r ∧ p = .delivery r.1

/-- Of at most one thing it is enough to know where it may be. -/
theorem at_its_place {ι : Type*} {f : ι → Place S K} {es : List ((Place S K ⊕ (S ⊕ K)) × List UInt8)}
    {o : Option (ι × List UInt8)} (hd : es.map (·.2) = o.toList.map (·.2))
    (hp : ∀ e ∈ es, Sum.elim (fun p => ∃ r, o = some r ∧ p = f r.1) (fun _ => False) e.1) :
    es = o.toList.map fun r => (.inl (f r.1), r.2) := by
  rcases o with - | r
  · exact List.map_eq_nil_iff.1 hd
  · obtain ⟨⟨p | q, d⟩, rfl⟩ := List.length_eq_one_iff.1 ((List.length_map _).symm.trans (congrArg List.length hd))
    · obtain ⟨r', hr, rfl⟩ := hp _ (List.mem_singleton_self _)
      cases hr
      obtain rfl : d = r.2 := by simpa using hd
      rfl
    · exact (hp _ (List.mem_singleton_self _)).elim

theorem Moved.steps {lost' : S ⊕ K → List (List UInt8)} {out : List (K × List UInt8)} {o : Option (S × List UInt8)}
    {u : Option (K × List UInt8)} (h : x.Moved lost out) (hread : x'.read = x.read ++ o.toList)
    (hwritten : x'.written.map (·.2) = x.written.map (·.2) ++ u.toList.map (·.2))
    (hs : (conveyor _ ((gate o u).withDrains (falls S K))).Steps (x.leakyBelt lost) (x'.leakyBelt lost')) :
    x'.Moved lost' (out ++ u.toList) := by
  obtain ⟨tr, hrun, hin, hout⟩ := h
  have hE : ∀ p : Place S K ⊕ (S ⊕ K), Sum.elim (gate o u).entry (fun _ => False) p →
      ((places S K).withDrains (falls S K)).entry p := by
    rintro (p | q) hp
    · obtain ⟨r, -, rfl⟩ := hp
      trivial
    · exact hp
  have hX : ∀ p : Place S K ⊕ (S ⊕ K), Sum.elim (gate o u).exit (fun _ => False) p →
      ((places S K).withDrains (falls S K)).exit p := by
    rintro (p | q) hp
    · obtain ⟨r, -, rfl⟩ := hp
      trivial
    · exact hp
  obtain ⟨tr', hrun', hl, hu, hEs, hXs⟩ := Conveyor.run_through hrun hE hX hs
  have hl : (Conveyor.entries tr').map (·.2) = o.toList.map (·.2) := by
    have hl : x'.read.map (·.2) = x.read.map (·.2) ++ _ := hl
    rw [hread, List.map_append] at hl
    exact (List.append_cancel_left hl).symm
  have hu : (Conveyor.exits tr').map (·.2) = u.toList.map (·.2) :=
    (List.append_cancel_left (hwritten.symm.trans hu)).symm
  refine ⟨tr ++ tr', hrun', ?_, ?_⟩
  · rw [Conveyor.entries_append, hin, hread, List.map_append, at_its_place hl hEs]
    rfl
  · rw [Conveyor.exits_append, hout, List.map_append, at_its_place hu hXs]
    rfl

/-- The stream has the frames `fs` on it and the bytes `p` of another, and its
loop the datagrams `ds` to deliver. -/
structure Arriving (x : EndToEnd S K) (k : K) (fs : List TunnelFrameBuffer) (p : List UInt8) (ds : List (List UInt8)) :
    Prop where
  closed : ∀ f ∈ fs, ∃ ds, f.Closed ds
  bytes : x.arriving k = (fs.map TunnelFrameBuffer.bytes).flatten ++ p
  part : x.sending.sockets.Part k p
  loop : (x.receiving.loops k).Holds (x.receiving.streams k)
    ((x.receiving.loops k).given (x.receiving.streams k)) ds

/-- The frames are found again in the bytes, and no part of another. -/
theorem Arriving.onWay_eq {fs p ds} (h : x.Arriving k fs p ds) :
    x.onWay k = fs.flatMap TunnelFrameBuffer.datagrams := by
  have hw : ∀ b ∈ fs.map TunnelFrameBuffer.bytes, frames.Whole b := by
    intro b hb
    obtain ⟨f, hf, rfl⟩ := List.mem_map.1 hb
    obtain ⟨ds, hds⟩ := h.closed f hf
    exact hds.whole
  have hp : (frames.chunks p).1 = [] := by
    by_cases hnil : p = []
    · rw [hnil, Delimited.chunks_nil]
    · obtain ⟨f, ds, hcl, hpre, hne⟩ := h.part.short hnil
      rw [Delimited.chunks_prefix hcl.whole hpre hne]
  rw [onWay, h.loop.running, if_neg Bool.false_ne_true, h.bytes, Delimited.chunks_flatten hw, hp, List.append_nil,
    List.flatMap_map]
  rfl

theorem Arriving.pending_eq {fs p ds} (h : x.Arriving k fs p ds) : x.pending k = ds := h.loop.pending_eq

theorem onWay_dead (h : (x.receiving.loops k).dead = true) : x.onWay k = [] := if_pos h

/-! ## The invariant -/

section
variable [DecidableEq S] [DecidableEq K] {fds : S → FileDescriptor} {mtu : Nat} {client : Option SessionId}

variable (fds mtu client) in
/-- Every stream has whole frames and part of one more, or its loop is dead, but
of no failed assertion; no datagram is empty; who has lost something has ended;
and the datagrams have moved as on a conveyor. -/
structure Accounted (x : EndToEnd S K) (lost : S ⊕ K → List (List UInt8)) (out : List (K × List UInt8)) : Prop where
  reachable : (sendingStack K fds mtu client).Reachable x.sending
  chain : TunnelFramePipe.Chain x.receiving.pipes
  taken : ∀ k, x.taken k ≤ (x.sending.sockets.wire k).length
  streams : ∀ k, (x.receiving.loops k).dead = true ∨ ∃ fs p ds, x.Arriving k fs p ds
  unaborted : ∀ k, (x.receiving.loops k).aborting = false
  full : ∀ p, ∀ d ∈ x.held p, d ≠ []
  threads : ∀ i, lost (.inl i) ≠ [] → (x.sending.threads i).Ended
  loops : ∀ k, lost (.inr k) ≠ [] → (x.receiving.loops k).dead = true
  moved : x.Moved lost out

theorem Accounted.start (h : x.Starts) : x.Accounted fds mtu client (fun _ => []) [] := by
  obtain ⟨ps, hps, hch⟩ := TunnelFramePipe.attached_chain
  rw [h.receiving.pipes] at hps
  cases hps
  obtain ⟨pipes, -, hx⟩ := h.sending
  have hwire : ∀ k, x.sending.sockets.wire k = [] := fun k => by rw [hx]; rfl
  have harr : ∀ k, x.arriving k = [] := by
    intro k
    rw [arriving, h.receiving.loops, hwire, List.drop_nil]
    rfl
  have hstream : ∀ k, x.Arriving k [] [] [] := by
    intro k
    refine ⟨(fun _ hf => nomatch hf), harr k,
      ⟨fun i s hi => ?_, fun _ hne => absurd rfl hne, fun hne => absurd rfl hne⟩,
      by rw [h.receiving.loops]; exact ⟨rfl, rfl⟩⟩
    rw [hx] at hi
    cases hi
  have hheld : ∀ p, x.held p = [] := by
    rintro (i | i | k | k)
    · exact congrArg (SendingStack.ownSpare · i) hx
    · exact congrArg (SendingStack.ownBatch · i) hx
    · exact (hstream k).onWay_eq
    · exact (hstream k).pending_eq
  refine ⟨.init h.sending, hch, fun k => by rw [h.taken]; exact Nat.zero_le _, fun k => .inr ⟨_, _, _, hstream k⟩,
    fun k => by rw [h.receiving.loops]; rfl, fun p d hd => absurd (hheld p ▸ hd) List.not_mem_nil,
    fun i hne => absurd rfl hne, fun k hne => absurd rfl hne,
    [], .init (Conveyor.ext (funext fun r => ?_) (congrArg (List.map _) h.read) (congrArg (List.map _) h.written)),
    (congrArg (List.map _) h.read).symm, rfl⟩
  rcases r with p | q
  · exact hheld p
  · rfl

/-! ## Steps of the sending side -/

omit [DecidableEq S] [DecidableEq K] in
/-- A stream given no frame's end has the frames it had. -/
theorem Arriving.goes (h : x.Sends x') (ht : x.taken k ≤ (x.sending.sockets.wire k).length)
    (hg : x.sending.sockets.Goes x'.sending.sockets k) {fs p ds} (ha : x.Arriving k fs p ds) :
    ∃ p, x'.Arriving k fs p ds := by
  obtain ⟨out, hwire, hpart⟩ := hg
  refine ⟨p ++ out, ha.closed, ?_, hpart p ha.part, by rw [h.receiving]; exact ha.loop⟩
  have harr : x'.arriving k = x.arriving k ++ out := by
    rw [arriving, arriving, h.receiving, h.taken, hwire, List.drop_append_of_le_length ht, List.append_assoc]
  rw [harr, ha.bytes, List.append_assoc]

omit [DecidableEq S] [DecidableEq K] in
/-- A stream given a frame's end has that frame too. -/
theorem Arriving.finishes (h : x.Sends x') (ht : x.taken k ≤ (x.sending.sockets.wire k).length) {f : TunnelFrameBuffer}
    (hf : x.sending.sockets.Finishes x'.sending.sockets i k f) {es : List (List UInt8)} (hcl : f.Closed es) {fs p ds}
    (ha : x.Arriving k fs p ds) : x'.Arriving k (fs ++ [f]) [] ds := by
  obtain ⟨out, hwire, hpart⟩ := hf.stream
  obtain ⟨hbytes, hpart'⟩ := hpart p ha.part
  refine ⟨fun g hg => ?_, ?_, hpart', by rw [h.receiving]; exact ha.loop⟩
  · rcases List.mem_append.1 hg with hg | hg
    · exact ha.closed g hg
    · rw [List.mem_singleton] at hg
      exact ⟨es, hg ▸ hcl⟩
  · have harr : x'.arriving k = x.arriving k ++ out := by
      rw [arriving, arriving, h.receiving, h.taken, hwire, List.drop_append_of_le_length ht, List.append_assoc]
    rw [harr, ha.bytes, List.append_assoc, hbytes, List.map_append, List.flatten_append]
    simp

omit [DecidableEq S] [DecidableEq K] in
theorem onWay_goes (h : x.Sends x') (ht : x.taken k ≤ (x.sending.sockets.wire k).length)
    (hg : x.sending.sockets.Goes x'.sending.sockets k)
    (hs : (x.receiving.loops k).dead = true ∨ ∃ fs p ds, x.Arriving k fs p ds) : x'.onWay k = x.onWay k := by
  rcases hs with hd | ⟨fs, p, ds, ha⟩
  · rw [onWay_dead hd, onWay_dead (by rwa [h.receiving])]
  · obtain ⟨p', ha'⟩ := ha.goes h ht hg
    rw [ha'.onWay_eq, ha.onWay_eq]

omit [DecidableEq S] [DecidableEq K] in
/-- What a place or drain holds after a step of the sending side, by which kind
it is. -/
theorem holds_sends (h : x.Sends x') {r : Place S K ⊕ (S ⊕ K)}
    (hc : ∀ j, r = .inl (.carried j) → x'.sending.ownSpare j = x.sending.ownSpare j)
    (hb : ∀ j, r = .inl (.batch j) → x'.sending.ownBatch j = x.sending.ownBatch j)
    (ho : ∀ k, r = .inl (.stream k) → x'.onWay k = x.onWay k) {lost' : S ⊕ K → List (List UInt8)}
    (hl : ∀ q, r = .inr q → lost' q = lost q) : (x'.leakyBelt lost').holds r = (x.leakyBelt lost).holds r := by
  rcases r with (j | j | k | k) | q
  · exact hc j rfl
  · exact hb j rfl
  · exact ho k rfl
  · exact h.pending k
  · exact hl q rfl

omit [DecidableEq S] [DecidableEq K] in
/-- No datagram gets empty on its way. -/
theorem full_steps {y : Layout (Place S K)} {lost' : S ⊕ K → List (List UInt8)} {as : List (List UInt8)}
    (hfull : ∀ p, ∀ d ∈ x.held p, d ≠ [])
    (hbelt : (conveyor _ (y.withDrains (falls S K))).Steps (x.leakyBelt lost) (x'.leakyBelt lost'))
    (hl : (x'.leakyBelt lost').loaded = (x.leakyBelt lost).loaded ++ as) (has : ∀ d ∈ as, d ≠ []) :
    ∀ p, ∀ d ∈ x'.held p, d ≠ [] := by
  obtain ⟨as', hl', hall⟩ := Conveyor.steps_places hbelt
  obtain rfl : as' = as := List.append_cancel_left (hl'.symm.trans hl)
  intro p d hd
  rcases hall p d hd with ⟨p', hp'⟩ | hmem
  · exact hfull p' d hp'
  · exact has d hmem

/-- **A step of the sending side** loads a datagram that it reads, moves
datagrams towards the streams, or loses what an ending thread has. -/
theorem Accounted.send {l : StackLabel S K} {sending : SendingStack S K} {read : Option (S × List UInt8)}
    (h : x.Accounted fds mtu client lost out) (ha : x.sending.Alive) (hs : StackStep fds mtu client x.sending l sending)
    (hC : ∀ l', l = .socket l' → ¬ TakesTorn ⟨x.sending.sockets, l', sending.sockets⟩) (hl : l.read = read)
    (hx' : x' = { x with sending, read := x.read ++ read.toList }) :
    ∃ lost', x'.Accounted fds mtu client lost' out := by
  have hmv := SendingStack.shifts_step h.reachable hs hC
  rw [hl] at hmv
  have hended : ∀ i, (x.sending.threads i).Ended → (sending.threads i).Ended :=
    fun i => SendingStack.ended_step h.reachable hs
  have hreach := h.reachable.step (M := sendingStack K fds mtu client) ⟨ha, hs⟩
  have hsent : x.Sends x' := ⟨by rw [hx'], by rw [hx'], by rw [hx']⟩
  have hload : (x'.leakyBelt lost).loaded = (x.leakyBelt lost).loaded ++ (read.toList.map (·.2)) := by
    rw [hx']
    exact List.map_append
  have hunload : (x'.leakyBelt lost).unloaded = (x.leakyBelt lost).unloaded := congrArg (List.map _) hsent.written
  rw [show sending = x'.sending by rw [hx']] at hmv hended hreach
  -- What there is to show but for the streams and the belt.
  have hacc : ∀ {lost' : S ⊕ K → List (List UInt8)}, (∀ k, x.taken k ≤ (x'.sending.sockets.wire k).length) →
      (∀ k, (x.receiving.loops k).dead = true ∨ ∃ fs p ds, x'.Arriving k fs p ds) →
      (∀ i, lost' (.inl i) ≠ lost (.inl i) → (x'.sending.threads i).Ended) →
      (∀ k, lost' (.inr k) ≠ lost (.inr k) → (x.receiving.loops k).dead = true) →
      (∀ d ∈ read.toList.map (·.2), d ≠ []) ∨ (∀ p, ∀ d ∈ x'.held p, d ≠ []) →
      (conveyor _ ((gate (K := K) read none).withDrains (falls S K))).Steps (x.leakyBelt lost) (x'.leakyBelt lost') →
      x'.Accounted fds mtu client lost' out := by
    intro lost' htk hstr hthr hloop hne hbelt
    refine ⟨hreach, by rw [hsent.receiving]; exact h.chain, fun k => by rw [hsent.taken]; exact htk k,
      fun k => by rw [hsent.receiving]; exact hstr k, by rw [hsent.receiving]; exact h.unaborted,
      hne.elim (full_steps h.full hbelt hload) id, fun i hne => ?_, fun k hne => ?_, ?_⟩
    · by_cases he : lost' (.inl i) = lost (.inl i)
      · exact hended i (h.threads i (he ▸ hne))
      · exact hthr i he
    · rw [hsent.receiving]
      by_cases he : lost' (.inr k) = lost (.inr k)
      · exact h.loops k (he ▸ hne)
      · exact hloop k he
    · have hmoved := h.moved.steps (by rw [hx']) (hunload.trans (List.append_nil _).symm) hbelt
      rwa [Option.toList_none, List.append_nil] at hmoved
  have hgoes : (∀ k, x.sending.sockets.Goes x'.sending.sockets k) →
      (∀ k, x.taken k ≤ (x'.sending.sockets.wire k).length) ∧
        (∀ k, (x.receiving.loops k).dead = true ∨ ∃ fs p ds, x'.Arriving k fs p ds) ∧ ∀ k, x'.onWay k = x.onWay k := by
    intro hg
    refine ⟨fun k => ?_, fun k => (h.streams k).imp_right fun ⟨fs, p, ds, ha⟩ => ?_,
      fun k => onWay_goes hsent (h.taken k) (hg k) (h.streams k)⟩
    · obtain ⟨out, hwire, -⟩ := hg k
      rw [hwire, List.length_append]
      exact Nat.le_add_right_of_le (h.taken k)
    · obtain ⟨p', ha'⟩ := ha.goes hsent (h.taken k) (hg k)
      exact ⟨fs, p', ds, ha'⟩
  have hkeeps : (∀ k, x.sending.sockets.Goes x'.sending.sockets k) → (∀ d ∈ read.toList.map (·.2), d ≠ []) →
      (conveyor _ ((gate (K := K) read none).withDrains (falls S K))).Steps (x.leakyBelt lost) (x'.leakyBelt lost) →
      ∃ lost', x'.Accounted fds mtu client lost' out := fun hg hne hbelt =>
    ⟨lost, hacc (hgoes hg).1 (hgoes hg).2.1 (fun i hne => absurd rfl hne) (fun k hne => absurd rfl hne) (.inl hne) hbelt⟩
  have hnone : ∀ d ∈ (none : Option (S × List UInt8)).toList.map (·.2), d ≠ [] := fun d hd => absurd hd List.not_mem_nil
  have hsome : ∀ {i : S} {d : List UInt8}, d ≠ [] → ∀ d' ∈ (some (i, d)).toList.map (·.2), d' ≠ [] := by
    intro i d hd d' hd'
    obtain rfl : d' = d := by simpa using hd'
    exact hd
  cases hmv with
  | stays hsame hg =>
    refine hkeeps hg hnone ?_
    have hbelt : x'.leakyBelt lost = x.leakyBelt lost :=
      Conveyor.ext (funext fun r => holds_sends hsent (fun j _ => (hsame j).2) (fun j _ => (hsame j).1)
        (fun k _ => (hgoes hg).2.2 k) fun _ _ => rfl) (hload.trans (List.append_nil _)) hunload
    rw [hbelt]
    exact .refl
  | @reads i d hd hnil hone hbatch hothers hg =>
    refine hkeeps hg (hsome hd) (.one (l := .load (.inl (.carried i)) d) (.load ⟨_, rfl, rfl⟩ ?_ (fun r hr => ?_) hload hunload))
    · show x'.sending.ownSpare i = x.sending.ownSpare i ++ [d]
      rw [hone, hnil]
      rfl
    · refine holds_sends hsent (fun j hj => (hothers j fun hij => hr (hij ▸ hj)).2) (fun j hj => ?_)
        (fun k _ => (hgoes hg).2.2 k) fun _ _ => rfl
      by_cases hij : j = i
      · subst hij
        exact hbatch
      · exact (hothers j hij).1
  | @readsOn i d hd hnil hnil' hbatch hothers hg =>
    exact hkeeps hg (hsome hd) (Conveyor.load_move_steps (p := .inl (.carried i)) (q := .inl (.batch i)) ⟨_, rfl, rfl⟩ rfl
      (by simp) hnil
      hnil' hbatch (fun r hr hr' => holds_sends hsent (fun j hj => (hothers j fun hij => hr (hij ▸ hj)).2)
        (fun j hj => (hothers j fun hij => hr' (hij ▸ hj)).1) (fun k _ => (hgoes hg).2.2 k) fun _ _ => rfl)
      hload hunload)
  | @joins i d hone hnil hbatch hothers hg =>
    refine hkeeps hg hnone (.one (l := .move (.inl (.carried i)) (.inl (.batch i)) [d])
      (.move rfl (by simp) ?_ hbatch (fun r hr hr' => ?_) (hload.trans (List.append_nil _)) hunload))
    · show x.sending.ownSpare i = [d] ++ x'.sending.ownSpare i
      rw [hone, hnil]
      rfl
    · exact holds_sends hsent (fun j hj => (hothers j fun hij => hr (hij ▸ hj)).2)
        (fun j hj => (hothers j fun hij => hr' (hij ▸ hj)).1) (fun k _ => (hgoes hg).2.2 k) fun _ _ => rfl
  | @gives i k f hcl hnil hspare hothers hf =>
    have hother : ∀ k', k' ≠ k → x'.onWay k' = x.onWay k' := fun k' hk =>
      onWay_goes hsent (h.taken k') (hf.streams k' hk) (h.streams k')
    have htk : ∀ k', x.taken k' ≤ (x'.sending.sockets.wire k').length := by
      intro k'
      obtain ⟨out, hout⟩ : ∃ out, x'.sending.sockets.wire k' = x.sending.sockets.wire k' ++ out := by
        by_cases hk : k' = k
        · subst hk
          obtain ⟨out, hout, -⟩ := hf.stream
          exact ⟨out, hout⟩
        · obtain ⟨out, hout, -⟩ := hf.streams k' hk
          exact ⟨out, hout⟩
      rw [hout, List.length_append]
      exact Nat.le_add_right_of_le (h.taken k')
    have hstr : ((x.receiving.loops k).dead = true ∨ ∃ fs p ds, x'.Arriving k fs p ds) →
        ∀ k', (x.receiving.loops k').dead = true ∨ ∃ fs p ds, x'.Arriving k' fs p ds := by
      intro hk k'
      by_cases hkk : k' = k
      · exact hkk ▸ hk
      · refine (h.streams k').imp_right fun ⟨fs, p, ds, ha⟩ => ?_
        obtain ⟨p', ha'⟩ := ha.goes hsent (h.taken k') (hf.streams k' hkk)
        exact ⟨fs, p', ds, ha'⟩
    have hbatch : x.sending.ownBatch i = x.sending.ownBatch i ++ x'.sending.ownBatch i := by rw [hnil, List.append_nil]
    have hcarried : ∀ j, x'.sending.ownSpare j = x.sending.ownSpare j := by
      intro j
      by_cases hij : j = i
      · subst hij
        exact hspare
      · exact (hothers j hij).2
    rcases h.streams k with hd | ⟨fs, p, ds, ha⟩
    · -- Nobody reads the stream any more.
      refine ⟨Function.update lost (.inr k) (lost (.inr k) ++ x.sending.ownBatch i), hacc htk (hstr (.inl hd))
        (fun j hne => absurd (Function.update_of_ne (by simp) ..) hne) (fun k' hne => ?_) (.inl hnone)
        (.one (l := .move (.inl (.batch i)) (.inr (.inr k)) (x.sending.ownBatch i))
          (.move trivial (by simp) hbatch (Function.update_self ..) (fun r hr hr' => ?_)
            (hload.trans (List.append_nil _)) hunload))⟩
      · by_cases hkk : k' = k
        · exact hkk ▸ hd
        · exact absurd (Function.update_of_ne (by simpa using hkk) ..) hne
      · refine holds_sends hsent (fun j _ => hcarried j) (fun j hj => (hothers j fun hij => hr (hij ▸ hj)).1)
          (fun k' _ => ?_) fun q hq => Function.update_of_ne (fun he => hr' (hq.trans (congrArg _ he))) ..
        by_cases hkk : k' = k
        · subst hkk
          rw [onWay_dead hd, onWay_dead (by rwa [hsent.receiving])]
        · exact hother k' hkk
    · have ha' := ha.finishes hsent (h.taken k) hf hcl
      refine ⟨lost, hacc htk (hstr (.inr ⟨_, _, _, ha'⟩)) (fun j hne => absurd rfl hne) (fun k' hne => absurd rfl hne)
        (.inl hnone) (.one (l := .move (.inl (.batch i)) (.inl (.stream k)) (x.sending.ownBatch i))
          (.move trivial (by simp) hbatch ?_ (fun r hr hr' => ?_) (hload.trans (List.append_nil _)) hunload))⟩
      · show x'.onWay k = x.onWay k ++ x.sending.ownBatch i
        rw [ha'.onWay_eq, ha.onWay_eq, List.flatMap_append, List.flatMap_singleton, hcl.datagrams_eq]
      · exact holds_sends hsent (fun j _ => hcarried j) (fun j hj => (hothers j fun hij => hr (hij ▸ hj)).1)
          (fun k' hk' => hother k' fun hk => hr' (hk ▸ hk')) fun _ _ => rfl
  | @ends i o hend hbatch hspare hothers hg =>
    have hrest : ∀ {lost' : S ⊕ K → List (List UInt8)} (r : Place S K ⊕ (S ⊕ K)), r ≠ .inl (.carried i) →
        r ≠ .inl (.batch i) → (∀ q, r = .inr q → lost' q = lost q) →
        (x'.leakyBelt lost').holds r = (x.leakyBelt lost).holds r := fun r hr hr' hl =>
      holds_sends hsent (fun j hj => (hothers j fun hij => hr (hij ▸ hj)).2)
        (fun j hj => (hothers j fun hij => hr' (hij ▸ hj)).1) (fun k _ => (hgoes hg).2.2 k) hl
    have hfull : ∀ p, ∀ d ∈ x'.held p, d ≠ [] := by
      intro p d hd
      by_cases hp : p = .carried i
      · subst hp
        exact absurd (hspare ▸ hd : d ∈ []) List.not_mem_nil
      by_cases hp' : p = .batch i
      · subst hp'
        exact absurd (hbatch ▸ hd : d ∈ []) List.not_mem_nil
      · have hsame : x'.held p = x.held p := show (x'.leakyBelt lost).holds (.inl p) = _ from
          hrest (.inl p) (fun he => hp (Sum.inl.inj he)) (fun he => hp' (Sum.inl.inj he)) fun _ _ => rfl
        exact h.full p d (hsame ▸ hd)
    refine ⟨Function.update lost (.inl i) (lost (.inl i) ++ (x.sending.ownSpare i ++ o.toList ++ x.sending.ownBatch i)),
      hacc (hgoes hg).1 (hgoes hg).2.1 (fun j hne => ?_)
        (fun k hne => absurd (Function.update_of_ne (by simp) ..) hne) (.inr hfull)
        (Conveyor.load_falls_steps (p := .carried i) (q := .inl i) (o := o) [.batch i]
          (fun a ho => ⟨(i, a), by rw [ho]; rfl, rfl⟩) ?_ (by simp) ?_ ?_ ?_ ?_ hunload)⟩
    · by_cases hij : j = i
      · exact hij ▸ hend
      · exact absurd (Function.update_of_ne (by simpa using hij) ..) hne
    · simp [falls]
    · simp only [List.forall_mem_cons, List.not_mem_nil, false_implies, implies_true, and_true]
      exact ⟨hspare, hbatch⟩
    · rw [List.flatMap_singleton]
      exact Function.update_self ..
    · intro r hrq hrps
      simp only [List.forall_mem_cons, List.not_mem_nil, false_implies, implies_true, and_true] at hrps
      exact hrest r hrps.1 hrps.2 fun q hq => Function.update_of_ne (fun he => hrq (hq.trans (congrArg _ he))) ..
    · refine hload.trans (congrArg _ ?_)
      cases o <;> rfl

/-! ## Steps of the receiving side -/

omit [DecidableEq S] in
/-- What a step of a loop leaves of the rest. -/
theorem receives_step {ev : ReceiveEvent} {receiving : ReceivingStack K} {o : Option (Nat × List UInt8)}
    (hst : x.receiving.step k ev = some (receiving, o))
    (hx' : x' = { x with
      receiving
      taken := Function.update x.taken k (x.taken k + ev.bytes.length)
      written := x.written ++ o.toList }) : x.Receives x' k := by
  obtain ⟨-, -, hothers⟩ := ReceivingStack.step_others hst
  refine ⟨by rw [hx'], by rw [hx'], fun k' hk => ?_, fun k' hk => ?_, fun k' hk => ?_⟩
  · rw [hx']
    exact (hothers k' hk).1
  · rw [hx']
    exact (hothers k' hk).2
  · rw [hx']
    exact Function.update_of_ne hk ..

omit [DecidableEq S] [DecidableEq K] in
theorem Receives.arriving (h : x.Receives x' k) {k' : K} (hk : k' ≠ k) : x'.arriving k' = x.arriving k' := by
  rw [EndToEnd.arriving, EndToEnd.arriving, h.sending, h.loops k' hk, h.streams k' hk, h.taken k' hk]

omit [DecidableEq S] [DecidableEq K] in
/-- The other streams have what they had. -/
theorem Arriving.other {k' : K} {fs p ds} (ha : x.Arriving k' fs p ds) (h : x.Receives x' k) (hk : k' ≠ k) :
    x'.Arriving k' fs p ds := by
  refine ⟨ha.closed, (h.arriving hk).trans ha.bytes, h.sending ▸ ha.part, ?_⟩
  rw [h.loops k' hk, h.streams k' hk]
  exact ha.loop

omit [DecidableEq S] in
/-- **A step of a loop**, whatever fails: it is dead, by an exception; or its
stream has what it had; or it turns to the datagrams of the next frame; or it
writes its next datagram. -/
theorem Arriving.step {ev : ReceiveEvent} {receiving : ReceivingStack K} {o : Option (Nat × List UInt8)} {fs p ds}
    (ha : x.Arriving k fs p ds) (hch : TunnelFramePipe.Chain x.receiving.pipes)
    (hb : ev.bytes <+: (x.sending.sockets.wire k).drop (x.taken k))
    (hst : x.receiving.step k ev = some (receiving, o)) (hwh : (x.receiving.loops k).Whole ev)
    (hx' : x' = { x with
      receiving
      taken := Function.update x.taken k (x.taken k + ev.bytes.length)
      written := x.written ++ o.toList }) :
    (o = none ∧ (x'.receiving.loops k).dead = true ∧ (x'.receiving.loops k).aborting = false ∧
      (¬ ev.Smooth ∨ x.receiving.interrupted = true)) ∨
    (o = none ∧ x'.Arriving k fs p ds) ∨
    (∃ f fs', fs = f :: fs' ∧ ds = [] ∧ o = none ∧ x'.Arriving k fs' p f.datagrams) ∨
    ∃ a ds' idx, ds = a :: ds' ∧ o = some (idx, a) ∧ x'.Arriving k fs p ds' := by
  have hrecv : x'.receiving = receiving := by rw [hx']
  have hself : x'.taken k = x.taken k + ev.bytes.length := by rw [hx']; exact Function.update_self ..
  have hsend : x'.sending = x.sending := by rw [hx']
  -- The frame that the stream has only a part of may be thought whole.
  obtain ⟨more, hmore⟩ := hb
  have hdrop : (x.sending.sockets.wire k).drop (x.taken k) =
      ev.bytes ++ (x.sending.sockets.wire k).drop (x.taken k + ev.bytes.length) := by
    rw [← List.drop_drop, ← hmore, List.drop_left]
  obtain ⟨gs, rest, hgs, hrest, hshort⟩ : ∃ (gs : List TunnelFrameBuffer) (rest : List UInt8),
      (∀ f ∈ gs, ∃ ds, f.Closed ds) ∧ p ++ rest = (gs.map TunnelFrameBuffer.bytes).flatten ∧
        ∀ f gs', gs = f :: gs' → p.length < f.bytes.length := by
    by_cases hnil : p = []
    · exact ⟨[], [], by simp, by rw [hnil]; rfl, by simp⟩
    · obtain ⟨f, ds, hcl, ⟨rest, hrest⟩, hne⟩ := ha.part.short hnil
      refine ⟨[f], rest, fun g hg => ⟨ds, List.mem_singleton.1 hg ▸ hcl⟩, by simpa using hrest, ?_⟩
      rintro g gs' ⟨⟩
      have hlen := congrArg List.length hrest
      have hpos : rest ≠ [] := fun he => hne (by rw [← hrest, he, List.append_nil])
      have := List.length_pos_of_ne_nil hpos
      rw [List.length_append] at hlen
      omega
  have hbytes := ha.bytes
  rw [arriving, hdrop] at hbytes
  have hframes : (x.receiving.loops k).given (x.receiving.streams k) ++
      (ev.bytes ++ ((x.sending.sockets.wire k).drop (x.taken k + ev.bytes.length) ++ rest)) =
      ((fs ++ gs).map TunnelFrameBuffer.bytes).flatten := by
    rw [List.map_append, List.flatten_append, ← hrest, ← List.append_assoc _ p, ← hbytes]
    simp only [List.append_assoc]
  have hclosed : ∀ f ∈ fs ++ gs, ∃ ds, f.Closed ds := by
    intro f hf
    exact (List.mem_append.1 hf).elim (ha.closed f) (hgs f)
  have harr' : x'.arriving k = (receiving.loops k).given (receiving.streams k) ++
      (x.sending.sockets.wire k).drop (x.taken k + ev.bytes.length) := by rw [arriving, hrecv, hsend, hself]
  have hpart : x'.sending.sockets.Part k p := hsend ▸ ha.part
  rcases ReceivingStack.step_holds_or_dead hch hst hwh ha.loop hclosed hframes with
    hd | ⟨rfl, hh⟩ | ⟨f, fs', hfs, hgiven, hnil, rfl, rfl, hh⟩ | ⟨a, ds', idx, rfl, rfl, hnil, hh⟩
  · exact .inl (by rw [hrecv]; exact hd)
  · have hsame : x'.arriving k = x.arriving k := by
      rw [harr', hh.given_eq, arriving, hdrop, List.append_assoc]
    refine .inr (.inl ⟨rfl, ha.closed, hsame.trans ha.bytes, hpart, ?_⟩)
    rw [hrecv, hh.given_eq]
    exact hh
  · cases fs with
    | nil =>
      -- The frame was all there, and the stream has only a part of one.
      exfalso
      have hlt := hshort f fs' hfs
      rw [hnil, List.nil_append, hgiven, List.map_nil, List.flatten_nil, List.nil_append] at hbytes
      have hlen := congrArg List.length hbytes
      rw [List.length_append] at hlen
      omega
    | cons f₀ fs =>
      obtain ⟨rfl, rfl⟩ := List.cons.inj hfs
      have hrest' : x'.arriving k = (fs.map TunnelFrameBuffer.bytes).flatten ++ p := by
        rw [hgiven, hnil, List.map_cons, List.flatten_cons, List.nil_append, List.append_assoc] at hbytes
        rw [harr', hh.given_eq, hnil]
        exact List.append_cancel_left hbytes
      refine .inr (.inr (.inl ⟨f₀, fs, rfl, rfl, rfl, fun g hg => ha.closed g (List.mem_cons_of_mem _ hg), hrest', hpart,
        ?_⟩))
      rw [hrecv, hh.given_eq]
      exact hh
  · have hsame : x'.arriving k = x.arriving k := by
      rw [harr', hh.given_eq, arriving, hdrop, hnil, List.nil_append]
    refine .inr (.inr (.inr ⟨a, ds', idx, rfl, rfl, ha.closed, hsame.trans ha.bytes, hpart, ?_⟩))
    rw [hrecv, hh.given_eq]
    exact hh

/-- **A step of the receiving side** moves a frame's datagrams from their stream
to its delivery, unloads the next datagram of a delivery, or loses what the
stream has of a loop that has failed. -/
theorem Accounted.receive {ev : ReceiveEvent} {receiving : ReceivingStack K} {o : Option (Nat × List UInt8)}
    (h : x.Accounted fds mtu client lost out) (hb : ev.bytes <+: (x.sending.sockets.wire k).drop (x.taken k))
    (hst : x.receiving.step k ev = some (receiving, o)) (hwh : (x.receiving.loops k).Whole ev)
    (hx' : x' = { x with
      receiving
      taken := Function.update x.taken k (x.taken k + ev.bytes.length)
      written := x.written ++ o.toList }) :
    ∃ lost', x'.Accounted fds mtu client lost' (out ++ o.toList.map fun r => (k, r.2)) := by
  have hrecv : x'.receiving = receiving := by rw [hx']
  have hself : x'.taken k = x.taken k + ev.bytes.length := by rw [hx']; exact Function.update_self ..
  have hmoved := receives_step hst hx'
  have hload : (x'.leakyBelt lost).loaded = (x.leakyBelt lost).loaded := congrArg (List.map _) hmoved.read
  have hunload : (x'.leakyBelt lost).unloaded = (x.leakyBelt lost).unloaded ++ (o.toList.map (·.2)) := by
    rw [hx']
    exact List.map_append
  have hholds : ∀ {lost' : S ⊕ K → List (List UInt8)} (r : Place S K ⊕ (S ⊕ K)), r ≠ .inl (.stream k) →
      r ≠ .inl (.delivery k) → (∀ q, r = .inr q → lost' q = lost q) →
      (x'.leakyBelt lost').holds r = (x.leakyBelt lost).holds r := by
    intro lost' r hs hd hl
    rcases r with (j | j | k' | k') | q
    · exact congrArg (SendingStack.ownSpare · j) hmoved.sending
    · exact congrArg (SendingStack.ownBatch · j) hmoved.sending
    · have hk : k' ≠ k := fun he => hs (he ▸ rfl)
      show x'.onWay k' = x.onWay k'
      rw [onWay, onWay, hmoved.loops k' hk, hmoved.arriving hk]
    · have hk : k' ≠ k := fun he => hd (he ▸ rfl)
      show x'.pending k' = x.pending k'
      rw [pending, pending, hmoved.loops k' hk]
    · exact hl q rfl
  have hacc : ∀ {lost' : S ⊕ K → List (List UInt8)},
      ((x'.receiving.loops k).dead = true ∨ ∃ fs p ds, x'.Arriving k fs p ds) →
      (x'.receiving.loops k).aborting = false →
      (∀ i, lost' (.inl i) = lost (.inl i)) → (∀ k', k' ≠ k → lost' (.inr k') = lost (.inr k')) →
      (lost' (.inr k) ≠ [] → (x'.receiving.loops k).dead = true) →
      (conveyor _ ((gate (S := S) none (o.map fun r => (k, r.2))).withDrains (falls S K))).Steps (x.leakyBelt lost)
        (x'.leakyBelt lost') →
      x'.Accounted fds mtu client lost' (out ++ o.toList.map fun r => (k, r.2)) := by
    intro lost' hk hab hi hko hlost hbelt
    refine ⟨hmoved.sending ▸ h.reachable, ?_, fun k' => ?_, fun k' => ?_, fun k' => ?_,
      full_steps h.full hbelt (hload.trans (List.append_nil _).symm) fun _ hd => absurd hd List.not_mem_nil,
      fun i hne => ?_, fun k' hne => ?_, ?_⟩
    · rw [hrecv, (ReceivingStack.step_others hst).1]
      exact h.chain
    · rw [hmoved.sending]
      by_cases hkk : k' = k
      · subst hkk
        have hlen := hb.length_le
        have htk := h.taken k'
        rw [List.length_drop] at hlen
        rw [hself]
        omega
      · rw [hmoved.taken k' hkk]
        exact h.taken k'
    · by_cases hkk : k' = k
      · exact hkk ▸ hk
      · rcases h.streams k' with hd | ⟨fs, p, ds, ha⟩
        · exact .inl (by rw [hmoved.loops k' hkk]; exact hd)
        · exact .inr ⟨fs, p, ds, ha.other hmoved hkk⟩
    · by_cases hkk : k' = k
      · exact hkk ▸ hab
      · rw [hmoved.loops k' hkk]
        exact h.unaborted k'
    · rw [hmoved.sending]
      exact h.threads i (hi i ▸ hne)
    · by_cases hkk : k' = k
      · exact hkk ▸ hlost (hkk ▸ hne)
      · rw [hmoved.loops k' hkk]
        exact h.loops k' (hko k' hkk ▸ hne)
    · have hmoved := h.moved.steps (hmoved.read.trans (List.append_nil _).symm)
        (hunload.trans (congrArg _ (by cases o <;> rfl))) hbelt
      rwa [show (o.map fun r => (k, r.2)).toList = o.toList.map fun r => (k, r.2) by cases o <;> rfl] at hmoved
  -- A loop that is dead after the step has lost what its stream had.
  have hdead : o = none → (x'.receiving.loops k).dead = true → (x'.receiving.loops k).aborting = false →
      ∃ lost', x'.Accounted fds mtu client lost' (out ++ o.toList.map fun r => (k, r.2)) := by
    rintro rfl hd hab
    refine ⟨Function.update lost (.inr k) (lost (.inr k) ++ (x.pending k ++ x.onWay k)),
      hacc (.inl hd) hab (fun i => Function.update_of_ne (by simp) ..)
        (fun k' hkk => Function.update_of_ne (by simpa using hkk) ..) (fun _ => hd)
        (Conveyor.falls_steps (q := .inr k) [.delivery k, .stream k] ?_ (by simp) ?_ ?_ ?_ hload
          (hunload.trans (List.append_nil _)))⟩
    · simp [falls]
    · simp only [List.forall_mem_cons, List.not_mem_nil, false_implies, implies_true, and_true]
      exact ⟨ReceiveLoop.pending_dead hd, onWay_dead hd⟩
    · simp only [List.flatMap_cons, List.flatMap_nil, List.append_nil]
      exact Function.update_self ..
    · intro r hrq hrps
      simp only [List.forall_mem_cons, List.not_mem_nil, false_implies, implies_true, and_true] at hrps
      exact hholds r hrps.2 hrps.1 fun q hq => Function.update_of_ne (fun he => hrq (hq.trans (congrArg _ he))) ..
  rcases h.streams k with hd | ⟨fs, p, ds, ha⟩
  · obtain ⟨hnone, hd', hab⟩ := ReceivingStack.step_dead hst hd
    exact hdead hnone (by rw [hrecv]; exact hd') (by rw [hrecv, hab]; exact h.unaborted k)
  have hkeeps : ∀ {fs p ds}, x'.Arriving k fs p ds →
      (conveyor _ ((gate (S := S) none (o.map fun r => (k, r.2))).withDrains (falls S K))).Steps (x.leakyBelt lost)
        (x'.leakyBelt lost) →
      ∃ lost', x'.Accounted fds mtu client lost' (out ++ o.toList.map fun r => (k, r.2)) := fun ha' hbelt =>
    ⟨lost, hacc (.inr ⟨_, _, _, ha'⟩) (ReceiveLoop.running_unaborted ha'.loop.running) (fun _ => rfl) (fun _ _ => rfl)
      (fun hne => absurd (h.loops k hne) (by rw [ha.loop.running]; exact Bool.false_ne_true)) hbelt⟩
  rcases ha.step h.chain hb hst hwh hx' with
    ⟨hnone, hd, hab, -⟩ | ⟨rfl, ha'⟩ | ⟨f, fs', rfl, rfl, rfl, ha'⟩ | ⟨a, ds', idx, rfl, rfl, ha'⟩
  · exact hdead hnone hd hab
  · have hbelt : x'.leakyBelt lost = x.leakyBelt lost := by
      refine Conveyor.ext (funext fun r => ?_) hload (hunload.trans (List.append_nil _))
      by_cases hs : r = .inl (.stream k)
      · subst hs
        exact ha'.onWay_eq.trans ha.onWay_eq.symm
      by_cases hd : r = .inl (.delivery k)
      · subst hd
        exact ha'.pending_eq.trans ha.pending_eq.symm
      · exact hholds r hs hd fun _ _ => rfl
    refine hkeeps ha' ?_
    rw [hbelt]
    exact .refl
  · refine hkeeps ha' (.one (l := .move (.inl (.stream k)) (.inl (.delivery k)) f.datagrams)
      (.move rfl (by simp) ?_ ?_
      (fun r hs hd => hholds r hs hd fun _ _ => rfl) hload (hunload.trans (List.append_nil _))))
    · show x.onWay k = f.datagrams ++ x'.onWay k
      rw [ha.onWay_eq, ha'.onWay_eq, List.flatMap_cons]
    · show x'.pending k = x.pending k ++ f.datagrams
      rw [ha.pending_eq, ha'.pending_eq, List.nil_append]
  · refine hkeeps ha' (.one (l := .unload (.inl (.delivery k)) a)
      (.unload ⟨_, rfl, rfl⟩ ?_ (fun r hd => ?_) hload hunload))
    · show x.pending k = a :: x'.pending k
      rw [ha.pending_eq, ha'.pending_eq]
    · by_cases hs : r = .inl (.stream k)
      · subst hs
        exact ha'.onWay_eq.trans ha.onWay_eq.symm
      · exact hholds r hs hd fun _ _ => rfl

/-! ## Whole runs -/

/-- The datagrams that a run has written to the other side's queues, each with
the stream it came over. -/
def delivered (tr : List (Machine.Transition (EndToEnd S K) (EndToEndLabel S K))) : List (K × List UInt8) :=
  tr.flatMap fun t => match t.label with
    | .receive k _ => (t.post.written.drop t.pre.written.length).map fun r => (k, r.2)
    | _ => []

/-- Whatever fails, the datagrams move as on a conveyor with drains. -/
theorem run_accounted {tr : List (Machine.Transition (EndToEnd S K) (EndToEndLabel S K))}
    (h : (endToEnd K fds mtu client).Run tr x) (hC : ∀ t ∈ tr, Tolerable t) :
    ∃ lost, x.Accounted fds mtu client lost (delivered tr) := by
  induction h with
  | init hx => exact ⟨_, .start hx⟩
  | @step tr y l y' _ hs ih =>
    obtain ⟨lost, hI⟩ := ih fun t ht => hC t (List.mem_append_left _ ht)
    have hT := hC _ (List.mem_append_right _ (List.mem_singleton_self _))
    rw [delivered, List.flatMap_append, List.flatMap_singleton]
    cases hs with
    | send ha hst =>
      rw [List.append_nil]
      exact hI.send ha hst hT rfl rfl
    | receive ha hb hst =>
      rw [List.drop_left]
      exact hI.receive hb hst hT rfl
    | interrupt =>
      rw [List.append_nil]
      refine ⟨lost, hI.reachable, hI.chain, hI.taken, fun k => ?_, hI.unaborted, hI.full, hI.threads, hI.loops,
        hI.moved⟩
      rcases hI.streams k with hd | ⟨fs, p, ds, ha⟩
      · exact .inl hd
      · exact .inr ⟨fs, p, ds, ha.closed, ha.bytes, ha.part, ha.loop⟩

/-- What has been delivered, over whichever stream, is what has been written. -/
theorem delivered_written {tr : List (Machine.Transition (EndToEnd S K) (EndToEndLabel S K))}
    (h : (endToEnd K fds mtu client).Run tr x) (hC : ∀ t ∈ tr, Tolerable t) :
    (delivered tr).map (·.2) = x.written.map (·.2) := by
  obtain ⟨lost, hI⟩ := run_accounted h hC
  obtain ⟨tr', hmoved, -, hout⟩ := hI.moved
  have hunloaded : _ = x.written.map (·.2) := Conveyor.exits_unloaded hmoved
  rw [← hunloaded, hout, List.map_map]
  rfl

/-- The sending side may go first. -/
theorem tolerable_sending {receiving : ReceivingStack K} (hr : receiving.Starts) {sending : SendingStack S K}
    {tr : List (Machine.Transition (SendingStack S K) (StackLabel S K))}
    (h : (sendingStack K fds mtu client).Run tr sending)
    (hC : ∀ t ∈ tr, ∀ l, t.label = .socket l → ¬ TakesTorn ⟨t.pre.sockets, l, t.post.sockets⟩) :
    ((endToEnd K fds mtu client).restrict Tolerable).Reachable
      { sending
        receiving
        taken := fun _ => 0
        read := (tr.map (·.label)).flatMap (·.read.toList)
        written := [] } := by
  induction h with
  | init hs => exact .init ⟨hs, hr, fun _ => rfl, rfl, rfl⟩
  | @step tr y l y' hrun hs ih =>
    have h := (ih fun t ht => hC t (List.mem_append_left _ ht)).step (l := EndToEndLabel.send l)
      ⟨.send hs.1 hs.2, hC _ (List.mem_append_right _ (List.mem_singleton_self _))⟩
    rw [List.map_append, List.map_singleton, List.flatMap_append, List.flatMap_singleton]
    exact h

end

end EndToEnd

end RuralPipe
