/-
What is on a stream of a frame that is not whole, whatever fails.

The bytes on a stream are whole frames and then what a sender has put there of
its own (`Part`), or what a `send` that threw has left. A frame counts for the
stream from the step that makes it whole on (`Finishes`): that step is its
sender's, and until then its datagrams are still the thread's. While nobody
takes a stream with a torn frame on it, no other step touches both.
-/
import RuralPipe.SendingFlow

namespace RuralPipe

open Bytes

/-! ## Senders -/

/-- All of the frame is on the stream. -/
def Sending.whole {K : Type} (s : Sending K) : Bool :=
  match s.send with
  | .returned => true
  | _ => false

def Sender.sent {K : Type} : Sender K → Bool
  | .sending s => s.whole
  | .returned _ (.ok _) => true
  | _ => false

theorem Sending.whole_writing {K : Type} {s : Sending K} {n : Nat} {io : Io} (h : s.send = .writing n io) :
    s.whole = false := by rw [whole, h]

theorem Sending.Ok.whole_eq {K : Type} {s : Sending K} (h : s.Ok) (hw : s.whole = true) : s.out = s.buf.bytes := by
  unfold Ok at h
  unfold whole at hw
  cases hs : s.send with
  | returned => rwa [hs] at h
  | writing n io => rw [hs] at hw; cases hw
  | threw ex => rw [hs] at hw; cases hw

/-- A frame not whole lacks its end. -/
theorem Sending.Ok.lacks {K : Type} {s : Sending K} (h : s.Ok) (hw : s.whole = false) : s.out ≠ s.buf.bytes := by
  have hshort : ∃ n, n < s.buf.size ∧ s.out = s.buf.bytes.take n := by
    unfold Ok at h
    unfold whole at hw
    cases hs : s.send with
    | returned => rw [hs] at hw; cases hw
    | writing n io => rw [hs] at h; exact ⟨n, h⟩
    | threw ex => rwa [hs] at h
  obtain ⟨n, hn, hout⟩ := hshort
  intro he
  have hlen := congrArg List.length (hout.symm.trans he)
  rw [List.length_take, TunnelFrameBuffer.bytes_length] at hlen
  omega

/-- What a `send` ended with. -/
theorem Sending.whole_outcome {K : Type} {s : Sending K} {res : Except Exception Unit}
    (h : s.send.outcome = some res) : s.whole = res.isOk := by
  unfold whole
  cases hs : s.send with
  | writing n io => rw [hs] at h; cases h
  | returned => rw [hs] at h; cases h; rfl
  | threw ex => rw [hs] at h; cases h; rfl

theorem Sender.sent_returned {K : Type} {buf : TunnelFrameBuffer} {res : Except Exception Unit} :
    (Sender.returned (K := K) buf res).sent = res.isOk := by cases res <;> rfl

/-- A new `send` has its frame before it. -/
theorem Sending.whole_start {K : Type} {obj : Nat} {f : TunnelFrameBuffer} {st : K} {ds : List (List UInt8)}
    (h : f.Closed ds) : Sending.whole ⟨obj, f, st, TunnelFrameStream.send f, []⟩ = false := by
  have hsz := sizes
  have hpos : 0 < f.size := by
    have := h.size_eq
    omega
  exact whole_writing (if_pos hpos : TunnelFrameStream.send f = .writing 0 .call)

/-! ## Streams -/

namespace SocketState

variable {S K : Type} {x x' : SocketState S K} {k : K} {i : S} {p : List UInt8}

/-- The stream has the bytes `p` of a frame that is not whole: those that its
sender has put there, or those of a torn one. -/
structure Part (x : SocketState S K) (k : K) (p : List UInt8) : Prop where
  busy : ∀ i s, x.senders i = .sending s → s.st = k → p = if s.whole then [] else s.out
  free : (∀ i s, x.senders i = .sending s → s.st ≠ k) → p ≠ [] → ∃ r ∈ x.sends k, r.Torn
  short : p ≠ [] → ∃ (f : TunnelFrameBuffer) (ds : List (List UInt8)), f.Closed ds ∧ p <+: f.bytes ∧ p ≠ f.bytes

/-- What the stream is given makes no frame whole. -/
def Goes (x x' : SocketState S K) (k : K) : Prop :=
  ∃ out, x'.wire k = x.wire k ++ out ∧ ∀ p, x.Part k p → x'.Part k (p ++ out)

/-- The sender `i` puts the end of its frame `f` on the stream `k`. -/
structure Finishes (x x' : SocketState S K) (i : S) (k : K) (f : TunnelFrameBuffer) : Prop where
  buf : (x.senders i).buf = some f
  before : (x.senders i).sent = false
  after : (x'.senders i).sent = true
  others : ∀ j, j ≠ i → (x'.senders j).sent = (x.senders j).sent
  stream : ∃ out, x'.wire k = x.wire k ++ out ∧ ∀ p, x.Part k p → p ++ out = f.bytes ∧ x'.Part k []
  streams : ∀ k', k' ≠ k → x.Goes x' k'

theorem Part.congr (h : x.Part k p) (hs : ∀ i s, s.st = k → (x'.senders i = .sending s ↔ x.senders i = .sending s))
    (hr : x'.sends k = x.sends k) : x'.Part k p := by
  refine ⟨fun i s hi hk => h.busy i s ((hs i s hk).1 hi) hk, fun hfree hne => ?_, h.short⟩
  rw [hr]
  exact h.free (fun i s hi hk => hfree i s ((hs i s hk).2 hi) hk) hne

theorem Goes.same (hw : x'.wire k = x.wire k) (hr : x'.sends k = x.sends k)
    (hs : ∀ i s, s.st = k → (x'.senders i = .sending s ↔ x.senders i = .sending s)) : x.Goes x' k :=
  ⟨[], by rw [hw, List.append_nil], fun p hp => by rw [List.append_nil]; exact hp.congr hs hr⟩

theorem Goes.of_senders (hx : x'.senders = x.senders) (hw : x'.wire = x.wire) (hr : x'.sends = x.sends) (k : K) :
    x.Goes x' k :=
  .same (congrFun hw k) (congrFun hr k) fun i s _ => by rw [hx]

/-- A stream is free for the taking only without a torn frame. -/
theorem Part.free_nil (h : x.Part k p) (hfree : ∀ i s, x.senders i = .sending s → s.st ≠ k)
    (hno : ∀ r ∈ x.sends k, ¬ r.Torn) : p = [] := by
  by_contra hne
  obtain ⟨r, hr, ht⟩ := h.free hfree hne
  exact hno r hr ht

section
variable [DecidableEq S]

theorem Goes.setSender {a : Sender K} (hi : ∀ s, x.senders i ≠ .sending s) (ha : ∀ s, a ≠ .sending s)
    (hx : x'.senders = (x.setSender i a).senders) (hw : x'.wire = x.wire) (hr : x'.sends = x.sends) (k : K) :
    x.Goes x' k := by
  refine .same (congrFun hw k) (congrFun hr k) fun j s hk => ?_
  rw [hx]
  exact sending_setSender (k := k) (fun s _ => hi s) (fun s _ => ha s) j s hk

theorem sent_setSender {a : Sender K} (hx : x'.senders = (x.setSender i a).senders) (ha : a.sent = (x.senders i).sent)
    (j : S) : (x'.senders j).sent = (x.senders j).sent := by
  rw [hx]
  by_cases hij : j = i
  · subst hij
    rw [setSender_self, ha]
  · rw [setSender_ne hij]

theorem sent_notify (w : Option S) (j : S) : ((x.notify w).senders j).sent = (x.senders j).sent := by
  rcases x.notify_cases w with he | ⟨i, obj, buf, st, n, hi, he⟩
  · rw [he]
  · rw [he]
    exact sent_setSender rfl (by rw [hi]; rfl) j

/-- A sender that takes a stream adds nothing to it yet. -/
theorem Goes.take {map : SessionsMap K} {s : Sending K} (hout : s.out = []) (hi : ∀ s, x.senders i ≠ .sending s)
    (hfree : ∀ j s', x.senders j = .sending s' → s'.st ≠ s.st) (hno : ∀ r ∈ x.sends s.st, ¬ r.Torn) (k : K) :
    x.Goes ({ x with map }.setSender i (.sending s)) k := by
  by_cases hk : k = s.st
  · subst hk
    refine ⟨[], (List.append_nil _).symm, fun p hp => ?_⟩
    rw [hp.free_nil hfree hno]
    refine ⟨fun j s' hj he => ?_, fun _ hne => absurd rfl hne, fun hne => absurd rfl hne⟩
    by_cases hij : j = i
    · subst hij
      rw [setSender_self] at hj
      cases hj
      rw [hout, ite_self]
      rfl
    · rw [setSender_ne hij] at hj
      exact absurd he (hfree j s' hj)
  · refine .same rfl rfl (sending_setSender (x := { x with map }) (fun s' _ => hi s') ?_)
    rintro s' hs' ⟨⟩
    exact hk hs'.symm

variable [DecidableEq K] {client : Option SessionId} {l : SocketLabel S K}

/-- A write of a `send`. -/
theorem io_step (hu : ∀ k, x.StreamUse k) {s : Sending K} {ds : List (List UInt8)} {stream : TunnelFrameStream}
    {ev : IoEvent Nat} {send : Send} {out : List UInt8} (hi : x.senders i = .sending s) (hcl : s.buf.Closed ds)
    (hst : stream.sendStep s.buf s.send ev = some (send, out)) :
    ((∀ j, (((x.put s.st out).setSender i (.sending { s with send, out := s.out ++ out })).senders j).sent =
        (x.senders j).sent) ∧
      ∀ k, x.Goes ((x.put s.st out).setSender i (.sending { s with send, out := s.out ++ out })) k) ∨
    x.Finishes ((x.put s.st out).setSender i (.sending { s with send, out := s.out ++ out })) i s.st s.buf := by
  obtain ⟨n, io, hw, -⟩ := TunnelFrameStream.sendStep_cases hst
  have hpart : s.whole = false := Sending.whole_writing hw
  have hok := ((hu s.st).busy i s hi rfl).2.2
  have hok' := hok.step hst
  generalize hs' : ({ s with send, out := s.out ++ out } : Sending K) = s' at hok'
  have hst' : s'.st = s.st := by rw [← hs']
  have hbuf : s'.buf = s.buf := by rw [← hs']
  have hout : s'.out = s.out ++ out := by rw [← hs']
  have hstreams : ∀ k, k ≠ s.st → x.Goes ((x.put s.st out).setSender i (.sending s')) k := by
    intro k hk
    refine .same (Function.update_of_ne hk ..) rfl (sending_setSender (x := x.put s.st out) ?_ ?_)
    · rintro s'' hs'' h'
      rw [put_senders, hi] at h'
      cases h'
      exact hk hs''.symm
    · rintro s'' hs'' ⟨⟩
      exact hk (hs''.symm.trans hst')
  have hwire : ((x.put s.st out).setSender i (.sending s')).wire s.st = x.wire s.st ++ out := Function.update_self ..
  -- The stream's one sender is `i`.
  have hone : ∀ j s'', ((x.put s.st out).setSender i (.sending s')).senders j = .sending s'' → s''.st = s.st →
      j = i ∧ s'' = s' := by
    intro j s'' hj he
    by_cases hij : j = i
    · subst hij
      rw [setSender_self] at hj
      exact ⟨rfl, (Sender.sending.inj hj).symm⟩
    · rw [setSender_ne hij] at hj
      exact absurd ((hu s.st).unique j i s'' s hj hi he rfl) hij
  have hbusy : ¬ ∀ j s'', ((x.put s.st out).setSender i (.sending s')).senders j = .sending s'' → s''.st ≠ s.st :=
    fun h => h i s' setSender_self hst'
  have hp : ∀ p, x.Part s.st p → p = s.out := by
    intro p hp
    have := hp.busy i s hi rfl
    rwa [hpart, if_neg Bool.false_ne_true] at this
  cases hwhole : s'.whole with
  | false =>
    refine .inl ⟨fun j => sent_setSender (x := x.put s.st out) rfl ?_ j, fun k => ?_⟩
    · rw [put_senders, hi]
      exact hwhole.trans hpart.symm
    · by_cases hk : k = s.st
      · subst hk
        refine ⟨out, hwire, fun p h => ?_⟩
        rw [hp p h, ← hout]
        refine ⟨fun j s'' hj he => ?_, fun h => absurd h hbusy, fun _ => ⟨s.buf, ds, hcl, ?_, ?_⟩⟩
        · obtain ⟨-, rfl⟩ := hone j s'' hj he
          rw [hwhole, if_neg Bool.false_ne_true]
        · rw [← hbuf]
          exact hok'.part
        · rw [← hbuf]
          exact hok'.lacks hwhole
      · exact hstreams k hk
  | true =>
    refine .inr ⟨by rw [hi]; rfl, by rw [hi]; exact hpart, by rw [setSender_self]; exact hwhole,
      fun j hij => by rw [setSender_ne hij, put_senders], ⟨out, hwire, fun p h => ⟨?_, ?_⟩⟩, hstreams⟩
    · rw [hp p h, ← hout, ← hbuf]
      exact hok'.whole_eq hwhole
    · refine ⟨fun j s'' hj he => ?_, fun h => absurd h hbusy, fun hne => absurd rfl hne⟩
      obtain ⟨-, rfl⟩ := hone j s'' hj he
      rw [hwhole, if_pos rfl]

/-- The end of a `send`. -/
theorem complete_goes (hu : ∀ k, x.StreamUse k) {s : Sending K} {res : Except Exception Unit} {map : SessionsMap K}
    {wake : Option S} (hi : x.senders i = .sending s) (hout : s.send.outcome = some res) (k : K) :
    x.Goes ((({ x with map }.record s.st
      { sender := i, frame := s.buf.bytes, written := s.out, ok := res.isOk }).setSender i
        (.returned s.buf res)).notify wake) k := by
  by_cases hk : k = s.st
  · subst hk
    refine ⟨[], by rw [notify_wire, List.append_nil]; rfl, fun p h => ?_⟩
    rw [List.append_nil]
    have hp := h.busy i s hi rfl
    refine ⟨fun j s' hj he => ?_, fun _ hne => ?_, h.short⟩
    · exfalso
      rw [sending_notify] at hj
      by_cases hij : j = i
      · subst hij
        rw [setSender_self] at hj
        cases hj
      · rw [setSender_ne hij] at hj
        exact hij ((hu s.st).unique j i s' s hj hi he rfl)
    · -- What is left of a frame that is not whole is torn.
      have hpart : s.whole = false := by
        by_contra hw
        rw [if_pos (by simpa using hw)] at hp
        exact hne hp
      rw [if_neg (by simp [hpart])] at hp
      refine ⟨⟨i, s.buf.bytes, s.out, res.isOk⟩, ?_, ?_, hp ▸ hne⟩
      · rw [notify_sends, setSender_sends]
        exact mem_sends_record.2 (.inr ⟨rfl, rfl⟩)
      · exact (Sending.whole_outcome hout).symm.trans hpart
  · refine .same (by rw [notify_wire]; rfl) ?_ fun j s' hs' => ?_
    · rw [notify_sends]
      exact Function.update_of_ne hk ..
    · rw [sending_notify]
      refine sending_setSender (x := { x with map }.record s.st ⟨i, s.buf.bytes, s.out, res.isOk⟩) (k := k)
        (a := .returned s.buf res) ?_ (by simp) j s' hs'
      rintro s'' hs'' h'
      rw [record_senders, hi] at h'
      cases h'
      exact hk hs''.symm

/-- **What a step of the sockets does with the frames**, whatever fails: it
makes none whole, or it makes one whole. -/
theorem part_step (hu : ∀ k, x.StreamUse k)
    (hcl : ∀ i buf, (x.senders i).buf = some buf → ∃ ds, TunnelFrameBuffer.Closed buf ds)
    (hC : ¬ TakesTorn ⟨x, l, x'⟩) (hs : SocketStep client x l x') (hl : ¬ l.OfCaller) :
    ((∀ j, (x'.senders j).sent = (x.senders j).sent) ∧ ∀ k, x.Goes x' k) ∨ ∃ i k f, x.Finishes x' i k f := by
  have hnone : ∀ {st : K}, (x.map.trackers st).inUse = false → ∀ j s, x.senders j = .sending s → s.st ≠ st := by
    intro st hfree j s hj he
    have := (hu st).inUse.2 ⟨j, s, hj, he⟩
    rw [hfree] at this
    cases this
  cases hs with
  | call hi => exact absurd trivial hl
  | notYetReady hi hsel =>
    exact .inl ⟨sent_setSender rfl (by rw [hi]; rfl), .setSender (by simp [hi]) (by simp) rfl rfl rfl⟩
  | @take i buf map obj buf' st hi hsel =>
    obtain ⟨s, -, -, -, hfree, rfl, -⟩ := SessionsMap.select_take hsel
    obtain ⟨ds, hds⟩ := hcl i buf (by rw [hi]; rfl)
    refine .inl ⟨sent_setSender (x := { x with map }) rfl ?_, .take rfl (by simp [hi]) (hnone hfree) ?_⟩
    · show Sending.whole _ = (x.senders i).sent
      rw [hi]
      exact Sending.whole_start (patched_closed hds (some _))
    · exact fun r hr ht => hC ⟨st, .inl ⟨i, _, _, _, _, rfl, hi, hsel⟩, r, hr, ht⟩
  | wait hi hsel =>
    exact .inl ⟨sent_setSender rfl (by rw [hi]; rfl), .setSender (by simp [hi]) (by simp) rfl rfl rfl⟩
  | @recheckTake i obj buf st n map hi hre =>
    obtain ⟨hfree, -⟩ := SessionsMap.recheck_some hre
    obtain ⟨ds, hds⟩ := hcl i buf (by rw [hi]; rfl)
    refine .inl ⟨sent_setSender (x := { x with map }) rfl ?_, .take rfl (by simp [hi]) (hnone hfree) ?_⟩
    · show Sending.whole _ = (x.senders i).sent
      rw [hi]
      exact Sending.whole_start hds
    · exact fun r hr ht => hC ⟨st, .inr ⟨i, _, _, _, rfl, hi, hfree⟩, r, hr, ht⟩
  | recheckWait hi hre =>
    exact .inl ⟨sent_setSender rfl (by rw [hi]; rfl), .setSender (by simp [hi]) (by simp) rfl rfl rfl⟩
  | @io i s ev send out hi hal hst =>
    obtain ⟨ds, hds⟩ := hcl i s.buf (by rw [hi]; rfl)
    exact (io_step hu hi hds hst).imp_right fun h => ⟨i, s.st, s.buf, h⟩
  | @complete i s res map wake hi hout hc hwk =>
    refine .inl ⟨fun j => ?_, complete_goes hu hi hout⟩
    rw [sent_notify]
    refine sent_setSender (x := { x with map }.record s.st ⟨i, s.buf.bytes, s.out, res.isOk⟩) rfl ?_ j
    rw [record_senders, hi, Sender.sent_returned]
    exact (Sending.whole_outcome hout).symm
  | leave hi => exact absurd trivial hl
  | _ => exact .inl ⟨fun _ => rfl, .of_senders rfl rfl rfl⟩

end

end SocketState

end RuralPipe
