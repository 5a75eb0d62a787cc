/-
Both ends of every connection, and the bytes in between.

A side has put its initial frame on a connection before its stream is
registered, and no sender knows the stream earlier. So the other side's exchange
takes off just that frame, and its loop the frames that the senders put there
later, wherever the bytes were cut and whoever took a step first (`Agrees`).
-/
import RuralPipe.HandedFrames
import RuralPipe.Handshake
import RuralPipe.Membership
import RuralPipe.ReceivingStack

namespace RuralPipe

open Bytes TunnelFrameStream SocketState Handshake

/-! ## Tasks -/

/-- Not yet past the exchange. -/
def Task.early : Task → Bool
  | .notAdded => true
  | .posted _ => true
  | .exchanging _ => true
  | _ => false

/-- Past the exchange, with what it was to return. -/
def Task.Agreed (s : Side) (c : SessionId) : Task → Prop
  | .exchanged _ ier => ier = s.result c
  | .receiving sid => sid = c
  | .loopEnded sid => sid = c
  | .closed sid => sid = c
  | .done => True
  | _ => False

theorem Task.preparing_of_early {t : Task} (h : t.early = true) : t.preparing = true := by
  cases t <;> first | rfl | cases h

theorem Task.Agreed.not_early {s : Side} {c : SessionId} {t : Task} (h : t.Agreed s c) : t.early = false := by
  cases t <;> first | rfl | exact h.elim

theorem Task.Agreed.ne_exchanging {s : Side} {c : SessionId} {t : Task} (h : t.Agreed s c)
    (stream : TunnelFrameStream) :
    t ≠ .exchanging stream := by
  intro ht
  rw [ht] at h
  exact h

theorem Task.sessionId_of_early {t : Task} (h : t.early = true) : t.sessionId = none := by
  cases t <;> first | rfl | cases h

theorem Task.Agreed.sessionId {s : Side} {c sid : SessionId} {t : Task} (h : t.Agreed s c)
    (ht : t.sessionId = some sid) :
    sid = c := by
  cases t with
  | exchanged stream ier =>
    have h : ier = s.result c := h
    rw [Task.sessionId, h] at ht
    exact (Option.some_inj.1 ht).symm
  | receiving sid' => exact (Option.some_inj.1 ht).symm.trans h
  | loopEnded sid' => exact (Option.some_inj.1 ht).symm.trans h
  | closed sid' => exact (Option.some_inj.1 ht).symm.trans h
  | done => cases ht
  | notAdded => cases ht
  | posted fd => cases ht
  | exchanging stream => cases ht

section
variable {S K : Type} [DecidableEq S] [DecidableEq K] {client : Option SessionId} {x x' : SocketState S K}
  {l : SocketLabel S K}

/-- An exchange ends for a task that is in it. -/
theorem SocketStep.exchanging {k : K} {io : ExchangeIo} (hs : SocketStep client x (.exchange k io) x') :
    ∃ stream, x.tasks k = .exchanging stream := by
  rcases task_step hs k with ⟨hno, -⟩ | ⟨-, ht⟩
  · exact absurd rfl hno
  · generalize x.tasks k = t at ht ⊢
    generalize x'.tasks k = t' at ht
    cases ht <;> exact ⟨_, rfl⟩

/-- Only the end of an exchange leads past it. -/
theorem early_step (hs : SocketStep client x l x') (hl : ∀ k io, l ≠ .exchange k io) (k : K) :
    (x'.tasks k).early = (x.tasks k).early ∧ ∀ s c, (x.tasks k).Agreed s c → (x'.tasks k).Agreed s c := by
  rcases task_step hs k with ⟨-, heq⟩ | ⟨-, ht⟩
  · rw [heq]
    exact ⟨rfl, fun _ _ h => h⟩
  · generalize x.tasks k = t at ht ⊢
    generalize x'.tasks k = t' at ht ⊢
    cases ht with
    | add => exact ⟨rfl, fun _ _ h => h.elim⟩
    | start hnb => exact ⟨rfl, fun _ _ h => h.elim⟩
    | exchange hex => exact absurd rfl (hl _ _)
    | exchangeThrows hex => exact absurd rfl (hl _ _)
    | exchangeAborts hex => exact absurd rfl (hl _ _)
    | register => exact ⟨rfl, fun _ _ h => congrArg InitialExchangeResult.sessionId h⟩
    | cleanup => exact ⟨rfl, fun _ _ _ => trivial⟩
    | _ => exact ⟨rfl, fun _ _ h => h⟩

end

/-! ## Ends -/

/-- The loop has returned the frames at the front of the bytes it took, and its
call has the rest of them. -/
def Endpoint.Loops (e : Endpoint) (bytes : List UInt8) : Prop :=
  ∃ part, bytes = e.frames.flatten ++ part ∧ (∀ f ∈ e.frames, RuralPipe.frames.Whole f) ∧
    match e.receiving with
    | none => part = []
    | some r => r.At e.buffer part

/-- The frames returned are the first of those whose bytes the loop is given. -/
theorem Endpoint.Loops.frames {e : Endpoint} {bytes more : List UInt8} {fs : List TunnelFrameBuffer}
    (h : e.Loops bytes) (hfs : ∀ f ∈ fs, ∃ ds, f.Closed ds)
    (hb : bytes ++ more = (fs.map TunnelFrameBuffer.bytes).flatten) :
    ∃ gs gs' part, fs = gs ++ gs' ∧ e.frames = gs.map TunnelFrameBuffer.bytes ∧ bytes = e.frames.flatten ++ part ∧
      part ++ more = (gs'.map TunnelFrameBuffer.bytes).flatten ∧
      (e.receiving = none → part = []) ∧ ∀ r, e.receiving = some r → r.At e.buffer part := by
  obtain ⟨part, rfl, hwhole, hr⟩ := h
  have hclosed : ∀ f ∈ fs.map TunnelFrameBuffer.bytes, RuralPipe.frames.Whole f := by
    intro b hb
    obtain ⟨f, hf, rfl⟩ := List.mem_map.1 hb
    obtain ⟨ds, hds⟩ := hfs f hf
    exact hds.whole
  rw [List.append_assoc] at hb
  obtain ⟨bs, hsplit, hrest⟩ := Delimited.flatten_prefix hwhole hclosed hb
  obtain ⟨gs, gs', rfl, hgs, rfl⟩ := List.map_eq_append_iff.1 hsplit
  refine ⟨gs, gs', part, rfl, hgs.symm, rfl, hrest, fun hn => ?_, fun r he => ?_⟩
  · rw [hn] at hr
    exact hr
  · rw [he] at hr
    exact hr

/-- The loop leaves alone what the exchange did. -/
theorem Endpoint.receiveStep_exchange {e e' : Endpoint} {fd : FileDescriptor} {interrupted : Bool} {ev : ReceivingEvent}
    (hs : e.receiveStep fd interrupted ev = some e') :
    e'.exchanging = e.exchanging ∧ e'.written = e.written ∧ e'.takenByExchange = e.takenByExchange := by
  cases ev with
  | tau =>
    simp only [Endpoint.receiveStep] at hs
    split at hs
    · split at hs <;> cases hs
      exact ⟨rfl, rfl, rfl⟩
    · cases hs
      exact ⟨rfl, rfl, rfl⟩
    · cases hs
  | read rev =>
    simp only [Endpoint.receiveStep] at hs
    split at hs
    · cases hs
    · split at hs <;> cases hs
      exact ⟨rfl, rfl, rfl⟩

/-- A loop goes on as it stands, as long as no system call fails and the bytes it
gets are those of closed frames. -/
theorem Endpoint.Loops.step {e e' : Endpoint} {fd : FileDescriptor} {interrupted : Bool} {ev : ReceivingEvent}
    {bytes more : List UInt8} {fs : List TunnelFrameBuffer} (h : e.Loops bytes)
    (hs : e.receiveStep fd interrupted ev = some e') (hsm : ∀ rev, ev = .read rev → rev.Smooth List.length)
    (hfs : ∀ f ∈ fs, ∃ ds, f.Closed ds)
    (hb : bytes ++ ev.bytes ++ more = (fs.map TunnelFrameBuffer.bytes).flatten) :
    e'.Loops (bytes ++ ev.bytes) ∧ e'.takenByLoop = e.takenByLoop + ev.bytes.length := by
  rw [List.append_assoc] at hb
  obtain ⟨gs, gs', part, rfl, -, rfl, hrest, hnone, hat⟩ := h.frames hfs hb
  have hwhole : ∀ f ∈ e.frames, RuralPipe.frames.Whole f := h.choose_spec.2.1
  cases ev with
  | tau =>
    simp only [Endpoint.receiveStep] at hs
    rw [show ReceivingEvent.tau.bytes = [] from rfl, List.nil_append] at hrest
    rw [show ReceivingEvent.tau.bytes = [] from rfl, List.append_nil]
    split at hs
    · rename_i hr
      split at hs
      · cases hs
      · cases hs
        rw [hnone hr, List.append_nil]
        exact ⟨⟨[], (List.append_nil _).symm, hwhole, Receive.At.start ⟨fd, e.buffer⟩⟩, rfl⟩
    · rename_i buf hr
      cases hs
      obtain ⟨f, gs', rfl, hbytes, rfl⟩ :=
        ((hat _ hr).frames (fun f hf => hfs f (List.mem_append_right _ hf)) hrest).2 _ rfl
      refine ⟨⟨[], by simp [hbytes], fun b hmem => ?_, rfl⟩, rfl⟩
      rcases List.mem_append.1 hmem with hmem | hmem
      · exact hwhole b hmem
      · obtain ⟨ds, hds⟩ := hfs f (by simp)
        rw [List.mem_singleton.1 hmem, hbytes]
        exact hds.whole
    · cases hs
  | read rev =>
    simp only [Endpoint.receiveStep] at hs
    rw [show (ReceivingEvent.read rev).bytes = rev.bytes from rfl]
    split at hs
    · cases hs
    · rename_i r hr
      split at hs
      · cases hs
      · rename_i s' r' hst
        cases hs
        rcases receiveStep_cases (hat r hr) hst with ⟨n, -, -, -, -, hat'⟩ |
          ⟨rfl, hat', -, hnil⟩ | ⟨ex, -, -, -, -, hno⟩
        · exact ⟨⟨part ++ rev.bytes, List.append_assoc .., hwhole, hat'⟩, rfl⟩
        · refine ⟨⟨part, ?_, hwhole, hat'⟩, rfl⟩
          rw [hnil, List.append_nil]
        · exact absurd (hsm rev rfl) hno

/-- Where an end stands whose task is `t`, given the bytes `given`: before the end
of its exchange, which has taken them all, or past it, in the session `c` and
with the rest of them taken by the loop. -/
inductive Endpoint.Stands (s : Side) (c : SessionId) (e : Endpoint) (given : List UInt8) (t : Task) : Prop
  | exchanging : t.early = true → e.exchanging.Stands s c e.buffer e.written given →
      (s = .client → e.exchanging.SendsFirst) → e.receiving = none → e.frames = [] → e.takenByLoop = 0 →
      Endpoint.Stands s c e given t
  | past {rest} : t.Agreed s c → e.written = (s.frame c).bytes → e.takenByExchange = (s.other.frame c).size →
      given = (s.other.frame c).bytes ++ rest → e.Loops rest → Endpoint.Stands s c e given t

theorem Endpoint.Stands.of_task {s : Side} {c : SessionId} {e : Endpoint} {given : List UInt8} {t t' : Task}
    (h : e.Stands s c given t) (ht : t'.early = t.early ∧ ∀ s c, t.Agreed s c → t'.Agreed s c) :
    e.Stands s c given t' := by
  cases h with
  | exchanging he hst hfirst hr hfr ht' => exact .exchanging (ht.1.trans he) hst hfirst hr hfr ht'
  | past ha hw ht' hg hl => exact .past (ht.2 s c ha) hw ht' hg hl

/-! ## Both ends -/

namespace Handshake

section
variable {S K : Type}

/-- The bytes a side has taken off a connection. -/
def given (x : Handshake S K) (s : Side) (k : K) : List UInt8 := (x.sent s.other k).take (x.taken s k)

/-- The senders give closed frames to the streams, and nothing to one that is not
registered yet. -/
structure Feeds (x : Handshake S K) : Prop where
  fresh : ∀ s, (x.sockets s).Fresh
  closed : ∀ s k, ∃ fs : List TunnelFrameBuffer, (x.sockets s).outgoing k = (fs.map TunnelFrameBuffer.bytes).flatten ∧
    ∀ f ∈ fs, ∃ ds, f.Closed ds

structure Agrees (c : SessionId) (x : Handshake S K) : Prop where
  stands : ∀ s k, (x.ends s k).Stands s c (x.given s k) ((x.sockets s).tasks k)
  taken : ∀ s k, x.taken s k ≤ (x.sent s.other k).length

variable {c : SessionId} {x x' : Handshake S K} {s : Side} {k : K}

theorem given_underway (x : Handshake S K) (s : Side) (k : K) : x.given s k ++ x.underway s k = x.sent s.other k :=
  List.take_append_drop ..

theorem given_congr {out : List UInt8} (he : x'.ends s k = x.ends s k)
    (hs : x'.sent s.other k = x.sent s.other k ++ out)
    (ht : x.taken s k ≤ (x.sent s.other k).length) : x'.given s k = x.given s k := by
  rw [given, given, taken, he, hs]
  exact List.take_append_of_le_length ht

/-- Of the bytes underway `bs` are taken. -/
theorem given_taken {bs : List UInt8} (hs : x'.sent s.other k = x.sent s.other k) (hbs : bs <+: x.underway s k)
    (hle : x.taken s k ≤ (x.sent s.other k).length) (ht : x'.taken s k = x.taken s k + bs.length) :
    x'.given s k = x.given s k ++ bs ∧ x'.taken s k ≤ (x'.sent s.other k).length := by
  obtain ⟨more, hmore⟩ := hbs
  have hsplit := x.given_underway s k
  rw [← hmore, ← List.append_assoc] at hsplit
  have hlen : (x.given s k ++ bs).length = x.taken s k + bs.length := by
    rw [List.length_append, given, List.length_take, Nat.min_eq_left hle]
  constructor
  · rw [given, hs, ht, ← hsplit, ← hlen, List.take_left]
  · have hsum := congrArg List.length hsplit
    rw [List.length_append, hlen] at hsum
    rw [hs, ht]
    omega

theorem Agrees.start (h : x.Starts c) : x.Agrees c := by
  have htaken : ∀ s k, x.taken s k = 0 := by
    intro s k
    rw [Handshake.taken, (h.taken s k).1, (h.taken s k).2]
  refine ⟨fun s k => .exchanging ?_ ?_ ?_ (h.receiving s k) (h.frames s k) (h.taken s k).2,
    fun s k => by rw [htaken]; exact Nat.zero_le _⟩
  · rw [h.sockets s]
    rfl
  · rw [h.exchanging, h.written, given, htaken, List.take_zero]
    exact .before (Exchange.exchange_left s c)
  · rintro rfl
    rw [h.exchanging]
    exact Exchange.exchange_sendsFirst c

/-- What is on a connection is the side's initial frame and then its senders'
frames. -/
theorem Agrees.sent_prefix (h : x.Agrees c) (hf : (x.sockets s).Fresh) {fs : List TunnelFrameBuffer}
    (ho : (x.sockets s).outgoing k = (fs.map TunnelFrameBuffer.bytes).flatten) :
    x.sent s k <+: (s.frame c).bytes ++ (fs.map TunnelFrameBuffer.bytes).flatten := by
  cases h.stands s k with
  | exchanging he hst hfirst hr hfr ht =>
    rw [sent, (hf k (Task.preparing_of_early he)).2.1, List.append_nil]
    exact hst.put_prefix.trans (List.prefix_append ..)
  | past ha hw ht hg hl =>
    rw [sent, hw, List.prefix_append_right_inj, ← ho]
    exact List.prefix_append ..

/-- What a side takes next is inside the other's initial frame and its senders'
frames. -/
theorem Agrees.more (h : x.Agrees c) (hf : (x.sockets s.other).Fresh) {fs : List TunnelFrameBuffer}
    (ho : (x.sockets s.other).outgoing k = (fs.map TunnelFrameBuffer.bytes).flatten) {bs : List UInt8}
    (hbs : bs <+: x.underway s k) :
    ∃ more, x.given s k ++ bs ++ more = (s.other.frame c).bytes ++ (fs.map TunnelFrameBuffer.bytes).flatten := by
  obtain ⟨more, hmore⟩ := hbs
  obtain ⟨after, hafter⟩ := h.sent_prefix hf ho
  refine ⟨more ++ after, ?_⟩
  rw [← hafter, ← x.given_underway, ← hmore]
  simp only [List.append_assoc]

/-- One side's sockets have taken a step. -/
theorem Agrees.setSockets {s : Side} {y : SocketState S K} (h : x.Agrees c)
    (hw : ∀ k, ∃ out, y.wire k = (x.sockets s).wire k ++ out)
    (hst : ∀ k, (x.ends s k).Stands s c (x.given s k) (y.tasks k)) : (x.setSockets s y).Agrees c := by
  have hsent : ∀ s' k, ∃ out, (x.setSockets s y).sent s' k = x.sent s' k ++ out := by
    intro s' k
    by_cases hss : s' = s
    · subst hss
      obtain ⟨out, hout⟩ := hw k
      exact ⟨out, by rw [sent, sent, setSockets_self, setSockets_ends, hout, List.append_assoc]⟩
    · exact ⟨[], by rw [sent, sent, setSockets_ne hss, setSockets_ends, List.append_nil]⟩
  refine ⟨fun s' k => ?_, fun s' k => ?_⟩
  · obtain ⟨out, hout⟩ := hsent s'.other k
    have hg : (x.setSockets s y).given s' k = x.given s' k := given_congr rfl hout (h.taken s' k)
    rw [hg]
    by_cases hss : s' = s
    · subst hss
      rw [setSockets_self]
      exact hst k
    · rw [setSockets_ne hss]
      exact h.stands s' k
  · obtain ⟨out, hout⟩ := hsent s'.other k
    rw [hout, List.length_append]
    exact Nat.le_add_right_of_le (h.taken s' k)

end

section
variable {S K : Type} [DecidableEq K] {c : SessionId} {x x' : Handshake S K} {l : HandshakeLabel S K}

/-- One end has taken the bytes `bs`, or put some on the connection. -/
theorem Agrees.setEnd {s : Side} {k : K} {e : Endpoint} {bs : List UInt8} (h : x.Agrees c)
    (hw : ∃ out, e.written ++ (x.sockets s).wire k = x.sent s k ++ out) (hbs : bs <+: x.underway s k)
    (ht : e.takenByExchange + e.takenByLoop = x.taken s k + bs.length)
    (hst : e.Stands s c (x.given s k ++ bs) ((x.sockets s).tasks k)) : (x.setEnd s k e).Agrees c := by
  have hsent : ∀ s' k', ∃ out, (x.setEnd s k e).sent s' k' = x.sent s' k' ++ out := by
    intro s' k'
    by_cases hsk : s' = s ∧ k' = k
    · obtain ⟨rfl, rfl⟩ := hsk
      obtain ⟨out, hout⟩ := hw
      exact ⟨out, by rw [sent, setEnd_self, setEnd_sockets, hout]⟩
    · exact ⟨[], by rw [sent, sent, setEnd_ne hsk, setEnd_sockets, List.append_nil]⟩
  have hother : (x.setEnd s k e).sent s.other k = x.sent s.other k := by
    rw [sent, sent, setEnd_ne fun hsk => s.other_ne hsk.1, setEnd_sockets]
  obtain ⟨hgiven, htaken⟩ := given_taken hother hbs (h.taken s k)
    (show (x.setEnd s k e).taken s k = x.taken s k + bs.length by rw [Handshake.taken, setEnd_self, ht])
  refine ⟨fun s' k' => ?_, fun s' k' => ?_⟩
  · by_cases hsk : s' = s ∧ k' = k
    · obtain ⟨rfl, rfl⟩ := hsk
      rw [hgiven, setEnd_self, setEnd_sockets]
      exact hst
    · obtain ⟨out, hout⟩ := hsent s'.other k'
      have hg : (x.setEnd s k e).given s' k' = x.given s' k' := given_congr (setEnd_ne hsk) hout (h.taken s' k')
      rw [hg, setEnd_ne hsk, setEnd_sockets]
      exact h.stands s' k'
  · by_cases hsk : s' = s ∧ k' = k
    · obtain ⟨rfl, rfl⟩ := hsk
      exact htaken
    · obtain ⟨out, hout⟩ := hsent s'.other k'
      rw [hout, List.length_append, Handshake.taken, setEnd_ne hsk]
      exact Nat.le_add_right_of_le (h.taken s' k')

variable [DecidableEq S]

/-- **Agreement goes on**, whichever side takes whichever step, as long as no
operation on a descriptor fails. -/
theorem Agrees.step (h : x.Agrees c) (hx : x.Feeds) (hs : HandshakeStep c x l x') (hi : l.Intact) : x'.Agrees c := by
  cases hs with
  | @socket s l y hl hs =>
    exact h.setSockets (wire_step hs) fun k => (h.stands s k).of_task (early_step hs hl k)
  | @exchange s k ev stream stream' e out htask hbs hst =>
    obtain ⟨fs, hfs, -⟩ := hx.closed s.other k
    obtain ⟨more, hmore⟩ := h.more (hx.fresh s.other) hfs hbs
    cases h.stands s k with
    | exchanging he hstands hfirst hr hfr hloop =>
      have hwire : (x.sockets s).wire k = [] := (hx.fresh s k (Task.preparing_of_early he)).2.1
      refine h.setEnd ⟨out, ?_⟩ hbs ?_
        (.exchanging he (hstands.step hst hi ⟨more, _, hmore⟩) (fun hc => (hfirst hc).step hst) hr hfr hloop)
      · rw [sent, hwire, List.append_nil, List.append_nil]
      · rw [Handshake.taken]
        exact Nat.add_right_comm ..
    | past ha hw ht hg hl => exact absurd htask (ha.ne_exchanging stream)
  | @finish s k io res y hend hex hs =>
    cases h.stands s k with
    | exchanging he hstands hfirst hr hfr hloop =>
      rw [hend] at hstands
      obtain ⟨rfl, hput, hgiven⟩ := hstands.ended
      -- All of the other's initial frame is taken.
      have htook : (x.ends s k).takenByExchange = (s.other.frame c).size := by
        have hlen := congrArg List.length hgiven
        rw [Handshake.given, List.length_take, Nat.min_eq_left (h.taken s k), Handshake.taken, hloop,
          TunnelFrameBuffer.bytes_length] at hlen
        exact hlen
      cases hs with
      | @exchange _ stream buffer _ ier hk hex' =>
        obtain rfl : s.result c = ier := Except.ok.inj (hex.symm.trans hex')
        refine h.setSockets (fun k' => ⟨[], (List.append_nil _).symm⟩) fun k' => ?_
        by_cases hkk : k' = k
        · subst hkk
          rw [setTask_self]
          exact .past rfl hput htook (by rw [hgiven, List.append_nil]) ⟨[], by simp [hfr], by simp [hfr], by rw [hr]⟩
        · rw [setTask_ne hkk]
          exact h.stands s k'
      | exchangeThrows hk hex' => exact nomatch hex.symm.trans hex'
      | exchangeAborts hk hex' => exact nomatch hex.symm.trans hex'
    | past ha hw ht hg hl =>
      obtain ⟨stream, htask⟩ := hs.exchanging
      exact absurd htask (ha.ne_exchanging stream)
  | @receive s k ev sid e htask hbs hst =>
    obtain ⟨fs, hfs, hcl⟩ := hx.closed s.other k
    obtain ⟨more, hmore⟩ := h.more (hx.fresh s.other) hfs hbs
    cases h.stands s k with
    | exchanging he hstands hfirst hr hfr hloop =>
      rw [htask] at he
      cases he
    | past ha hw ht hg hl =>
      rw [hg, List.append_assoc, List.append_assoc] at hmore
      have hmore := List.append_cancel_left hmore
      rw [← List.append_assoc] at hmore
      have hsm : ∀ rev, ev = .read rev → rev.Smooth List.length := by
        rintro rev rfl
        exact hi
      obtain ⟨hl', htook⟩ := hl.step hst hsm hcl hmore
      obtain ⟨-, hwritten, hexch⟩ := Endpoint.receiveStep_exchange hst
      refine h.setEnd ⟨[], ?_⟩ hbs ?_ (.past ha (hwritten.trans hw) (hexch.trans ht) ?_ hl')
      · rw [hwritten, sent, List.append_nil]
      · rw [hexch, htook, Handshake.taken, Nat.add_assoc]
      · rw [hg, List.append_assoc]

end

/-! ## Runs of both -/

section
variable {S K : Type}

/-- A side's share of a step. -/
def share (s : Side) : HandshakeLabel S K → Option (SocketLabel S K)
  | .socket s' l => if s' = s then some l else none
  | _ => none

/-- A run of both as a run of one side's sockets. -/
def trace (s : Side) (tr : List (Machine.Transition (Handshake S K) (HandshakeLabel S K))) :
    List (Machine.Transition (SocketState S K) (SocketLabel S K)) :=
  Machine.project (·.sockets s) (share s) tr

theorem share_eq {s : Side} {l : SocketLabel S K} {hl : HandshakeLabel S K} (h : share s hl = some l) :
    hl = .socket s l := by
  cases hl with
  | socket s' l' =>
    simp only [share] at h
    split at h
    · cases h
      simp [*]
    · cases h
  | exchange s' k ev => cases h
  | receive s' k ev => cases h

theorem mem_trace {tr : List (Machine.Transition (Handshake S K) (HandshakeLabel S K))} {s : Side}
    {u : Machine.Transition (SocketState S K) (SocketLabel S K)} (h : u ∈ trace s tr) :
    ∃ t ∈ tr, t.label = .socket s u.label := by
  obtain ⟨t, ht, l, hl, rfl⟩ := Machine.mem_project.1 h
  exact ⟨t, ht, share_eq hl⟩

variable [DecidableEq S] [DecidableEq K] {c : SessionId} {x x' : Handshake S K} {l : HandshakeLabel S K}
  {tr : List (Machine.Transition (Handshake S K) (HandshakeLabel S K))}

/-- A step of both is a step of a side's sockets, or leaves them alone. -/
theorem share_step (hs : HandshakeStep c x l x') (s : Side) :
    (∀ l', share s l = some l' → SocketStep (s.clientSessionId c) (x.sockets s) l' (x'.sockets s)) ∧
      (share s l = none → x'.sockets s = x.sockets s) := by
  have moved : ∀ {s' : Side} {l y}, SocketStep (s'.clientSessionId c) (x.sockets s') l y →
      (∀ l', share s (.socket s' l) = some l' →
        SocketStep (s.clientSessionId c) (x.sockets s) l' ((x.setSockets s' y).sockets s)) ∧
      (share s (.socket s' l) = none → (x.setSockets s' y).sockets s = x.sockets s) := by
    intro s' l y hs
    by_cases hss : s = s'
    · subst hss
      simp only [share, if_true, Option.some.injEq, reduceCtorEq, setSockets_self]
      exact ⟨fun l' hl => hl ▸ hs, fun hno => nomatch hno⟩
    · refine ⟨fun l' hl => ?_, fun _ => setSockets_ne hss⟩
      simp only [share, if_neg (Ne.symm hss), reduceCtorEq] at hl
  cases hs with
  | socket hl hs => exact moved hs
  | exchange htask hbs hst => exact ⟨(fun _ hl => nomatch hl), fun _ => rfl⟩
  | finish hend hex hs => exact moved hs
  | receive htask hbs hst => exact ⟨(fun _ hl => nomatch hl), fun _ => rfl⟩

theorem run_trace (h : (handshake S K c).Run tr x) (s : Side) :
    (RuralPipe.sockets S K (s.clientSessionId c)).Run (trace s tr) (x.sockets s) := by
  refine Machine.Run.project (N := RuralPipe.sockets S K (s.clientSessionId c))
    (fun y (hy : y.Starts c) => hy.sockets s)
    (fun y l y' hs => ⟨fun l' hl => ⟨?_, ?_⟩, ?_⟩) h
  · have hc := hs.1
    rw [share_eq hl] at hc
    exact hc
  · exact (share_step hs.2 s).1 l' hl
  · exact (share_step hs.2 s).2

/-- What a side's senders gave to its streams is closed frames. -/
theorem run_given (h : (handshake S K c).Run tr x) (hi : ∀ t ∈ tr, t.label.Intact) (s : Side) (k : K) :
    ∃ fs : List TunnelFrameBuffer, (x.sockets s).outgoing k = (fs.map TunnelFrameBuffer.bytes).flatten ∧
      ∀ f ∈ fs, f ∈ numbered (trace s tr) ∧ ∃ ds, f.Closed ds := by
  have hintact : ∀ u ∈ trace s tr, u.label.Intact := by
    intro u hu
    obtain ⟨t, ht, hl⟩ := mem_trace hu
    have := hi t ht
    rw [hl] at this
    exact this
  have hcl : ∀ u ∈ trace s tr, ∀ i buf, u.label = .call i buf → ∃ ds, buf.Closed ds := by
    intro u hu i buf hl
    have := hintact u hu
    rw [hl] at this
    exact this
  have hsm : ∀ u ∈ trace s tr, ∀ i ev, u.label = .io i ev → IoEvent.Smooth id ev := by
    intro u hu i ev hl
    have := hintact u hu
    rw [hl] at this
    exact this
  obtain ⟨fs, hfs, hmem⟩ := run_outgoing (run_trace h s) hcl hsm k
  exact ⟨fs, hfs, fun f hf => ⟨hmem f hf, (run_numbered (run_trace h s) hcl).closed f (hmem f hf)⟩⟩

theorem run_feeds (h : (handshake S K c).Run tr x) (hi : ∀ t ∈ tr, t.label.Intact) : x.Feeds := by
  refine ⟨fun s => reachable_fresh (run_trace h s).reachable, fun s k => ?_⟩
  obtain ⟨fs, hfs, hmem⟩ := run_given h hi s k
  exact ⟨fs, hfs, fun f hf => (hmem f hf).2⟩

/-- Both sides agree in every state of a run. -/
theorem run_agrees (h : (handshake S K c).Run tr x) (hi : ∀ t ∈ tr, t.label.Intact) : x.Agrees c := by
  induction h with
  | init hx => exact .start hx
  | @step tr x l x' hr hs ih =>
    have hi' : ∀ t ∈ tr, t.label.Intact := fun t ht => hi t (List.mem_append_left _ ht)
    exact (ih hi').step (run_feeds hr hi') hs.2 (hi ⟨x, l, x'⟩ (List.mem_append_right _ (List.mem_singleton_self _)))

end

end Handshake

/-! ## No crash -/

/-- The end of a receive loop. -/
def SocketLabel.EndsLoop {S K : Type} : SocketLabel S K → Prop
  | .receiveEnds _ _ => True
  | _ => False

def HandshakeLabel.EndsLoop {S K : Type} : HandshakeLabel S K → Prop
  | .socket _ l => l.EndsLoop
  | _ => False

/-- Past the receive loop, and before the end of its cleanup. -/
def Task.leaving : Task → Bool
  | .loopEnded _ => true
  | .closed _ => true
  | _ => false

section
variable {S K : Type} [DecidableEq S] [DecidableEq K] {client : Option SessionId} {x x' : SocketState S K}
  {l : SocketLabel S K} {tr : List (Machine.Transition (SocketState S K) (SocketLabel S K))}

theorem leaving_step (hs : SocketStep client x l x') (hl : ¬ l.EndsLoop) {k : K} (h : (x.tasks k).leaving = false) :
    (x'.tasks k).leaving = false := by
  rcases task_step hs k with ⟨-, heq⟩ | ⟨-, ht⟩
  · rw [heq]
    exact h
  · generalize x.tasks k = t at ht h
    generalize x'.tasks k = t' at ht
    cases ht with
    | receiveEnds => exact absurd trivial hl
    | close => cases h
    | closeAborts => cases h
    | cleanupCrash => cases h
    | _ => rfl

/-- While no loop ends, every sender's session stays. -/
theorem run_staying (h : (sockets S K client).Run tr x) (hl : ∀ t ∈ tr, ¬ t.label.EndsLoop) :
    (∀ k, (x.tasks k).leaving = false) ∧ x.Present := by
  refine (h.guarded (I := fun x => (∀ k, (x.tasks k).leaving = false) ∧ x.Present)
    (C := fun t => ¬ t.label.EndsLoop) ?_ ?_ hl).1
  · rintro y rfl
    refine ⟨fun _ => rfl, fun obj hsend => ?_⟩
    obtain ⟨i, s, hi, -⟩ := hsend
    cases hi
  · intro y l y' hr hI hl hs
    refine ⟨fun k => leaving_step hs.2 hl (hI.1 k), present_step (reachable_table hr) hI.2 ?_ hs.2⟩
    rintro ⟨k, sid, s, -, hk, -⟩
    have := hI.1 k
    rw [hk] at this
    cases this

/-- What can end the process is an exchange that aborts, a loop that ended, or a
registration in another session. -/
theorem uncrashed_step (hs : SocketStep client x l x') (hc : x.crash = none) (ht : x.Table) (hp : x.Present)
    (hleave : ∀ k, (x.tasks k).leaving = false) (hi : l.Intact) (hl : ¬ l.EndsLoop)
    (hex : ∀ k io, l = .exchange k io → ∃ ier, initialTunnelFrameExchange client io = .ok ier)
    (hreg : ∀ k stream ier, x.tasks k = .exchanged stream ier → ∀ s ∈ x.map.sessions, s.sessionId = ier.sessionId) :
    x'.crash = none := by
  cases hs with
  | selectCrash hi' hsel => exact absurd hsel (ht.exact.select _ _)
  | complete hi' hout hcm hwk =>
    rw [notify_crash]
    exact hc
  | completeCrash hi' hout hcm =>
    obtain ⟨s, hmem, ho⟩ := hp _ ⟨_, _, hi', rfl⟩
    exact absurd ho (SessionsMap.complete_error hcm s hmem)
  | startThrows hk hnb => exact nomatch hi.symm.trans hnb
  | exchangeAborts hk hex' =>
    obtain ⟨ier, hok⟩ := hex _ _ rfl
    exact nomatch hok.symm.trans hex'
  | @registerThrows k stream ier ex hk hsh hr =>
    obtain ⟨hne, hall, -⟩ := SessionsMap.register_error.1 hr
    obtain ⟨s, ss, hss⟩ := List.exists_cons_of_ne_nil hne
    have hmem : s ∈ x.map.sessions := by rw [hss]; exact List.mem_cons_self
    exact absurd (hreg k stream ier hk s hmem) (hall s hmem)
  | receiveAborts hk => exact absurd trivial hl
  | @closeAborts k sid c hk hcl =>
    have := hleave k
    rw [hk] at this
    cases this
  | @cleanupCrash k sid c hk hsh hcl =>
    have := hleave k
    rw [hk] at this
    cases this
  | _ => exact hc

end

namespace Handshake

section
variable {S K : Type} [DecidableEq S] [DecidableEq K] {c : SessionId} {x x' : Handshake S K} {l : HandshakeLabel S K}
  {tr : List (Machine.Transition (Handshake S K) (HandshakeLabel S K))}

omit [DecidableEq S] [DecidableEq K] in
/-- Every session is the client's. -/
theorem Agrees.sessionId (h : x.Agrees c) {s : Side} {k : K} {sid : SessionId}
    (hk : ((x.sockets s).tasks k).sessionId = some sid) : sid = c := by
  cases h.stands s k with
  | exchanging he hst hfirst hr hfr ht =>
    rw [Task.sessionId_of_early he] at hk
    cases hk
  | past ha hw ht hg hl => exact ha.sessionId hk

omit [DecidableEq S] [DecidableEq K] in
theorem Agrees.agreed (h : x.Agrees c) {s : Side} {k : K} (he : ((x.sockets s).tasks k).early = false) :
    ((x.sockets s).tasks k).Agreed s c := by
  cases h.stands s k with
  | exchanging he' _ _ _ _ _ =>
    rw [he] at he'
    cases he'
  | past ha _ _ _ _ => exact ha

/-- An exchange that ends has returned what it was to return. -/
theorem Agrees.exchanged (h : x.Agrees c) {s : Side} {k : K} {io : ExchangeIo}
    (hs : HandshakeStep c x (.socket s (.exchange k io)) x') :
    initialTunnelFrameExchange (s.clientSessionId c) io = .ok (s.result c) := by
  cases hs with
  | socket hl hs => exact absurd rfl (hl k io)
  | finish hend hex hs =>
    obtain ⟨stream, htask⟩ := hs.exchanging
    cases h.stands s k with
    | exchanging he hst hfirst hr hfr ht =>
      rw [hend] at hst
      rw [hex, hst.ended.1]
    | past ha hw ht hg hl => exact absurd htask (ha.ne_exchanging stream)

/-- While no loop ends, neither side crashes: every registration finds the
client's session, or none. -/
theorem run_uncrashed (h : (handshake S K c).Run tr x) (hi : ∀ t ∈ tr, t.label.Intact)
    (hl : ∀ t ∈ tr, ¬ t.label.EndsLoop) (s : Side) : (x.sockets s).crash = none := by
  induction h with
  | init hx =>
    have hx : _ = _ := Handshake.Starts.sockets hx s
    rw [hx]
    rfl
  | @step tr x l x' hr hs ih =>
    have hi' : ∀ t ∈ tr, t.label.Intact := fun t ht => hi t (List.mem_append_left _ ht)
    have hl' : ∀ t ∈ tr, ¬ t.label.EndsLoop := fun t ht => hl t (List.mem_append_left _ ht)
    have hlast : (⟨x, l, x'⟩ : Machine.Transition _ _) ∈ tr ++ [⟨x, l, x'⟩] :=
      List.mem_append_right _ (List.mem_singleton_self _)
    have hag := run_agrees hr hi'
    have hc := ih hi' hl'
    cases hsh : share s l with
    | none =>
      rw [(share_step hs.2 s).2 hsh]
      exact hc
    | some l' =>
      obtain rfl := share_eq hsh
      have ht := reachable_table (run_trace hr s).reachable
      obtain ⟨hleave, hp⟩ := run_staying (run_trace hr s) fun u hu => by
        obtain ⟨t, ht, hlab⟩ := mem_trace hu
        have := hl' t ht
        rw [hlab] at this
        exact this
      refine uncrashed_step ((share_step hs.2 s).1 l' hsh) hc ht hp hleave (hi _ hlast) (hl _ hlast)
        (fun k io he => ?_) fun k stream ier hk sess hmem => ?_
      · subst he
        exact ⟨_, hag.exchanged hs.2⟩
      · obtain ⟨k', ks, hks⟩ := List.exists_cons_of_ne_nil (ht.exact.nonempty sess hmem)
        have hreg := (ht.exact.listed sess hmem k').1 (by rw [hks]; exact List.mem_cons_self)
        have hid : ((x.sockets s).tasks k).sessionId = some ier.sessionId := by
          rw [hk]
          rfl
        rw [hag.sessionId (Task.sessionId_of_registered hreg), hag.sessionId hid]

end

end Handshake

end RuralPipe
