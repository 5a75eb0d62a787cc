/-
Frames over a stream: one side sends frames one after another, the other calls
`receive` as many times, and the kernel between them splits what it takes and
what it gives as it likes.

The bytes of all frames are always those received, those in the channel and
those still to be sent (`Transfer.Inv`), so `receive` stands in the middle of
the frame that comes next and takes no byte past it (`Receive.At.frame`).
-/
import RuralPipe.Machine
import RuralPipe.FrameCodec
import RuralPipe.StreamFacts

namespace RuralPipe

open Bytes TunnelFrameStream

/-- Both ends of a stream: the frames not begun and the one being sent, the
bytes in between, the receiving stream, the call of `receive` under way, what
the calls returned, and all bytes they took off the channel. -/
structure Transfer where
  writer : TunnelFrameStream
  unsent : List TunnelFrameBuffer
  sending : Option (TunnelFrameBuffer × Send)
  channel : List UInt8
  reader : TunnelFrameStream
  receiving : Option Receive
  received : List (List UInt8)
  consumed : List UInt8

inductive TransferLabel
  | beginSend
  | write (ev : IoEvent Nat)
  | endSend
  | beginReceive
  | read (ev : IoEvent (List UInt8))
  | endReceive
  | move (reader : TunnelFrameStream)

/-- The steps of the two ends. Between two calls of `receive` the stream may
be moved to another object, whatever that one's buffer holds. -/
inductive TransferStep (fs : List TunnelFrameBuffer) : Transfer → TransferLabel → Transfer → Prop
  | beginSend {x : Transfer} {f rest} : x.sending = none → x.unsent = f :: rest →
      TransferStep fs x .beginSend { x with unsent := rest, sending := some (f, send f) }
  | write {x : Transfer} {f w w' ev out} : x.sending = some (f, w) → ev.Smooth id →
      x.writer.sendStep f w ev = some (w', out) →
      TransferStep fs x (.write ev) { x with sending := some (f, w'), channel := x.channel ++ out }
  | endSend {x : Transfer} {f} : x.sending = some (f, .returned) →
      TransferStep fs x .endSend { x with sending := none }
  | beginReceive {x : Transfer} : x.receiving = none → x.received.length < fs.length →
      TransferStep fs x .beginReceive { x with receiving := some x.reader.receive }
  | read {x : Transfer} {r r' ev s' channel} : x.receiving = some r → ev.Smooth List.length →
      x.channel = ev.bytes ++ channel → x.reader.receiveStep r ev = some (s', r') →
      TransferStep fs x (.read ev)
        { x with channel, reader := s', receiving := some r', consumed := x.consumed ++ ev.bytes }
  | endReceive {x : Transfer} {buf} : x.receiving = some (.returned buf) →
      TransferStep fs x .endReceive { x with receiving := none, received := x.received ++ [buf.bytes] }
  | move {x : Transfer} {reader} : x.receiving = none → TransferStep fs x (.move reader) { x with reader }

/-- The frames `fs` over a stream from `writer` to `reader`. -/
def transfer (fs : List TunnelFrameBuffer) (writer reader : TunnelFrameStream) :
    Machine Transfer TransferLabel where
  init x := x = { writer, unsent := fs, sending := none, channel := [], reader, receiving := none,
                  received := [], consumed := [] }
  step := TransferStep fs

/-- The bytes `send` has left. -/
def Send.rest (f : TunnelFrameBuffer) : Send → List UInt8
  | .writing n _ => f.bytes.drop n
  | _ => []

/-- Inside its frame, and not at an exception. -/
def Send.Inside (f : TunnelFrameBuffer) : Send → Prop
  | .writing n _ => n < f.size
  | .returned => True
  | .threw _ => False

theorem Send.rest_loop {f : TunnelFrameBuffer} {n : Nat} : (sendLoop f n).rest f = f.bytes.drop n := by
  unfold sendLoop
  split
  · rfl
  · rw [List.drop_of_length_le (by rw [TunnelFrameBuffer.bytes_length]; omega)]
    rfl

theorem Send.inside_loop {f : TunnelFrameBuffer} {n : Nat} : (sendLoop f n).Inside f := by
  unfold sendLoop
  split
  · assumption
  · trivial

/-- What the kernel took comes off the front of what is left. -/
theorem Send.rest_step {s : TunnelFrameStream} {f : TunnelFrameBuffer} {w w' : Send} {ev : IoEvent Nat}
    {out : List UInt8} (h : s.sendStep f w ev = some (w', out)) (hsm : ev.Smooth id) (hin : w.Inside f) :
    w.rest f = out ++ w'.rest f ∧ w'.Inside f ∧ ((∃ k, ev = .call (.ok k)) → 0 < out.length) := by
  obtain ⟨n, io, rfl, hc⟩ := sendStep_cases h
  rcases hc with ⟨k, rfl, hpos, hle, rfl, rfl⟩ | ⟨io', rfl, rfl, hne⟩ | ⟨ex, rfl, -, -, -, hno⟩
  · refine ⟨?_, inside_loop, fun _ => by rwa [load_length]⟩
    rw [rest_loop, rest, TunnelFrameBuffer.bytes, load_drop, load_drop, Nat.zero_add, Nat.zero_add,
      load_split k (by omega), Nat.sub_sub]
  · refine ⟨rfl, hin, ?_⟩
    rintro ⟨k, hk⟩
    exact absurd hk (hne k)
  · exact absurd hsm hno

namespace Transfer

/-- The bytes not yet in the channel. -/
def rest (x : Transfer) : List UInt8 :=
  (match x.sending with
    | some (f, w) => w.rest f
    | none => []) ++ (x.unsent.map TunnelFrameBuffer.bytes).flatten

/-- All frames are received, or all calls done. -/
def Finished (fs : List TunnelFrameBuffer) (x : Transfer) : Prop :=
  x.unsent = [] ∧ x.sending = none ∧ x.receiving = none ∧ x.received.length = fs.length

structure Inv (fs : List TunnelFrameBuffer) (x : Transfer) : Prop where
  bytes : (fs.map TunnelFrameBuffer.bytes).flatten = x.consumed ++ x.channel ++ x.rest
  received : x.received = (fs.map TunnelFrameBuffer.bytes).take x.received.length
  between : x.receiving = none → x.consumed = x.received.flatten
  inside : ∀ r, x.receiving = some r → x.received.length < fs.length ∧
    ∃ given, x.consumed = x.received.flatten ++ given ∧ r.At x.reader.buffer given
  sending : ∀ f w, x.sending = some (f, w) → w.Inside f

theorem Inv.start (fs : List TunnelFrameBuffer) {writer reader : TunnelFrameStream} {x : Transfer}
    (h : (transfer fs writer reader).init x) : x.Inv fs := by
  cases h
  exact ⟨by simp [rest], by simp, fun _ => rfl, (fun _ hr => nomatch hr), fun _ _ hw => nomatch hw⟩

section
variable {fs : List TunnelFrameBuffer} (hfs : ∀ f ∈ fs, ∃ ds, f.Closed ds) {x x' : Transfer}
include hfs

/-- The call under way stands inside the frame that comes next. -/
theorem Inv.next (h : x.Inv fs) {r : Receive} (hr : x.receiving = some r) :
    ∃ f ds given, fs[x.received.length]? = some f ∧ f.Closed ds ∧ x.consumed = x.received.flatten ++ given ∧
      r.At x.reader.buffer given ∧
      ∃ after, given ++ (x.channel ++ x.rest) = f.bytes ++ after := by
  obtain ⟨hlt, given, hcons, hat⟩ := h.inside r hr
  obtain ⟨f, hf⟩ : ∃ f, fs[x.received.length]? = some f := ⟨_, List.getElem?_eq_getElem hlt⟩
  obtain ⟨ds, hds⟩ := hfs f (List.mem_of_getElem? hf)
  have hf' : (fs.map TunnelFrameBuffer.bytes)[x.received.length]? = some f.bytes := by
    rw [List.getElem?_map, hf]; rfl
  have hb := h.bytes
  rw [Delimited.flatten_at hf', hcons, ← h.received] at hb
  simp only [List.append_assoc] at hb
  have hb := List.append_cancel_left hb
  exact ⟨f, ds, given, hf, hds, hcons, hat, _, hb.symm⟩

theorem Inv.step {l : TransferLabel} (h : x.Inv fs) (hs : TransferStep fs x l x') : x'.Inv fs := by
  cases hs with
  | beginSend hn hu =>
    refine ⟨?_, h.received, h.between, h.inside, ?_⟩
    · rw [h.bytes]
      simp [rest, hn, hu, send, Send.rest_loop]
    · intro f w hw'
      cases hw'
      exact Send.inside_loop
  | write hw hsm hstep =>
    obtain ⟨hrest, hin, -⟩ := Send.rest_step hstep hsm (h.sending _ _ hw)
    refine ⟨?_, h.received, h.between, h.inside, ?_⟩
    · rw [h.bytes]
      simp [rest, hw, hrest]
    · intro f w hw'
      cases hw'
      exact hin
  | endSend hw =>
    refine ⟨?_, h.received, h.between, h.inside, fun _ _ hw' => nomatch hw'⟩
    rw [h.bytes]
    simp [rest, hw, Send.rest]
  | beginReceive hn hlt =>
    refine ⟨h.bytes, h.received, (fun hr => nomatch hr), ?_, h.sending⟩
    intro r hr'
    cases hr'
    exact ⟨hlt, [], by simpa using h.between hn, Receive.At.start _⟩
  | read hr hsm hch hstep =>
    obtain ⟨hlt, given, hcons, hat⟩ := h.inside _ hr
    refine ⟨?_, h.received, (fun hr' => nomatch hr'), ?_, h.sending⟩
    · rw [h.bytes, hch]
      simp [rest]
    · intro r hr'
      cases hr'
      refine ⟨hlt, ?_⟩
      rcases receiveStep_cases hat hstep with ⟨n, -, -, -, -, hat'⟩ | ⟨rfl, hat', -, hno⟩ | ⟨ex, -, -, -, -, hbad⟩
      · exact ⟨_, by rw [hcons, List.append_assoc], hat'⟩
      · exact ⟨given, by rw [hno, List.append_nil, hcons], hat'⟩
      · exact absurd hsm hbad
  | endReceive hr =>
    obtain ⟨f, ds, given, hf, hds, hcons, hat, after, hpart⟩ := h.next hfs hr
    obtain ⟨-, -, hret, -⟩ := hat.frame hds hpart
    obtain ⟨hbuf, rfl⟩ := hret _ rfl
    refine ⟨h.bytes, ?_, fun _ => ?_, (fun _ hr' => nomatch hr'), h.sending⟩
    · simp only [List.length_append, List.length_singleton]
      rw [List.take_add_one, ← h.received, List.getElem?_map, hf, hbuf]
      rfl
    · simpa [hbuf] using hcons
  | move hn =>
    exact ⟨h.bytes, h.received, h.between, fun r hr => by simp [hn] at hr, h.sending⟩

/-! ## Progress -/

/-- What is left to do for both ends, counting bytes and calls. -/
def left (fs : List TunnelFrameBuffer) (x : Transfer) : Nat :=
  (2 * x.unsent.length + (if x.sending.isSome then 1 else 0) + x.rest.length) +
    (2 * (fs.length - x.received.length) - (if x.receiving.isSome then 1 else 0) +
      ((fs.map TunnelFrameBuffer.bytes).flatten.length - x.consumed.length))

/-- A step other than a move, a poll or a call that would have blocked. -/
def progress (t : Machine.Transition Transfer TransferLabel) : Bool :=
  match t.label with
  | .write (.call (.ok _)) => true
  | .read (.call (.ok _)) => true
  | .write _ => false
  | .read _ => false
  | .move _ => false
  | _ => true

omit hfs in
theorem Inv.left_step {l : TransferLabel} (h : x.Inv fs) (hs : TransferStep fs x l x') :
    left fs x' + (if progress ⟨x, l, x'⟩ then 1 else 0) ≤ left fs x := by
  cases hs with
  | beginSend hn hu =>
    simp [left, progress, rest, hn, hu, send, Send.rest_loop]
    omega
  | @write f w w' ev out hw hsm hstep =>
    obtain ⟨hrest, -, hdata⟩ := Send.rest_step hstep hsm (h.sending _ _ hw)
    have hlen : (w.rest f).length = out.length + (w'.rest f).length := by rw [hrest, List.length_append]
    have hmoved : (if progress ⟨x, .write ev, { x with sending := some (f, w'), channel := x.channel ++ out }⟩
        then 1 else 0) ≤ out.length := by
      rcases ev with (_ | k) | _
      · exact Nat.zero_le _
      · exact hdata ⟨k, rfl⟩
      · exact Nat.zero_le _
    simp only [left, rest, hw, Option.isSome_some, if_true, List.length_append, hlen]
    omega
  | endSend hw =>
    simp only [left, progress, rest, hw, Send.rest, Option.isSome_none, Option.isSome_some, Bool.false_eq_true, if_true,
      if_false]
    omega
  | beginReceive hn hlt =>
    have hrest : rest { x with receiving := some x.reader.receive } = x.rest := rfl
    simp only [left, progress, hn, hrest, Option.isSome_none, Option.isSome_some, Bool.false_eq_true, if_true, if_false]
    omega
  | @read r r' ev s' channel hr hsm hch hstep =>
    have hb := congrArg List.length h.bytes
    simp only [hch, List.length_append] at hb
    have hmoved : (if progress ⟨x, .read ev,
        { x with channel, reader := s', receiving := some r', consumed := x.consumed ++ ev.bytes }⟩
        then 1 else 0) ≤ ev.bytes.length := by
      rcases ev with (_ | bs) | _
      · exact Nat.zero_le _
      · exact hsm
      · exact Nat.zero_le _
    have hrest : rest { x with channel, reader := s', receiving := some r', consumed := x.consumed ++ ev.bytes } =
        x.rest := rfl
    simp only [left, hr, hrest, Option.isSome_some, if_true, List.length_append]
    omega
  | endReceive hr =>
    obtain ⟨hlt, -⟩ := h.inside _ hr
    simp [left, progress, hr, rest]
    omega
  | move hn => simp [left, progress, hn, rest]

/-- Whatever an end waits for, it can go on with, perhaps after its poll. -/
theorem Inv.enabled (h : x.Inv fs) (hn : ¬ x.Finished fs) :
    ∃ x₁, (x₁ = x ∨ ∃ l, TransferStep fs x l x₁) ∧
      ∃ l x₂, TransferStep fs x₁ l x₂ ∧ progress ⟨x₁, l, x₂⟩ = true := by
  cases hs : x.sending with
  | some fw =>
    obtain ⟨f, w⟩ := fw
    have hin := h.sending f w hs
    cases w with
    | writing n io =>
      have hlt : n < f.size := hin
      have hcall : x.writer.sendStep f (.writing n .call) (.call (.ok 1)) =
          some (sendLoop f (n + 1), load f.data n 1) := by
        simp only [sendStep, FileDescriptor.writeStep]
        rw [FileDescriptor.retryStep_call (by decide) (by simp only [id]; omega)]
      cases io with
      | call => exact ⟨x, .inl rfl, _, _,
        .write hs (show IoEvent.Smooth id (.call (.ok 1)) from Nat.one_pos) hcall, rfl⟩
      | poll =>
        have hpoll : x.writer.sendStep f (.writing n .poll) (.poll (.ok 1)) = some (.writing n .call, []) := rfl
        exact ⟨_, .inr ⟨_, .write hs (show IoEvent.Smooth id (.poll (.ok 1)) from trivial) hpoll⟩, _, _,
          .write rfl (show IoEvent.Smooth id (.call (.ok 1)) from Nat.one_pos) hcall, rfl⟩
    | returned => exact ⟨x, .inl rfl, _, _, .endSend hs, rfl⟩
    | threw ex => exact hin.elim
  | none =>
    cases hu : x.unsent with
    | cons f unsent => exact ⟨x, .inl rfl, _, _, .beginSend hs hu, rfl⟩
    | nil =>
      cases hr : x.receiving with
      | none =>
        have hlt : x.received.length < fs.length := by
          refine Nat.lt_of_le_of_ne ?_ fun he => hn ⟨hu, hs, hr, he⟩
          have := congrArg List.length h.received
          simp only [List.length_take, List.length_map] at this
          omega
        exact ⟨x, .inl rfl, _, _, .beginReceive hr hlt, rfl⟩
      | some r =>
        obtain ⟨f, ds, given, hf, hds, hcons, hat, after, hpart⟩ := h.next hfs hr
        obtain ⟨hpre, hfail, -, hwhole⟩ := hat.frame hds hpart
        by_cases hret : ∃ res, r = .returned res
        · obtain ⟨res, rfl⟩ := hret
          exact ⟨x, .inl rfl, _, _, .endReceive hr, rfl⟩
        have hrest : x.rest = [] := by simp [rest, hs, hu]
        -- All is sent, so a call that has not returned has bytes to read.
        obtain ⟨c, channel, hch⟩ : ∃ c channel, x.channel = [c] ++ channel := by
          cases hch : x.channel with
          | cons c channel => exact ⟨c, channel, rfl⟩
          | nil =>
            rw [hch, hrest, List.append_nil, List.append_nil] at hpart
            have hle := hpre.length_le
            rw [hpart, List.length_append] at hle
            have hnil : after = [] := List.eq_nil_of_length_eq_zero (by omega)
            rw [hnil, List.append_nil] at hpart
            exact absurd (hwhole hpart) hret
        obtain ⟨off, n, ht⟩ : ∃ off n, receiveTarget r = some (off, n) := by
          cases r with
          | header n io => exact ⟨_, _, rfl⟩
          | body n t io => exact ⟨_, _, rfl⟩
          | returned res => exact absurd ⟨res, rfl⟩ hret
          | failed e => exact absurd rfl (hfail e)
        obtain ⟨r₁, hr₁, s', r', hstep⟩ := receive_goesOn (s := x.reader) ht (hat.room ht).2.1 c
        rcases hr₁ with rfl | hpoll
        · exact ⟨x, .inl rfl, _, _,
            .read hr (show IoEvent.Smooth List.length (.call (.ok [c])) from Nat.one_pos) hch hstep, rfl⟩
        · exact ⟨_, .inr ⟨_, .read hr (show IoEvent.Smooth List.length (.poll (.ok 1)) from trivial) rfl hpoll⟩, _, _,
            .read rfl (show IoEvent.Smooth List.length (.call (.ok [c])) from Nat.one_pos) hch hstep, rfl⟩

end

end Transfer

/-- **Frames survive any fragmentation.** In every run that sends frames some
writers closed: the calls of `receive` have returned the first of these frames,
byte for byte and in order, and taken no byte of a later one; neither end
fails; while not all is sent and received one end can go on; only so many of
its steps are other than polls and calls that would have blocked; and at the
end all frames are received. -/
theorem transfer_roundTrip {fs : List TunnelFrameBuffer} (hfs : ∀ f ∈ fs, f.FromWriter)
    {writer reader : TunnelFrameStream} {tr : List (Machine.Transition Transfer TransferLabel)} {x : Transfer}
    (h : (transfer fs writer reader).Run tr x) :
    x.received <+: fs.map TunnelFrameBuffer.bytes ∧
      (x.receiving = none → x.consumed = x.received.flatten) ∧
      (∀ r, x.receiving = some r → (∀ e, r ≠ .failed e) ∧
        x.consumed <+: ((fs.map TunnelFrameBuffer.bytes).take (x.received.length + 1)).flatten) ∧
      (∀ f w, x.sending = some (f, w) → ∀ ex, w ≠ .threw ex) ∧
      tr.countP Transfer.progress ≤ 2 * (2 * fs.length + (fs.map TunnelFrameBuffer.bytes).flatten.length) ∧
      (x.Finished fs ∨ ∃ x₁, (x₁ = x ∨ ∃ l, TransferStep fs x l x₁) ∧
        ∃ l x₂, TransferStep fs x₁ l x₂ ∧ Transfer.progress ⟨x₁, l, x₂⟩ = true) ∧
      (x.Finished fs → x.received = fs.map TunnelFrameBuffer.bytes) := by
  have hcl : ∀ f ∈ fs, ∃ ds, f.Closed ds := fun f hf => (hfs f hf).closed
  have hreach : ∀ {y}, (transfer fs writer reader).Reachable y → y.Inv fs := by
    intro y hy
    exact hy.invariant (fun _ hi => Transfer.Inv.start fs hi) fun _ _ _ _ hI hs => hI.step hcl hs
  have hinv := hreach h.reachable
  refine ⟨?_, hinv.between, fun r hr => ?_, fun f w hw ex he => ?_, ?_, ?_, fun hfin => ?_⟩
  · rw [hinv.received]
    exact List.take_prefix _ _
  · obtain ⟨f, ds, given, hf, hds, hcons, hat, after, hpart⟩ := hinv.next hcl hr
    obtain ⟨hpre, hfail, -⟩ := hat.frame hds hpart
    refine ⟨hfail, ?_⟩
    rw [List.take_add_one, ← hinv.received, List.getElem?_map, hf, hcons, List.flatten_append]
    simpa using hpre
  · have := hinv.sending f w hw
    rw [he] at this
    exact this
  · have hm := h.measure (p := Transfer.progress) (Transfer.left fs)
      (N := 2 * (2 * fs.length + (fs.map TunnelFrameBuffer.bytes).flatten.length)) ?_
      fun _ _ _ hr hs => (hreach hr).left_step hs
    · omega
    · rintro y rfl
      simp only [Transfer.left, Transfer.rest, Option.isSome_none, Bool.false_eq_true, if_false, List.nil_append,
        List.length_nil, Nat.sub_zero]
      omega
  · by_cases hfin : x.Finished fs
    · exact .inl hfin
    · exact .inr (hinv.enabled hcl hfin)
  · have := hinv.received
    rwa [hfin.2.2.2, ← List.length_map (f := TunnelFrameBuffer.bytes), List.take_length] at this

/-- Two frames: the first is received whole, in two reads, and the second is cut
after its hundredth byte by the sender's kernel and after its third by the
receiver's. -/
theorem transfer_roundTrip_cut : ∃ f tr x, TunnelFrameBuffer.FromWriter f ∧ f.size = 163 ∧
    (transfer [f, f] ⟨⟨"a", 3⟩, fun _ => 0⟩ ⟨⟨"b", 4⟩, fun _ => 0⟩).Run tr x ∧
    x.received = [f.bytes] ∧ x.consumed = f.bytes ++ f.bytes.take 3 ∧ ¬ x.Finished [f, f] := by
  have hsz := sizes
  obtain ⟨f, hf, hcl, hsize⟩ := exists_fromWriter
  let writer : TunnelFrameStream := ⟨⟨"a", 3⟩, fun _ => 0⟩
  let reader : TunnelFrameStream := ⟨⟨"b", 4⟩, fun _ => 0⟩
  have hsend : writer.sendStep f (send f) (.call (.ok f.size)) = some (.returned, f.bytes) := sendStep_whole (by omega)
  have hsend' : writer.sendStep f (send f) (.call (.ok 100)) = some (.writing 100 .call, load f.data 0 100) :=
    sendStep_first (by decide) (by omega)
  obtain ⟨m₁, m₂, hheader, hrest, hbytes⟩ := receive_whole reader f (by omega) hcl.checkedSize
  have hsmooth : ∀ bs : List UInt8, 0 < bs.length → IoEvent.Smooth List.length (.call (.ok bs)) := fun _ h => h
  have hlen := f.bytes_length
  have h := Machine.Run.step (M := transfer [f, f] writer reader) (.init rfl) (.beginSend rfl rfl)
  have h := h.step (.write rfl (show IoEvent.Smooth id (.call (.ok f.size)) from by show 0 < f.size; omega) hsend)
  have h := h.step (.endSend rfl)
  have h := h.step (.beginReceive rfl Nat.two_pos)
  have h := h.step (.read rfl (hsmooth (f.bytes.take sizeofTunnelFrameHeaderInfo) (by rw [List.length_take]; omega))
    (List.take_append_drop ..).symm hheader)
  have h := h.step (.read rfl (hsmooth (f.bytes.drop sizeofTunnelFrameHeaderInfo) (by rw [List.length_drop]; omega))
    (List.append_nil _).symm hrest)
  have h := h.step (.endReceive rfl)
  have h := h.step (.beginSend rfl rfl)
  have h := h.step (.write rfl (show IoEvent.Smooth id (.call (.ok 100)) from Nat.zero_lt_succ _) hsend')
  have h := h.step (.beginReceive rfl Nat.one_lt_two)
  have h := h.step (.read rfl (hsmooth (load f.data 0 3) (Nat.zero_lt_succ _)) (load_add f.data 0 3 97) rfl)
  obtain ⟨x, h, hone, hconsumed, hsending⟩ : ∃ x, (transfer [f, f] writer reader).Run _ x ∧ x.received.length = 1 ∧
      x.consumed = f.bytes.take sizeofTunnelFrameHeaderInfo ++ f.bytes.drop sizeofTunnelFrameHeaderInfo ++
        load f.data 0 3 ∧ x.sending ≠ none := ⟨_, h, rfl, rfl, by simp⟩
  obtain ⟨hreceived, -⟩ := transfer_roundTrip (by simpa using hf) h
  refine ⟨f, _, x, hf, hsize, h, ?_, ?_, fun hfin => hsending hfin.2.1⟩
  · have hpre := List.prefix_iff_eq_take.1 hreceived
    rw [hone] at hpre
    exact hpre
  · have htake : load f.data 0 3 = f.bytes.take 3 := by
      rw [TunnelFrameBuffer.bytes, load_take, Nat.min_eq_left (by omega)]
    rw [hconsumed, List.take_append_drop, htake]

end RuralPipe
