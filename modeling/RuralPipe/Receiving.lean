/-
`receive` on arbitrary input: whatever bytes the peer sends, in whatever
pieces, with whatever errors.

A run of one call keeps what `ReceiveSafe` says for as long as the bytes given
are no header that asks for less than the header itself (`ShortHeader`). That
header passes the check, and the assertion behind the second loop then fails.
-/
import RuralPipe.FrameCodec
import RuralPipe.Machine
import RuralPipe.StreamFacts

namespace RuralPipe

open Bytes TunnelFrameStream

/-- A call of `receive`: the stream, where the call stands, the bytes given to
it so far and the number of reads that gave them. -/
structure Receiving where
  stream : TunnelFrameStream
  receive : Receive
  given : List UInt8
  reads : Nat

/-- One call of `receive` on the stream `s`. -/
def receiving (s : TunnelFrameStream) : Machine Receiving (IoEvent (List UInt8)) where
  init x := x = ⟨s, s.receive, [], 0⟩
  step x ev x' := ∃ s' r', x.stream.receiveStep x.receive ev = some (s', r') ∧
    x' = ⟨s', r', x.given ++ ev.bytes, x.reads + (if ev.bytes = [] then 0 else 1)⟩

/-- The bytes given are a header that passes the check and asks for less than
the header itself. -/
def ShortHeader (given : List UInt8) : Prop :=
  sizeofTunnelFrameHeaderInfo ≤ given.length ∧
    ∃ t, checkedSize (store (fun _ => 0) 0 given) = some t ∧ t < sizeofTunnelFrameHeaderInfo

/-- What a call of `receive` on `s` promises: each read is offered room inside
the buffer only, and nothing outside changes; it returns the bytes its header
asks for, or throws; and before that it takes any answer of the kernel, asks
for at least a byte and is short of its last read. -/
structure ReceiveSafe (s : TunnelFrameStream) (x : Receiving) : Prop where
  inside : ∀ off n, receiveTarget x.receive = some (off, n) → off + n ≤ kTunnelFrameMaxSize
  outside : ∀ i, kTunnelFrameMaxSize ≤ i → x.stream.buffer i = s.buffer i
  returned : ∀ buf, x.receive = .returned buf →
    buf.bytes = x.given ∧ buf.size = (TunnelFrameHeader.cast buf.data).size
  failed : ∀ e, x.receive = .failed e → ∃ ex, e = .throw ex
  ends : ∀ off n, receiveTarget x.receive = some (off, n) → 0 < n ∧ x.reads < kTunnelFrameMaxSize ∧
    ∀ ev, x.receive.Awaits ev → ∃ x', (receiving s).step x ev x'

/-- A short header's bytes, in the stream's own buffer. -/
theorem shortHeader_iff {m : Mem} {given : List UInt8} (h : load m 0 given.length = given) :
    ShortHeader given ↔ sizeofTunnelFrameHeaderInfo ≤ given.length ∧
      ∃ t, checkedSize m = some t ∧ t < sizeofTunnelFrameHeaderInfo := by
  refine and_congr_right fun hlen => ?_
  rw [@checkedSize_congr (store (fun _ => 0) 0 given) m fun i hi => ?_]
  have hsz := sizes
  have hi' : i < given.length := by omega
  have hg : m i = given[i] := by
    have hl : i < (load m 0 given.length).length := by simpa using hi'
    have := load_getElem hl
    rw [Nat.zero_add] at this
    rw [← this]
    simp only [h]
  rw [hg]
  have := @store_in (fun _ => 0) 0 given i hi'
  rwa [Nat.zero_add] at this

/-- The invariant: the call stands where the bytes given put it, or a read
has thrown and the header is not short. -/
structure Receiving.Inv (s : TunnelFrameStream) (x : Receiving) : Prop where
  outside : ∀ i, kTunnelFrameMaxSize ≤ i → x.stream.buffer i = s.buffer i
  reads : x.reads ≤ x.given.length
  stands : x.receive.At x.stream.buffer x.given ∨
    (∃ ex, x.receive = .failed (.throw ex)) ∧ ¬ ShortHeader x.given

/-- A call that still reads has no short header. -/
theorem Receive.At.running {m : Mem} {given : List UInt8} {r : Receive} (h : r.At m given)
    (ht : receiveTarget r ≠ none) : ¬ ShortHeader given := by
  rw [shortHeader_iff h.bytes]
  rintro ⟨hge, t, hc, hlt⟩
  cases r with
  | header n io =>
    obtain ⟨rfl, hn⟩ := h.header
    omega
  | body n t' io =>
    obtain ⟨rfl, hn, hnt, hc'⟩ := h.body
    rw [hc] at hc'
    cases hc'
    omega
  | returned buf => exact ht rfl
  | failed e => exact ht rfl

theorem Receiving.Inv.step {s : TunnelFrameStream} {x x' : Receiving} {ev : IoEvent (List UInt8)}
    (h : x.Inv s) (hs : (receiving s).step x ev x') : x'.Inv s := by
  obtain ⟨s', r', hstep, rfl⟩ := hs
  rcases h.stands with hat | ⟨⟨ex, he⟩, -⟩
  · rcases receiveStep_cases hat hstep with ⟨n, ht, hpos, hle, rfl, hat'⟩ | ⟨rfl, hat', -, hno⟩ |
      ⟨ex, rfl, rfl, hrun, hno, -⟩
    · obtain ⟨-, -, hroom⟩ := hat.room ht
      refine ⟨fun i hi => ?_, ?_, .inl hat'⟩
      · rw [← h.outside i hi]
        exact store_out (by omega)
      · have := h.reads
        simp only [List.length_append]
        split <;> omega
    · refine ⟨h.outside, ?_, .inl ?_⟩
      · simpa [hno] using h.reads
      · simpa [hno] using hat'
    · refine ⟨h.outside, ?_, .inr ⟨⟨ex, rfl⟩, ?_⟩⟩
      · simpa [hno] using h.reads
      · simpa [hno] using hat.running hrun
  · rw [he] at hstep
    cases hstep

theorem Receiving.Inv.of_run {s : TunnelFrameStream} {tr x} (h : (receiving s).Run tr x) : x.Inv s := by
  refine h.reachable.invariant (I := fun x => x.Inv s) ?_ fun _ _ _ _ hI hs => hI.step hs
  rintro x rfl
  exact ⟨fun _ _ => rfl, Nat.le_refl _, .inl (Receive.At.start s)⟩

/-- **Receiving is safe except for a short header.** For every run of a call
of `receive`, whatever the kernel gave it: what the call promises holds exactly
when the bytes given are no short header. -/
theorem receive_safe_iff {s : TunnelFrameStream} {tr : List (Machine.Transition Receiving (IoEvent (List UInt8)))}
    {x : Receiving} (h : (receiving s).Run tr x) : ReceiveSafe s x ↔ ¬ ShortHeader x.given := by
  have hinv := Receiving.Inv.of_run h
  constructor
  · intro hsafe hshort
    rcases hinv.stands with hat | ⟨-, hno⟩
    · obtain ⟨hge, t, hc, hlt⟩ := (shortHeader_iff hat.bytes).1 hshort
      have hs := hat.stands
      rw [receiveHeader_checked hge hc, receiveBody, if_neg (by omega), if_neg (by omega)] at hs
      have he : x.receive = .failed (.abort "numRead == totalSize") := by
        cases hr : x.receive <;> rw [hr] at hs <;> cases hs
        rfl
      obtain ⟨ex, hex⟩ := hsafe.failed _ he
      cases hex
    · exact hno hshort
  · intro hno
    rcases hinv.stands with hat | ⟨⟨ex, he⟩, -⟩
    · refine ⟨fun off n ht => ?_, hinv.outside, fun buf hr => ?_, fun e hr => ?_, fun off n ht => ?_⟩
      · obtain ⟨rfl, -, hroom⟩ := hat.room ht
        exact hroom
      · rw [hr] at hat
        obtain ⟨rfl, hc⟩ := hat.returned
        obtain ⟨-, hsize⟩ := (checkedSize_eq_some_iff (Nat.le_refl _)).1 hc
        exact ⟨hat.bytes, hsize.symm⟩
      · cases e with
        | throw ex => exact ⟨ex, rfl⟩
        | abort c =>
          rw [hr] at hat
          obtain ⟨hlen, t, hc, hlt⟩ := hat.aborted
          exact absurd ((shortHeader_iff hat.bytes).2 ⟨Nat.le_of_eq hlen.symm, t, hc, hlt⟩) hno
      · obtain ⟨-, hpos, hroom⟩ := hat.room ht
        have := hinv.reads
        refine ⟨hpos, by omega, fun ev hev => ?_⟩
        obtain ⟨⟨s', r'⟩, hstep⟩ := Option.isSome_iff_exists.1 (receiveStep_isSome (s := x.stream).2 hev)
        exact ⟨_, s', r', hstep, rfl⟩
    · have hend : receiveTarget x.receive = none := by rw [he]; rfl
      refine ⟨fun off n ht => ?_, hinv.outside, fun buf hr => ?_, fun e hr => ?_, fun off n ht => ?_⟩
      · rw [hend] at ht
        cases ht
      · rw [he] at hr
        cases hr
      · rw [he] at hr
        cases hr
        exact ⟨ex, rfl⟩
      · rw [hend] at ht
        cases ht

/-- The six bytes of a header that asks for none. -/
theorem receive_aborts : ∃ tr x, (receiving ⟨⟨"socket", 3⟩, fun _ => 0⟩).Run tr x ∧
    x.given = kMagic ++ [1, 0, 0] ∧ x.receive = .failed (.abort "numRead == totalSize") ∧
    ¬ ReceiveSafe ⟨⟨"socket", 3⟩, fun _ => 0⟩ x := by
  refine ⟨_, _, .step (l := .call (.ok (kMagic ++ [1, 0, 0]))) (.init rfl) ⟨_, _, rfl, rfl⟩, rfl, rfl, fun h => ?_⟩
  obtain ⟨ex, hex⟩ := h.failed _ rfl
  cases hex

/-- A frame with a datagram: a read that would have blocked, the header, and the
rest. -/
theorem receive_safe_iff_frame : ∃ f tr x, TunnelFrameBuffer.FromWriter f ∧ f.size = 163 ∧
    (receiving ⟨⟨"socket", 3⟩, fun _ => 0⟩).Run tr x ∧ x.given = f.bytes ∧
    (∃ buf, x.receive = .returned buf ∧ buf.bytes = f.bytes) ∧ ReceiveSafe ⟨⟨"socket", 3⟩, fun _ => 0⟩ x := by
  have hsz := sizes
  obtain ⟨f, hf, hcl, hsize⟩ := exists_fromWriter
  let s : TunnelFrameStream := ⟨⟨"socket", 3⟩, fun _ => 0⟩
  obtain ⟨m₁, m₂, hfirst, hsecond, hbytes⟩ := receive_whole s f (by omega) hcl.checkedSize
  have hrun := Machine.Run.step (M := receiving s) (l := .call (.error EAGAIN)) (.init rfl) ⟨_, _, rfl, rfl⟩
  have hrun : (receiving s).Run _ ⟨s, s.receive, [], 0⟩ := hrun.step (l := .poll (.ok 1)) ⟨_, _, rfl, rfl⟩
  have hrun := hrun.step (l := .call (.ok (f.bytes.take sizeofTunnelFrameHeaderInfo))) ⟨_, _, hfirst, rfl⟩
  have hrun := hrun.step (l := .call (.ok (f.bytes.drop sizeofTunnelFrameHeaderInfo))) ⟨_, _, hsecond, rfl⟩
  have hgiven : f.bytes.take sizeofTunnelFrameHeaderInfo ++ f.bytes.drop sizeofTunnelFrameHeaderInfo = f.bytes :=
    List.take_append_drop ..
  refine ⟨f, _, _, hf, hsize, hrun, hgiven, ⟨_, rfl, hbytes⟩, (receive_safe_iff hrun).2 fun hshort => ?_⟩
  have hload : load f.data 0 f.bytes.length = f.bytes := by rw [f.bytes_length]; rfl
  obtain ⟨-, t, ht, hlt⟩ := (shortHeader_iff hload).1 (hgiven ▸ hshort)
  rw [hcl.checkedSize] at ht
  cases ht
  omega

end RuralPipe
