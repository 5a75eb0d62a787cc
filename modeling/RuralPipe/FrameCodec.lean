/-
The frame codec: what `TunnelFrameReader` makes of a buffer, and that it reads
back what `TunnelFrameWriter` wrote.

A walk of the reader over a body that is a concatenation of items stops at
each item in turn (`after_items`), whatever the items. The round trip is that
walk over the items the writer wrote; `WriterOp` is a use of the writer
between its construction and `close`, header assignments in any order among
the appends.
-/
import RuralPipe.TunnelFrameFacts

namespace RuralPipe

open Bytes

namespace TunnelFrameReader

theorem next_snd (r : TunnelFrameReader) : r.next.2 = r.advance := by
  simp only [next]
  split <;> rfl

theorem after_succ (r : TunnelFrameReader) (k : Nat) : r.after (k + 1) = (r.after k).advance := next_snd _

@[simp] theorem advance_data (r : TunnelFrameReader) : r.advance.data = r.data := by
  unfold advance
  split
  · rfl
  · split <;> rfl

@[simp] theorem advance_stop (r : TunnelFrameReader) : r.advance.stop = r.stop := by
  unfold advance
  split
  · rfl
  · split <;> rfl

@[simp] theorem after_data (r : TunnelFrameReader) (k : Nat) : (r.after k).data = r.data := by
  induction k with
  | zero => rfl
  | succ k ih => rw [after_succ, advance_data, ih]

@[simp] theorem after_stop (r : TunnelFrameReader) (k : Nat) : (r.after k).stop = r.stop := by
  induction k with
  | zero => rfl
  | succ k ih => rw [after_succ, advance_stop, ih]

theorem next_fst (r : TunnelFrameReader) : r.next.1 =
    if r.advance.current > r.stop then .error (.throw ⟨.exception, "Badly formatted frame"⟩)
    else .ok (decide (r.advance.current < r.stop)) := by
  simp only [next, advance_stop]
  split <;> rfl

/-- A call returns true when it leaves the cursor before the end. -/
theorem call_true_iff {r : TunnelFrameReader} {k : Nat} :
    r.call k = .ok true ↔ (r.after (k + 1)).current < r.stop := by
  rw [call, next_fst, ← after_succ, after_stop]
  split
  · constructor
    · intro h; cases h
    · intro h; omega
  · simp

/-- A call returns false when it leaves the cursor at the end. -/
theorem call_false_iff {r : TunnelFrameReader} {k : Nat} :
    r.call k = .ok false ↔ (r.after (k + 1)).current = r.stop := by
  rw [call, next_fst, ← after_succ, after_stop]
  split
  · constructor
    · intro h; cases h
    · intro h; omega
  · simp only [Except.ok.injEq, decide_eq_false_iff_not]
    omega

theorem advance_start {r : TunnelFrameReader} (h : r.current = 0) :
    r.advance.current = sizeofTunnelFrameHeader := by
  unfold advance
  rw [if_pos h]

theorem advance_inside {r : TunnelFrameReader} (h₀ : r.current ≠ 0) (h : r.current < r.stop) :
    r.advance.current = r.current + (2 + r.size) := by
  unfold advance
  rw [if_neg h₀, if_pos h]
  rfl

theorem advance_end {r : TunnelFrameReader} (h₀ : r.current ≠ 0) (h : r.stop ≤ r.current) : r.advance = r := by
  unfold advance
  rw [if_neg h₀, if_neg (by omega)]

theorem new_eq_ok {buf : TunnelFrameBuffer} {r : TunnelFrameReader} (h : new buf = .ok r) :
    r = { data := buf.data, stop := (TunnelFrameHeader.cast buf.data).size, current := 0 } ∧
      r.stop ≤ kTunnelFrameMaxSize := by
  unfold new at h
  split at h
  · cases h
  · rename_i hdr hc
    cases h
    obtain ⟨rfl, hmax, -⟩ := check_eq_ok hc
    exact ⟨rfl, hmax⟩

/-! ## The walk over items -/

/-- With an item at the cursor, the reader sees that item. -/
theorem at_item {r : TunnelFrameReader} {f : List UInt8} (hf : items.Whole f)
    (h : load r.data r.current f.length = f) : 2 + r.size = f.length ∧ r.datagram = f.drop 2 := by
  have h₂ : 2 ≤ f.length := hf.1
  have hsep : load r.data r.current 2 = f.take 2 := by rw [← h, load_take, Nat.min_eq_left h₂]
  have hsize : 2 + r.size = f.length := by
    have := hf.2
    simp only [items, sizeofTunnelFrameDatagramSeparator, ← hsep] at this
    exact this
  refine ⟨hsize, ?_⟩
  have hlen : r.size = f.length - 2 := by omega
  rw [datagram, hlen, dataOffset]
  conv => rhs; rw [← h]
  exact (load_drop _ _ _ _).symm

section
variable {r : TunnelFrameReader} {fs : List (List UInt8)} (hw : ∀ f ∈ fs, items.Whole f) (h₀ : r.current = 0)
  (hbody : load r.data sizeofTunnelFrameHeader fs.flatten.length = fs.flatten)
  (hstop : r.stop = sizeofTunnelFrameHeader + fs.flatten.length)
include hbody

/-- The item after the first `k` lies at the cursor's `k`-th stop. -/
theorem item_at {k : Nat} {f : List UInt8} (hf : fs[k]? = some f) :
    load r.data (sizeofTunnelFrameHeader + (fs.take k).flatten.length) f.length = f := by
  rw [Delimited.flatten_at hf] at hbody
  exact load_mid hbody

include hw h₀ hstop

/-- The walk stops at each item in turn, and then at the end. -/
theorem after_items : ∀ {k : Nat}, k ≤ fs.length →
    (r.after (k + 1)).current = sizeofTunnelFrameHeader + (fs.take k).flatten.length
  | 0, _ => by
    rw [after_succ]
    exact advance_start h₀
  | k + 1, hk => by
    have ih := after_items (k := k) (by omega)
    have hsz := sizes
    obtain ⟨f, hf⟩ : ∃ f, fs[k]? = some f := ⟨fs[k], List.getElem?_eq_getElem (by omega)⟩
    have hmem : f ∈ fs := List.mem_of_getElem? hf
    have hitem := item_at hbody hf
    rw [← ih, ← after_data r (k + 1)] at hitem
    have htake : (fs.take (k + 1)).flatten = (fs.take k).flatten ++ f := by
      rw [List.take_add_one, hf]
      simp
    have hsplit := congrArg List.length (Delimited.flatten_at hf)
    have hpos := (hw f hmem).pos
    simp only [List.length_append] at hsplit
    rw [after_succ, advance_inside (by omega) (by rw [after_stop]; omega),
      (at_item (hw f hmem) hitem).1, ih, htake, List.length_append]
    omega

/-- Call `k` finds the `k`-th item. -/
theorem call_item {k : Nat} {f : List UInt8} (hf : fs[k]? = some f) :
    r.call k = .ok true ∧ 2 + (r.after (k + 1)).size = f.length ∧
      (r.after (k + 1)).datagram = f.drop 2 ∧
      (r.after (k + 1)).current + f.length ≤ r.stop := by
  have hk := (List.getElem?_eq_some_iff.1 hf).1
  have hmem : f ∈ fs := List.mem_of_getElem? hf
  have hcur := after_items hw h₀ hbody hstop (k := k) (by omega)
  have hitem := item_at hbody hf
  rw [← hcur, ← after_data r (k + 1)] at hitem
  obtain ⟨hsize, hdg⟩ := at_item (hw f hmem) hitem
  have hsplit := congrArg List.length (Delimited.flatten_at hf)
  simp only [List.length_append] at hsplit
  have hpos := (hw f hmem).pos
  exact ⟨call_true_iff.2 (by omega), hsize, hdg, by omega⟩

/-- Every call after the last item returns false. -/
theorem call_end : ∀ {k : Nat}, fs.length ≤ k → (r.after (k + 1)).current = r.stop ∧ r.call k = .ok false
  | k, hk => by
    have hsz := sizes
    have hcur : (r.after (k + 1)).current = r.stop := by
      rcases Nat.lt_or_ge fs.length k with hlt | hge
      · obtain ⟨j, rfl⟩ : ∃ j, k = j + 1 := ⟨k - 1, by omega⟩
        have ih := (call_end (k := j) (by omega)).1
        rw [after_succ, advance_end (by omega) (by rw [after_stop]; omega), ih]
      · have hlast := after_items hw h₀ hbody hstop (k := fs.length) (Nat.le_refl _)
        rw [List.take_length] at hlast
        rw [Nat.le_antisymm hge hk, hlast, hstop]
    exact ⟨hcur, call_false_iff.2 hcur⟩

end

end TunnelFrameReader

/-- A closed buffer is read back as the datagrams it was written with. -/
theorem TunnelFrameBuffer.Closed.read {buf : TunnelFrameBuffer} {ds} (h : buf.Closed ds) :
    ∃ r, TunnelFrameReader.new buf = .ok r ∧ r.data = buf.data ∧ r.stop = buf.size ∧
      (∀ k d, ds[k]? = some d →
        r.call k = .ok true ∧ (r.after (k + 1)).size = d.length ∧ (r.after (k + 1)).datagram = d) ∧
      ∀ k, ds.length ≤ k → r.call k = .ok false := by
  have hnew : TunnelFrameReader.new buf =
      .ok { data := buf.data, stop := (TunnelFrameHeader.cast buf.data).size, current := 0 } := by
    rw [TunnelFrameReader.new, h.check]
  have hw : ∀ f ∈ ds.map item, items.Whole f := by
    intro f hf
    obtain ⟨d, hd, rfl⟩ := List.mem_map.1 hf
    exact item_whole (h.small d hd)
  have hstop : (TunnelFrameHeader.cast buf.data).size = sizeofTunnelFrameHeader + (ds.map item).flatten.length :=
    h.size_field.trans h.size_eq
  let r : TunnelFrameReader := { data := buf.data, stop := (TunnelFrameHeader.cast buf.data).size, current := 0 }
  refine ⟨r, hnew, rfl, h.size_field, fun k d hd => ?_, fun k hk => ?_⟩
  · have hf : (ds.map item)[k]? = some (item d) := by rw [List.getElem?_map, hd]; rfl
    obtain ⟨ht, hs, hg, -⟩ := TunnelFrameReader.call_item (r := r) hw rfl h.body hstop hf
    rw [item_length] at hs
    exact ⟨ht, by omega, hg.trans (List.drop_left' (leBytes_length 2 _))⟩
  · exact (TunnelFrameReader.call_end (r := r) hw rfl h.body hstop (by simpa using hk)).2

/-! ## The round trip -/

/-- A use of the writer between its construction and `close`. -/
inductive WriterOp
  | sessionId (id : SessionId)
  | seqNum (n : UInt64)
  | append (d : List UInt8)

namespace WriterOp

def run (w : TunnelFrameWriter) : WriterOp → Except Failure TunnelFrameWriter
  | .sessionId id => .ok (w.setSessionId id)
  | .seqNum n => .ok (w.setSeqNum n)
  | .append d => w.append d

def runAll (w : TunnelFrameWriter) : List WriterOp → Except Failure TunnelFrameWriter
  | [] => .ok w
  | op :: ops =>
    match op.run w with
    | .error e => .error e
    | .ok w' => runAll w' ops

def appended : List WriterOp → List (List UInt8)
  | [] => []
  | .append d :: ops => d :: appended ops
  | _ :: ops => appended ops

/-- The session id the operations leave in a header that had `id`. -/
def lastSessionId (id : SessionId) : List WriterOp → SessionId
  | [] => id
  | .sessionId id' :: ops => lastSessionId id' ops
  | _ :: ops => lastSessionId id ops

/-- The sequence number the operations leave in a header that had `n`. -/
def lastSeqNum (n : UInt64) : List WriterOp → UInt64
  | [] => n
  | .seqNum n' :: ops => lastSeqNum n' ops
  | _ :: ops => lastSeqNum n ops

end WriterOp

/-- Operations whose datagrams fit all succeed. They write inside the buffer
only, and the header's id and number are the last ones set. -/
theorem WriterOp.runAll_ok : ∀ (ops : List WriterOp) {w : TunnelFrameWriter} {ds}, w.Holds ds →
    w.current + (body (appended ops)).length ≤ w.stop →
    ∃ w', runAll w ops = .ok w' ∧ w'.Holds (ds ++ appended ops) ∧
      (∀ i, w.stop ≤ i → w'.data i = w.data i) ∧
      (TunnelFrameHeader.cast w'.data).sessionId = lastSessionId (TunnelFrameHeader.cast w.data).sessionId ops ∧
      (TunnelFrameHeader.cast w'.data).seqNum = lastSeqNum (TunnelFrameHeader.cast w.data).seqNum ops
  | [], w, ds, h, _ => ⟨w, rfl, by simpa [appended] using h, fun _ _ => rfl, rfl, rfl⟩
  | .sessionId id :: ops, w, ds, h, hfit => by
    obtain ⟨w', hr, hh, hout, hid, hn⟩ := runAll_ok ops (h.setSessionId id) hfit
    have hsz := sizes
    have hl := id.length_eq
    have hmin := w.stop_min
    refine ⟨w', hr, hh, fun i hi => ?_, ?_, ?_⟩
    · rw [hout i hi]
      exact store_out (by omega)
    · simpa [TunnelFrameWriter.setSessionId, lastSessionId] using hid
    · simpa [TunnelFrameWriter.setSessionId, lastSeqNum] using hn
  | .seqNum n :: ops, w, ds, h, hfit => by
    obtain ⟨w', hr, hh, hout, hid, hn⟩ := runAll_ok ops (h.setSeqNum n) hfit
    have hsz := sizes
    have hmin := w.stop_min
    refine ⟨w', hr, hh, fun i hi => ?_, ?_, ?_⟩
    · rw [hout i hi]
      exact store_out (by rw [leBytes_length]; omega)
    · simpa [TunnelFrameWriter.setSeqNum, lastSessionId] using hid
    · simpa [TunnelFrameWriter.setSeqNum, lastSeqNum] using hn
  | .append d :: ops, w, ds, h, hfit => by
    have hsz := sizes
    have hle := w.header_le
    rw [appended, ← List.singleton_append, body_append, body_singleton, List.length_append, item_length] at hfit
    obtain ⟨w₁, ha, h₁, hstop, hdata⟩ := h.append (d := d) (by omega)
    have hcur : w₁.current = w.current + (2 + d.length) := by
      have := h₁.current
      rw [body_append, body_singleton, List.length_append, item_length] at this
      have := h.current
      omega
    obtain ⟨w', hr, hh, hout, hid, hn⟩ := runAll_ok ops h₁ (by omega)
    have hc : TunnelFrameHeader.cast w₁.data = TunnelFrameHeader.cast w.data :=
      cast_congr fun i hi => hdata i (.inl (by omega))
    refine ⟨w', by rw [runAll, run, ha]; exact hr, by simpa [appended] using hh, fun i hi => ?_, ?_, ?_⟩
    · rw [hout i (by omega), hdata i (.inr (by omega))]
    · rw [hid, hc]; rfl
    · rw [hn, hc]; rfl

/-- Whatever operations succeed keep the writer's invariant. -/
theorem WriterOp.runAll_holds : ∀ (ops : List WriterOp) {w w' : TunnelFrameWriter} {ds}, w.Holds ds →
    runAll w ops = .ok w' → w'.Holds (ds ++ appended ops)
  | [], w, w', ds, h, hr => by
    cases hr
    simpa [appended] using h
  | .sessionId id :: ops, w, w', ds, h, hr => runAll_holds ops (h.setSessionId id) hr
  | .seqNum n :: ops, w, w', ds, h, hr => runAll_holds ops (h.setSeqNum n) hr
  | .append d :: ops, w, w', ds, h, hr => by
    cases ha : w.append d with
    | error e =>
      rw [runAll, run, ha] at hr
      cases hr
    | ok w₁ =>
      rw [runAll, run, ha] at hr
      obtain ⟨w₂, hw₂, h₂, -⟩ := h.append (TunnelFrameWriter.append_eq_ok ha)
      rw [ha] at hw₂
      cases hw₂
      have := runAll_holds ops h₂ hr
      rwa [List.append_assoc] at this

/-- `setSequenceNumberOnClosedBuffer`, or not. -/
def patched (buf : TunnelFrameBuffer) : Option UInt64 → TunnelFrameBuffer
  | none => buf
  | some n => TunnelFrameWriter.setSequenceNumberOnClosedBuffer buf n

theorem patched_closed {buf : TunnelFrameBuffer} {ds} (h : buf.Closed ds) (n : Option UInt64) :
    (patched buf n).Closed ds := by
  cases n with
  | none => exact h
  | some n => exact h.setSequenceNumber n

/-- A buffer some `TunnelFrameWriter` closed. -/
def TunnelFrameBuffer.FromWriter (buf : TunnelFrameBuffer) : Prop :=
  ∃ room w ops w' patch, TunnelFrameWriter.new room = .ok w ∧ WriterOp.runAll w ops = .ok w' ∧
    buf = patched w'.close.buffer patch

theorem TunnelFrameBuffer.FromWriter.closed {buf : TunnelFrameBuffer} (h : buf.FromWriter) :
    ∃ ds, buf.Closed ds := by
  obtain ⟨room, w, ops, w', patch, hnew, hrun, rfl⟩ := h
  exact ⟨_, patched_closed (WriterOp.runAll_holds ops (TunnelFrameWriter.new_eq_ok hnew) hrun).close patch⟩

/-- A frame of one datagram. -/
theorem fromWriter_of_fits {d : List UInt8} (hfit : 160 + d.length ≤ kTunnelFrameMaxSize) :
    ∃ buf : TunnelFrameBuffer, buf.FromWriter ∧ buf.Closed [d] ∧ buf.size = 160 + d.length := by
  obtain ⟨w, hnew, hw, hstop, -⟩ := TunnelFrameWriter.new_holds ⟨fun _ => 0xAA, kTunnelFrameMaxSize⟩
    (show kTunnelFrameMinSize ≤ kTunnelFrameMaxSize by decide) (Nat.le_refl _)
  have hbody : (body [d]).length = 2 + d.length := by simp [body]
  obtain ⟨w', hrun, hh, -⟩ := WriterOp.runAll_ok [.append d] hw (by
    rw [hw.current, hstop]
    show sizeofTunnelFrameHeader + 0 + (body [d]).length ≤ kTunnelFrameMaxSize
    rw [hbody, sizeofTunnelFrameHeader]
    omega)
  refine ⟨_, ⟨_, w, _, w', none, hnew, hrun, rfl⟩, hh.close, hh.close.size_eq.trans ?_⟩
  show sizeofTunnelFrameHeader + (body [d]).length = _
  rw [hbody, sizeofTunnelFrameHeader]
  omega

theorem exists_fromWriter : ∃ buf : TunnelFrameBuffer, buf.FromWriter ∧ buf.Closed [[1, 2, 3]] ∧ buf.size = 163 :=
  fromWriter_of_fits (by decide)

/-- **The frame codec round trip.** Over a buffer the writer's constructor
accepts, any operations whose datagrams fit succeed; closing, and then perhaps
patching the sequence number, leaves a frame of exactly the header and the
items, nothing past the buffer is written, and a reader over the frame yields
exactly the datagrams appended, in order, then false on every later call. The
header holds the id and the number set last and no flags. -/
theorem codec_roundTrip {buf : TunnelFrameBuffer} (hmin : kTunnelFrameMinSize ≤ buf.size)
    (hmax : buf.size ≤ kTunnelFrameMaxSize) (id : SessionId) (n : UInt64) {ops : List WriterOp}
    (hfit : ((WriterOp.appended ops).map fun d => 2 + d.length).sum ≤ buf.size - sizeofTunnelFrameHeader)
    (patch : Option UInt64) :
    ∃ w w', TunnelFrameWriter.new buf = .ok w ∧
      WriterOp.runAll ((w.setSessionId id).setSeqNum n) ops = .ok w' ∧
      let closed := patched w'.close.buffer patch
      closed.size = sizeofTunnelFrameHeader + ((WriterOp.appended ops).map fun d => 2 + d.length).sum ∧
      (∀ i, buf.size ≤ i → closed.data i = buf.data i) ∧
      ∃ r, TunnelFrameReader.new closed = .ok r ∧
        (∀ k d, (WriterOp.appended ops)[k]? = some d →
          r.call k = .ok true ∧ (r.after (k + 1)).size = d.length ∧ (r.after (k + 1)).datagram = d) ∧
        (∀ k, (WriterOp.appended ops).length ≤ k → r.call k = .ok false) ∧
        r.header.sessionId = WriterOp.lastSessionId id ops ∧
        r.header.seqNum = patch.getD (WriterOp.lastSeqNum n ops) ∧
        r.header.flags = 0 := by
  have hsz := sizes
  obtain ⟨w, hnew, hw, hstop, hdata⟩ := TunnelFrameWriter.new_holds buf hmin hmax
  have hcur : w.current = sizeofTunnelFrameHeader := by simpa using hw.current
  obtain ⟨w', hrun, hh, hout, hid, hn⟩ := WriterOp.runAll_ok ops ((hw.setSessionId id).setSeqNum n)
    (by rw [body_length]; simp only [TunnelFrameWriter.setSeqNum, TunnelFrameWriter.setSessionId]; omega)
  rw [List.nil_append] at hh
  have hsession : (TunnelFrameHeader.cast ((w.setSessionId id).setSeqNum n).data).sessionId = id := by
    simp [TunnelFrameWriter.setSeqNum, TunnelFrameWriter.setSessionId]
  have hseq : (TunnelFrameHeader.cast ((w.setSessionId id).setSeqNum n).data).seqNum = n := by
    simp [TunnelFrameWriter.setSeqNum]
  rw [hsession] at hid
  rw [hseq] at hn
  -- Nothing past the buffer: the header's fields lie before its end, and the appends stay inside it.
  have hpast : ∀ i, buf.size ≤ i → w'.close.data i = buf.data i := by
    intro i hi
    have hl := id.length_eq
    simp only [TunnelFrameWriter.close]
    rw [store_out (by rw [leBytes_length]; omega), hout i (by exact hstop ▸ hi)]
    simp only [TunnelFrameWriter.setSeqNum, TunnelFrameWriter.setSessionId]
    rw [store_out (by rw [leBytes_length]; omega), store_out (by omega), hdata i (by omega)]
  have hclosed := hh.close
  have hcast : TunnelFrameHeader.cast w'.close.data =
      { TunnelFrameHeader.cast w'.data with size := w'.current % 65536 } := by
    simp [TunnelFrameWriter.close]
  refine ⟨w, w', hnew, hrun, ?_⟩
  cases patch with
  | none =>
    obtain ⟨r, hr, hdr, hst, hread, hend⟩ := hclosed.read
    refine ⟨by rw [← body_length]; exact hclosed.size_eq, hpast, r, hr, hread, hend, ?_⟩
    have hh' : r.header = TunnelFrameHeader.cast w'.close.data := by rw [TunnelFrameReader.header, hdr]; rfl
    rw [hh', hcast]
    exact ⟨hid, hn, hh.header.flags⟩
  | some n' =>
    obtain ⟨r, hr, hdr, hst, hread, hend⟩ := (hclosed.setSequenceNumber n').read
    refine ⟨by rw [← body_length]; exact hclosed.size_eq, fun i hi => ?_, r, hr, hread, hend, ?_⟩
    · simp only [patched, TunnelFrameWriter.setSequenceNumberOnClosedBuffer, TunnelFrameWriter.buffer]
      rw [store_out (by rw [leBytes_length]; omega), hpast i hi]
    have hh' : r.header = { TunnelFrameHeader.cast w'.close.data with seqNum := n' } := by
      rw [TunnelFrameReader.header, hdr]
      simp [TunnelFrameWriter.setSequenceNumberOnClosedBuffer, TunnelFrameWriter.buffer]
    rw [hh', hcast]
    exact ⟨hid, rfl, hh.header.flags⟩

/-- Twelve bytes of room, filled to the last with an empty datagram in the middle. -/
theorem codec_roundTrip_full : ∃ closed r, closed.size = 170 ∧ TunnelFrameReader.new closed = .ok r ∧
    (r.after 1).datagram = [1, 2, 3] ∧ (r.after 2).datagram = [] ∧ (r.after 3).datagram = [4, 5, 6] ∧
    r.call 2 = .ok true ∧ r.call 3 = .ok false ∧ r.header.seqNum = 7 := by
  obtain ⟨w, w', -, -, hsize, -, r, hr, hread, hend, -, hseq, -⟩ :=
    @codec_roundTrip ⟨fun _ => 0xAA, 170⟩ (by decide) (by decide) ⟨List.replicate 16 5, rfl⟩ 0
      [.append [1, 2, 3], .append [], .seqNum 3, .append [4, 5, 6]] (by decide) (some 7)
  exact ⟨_, r, hsize, hr, (hread 0 [1, 2, 3] rfl).2.2, (hread 1 [] rfl).2.2, (hread 2 [4, 5, 6] rfl).2.2,
    (hread 2 [4, 5, 6] rfl).1, hend 3 (by decide), hseq⟩

end RuralPipe
