/-
Facts about tunnel frames: what the writer leaves in its buffer, what the
reader makes of it, and the grammar both are measured against.

A frame's body is a concatenation of items, a 16-bit length and that many
bytes each (`items`, a `Delimited` format), and frames on a stream are
delimited by their header (`frames`, another). `Holds` is the writer's
invariant: its header is set, and its body is the items of the datagrams
appended so far. A closed buffer (`Closed`) passes the check, is a whole
frame, and is read back as the datagrams written (`codec_roundTrip`).
-/
import Mathlib.Algebra.GroupWithZero.Nat
import RuralPipe.Delimited
import RuralPipe.TunnelFrame

namespace RuralPipe

open Bytes

/-- A datagram's item: its separator and its bytes. -/
def item (d : List UInt8) : List UInt8 := leBytes 2 d.length ++ d

/-- The body of a frame that holds the datagrams `ds`. -/
def body (ds : List (List UInt8)) : List UInt8 := (ds.map item).flatten

/-- Items delimit themselves by their separator. -/
def items : Delimited UInt8 where
  hdr := sizeofTunnelFrameDatagramSeparator
  size h := sizeofTunnelFrameDatagramSeparator + ofLe h
  hdr_pos := by decide

/-- Frames delimit themselves by `desc.size`. -/
def frames : Delimited UInt8 where
  hdr := sizeofTunnelFrameHeaderInfo
  size h := ofLe ((h.drop 4).take 2)
  hdr_pos := by decide

/-- The datagrams of a body, for as long as there is a whole item. -/
def datagrams (bs : List UInt8) : List (List UInt8) :=
  (items.chunks bs).1.map (·.drop sizeofTunnelFrameDatagramSeparator)

/-- The sizes, for arithmetic. -/
theorem sizes : sizeofTunnelFrameHeaderInfo = 6 ∧ sizeofTunnelFrameHeader = 158 ∧
    sizeofTunnelFrameDatagramSeparator = 2 ∧ kTunnelFrameMinSize = 160 ∧ kTunnelFrameMaxSize = 4096 := by decide

@[simp] theorem item_length (d : List UInt8) : (item d).length = 2 + d.length := by simp [item]

@[simp] theorem body_nil : body [] = [] := rfl

theorem body_append (ds es : List (List UInt8)) : body (ds ++ es) = body ds ++ body es := by simp [body]

@[simp] theorem body_singleton (d : List UInt8) : body [d] = item d := by simp [body]

/-- A body's length is the sum the writer counts. -/
theorem body_length (ds : List (List UInt8)) : (body ds).length = (ds.map fun d => 2 + d.length).sum := by
  induction ds with
  | nil => rfl
  | cons d ds ih =>
    rw [← List.singleton_append, body_append, List.length_append, ih]
    simp

theorem length_le_body {ds : List (List UInt8)} {d : List UInt8} (h : d ∈ ds) :
    2 + d.length ≤ (body ds).length := by
  obtain ⟨l, r, rfl⟩ := List.append_of_mem h
  rw [body_length]
  simp only [List.map_append, List.map_cons, List.sum_append, List.sum_cons]
  omega

theorem item_whole {d : List UInt8} (h : d.length < 65536) : items.Whole (item d) := by
  refine ⟨by simp [items, sizeofTunnelFrameDatagramSeparator], ?_⟩
  have htake : (item d).take items.hdr = leBytes 2 d.length := List.take_left' (leBytes_length 2 _)
  rw [htake, item_length]
  simp only [items, sizeofTunnelFrameDatagramSeparator]
  rw [ofLe_leBytes_of_lt (by omega)]

/-- A body splits into the datagrams it was made of. -/
theorem datagrams_body {ds : List (List UInt8)} (h : ∀ d ∈ ds, d.length < 65536) :
    datagrams (body ds) = ds := by
  have hw : ∀ f ∈ ds.map item, items.Whole f := by
    intro f hf
    obtain ⟨d, hd, rfl⟩ := List.mem_map.1 hf
    exact item_whole (h d hd)
  have hc := Delimited.chunks_flatten hw []
  rw [List.append_nil] at hc
  simp only [datagrams, body, hc, Delimited.chunks_nil, List.append_nil, List.map_map]
  refine (List.map_congr_left fun d _ => ?_).trans (List.map_id ds)
  exact List.drop_left' (leBytes_length 2 _)

/-! ## The header -/

/-- The header's fields lie in the first 30 bytes. -/
theorem cast_congr {m m' : Mem} (h : ∀ i, i < 30 → m i = m' i) :
    TunnelFrameHeader.cast m = TunnelFrameHeader.cast m' := by
  simp only [TunnelFrameHeader.cast, TunnelFrameHeader.mk.injEq, SessionId.mk.injEq]
  rw [h 3 (by omega), @load_congr m m' 0 3 fun i _ hi => h i (by omega),
    @load_congr m m' 4 2 fun i _ hi => h i (by omega),
    @load_congr m m' 6 16 fun i _ hi => h i (by omega),
    @load_congr m m' 22 8 fun i _ hi => h i (by omega)]
  exact ⟨rfl, rfl, rfl, rfl, rfl, rfl⟩

theorem cast_size_congr {m m' : Mem} (h : ∀ i, i < 6 → m i = m' i) :
    (TunnelFrameHeader.cast m).size = (TunnelFrameHeader.cast m').size :=
  congrArg ofLe (load_congr fun i _ hi => h i (by omega))

@[simp] theorem cast_setSeqNum (m : Mem) (n : UInt64) :
    TunnelFrameHeader.cast (store m 22 (leBytes 8 n.toNat)) = { TunnelFrameHeader.cast m with seqNum := n } := by
  have hn : ofLe (load (store m 22 (leBytes 8 n.toNat)) 22 8) = n.toNat := by
    have := load_store_self m 22 (leBytes 8 n.toNat)
    rw [leBytes_length] at this
    rw [this, ofLe_leBytes_of_lt n.toNat_lt]
  have h3 : store m 22 (leBytes 8 n.toNat) 3 = m 3 := store_out (by omega)
  simp only [TunnelFrameHeader.cast, TunnelFrameHeader.mk.injEq, SessionId.mk.injEq, hn, h3,
    UInt64.ofNat_toNat, and_true, true_and]
  refine ⟨load_store_disjoint (by omega), ?_, load_store_disjoint (by omega)⟩
  rw [load_store_disjoint (by omega)]

@[simp] theorem cast_setSessionId (m : Mem) (id : SessionId) :
    TunnelFrameHeader.cast (store m 6 id.data) = { TunnelFrameHeader.cast m with sessionId := id } := by
  have hid : load (store m 6 id.data) 6 16 = id.data := by
    have := load_store_self m 6 id.data
    rwa [id.length_eq] at this
  have hl := id.length_eq
  have h3 : store m 6 id.data 3 = m 3 := store_out (by omega)
  simp only [TunnelFrameHeader.cast, TunnelFrameHeader.mk.injEq, h3, true_and, hid]
  refine ⟨load_store_disjoint (by omega), by rw [load_store_disjoint (by omega)], ?_⟩
  rw [load_store_disjoint (by omega)]

/-- Closing sets the size, truncated to 16 bits. -/
@[simp] theorem cast_setSize (m : Mem) (n : Nat) :
    TunnelFrameHeader.cast (store m 4 (leBytes 2 n)) = { TunnelFrameHeader.cast m with size := n % 65536 } := by
  have hn : ofLe (load (store m 4 (leBytes 2 n)) 4 2) = n % 65536 := by
    have := load_store_self m 4 (leBytes 2 n)
    rw [leBytes_length] at this
    rw [this, ofLe_leBytes]
    rfl
  have h3 : store m 4 (leBytes 2 n) 3 = m 3 := store_out (by omega)
  simp only [TunnelFrameHeader.cast, TunnelFrameHeader.mk.injEq, SessionId.mk.injEq, hn, h3, true_and]
  refine ⟨load_store_disjoint (by omega), load_store_disjoint (by rw [leBytes_length]; omega), ?_⟩
  rw [load_store_disjoint (by rw [leBytes_length]; omega)]

theorem cast_initHeader (m : Mem) :
    (TunnelFrameHeader.cast (TunnelFrameWriter.initHeader m)).magic = kMagic ∧
    (TunnelFrameHeader.cast (TunnelFrameWriter.initHeader m)).version = kVersion ∧
    (TunnelFrameHeader.cast (TunnelFrameWriter.initHeader m)).flags = 0 := by
  refine ⟨?_, ?_, ?_⟩
  · simp only [TunnelFrameWriter.initHeader, cast_setSize]
    simp only [TunnelFrameHeader.cast]
    rw [load_store_disjoint (by simp)]
    exact load_store_self m 0 kMagic
  all_goals
    simp only [TunnelFrameWriter.initHeader, cast_setSize]
    simp only [TunnelFrameHeader.cast]
    rw [show (3 : Nat) = 3 + 0 from rfl, store_in (by simp)]
    rfl

/-- The fields the check looks at, as the writer sets them. -/
structure TunnelFrameHeader.Written (h : TunnelFrameHeader) : Prop where
  magic : h.magic = kMagic
  version : h.version = kVersion
  flags : h.flags = 0

/-- What the check lets through is the header, with a first magic byte, a
version and a size it accepts. -/
theorem check_eq_ok_iff {buf : TunnelFrameBuffer} {hdr : TunnelFrameHeader} :
    TunnelFrameHeaderInfo.check buf = .ok hdr ↔
      hdr = TunnelFrameHeader.cast buf.data ∧ sizeofTunnelFrameHeaderInfo ≤ buf.size ∧
        memcmp hdr.magic kMagic memcmpSize = false ∧ hdr.version = kVersion ∧ hdr.size ≤ kTunnelFrameMaxSize := by
  simp only [TunnelFrameHeaderInfo.check]
  constructor
  · intro h
    split at h
    · cases h
    split at h
    · cases h
    split at h
    · cases h
    split at h
    · cases h
    · cases h
      exact ⟨rfl, by omega, by simp_all, by simp_all, by omega⟩
  · rintro ⟨rfl, h₁, h₂, h₃, h₄⟩
    rw [if_neg (by omega), if_neg (by simp [h₂]), if_neg (by simp [h₃]), if_neg (by omega)]

theorem check_ok {buf : TunnelFrameBuffer} (hs : sizeofTunnelFrameHeaderInfo ≤ buf.size)
    (hw : (TunnelFrameHeader.cast buf.data).Written)
    (hmax : (TunnelFrameHeader.cast buf.data).size ≤ kTunnelFrameMaxSize) :
    TunnelFrameHeaderInfo.check buf = .ok (TunnelFrameHeader.cast buf.data) :=
  check_eq_ok_iff.2 ⟨rfl, hs, by rw [hw.magic]; decide, hw.version, hmax⟩

theorem check_eq_ok {buf : TunnelFrameBuffer} {hdr : TunnelFrameHeader}
    (h : TunnelFrameHeaderInfo.check buf = .ok hdr) :
    hdr = TunnelFrameHeader.cast buf.data ∧ hdr.size ≤ kTunnelFrameMaxSize ∧
      sizeofTunnelFrameHeaderInfo ≤ buf.size := by
  obtain ⟨rfl, hs, -, -, hmax⟩ := check_eq_ok_iff.1 h
  exact ⟨rfl, hmax, hs⟩

/-- The check looks at the first six bytes only. -/
theorem check_congr {m m' : Mem} {n n' : Nat} (h : ∀ i, i < 6 → m i = m' i)
    (hn : sizeofTunnelFrameHeaderInfo ≤ n) (hn' : sizeofTunnelFrameHeaderInfo ≤ n') :
    TunnelFrameHeaderInfo.check ⟨m, n⟩ = .ok (.cast m) ↔ TunnelFrameHeaderInfo.check ⟨m', n'⟩ = .ok (.cast m') := by
  have hmagic : (TunnelFrameHeader.cast m).magic = (TunnelFrameHeader.cast m').magic :=
    load_congr fun i _ hi => h i (by omega)
  have hversion : (TunnelFrameHeader.cast m).version = (TunnelFrameHeader.cast m').version := by
    simp only [TunnelFrameHeader.cast, h 3 (by omega)]
  rw [check_eq_ok_iff, check_eq_ok_iff, hmagic, hversion, cast_size_congr h]
  simp [hn, hn']

/-! ## The writer -/

/-- The writer's invariant: the header is set, and the body so far is that of
the datagrams `ds`. -/
structure TunnelFrameWriter.Holds (w : TunnelFrameWriter) (ds : List (List UInt8)) : Prop where
  header : (TunnelFrameHeader.cast w.data).Written
  current : w.current = sizeofTunnelFrameHeader + (body ds).length
  body : load w.data sizeofTunnelFrameHeader (body ds).length = body ds

/-- A buffer as `close` leaves it: a frame of the datagrams `ds`. -/
structure TunnelFrameBuffer.Closed (buf : TunnelFrameBuffer) (ds : List (List UInt8)) : Prop where
  header : (TunnelFrameHeader.cast buf.data).Written
  size_eq : buf.size = sizeofTunnelFrameHeader + (body ds).length
  size_max : buf.size ≤ kTunnelFrameMaxSize
  size_field : (TunnelFrameHeader.cast buf.data).size = buf.size
  body : load buf.data sizeofTunnelFrameHeader (body ds).length = body ds

namespace TunnelFrameWriter

theorem new_holds (buf : TunnelFrameBuffer) (hmin : kTunnelFrameMinSize ≤ buf.size)
    (hmax : buf.size ≤ kTunnelFrameMaxSize) :
    ∃ w, new buf = .ok w ∧ w.Holds [] ∧ w.stop = buf.size ∧ ∀ i, 6 ≤ i → w.data i = buf.data i := by
  obtain ⟨hm, hv, hf⟩ := cast_initHeader buf.data
  rw [new, dif_pos hmin, dif_pos hmax]
  refine ⟨_, rfl, ⟨⟨hm, hv, hf⟩, rfl, rfl⟩, rfl, fun i hi => ?_⟩
  simp only [initHeader]
  rw [store_out (by simp; omega), store_out (by simp; omega), store_out (by simp [kMagic]; omega)]

theorem new_eq_ok {buf : TunnelFrameBuffer} {w : TunnelFrameWriter} (h : new buf = .ok w) : w.Holds [] := by
  unfold new at h
  split at h
  · split at h
    · rename_i hmin hmax
      obtain ⟨w', hw, hh, -⟩ := new_holds buf hmin hmax
      rw [new, dif_pos hmin, dif_pos hmax] at hw
      rw [h] at hw
      cases hw
      exact hh
    · cases h
  · cases h

theorem Holds.setSessionId {w : TunnelFrameWriter} {ds} (h : w.Holds ds) (id : SessionId) :
    (w.setSessionId id).Holds ds := by
  refine ⟨?_, h.current, ?_⟩
  · simp only [TunnelFrameWriter.setSessionId, cast_setSessionId]
    exact ⟨h.header.magic, h.header.version, h.header.flags⟩
  · have hl := id.length_eq
    simp only [TunnelFrameWriter.setSessionId]
    rw [load_store_disjoint (by simp only [sizeofTunnelFrameHeader]; omega), h.body]

theorem Holds.setSeqNum {w : TunnelFrameWriter} {ds} (h : w.Holds ds) (n : UInt64) :
    (w.setSeqNum n).Holds ds := by
  refine ⟨?_, h.current, ?_⟩
  · simp only [TunnelFrameWriter.setSeqNum, cast_setSeqNum]
    exact ⟨h.header.magic, h.header.version, h.header.flags⟩
  · simp only [TunnelFrameWriter.setSeqNum]
    rw [load_store_disjoint (by rw [leBytes_length]; simp only [sizeofTunnelFrameHeader]; omega), h.body]

/-- Storing a datagram and then its separator stores its item. -/
theorem load_item (m : Mem) (off : Nat) (d : List UInt8) :
    load (store (store m (off + 2) d) off (leBytes 2 d.length)) off (2 + d.length) = item d := by
  rw [load_add]
  have hsep := load_store_self (store m (off + 2) d) off (leBytes 2 d.length)
  rw [leBytes_length] at hsep
  rw [hsep, load_store_disjoint (by rw [leBytes_length]; omega), load_store_self]
  rfl

theorem append_ok {w : TunnelFrameWriter} {d : List UInt8} (hfit : w.current + (2 + d.length) ≤ w.stop) :
    ∃ w', w.append d = .ok w' ∧
      w'.data = store (store w.data (w.current + 2) d) w.current (leBytes 2 d.length) ∧
      w'.current = w.current + (2 + d.length) ∧ w'.stop = w.stop := by
  unfold TunnelFrameWriter.append onDatagramWritten
  split
  case isTrue => exact ⟨_, rfl, rfl, rfl, rfl⟩
  case isFalse hno => exact absurd hfit hno

/-- A datagram that fits is appended, and nothing but its item is written. -/
theorem Holds.append {w : TunnelFrameWriter} {ds} (h : w.Holds ds) {d : List UInt8}
    (hfit : w.current + (2 + d.length) ≤ w.stop) :
    ∃ w', w.append d = .ok w' ∧ w'.Holds (ds ++ [d]) ∧ w'.stop = w.stop ∧
      ∀ i, i < w.current ∨ w.current + (2 + d.length) ≤ i → w'.data i = w.data i := by
  obtain ⟨w', hw, hdata, hcur', hstop⟩ := append_ok hfit
  have hout : ∀ i, i < w.current ∨ w.current + (2 + d.length) ≤ i → w'.data i = w.data i := by
    intro i hi
    rw [hdata, store_out (by rw [leBytes_length]; omega), store_out (by omega)]
  have hsz := sizes
  have hle := w.header_le
  have hcur := h.current
  refine ⟨w', hw, ⟨?_, ?_, ?_⟩, hstop, hout⟩
  · have hc := cast_congr fun i hi => hout i (.inl (by omega))
    exact hc ▸ h.header
  · rw [body_append, body_singleton, List.length_append, item_length]
    omega
  · rw [body_append, body_singleton, List.length_append, item_length, load_add]
    congr 1
    · refine (load_congr fun i _ hi => ?_).trans h.body
      exact hout i (.inl (by omega))
    · rw [← hcur, hdata]
      exact load_item w.data w.current d

theorem append_eq_ok {w w' : TunnelFrameWriter} {d : List UInt8} (h : w.append d = .ok w') :
    w.current + (2 + d.length) ≤ w.stop := by
  unfold TunnelFrameWriter.append onDatagramWritten at h
  split at h
  · assumption
  · cases h

theorem Holds.close {w : TunnelFrameWriter} {ds} (h : w.Holds ds) : w.close.buffer.Closed ds := by
  have hcur := h.current
  have hle := w.current_le
  have hmax := w.stop_max
  simp only [sizeofTunnelFrameHeader, kTunnelFrameMaxSize] at hcur hmax
  have hsize : (TunnelFrameHeader.cast w.close.data).size = w.current := by
    simp only [TunnelFrameWriter.close, cast_setSize]
    exact Nat.mod_eq_of_lt (by omega)
  have hb : w.close.buffer.size = w.current := hsize
  refine ⟨?_, ?_, ?_, ?_, ?_⟩
  · simp only [buffer, TunnelFrameWriter.close, cast_setSize]
    exact ⟨h.header.magic, h.header.version, h.header.flags⟩
  · rw [hb, h.current]
  · rw [hb]; simp only [kTunnelFrameMaxSize]; omega
  · rw [hb]; exact hsize
  · simp only [buffer, TunnelFrameWriter.close]
    rw [load_store_disjoint (by rw [leBytes_length]; simp only [sizeofTunnelFrameHeader]; omega), h.body]

end TunnelFrameWriter

namespace TunnelFrameBuffer

theorem bytes_length (buf : TunnelFrameBuffer) : buf.bytes.length = buf.size := by simp [bytes]

theorem Closed.setSequenceNumber {buf : TunnelFrameBuffer} {ds} (h : buf.Closed ds) (n : UInt64) :
    (TunnelFrameWriter.setSequenceNumberOnClosedBuffer buf n).Closed ds := by
  refine ⟨?_, h.size_eq, h.size_max, ?_, ?_⟩
  · simp only [TunnelFrameWriter.setSequenceNumberOnClosedBuffer, cast_setSeqNum]
    exact ⟨h.header.magic, h.header.version, h.header.flags⟩
  · simp only [TunnelFrameWriter.setSequenceNumberOnClosedBuffer, cast_setSeqNum]
    exact h.size_field
  · simp only [TunnelFrameWriter.setSequenceNumberOnClosedBuffer]
    rw [load_store_disjoint (by rw [leBytes_length]; simp only [sizeofTunnelFrameHeader]; omega), h.body]

theorem Closed.header_le {buf : TunnelFrameBuffer} {ds} (h : buf.Closed ds) :
    sizeofTunnelFrameHeader ≤ buf.size := by
  rw [h.size_eq]; exact Nat.le_add_right _ _

/-- A closed buffer's bytes are all that its being closed depends on. -/
theorem Closed.congr {buf buf' : TunnelFrameBuffer} {ds} (h : buf.Closed ds) (hs : buf'.size = buf.size)
    (hb : ∀ i, i < buf.size → buf'.data i = buf.data i) : buf'.Closed ds := by
  have hsz := sizes
  have hle := h.header_le
  have heq := h.size_eq
  have hc : TunnelFrameHeader.cast buf'.data = TunnelFrameHeader.cast buf.data :=
    cast_congr fun i hi => hb i (by omega)
  refine ⟨hc ▸ h.header, hs ▸ h.size_eq, hs ▸ h.size_max, by rw [hc, hs, h.size_field], ?_⟩
  refine (load_congr fun i _ hi => ?_).trans h.body
  exact hb i (by omega)

/-- Buffers of the same bytes have the same size and the same memory up to it. -/
theorem data_of_bytes {buf buf' : TunnelFrameBuffer} (h : buf'.bytes = buf.bytes) :
    buf'.size = buf.size ∧ ∀ i, i < buf.size → buf'.data i = buf.data i := by
  have hlen := congrArg List.length h
  rw [bytes_length, bytes_length] at hlen
  refine ⟨hlen, fun i hi => ?_⟩
  have hi' : i < (load buf'.data 0 buf'.size).length := by rw [load_length]; omega
  have hi'' : i < (load buf.data 0 buf.size).length := by rw [load_length]; exact hi
  have hget := load_getElem hi'
  have hget' := load_getElem hi''
  rw [Nat.zero_add] at hget hget'
  rw [← hget, ← hget']
  exact List.getElem_of_eq h hi'

/-- Frames of the same bytes hold the same datagrams. -/
theorem Closed.of_bytes {buf buf' : TunnelFrameBuffer} {ds} (h : buf.Closed ds) (hb : buf'.bytes = buf.bytes) :
    buf'.Closed ds := h.congr (data_of_bytes hb).1 (data_of_bytes hb).2

/-- And have the same header. -/
theorem Closed.cast_of_bytes {buf buf' : TunnelFrameBuffer} {ds} (h : buf.Closed ds) (hb : buf'.bytes = buf.bytes) :
    TunnelFrameHeader.cast buf'.data = TunnelFrameHeader.cast buf.data := by
  have hsz := sizes
  have hle := h.header_le
  exact cast_congr fun i hi => (data_of_bytes hb).2 i (by omega)

theorem Closed.small {buf : TunnelFrameBuffer} {ds} (h : buf.Closed ds) : ∀ d ∈ ds, d.length < 65536 := by
  intro d hd
  have h1 := length_le_body hd
  have h2 := h.size_max
  rw [h.size_eq] at h2
  simp only [kTunnelFrameMaxSize, sizeofTunnelFrameHeader] at h2
  omega

/-- A closed buffer is a whole frame. -/
theorem Closed.whole {buf : TunnelFrameBuffer} {ds} (h : buf.Closed ds) : frames.Whole buf.bytes := by
  have hle := h.header_le
  simp only [sizeofTunnelFrameHeader] at hle
  refine ⟨by rw [bytes_length]; simp only [frames, sizeofTunnelFrameHeaderInfo]; omega, ?_⟩
  rw [bytes_length]
  simp only [frames, sizeofTunnelFrameHeaderInfo, bytes]
  rw [load_take, load_drop, load_take, Nat.min_eq_left (by omega : 6 ≤ buf.size)]
  exact h.size_field

/-- And its bytes after the header are its body. -/
theorem Closed.datagrams_drop {buf : TunnelFrameBuffer} {ds} (h : buf.Closed ds) :
    datagrams (buf.bytes.drop sizeofTunnelFrameHeader) = ds := by
  rw [bytes, load_drop, h.size_eq, Nat.add_sub_cancel_left, Nat.zero_add, h.body]
  exact datagrams_body h.small

theorem Closed.check {buf : TunnelFrameBuffer} {ds} (h : buf.Closed ds) :
    TunnelFrameHeaderInfo.check buf = .ok (TunnelFrameHeader.cast buf.data) := by
  have hle := h.header_le
  simp only [sizeofTunnelFrameHeader] at hle
  refine check_ok (by simp only [sizeofTunnelFrameHeaderInfo]; omega) h.header ?_
  rw [h.size_field]
  exact h.size_max

end TunnelFrameBuffer

end RuralPipe
