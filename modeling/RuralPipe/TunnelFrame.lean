/-
Tunnel frames (`common/tunnel_frame.h`, `common/tunnel_frame.cpp`): the packed
header, its check, the reader and the writer.

A buffer is the memory from its `data` pointer on and a size, so a read or
write past the size is a read or write of the memory there, as in the source.
Pointers into a frame are offsets from its `_begin`. The writer's fields
carry what its constructor's and `onDatagramWritten`'s assertions establish.
-/
import RuralPipe.Bytes
import RuralPipe.Exception

namespace RuralPipe

open Bytes

/-- `boost::uuids::uuid`. -/
structure SessionId where
  data : List UInt8
  length_eq : data.length = 16
  deriving DecidableEq

/-- `TunnelFrameBuffer` and `ConstTunnelFrameBuffer`. -/
structure TunnelFrameBuffer where
  data : Mem
  size : Nat

def TunnelFrameBuffer.bytes (buf : TunnelFrameBuffer) : List UInt8 := load buf.data 0 buf.size

def kMagic : List UInt8 := ['R'.toUInt8, 'P'.toUInt8, 'I'.toUInt8]
def kVersion : Nat := 1
def kInitFrameSeqNum : UInt64 := 0

def sizeofTunnelFrameHeaderInfo : Nat := 6
def sizeofTunnelFrameHeader : Nat := 158
def sizeofTunnelFrameDatagramSeparator : Nat := 2
def kTunnelFrameMinSize : Nat := sizeofTunnelFrameHeader + sizeofTunnelFrameDatagramSeparator
def kTunnelFrameMaxSize : Nat := 4096

/-- The header's fields. The signature, which nothing writes or reads, is
left out. -/
structure TunnelFrameHeader where
  magic : List UInt8
  version : Nat
  flags : Nat
  size : Nat
  sessionId : SessionId
  seqNum : UInt64

/-- `TunnelFrameHeader::cast`: the packed structure, from its first byte on. -/
def TunnelFrameHeader.cast (data : Mem) : TunnelFrameHeader where
  magic := load data 0 3
  version := (data 3).toNat % 4
  flags := (data 3).toNat / 4
  size := ofLe (load data 4 2)
  sessionId := ⟨load data 6 16, load_length _ _ _⟩
  seqNum := UInt64.ofNat (ofLe (load data 22 8))

/-- `memcmp(a, b, n)`, as far as whether it is zero. -/
def memcmp (a b : List UInt8) (n : Nat) : Bool := a.take n != b.take n

/-- The third argument of the check's `memcmp`: the `bool`
`sizeof(kMagic) != 0`, so the number one and not three. -/
def memcmpSize : Nat := if kMagic.length ≠ 0 then 1 else 0

def TunnelFrameHeaderInfo.check (buf : TunnelFrameBuffer) : Except Failure TunnelFrameHeader :=
  let hdrInfo := TunnelFrameHeader.cast buf.data
  if buf.size < sizeofTunnelFrameHeaderInfo then
    .error (.throw ⟨.exception, s!"Invalid tunnel frame header size {buf.size}"⟩)
  else if memcmp hdrInfo.magic kMagic memcmpSize then
    .error (.throw ⟨.exception, "Unrecognised tunnel frame magic number " ++
      String.ofList ((hdrInfo.magic.takeWhile (· ≠ 0)).map fun b => Char.ofNat b.toNat)⟩)
  else if hdrInfo.version ≠ kVersion then
    .error (.throw ⟨.exception,
      "Unrecognised tunnel frame version " ++ String.ofList [Char.ofNat hdrInfo.version]⟩)
  else if hdrInfo.size > kTunnelFrameMaxSize then
    .error (.throw ⟨.exception, s!"Invalid tunnel frame size {hdrInfo.size}"⟩)
  else .ok hdrInfo

/-! ## Reader -/

/-- `_begin` is the start of `data`; `stop` and `current` are `_end` and
`_current` as offsets from it. -/
structure TunnelFrameReader where
  data : Mem
  stop : Nat
  current : Nat

namespace TunnelFrameReader

/-- The constructor: the end comes from the header, not from `buf.size`. -/
def new (buf : TunnelFrameBuffer) : Except Failure TunnelFrameReader :=
  match TunnelFrameHeaderInfo.check buf with
  | .error e => .error e
  | .ok hdrInfo => .ok { data := buf.data, stop := hdrInfo.size, current := 0 }

def header (r : TunnelFrameReader) : TunnelFrameHeader := .cast r.data

/-- `size()`. -/
def size (r : TunnelFrameReader) : Nat := ofLe (load r.data r.current 2)

/-- `data()`, as an offset. -/
def dataOffset (r : TunnelFrameReader) : Nat := r.current + sizeofTunnelFrameDatagramSeparator

/-- The bytes a caller gets to see, at `data()` and `size()` long. -/
def datagram (r : TunnelFrameReader) : List UInt8 := load r.data r.dataOffset r.size

/-- What `next` does to the cursor, before it checks it. -/
def advance (r : TunnelFrameReader) : TunnelFrameReader :=
  if r.current = 0 then { r with current := sizeofTunnelFrameHeader }
  else if r.current < r.stop then
    { r with current := r.current + (sizeofTunnelFrameDatagramSeparator + r.size) }
  else r

/-- `next()`: its result and the reader after it. The cursor has moved also
where it throws. -/
def next (r : TunnelFrameReader) : Except Failure Bool × TunnelFrameReader :=
  let r := r.advance
  if r.current > r.stop then (.error (.throw ⟨.exception, "Badly formatted frame"⟩), r)
  else (.ok (r.current < r.stop), r)

/-- The reader after `k` calls of `next`, whatever they returned. -/
def after (r : TunnelFrameReader) : Nat → TunnelFrameReader
  | 0 => r
  | k + 1 => (r.after k).next.2

/-- What the call after `k` calls returns. -/
def call (r : TunnelFrameReader) (k : Nat) : Except Failure Bool := (r.after k).next.1

end TunnelFrameReader

/-! ## Writer -/

/-- `stop` and `current` are `_end` and `_current` as offsets from `_begin`. -/
structure TunnelFrameWriter where
  data : Mem
  stop : Nat
  current : Nat
  stop_min : kTunnelFrameMinSize ≤ stop
  stop_max : stop ≤ kTunnelFrameMaxSize
  header_le : sizeofTunnelFrameHeader ≤ current
  current_le : current ≤ stop

namespace TunnelFrameWriter

/-- The bit fields `version : 2` and `flags : 6`, in their byte. -/
def descByte (version flags : Nat) : UInt8 := UInt8.ofNat (version % 4 + 4 * (flags % 64))

/-- What the constructor writes into the header: everything but the session
id, the sequence number and the signature. -/
def initHeader (data : Mem) : Mem :=
  store (store (store data 0 kMagic) 3 [descByte kVersion 0]) 4 (leBytes 2 0)

def new (buf : TunnelFrameBuffer) : Except Failure TunnelFrameWriter :=
  if hmin : kTunnelFrameMinSize ≤ buf.size then
    if hmax : buf.size ≤ kTunnelFrameMaxSize then
      .ok { data := initHeader buf.data, stop := buf.size, current := sizeofTunnelFrameHeader,
            stop_min := hmin, stop_max := hmax, header_le := Nat.le_refl _,
            current_le := Nat.le_trans (Nat.le_add_right _ _) hmin }
    else .error (.abort "buf.size <= kTunnelFrameMaxSize")
  else .error (.abort "buf.size >= kTunnelFrameMinSize")

/-- `header().sessionId = sessionId`. -/
def setSessionId (w : TunnelFrameWriter) (sessionId : SessionId) : TunnelFrameWriter :=
  { w with data := store w.data 6 sessionId.data }

/-- `header().seqNum = seqNum`. -/
def setSeqNum (w : TunnelFrameWriter) (seqNum : UInt64) : TunnelFrameWriter :=
  { w with data := store w.data 22 (leBytes 8 seqNum.toNat) }

def remainingBytes (w : TunnelFrameWriter) : Nat :=
  if w.stop - w.current < sizeofTunnelFrameDatagramSeparator then 0
  else w.stop - (w.current + sizeofTunnelFrameDatagramSeparator)

/-- `data()`, as an offset. -/
def dataOffset (w : TunnelFrameWriter) : Nat := w.current + sizeofTunnelFrameDatagramSeparator

/-- `onDatagramWritten`: the separator holds the size's low 16 bits. -/
def onDatagramWritten (w : TunnelFrameWriter) (size : Nat) : Except Failure TunnelFrameWriter :=
  if h : w.current + (sizeofTunnelFrameDatagramSeparator + size) ≤ w.stop then
    .ok { w with data := store w.data w.current (leBytes 2 size),
                 current := w.current + (sizeofTunnelFrameDatagramSeparator + size),
                 header_le := Nat.le_trans w.header_le (Nat.le_add_right _ _), current_le := h }
  else .error (.abort "_current <= _end")

/-- `append`: the copy to `data()`, then `onDatagramWritten`. -/
def append (w : TunnelFrameWriter) (datagram : List UInt8) : Except Failure TunnelFrameWriter :=
  { w with data := store w.data w.dataOffset datagram }.onDatagramWritten datagram.length

def close (w : TunnelFrameWriter) : TunnelFrameWriter :=
  { w with data := store w.data 4 (leBytes 2 w.current) }

def buffer (w : TunnelFrameWriter) : TunnelFrameBuffer :=
  ⟨w.data, (TunnelFrameHeader.cast w.data).size⟩

def setSequenceNumberOnClosedBuffer (buf : TunnelFrameBuffer) (seqNum : UInt64) : TunnelFrameBuffer :=
  { buf with data := store buf.data 22 (leBytes 8 seqNum.toNat) }

end TunnelFrameWriter

end RuralPipe
