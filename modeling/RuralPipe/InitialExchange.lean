/-
The initial exchange (`initialTunnelFrameExchange`): each side sends one frame
with its name, and the server takes the session from the client's.

What the stream's `send` and `receive` do is given to it, as a function of the
frame sent and as an outcome. The exchange itself looks at the frame received
only as far as the source does: it asks for a datagram, and takes whatever
session id the header has.
-/
import RuralPipe.FrameCodec

namespace RuralPipe

open Bytes

structure InitialExchangeResult where
  identifier : List UInt8
  sessionId : SessionId

/-- The stream during an exchange. -/
structure ExchangeIo where
  send : TunnelFrameBuffer → Except Failure Unit
  receive : Except Failure TunnelFrameBuffer

/-- The characters of a C string literal, without the zero. -/
def chars (s : String) : List UInt8 := s.toList.map Char.toUInt8

/-- The C string at `off`, as far as a frame may reach. -/
def cString (m : Mem) (off : Nat) : List UInt8 := (load m off kTunnelFrameMaxSize).takeWhile (· ≠ 0)

/-- The initial frame: one datagram, an `InitTunnelFrame` with `identifier`. -/
def initFrame (sessionId : SessionId) (identifier : String) : Except Failure TunnelFrameBuffer := do
  let writer ← TunnelFrameWriter.new ⟨fun _ => 0xAA, 1024⟩
  let writer := (writer.setSessionId sessionId).setSeqNum kInitFrameSeqNum
  let writer := { writer with data := store writer.data writer.dataOffset (chars identifier ++ [0]) }
  let writer ← writer.onDatagramWritten 16
  return writer.close.buffer

/-- The reader at the first datagram of the frame received. -/
def initReader (io : ExchangeIo) (message : String) : Except Failure TunnelFrameReader := do
  let reader ← TunnelFrameReader.new (← io.receive)
  let found ← reader.next.1
  if found then return reader.next.2 else throw (.throw ⟨.exception, message⟩)

def initialTunnelFrameExchange (clientSessionId : Option SessionId) (io : ExchangeIo) :
    Except Failure InitialExchangeResult :=
  match clientSessionId with
  | some sessionId => do
    io.send (← initFrame sessionId "RuralPipeClient")
    let reader ← initReader io "Client received invalid initial frame response"
    return { identifier := cString reader.data reader.dataOffset, sessionId := reader.header.sessionId }
  | none => do
    let reader ← initReader io "Server received invalid initial frame"
    io.send (← initFrame reader.header.sessionId "RuralPipeServer")
    return { identifier := cString reader.data reader.dataOffset, sessionId := reader.header.sessionId }

/-! ## Between honest sides -/

/-- The frame with a name of fifteen characters holds just that name. -/
theorem initFrame_ok (id : SessionId) (identifier : String) (h : (chars identifier).length = 15) :
    ∃ buf, initFrame id identifier = .ok buf ∧ buf.Closed [chars identifier ++ [0]] ∧
      (TunnelFrameHeader.cast buf.data).sessionId = id ∧
      (TunnelFrameHeader.cast buf.data).seqNum = kInitFrameSeqNum := by
  obtain ⟨w, hnew, hw, hstop, -⟩ :=
    TunnelFrameWriter.new_holds ⟨fun _ => 0xAA, 1024⟩ (by decide) (by decide)
  have hlen : (chars identifier ++ [0]).length = 16 := by simp [h]
  obtain ⟨w', hrun, hh, -, hid, hseq⟩ := WriterOp.runAll_ok
    [.sessionId id, .seqNum kInitFrameSeqNum, .append (chars identifier ++ [0])] hw (by
      rw [hw.current, hstop]
      simp [WriterOp.appended, hlen, sizeofTunnelFrameHeader])
  have happ : ((w.setSessionId id).setSeqNum kInitFrameSeqNum).append (chars identifier ++ [0]) = .ok w' := by
    simp only [WriterOp.runAll, WriterOp.run] at hrun
    split at hrun
    · cases hrun
    · cases hrun
      assumption
  refine ⟨w'.close.buffer, ?_, hh.close, ?_, ?_⟩
  · rw [TunnelFrameWriter.append, hlen] at happ
    simp only [initFrame, hnew, ok_bind, happ]
    rfl
  · simp only [TunnelFrameWriter.buffer, TunnelFrameWriter.close, cast_setSize]
    exact hid
  · simp only [TunnelFrameWriter.buffer, TunnelFrameWriter.close, cast_setSize]
    exact hseq

/-- A frame with a datagram is a frame an exchange takes. -/
theorem initReader_ok {buf : TunnelFrameBuffer} {d : List UInt8} {ds} (h : buf.Closed (d :: ds)) (send)
    (message : String) : ∃ reader, initReader { send, receive := .ok buf } message = .ok reader ∧
      reader.data = buf.data := by
  obtain ⟨r, hnew, hdata, -, hread, -⟩ := h.read
  obtain ⟨hcall, -⟩ := hread 0 d rfl
  refine ⟨r.next.2, ?_, by rw [TunnelFrameReader.next_snd, TunnelFrameReader.advance_data, hdata]⟩
  have hfst : r.next.1 = .ok true := hcall
  simp only [initReader, ok_bind, hnew, hfst]
  rfl

/-- A server accepts the session of any such frame. -/
theorem exchange_server {buf : TunnelFrameBuffer} {d : List UInt8} {ds} (h : buf.Closed (d :: ds)) :
    ∃ ier, initialTunnelFrameExchange none { send := fun _ => .ok (), receive := .ok buf } = .ok ier ∧
      ier.sessionId = (TunnelFrameHeader.cast buf.data).sessionId := by
  obtain ⟨reader, hr, hdata⟩ := initReader_ok h (fun _ => .ok ()) "Server received invalid initial frame"
  obtain ⟨frame, hframe, -⟩ := initFrame_ok reader.header.sessionId "RuralPipeServer" rfl
  refine ⟨{ identifier := cString reader.data reader.dataOffset, sessionId := reader.header.sessionId }, ?_, ?_⟩
  · simp only [initialTunnelFrameExchange, hr, ok_bind, hframe]
    rfl
  · show (TunnelFrameHeader.cast reader.data).sessionId = _
    rw [hdata]

end RuralPipe
