/-
Tunnel frame streams (`TunnelFrameStream`): `send` and `receive`, one system
call at a time.

Each of the two is a loop over `FileDescriptor::write` or `read`, and where it
stands is a value (`Send`, `Receive`), which what the kernel answers moves on.
-/
import RuralPipe.FileDescriptor
import RuralPipe.TunnelFrame

namespace RuralPipe

open Bytes

/-- `buffer` is the memory from `_buffer` on, whose first `kTunnelFrameMaxSize`
bytes are the stream's. -/
structure TunnelFrameStream where
  fd : FileDescriptor
  buffer : Mem

/-- Where `receive` stands: in the loop for the header, in the loop for the
rest, or at its end. -/
inductive Receive
  | header (numRead : Nat) (io : Io)
  | body (numRead totalSize : Nat) (io : Io)
  | returned (buf : TunnelFrameBuffer)
  | failed (e : Failure)

/-- Where `send` stands: in its loop, or at its end. -/
inductive Send
  | writing (numWritten : Nat) (io : Io)
  | returned
  | threw (ex : Exception)
  deriving DecidableEq

namespace TunnelFrameStream

/-! ## Receive -/

/-- `receive` at the head of its second loop. -/
def receiveBody (buffer : Mem) (numRead totalSize : Nat) : Receive :=
  if numRead < totalSize then .body numRead totalSize .call
  else if numRead = totalSize then .returned ⟨buffer, totalSize⟩
  else .failed (.abort "numRead == totalSize")

/-- `receive` at the head of its first loop. -/
def receiveHeader (buffer : Mem) (numRead : Nat) : Receive :=
  if numRead < sizeofTunnelFrameHeaderInfo then .header numRead .call
  else
    match TunnelFrameHeaderInfo.check ⟨buffer, numRead⟩ with
    | .error e => .failed e
    | .ok hdrInfo => receiveBody buffer numRead hdrInfo.size

def receive (s : TunnelFrameStream) : Receive := receiveHeader s.buffer 0

/-- The read under way: where it puts its bytes, and how many it asks for. -/
def receiveTarget : Receive → Option (Nat × Nat)
  | .header numRead _ => some (numRead, sizeofTunnelFrameHeaderInfo - numRead)
  | .body numRead totalSize _ => some (numRead, totalSize - numRead)
  | _ => none

def receiveStep (s : TunnelFrameStream) : Receive → IoEvent (List UInt8) → Option (TunnelFrameStream × Receive)
  | .header numRead io, ev =>
    match s.fd.readStep (sizeofTunnelFrameHeaderInfo - numRead) io ev with
    | none => none
    | some (.threw ex) => some (s, .failed (.throw ex))
    | some (.again io) => some (s, .header numRead io)
    | some (.returned bs) =>
      let buffer := store s.buffer numRead bs
      some ({ s with buffer }, receiveHeader buffer (numRead + bs.length))
  | .body numRead totalSize io, ev =>
    match s.fd.readStep (totalSize - numRead) io ev with
    | none => none
    | some (.threw ex) => some (s, .failed (.throw ex))
    | some (.again io) => some (s, .body numRead totalSize io)
    | some (.returned bs) =>
      let buffer := store s.buffer numRead bs
      some ({ s with buffer }, receiveBody buffer (numRead + bs.length) totalSize)
  | _, _ => none

/-! ## Send -/

/-- `send` at the head of its loop. -/
def sendLoop (buf : TunnelFrameBuffer) (numWritten : Nat) : Send :=
  if numWritten < buf.size then .writing numWritten .call else .returned

def send (buf : TunnelFrameBuffer) : Send := sendLoop buf 0

/-- A step of `send`: where it leads, and the bytes the kernel took. -/
def sendStep (s : TunnelFrameStream) (buf : TunnelFrameBuffer) : Send → IoEvent Nat → Option (Send × List UInt8)
  | .writing numWritten io, ev =>
    match s.fd.writeStep (buf.size - numWritten) io ev with
    | none => none
    | some (.threw ex) => some (.threw ex, [])
    | some (.again io) => some (.writing numWritten io, [])
    | some (.returned n) => some (sendLoop buf (numWritten + n), load buf.data numWritten n)
  | _, _ => none

end TunnelFrameStream

end RuralPipe
