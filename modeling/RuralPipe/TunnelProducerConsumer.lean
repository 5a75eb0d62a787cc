/-
The tunnel side (`TunnelProducerConsumer`): the loop that batches datagrams
into frames and hands these on, and the delivery of a received frame's
datagrams to the tunnel queues.

Both are programs that a thread runs one system call or one hand-over at a
time. A thread of the loop owns its frame buffer, which is part of where it
stands, and its MTU buffer, of which only the first `mtuBufferSize` bytes are
kept: `mtuBuffer` is empty when that size is zero.
-/
import Mathlib.Logic.Function.Basic
import RuralPipe.FileDescriptor
import RuralPipe.TunnelFrame

namespace RuralPipe

open Bytes

/-! ## From the tunnel -/

/-- Why a thread of the loop ended: `_interrupted` was set, an operation on
its tunnel descriptor threw, the hand-over threw, or an assertion failed. -/
inductive Ended
  | interrupted
  | tunnelFd (ex : Exception)
  | handOver (ex : Exception)
  | abort (condition : String)
  deriving DecidableEq

/-- Where `_receiveFromTunnelLoop` stands, with its frame buffer or the writer
over it and `numDatagramsWritten`. -/
inductive TunnelLoop
  | frame (buffer : Mem)
  | wait (writer : TunnelFrameWriter) (numDatagramsWritten : Nat)
  | poll (writer : TunnelFrameWriter) (numDatagramsWritten : Nat)
  | read (writer : TunnelFrameWriter) (numDatagramsWritten : Nat) (io : Io)
  | handOver (buf : TunnelFrameBuffer)
  | invoking (buf : TunnelFrameBuffer)
  | sleep (buf : TunnelFrameBuffer)
  | ended (why : Ended)

structure TunnelThread where
  loop : TunnelLoop
  mtuBuffer : List UInt8
  bytesIn : UInt64

/-- What moves a thread on: nothing but itself, `poll`'s result, a system call
of `read`, or the outcome of the hand-over and the frame's memory after it. -/
inductive LoopEvent
  | tau
  | polled (res : Syscall Nat)
  | io (ev : IoEvent (List UInt8))
  | outcome (buf : TunnelFrameBuffer) (res : Except Exception Unit)

namespace TunnelThread

def start : TunnelThread := { loop := .frame (fun _ => 0xAA), mtuBuffer := [], bytesIn := 0 }

/-- A failed assertion; the writer throws nothing. -/
def fail (t : TunnelThread) : Failure → TunnelThread
  | .abort c => { t with loop := .ended (.abort c) }
  | .throw ex => { t with loop := .ended (.tunnelFd ex) }

/-- The loop's part from the check of `remainingBytes` on. -/
def append (t : TunnelThread) (writer : TunnelFrameWriter) (numDatagramsWritten : Nat) : TunnelThread :=
  if t.mtuBuffer.length > writer.remainingBytes then
    if numDatagramsWritten = 0 then { t with loop := .ended (.abort "numDatagramsWritten") }
    else { t with loop := .handOver writer.close.buffer }
  else
    match writer.append t.mtuBuffer with
    | .error e => t.fail e
    | .ok writer =>
      { loop := .wait writer (numDatagramsWritten + 1), mtuBuffer := [],
        bytesIn := t.bytesIn + UInt64.ofNat t.mtuBuffer.length }

/-- The head of the inner loop. -/
def wait (t : TunnelThread) (interrupted : Bool) (writer : TunnelFrameWriter) (numDatagramsWritten : Nat) :
    TunnelThread :=
  if interrupted then { t with loop := .ended .interrupted }
  else if t.mtuBuffer ≠ [] then t.append writer numDatagramsWritten
  else { t with loop := .poll writer numDatagramsWritten }

/-- What follows `poll`'s result. -/
def polled (t : TunnelThread) (writer : TunnelFrameWriter) (numDatagramsWritten : Nat) (res : Nat) : TunnelThread :=
  if res = 0 then
    if numDatagramsWritten = 0 then { t with loop := .wait writer 0 }
    else { t with loop := .handOver writer.close.buffer }
  else if res = 1 then { t with loop := .read writer numDatagramsWritten .call }
  else { t with loop := .ended (.abort "res == 1") }

/-- One step of `_receiveFromTunnelLoop` on the descriptor `fd`. -/
def step (fd : FileDescriptor) (mtu : Nat) (interrupted : Bool) (t : TunnelThread) : LoopEvent → Option TunnelThread
  | .tau =>
    match t.loop with
    | .frame buffer =>
      match TunnelFrameWriter.new ⟨buffer, kTunnelFrameMaxSize⟩ with
      | .error e => some (t.fail e)
      | .ok writer => some { t with loop := .wait writer 0 }
    | .wait writer n => some (t.wait interrupted writer n)
    | .handOver buf =>
      some { t with loop := if interrupted then .ended .interrupted else .invoking buf }
    | .sleep buf => some { t with loop := .handOver buf }
    | _ => none
  | .polled res =>
    match t.loop with
    | .poll writer n =>
      match FileDescriptor.poll res with
      | .error ex => some { t with loop := .ended (.tunnelFd ex) }
      | .ok res => some (t.polled writer n res)
    | _ => none
  | .io ev =>
    match t.loop with
    | .read writer n io =>
      match fd.readStep mtu io ev with
      | none => none
      | some (.threw ex) => some { t with loop := .ended (.tunnelFd ex) }
      | some (.again io) => some { t with loop := .read writer n io }
      | some (.returned bs) => some ({ t with mtuBuffer := bs }.append writer n)
    | _ => none
  | .outcome buf res =>
    match t.loop with
    | .invoking _ =>
      match res with
      | .ok _ => some { t with loop := .frame buf.data }
      | .error ex =>
        if ex.isNotYetReady then some { t with loop := .sleep buf }
        else some { t with loop := .ended (.handOver ex) }
    | _ => none

end TunnelThread

/-! ## To the tunnel -/

/-- The queues' descriptors and what the deliveries share. A queue's mutex is
held while a datagram is written to it. -/
structure TunnelQueues where
  fds : List FileDescriptor
  fds_ne : fds ≠ []
  roundRobin : UInt64
  locked : Nat → Bool
  bytesOut : Nat → UInt64

/-- Where `onTunnelFrameFromNext` stands: at its loop's condition, waiting for
a queue's mutex, in the write, or at its end. -/
inductive Delivery
  | next (reader : TunnelFrameReader)
  | lock (reader : TunnelFrameReader) (idxTunnelFds : Nat)
  | write (reader : TunnelFrameReader) (idxTunnelFds : Nat) (io : Io)
  | returned
  | failed (e : Failure)

inductive DeliveryEvent
  | tau
  | io (ev : IoEvent Nat)

namespace Delivery

/-- `onTunnelFrameFromNext`, up to its loop. -/
def start (buf : TunnelFrameBuffer) : Delivery :=
  match TunnelFrameReader.new buf with
  | .error e => .failed e
  | .ok reader => .next reader

/-- The descriptor of a queue. -/
def fd (q : TunnelQueues) (idx : Nat) : FileDescriptor := (q.fds[idx]?).getD ⟨"", -1⟩

/-- One step of `onTunnelFrameFromNext`: the queues and where it stands after
it, and what was written to which queue. -/
def step (q : TunnelQueues) : Delivery → DeliveryEvent → Option (TunnelQueues × Delivery × Option (Nat × List UInt8))
  | .next reader, .tau =>
    match reader.next with
    | (.error e, _) => some (q, .failed e, none)
    | (.ok false, _) => some (q, .returned, none)
    | (.ok true, reader) =>
      let roundRobin := q.roundRobin + 1
      some ({ q with roundRobin }, .lock reader (roundRobin.toNat % q.fds.length), none)
  | .lock reader idx, .tau =>
    if q.locked idx then none
    else some ({ q with locked := Function.update q.locked idx true }, .write reader idx .call, none)
  | .write reader idx io, .io ev =>
    match (fd q idx).writeStep reader.size io ev with
    | none => none
    | some (.threw ex) => some ({ q with locked := Function.update q.locked idx false }, .failed (.throw ex), none)
    | some (.again io) => some (q, .write reader idx io, none)
    | some (.returned numWritten) =>
      some ({ q with
              locked := Function.update q.locked idx false,
              bytesOut := Function.update q.bytesOut idx (q.bytesOut idx + UInt64.ofNat numWritten) },
        .next reader, some (idx, load reader.data reader.dataOffset numWritten))
  | _, _ => none

end Delivery

end RuralPipe
