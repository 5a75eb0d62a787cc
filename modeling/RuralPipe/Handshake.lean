/-
A client and a server, from the first byte of every connection on.

Each side is a `SocketProducerConsumer`, and a connection is a socket of the one
and the socket of the other. What a side puts on a connection is what its
exchange writes and then, once the stream is registered, what its senders write
(`sent`). The other side's exchange and, after it, its receive loop take these
bytes off, in any portions.
-/
import RuralPipe.Exchanging
import RuralPipe.SocketProducerConsumer

namespace RuralPipe

open Bytes TunnelFrameStream

/-- A side's end of a connection: the buffer of its stream, wherever that stream
is moved to, where its exchange stands, the bytes this wrote, the call of
`receive` its loop is in, how many bytes the exchange and the loop have taken,
and the frames that the loop's calls returned. -/
structure Endpoint where
  buffer : Mem
  exchanging : Exchanging
  written : List UInt8
  receiving : Option Receive
  takenByExchange : Nat
  takenByLoop : Nat
  frames : List (List UInt8)

structure Handshake (S K : Type) where
  sockets : Side → SocketState S K
  ends : Side → K → Endpoint

/-- What moves `_receiveFromSocketLoop` on: nothing but itself, or a system call
of `receive`. -/
inductive ReceivingEvent
  | tau
  | read (ev : IoEvent (List UInt8))

inductive HandshakeLabel (S K : Type)
  | socket (s : Side) (l : SocketLabel S K)
  | exchange (s : Side) (k : K) (ev : ExchangeEvent)
  | receive (s : Side) (k : K) (ev : ReceivingEvent)

def ReceivingEvent.bytes : ReceivingEvent → List UInt8
  | .read ev => ev.bytes
  | .tau => []

/-- A step of a receive loop on its stream. What `receive` returned is handed on
at once. -/
def Endpoint.receiveStep (e : Endpoint) (fd : FileDescriptor) (interrupted : Bool) : ReceivingEvent → Option Endpoint
  | .tau =>
    match e.receiving with
    | none =>
      if interrupted then none else some { e with receiving := some (TunnelFrameStream.mk fd e.buffer).receive }
    | some (.returned buf) => some { e with receiving := none, frames := e.frames ++ [buf.bytes] }
    | _ => none
  | .read ev =>
    match e.receiving with
    | none => none
    | some r =>
      match (TunnelFrameStream.mk fd e.buffer).receiveStep r ev with
      | none => none
      | some (s, r) =>
        some { e with buffer := s.buffer, receiving := some r, takenByLoop := e.takenByLoop + ev.bytes.length }

namespace Handshake

variable {S K : Type}

/-- The bytes a side put on a connection. -/
def sent (x : Handshake S K) (s : Side) (k : K) : List UInt8 := (x.ends s k).written ++ (x.sockets s).wire k

/-- How many bytes a side has taken off a connection. -/
def taken (x : Handshake S K) (s : Side) (k : K) : Nat := (x.ends s k).takenByExchange + (x.ends s k).takenByLoop

/-- The bytes on their way to a side. -/
def underway (x : Handshake S K) (s : Side) (k : K) : List UInt8 := (x.sent s.other k).drop (x.taken s k)

def setSockets (x : Handshake S K) (s : Side) (y : SocketState S K) : Handshake S K :=
  { x with sockets := Function.update x.sockets s y }

def setEnd [DecidableEq K] (x : Handshake S K) (s : Side) (k : K) (e : Endpoint) : Handshake S K :=
  { x with ends := Function.update x.ends s (Function.update (x.ends s) k e) }

variable {x : Handshake S K} {s s' : Side} {k k' : K} {y : SocketState S K} {e : Endpoint}

@[simp] theorem setSockets_self : (x.setSockets s y).sockets s = y := Function.update_self ..
theorem setSockets_ne (h : s' ≠ s) : (x.setSockets s y).sockets s' = x.sockets s' := Function.update_of_ne h ..
@[simp] theorem setSockets_ends : (x.setSockets s y).ends = x.ends := rfl

@[simp] theorem setEnd_self [DecidableEq K] : (x.setEnd s k e).ends s k = e := by simp [setEnd]
theorem setEnd_ne [DecidableEq K] (h : ¬ (s' = s ∧ k' = k)) : (x.setEnd s k e).ends s' k' = x.ends s' k' := by
  by_cases hs : s' = s
  · subst hs
    have hk : k' ≠ k := fun hk => h ⟨rfl, hk⟩
    simp [setEnd, hk]
  · simp [setEnd, hs]
@[simp] theorem setEnd_sockets [DecidableEq K] : (x.setEnd s k e).sockets = x.sockets := rfl

end Handshake

/-- A step of either side. The kernel gives a reader what has come over its
connection, in any portions; and an exchange at its end is over for its task as
the source's function says. -/
inductive HandshakeStep {S K : Type} [DecidableEq S] [DecidableEq K] (c : SessionId) :
    Handshake S K → HandshakeLabel S K → Handshake S K → Prop
  | socket {x : Handshake S K} {s l y} : (∀ k io, l ≠ .exchange k io) →
      SocketStep (s.clientSessionId c) (x.sockets s) l y →
      HandshakeStep c x (.socket s l) (x.setSockets s y)
  | exchange {x : Handshake S K} {s k ev stream stream' e out} : (x.sockets s).tasks k = .exchanging stream →
      ev.bytes <+: x.underway s k →
      (x.ends s k).exchanging.step ⟨stream.fd, (x.ends s k).buffer⟩ ev = some (stream', e, out) →
      HandshakeStep c x (.exchange s k ev) (x.setEnd s k { x.ends s k with
        buffer := stream'.buffer,
        exchanging := e,
        written := (x.ends s k).written ++ out,
        takenByExchange := (x.ends s k).takenByExchange + ev.bytes.length })
  | finish {x : Handshake S K} {s k io res y} : (x.ends s k).exchanging = .before (.ended res) →
      initialTunnelFrameExchange (s.clientSessionId c) io = res →
      SocketStep (s.clientSessionId c) (x.sockets s) (.exchange k io) y →
      HandshakeStep c x (.socket s (.exchange k io)) (x.setSockets s y)
  | receive {x : Handshake S K} {s k ev sid e} : (x.sockets s).tasks k = .receiving sid →
      ev.bytes <+: x.underway s k →
      (x.ends s k).receiveStep ((x.sockets s).map.trackers k).stream.fd (x.sockets s).interrupted ev = some e →
      HandshakeStep c x (.receive s k ev) (x.setEnd s k e)

def HandshakeLabel.side {S K : Type} : HandshakeLabel S K → Side
  | .socket s _ => s
  | .exchange s _ _ => s
  | .receive s _ _ => s

/-- Nothing has been added, and every exchange is before its first call. -/
structure Handshake.Starts {S K : Type} (c : SessionId) (x : Handshake S K) : Prop where
  sockets : ∀ s, x.sockets s = .start S K
  exchanging : ∀ s k, (x.ends s k).exchanging = .before (exchange (s.clientSessionId c))
  written : ∀ s k, (x.ends s k).written = []
  receiving : ∀ s k, (x.ends s k).receiving = none
  taken : ∀ s k, (x.ends s k).takenByExchange = 0 ∧ (x.ends s k).takenByLoop = 0
  frames : ∀ s k, (x.ends s k).frames = []

/-- A client of the session `c` and its server, with the senders `S` on either
side and the connections `K` between them. -/
def handshake (S K : Type) [DecidableEq S] [DecidableEq K] (c : SessionId) :
    Machine (Handshake S K) (HandshakeLabel S K) where
  init := Handshake.Starts c
  step x l x' := (x.sockets l.side).crash = none ∧ HandshakeStep c x l x'

/-- The same with a `_pool` of `threads s` threads on the side `s`. -/
def pooled (S K : Type) [DecidableEq S] [DecidableEq K] (threads : Side → Nat) (c : SessionId) :
    Machine (Handshake S K) (HandshakeLabel S K) :=
  (handshake S K c).restrict fun t => ∀ s l, t.label = .socket s l → FindsThread (threads s) (t.pre.sockets s) l

/-- No operation on a descriptor fails, a sender hands over closed frames only,
and what is added is open. -/
def SocketLabel.Intact {S K : Type} : SocketLabel S K → Prop
  | .call _ buf => ∃ ds, buf.Closed ds
  | .io _ ev => ev.Smooth id
  | .add _ fd => 0 ≤ fd.fd
  | .start _ getfl setfl => FileDescriptor.makeNonBlocking getfl setfl = .ok ()
  | _ => True

def HandshakeLabel.Intact {S K : Type} : HandshakeLabel S K → Prop
  | .socket _ l => l.Intact
  | .exchange _ _ ev => ev.Smooth
  | .receive _ _ .tau => True
  | .receive _ _ (.read ev) => ev.Smooth List.length

end RuralPipe
