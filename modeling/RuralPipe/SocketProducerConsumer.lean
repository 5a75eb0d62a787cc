/-
The socket side (`SocketProducerConsumer`): its session table, the senders in
`onTunnelFrameFromPrev` and the tasks of `addSocket`.

Each section that the code runs under its locks is one function on the session
table (`select`, `recheck`, `complete`, `register`, `cleanup`). `SocketStep`
lets any number of threads take these sections and their system calls in any
order. A thread that waits on a session's condition variable keeps its shared
hold on `_mutex`, which keeps `register` and `cleanup` out.

A socket stands for its stream too, which it becomes once registered. What
went out on it since (`wire`, `sends`) is recorded and read by no step.
-/
import Mathlib.Data.Set.Card
import RuralPipe.InitialExchange
import RuralPipe.Machine
import RuralPipe.TunnelFrameStream

namespace RuralPipe

/-- How the process ends: an exception leaves a task posted to the pool, an
assertion fails, or the behaviour is undefined from here on. -/
inductive Crash
  | terminated (ex : Exception)
  | aborted (condition : String)
  | undefined (what : String)
  deriving DecidableEq

structure StreamTracker where
  stream : TunnelFrameStream
  inUse : Bool
  bytesSending : UInt64
  bytesSent : UInt64

/-- A session; `obj` is the object's identity. -/
structure Session (K : Type) where
  obj : Nat
  sessionId : SessionId
  nextSeqNum : UInt64
  streams : List K

/-- `_sessions` and the stream trackers, and the number of sessions created. -/
structure SessionsMap (K : Type) where
  sessions : List (Session K)
  created : Nat
  trackers : K → StreamTracker

namespace SessionsMap

variable {K : Type} [DecidableEq K]

def find (m : SessionsMap K) (sessionId : SessionId) : Option (Session K) :=
  m.sessions.find? (·.sessionId = sessionId)

/-- `_sessions` with what is found under `sessionId` changed. -/
def modify (m : SessionsMap K) (sessionId : SessionId) (f : Session K → Session K) : SessionsMap K :=
  { m with sessions := m.sessions.map fun s => if s.sessionId = sessionId then f s else s }

def setTracker (m : SessionsMap K) (st : K) (f : StreamTracker → StreamTracker) : SessionsMap K :=
  { m with trackers := Function.update m.trackers st (f (m.trackers st)) }

/-! ## A sender's sections -/

/-- How `onTunnelFrameFromPrev` goes on from its selection. -/
inductive Selection (K : Type)
  | notYetReady (ex : Exception)
  | crash (c : Crash)
  | take (m : SessionsMap K) (obj : Nat) (buf : TunnelFrameBuffer) (st : K)
  | wait (m : SessionsMap K) (obj : Nat) (buf : TunnelFrameBuffer) (st : K)

/-- `st->inUse = true; st->bytesSending += buf.size`. -/
def take (m : SessionsMap K) (st : K) (size : Nat) : SessionsMap K :=
  m.setTracker st fun t => { t with inUse := true, bytesSending := t.bytesSending + UInt64.ofNat size }

/-- From the entry to the release of the locks or to the wait: the first
stream not in use, or else the first in the table. -/
def select (m : SessionsMap K) (buf : TunnelFrameBuffer) : Selection K :=
  match m.sessions with
  | [] => .notYetReady (NotYetReadyException "The other side of the tunnel is not connected yet")
  | [session] =>
    let buf := TunnelFrameWriter.setSequenceNumberOnClosedBuffer buf session.nextSeqNum
    let m := { m with sessions := [{ session with nextSeqNum := session.nextSeqNum + 1 }] }
    match session.streams.find? fun k => !(m.trackers k).inUse with
    | some st => .take (m.take st buf.size) session.obj buf st
    | none =>
      match session.streams with
      | [] => .crash (.undefined "its[0] of an empty table")
      | st :: _ => .wait m session.obj buf st
  | _ => .crash (.aborted "_sessions.size() == 1")

/-- A waiting sender looks at its stream again. -/
def recheck (m : SessionsMap K) (buf : TunnelFrameBuffer) (st : K) : Option (SessionsMap K) :=
  if (m.trackers st).inUse then none else some (m.take st buf.size)

/-- The end of `onTunnelFrameFromPrev` after `send` on `st`: the count of bytes
sent if it returned, and the guard, which locks the session's mutex. -/
def complete (m : SessionsMap K) (obj : Nat) (buf : TunnelFrameBuffer) (st : K) (ok : Bool) :
    Except Crash (SessionsMap K) :=
  match m.sessions.find? (·.obj = obj) with
  | none => .error (.undefined "session.mutex of an erased session")
  | some _ => .ok <| m.setTracker st fun t =>
      { t with
        inUse := false,
        bytesSending := t.bytesSending - UInt64.ofNat buf.size,
        bytesSent := if ok then t.bytesSent + UInt64.ofNat buf.size else t.bytesSent }

/-! ## A task's sections -/

/-- The registration of a stream that completed its exchange. -/
def register (m : SessionsMap K) (k : K) (stream : TunnelFrameStream) (sessionId : SessionId) :
    Except Exception (SessionsMap K) :=
  let tracker : StreamTracker := { stream, inUse := false, bytesSending := 0, bytesSent := 0 }
  match m.find sessionId with
  | some _ => .ok <|
      { m.modify sessionId fun s => { s with streams := s.streams ++ [k] } with
        trackers := Function.update m.trackers k tracker }
  | none =>
    if m.sessions ≠ [] then
      .error ⟨.exception, "Currently only one session is supported per server instance"⟩
    else .ok
      { sessions := [{ obj := m.created, sessionId, nextSeqNum := kInitFrameSeqNum + 1, streams := [k] }],
        created := m.created + 1,
        trackers := Function.update m.trackers k tracker }

/-- `(*itStream)->stream.close()`. -/
def closeStream (m : SessionsMap K) (k : K) : Except Failure (SessionsMap K) :=
  match (m.trackers k).stream.fd.close with
  | .error e => .error e
  | .ok fd => .ok (m.setTracker k fun t => { t with stream := { t.stream with fd } })

/-- The locked part of the cleanup of a stream whose receive loop ended. -/
def cleanup (m : SessionsMap K) (k : K) (sessionId : SessionId) : Except Crash (SessionsMap K) :=
  match m.find sessionId with
  | none => .error (.undefined "_sessions.find(sessionId) == _sessions.end()")
  | some s =>
    if (s.streams.erase k).isEmpty then
      .ok { m with sessions := m.sessions.filter (·.sessionId ≠ sessionId) }
    else .ok (m.modify sessionId fun s => { s with streams := s.streams.erase k })

end SessionsMap

/-! ## Threads -/

/-- A sender between its selection of the stream `st` and the end of its
guard; `out` is what its `send` has put on the stream. -/
structure Sending (K : Type) where
  obj : Nat
  buf : TunnelFrameBuffer
  st : K
  send : Send
  out : List UInt8

/-- A thread in `onTunnelFrameFromPrev`. -/
inductive Sender (K : Type)
  | idle
  | entered (buf : TunnelFrameBuffer)
  | waiting (obj : Nat) (buf : TunnelFrameBuffer) (st : K) (notified : Bool)
  | sending (s : Sending K)
  | returned (buf : TunnelFrameBuffer) (res : Except Exception Unit)

/-- The task of a socket: before `addSocket`, posted to the pool, in the
exchange, past it, in the receive loop, past that loop, past the stream's
`close`, and at its end. -/
inductive Task
  | notAdded
  | posted (fd : FileDescriptor)
  | exchanging (stream : TunnelFrameStream)
  | exchanged (stream : TunnelFrameStream) (ier : InitialExchangeResult)
  | receiving (sessionId : SessionId)
  | loopEnded (sessionId : SessionId)
  | closed (sessionId : SessionId)
  | done

/-- A `send` that ended: whose it was, the frame, the bytes of it put on the
stream, and whether it returned. -/
structure SendRecord (S : Type) where
  sender : S
  frame : List UInt8
  written : List UInt8
  ok : Bool

structure SocketState (S K : Type) where
  map : SessionsMap K
  senders : S → Sender K
  tasks : K → Task
  interrupted : Bool
  crash : Option Crash
  wire : K → List UInt8
  sends : K → List (SendRecord S)

inductive SocketLabel (S K : Type)
  | call (i : S) (buf : TunnelFrameBuffer)
  | select (i : S)
  | recheck (i : S)
  | io (i : S) (ev : IoEvent Nat)
  | complete (i : S) (wake : Option S)
  | leave (i : S)
  | add (k : K) (fd : FileDescriptor)
  | start (k : K) (getfl setfl : Syscall Nat)
  | exchange (k : K) (io : ExchangeIo)
  | register (k : K)
  | receiveEnds (k : K) (e : Failure)
  | close (k : K)
  | cleanup (k : K)
  | interrupt

namespace SocketState

variable {S K : Type}

/-- Some sender waits, with its shared hold on `_mutex`. -/
def Shared (x : SocketState S K) : Prop := ∃ i obj buf st n, x.senders i = .waiting obj buf st n

/-- `session.cv.notify_one()` wakes `wake`, a waiter not yet woken if there is
one. -/
def Wakes (x : SocketState S K) (obj : Nat) : Option S → Prop
  | some j => ∃ buf st, x.senders j = .waiting obj buf st false
  | none => ∀ j buf st, x.senders j ≠ .waiting obj buf st false

section
variable [DecidableEq K]

def setTask (x : SocketState S K) (k : K) (t : Task) : SocketState S K :=
  { x with tasks := Function.update x.tasks k t }

/-- `out` goes out on the stream `st`. -/
def put (x : SocketState S K) (st : K) (out : List UInt8) : SocketState S K :=
  { x with wire := Function.update x.wire st (x.wire st ++ out) }

/-- A `send` on `st` ended. -/
def record (x : SocketState S K) (st : K) (r : SendRecord S) : SocketState S K :=
  { x with sends := Function.update x.sends st (x.sends st ++ [r]) }

variable {x : SocketState S K} {k k' st : K} {t : Task}

@[simp] theorem setTask_self : (x.setTask k t).tasks k = t := Function.update_self ..
theorem setTask_ne (h : k' ≠ k) : (x.setTask k t).tasks k' = x.tasks k' := Function.update_of_ne h ..
@[simp] theorem setTask_setTask (t' : Task) : (x.setTask k t).setTask k t' = x.setTask k t' := by simp [setTask]
@[simp] theorem setTask_map : (x.setTask k t).map = x.map := rfl
@[simp] theorem setTask_senders : (x.setTask k t).senders = x.senders := rfl
@[simp] theorem setTask_wire : (x.setTask k t).wire = x.wire := rfl
@[simp] theorem setTask_sends : (x.setTask k t).sends = x.sends := rfl

@[simp] theorem put_map (out : List UInt8) : (x.put st out).map = x.map := rfl
@[simp] theorem put_senders (out : List UInt8) : (x.put st out).senders = x.senders := rfl
@[simp] theorem put_tasks (out : List UInt8) : (x.put st out).tasks = x.tasks := rfl
@[simp] theorem put_sends (out : List UInt8) : (x.put st out).sends = x.sends := rfl

@[simp] theorem record_map (r : SendRecord S) : (x.record st r).map = x.map := rfl
@[simp] theorem record_senders (r : SendRecord S) : (x.record st r).senders = x.senders := rfl
@[simp] theorem record_tasks (r : SendRecord S) : (x.record st r).tasks = x.tasks := rfl
@[simp] theorem record_wire (r : SendRecord S) : (x.record st r).wire = x.wire := rfl

theorem mem_sends_record {r r' : SendRecord S} :
    r' ∈ (x.record st r).sends k ↔ r' ∈ x.sends k ∨ (k = st ∧ r' = r) := by
  by_cases hk : k = st
  · subst hk
    simp [record]
  · simp [record, hk]

end

section
variable [DecidableEq S]

def setSender (x : SocketState S K) (i : S) (a : Sender K) : SocketState S K :=
  { x with senders := Function.update x.senders i a }

def notify (x : SocketState S K) : Option S → SocketState S K
  | none => x
  | some j =>
    match x.senders j with
    | .waiting obj buf st _ => x.setSender j (.waiting obj buf st true)
    | _ => x

variable {x : SocketState S K} {i j : S} {a : Sender K} {w : Option S}

@[simp] theorem setSender_self : (x.setSender i a).senders i = a := Function.update_self ..
theorem setSender_ne (h : j ≠ i) : (x.setSender i a).senders j = x.senders j := Function.update_of_ne h ..
@[simp] theorem setSender_map : (x.setSender i a).map = x.map := rfl
@[simp] theorem setSender_tasks : (x.setSender i a).tasks = x.tasks := rfl
@[simp] theorem setSender_wire : (x.setSender i a).wire = x.wire := rfl
@[simp] theorem setSender_sends : (x.setSender i a).sends = x.sends := rfl
@[simp] theorem setSender_crash : (x.setSender i a).crash = x.crash := rfl

/-- A wake changes no more than the flag of a waiter. -/
theorem notify_cases (x : SocketState S K) (w : Option S) :
    x.notify w = x ∨ ∃ j obj buf st n, x.senders j = .waiting obj buf st n ∧
      x.notify w = x.setSender j (.waiting obj buf st true) := by
  unfold notify
  split
  · exact .inl rfl
  · rename_i j
    cases hj : x.senders j with
    | waiting obj buf st n => exact .inr ⟨j, obj, buf, st, n, hj, rfl⟩
    | idle => exact .inl rfl
    | entered buf => exact .inl rfl
    | sending s => exact .inl rfl
    | returned buf res => exact .inl rfl

@[simp] theorem notify_map : (x.notify w).map = x.map := by
  rcases x.notify_cases w with he | ⟨_, _, _, _, _, -, he⟩
  · rw [he]
  · rw [he, setSender_map]
@[simp] theorem notify_tasks : (x.notify w).tasks = x.tasks := by
  rcases x.notify_cases w with he | ⟨_, _, _, _, _, -, he⟩
  · rw [he]
  · rw [he, setSender_tasks]
@[simp] theorem notify_wire : (x.notify w).wire = x.wire := by
  rcases x.notify_cases w with he | ⟨_, _, _, _, _, -, he⟩
  · rw [he]
  · rw [he, setSender_wire]
@[simp] theorem notify_sends : (x.notify w).sends = x.sends := by
  rcases x.notify_cases w with he | ⟨_, _, _, _, _, -, he⟩
  · rw [he]
  · rw [he, setSender_sends]
@[simp] theorem notify_crash : (x.notify w).crash = x.crash := by
  rcases x.notify_cases w with he | ⟨_, _, _, _, _, -, he⟩
  · rw [he]
  · rw [he, setSender_crash]

end

end SocketState

/-- The outcome of `send` at its end. -/
def Send.outcome : Send → Option (Except Exception Unit)
  | .writing _ _ => none
  | .returned => some (.ok ())
  | .threw ex => some (.error ex)

/-- A write on a closed descriptor only fails. -/
def FileDescriptor.Allows (fd : FileDescriptor) (ev : IoEvent Nat) : Prop :=
  fd.fd < 0 → ∀ n, ev ≠ .call (.ok n)

/-- A thread of `onTunnelFrameFromPrev` or a task takes a step. A posted task may
start in every state, so the runs are those over a `_pool` of any size
(`FindsThread` is what a size adds). -/
inductive SocketStep {S K : Type} [DecidableEq S] [DecidableEq K] (clientSessionId : Option SessionId) :
    SocketState S K → SocketLabel S K → SocketState S K → Prop
  | call {x : SocketState S K} {i buf} : x.senders i = .idle →
      SocketStep clientSessionId x (.call i buf) (x.setSender i (.entered buf))
  | notYetReady {x : SocketState S K} {i buf ex} : x.senders i = .entered buf →
      x.map.select buf = .notYetReady ex →
      SocketStep clientSessionId x (.select i) (x.setSender i (.returned buf (.error ex)))
  | selectCrash {x : SocketState S K} {i buf c} : x.senders i = .entered buf → x.map.select buf = .crash c →
      SocketStep clientSessionId x (.select i) { x with crash := some c }
  | take {x : SocketState S K} {i buf map obj buf' st} : x.senders i = .entered buf →
      x.map.select buf = .take map obj buf' st →
      SocketStep clientSessionId x (.select i)
        ({ x with map }.setSender i (.sending ⟨obj, buf', st, TunnelFrameStream.send buf', []⟩))
  | wait {x : SocketState S K} {i buf map obj buf' st} : x.senders i = .entered buf →
      x.map.select buf = .wait map obj buf' st →
      SocketStep clientSessionId x (.select i) ({ x with map }.setSender i (.waiting obj buf' st false))
  | recheckTake {x : SocketState S K} {i obj buf st n map} : x.senders i = .waiting obj buf st n →
      x.map.recheck buf st = some map →
      SocketStep clientSessionId x (.recheck i)
        ({ x with map }.setSender i (.sending ⟨obj, buf, st, TunnelFrameStream.send buf, []⟩))
  | recheckWait {x : SocketState S K} {i obj buf st n} : x.senders i = .waiting obj buf st n →
      x.map.recheck buf st = none →
      SocketStep clientSessionId x (.recheck i) (x.setSender i (.waiting obj buf st false))
  | io {x : SocketState S K} {i s ev send out} : x.senders i = .sending s →
      (x.map.trackers s.st).stream.fd.Allows ev →
      (x.map.trackers s.st).stream.sendStep s.buf s.send ev = some (send, out) →
      SocketStep clientSessionId x (.io i ev)
        ((x.put s.st out).setSender i (.sending { s with send, out := s.out ++ out }))
  | complete {x : SocketState S K} {i s res map wake} : x.senders i = .sending s → s.send.outcome = some res →
      x.map.complete s.obj s.buf s.st res.isOk = .ok map → x.Wakes s.obj wake →
      SocketStep clientSessionId x (.complete i wake)
        ((({ x with map }.record s.st
          { sender := i, frame := s.buf.bytes, written := s.out, ok := res.isOk }).setSender i
            (.returned s.buf res)).notify wake)
  | completeCrash {x : SocketState S K} {i s res c wake} : x.senders i = .sending s → s.send.outcome = some res →
      x.map.complete s.obj s.buf s.st res.isOk = .error c →
      SocketStep clientSessionId x (.complete i wake) { x with crash := some c }
  | leave {x : SocketState S K} {i buf res} : x.senders i = .returned buf res →
      SocketStep clientSessionId x (.leave i) (x.setSender i .idle)
  | add {x : SocketState S K} {k fd} : x.tasks k = .notAdded →
      SocketStep clientSessionId x (.add k fd) (x.setTask k (.posted fd))
  | start {x : SocketState S K} {k fd getfl setfl buffer} : x.tasks k = .posted fd →
      FileDescriptor.makeNonBlocking getfl setfl = .ok () →
      SocketStep clientSessionId x (.start k getfl setfl) (x.setTask k (.exchanging ⟨fd, buffer⟩))
  | startThrows {x : SocketState S K} {k fd getfl setfl ex} : x.tasks k = .posted fd →
      FileDescriptor.makeNonBlocking getfl setfl = .error ex →
      SocketStep clientSessionId x (.start k getfl setfl) { x with crash := some (.terminated ex) }
  | exchange {x : SocketState S K} {k stream buffer io ier} : x.tasks k = .exchanging stream →
      initialTunnelFrameExchange clientSessionId io = .ok ier →
      SocketStep clientSessionId x (.exchange k io) (x.setTask k (.exchanged { stream with buffer } ier))
  | exchangeThrows {x : SocketState S K} {k stream io ex} : x.tasks k = .exchanging stream →
      initialTunnelFrameExchange clientSessionId io = .error (.throw ex) →
      SocketStep clientSessionId x (.exchange k io) (x.setTask k .done)
  | exchangeAborts {x : SocketState S K} {k stream io c} : x.tasks k = .exchanging stream →
      initialTunnelFrameExchange clientSessionId io = .error (.abort c) →
      SocketStep clientSessionId x (.exchange k io) { x with crash := some (.aborted c) }
  | register {x : SocketState S K} {k stream ier map} : x.tasks k = .exchanged stream ier → ¬ x.Shared →
      x.map.register k stream ier.sessionId = .ok map →
      SocketStep clientSessionId x (.register k) ({ x with map }.setTask k (.receiving ier.sessionId))
  | registerThrows {x : SocketState S K} {k stream ier ex} : x.tasks k = .exchanged stream ier → ¬ x.Shared →
      x.map.register k stream ier.sessionId = .error ex →
      SocketStep clientSessionId x (.register k) { x with crash := some (.terminated ex) }
  | receiveEnds {x : SocketState S K} {k sid ex} : x.tasks k = .receiving sid →
      SocketStep clientSessionId x (.receiveEnds k (.throw ex)) (x.setTask k (.loopEnded sid))
  | receiveAborts {x : SocketState S K} {k sid c} : x.tasks k = .receiving sid →
      SocketStep clientSessionId x (.receiveEnds k (.abort c)) { x with crash := some (.aborted c) }
  | close {x : SocketState S K} {k sid map} : x.tasks k = .loopEnded sid → x.map.closeStream k = .ok map →
      SocketStep clientSessionId x (.close k) ({ x with map }.setTask k (.closed sid))
  | closeAborts {x : SocketState S K} {k sid c} : x.tasks k = .loopEnded sid →
      x.map.closeStream k = .error (.abort c) →
      SocketStep clientSessionId x (.close k) { x with crash := some (.aborted c) }
  | cleanup {x : SocketState S K} {k sid map} : x.tasks k = .closed sid → ¬ x.Shared →
      x.map.cleanup k sid = .ok map →
      SocketStep clientSessionId x (.cleanup k) ({ x with map }.setTask k .done)
  | cleanupCrash {x : SocketState S K} {k sid c} : x.tasks k = .closed sid → ¬ x.Shared →
      x.map.cleanup k sid = .error c →
      SocketStep clientSessionId x (.cleanup k) { x with crash := some c }
  | interrupt {x : SocketState S K} : SocketStep clientSessionId x .interrupt { x with interrupted := true }

/-- A thread of `_pool` is in the task. -/
def Task.running : Task → Bool
  | .notAdded => false
  | .posted _ => false
  | .done => false
  | _ => true

/-- The sockets whose tasks have a thread of `_pool`. -/
def SocketState.running {S K : Type} (x : SocketState S K) : Set K := {k | (x.tasks k).running = true}

/-- A task keeps its thread to its end, so with a `_pool` of `threads` threads
a posted one starts only while fewer of them are taken. -/
def FindsThread {S K : Type} (threads : Nat) (x : SocketState S K) (l : SocketLabel S K) : Prop :=
  ∀ k getfl setfl, l = .start k getfl setfl → x.running.encard < threads

/-- Nothing has been added, and no sender is there. -/
def SocketState.start (S K : Type) : SocketState S K where
  map := { sessions := [], created := 0,
           trackers := fun _ =>
             { stream := ⟨⟨"", -1⟩, fun _ => 0⟩, inUse := false, bytesSending := 0, bytesSent := 0 } }
  senders := fun _ => .idle
  tasks := fun _ => .notAdded
  interrupted := false
  crash := none
  wire := fun _ => []
  sends := fun _ => []

/-- A `SocketProducerConsumer` as a client of `clientSessionId`, or as a
server, used by the threads `S` and given the sockets `K`. -/
def sockets (S K : Type) [DecidableEq S] [DecidableEq K] (clientSessionId : Option SessionId) :
    Machine (SocketState S K) (SocketLabel S K) where
  init x := x = .start S K
  step x l x' := x.crash = none ∧ SocketStep clientSessionId x l x'

end RuralPipe
