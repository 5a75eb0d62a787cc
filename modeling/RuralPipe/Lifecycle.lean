/-
The life of a `SocketProducerConsumer` on a tunnel: its constructor, which
pushes three pipes, and its destructor, which lets the pool run out and pops
the pipes again.

The tunnel outlives it, and its threads call through the pipes all the while,
also before there is a socket side and after. So the constructor and the
destructor take their steps between any steps of the stack, and when one is
gone another may be constructed on the same tunnel.

`pipePush` takes no lock, and is one step here.
-/
import RuralPipe.PipeHeap
import RuralPipe.SendingStack

namespace RuralPipe

namespace TunnelFramePipe

/-- `pipePop` up to its wait: the assertions, and the locked section. -/
def popBegin (ps : Pipes) (self : PipeId) : Except Failure (Pipes × PipeId) :=
  if (ps self).next ≠ none then .error (.abort "_next == &kNotYetReadyTunnelFramePipe")
  else
    match (ps self).prev with
    | none => .error (.abort "_prev->_next == this")
    | some prev =>
      if (ps prev).next ≠ some self then .error (.abort "_prev->_next == this")
      else .ok (Function.update ps prev { ps prev with nextIsDetaching := true, next := none }, prev)

/-- `pipePop` past its wait. -/
def popEnd (ps : Pipes) (self : PipeId) : Pipes := Function.update ps self { ps self with prev := none }

end TunnelFramePipe

namespace PipeHeap

theorem ofPipes_popBegin (ps : Pipes) (self : PipeId) :
    popBegin (ofPipes ps) self = (TunnelFramePipe.popBegin ps self).map fun r => (ofPipes r.1, r.2) := by
  simp only [popBegin, TunnelFramePipe.popBegin]
  have hself : (ofPipes ps self).prev = (ps self).prev ∧ (ofPipes ps self).next = (ps self).next := ⟨rfl, rfl⟩
  rw [hself.1, hself.2]
  split
  · rfl
  · cases (ps self).prev with
    | none => rfl
    | some prev =>
      have hprev : (ofPipes ps prev).next = (ps prev).next := rfl
      simp only [hprev]
      split
      · rfl
      · rw [Except.map, ofPipes_update]
        rfl

theorem ofPipes_popEnd (ps : Pipes) (self : PipeId) :
    popEnd (ofPipes ps) self = ofPipes (TunnelFramePipe.popEnd ps self) := by
  simp only [popEnd, TunnelFramePipe.popEnd, ofPipes_update]
  rfl

end PipeHeap

/-- The pipes of the socket's side, in the order in which they are pushed:
`_compresser`, `_signer`, and the `SocketProducerConsumer` itself. -/
inductive Layer
  | compresser
  | signer
  | socket
  deriving DecidableEq

namespace Layer

def pipe : Layer → PipeId
  | .compresser => .compressing
  | .signer => .signing
  | .socket => .socket

/-- The pipe it is pushed on. -/
def prev : Layer → PipeId
  | .compresser => .tunnel
  | .signer => .compressing
  | .socket => .signing

end Layer

/-- Where the constructor or the destructor stands: there is no socket side;
before the push of a pipe; constructed; in `_pool.join()`; before the `pipePop`
of a pipe, in its wait on the pipe before, past it. -/
inductive Phase
  | absent
  | pushing (l : Layer)
  | running
  | joining
  | popping (l : Layer)
  | waiting (l : Layer) (prev : PipeId)
  | leaving (l : Layer)

namespace Phase

/-- What follows the push of a pipe. -/
def pushed : Layer → Phase
  | .compresser => .pushing .signer
  | .signer => .pushing .socket
  | .socket => .running

/-- What follows the `pipePop` of a pipe: the socket's is called in the
destructor's body, the others' by their own destructors. -/
def popped : Layer → Phase
  | .socket => .popping .signer
  | .signer => .popping .compresser
  | .compresser => .absent

/-- The wait of `pipePop` looks at the count. -/
def afterWait (ps : Pipes) (l : Layer) (prev : PipeId) : Phase :=
  if (ps prev).numCallsToNext = 0 then .leaving l else .waiting l prev

end Phase

/-- The task has not been posted, or has returned. -/
def Task.Over : Task → Prop
  | .notAdded => True
  | .done => True
  | _ => False

/-- A sending stack, and the constructor or the destructor of its socket side. -/
structure Lifecycle (S K : Type) where
  stack : SendingStack S K
  phase : Phase

inductive LifeLabel (S K : Type)
  | stack (l : StackLabel S K)
  | construct
  | push
  | interrupt
  | join
  | pop
  | recheck
  | popped

namespace Lifecycle

variable {S K : Type}

/-- `addSocket` is called between the constructor and the destructor, which is
the one to set `_interrupted`. -/
def Permits (x : Lifecycle S K) : StackLabel S K → Prop
  | .socket (.add _ _) => x.phase = .running
  | .socket .interrupt => False
  | _ => True

def setPipes (x : Lifecycle S K) (pipes : Pipes) (phase : Phase) : Lifecycle S K :=
  { stack := { x.stack with pipes }, phase }

def abort (x : Lifecycle S K) (condition : String) : Lifecycle S K :=
  { x with stack := { x.stack with aborted := some condition } }

/-- The members of a new `SocketProducerConsumer`. -/
def construct (x : Lifecycle S K) : Lifecycle S K where
  stack :=
    { x.stack with
      pipes := fun p => if p = .tunnel then x.stack.pipes p else .new,
      sockets := { SocketState.start S K with senders := x.stack.sockets.senders } }
  phase := .pushing .compresser

end Lifecycle

open TunnelFramePipe in
inductive LifeStep {S K : Type} [DecidableEq S] [DecidableEq K] (fds : S → FileDescriptor) (mtu : Nat)
    (client : Option SessionId) : Lifecycle S K → LifeLabel S K → Lifecycle S K → Prop
  | stack {x : Lifecycle S K} {l stack} : x.Permits l → StackStep fds mtu client x.stack l stack →
      LifeStep fds mtu client x (.stack l) { x with stack }
  | construct {x : Lifecycle S K} : x.phase = .absent → LifeStep fds mtu client x .construct x.construct
  | push {x : Lifecycle S K} {l pipes} : x.phase = .pushing l → pipePush x.stack.pipes l.pipe l.prev = .ok pipes →
      LifeStep fds mtu client x .push (x.setPipes pipes (.pushed l))
  | pushAborts {x : Lifecycle S K} {l c} : x.phase = .pushing l →
      pipePush x.stack.pipes l.pipe l.prev = .error (.abort c) → LifeStep fds mtu client x .push (x.abort c)
  | interrupt {x : Lifecycle S K} : x.phase = .running →
      LifeStep fds mtu client x .interrupt
        { stack := { x.stack with sockets := { x.stack.sockets with interrupted := true } }, phase := .joining }
  | join {x : Lifecycle S K} : x.phase = .joining → (∀ k, (x.stack.sockets.tasks k).Over) →
      x.stack.sockets.map.sessions = [] → LifeStep fds mtu client x .join { x with phase := .popping .socket }
  | joinAborts {x : Lifecycle S K} : x.phase = .joining → (∀ k, (x.stack.sockets.tasks k).Over) →
      x.stack.sockets.map.sessions ≠ [] → LifeStep fds mtu client x .join (x.abort "_sessions.empty()")
  | pop {x : Lifecycle S K} {l pipes prev} : x.phase = .popping l → popBegin x.stack.pipes l.pipe = .ok (pipes, prev) →
      LifeStep fds mtu client x .pop (x.setPipes pipes (.afterWait pipes l prev))
  | popAborts {x : Lifecycle S K} {l c} : x.phase = .popping l → popBegin x.stack.pipes l.pipe = .error (.abort c) →
      LifeStep fds mtu client x .pop (x.abort c)
  | recheck {x : Lifecycle S K} {l prev} : x.phase = .waiting l prev →
      LifeStep fds mtu client x .recheck { x with phase := .afterWait x.stack.pipes l prev }
  | popped {x : Lifecycle S K} {l} : x.phase = .leaving l →
      LifeStep fds mtu client x .popped (x.setPipes (popEnd x.stack.pipes l.pipe) (.popped l))

/-- The tunnel's threads are at their loops' heads, and there is no socket side
yet. -/
def Lifecycle.start (S K : Type) : Lifecycle S K where
  stack :=
    { pipes := fun _ => .new, threads := fun _ => .start, calls := fun _ => none, sockets := .start S K,
      interrupted := false, aborted := none }
  phase := .absent

/-- A tunnel with the queues `S`, whose descriptors are `fds`, and one
`SocketProducerConsumer` after another on it. -/
def lifecycle {S : Type} (K : Type) [DecidableEq S] [DecidableEq K] (fds : S → FileDescriptor) (mtu : Nat)
    (client : Option SessionId) : Machine (Lifecycle S K) (LifeLabel S K) where
  init x := x = .start S K
  step x l x' := x.stack.Alive ∧ LifeStep fds mtu client x l x'

end RuralPipe
