/-
Tunnel frame pipes (`TunnelFramePipe`): their links, and a call of
`pipeInvokeNext` on its way down a chain and back.

A link to `kNotYetReadyTunnelFramePipe` is `none`. The compressing and the
signing pipe hand every frame on as it is, so a call that reaches one of them
goes on to the next pipe. On the way back, by return or by exception, each
pipe's guard runs in turn (`Invocation`).
-/
import Mathlib.Logic.Function.Basic
import RuralPipe.Exception

namespace RuralPipe

inductive PipeId
  | tunnel
  | compressing
  | signing
  | socket
  deriving DecidableEq

structure TunnelFramePipe where
  prev : Option PipeId
  next : Option PipeId
  numCallsToNext : Int
  nextIsDetaching : Bool

abbrev Pipes := PipeId → TunnelFramePipe

namespace TunnelFramePipe

def new : TunnelFramePipe := { prev := none, next := none, numCallsToNext := 0, nextIsDetaching := false }

def pipePush (ps : Pipes) (self prev : PipeId) : Except Failure Pipes :=
  if (ps self).prev ≠ none then .error (.abort "_prev == &kNotYetReadyTunnelFramePipe")
  else if (ps self).next ≠ none then .error (.abort "_next == &kNotYetReadyTunnelFramePipe")
  else if (ps prev).next ≠ none then .error (.abort "prev._next == &kNotYetReadyTunnelFramePipe")
  else
    let ps := Function.update ps self { ps self with prev := some prev }
    .ok (Function.update ps prev { ps prev with next := some self })

/-- The first locked section of `pipeInvokeNext`: its pipe and the next. -/
def invokeBegin (ps : Pipes) (self : PipeId) : Pipes × Option PipeId :=
  (Function.update ps self { ps self with numCallsToNext := (ps self).numCallsToNext + 1 }, (ps self).next)

/-- The guard of `pipeInvokeNext`; it also wakes a `pipePop` that waits. -/
def invokeEnd (ps : Pipes) (self : PipeId) : Pipes :=
  Function.update ps self { ps self with numCallsToNext := (ps self).numCallsToNext - 1 }

/-- The constructors push the compressing pipe behind the tunnel, the signing
pipe behind that one, and the socket behind both. -/
def attached : Except Failure Pipes := do
  let ps ← pipePush (fun _ => new) .compressing .tunnel
  let ps ← pipePush ps .signing .compressing
  pipePush ps .socket .signing

/-- Where a chain of `pipeInvokePrev` from `self` ends, if it ends with the
tunnel: only the passing pipes hand a frame on. -/
def pipeInvokePrev (ps : Pipes) : Nat → PipeId → Except Failure PipeId
  | 0, _ => .error (.abort "Chain without end")
  | n + 1, self =>
    match (ps self).prev with
    | none => .error (.throw (NotYetReadyException "Received frame before the pipe was configured"))
    | some .tunnel => .ok .tunnel
    | some .compressing => pipeInvokePrev ps n .compressing
    | some .signing => pipeInvokePrev ps n .signing
    | some .socket => .error (.abort "Socket producer consumer must be the last one in the chain")

end TunnelFramePipe

/-- A call of `pipeInvokeNext`, from the outermost pipe on: the pipes whose
guards are armed, the innermost first; and going down, the pipe whose
`onTunnelFrameFromPrev` comes next, or going up, the outcome. -/
inductive Invocation
  | down (inside : List PipeId) (next : Option PipeId)
  | up (inside : List PipeId) (res : Except Exception Unit)

namespace Invocation

open TunnelFramePipe

def invoke (ps : Pipes) (inside : List PipeId) (self : PipeId) : Pipes × Invocation :=
  let (ps, next) := invokeBegin ps self
  (ps, .down (self :: inside) next)

/-- One pipe further down or up. The socket's own work, and an outcome that
has left the outermost pipe, are no step of the pipes. -/
def step (ps : Pipes) : Invocation → Option (Except Failure (Pipes × Invocation))
  | .down inside none =>
    some (.ok (ps, .up inside (.error (NotYetReadyException "Received frame before the pipe was configured"))))
  | .down _ (some .tunnel) => some (.error (.abort "Tunnel producer consumer must be the first one in the chain"))
  | .down inside (some .compressing) => some (.ok (invoke ps inside .compressing))
  | .down inside (some .signing) => some (.ok (invoke ps inside .signing))
  | .down _ (some .socket) => none
  | .up (self :: inside) res => some (.ok (invokeEnd ps self, .up inside res))
  | .up [] _ => none

end Invocation

namespace TunnelFramePipe

/-- The attached chain runs from the tunnel to the socket and back. -/
structure Chain (ps : Pipes) : Prop where
  tunnel : (ps .tunnel).next = some .compressing
  compressing : (ps .compressing).next = some .signing
  signing : (ps .signing).next = some .socket
  back : pipeInvokePrev ps 4 .socket = .ok .tunnel

theorem attached_chain : ∃ ps, attached = .ok ps ∧ Chain ps := ⟨_, rfl, rfl, rfl, rfl, rfl⟩

/-- Calls leave the links alone. -/
theorem Chain.congr {ps ps' : Pipes} (h : Chain ps) (hn : ∀ p, (ps' p).next = (ps p).next)
    (hp : ∀ p, (ps' p).prev = (ps p).prev) : Chain ps' := by
  refine ⟨(hn _).trans h.tunnel, (hn _).trans h.compressing, (hn _).trans h.signing, ?_⟩
  have hb : ∀ n p, pipeInvokePrev ps' n p = pipeInvokePrev ps n p := by
    intro n
    induction n with
    | zero => exact fun _ => rfl
    | succ n ih =>
      intro p
      simp only [pipeInvokePrev, hp, ih]
  rw [hb]
  exact h.back

theorem invokeBegin_links (ps : Pipes) (self p : PipeId) :
    ((invokeBegin ps self).1 p).next = (ps p).next ∧ ((invokeBegin ps self).1 p).prev = (ps p).prev := by
  by_cases h : p = self
  · subst h
    simp [invokeBegin]
  · simp [invokeBegin, h]

theorem invokeEnd_links (ps : Pipes) (self p : PipeId) :
    ((invokeEnd ps self) p).next = (ps p).next ∧ ((invokeEnd ps self) p).prev = (ps p).prev := by
  by_cases h : p = self
  · subst h
    simp [invokeEnd]
  · simp [invokeEnd, h]

theorem Chain.invokeBegin {ps : Pipes} (h : Chain ps) (self : PipeId) : Chain (invokeBegin ps self).1 :=
  h.congr (fun p => (invokeBegin_links ps self p).1) fun p => (invokeBegin_links ps self p).2

theorem Chain.invokeEnd {ps : Pipes} (h : Chain ps) (self : PipeId) : Chain (invokeEnd ps self) :=
  h.congr (fun p => (invokeEnd_links ps self p).1) fun p => (invokeEnd_links ps self p).2

end TunnelFramePipe

end RuralPipe
