/-
Both ends together: a sending stack, a receiving stack, and the streams between
them.

While nothing fails, a datagram is at every moment at one place: carried over
in an MTU buffer, in a batch, in a frame on a stream, or in a frame being
delivered. What is on a stream is read off the bytes themselves: those that
`receive` has in its buffer, those between the two ends, and those that `send`
has yet to write (`flow`). The places make up a conveyor (`belt`), whose laws
then say that no datagram is lost, doubled or changed, and when they keep
their order.
-/
import Mathlib.Data.Fintype.BigOperators
import RuralPipe.Conveyor
import RuralPipe.ReceivingStack
import RuralPipe.SendingFlow

namespace RuralPipe

open Bytes

/-- The stacks, how many bytes have been taken off each stream, the datagrams
read from the one side's tunnel queues, and those written to the other's. -/
structure EndToEnd (S K : Type) where
  sending : SendingStack S K
  receiving : ReceivingStack K
  taken : K → Nat
  read : List (S × List UInt8)
  written : List (Nat × List UInt8)

inductive EndToEndLabel (S K : Type)
  | send (l : StackLabel S K)
  | receive (k : K) (ev : ReceiveEvent)
  | interrupt

/-- No assertion has failed on the receiving side. -/
def ReceivingStack.Alive {K : Type} (x : ReceivingStack K) : Prop := ∀ k c, x.loops k ≠ .ended (.abort c)

/-- A step of either side. The kernel gives a reader what has come over its
stream, in any portions. -/
inductive EndToEndStep {S K : Type} [DecidableEq S] [DecidableEq K] (fds : S → FileDescriptor) (mtu : Nat)
    (client : Option SessionId) : EndToEnd S K → EndToEndLabel S K → EndToEnd S K → Prop
  | send {x : EndToEnd S K} {l sending} : x.sending.Alive → StackStep fds mtu client x.sending l sending →
      EndToEndStep fds mtu client x (.send l) { x with sending, read := x.read ++ l.read.toList }
  | receive {x : EndToEnd S K} {k ev receiving out} : x.receiving.Alive →
      ev.bytes <+: (x.sending.sockets.wire k).drop (x.taken k) → x.receiving.step k ev = some (receiving, out) →
      EndToEndStep fds mtu client x (.receive k ev)
        { x with
          receiving,
          taken := Function.update x.taken k (x.taken k + ev.bytes.length),
          written := x.written ++ out.toList }
  | interrupt {x : EndToEnd S K} : EndToEndStep fds mtu client x .interrupt
      { x with receiving := { x.receiving with interrupted := true } }

/-- The pipes are attached and every loop is at its head. -/
structure ReceivingStack.Starts {K : Type} (x : ReceivingStack K) : Prop where
  pipes : TunnelFramePipe.attached = .ok x.pipes
  loops : ∀ k, x.loops k = .head
  uninterrupted : x.interrupted = false
  unlocked : ∀ idx, x.queues.locked idx = false

structure EndToEnd.Starts {S K : Type} (x : EndToEnd S K) : Prop where
  sending : x.sending.Starts
  receiving : x.receiving.Starts
  taken : ∀ k, x.taken k = 0
  read : x.read = []
  written : x.written = []

/-- A stack with the tunnel queues `S` sends over the streams `K` to another
stack. -/
def endToEnd {S : Type} (K : Type) [DecidableEq S] [DecidableEq K] (fds : S → FileDescriptor) (mtu : Nat)
    (client : Option SessionId) : Machine (EndToEnd S K) (EndToEndLabel S K) where
  init := EndToEnd.Starts
  step := EndToEndStep fds mtu client

/-- No operation on a descriptor fails, no stream ends, nothing is interrupted
and no assertion aborts; and the tunnel device takes whole datagrams. -/
def Undisturbed {S K : Type} (t : Machine.Transition (EndToEnd S K) (EndToEndLabel S K)) : Prop :=
  match t.label with
  | .send l => l.Smooth ∧ t.post.sending.Alive
  | .receive k ev => ev.Smooth ∧ (t.pre.receiving.loops k).Whole ev
  | .interrupt => False

namespace EndToEnd

variable {S K : Type} {x x' : EndToEnd S K} {i : S} {k : K}

/-! ## Where the datagrams are -/

/-- The bytes of frames on the stream: taken, on their way, and yet to be put on
it. -/
noncomputable def flow (x : EndToEnd S K) (k : K) : List UInt8 :=
  (x.receiving.loops k).given (x.receiving.streams k) ++ (x.sending.sockets.outgoing k).drop (x.taken k)

/-- The datagrams in a frame's bytes. -/
def frameDatagrams (f : List UInt8) : List (List UInt8) := RuralPipe.datagrams (f.drop sizeofTunnelFrameHeader)

/-- The datagrams in frames on the stream. -/
noncomputable def underway (x : EndToEnd S K) (k : K) : List (List UInt8) :=
  (frames.chunks (x.flow k)).1.flatMap frameDatagrams

/-- The datagrams of a frame taken off the stream that are not yet delivered. -/
def pending (x : EndToEnd S K) (k : K) : List (List UInt8) := (x.receiving.loops k).pending

end EndToEnd

inductive Place (S K : Type)
  | carried (i : S)
  | batch (i : S)
  | stream (k : K)
  | delivery (k : K)

/-- From the MTU buffer to the batch beside it, from there to any stream, and
from the stream to its own delivery. -/
def places (S K : Type) : Layout (Place S K) where
  entry
    | .carried _ => True
    | _ => False
  link
    | .carried i, .batch j => i = j
    | .batch _, .stream _ => True
    | .stream k, .delivery k' => k = k'
    | _, _ => False
  exit
    | .delivery _ => True
    | _ => False

namespace EndToEnd

variable {S K : Type} {x x' : EndToEnd S K} {i : S} {k : K}

noncomputable def belt (x : EndToEnd S K) : Conveyor (Place S K) (List UInt8) where
  holds
    | .carried i => x.sending.carried i
    | .batch i => x.sending.batch i
    | .stream k => x.underway k
    | .delivery k => x.pending k
  loaded := x.read.map (·.2)
  unloaded := x.written.map (·.2)

/-- The stream has the frames `fs` to itself, and its loop the datagrams `ds`
to deliver. -/
structure Flowing (x : EndToEnd S K) (k : K) (fs : List TunnelFrameBuffer) (ds : List (List UInt8)) : Prop where
  closed : ∀ f ∈ fs, ∃ ds, f.Closed ds
  flow : x.flow k = (fs.map TunnelFrameBuffer.bytes).flatten
  loop : (x.receiving.loops k).Holds (x.receiving.streams k)
    ((x.receiving.loops k).given (x.receiving.streams k)) ds

theorem Flowing.pending_eq {fs ds} (h : x.Flowing k fs ds) : x.pending k = ds := h.loop.pending_eq

/-- The frames are found again in the bytes. -/
theorem underway_eq {fs : List TunnelFrameBuffer} (hfs : ∀ f ∈ fs, ∃ ds, f.Closed ds)
    (h : x.flow k = (fs.map TunnelFrameBuffer.bytes).flatten) :
    x.underway k = fs.flatMap TunnelFrameBuffer.datagrams := by
  have hw : ∀ b ∈ fs.map TunnelFrameBuffer.bytes, frames.Whole b := by
    intro b hb
    obtain ⟨f, hf, rfl⟩ := List.mem_map.1 hb
    obtain ⟨ds, hds⟩ := hfs f hf
    exact hds.whole
  have hch := Delimited.chunks_flatten hw []
  rw [List.append_nil, Delimited.chunks_nil, List.append_nil] at hch
  rw [underway, h, hch, List.flatMap_map]
  rfl

/-! ## The invariant -/

section
variable [DecidableEq S] [DecidableEq K] {fds : S → FileDescriptor} {mtu : Nat} {client : Option SessionId}

variable (fds mtu client) in
/-- The sending stack is calm, no loop of the receiving one has ended, and every
stream has whole frames and nothing else on it. -/
structure Inv (x : EndToEnd S K) : Prop where
  reachable : (sendingStack K fds mtu client).Reachable x.sending
  calm : x.sending.Calm
  chain : TunnelFramePipe.Chain x.receiving.pipes
  uninterrupted : x.receiving.interrupted = false
  taken : ∀ k, x.taken k ≤ (x.sending.sockets.wire k).length
  flowing : ∀ k, ∃ fs ds, x.Flowing k fs ds

omit [DecidableEq S] [DecidableEq K] in
theorem Starts.flow (h : x.Starts) (k : K) : x.flow k = [] := by
  obtain ⟨pipes, -, hx⟩ := h.sending
  have hfree : ∀ i s, (SocketState.start S K).senders i = .sending s → s.st ≠ k := by
    intro i s hs
    cases hs
  rw [EndToEnd.flow, h.receiving.loops, hx, SocketState.outgoing, SocketState.unsent_free hfree]
  exact List.drop_nil

theorem Inv.start (h : x.Starts) : x.Inv fds mtu client := by
  obtain ⟨ps, hps, hch⟩ := TunnelFramePipe.attached_chain
  rw [h.receiving.pipes] at hps
  cases hps
  have hr : (sendingStack K fds mtu client).Reachable x.sending := .init h.sending
  obtain ⟨pipes, hp, hx⟩ := h.sending
  refine ⟨hr, ?_, hch, h.receiving.uninterrupted, fun k => ?_,
    fun k => ⟨[], [], (fun _ hf => nomatch hf), h.flow k, ?_⟩⟩
  · rw [hx]
    exact ⟨⟨(fun _ _ _ hs => nomatch hs), fun _ _ hr => nomatch hr⟩, (fun _ ⟨_, hw⟩ => nomatch hw), rfl⟩
  · rw [h.taken]
    exact Nat.zero_le _
  · rw [h.receiving.loops]
    exact ⟨rfl, rfl⟩

theorem Inv.taken_outgoing (h : x.Inv fds mtu client) (k : K) :
    x.taken k ≤ (x.sending.sockets.outgoing k).length := by
  rw [SocketState.outgoing, List.length_append]
  exact Nat.le_add_right_of_le (h.taken k)

/-! ## Steps of the sending side -/

omit [DecidableEq S] [DecidableEq K] in
theorem Flowing.underway_eq {fs ds} (h : x.Flowing k fs ds) : x.underway k = fs.flatMap TunnelFrameBuffer.datagrams :=
  EndToEnd.underway_eq h.closed h.flow

/-- What was on the streams' wires stays there. -/
theorem taken_send {l : StackLabel S K} {sending : SendingStack S K} (h : x.Inv fds mtu client)
    (hs : StackStep fds mtu client x.sending l sending) (k : K) : x.taken k ≤ (sending.sockets.wire k).length := by
  have hwire : ∃ out, sending.sockets.wire k = x.sending.sockets.wire k ++ out := by
    cases hs with
    | enter hc hl hst => exact SocketState.wire_step hst k
    | leave hc hi hst => exact SocketState.wire_step hst k
    | socket ho hst => exact SocketState.wire_step hst k
    | _ => exact ⟨[], (List.append_nil _).symm⟩
  obtain ⟨out, hout⟩ := hwire
  rw [hout, List.length_append]
  exact Nat.le_add_right_of_le (h.taken k)

/-- The receiving side has done nothing. -/
structure Sends (x x' : EndToEnd S K) : Prop where
  receiving : x'.receiving = x.receiving
  taken : x'.taken = x.taken
  written : x'.written = x.written

namespace Sends

omit [DecidableEq S] [DecidableEq K]

theorem pending (h : x.Sends x') (k : K) : x'.pending k = x.pending k := by
  rw [EndToEnd.pending, h.receiving]
  rfl

/-- A stream given nothing has the bytes it had. -/
theorem flow (h : x.Sends x') (ho : x'.sending.sockets.outgoing k = x.sending.sockets.outgoing k) :
    x'.flow k = x.flow k := by rw [EndToEnd.flow, EndToEnd.flow, h.receiving, h.taken, ho]

theorem underway (h : x.Sends x') (ho : x'.sending.sockets.outgoing k = x.sending.sockets.outgoing k) :
    x'.underway k = x.underway k := by rw [EndToEnd.underway, EndToEnd.underway, h.flow ho]

/-- So it has the same frames. -/
theorem flowing (h : x.Sends x') (ho : x'.sending.sockets.outgoing k = x.sending.sockets.outgoing k) {fs ds}
    (hfl : x.Flowing k fs ds) : x'.Flowing k fs ds :=
  ⟨hfl.closed, (h.flow ho).trans hfl.flow, by rw [h.receiving]; exact hfl.loop⟩

/-- A stream given a frame has one frame more. -/
theorem gives (h : x.Sends x') (ht : x.taken k ≤ (x.sending.sockets.outgoing k).length) {f : TunnelFrameBuffer}
    (ho : x'.sending.sockets.outgoing k = x.sending.sockets.outgoing k ++ f.bytes) {fs ds} (hfl : x.Flowing k fs ds)
    {es : List (List UInt8)} (hcl : f.Closed es) : x'.Flowing k (fs ++ [f]) ds := by
  refine ⟨fun g hg => ?_, ?_, by rw [h.receiving]; exact hfl.loop⟩
  · rcases List.mem_append.1 hg with hg | hg
    · exact hfl.closed g hg
    · rw [List.mem_singleton] at hg
      exact ⟨es, hg ▸ hcl⟩
  · have hflow : x'.flow k = x.flow k ++ f.bytes := by
      rw [EndToEnd.flow, EndToEnd.flow, h.receiving, h.taken, ho, List.drop_append_of_le_length ht, List.append_assoc]
    rw [hflow, hfl.flow, List.map_append, List.flatten_append]
    simp

/-- A place holds what it held, by which kind of place it is. -/
theorem holds (h : x.Sends x') {p : Place S K} (hc : ∀ j, p = .carried j → x'.sending.carried j = x.sending.carried j)
    (hb : ∀ j, p = .batch j → x'.sending.batch j = x.sending.batch j)
    (ho : ∀ k, p = .stream k → x'.sending.sockets.outgoing k = x.sending.sockets.outgoing k) :
    x'.belt.holds p = x.belt.holds p := by
  cases p with
  | carried j => exact hc j rfl
  | batch j => exact hb j rfl
  | stream k => exact h.underway (ho k rfl)
  | delivery k => exact h.pending k

end Sends

/-- **A step of the sending side** loads a datagram that it reads, and moves
datagrams towards the streams. -/
theorem send_step {l : StackLabel S K} {sending : SendingStack S K} (h : x.Inv fds mtu client)
    (ha : x.sending.Alive) (hs : StackStep fds mtu client x.sending l sending) (hl : l.Smooth) (ha' : sending.Alive)
    (hx' : x' = { x with sending, read := x.read ++ l.read.toList }) :
    x'.Inv fds mtu client ∧ (conveyor _ (places S K)).Steps x.belt x'.belt := by
  obtain ⟨hcalm, hmv⟩ := SendingStack.moves_step h.reachable h.calm ha hs hl ha'
  have hinv : (∀ k, ∃ fs ds, x'.Flowing k fs ds) → x'.Inv fds mtu client := by
    have htk := taken_send h hs
    subst hx'
    exact fun hfl => ⟨h.reachable.step ⟨ha, hs⟩, hcalm, h.chain, h.uninterrupted, htk, hfl⟩
  have hsent : x.Sends x' := ⟨by rw [hx'], by rw [hx'], by rw [hx']⟩
  have hload : x'.belt.loaded = x.belt.loaded ++ (l.read.toList.map (·.2)) := by
    rw [hx']
    exact List.map_append
  have hunload : x'.belt.unloaded = x.belt.unloaded := congrArg (List.map _) hsent.written
  have hsame : (∀ k, x'.sending.sockets.outgoing k = x.sending.sockets.outgoing k) → x'.Inv fds mtu client := by
    refine fun ho => hinv fun k => ?_
    obtain ⟨fs, ds, hfl⟩ := h.flowing k
    exact ⟨fs, ds, hsent.flowing (ho k) hfl⟩
  rw [show sending = x'.sending by rw [hx']] at hmv
  generalize l.read = read at hmv hload
  cases hmv with
  | stays hplace hout =>
    have hbelt : x'.belt = x.belt :=
      Conveyor.ext (funext fun p => hsent.holds (fun j _ => (hplace j).2) (fun j _ => (hplace j).1) fun k _ => hout k)
        (hload.trans (List.append_nil _)) hunload
    refine ⟨hsame hout, ?_⟩
    rw [hbelt]
    exact .refl
  | @reads i d hnil hone hbatch hothers hout =>
    have hbatch' : ∀ j, x'.sending.batch j = x.sending.batch j := by
      intro j
      by_cases hij : j = i
      · subst hij
        exact hbatch
      · exact (hothers j hij).1
    refine ⟨hsame hout, .one (l := .load (.carried i) d) (.load trivial ?_ (fun p hp => ?_) hload hunload)⟩
    · show x'.sending.carried i = x.sending.carried i ++ [d]
      rw [hone, hnil]
      rfl
    · exact hsent.holds (fun j hj => (hothers j fun hij => hp (hij ▸ hj)).2) (fun j _ => hbatch' j) fun k _ => hout k
  | @readsOn i d hnil hnil' hbatch hothers hout =>
    classical
    -- It is in the MTU buffer on its way.
    have hmid : ∀ p, p ≠ .carried i → Function.update x.belt.holds (.carried i) [d] p = x.belt.holds p :=
      fun p hp => Function.update_of_ne hp ..
    have hself : Function.update x.belt.holds (.carried i) [d] (.carried i) = [d] := Function.update_self ..
    have hload' : ConveyorStep (places S K) x.belt (.load (.carried i) d)
        ⟨Function.update x.belt.holds (.carried i) [d], x'.belt.loaded, x.belt.unloaded⟩ := by
      refine .load trivial ?_ hmid hload rfl
      show Function.update x.belt.holds (.carried i) [d] (.carried i) = x.sending.carried i ++ [d]
      rw [hself, hnil]
      rfl
    have hmove : ConveyorStep (places S K)
        ⟨Function.update x.belt.holds (.carried i) [d], x'.belt.loaded, x.belt.unloaded⟩
        (.move (.carried i) (.batch i) [d]) x'.belt := by
      refine .move rfl (by simp) ?_ ?_ (fun p hp hp' => ?_) rfl hunload
      · show Function.update x.belt.holds (.carried i) [d] (.carried i) = [d] ++ x'.sending.carried i
        rw [hself, hnil']
        rfl
      · show x'.sending.batch i = Function.update x.belt.holds (.carried i) [d] (.batch i) ++ [d]
        rw [hmid _ (by simp)]
        exact hbatch
      · show x'.belt.holds p = Function.update x.belt.holds (.carried i) [d] p
        rw [hmid p hp]
        exact hsent.holds (fun j hj => (hothers j fun hij => hp (hij ▸ hj)).2)
          (fun j hj => (hothers j fun hij => hp' (hij ▸ hj)).1) fun k _ => hout k
    exact ⟨hsame hout, .tail (Machine.Steps.one hload') ⟨_, hmove⟩⟩
  | @joins i d hone hnil hbatch hothers hout =>
    refine ⟨hsame hout, .one (l := .move (.carried i) (.batch i) [d])
      (.move rfl (by simp) ?_ hbatch (fun p hp hp' => ?_) (hload.trans (List.append_nil _)) hunload)⟩
    · show x.sending.carried i = [d] ++ x'.sending.carried i
      rw [hone, hnil]
      rfl
    · exact hsent.holds (fun j hj => (hothers j fun hij => hp (hij ▸ hj)).2)
        (fun j hj => (hothers j fun hij => hp' (hij ▸ hj)).1) fun k _ => hout k
  | @gives i k f hcl hnil hbatch hcarried hout hothers =>
    obtain ⟨fs, ds, hfl⟩ := h.flowing k
    have hfl' := hsent.gives (h.taken_outgoing k) hout hfl hcl
    refine ⟨hinv fun k' => ?_, .one (l := .move (.batch i) (.stream k) (x.sending.batch i))
      (.move trivial (by simp) ?_ ?_ (fun p hp hp' => ?_) (hload.trans (List.append_nil _)) hunload)⟩
    · by_cases hk : k' = k
      · subst hk
        exact ⟨_, _, hfl'⟩
      · obtain ⟨fs', ds', hfl⟩ := h.flowing k'
        exact ⟨fs', ds', hsent.flowing (hothers k' hk) hfl⟩
    · show x.sending.batch i = x.sending.batch i ++ x'.sending.batch i
      rw [hnil, List.append_nil]
    · show x'.underway k = x.underway k ++ x.sending.batch i
      rw [hfl'.underway_eq, hfl.underway_eq, List.flatMap_append, List.flatMap_singleton, hcl.datagrams_eq]
    · exact hsent.holds (fun j _ => hcarried j) (fun j hj => hbatch j fun hij => hp (hij ▸ hj))
        fun k' hk' => hothers k' fun hk => hp' (hk ▸ hk')

/-! ## Steps of the receiving side -/

/-- What a reader takes comes off the front of what it has not taken. -/
theorem outgoing_taken {bs : List UInt8} (h : x.Inv fds mtu client)
    (hb : bs <+: (x.sending.sockets.wire k).drop (x.taken k)) :
    (x.sending.sockets.outgoing k).drop (x.taken k) =
        bs ++ (x.sending.sockets.outgoing k).drop (x.taken k + bs.length) ∧
      x.taken k + bs.length ≤ (x.sending.sockets.wire k).length := by
  have htk := h.taken k
  have hlen := hb.length_le
  obtain ⟨more, hmore⟩ := hb
  rw [List.length_drop] at hlen
  have hout : (x.sending.sockets.outgoing k).drop (x.taken k) = bs ++ (more ++ x.sending.sockets.unsent k) := by
    rw [SocketState.outgoing, List.drop_append_of_le_length htk, ← hmore, List.append_assoc]
  refine ⟨?_, by omega⟩
  rw [← List.drop_drop, hout, List.drop_left]

/-- Only the loop of the stream `k` has done anything. -/
structure Receives (x x' : EndToEnd S K) (k : K) : Prop where
  sending : x'.sending = x.sending
  read : x'.read = x.read
  loops : ∀ k', k' ≠ k → x'.receiving.loops k' = x.receiving.loops k'
  streams : ∀ k', k' ≠ k → x'.receiving.streams k' = x.receiving.streams k'
  taken : ∀ k', k' ≠ k → x'.taken k' = x.taken k'

namespace Receives

omit [DecidableEq S] [DecidableEq K]
variable {k' : K}

/-- The other streams have the bytes they had. -/
theorem flow (h : x.Receives x' k) (hk : k' ≠ k) : x'.flow k' = x.flow k' := by
  rw [EndToEnd.flow, EndToEnd.flow, h.sending, h.loops k' hk, h.streams k' hk, h.taken k' hk]

theorem flowing (h : x.Receives x' k) (hk : k' ≠ k) {fs ds} (hfl : x.Flowing k' fs ds) : x'.Flowing k' fs ds := by
  refine ⟨hfl.closed, (h.flow hk).trans hfl.flow, ?_⟩
  rw [h.loops k' hk, h.streams k' hk]
  exact hfl.loop

/-- A place of another stream, or of the sending side, holds what it held. -/
theorem holds (h : x.Receives x' k) (p : Place S K) (hp : p ≠ .stream k) (hp' : p ≠ .delivery k) :
    x'.belt.holds p = x.belt.holds p := by
  cases p with
  | carried j => exact congrArg (SendingStack.carried · j) h.sending
  | batch j => exact congrArg (SendingStack.batch · j) h.sending
  | stream k' =>
    show x'.underway k' = x.underway k'
    rw [underway, underway, h.flow fun hk => hp (hk ▸ rfl)]
  | delivery k' =>
    show x'.pending k' = x.pending k'
    rw [pending, pending, h.loops k' fun hk => hp' (hk ▸ rfl)]

end Receives

/-- **A step of the receiving side** moves a frame's datagrams from their stream
to its delivery, or unloads the next datagram of a delivery. -/
theorem receive_step {ev : ReceiveEvent} {receiving : ReceivingStack K} {out : Option (Nat × List UInt8)}
    (h : x.Inv fds mtu client) (hb : ev.bytes <+: (x.sending.sockets.wire k).drop (x.taken k))
    (hst : x.receiving.step k ev = some (receiving, out)) (hsm : ev.Smooth) (hwh : (x.receiving.loops k).Whole ev)
    (hx' : x' = { x with
      receiving
      taken := Function.update x.taken k (x.taken k + ev.bytes.length)
      written := x.written ++ out.toList }) :
    x'.Inv fds mtu client ∧ (conveyor _ (places S K)).Steps x.belt x'.belt := by
  obtain ⟨hout, htk⟩ := outgoing_taken h hb
  obtain ⟨hpipes, hint, hothers⟩ := ReceivingStack.step_others hst
  have hrecv : x'.receiving = receiving := by rw [hx']
  have hself : x'.taken k = x.taken k + ev.bytes.length := by rw [hx']; exact Function.update_self ..
  have hmoved : x.Receives x' k := by
    refine ⟨by rw [hx'], by rw [hx'], fun k' hk => ?_, fun k' hk => ?_, fun k' hk => ?_⟩
    · rw [hrecv]
      exact (hothers k' hk).1
    · rw [hrecv]
      exact (hothers k' hk).2
    · rw [hx']
      exact Function.update_of_ne hk ..
  have hload : x'.belt.loaded = x.belt.loaded := congrArg (List.map _) hmoved.read
  have hunload : x'.belt.unloaded = x.belt.unloaded ++ (out.toList.map (·.2)) := by
    rw [hx']
    exact List.map_append
  have hinv : ∀ {fs ds}, x'.Flowing k fs ds → x'.Inv fds mtu client := by
    intro fs ds hfl
    refine ⟨hmoved.sending ▸ h.reachable, hmoved.sending ▸ h.calm, ?_, ?_, fun k' => ?_, fun k' => ?_⟩
    · rw [hrecv, hpipes]
      exact h.chain
    · rw [hrecv, hint]
      exact h.uninterrupted
    · by_cases hk : k' = k
      · subst hk
        rw [hself, hmoved.sending]
        exact htk
      · rw [hmoved.taken k' hk, hmoved.sending]
        exact h.taken k'
    · by_cases hk : k' = k
      · subst hk
        exact ⟨fs, ds, hfl⟩
      · obtain ⟨fs', ds', hfl⟩ := h.flowing k'
        exact ⟨fs', ds', hmoved.flowing hk hfl⟩
  -- Three steps of its loop, by what they do with the frames.
  obtain ⟨fs, ds, hfl⟩ := h.flowing k
  have hbytes := hfl.flow
  rw [flow, hout] at hbytes
  have hflow' : x'.flow k = (receiving.loops k).given (receiving.streams k) ++
      (x.sending.sockets.outgoing k).drop (x.taken k + ev.bytes.length) := by rw [flow, hrecv, hmoved.sending, hself]
  rcases ReceivingStack.step_holds h.chain h.uninterrupted hst hsm hwh hfl.loop hfl.closed hbytes with
    ⟨rfl, hh⟩ | ⟨f, fs', rfl, hgiven, hnil, rfl, rfl, hh⟩ | ⟨a, ds', idx, rfl, rfl, hnil, hh⟩
  · have hsame : x'.flow k = x.flow k := by
      rw [hflow', hh.given_eq, flow, hout, List.append_assoc]
    have hfl' : x'.Flowing k fs ds := by
      refine ⟨hfl.closed, hsame.trans hfl.flow, ?_⟩
      rw [hrecv, hh.given_eq]
      exact hh
    have hbelt : x'.belt = x.belt := by
      refine Conveyor.ext (funext fun p => ?_) hload (hunload.trans (List.append_nil _))
      by_cases hp : p = .stream k
      · subst hp
        exact hfl'.underway_eq.trans hfl.underway_eq.symm
      by_cases hp' : p = .delivery k
      · subst hp'
        exact hfl'.pending_eq.trans hfl.pending_eq.symm
      · exact hmoved.holds p hp hp'
    refine ⟨hinv hfl', ?_⟩
    rw [hbelt]
    exact .refl
  · have hrest : x'.flow k = (fs'.map TunnelFrameBuffer.bytes).flatten := by
      rw [hgiven, hnil, List.map_cons, List.flatten_cons, List.nil_append] at hbytes
      rw [hflow', hh.given_eq, hnil]
      exact List.append_cancel_left hbytes
    have hfl' : x'.Flowing k fs' f.datagrams := by
      refine ⟨fun g hg => hfl.closed g (List.mem_cons_of_mem _ hg), hrest, ?_⟩
      rw [hrecv, hh.given_eq]
      exact hh
    refine ⟨hinv hfl', .one (l := .move (.stream k) (.delivery k) f.datagrams) (.move rfl (by simp) ?_ ?_ hmoved.holds
      hload (hunload.trans (List.append_nil _)))⟩
    · show x.underway k = f.datagrams ++ x'.underway k
      rw [hfl.underway_eq, hfl'.underway_eq, List.flatMap_cons]
    · show x'.pending k = x.pending k ++ f.datagrams
      rw [hfl.pending_eq, hfl'.pending_eq, List.nil_append]
  · have hsame : x'.flow k = x.flow k := by
      rw [hflow', hh.given_eq, flow, hout, hnil, List.nil_append]
    have hfl' : x'.Flowing k fs ds' := by
      refine ⟨hfl.closed, hsame.trans hfl.flow, ?_⟩
      rw [hrecv, hh.given_eq]
      exact hh
    refine ⟨hinv hfl', .one (l := .unload (.delivery k) a) (.unload trivial ?_ (fun p hp => ?_) hload hunload)⟩
    · show x.pending k = a :: x'.pending k
      rw [hfl.pending_eq, hfl'.pending_eq]
    · by_cases hp' : p = .stream k
      · subst hp'
        exact hfl'.underway_eq.trans hfl.underway_eq.symm
      · exact hmoved.holds p hp' hp

/-! ## Whole runs -/

variable {tr : List (Machine.Transition (EndToEnd S K) (EndToEndLabel S K))}

/-- While nothing fails, the datagrams move as on a conveyor. -/
theorem run_belt (h : (endToEnd K fds mtu client).Run tr x) (hC : ∀ t ∈ tr, Undisturbed t) :
    x.Inv fds mtu client ∧ (conveyor _ (places S K)).Reachable x.belt := by
  refine (h.guarded (I := fun x : EndToEnd S K => x.Inv fds mtu client ∧ (conveyor _ (places S K)).Reachable x.belt)
    (C := Undisturbed) ?_ ?_ hC).1
  · intro y hy
    refine ⟨.start hy, .init (Conveyor.ext (funext fun p => ?_) (congrArg (List.map _) hy.read)
      (congrArg (List.map _) hy.written))⟩
    obtain ⟨pipes, -, hx⟩ := hy.sending
    cases p with
    | carried i => exact congrArg (SendingStack.carried · i) hx
    | batch i => exact congrArg (SendingStack.batch · i) hx
    | stream k =>
      show y.underway k = []
      rw [underway, hy.flow, Delimited.chunks_nil]
      rfl
    | delivery k => exact congrArg ReceiveLoop.pending (hy.receiving.loops k)
  · intro y l y' _ hI hU hs
    cases hs with
    | send ha hst =>
      obtain ⟨hinv, hsteps⟩ := send_step hI.1 ha hst hU.1 hU.2 rfl
      exact ⟨hinv, hI.2.steps hsteps⟩
    | receive ha hb hst =>
      obtain ⟨hinv, hsteps⟩ := receive_step hI.1 hb hst hU.1 hU.2 rfl
      exact ⟨hinv, hI.2.steps hsteps⟩
    | interrupt => exact hU.elim

end

end EndToEnd

/-- The places of each queue and of each stream. -/
def Place.parts (S K : Type) : (S ⊕ S) ⊕ (K ⊕ K) ≃ Place S K where
  toFun := Sum.elim (Sum.elim .carried .batch) (Sum.elim .stream .delivery)
  invFun
    | .carried i => .inl (.inl i)
    | .batch i => .inl (.inr i)
    | .stream k => .inr (.inl k)
    | .delivery k => .inr (.inr k)
  left_inv p := by rcases p with (_ | _) | (_ | _) <;> rfl
  right_inv p := by cases p <;> rfl

instance {S K : Type} [Fintype S] [Fintype K] : Fintype (Place S K) := Fintype.ofEquiv _ (Place.parts S K)

theorem Place.contents_eq {S K α : Type} [Fintype S] [Fintype K] (h : Place S K → List α) :
    Conveyor.contents h = ((∑ i, (h (.carried i) : Multiset α)) + ∑ i, (h (.batch i) : Multiset α)) +
      ((∑ k, (h (.stream k) : Multiset α)) + ∑ k, (h (.delivery k) : Multiset α)) := by
  rw [Conveyor.contents, ← Equiv.sum_comp (Place.parts S K) fun p => (h p : Multiset α), Fintype.sum_sum_type,
    Fintype.sum_sum_type, Fintype.sum_sum_type]
  rfl

/-- With one queue and one stream the places are in line. -/
theorem places_line {S K : Type} {i : S} {k : K} (hi : ∀ j, j = i) (hk : ∀ k', k' = k) :
    (places S K).Line [.delivery k, .stream k, .batch i, .carried i] := by
  refine ⟨by simp, fun p hp => ?_, fun p q hpq => ?_, fun p hp => ?_⟩
  · cases p with
    | carried j => exact ⟨[.delivery k, .stream k, .batch i], by rw [hi j]; rfl⟩
    | _ => exact hp.elim
  · cases p with
    | carried j =>
      cases q with
      | batch j' => exact ⟨[.delivery k, .stream k], [], by rw [hi j, hi j']; rfl⟩
      | _ => exact hpq.elim
    | batch j =>
      cases q with
      | stream k' => exact ⟨[.delivery k], [.carried i], by rw [hi j, hk k']; rfl⟩
      | _ => exact hpq.elim
    | stream k' =>
      cases q with
      | delivery k'' => exact ⟨[], [.batch i, .carried i], by rw [hk k', hk k'']; rfl⟩
      | _ => exact hpq.elim
    | delivery k' => exact hpq.elim
  · cases p with
    | delivery k' => exact ⟨[.stream k, .batch i, .carried i], by rw [hk k']⟩
    | _ => exact hp.elim

/-! ## A run -/

namespace EndToEnd

section
variable {S K : Type} [DecidableEq S] [DecidableEq K] {fds : S → FileDescriptor} {mtu : Nat} {client : Option SessionId}
  {x : EndToEnd S K} {k : K}

/-- The sending side may go first. -/
theorem undisturbed_sending {receiving : ReceivingStack K} (hr : receiving.Starts) {sending : SendingStack S K}
    {tr : List (Machine.Transition (SendingStack S K) (StackLabel S K))} {ls : List (StackLabel S K)}
    (h : (sendingStack K fds mtu client).Run tr sending) (hls : tr.map (·.label) = ls) (ha : sending.Alive)
    (hl : ∀ l ∈ ls, l.Smooth) :
    ((endToEnd K fds mtu client).restrict Undisturbed).Reachable
      { sending, receiving, taken := fun _ => 0, read := ls.flatMap fun l => l.read.toList, written := [] } := by
  induction h generalizing ls with
  | init hs =>
    cases hls
    exact .init ⟨hs, hr, fun _ => rfl, rfl, rfl⟩
  | @step tr y l y' hrun hs ih =>
    rw [List.map_append, List.map_singleton] at hls
    subst hls
    have h := (ih rfl hs.1 fun l hl' => hl l (List.mem_append_left _ hl')).step (l := EndToEndLabel.send l)
      ⟨.send hs.1 hs.2, hl l (List.mem_append_right _ (List.mem_singleton_self _)), ha⟩
    rw [List.flatMap_append, List.flatMap_singleton]
    exact h

/-- And the receiving side follow. -/
theorem undisturbed_receive (ev : ReceiveEvent) {receiving : ReceivingStack K} {out : Option (Nat × List UInt8)}
    (h : ((endToEnd K fds mtu client).restrict Undisturbed).Reachable x) (ha : x.receiving.Alive)
    (hst : x.receiving.step k ev = some (receiving, out)) (hsm : ev.Smooth) (hwh : (x.receiving.loops k).Whole ev)
    (hb : ev.bytes <+: (x.sending.sockets.wire k).drop (x.taken k)) :
    ((endToEnd K fds mtu client).restrict Undisturbed).Reachable
      { x with
        receiving
        taken := Function.update x.taken k (x.taken k + ev.bytes.length)
        written := x.written ++ out.toList } :=
  h.step (l := EndToEndLabel.receive k ev) ⟨.receive ha hb hst, hsm, hwh⟩

end

/-- A thread comes to a full frame, and `n` bytes of it get on the stream. -/
theorem reachable_sending {evs : List LoopEvent} {t : TunnelThread} {buf : TunnelFrameBuffer} {n : Nat}
    (hrun : TunnelThread.start.run ⟨"tun", 3⟩ 1500 false evs = some t) (hown : ∀ ev ∈ evs, ev.Own ∧ ev.Smooth)
    (hbuf : t.loop = .invoking buf) (hmtu : t.mtuBuffer = []) (hpos : 0 < n) (hn : n ≤ buf.size)
    (receiving : ReceivingStack Unit) (hr : receiving.Starts) : ∃ sending d s,
    ((endToEnd Unit (fun _ : Unit => ⟨"tun", 3⟩) 1500 none).restrict Undisturbed).Reachable
      { sending, receiving, taken := fun _ => 0,
        read := evs.flatMap fun ev => (ev.datagram.map ((), ·)).toList, written := [] } ∧
    sending.batch () = [] ∧ sending.carried () = [] ∧ sending.sockets.wire () = load d 0 n ∧
    sending.sockets.senders () = .sending s ∧ s.send = TunnelFrameStream.sendLoop s.buf n ∧ s.buf.size = buf.size := by
  obtain ⟨trs, sid, hsockets, htrs⟩ := run_oneStream
  obtain ⟨pipes, hp, hch⟩ := TunnelFramePipe.attached_chain
  obtain ⟨tr₀, h, htr₀⟩ := SendingStack.run_sockets (fun _ : Unit => ⟨"tun", 3⟩) 1500 hp hsockets fun t ht => by
    rcases htrs t ht with (⟨_, h⟩ | ⟨_, _, h⟩ | ⟨_, h⟩) | h <;> (rw [h]; exact id)
  obtain ⟨tr₁, h, htr₁⟩ := SendingStack.run_own (i := ()) h rfl rfl (fun j hj => absurd rfl hj)
    (fun ev hev => (hown ev hev).1) hrun
  have halive : ∀ z : SendingStack Unit Unit, z.sockets.crash = none → z.aborted = none → z.threads () = t → z.Alive :=
    fun z h h' ht => ⟨h, h', fun _ c hc => by rw [show z.threads _ = t from ht, hbuf] at hc; cases hc⟩
  -- The call goes down the pipes.
  obtain ⟨_, h, hls⟩ := h.labelled (l := .invoke ()) htr₁ ⟨halive _ rfl rfl rfl, .invoke hbuf rfl⟩
  obtain ⟨_, h, hls⟩ := h.labelled (l := .pipe ()) hls ⟨halive _ rfl rfl rfl,
    .pipe (c := .down [.tunnel] (some .compressing))
      (congrArg (fun p => some (Invocation.down [.tunnel] p)) hch.tunnel) rfl⟩
  obtain ⟨_, h, hls⟩ := h.labelled (l := .pipe ()) hls ⟨halive _ rfl rfl rfl,
    .pipe (c := .down [.compressing, .tunnel] (some .signing))
      (congrArg (fun p => some (Invocation.down [.compressing, .tunnel] p)) hch.compressing) rfl⟩
  obtain ⟨_, h, hls⟩ := h.labelled (l := .enter ()) hls ⟨halive _ rfl rfl rfl,
    .enter (congrArg (fun p => some (Invocation.down [.signing, .compressing, .tunnel] p)) hch.signing)
      hbuf (.call rfl)⟩
  -- The sender takes the stream, and the kernel `n` bytes.
  obtain ⟨_, h, hls⟩ := h.labelled (l := .socket (.select ())) hls ⟨halive _ rfl rfl rfl, .socket id (.take rfl rfl)⟩
  obtain ⟨tr, h, hls⟩ := h.labelled (l := .socket (.io () (.call (.ok n)))) hls ⟨halive _ rfl rfl rfl,
    .socket id (.io rfl (fun hlt => absurd hlt (show ¬ (5 : Int) < 0 by decide))
      (TunnelFrameStream.sendStep_takes hpos (by show n ≤ buf.size; omega)))⟩
  obtain ⟨sending, d, s, h, ha, hbatch, hcarried, hwire, hsends⟩ : ∃ sending d s,
      (sendingStack Unit _ 1500 none).Run tr sending ∧ sending.Alive ∧ sending.batch () = [] ∧
      sending.carried () = [] ∧ sending.sockets.wire () = load d 0 n ∧ sending.sockets.senders () = .sending s ∧
      s.send = TunnelFrameStream.sendLoop s.buf n ∧ s.buf.size = buf.size :=
    ⟨_, _, _, h, halive _ rfl rfl rfl, rfl, if_pos hmtu, rfl, rfl, rfl, rfl⟩
  -- Nothing else has been read.
  have hls₀ : ∀ l ∈ tr₀.map (·.label), l.Smooth ∧ l.read = none := by
    rw [htr₀]
    intro l hl
    obtain ⟨t, ht, rfl⟩ := List.mem_map.1 hl
    rcases htrs t ht with (⟨_, h⟩ | ⟨_, _, h⟩ | ⟨_, h⟩) | h <;> (rw [h]; exact ⟨trivial, rfl⟩)
  have hnone : ((tr₀.map (·.label)).flatMap fun l => l.read.toList) = [] :=
    List.flatMap_eq_nil_iff.2 fun l hl => by rw [(hls₀ l hl).2]; rfl
  generalize tr₀.map (·.label) = ls₀ at hls hls₀ hnone
  have h := undisturbed_sending hr h hls ha (by
    simp only [List.forall_mem_append, List.forall_mem_singleton, List.forall_mem_map]
    exact ⟨⟨⟨⟨⟨⟨⟨fun l hl => (hls₀ l hl).1, fun ev hev => (hown ev hev).2⟩, trivial⟩, trivial⟩, trivial⟩, trivial⟩,
      trivial⟩, hpos⟩)
  simp only [List.flatMap_append, hnone, List.nil_append, List.flatMap_singleton, List.flatMap_map] at h
  simp only [StackLabel.read, Option.toList_none, List.append_nil] at h
  exact ⟨sending, d, s, h, hbatch, hcarried, hwire, hsends⟩

/-- A thread reads a datagram, and 100 bytes of its frame get on the stream. -/
theorem reachable_underway (receiving : ReceivingStack Unit) (hr : receiving.Starts) : ∃ sending d,
    ((endToEnd Unit (fun _ : Unit => ⟨"tun", 3⟩) 1500 none).restrict Undisturbed).Reachable
      { sending, receiving, taken := fun _ => 0, read := [((), [1, 2, 3])], written := [] } ∧
    sending.batch () = [] ∧ sending.carried () = [] ∧ sending.sockets.wire () = load d 0 100 := by
  -- The thread waits in vain for a second datagram and closes the frame.
  obtain ⟨t, hrun, buf, hbuf, hsize, hmtu⟩ : ∃ t, TunnelThread.start.run ⟨"tun", 3⟩ 1500 false
      [.tau, .tau, .polled (.ok 1), .io (.call (.ok [1, 2, 3])), .tau, .polled (.ok 0), .tau] = some t ∧
      ∃ buf, t.loop = .invoking buf ∧ buf.size = 163 ∧ t.mtuBuffer = [] := ⟨_, rfl, _, rfl, rfl, rfl⟩
  obtain ⟨sending, d, -, h, hbatch, hcarried, hwire, -⟩ := reachable_sending (n := 100) hrun
    (by simp [LoopEvent.Own, LoopEvent.Smooth, IoEvent.Smooth]) hbuf hmtu (by decide) (by omega) receiving hr
  exact ⟨sending, d, h, hbatch, hcarried, hwire⟩

end EndToEnd

/-- **No datagram is lost, doubled, changed or made up.** In every state of an
undisturbed run, the datagrams read from the tunnel queues of the one side are
those written to the queues of the other, those in frames on a stream, those of
a frame partly delivered, those in a batch, and those carried over, each as
often; and the bytes on every stream are whole frames. With one queue to read
from and one stream, they also are in the order in which they were read. -/
theorem datagrams_conserved {S K : Type} [DecidableEq S] [DecidableEq K] [Fintype S] [Fintype K]
    {fds : S → FileDescriptor} {mtu : Nat} {client : Option SessionId}
    {tr : List (Machine.Transition (EndToEnd S K) (EndToEndLabel S K))} {x : EndToEnd S K}
    (h : (endToEnd K fds mtu client).Run tr x) (hC : ∀ t ∈ tr, Undisturbed t) :
    (x.read.map (·.2) : Multiset (List UInt8)) = x.written.map (·.2) +
      ((∑ k, (x.underway k : Multiset (List UInt8))) + ∑ k, (x.pending k : Multiset (List UInt8))) +
      (∑ i, (x.sending.batch i : Multiset (List UInt8))) + ∑ i, (x.sending.carried i : Multiset (List UInt8)) ∧
    (∀ k, frames.Joined (x.flow k)) ∧
    ∀ i k, (∀ j, j = i) → (∀ k', k' = k) →
      x.read.map (·.2) =
        x.written.map (·.2) ++ x.pending k ++ x.underway k ++ x.sending.batch i ++ x.sending.carried i := by
  obtain ⟨hI, hbelt⟩ := EndToEnd.run_belt h hC
  refine ⟨?_, fun k => ?_, fun i k hi hk => ?_⟩
  · have hc := Conveyor.conserved hbelt
    rw [Place.contents_eq] at hc
    refine hc.trans ?_
    simp only [EndToEnd.belt]
    ac_rfl
  · obtain ⟨fs, ds, hfl⟩ := hI.flowing k
    refine ⟨fs.map TunnelFrameBuffer.bytes, fun b hb => ?_, hfl.flow⟩
    obtain ⟨f, hf, rfl⟩ := List.mem_map.1 hb
    obtain ⟨ds, hds⟩ := hfl.closed f hf
    exact hds.whole
  · have ho := Conveyor.in_order (places_line hi hk) hbelt
    refine ho.symm.trans ?_
    simp [EndToEnd.belt]

/-- The first 100 bytes of a frame are out, and three of them taken. -/
theorem datagrams_conserved_underway : ∃ tr x,
    (endToEnd Unit (fun _ : Unit => ⟨"tun", 3⟩) 1500 none).Run tr x ∧ (∀ t ∈ tr, Undisturbed t) ∧
    x.read = [((), [1, 2, 3])] ∧ x.taken () = 3 ∧ x.underway () = [[1, 2, 3]] := by
  obtain ⟨pipes, hp, -⟩ := TunnelFramePipe.attached_chain
  obtain ⟨sending, d, h, hbatch, hcarried, hwire⟩ := EndToEnd.reachable_underway
    { pipes, queues := ⟨[⟨"tun", 4⟩], by decide, 0, fun _ => false, fun _ => 0⟩,
      streams := fun _ => ⟨⟨"Server", 6⟩, fun _ => 0⟩, loops := fun _ => .head, interrupted := false }
    ⟨hp, fun _ => rfl, rfl, fun _ => rfl⟩
  have h := EndToEnd.undisturbed_receive (k := ()) .tau h (fun _ _ h => nomatch h) rfl trivial trivial List.nil_prefix
  have hb : load d 0 3 <+: (sending.sockets.wire ()).drop 0 := by
    rw [hwire]
    exact ⟨_, (load_add d 0 3 97).symm⟩
  have h := EndToEnd.undisturbed_receive (k := ()) (.read (.call (.ok (load d 0 3)))) h (fun _ _ h => nomatch h) rfl
    (show 0 < 3 by decide) trivial hb
  obtain ⟨tr, hrun, hC⟩ := h.restrict
  have hc := (datagrams_conserved hrun hC).2.2 () () (fun _ => rfl) (fun _ => rfl)
  -- The theorem says where the datagram is.
  refine ⟨tr, _, hrun, hC, rfl, rfl, ?_⟩
  have hu : [[1, 2, 3]] = [] ++ [] ++ _ ++ sending.batch () ++ sending.carried () := hc
  rw [hbatch, hcarried] at hu
  simpa using hu.symm

end RuralPipe
