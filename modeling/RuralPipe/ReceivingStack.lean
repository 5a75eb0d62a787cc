/-
The receiving stack: the receive loops of the streams, each with the call it is
in, over the tunnel queues they share.

A loop takes a frame off its stream, hands it to the tunnel through the pipes
and delivers its datagrams before it takes the next one. `ReceiveLoop.Holds`
says which bytes of a frame and which datagrams a loop has in hand, and
`step_holds` that, given frames and nothing else, a loop passes on exactly the
datagrams of these frames.
-/
import RuralPipe.StreamFacts
import RuralPipe.TunnelFacts
import RuralPipe.TunnelFramePipe

namespace RuralPipe

open Bytes TunnelFrameStream

/-- Where `_receiveFromSocketLoop` stands: at its head, in `receive`, in the
tunnel's `onTunnelFrameFromNext`, or past an exception or a failed assertion. -/
inductive ReceiveLoop
  | head
  | receiving (receive : Receive)
  | delivering (delivery : Delivery)
  | ended (e : Failure)

structure ReceivingStack (K : Type) where
  pipes : Pipes
  queues : TunnelQueues
  streams : K → TunnelFrameStream
  loops : K → ReceiveLoop
  interrupted : Bool

/-- What moves a loop on: nothing but itself, a system call of `receive`, or
what moves the delivery on. -/
inductive ReceiveEvent
  | tau
  | read (ev : IoEvent (List UInt8))
  | deliver (ev : DeliveryEvent)

/-- The bytes a loop takes off its stream. -/
def ReceiveEvent.bytes : ReceiveEvent → List UInt8
  | .read ev => ev.bytes
  | _ => []

namespace ReceivingStack

variable {K : Type} [DecidableEq K]

def setLoop (x : ReceivingStack K) (k : K) (l : ReceiveLoop) : ReceivingStack K :=
  { x with loops := Function.update x.loops k l }

def setStream (x : ReceivingStack K) (k : K) (s : TunnelFrameStream) : ReceivingStack K :=
  { x with streams := Function.update x.streams k s }

/-- One step of `_receiveFromSocketLoop` on the stream `k`: the stack after it,
and what was written to which queue. -/
def step (x : ReceivingStack K) (k : K) : ReceiveEvent → Option (ReceivingStack K × Option (Nat × List UInt8))
  | .tau =>
    match x.loops k with
    | .head =>
      if x.interrupted then some (x.setLoop k (.ended (.throw ⟨.exception, "Interrupted"⟩)), none)
      else some (x.setLoop k (.receiving (x.streams k).receive), none)
    | .receiving (.returned buf) =>
      match TunnelFramePipe.pipeInvokePrev x.pipes 4 .socket with
      | .error e => some (x.setLoop k (.ended e), none)
      | .ok _ => some (x.setLoop k (.delivering (.start buf)), none)
    | .receiving (.failed e) => some (x.setLoop k (.ended e), none)
    | .delivering .returned => some (x.setLoop k .head, none)
    | .delivering (.failed e) => some (x.setLoop k (.ended e), none)
    | _ => none
  | .read ev =>
    match x.loops k with
    | .receiving r =>
      match (x.streams k).receiveStep r ev with
      | none => none
      | some (s, r) => some ((x.setStream k s).setLoop k (.receiving r), none)
    | _ => none
  | .deliver ev =>
    match x.loops k with
    | .delivering d =>
      match d.step x.queues ev with
      | none => none
      | some (queues, d, out) => some ({ x with queues }.setLoop k (.delivering d), out)
    | _ => none

variable {x : ReceivingStack K} {k j : K} {l : ReceiveLoop} {s : TunnelFrameStream}

@[simp] theorem setLoop_self : (x.setLoop k l).loops k = l := Function.update_self ..
theorem setLoop_ne (h : j ≠ k) : (x.setLoop k l).loops j = x.loops j := Function.update_of_ne h ..
@[simp] theorem setLoop_streams : (x.setLoop k l).streams = x.streams := rfl
@[simp] theorem setStream_self : (x.setStream k s).streams k = s := Function.update_self ..
theorem setStream_ne (h : j ≠ k) : (x.setStream k s).streams j = x.streams j := Function.update_of_ne h ..

end ReceivingStack

/-! ## What a loop has in hand -/

/-- The bytes a call of `receive` has taken, read off the stream's buffer. -/
def Receive.given (m : Mem) : Receive → List UInt8
  | .header n _ => load m 0 n
  | .body n _ _ => load m 0 n
  | .returned buf => buf.bytes
  | .failed _ => []

theorem Receive.At.given_eq {m : Mem} {given : List UInt8} {r : Receive} (h : r.At m given)
    (hf : ∀ e, r ≠ .failed e) : r.given m = given := by
  cases r with
  | header n io =>
    rw [Receive.given, ← h.header.1]
    exact h.bytes
  | body n t io =>
    rw [Receive.given, ← h.body.1]
    exact h.bytes
  | returned buf =>
    rw [h.returned.1]
    exact h.bytes
  | failed e => exact absurd rfl (hf e)

namespace ReceiveLoop

/-- The bytes of a frame not yet whole. -/
def given (s : TunnelFrameStream) : ReceiveLoop → List UInt8
  | .receiving r => r.given s.buffer
  | _ => []

/-- The datagrams of a frame not yet delivered. -/
def pending : ReceiveLoop → List (List UInt8)
  | .delivering d => d.pending
  | _ => []

/-- The loop has the bytes `given` of a frame, or the datagrams `ds`. -/
def Holds (s : TunnelFrameStream) (given : List UInt8) (ds : List (List UInt8)) : ReceiveLoop → Prop
  | .head => given = [] ∧ ds = []
  | .receiving r => r.At s.buffer given ∧ (∀ e, r ≠ .failed e) ∧ ds = []
  | .delivering d => given = [] ∧ d.Holds ds
  | .ended _ => False

variable {s : TunnelFrameStream} {given : List UInt8} {ds : List (List UInt8)} {l : ReceiveLoop}

theorem Holds.given_eq (h : l.Holds s given ds) : l.given s = given := by
  cases l with
  | head => exact h.1.symm
  | receiving r => exact h.1.given_eq h.2.1
  | delivering d => exact h.1.symm
  | ended e => exact h.elim

theorem Holds.pending_eq (h : l.Holds s given ds) : l.pending = ds := by
  cases l with
  | head => exact h.2.symm
  | receiving r => exact h.2.2.symm
  | delivering d => exact h.2.pending_eq
  | ended e => exact h.elim

end ReceiveLoop

/-! ## Frames in, datagrams out -/

/-- Given the bytes of frames, `receive` fails nowhere, and what it returns is
the first of them. -/
theorem Receive.At.frames {m : Mem} {given more : List UInt8} {r : Receive} {fs : List TunnelFrameBuffer}
    (hat : r.At m given) (hfs : ∀ f ∈ fs, ∃ ds, f.Closed ds)
    (h : given ++ more = (fs.map TunnelFrameBuffer.bytes).flatten) :
    (∀ e, r ≠ .failed e) ∧
      ∀ res, r = .returned res → ∃ f fs', fs = f :: fs' ∧ res.bytes = f.bytes ∧ given = f.bytes := by
  cases fs with
  | nil =>
    obtain ⟨rfl, -⟩ := List.append_eq_nil_iff.1 h
    have hs := hat.stands
    rw [List.length_nil, receiveHeader_short (by decide)] at hs
    cases r with
    | header n io => exact ⟨fun _ => by simp, fun _ he => nomatch he⟩
    | body n t io => cases hs
    | returned res => cases hs
    | failed e => cases hs
  | cons f fs =>
    obtain ⟨ds, hds⟩ := hfs f List.mem_cons_self
    obtain ⟨-, hfail, hret, -⟩ := hat.frame hds h
    exact ⟨hfail, fun res hr => ⟨f, fs, rfl, hret res hr⟩⟩

/-- No system call fails. -/
def ReceiveEvent.Smooth : ReceiveEvent → Prop
  | .tau => True
  | .read ev => ev.Smooth List.length
  | .deliver ev => ev.Smooth

/-- The tunnel device takes whole datagrams. -/
def ReceiveLoop.Whole : ReceiveLoop → ReceiveEvent → Prop
  | .delivering d, .deliver ev => d.Whole ev
  | _, _ => True

namespace ReceivingStack

variable {K : Type} [DecidableEq K] {x x' : ReceivingStack K} {k j : K} {ev : ReceiveEvent}
  {out : Option (Nat × List UInt8)} {given more : List UInt8} {ds : List (List UInt8)} {fs : List TunnelFrameBuffer}

/-- A step of one loop leaves the others alone. -/
theorem step_others (h : x.step k ev = some (x', out)) :
    x'.pipes = x.pipes ∧ x'.interrupted = x.interrupted ∧
      ∀ j, j ≠ k → x'.loops j = x.loops j ∧ x'.streams j = x.streams j := by
  have hloop : ∀ l, (x.setLoop k l).pipes = x.pipes ∧ (x.setLoop k l).interrupted = x.interrupted ∧
      ∀ j, j ≠ k → (x.setLoop k l).loops j = x.loops j ∧ (x.setLoop k l).streams j = x.streams j :=
    fun l => ⟨rfl, rfl, fun j hj => ⟨setLoop_ne hj, rfl⟩⟩
  cases ev with
  | tau =>
    simp only [step] at h
    split at h
    · split at h <;> (cases h; exact hloop _)
    · split at h <;> (cases h; exact hloop _)
    all_goals cases h
    all_goals exact hloop _
  | read ev =>
    simp only [step] at h
    split at h
    · split at h
      · cases h
      · cases h
        exact ⟨rfl, rfl, fun j hj => ⟨setLoop_ne hj, setStream_ne hj⟩⟩
    · cases h
  | deliver ev =>
    simp only [step] at h
    split at h
    · split at h
      · cases h
      · cases h
        exact ⟨rfl, rfl, fun j hj => ⟨setLoop_ne hj, rfl⟩⟩
    · cases h

/-- **A step of a loop** that is given frames: it takes bytes of the frame that
comes next; or it has that frame whole and turns to its datagrams; or it writes
its next datagram. -/
theorem step_holds (hch : TunnelFramePipe.Chain x.pipes) (hint : x.interrupted = false)
    (h : x.step k ev = some (x', out)) (hsm : ev.Smooth) (hwh : (x.loops k).Whole ev)
    (hh : (x.loops k).Holds (x.streams k) given ds) (hfs : ∀ f ∈ fs, ∃ ds, f.Closed ds)
    (hb : given ++ (ev.bytes ++ more) = (fs.map TunnelFrameBuffer.bytes).flatten) :
    (out = none ∧ (x'.loops k).Holds (x'.streams k) (given ++ ev.bytes) ds) ∨
    (∃ f fs', fs = f :: fs' ∧ given = f.bytes ∧ ev.bytes = [] ∧ ds = [] ∧ out = none ∧
      (x'.loops k).Holds (x'.streams k) [] f.datagrams) ∨
    ∃ a ds' idx, ds = a :: ds' ∧ out = some (idx, a) ∧ ev.bytes = [] ∧
      (x'.loops k).Holds (x'.streams k) given ds' := by
  cases ev with
  | tau =>
    cases hl : x.loops k with
    | head =>
      rw [hl] at hh
      simp only [step, hl, hint] at h
      cases h
      obtain ⟨rfl, rfl⟩ := hh
      have hat := Receive.At.start (x.streams k)
      refine .inl ⟨rfl, ?_⟩
      rw [setLoop_self]
      exact ⟨hat, (hat.frames hfs hb).1, rfl⟩
    | receiving r =>
      rw [hl] at hh
      obtain ⟨hat, hfail, rfl⟩ := hh
      cases r with
      | returned buf =>
        simp only [step, hl, hch.back] at h
        cases h
        obtain ⟨f, fs', rfl, hbytes, rfl⟩ := (hat.frames hfs hb).2 buf rfl
        obtain ⟨ds, hds⟩ := hfs f List.mem_cons_self
        refine .inr (.inl ⟨f, fs', rfl, rfl, rfl, rfl, rfl, ?_⟩)
        rw [setLoop_self, hds.datagrams_eq]
        exact ⟨rfl, Delivery.start_holds (hds.of_bytes hbytes)⟩
      | failed e => exact absurd rfl (hfail e)
      | header n io => simp [step, hl] at h
      | body n t io => simp [step, hl] at h
    | delivering d =>
      rw [hl] at hh
      obtain ⟨rfl, hd⟩ := hh
      cases d with
      | returned =>
        simp only [step, hl] at h
        cases h
        refine .inl ⟨rfl, ?_⟩
        rw [setLoop_self]
        exact ⟨rfl, hd⟩
      | failed e => exact hd.elim
      | next r => simp [step, hl] at h
      | lock r idx => simp [step, hl] at h
      | write r idx io => simp [step, hl] at h
    | ended e => simp [step, hl] at h
  | read ev =>
    cases hl : x.loops k with
    | receiving r =>
      rw [hl] at hh
      obtain ⟨hat, hfail, rfl⟩ := hh
      cases hst : (x.streams k).receiveStep r ev with
      | none => simp [step, hl, hst] at h
      | some sr =>
        obtain ⟨s, r'⟩ := sr
        simp only [step, hl, hst] at h
        cases h
        have hb : given ++ (ev.bytes ++ more) = _ := hb
        refine .inl ⟨rfl, ?_⟩
        rw [setLoop_self, setLoop_streams, setStream_self]
        rcases receiveStep_cases hat hst with ⟨n, -, -, -, -, hat'⟩ | ⟨rfl, hat', -, hnil⟩ | ⟨ex, -, -, -, -, hno⟩
        · exact ⟨hat', (hat'.frames hfs (by rw [List.append_assoc]; exact hb)).1, rfl⟩
        · rw [hnil, List.nil_append] at hb
          have hg : given ++ (ReceiveEvent.read ev).bytes = given := by rw [ReceiveEvent.bytes, hnil, List.append_nil]
          rw [hg]
          exact ⟨hat', (hat'.frames hfs hb).1, rfl⟩
        · exact absurd hsm hno
    | head => simp [step, hl] at h
    | delivering d => simp [step, hl] at h
    | ended e => simp [step, hl] at h
  | deliver ev =>
    cases hl : x.loops k with
    | delivering d =>
      rw [hl] at hh hwh
      obtain ⟨rfl, hd⟩ := hh
      cases hst : d.step x.queues ev with
      | none => simp [step, hl, hst] at h
      | some qdo =>
        obtain ⟨queues, d', o⟩ := qdo
        simp only [step, hl, hst] at h
        cases h
        rw [setLoop_self]
        rcases Delivery.step_holds hst hsm hwh hd with ⟨rfl, hd'⟩ | ⟨a, ds', idx, rfl, rfl, hd'⟩
        · exact .inl ⟨rfl, rfl, hd'⟩
        · exact .inr (.inr ⟨a, ds', idx, rfl, rfl, rfl, rfl, hd'⟩)
    | head => simp [step, hl] at h
    | receiving r => simp [step, hl] at h
    | ended e => simp [step, hl] at h

end ReceivingStack

end RuralPipe
