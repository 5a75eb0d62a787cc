/-
Facts about the tunnel side: which datagrams a thread of the loop and a
delivery hold, and what a step does to them.

A thread holds the datagrams `ds` in its frame, whatever it does with the
frame (`TunnelThread.Holds`), and at most one more in its MTU buffer. A
delivery holds what is left of its frame, the datagram being written included
(`Delivery.Holds`). The decoders `batch`, `carried` and `pending` read these
off the state itself.
-/
import RuralPipe.FrameCodec
import RuralPipe.TunnelProducerConsumer

namespace RuralPipe

open Bytes

/-- The datagrams in a closed buffer. -/
def TunnelFrameBuffer.datagrams (buf : TunnelFrameBuffer) : List (List UInt8) :=
  RuralPipe.datagrams (buf.bytes.drop sizeofTunnelFrameHeader)

/-- The datagrams a writer was given so far. -/
def TunnelFrameWriter.datagrams (w : TunnelFrameWriter) : List (List UInt8) :=
  RuralPipe.datagrams (load w.data sizeofTunnelFrameHeader (w.current - sizeofTunnelFrameHeader))

theorem TunnelFrameBuffer.Closed.datagrams_eq {buf : TunnelFrameBuffer} {ds} (h : buf.Closed ds) :
    buf.datagrams = ds := h.datagrams_drop

theorem TunnelFrameWriter.Holds.datagrams_eq {w : TunnelFrameWriter} {ds} (h : w.Holds ds) : w.datagrams = ds := by
  have hcur := h.current
  have hle := w.current_le
  have hmax := w.stop_max
  have hsz := sizes
  rw [TunnelFrameWriter.datagrams, hcur, Nat.add_sub_cancel_left, h.body]
  refine datagrams_body fun d hd => ?_
  have := length_le_body hd
  omega

/-! ## Threads of the loop -/

/-- The datagram a system call gave. -/
def LoopEvent.datagram : LoopEvent → Option (List UInt8)
  | .io (.call (.ok bs)) => some bs
  | _ => none

/-- Nothing fails. -/
def LoopEvent.Smooth : LoopEvent → Prop
  | .io ev => ev.Smooth List.length
  | .polled (.error _) => False
  | _ => True

/-- A thread's own step, and not the return of its hand-over. -/
def LoopEvent.Own : LoopEvent → Prop
  | .outcome _ _ => False
  | _ => True

namespace TunnelThread

/-- The frame at hand holds the datagrams `ds`. -/
def Holds (t : TunnelThread) (ds : List (List UInt8)) : Prop :=
  match t.loop with
  | .frame _ => ds = []
  | .wait w _ => w.Holds ds
  | .poll w _ => w.Holds ds ∧ t.mtuBuffer = []
  | .read w _ _ => w.Holds ds ∧ t.mtuBuffer = []
  | .handOver buf => buf.Closed ds
  | .invoking buf => buf.Closed ds
  | .sleep buf => buf.Closed ds
  | .ended _ => False

/-- The batch not yet handed over, read off the frame. -/
def batch (t : TunnelThread) : List (List UInt8) :=
  match t.loop with
  | .frame _ => []
  | .wait w _ => w.datagrams
  | .poll w _ => w.datagrams
  | .read w _ _ => w.datagrams
  | .handOver buf => buf.datagrams
  | .invoking buf => buf.datagrams
  | .sleep buf => buf.datagrams
  | .ended _ => []

/-- The datagram carried over in `mtuBuffer`. -/
def carried (t : TunnelThread) : List (List UInt8) := if t.mtuBuffer = [] then [] else [t.mtuBuffer]

def Ended (t : TunnelThread) : Prop := ∃ why, t.loop = .ended why

/-- What `step` does, case by case. -/
inductive Taken (fd : FileDescriptor) (mtu : Nat) (interrupted : Bool) (t : TunnelThread) :
    LoopEvent → TunnelThread → Prop
  | frame {buffer w} : t.loop = .frame buffer → TunnelFrameWriter.new ⟨buffer, kTunnelFrameMaxSize⟩ = .ok w →
      Taken fd mtu interrupted t .tau { t with loop := .wait w 0 }
  | wait {w n} : t.loop = .wait w n → Taken fd mtu interrupted t .tau (t.wait interrupted w n)
  | pollThrows {w n e ex} : t.loop = .poll w n →
      Taken fd mtu interrupted t (.polled (.error e)) { t with loop := .ended (.tunnelFd ex) }
  | polled {w n res} : t.loop = .poll w n → Taken fd mtu interrupted t (.polled (.ok res)) (t.polled w n res)
  | readThrows {w n io ev ex} : t.loop = .read w n io → ¬ IoEvent.Smooth List.length ev →
      Taken fd mtu interrupted t (.io ev) { t with loop := .ended (.tunnelFd ex) }
  | again {w n io io' ev} : t.loop = .read w n io → (∀ d, ev ≠ .call (.ok d)) →
      Taken fd mtu interrupted t (.io ev) { t with loop := .read w n io' }
  | read {w n io d} : t.loop = .read w n io → d ≠ [] → d.length ≤ mtu →
      Taken fd mtu interrupted t (.io (.call (.ok d))) ({ t with mtuBuffer := d }.append w n)
  | handOver {buf} : t.loop = .handOver buf →
      Taken fd mtu interrupted t .tau { t with loop := if interrupted then .ended .interrupted else .invoking buf }
  | sleep {buf} : t.loop = .sleep buf → Taken fd mtu interrupted t .tau { t with loop := .handOver buf }
  | accepted {buf₀ buf} : t.loop = .invoking buf₀ →
      Taken fd mtu interrupted t (.outcome buf (.ok ())) { t with loop := .frame buf.data }
  | refused {buf₀ buf ex} : t.loop = .invoking buf₀ → ex.isNotYetReady = true →
      Taken fd mtu interrupted t (.outcome buf (.error ex)) { t with loop := .sleep buf }
  | failed {buf₀ buf ex} : t.loop = .invoking buf₀ → ex.isNotYetReady = false →
      Taken fd mtu interrupted t (.outcome buf (.error ex)) { t with loop := .ended (.handOver ex) }

variable {fd : FileDescriptor} {mtu : Nat} {interrupted : Bool} {t t' : TunnelThread} {ev : LoopEvent}
  {w : TunnelFrameWriter} {n : Nat} {ds : List (List UInt8)}

theorem carried_nil (h : t.mtuBuffer = []) : t.carried = [] := if_pos h

theorem carried_ne (h : t.mtuBuffer ≠ []) : t.carried = [t.mtuBuffer] := if_neg h

theorem Holds.batch_eq (h : t.Holds ds) : t.batch = ds := by
  unfold Holds at h
  unfold batch
  cases hl : t.loop with
  | frame buffer => rw [hl] at h; exact h.symm
  | wait w n => rw [hl] at h; exact h.datagrams_eq
  | poll w n => rw [hl] at h; exact h.1.datagrams_eq
  | read w n io => rw [hl] at h; exact h.1.datagrams_eq
  | handOver buf => rw [hl] at h; exact h.datagrams_eq
  | invoking buf => rw [hl] at h; exact h.datagrams_eq
  | sleep buf => rw [hl] at h; exact h.datagrams_eq
  | ended why => rw [hl] at h; exact h.elim

theorem Holds.not_ended (h : t.Holds ds) : ¬ t.Ended := by
  intro ⟨why, hl⟩
  rw [Holds, hl] at h
  exact h

theorem step_ended (h : t.Ended) : t.step fd mtu interrupted ev = none := by
  obtain ⟨why, hl⟩ := h
  cases ev <;> simp [step, hl]

/-- The thread after the events `evs`, if it takes them all. -/
def run (fd : FileDescriptor) (mtu : Nat) (interrupted : Bool) (t : TunnelThread) : List LoopEvent → Option TunnelThread
  | [] => some t
  | ev :: evs => (t.step fd mtu interrupted ev).bind fun t => t.run fd mtu interrupted evs

/-- The datagram in the MTU buffer goes into the frame, or the frame is closed
without it, or an assertion fails. -/
theorem append_holds (h : w.Holds ds) :
    (∃ c, (t.append w n).loop = .ended (.abort c)) ∨
    ((t.append w n).Holds ds ∧ (t.append w n).mtuBuffer = t.mtuBuffer) ∨
    ((t.append w n).Holds (ds ++ [t.mtuBuffer]) ∧ (t.append w n).mtuBuffer = []) := by
  unfold append
  split
  · split
    · exact .inl ⟨_, rfl⟩
    · exact .inr (.inl ⟨h.close, rfl⟩)
  · cases ha : w.append t.mtuBuffer with
    | error e =>
      have he : ∃ c, e = .abort c := by
        unfold TunnelFrameWriter.append TunnelFrameWriter.onDatagramWritten at ha
        split at ha
        · cases ha
        · exact ⟨_, (Except.error.inj ha).symm⟩
      obtain ⟨c, rfl⟩ := he
      exact .inl ⟨c, rfl⟩
    | ok w' =>
      obtain ⟨w'', hw, hh, -⟩ := h.append (TunnelFrameWriter.append_eq_ok ha)
      rw [ha] at hw
      cases hw
      exact .inr (.inr ⟨hh, rfl⟩)

/-- What follows `poll` leaves the datagrams where they are. -/
theorem polled_holds (h : w.Holds ds) (hm : t.mtuBuffer = []) (res : Nat) :
    (∃ c, (t.polled w n res).loop = .ended (.abort c)) ∨
    ((t.polled w n res).Holds ds ∧ (t.polled w n res).mtuBuffer = t.mtuBuffer) := by
  unfold polled
  split
  · split
    · exact .inr ⟨h, rfl⟩
    · exact .inr ⟨h.close, rfl⟩
  · split
    · exact .inr ⟨⟨h, hm⟩, rfl⟩
    · exact .inl ⟨_, rfl⟩

theorem step_taken (h : t.step fd mtu interrupted ev = some t') : Taken fd mtu interrupted t ev t' := by
  cases ev with
  | tau =>
    cases hl : t.loop with
    | frame buffer =>
      obtain ⟨w, hw, -⟩ := TunnelFrameWriter.new_holds ⟨buffer, kTunnelFrameMaxSize⟩
        (show kTunnelFrameMinSize ≤ kTunnelFrameMaxSize by decide) (Nat.le_refl _)
      simp only [step, hl, hw] at h
      cases h
      exact .frame hl hw
    | wait w n =>
      simp only [step, hl] at h
      cases h
      exact .wait hl
    | handOver buf =>
      simp only [step, hl] at h
      cases h
      exact .handOver hl
    | sleep buf =>
      simp only [step, hl] at h
      cases h
      exact .sleep hl
    | _ => simp [step, hl] at h
  | polled res =>
    cases hl : t.loop with
    | poll w n =>
      cases res <;> simp only [step, hl, FileDescriptor.poll] at h <;> cases h
      · exact .pollThrows hl
      · exact .polled hl
    | _ => simp [step, hl] at h
  | io ev =>
    cases hl : t.loop with
    | read w n io =>
      simp only [step, hl] at h
      cases ha : fd.readStep mtu io ev with
      | none => rw [ha] at h; cases h
      | some at' =>
        rw [ha] at h
        rcases FileDescriptor.retryStep_cases ha with ⟨d, -, rfl, hpos, hle, rfl⟩ |
          ⟨io', rfl, hne⟩ | ⟨ex, rfl, -, -, hsm, -⟩ <;> cases h
        · exact .read hl (List.ne_nil_of_length_pos hpos) hle
        · exact .again hl hne
        · exact .readThrows hl hsm
    | _ => simp [step, hl] at h
  | outcome buf res =>
    cases hl : t.loop with
    | invoking buf₀ =>
      cases res with
      | ok u =>
        simp only [step, hl] at h
        cases h
        exact .accepted hl
      | error ex =>
        simp only [step, hl] at h
        by_cases hx : ex.isNotYetReady = true
        · rw [if_pos hx] at h
          cases h
          exact .refused hl hx
        · rw [if_neg hx] at h
          cases h
          exact .failed hl (by simpa using hx)
    | _ => simp [step, hl] at h

/-- **A step of the loop**: it ends, for a reason of its own; or its datagrams
stay where they are; or the one carried over joins the batch; or one is read,
and perhaps joins the batch at once. -/
theorem step_holds (h : t.step fd mtu interrupted ev = some t') (ho : ev.Own) (hh : t.Holds ds) :
    (∃ why, t'.loop = .ended why ∧ ((why = .interrupted ∧ interrupted = true) ∨
      (∃ ex, why = .tunnelFd ex ∧ ¬ ev.Smooth) ∨ ∃ c, why = .abort c)) ∨
    (t'.Holds ds ∧ t'.mtuBuffer = t.mtuBuffer ∧ ev.datagram = none) ∨
    (t.mtuBuffer ≠ [] ∧ t'.Holds (ds ++ [t.mtuBuffer]) ∧ t'.mtuBuffer = [] ∧ ev.datagram = none) ∨
    ∃ d, ev.datagram = some d ∧ d ≠ [] ∧ t.mtuBuffer = [] ∧
      ((t'.Holds ds ∧ t'.mtuBuffer = d) ∨ (t'.Holds (ds ++ [d]) ∧ t'.mtuBuffer = [])) := by
  unfold Holds at hh
  cases step_taken h with
  | @frame buffer w hl hw =>
    rw [hl] at hh
    obtain ⟨w', hw', hwh, -⟩ := TunnelFrameWriter.new_holds ⟨buffer, kTunnelFrameMaxSize⟩
      (show kTunnelFrameMinSize ≤ kTunnelFrameMaxSize by decide) (Nat.le_refl _)
    rw [hw] at hw'
    cases hw'
    exact .inr (.inl ⟨by rw [hh]; exact hwh, rfl, rfl⟩)
  | @wait w n hl =>
    rw [hl] at hh
    unfold wait
    by_cases hi : interrupted = true
    · rw [if_pos hi]
      exact .inl ⟨_, rfl, .inl ⟨rfl, hi⟩⟩
    rw [if_neg hi]
    by_cases hm : t.mtuBuffer = []
    · rw [if_neg (not_not.2 hm)]
      exact .inr (.inl ⟨⟨hh, hm⟩, rfl, rfl⟩)
    rw [if_pos hm]
    rcases append_holds (t := t) (n := n) hh with ⟨c, hc⟩ | ⟨h₁, h₂⟩ | ⟨h₁, h₂⟩
    · exact .inl ⟨_, hc, .inr (.inr ⟨c, rfl⟩)⟩
    · exact .inr (.inl ⟨h₁, h₂, rfl⟩)
    · exact .inr (.inr (.inl ⟨hm, h₁, h₂, rfl⟩))
  | pollThrows hl => exact .inl ⟨_, rfl, .inr (.inl ⟨_, rfl, id⟩)⟩
  | @polled w n res hl =>
    rw [hl] at hh
    rcases polled_holds (n := n) hh.1 hh.2 res with ⟨c, hc⟩ | ⟨h₁, h₂⟩
    · exact .inl ⟨_, hc, .inr (.inr ⟨c, rfl⟩)⟩
    · exact .inr (.inl ⟨h₁, h₂, rfl⟩)
  | readThrows hl hsm => exact .inl ⟨_, rfl, .inr (.inl ⟨_, rfl, hsm⟩)⟩
  | @again w n io io' ev hl hne =>
    rw [hl] at hh
    refine .inr (.inl ⟨hh, rfl, ?_⟩)
    rcases ev with (_ | d) | _
    · rfl
    · exact absurd rfl (hne d)
    · rfl
  | @read w n io d hl hd hle =>
    rw [hl] at hh
    rcases append_holds (t := { t with mtuBuffer := d }) (n := n) hh.1 with ⟨c, hc⟩ | ⟨h₁, h₂⟩ | ⟨h₁, h₂⟩
    · exact .inl ⟨_, hc, .inr (.inr ⟨c, rfl⟩)⟩
    · exact .inr (.inr (.inr ⟨d, rfl, hd, hh.2, .inl ⟨h₁, h₂⟩⟩))
    · exact .inr (.inr (.inr ⟨d, rfl, hd, hh.2, .inr ⟨h₁, h₂⟩⟩))
  | handOver hl =>
    rw [hl] at hh
    by_cases hi : interrupted = true
    · exact .inl ⟨.interrupted, by simp [hi], .inl ⟨rfl, hi⟩⟩
    · exact .inr (.inl ⟨by simpa [Holds, hi] using hh, rfl, rfl⟩)
  | sleep hl =>
    rw [hl] at hh
    exact .inr (.inl ⟨hh, rfl, rfl⟩)
  | accepted hl => exact absurd ho id
  | refused hl hx => exact absurd ho id
  | failed hl hx => exact absurd ho id

/-- What the outcome of a hand-over leads to. -/
theorem step_outcome {buf : TunnelFrameBuffer} {res : Except Exception Unit}
    (h : t.step fd mtu interrupted (.outcome buf res) = some t') :
    (∃ buf', t.loop = .invoking buf') ∧ t'.mtuBuffer = t.mtuBuffer ∧
      ((res = .ok () ∧ t'.loop = .frame buf.data) ∨
        ∃ ex, res = .error ex ∧ ((ex.isNotYetReady = true ∧ t'.loop = .sleep buf) ∨
          (ex.isNotYetReady = false ∧ t'.loop = .ended (.handOver ex)))) := by
  cases step_taken h with
  | accepted hl => exact ⟨⟨_, hl⟩, rfl, .inl ⟨rfl, rfl⟩⟩
  | refused hl hx => exact ⟨⟨_, hl⟩, rfl, .inr ⟨_, rfl, .inl ⟨hx, rfl⟩⟩⟩
  | failed hl hx => exact ⟨⟨_, hl⟩, rfl, .inr ⟨_, rfl, .inr ⟨hx, rfl⟩⟩⟩

end TunnelThread

/-! ## Deliveries -/

namespace TunnelFrameReader

/-- The datagrams from the cursor on. -/
def rest (r : TunnelFrameReader) : List (List UInt8) := RuralPipe.datagrams (load r.data r.current (r.stop - r.current))

/-- The reader has yet to find the datagrams `ds` of its frame. -/
def Left (r : TunnelFrameReader) (ds : List (List UInt8)) : Prop :=
  ∃ buf past r₀, TunnelFrameBuffer.Closed buf (past ++ ds) ∧ new buf = .ok r₀ ∧ r = r₀.after past.length

/-- The reader is at the datagram `d`, with `ds` after it. -/
def Here (r : TunnelFrameReader) (d : List UInt8) (ds : List (List UInt8)) : Prop :=
  ∃ buf past r₀, TunnelFrameBuffer.Closed buf (past ++ d :: ds) ∧ new buf = .ok r₀ ∧ r = r₀.after (past.length + 1)

/-- At its stop after `k` datagrams, the reader has the others before it. -/
theorem rest_after {buf : TunnelFrameBuffer} {ds : List (List UInt8)} {r : TunnelFrameReader} (h : buf.Closed ds)
    (hr : new buf = .ok r) {k : Nat} (hk : k ≤ ds.length) : (r.after (k + 1)).rest = ds.drop k := by
  obtain ⟨rfl, -⟩ := new_eq_ok hr
  have hw : ∀ f ∈ ds.map item, items.Whole f := by
    intro f hf
    obtain ⟨d, hd, rfl⟩ := List.mem_map.1 hf
    exact item_whole (h.small d hd)
  have hcur := after_items (r := ⟨buf.data, (TunnelFrameHeader.cast buf.data).size, 0⟩) hw rfl h.body
    (h.size_field.trans h.size_eq) (k := k) (by simpa using hk)
  rw [← List.map_take] at hcur
  have hsplit : body (ds.take k) ++ body (ds.drop k) = body ds := by rw [← body_append, List.take_append_drop]
  have hlen := congrArg List.length hsplit
  rw [List.length_append] at hlen
  have hload : load buf.data (sizeofTunnelFrameHeader + (body (ds.take k)).length) (body (ds.drop k)).length =
      body (ds.drop k) := by
    refine @load_mid _ _ (body (ds.take k)) _ [] ?_
    rw [List.append_nil, hsplit]
    exact h.body
  have hstop := h.size_field.trans h.size_eq
  rw [rest, hcur, after_data, after_stop]
  show datagrams (load buf.data (sizeofTunnelFrameHeader + (body (ds.take k)).length)
    ((TunnelFrameHeader.cast buf.data).size - (sizeofTunnelFrameHeader + (body (ds.take k)).length))) = _
  have hn : (TunnelFrameHeader.cast buf.data).size - (sizeofTunnelFrameHeader + (body (ds.take k)).length) =
      (body (ds.drop k)).length := by omega
  rw [hn, hload]
  exact datagrams_body fun d hd => h.small d (List.mem_of_mem_drop hd)

theorem Left.start {buf : TunnelFrameBuffer} {ds : List (List UInt8)} (h : buf.Closed ds) :
    ∃ r, new buf = .ok r ∧ r.Left ds := by
  obtain ⟨r, hr, -⟩ := h.read
  exact ⟨r, hr, buf, [], r, h, hr, rfl⟩

theorem Left.rest {r : TunnelFrameReader} {ds : List (List UInt8)} (h : r.Left ds) : r.advance.rest = ds := by
  obtain ⟨buf, past, r₀, hcl, hr₀, rfl⟩ := h
  rw [← after_succ, rest_after hcl hr₀ (by simp), List.drop_left]

theorem Here.rest {r : TunnelFrameReader} {d : List UInt8} {ds : List (List UInt8)} (h : r.Here d ds) :
    r.rest = d :: ds := by
  obtain ⟨buf, past, r₀, hcl, hr₀, rfl⟩ := h
  rw [rest_after hcl hr₀ (by simp), List.drop_left]

/-- A call of `next` finds the next datagram, if there is one left. -/
theorem Left.next {r : TunnelFrameReader} {ds : List (List UInt8)} (h : r.Left ds) :
    (ds = [] ∧ r.next.1 = .ok false) ∨ ∃ d ds', ds = d :: ds' ∧ r.next.1 = .ok true ∧ r.next.2.Here d ds' := by
  obtain ⟨buf, past, r₀, hcl, hr₀, rfl⟩ := h
  obtain ⟨r, hr, -, -, hread, hend⟩ := hcl.read
  rw [hr₀] at hr
  cases hr
  cases ds with
  | nil => exact .inl ⟨rfl, hend past.length (by simp)⟩
  | cons d ds =>
    have hd : (past ++ d :: ds)[past.length]? = some d := by simp
    exact .inr ⟨d, ds, rfl, (hread _ _ hd).1, buf, past, r₀, hcl, hr₀, rfl⟩

/-- What the caller sees there is the datagram. -/
theorem Here.sees {r : TunnelFrameReader} {d : List UInt8} {ds : List (List UInt8)} (h : r.Here d ds) :
    r.size = d.length ∧ r.datagram = d := by
  obtain ⟨buf, past, r₀, hcl, hr₀, rfl⟩ := h
  obtain ⟨r, hr, -, -, hread, -⟩ := hcl.read
  rw [hr₀] at hr
  cases hr
  exact (hread past.length d (by simp)).2

theorem Here.past {r : TunnelFrameReader} {d : List UInt8} {ds : List (List UInt8)} (h : r.Here d ds) : r.Left ds := by
  obtain ⟨buf, past, r₀, hcl, hr₀, rfl⟩ := h
  exact ⟨buf, past ++ [d], r₀, by simpa using hcl, hr₀, by simp⟩

end TunnelFrameReader

/-- Nothing fails. -/
def DeliveryEvent.Smooth : DeliveryEvent → Prop
  | .tau => True
  | .io ev => ev.Smooth id

namespace Delivery

/-- The delivery has the datagrams `ds` left to write. -/
def Holds : Delivery → List (List UInt8) → Prop
  | .next r, ds => r.Left ds
  | .lock r _, ds => ∃ d ds', ds = d :: ds' ∧ r.Here d ds'
  | .write r _ _, ds => ∃ d ds', ds = d :: ds' ∧ r.Here d ds'
  | .returned, ds => ds = []
  | .failed _, _ => False

/-- The datagrams not yet written, read off the reader. -/
def pending : Delivery → List (List UInt8)
  | .next r => r.advance.rest
  | .lock r _ => r.rest
  | .write r _ _ => r.rest
  | .returned => []
  | .failed _ => []

/-- The tunnel device takes whole datagrams. -/
def Whole : Delivery → DeliveryEvent → Prop
  | .write r _ _, .io (.call (.ok n)) => n = r.size
  | _, _ => True

variable {q q' : TunnelQueues} {d d' : Delivery} {ev : DeliveryEvent} {ds : List (List UInt8)}
  {out : Option (Nat × List UInt8)}

theorem Holds.pending_eq (h : d.Holds ds) : d.pending = ds := by
  cases d with
  | next r => exact h.rest
  | lock r idx =>
    obtain ⟨a, ds', rfl, hh⟩ := h
    exact hh.rest
  | write r idx io =>
    obtain ⟨a, ds', rfl, hh⟩ := h
    exact hh.rest
  | returned => exact h.symm
  | failed e => exact h.elim

theorem start_holds {buf : TunnelFrameBuffer} (h : buf.Closed ds) : (start buf).Holds ds := by
  obtain ⟨r, hr, hl⟩ := TunnelFrameReader.Left.start h
  rw [start, hr]
  exact hl

/-- **A step of a delivery**, while nothing fails: it writes its next datagram
to a queue, or has as many left as before. -/
theorem step_holds (h : d.step q ev = some (q', d', out)) (hsm : ev.Smooth) (hwh : d.Whole ev) (hh : d.Holds ds) :
    (out = none ∧ d'.Holds ds) ∨ ∃ a ds' idx, ds = a :: ds' ∧ out = some (idx, a) ∧ d'.Holds ds' := by
  cases d with
  | next r =>
    cases ev with
    | io ev => cases h
    | tau =>
      simp only [step] at h
      rcases TunnelFrameReader.Left.next hh with ⟨rfl, hn⟩ | ⟨a, ds', rfl, hn, hhere⟩
      · have hpair : r.next = (.ok false, r.next.2) := Prod.ext hn rfl
        rw [hpair] at h
        cases h
        exact .inl ⟨rfl, rfl⟩
      · have hpair : r.next = (.ok true, r.next.2) := Prod.ext hn rfl
        rw [hpair] at h
        cases h
        exact .inl ⟨rfl, a, ds', rfl, hhere⟩
  | lock r idx =>
    cases ev with
    | io ev => cases h
    | tau =>
      simp only [step] at h
      split at h
      · cases h
      · cases h
        exact .inl ⟨rfl, hh⟩
  | write r idx io =>
    obtain ⟨a, ds', rfl, hhere⟩ := hh
    cases ev with
    | tau => cases h
    | io ev =>
      simp only [step] at h
      cases ha : (fd q idx).writeStep r.size io ev with
      | none => rw [ha] at h; cases h
      | some at' =>
        rw [ha] at h
        rcases FileDescriptor.retryStep_cases ha with ⟨n, -, rfl, -, -, rfl⟩ | ⟨io', rfl, -⟩ | ⟨ex, rfl, -, -, hno, -⟩
        · cases h
          have hn : n = r.size := hwh
          refine .inr ⟨a, ds', idx, rfl, ?_, hhere.past⟩
          rw [hn]
          exact congrArg (fun b => some (idx, b)) hhere.sees.2
        · cases h
          exact .inl ⟨rfl, a, ds', rfl, hhere⟩
        · exact absurd hsm hno
  | returned => cases ev <;> cases h
  | failed e => cases ev <;> cases h

end Delivery

end RuralPipe
