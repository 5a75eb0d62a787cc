/-
What a received frame exposes: whether the datagrams a reader yields, and the
delivery writes to the tunnel queues, lie inside the frame.

The reader checks where a datagram ends only when it moves past it. So it
yields datagrams that reach past the frame unless the frame's body is a
concatenation of items that ends with the frame (`contained_iff`).
-/
import RuralPipe.Machine
import RuralPipe.FrameCodec
import RuralPipe.TunnelProducerConsumer

namespace RuralPipe

open Bytes

namespace TunnelFrameReader

/-- Whenever a call returns true, the separator and the datagram lie inside
the first `min buf.size desc.size` bytes. -/
def Contained (buf : TunnelFrameBuffer) (r : TunnelFrameReader) : Prop :=
  ∀ k, r.call k = .ok true → (r.after (k + 1)).dataOffset + (r.after (k + 1)).size ≤ min buf.size r.stop

/-- The frame has no body, or is as long as the buffer at most and its body is
a concatenation of items. -/
def WellFormed (buf : TunnelFrameBuffer) (size : Nat) : Prop :=
  size ≤ sizeofTunnelFrameHeader ∨
    (size ≤ buf.size ∧
      items.Joined (load buf.data sizeofTunnelFrameHeader (size - sizeofTunnelFrameHeader)))

theorem header_le_after {r : TunnelFrameReader} (h₀ : r.current = 0) (k : Nat) :
    sizeofTunnelFrameHeader ≤ (r.after (k + 1)).current := by
  have hsz := sizes
  induction k with
  | zero =>
    rw [after_succ]
    exact Nat.le_of_eq (advance_start h₀).symm
  | succ k ih =>
    rw [after_succ]
    by_cases hin : (r.after (k + 1)).current < (r.after (k + 1)).stop
    · rw [advance_inside (by omega) hin]
      omega
    · rw [advance_end (by omega) (by omega)]
      exact ih

/-- The item at the cursor, when it lies inside the memory read. -/
theorem item_whole_at (r : TunnelFrameReader) : items.Whole (load r.data r.current (2 + r.size)) := by
  refine ⟨by rw [load_length]; exact Nat.le_add_right _ _, ?_⟩
  rw [load_take, load_length]
  exact congrArg (2 + ofLe ·) (congrArg (load r.data r.current) (Nat.min_eq_left (Nat.le_add_right 2 r.size)))

/-- From a cursor inside the frame, the rest of a body that is never read past
its end is a concatenation of items. -/
theorem joined_from {buf : TunnelFrameBuffer} {r : TunnelFrameReader} (h₀ : r.current = 0)
    (h : Contained buf r) : ∀ (n k : Nat), (r.after (k + 1)).current ≤ r.stop →
      r.stop - (r.after (k + 1)).current ≤ n →
      items.Joined (load r.data (r.after (k + 1)).current (r.stop - (r.after (k + 1)).current)) ∧
        ((r.after (k + 1)).current < r.stop → r.stop ≤ buf.size)
  | 0, k, hle, hn => by
    have heq : r.stop - (r.after (k + 1)).current = 0 := by omega
    rw [heq, load_zero]
    exact ⟨.nil, fun hlt => by omega⟩
  | n + 1, k, hle, hn => by
    rcases Nat.lt_or_eq_of_le hle with hlt | heq
    · have hsz := sizes
      have hge := header_le_after h₀ k
      have hin := h k (call_true_iff.2 hlt)
      rw [dataOffset] at hin
      have hnext : (r.after (k + 1 + 1)).current = (r.after (k + 1)).current + (2 + (r.after (k + 1)).size) := by
        rw [after_succ]
        exact advance_inside (by omega) (by rw [after_stop]; exact hlt)
      obtain ⟨hj, hb⟩ := joined_from h₀ h n (k + 1) (by omega) (by omega)
      refine ⟨?_, fun _ => ?_⟩
      · rw [load_split (2 + (r.after (k + 1)).size) (by omega), Nat.sub_sub, ← hnext]
        have hw := item_whole_at (r.after (k + 1))
        rw [after_data] at hw
        exact .append_whole hw hj
      · rcases Nat.lt_or_ge (r.after (k + 1 + 1)).current r.stop with hlt' | hge'
        · exact hb hlt'
        · omega
    · rw [heq, Nat.sub_self, load_zero]
      exact ⟨.nil, fun hlt => by omega⟩

/-- A reader exposes nothing outside its frame exactly when the frame is well
formed. -/
theorem contained_iff {buf : TunnelFrameBuffer} {r : TunnelFrameReader} (hnew : new buf = .ok r) :
    Contained buf r ↔ WellFormed buf r.stop := by
  obtain ⟨hr, -⟩ := new_eq_ok hnew
  have h₀ : r.current = 0 := by rw [hr]
  have hdata : r.data = buf.data := by rw [hr]
  have hsz := sizes
  constructor
  · intro h
    rcases Nat.lt_or_ge sizeofTunnelFrameHeader r.stop with hlt | hge
    · have h₁ : (r.after (0 + 1)).current = sizeofTunnelFrameHeader := by
        rw [after_succ]
        exact advance_start h₀
      obtain ⟨hj, hb⟩ := joined_from h₀ h _ 0 (by omega) (Nat.le_refl _)
      rw [h₁, hdata] at hj
      exact .inr ⟨hb (by omega), hj⟩
    · exact .inl hge
  · rintro (hle | ⟨hle, fs, hw, hfs⟩) k hk
    · have hlt := call_true_iff.1 hk
      have := header_le_after h₀ k
      omega
    · rcases Nat.lt_or_ge sizeofTunnelFrameHeader r.stop with hlt | hge
      · have hlen : fs.flatten.length = r.stop - sizeofTunnelFrameHeader := by
          rw [← hfs, load_length]
        have hbody : load r.data sizeofTunnelFrameHeader fs.flatten.length = fs.flatten := by
          rw [hlen, hdata, hfs]
        have hstop : r.stop = sizeofTunnelFrameHeader + fs.flatten.length := by omega
        rcases Nat.lt_or_ge k fs.length with hlt' | hge'
        · obtain ⟨-, hsize, -, hin⟩ := call_item hw h₀ hbody hstop (List.getElem?_eq_getElem hlt')
          rw [dataOffset]
          omega
        · have := (call_end hw h₀ hbody hstop hge').2
          rw [hk] at this
          cases this
      · have hlt := call_true_iff.1 hk
        have := header_le_after h₀ k
        omega

end TunnelFrameReader

/-! ## The delivery -/

/-- `onTunnelFrameFromNext` on `buf`, whatever the other deliveries do to the
queues between its steps. -/
def delivering (buf : TunnelFrameBuffer) : Machine Delivery (TunnelQueues × DeliveryEvent) where
  init d := d = .start buf
  step d l d' := ∃ q' written, Delivery.step l.1 d l.2 = some (q', d', written)

/-- The reader a delivery works with. -/
def Delivery.reader : Delivery → Option TunnelFrameReader
  | .next r => some r
  | .lock r _ => some r
  | .write r _ _ => some r
  | _ => none

/-- What a write to a queue is offered lies inside the frame. -/
def Delivery.Inside (buf : TunnelFrameBuffer) (size : Nat) (d : Delivery) : Prop :=
  ∀ r idx io, d = .write r idx io → r.data = buf.data ∧ r.dataOffset + r.size ≤ min buf.size size

/-- A delivery's reader is the frame's after some calls, and in a write the
last call returned true. -/
theorem delivering_reader {buf : TunnelFrameBuffer} {r : TunnelFrameReader}
    (hnew : TunnelFrameReader.new buf = .ok r) {d : Delivery} (h : (delivering buf).Reachable d) :
    ∀ r', d.reader = some r' →
      ∃ k, r' = r.after k ∧ ((∀ r', d ≠ .next r') → ∃ j, k = j + 1 ∧ r.call j = .ok true) := by
  refine h.invariant (I := fun d => ∀ r', d.reader = some r' →
    ∃ k, r' = r.after k ∧ ((∀ r', d ≠ .next r') → ∃ j, k = j + 1 ∧ r.call j = .ok true)) ?_ ?_
  · rintro d rfl r' hr
    rw [Delivery.start, hnew] at hr
    cases hr
    exact ⟨0, rfl, fun hne => absurd (by rw [Delivery.start, hnew]) (hne r)⟩
  · rintro d ⟨q, ev⟩ d' - hI ⟨q', written, hs⟩ r' hr
    cases d with
    | next r₁ =>
      obtain ⟨k, rfl, -⟩ := hI r₁ rfl
      cases ev with
      | io ev => cases hs
      | tau =>
        simp only [Delivery.step] at hs
        cases hn : (r.after k).next with
        | mk res r₂ =>
          have h₂ : r₂ = r.after (k + 1) := by rw [TunnelFrameReader.after, hn]
          have hres : res = r.call k := by rw [TunnelFrameReader.call, hn]
          rw [hn] at hs
          rcases res with e | (_ | _)
          · cases hs
            cases hr
          · cases hs
            cases hr
          · cases hs
            cases hr
            exact ⟨k + 1, h₂, fun _ => ⟨k, rfl, hres.symm⟩⟩
    | lock r₁ idx =>
      cases ev with
      | io ev => cases hs
      | tau =>
        simp only [Delivery.step] at hs
        split at hs
        · cases hs
        · cases hs
          cases hr
          obtain ⟨k, hk, hcall⟩ := hI _ rfl
          exact ⟨k, hk, fun _ => hcall (by simp)⟩
    | write r₁ idx io =>
      cases ev with
      | tau => cases hs
      | io ev =>
        obtain ⟨k, hk, hcall⟩ := hI r₁ rfl
        simp only [Delivery.step] at hs
        split at hs
        · cases hs
        · cases hs
          cases hr
        · cases hs
          cases hr
          exact ⟨k, hk, fun _ => hcall (by simp)⟩
        · cases hs
          cases hr
          exact ⟨k, hk, fun hne => absurd rfl (hne _)⟩
    | returned => cases hs
    | failed e => cases hs

/-- **A frame exposes bytes outside itself unless it is well formed.** For
every buffer the reader's constructor accepts: each call that returns true
yields a datagram inside the frame, and each write of a delivery of the frame
is offered bytes of the frame only, exactly when the frame has no body or its
body is a concatenation of items inside the buffer. -/
theorem exposure_iff {buf : TunnelFrameBuffer} {r : TunnelFrameReader}
    (hnew : TunnelFrameReader.new buf = .ok r) :
    (r.Contained buf ∧ ∀ tr d, (delivering buf).Run tr d → d.Inside buf r.header.size) ↔
      TunnelFrameReader.WellFormed buf r.header.size := by
  obtain ⟨hr, -⟩ := TunnelFrameReader.new_eq_ok hnew
  have hstop : r.header.size = r.stop := by rw [hr]; rfl
  rw [hstop]
  refine ⟨fun h => (TunnelFrameReader.contained_iff hnew).1 h.1, fun hwf => ?_⟩
  have hc := (TunnelFrameReader.contained_iff hnew).2 hwf
  refine ⟨hc, fun tr d hrun r' idx io hd => ?_⟩
  subst hd
  obtain ⟨k, rfl, hcall⟩ := delivering_reader hnew hrun.reachable r' rfl
  obtain ⟨j, rfl, hj⟩ := hcall (by simp)
  refine ⟨?_, hc j hj⟩
  rw [TunnelFrameReader.after_data, hr]

/-- The same memory behind a frame whose one datagram ends with it. -/
theorem exposure_iff_contained :
    ∃ buf r, buf.size = 163 ∧ TunnelFrameReader.new buf = .ok r ∧ r.call 0 = .ok true ∧ r.Contained buf := by
  let buf : TunnelFrameBuffer :=
    ⟨store (store (fun _ => 0xEE) 0 (kMagic ++ [1] ++ leBytes 2 163)) 158 (item [1, 2, 3]), 163⟩
  have hnew : TunnelFrameReader.new buf = .ok ⟨buf.data, (TunnelFrameHeader.cast buf.data).size, 0⟩ := rfl
  exact ⟨buf, _, rfl, hnew, by decide +kernel, ((exposure_iff hnew).2 (.inr (by decide +kernel))).1⟩

/-- A frame of a header and a separator that claims a hundred bytes, received
over what an earlier frame left in the buffer. -/
def overshooting : TunnelFrameBuffer :=
  ⟨store (store (fun _ => 0xEE) 0 (kMagic ++ [1] ++ leBytes 2 160)) 158 (leBytes 2 100), 160⟩

/-- The delivery writes the hundred bytes behind the frame to a queue. -/
theorem overshooting_exposed : ∃ r q tr d, TunnelFrameReader.new overshooting = .ok r ∧
    r.call 0 = .ok true ∧ (r.after 1).dataOffset = 160 ∧ (r.after 1).size = 100 ∧
    (delivering overshooting).Run tr d ∧
    (Delivery.step q d (.io (.call (.ok 100)))).map (·.2.2) = some (some (0, List.replicate 100 0xEE)) ∧
    ¬ r.Contained overshooting ∧ ¬ d.Inside overshooting r.header.size := by
  let q : TunnelQueues := ⟨[⟨"queue", 5⟩], by simp, 0, fun _ => false, fun _ => 0⟩
  have hrun := (Machine.Run.init (M := delivering overshooting) rfl).step (l := (q, .tau)) ⟨_, _, rfl⟩
  have hrun := hrun.step (l := (q, .tau)) ⟨_, _, rfl⟩
  refine ⟨_, q, _, _, rfl, by decide +kernel, by decide +kernel, by decide +kernel, hrun, by decide +kernel,
    fun h => ?_, fun h => ?_⟩
  · exact absurd (h 0 (by decide +kernel)) (by decide +kernel)
  · exact absurd (h _ _ _ rfl).2 (by decide +kernel)

end RuralPipe
