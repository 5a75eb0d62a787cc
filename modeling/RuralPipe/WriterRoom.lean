/-
A writer's room: what `remainingBytes` promises, and what writing a datagram
takes.

A datagram takes its bytes and a separator before them (`fits_iff`), so what
`remainingBytes` gives is exact for datagrams of at least one byte
(`remainingBytes_ge`). An empty datagram is the exception: where fewer than two
bytes are left the bound is zero, and the separator alone does not fit.
-/
import RuralPipe.TunnelFrameFacts

namespace RuralPipe

open Bytes

namespace TunnelFrameWriter

/-- The offsets that a datagram of `n` bytes is written to: its bytes from
`data()` on, and its separator. -/
def Touches (w : TunnelFrameWriter) (n i : Nat) : Prop :=
  (w.dataOffset ≤ i ∧ i < w.dataOffset + n) ∨
    (w.current ≤ i ∧ i < w.current + sizeofTunnelFrameDatagramSeparator)

/-- A datagram of `n` bytes is written inside the buffer, and the assertion
passes. -/
structure Fits (w : TunnelFrameWriter) (n : Nat) : Prop where
  inside : ∀ i, w.Touches n i → i < w.stop
  passes : ∀ d : List UInt8, d.length = n →
    ∃ w', w.append d = .ok w' ∧ ∀ i, w.stop ≤ i → w'.data i = w.data i

/-- `remainingBytes` is right about datagrams of `n` bytes, and one as long as
it says fills a buffer of `size` bytes. -/
structure RemainingExact (w : TunnelFrameWriter) (size n : Nat) : Prop where
  fits : n ≤ w.remainingBytes → w.Fits n
  not_fits : w.remainingBytes < n → (∃ i, w.Touches n i ∧ w.stop ≤ i) ∧
    ∀ d : List UInt8, d.length = n → w.append d = .error (.abort "_current <= _end")
  fills : 0 < w.remainingBytes → ∀ d : List UInt8, d.length = w.remainingBytes →
    ∃ w', w.append d = .ok w' ∧ w'.close.buffer.size = size

/-- The writers over `buf` that datagrams within the bound lead to. -/
inductive Filled (buf : TunnelFrameBuffer) : TunnelFrameWriter → Prop
  | new {w} : new buf = .ok w → Filled buf w
  | append {w d w'} : Filled buf w → d.length ≤ w.remainingBytes → w.append d = .ok w' → Filled buf w'

variable {w w' : TunnelFrameWriter} {n : Nat} {d : List UInt8} {buf : TunnelFrameBuffer}

/-- `remainingBytes` leaves room for the separator. -/
theorem remainingBytes_ge (w : TunnelFrameWriter) {n : Nat} (h : 0 < n) :
    n ≤ w.remainingBytes ↔ w.current + (2 + n) ≤ w.stop := by
  have hsz := sizes
  have := w.current_le
  unfold remainingBytes
  split <;> omega

theorem append_error (h : w.stop < w.current + (2 + d.length)) :
    w.append d = .error (.abort "_current <= _end") := by
  unfold TunnelFrameWriter.append onDatagramWritten
  split
  case isTrue hle => exact absurd hle (Nat.not_le_of_lt h)
  case isFalse => rfl

/-- What is not touched is as it was. -/
theorem append_untouched (h : w.append d = .ok w') {i : Nat} (hi : ¬ w.Touches d.length i) : w'.data i = w.data i := by
  have hsz := sizes
  obtain ⟨w₁, hw, hdata, -, -⟩ := append_ok (append_eq_ok h)
  rw [h] at hw
  cases hw
  simp only [Touches, dataOffset] at hi
  rw [hdata, store_out (by rw [leBytes_length]; omega), store_out (by omega)]

/-- A datagram fits where its bytes and its separator do. -/
theorem fits_iff : w.Fits n ↔ w.current + (2 + n) ≤ w.stop := by
  have hsz := sizes
  constructor
  · intro h
    obtain ⟨w', hw, -⟩ := h.passes (List.replicate n 0) List.length_replicate
    have hle := append_eq_ok hw
    rwa [List.length_replicate] at hle
  · intro h
    have inside : ∀ i, w.Touches n i → i < w.stop := by
      intro i hi
      simp only [Touches, dataOffset] at hi
      omega
    refine ⟨inside, fun d hd => ?_⟩
    obtain ⟨w', hw, -⟩ := append_ok (w := w) (d := d) (by omega)
    refine ⟨w', hw, fun i hi => append_untouched hw fun htouch => ?_⟩
    have := inside i (hd ▸ htouch)
    omega

theorem close_size (w : TunnelFrameWriter) : w.close.buffer.size = w.current := by
  have hle := w.current_le
  have hmax := w.stop_max
  simp only [kTunnelFrameMaxSize] at hmax
  simp only [buffer, TunnelFrameWriter.close, cast_setSize]
  exact Nat.mod_eq_of_lt (by omega)

theorem Filled.stop_eq (h : Filled buf w) : w.stop = buf.size := by
  induction h with
  | new hnew =>
    unfold TunnelFrameWriter.new at hnew
    split at hnew
    · split at hnew
      · cases hnew
        rfl
      · cases hnew
    · cases hnew
  | append _ _ happ ih =>
    obtain ⟨w₁, hw, -, -, hstop⟩ := append_ok (append_eq_ok happ)
    rw [happ] at hw
    cases hw
    rw [hstop, ih]

/-- **`remainingBytes` is the largest datagram that fits, unless that is none
at all.** Over any buffer and after any datagrams within the bound, it is exact
for `n` bytes when `n` is positive or two bytes are left, and only then. -/
theorem remainingBytes_exact_iff (h : Filled buf w) (n : Nat) :
    w.RemainingExact buf.size n ↔ 0 < n ∨ w.current + sizeofTunnelFrameDatagramSeparator ≤ w.stop := by
  have hsz := sizes
  have hle := w.current_le
  constructor
  · intro hex
    rcases Nat.eq_zero_or_pos n with rfl | hpos
    · have hfit := fits_iff.1 (hex.fits (Nat.zero_le _))
      exact .inr (by omega)
    · exact .inl hpos
  · intro hn
    refine ⟨fun hrem => fits_iff.2 ?_, fun hrem => ⟨?_, fun d hd => append_error ?_⟩, fun hpos d hd => ?_⟩
    · rcases Nat.eq_zero_or_pos n with rfl | hpos
      · omega
      · exact (w.remainingBytes_ge hpos).1 hrem
    · -- The last byte of the datagram lies past the end.
      have hfull := mt (w.remainingBytes_ge (Nat.zero_lt_of_lt hrem)).2 (Nat.not_le_of_lt hrem)
      refine ⟨w.dataOffset + (n - 1), .inl ?_, ?_⟩
      · omega
      · simp only [dataOffset]
        omega
    · have hfull := mt (w.remainingBytes_ge (Nat.zero_lt_of_lt hrem)).2 (Nat.not_le_of_lt hrem)
      omega
    · have hfit := (w.remainingBytes_ge hpos).1 (Nat.le_refl _)
      obtain ⟨w', hw, -, hcur, -⟩ := append_ok (w := w) (d := d) (by omega)
      refine ⟨w', hw, ?_⟩
      have hrem : w.remainingBytes = w.stop - (w.current + 2) := by
        unfold remainingBytes at hpos ⊢
        split
        · rename_i hlt
          rw [if_pos hlt] at hpos
          omega
        · rfl
      rw [close_size, hcur, hd, hrem, ← h.stop_eq]
      omega

/-- Five bytes into a buffer of the maximal size, behind two datagrams. -/
theorem remainingBytes_exact_five : ∃ w, Filled ⟨fun _ => 0xAA, kTunnelFrameMaxSize⟩ w ∧
    w.Holds [[1, 2, 3], [4]] ∧ w.RemainingExact kTunnelFrameMaxSize 5 := by
  have hsz := sizes
  obtain ⟨w, hnew, hw, hstop, -⟩ := new_holds ⟨fun _ => 0xAA, kTunnelFrameMaxSize⟩ (by decide) (Nat.le_refl _)
  have hstop : w.stop = kTunnelFrameMaxSize := hstop
  have hcur : w.current = sizeofTunnelFrameHeader := hw.current
  obtain ⟨w₁, happ₁, hw₁, hstop₁, -⟩ := hw.append (d := [1, 2, 3]) (by simp; omega)
  have hcur₁ : w₁.current = sizeofTunnelFrameHeader + 5 := hw₁.current
  obtain ⟨w₂, happ₂, hw₂, -⟩ := hw₁.append (d := [4]) (by simp; omega)
  have hfilled : Filled ⟨fun _ => 0xAA, kTunnelFrameMaxSize⟩ w₂ := by
    refine .append (.append (.new hnew) ?_ happ₁) ?_ happ₂
    · exact (w.remainingBytes_ge (by decide)).2 (by simp; omega)
    · exact (w₁.remainingBytes_ge (by decide)).2 (by simp; omega)
  exact ⟨w₂, hfilled, hw₂, (remainingBytes_exact_iff hfilled 5).2 (.inl (by decide))⟩

/-- In a buffer of the minimal size one empty datagram fits, and for the second
the bound is zero again. -/
theorem remainingBytes_second_empty : ∃ w, Filled ⟨fun _ => 0xAA, kTunnelFrameMinSize⟩ w ∧
    0 ≤ w.remainingBytes ∧ w.Touches 0 w.stop ∧ w.append [] = .error (.abort "_current <= _end") ∧
    ¬ w.RemainingExact kTunnelFrameMinSize 0 := by
  have hsz := sizes
  obtain ⟨w, hnew, hw, hstop, -⟩ := new_holds ⟨fun _ => 0xAA, kTunnelFrameMinSize⟩ (Nat.le_refl _) (by decide)
  have hcur := hw.current
  rw [body_nil, List.length_nil] at hcur
  have hstop : w.stop = kTunnelFrameMinSize := hstop
  obtain ⟨w', happ, -, hcur', hstop'⟩ := append_ok (w := w) (d := []) (by rw [List.length_nil]; omega)
  rw [List.length_nil] at hcur'
  have hfilled : Filled ⟨fun _ => 0xAA, kTunnelFrameMinSize⟩ w' := .append (.new hnew) (Nat.zero_le _) happ
  have herr : w'.append [] = .error (.abort "_current <= _end") := append_error (by rw [List.length_nil]; omega)
  refine ⟨w', hfilled, Nat.zero_le _, .inr (by omega), herr, fun hex => ?_⟩
  obtain ⟨w'', hw'', -⟩ := (hex.fits (Nat.zero_le _)).passes [] rfl
  rw [herr] at hw''
  cases hw''

end TunnelFrameWriter

end RuralPipe
