/-
Facts about streams: what a step of `receive` and of `send` does.

`receive` is a function of the bytes it was given: its buffer starts with them
and it stands where their number puts it (`Receive.At`), whatever the pieces
they came in. So a step moves it from the bytes so far to those and the new
ones (`receiveStep_cases`), and the same for `send` and the bytes the kernel
took (`sendStep_cases`).
-/
import RuralPipe.TunnelFrameStream
import RuralPipe.TunnelFrameFacts

namespace RuralPipe

open Bytes

/-- The size that the header in the first six bytes asks for, if it passes the
check. -/
def checkedSize (m : Mem) : Option Nat :=
  match TunnelFrameHeaderInfo.check ⟨m, sizeofTunnelFrameHeaderInfo⟩ with
  | .ok hdrInfo => some hdrInfo.size
  | .error _ => none

theorem checkedSize_eq_some_iff {m : Mem} {n t : Nat} (hn : sizeofTunnelFrameHeaderInfo ≤ n) :
    checkedSize m = some t ↔
      TunnelFrameHeaderInfo.check ⟨m, n⟩ = .ok (.cast m) ∧ (TunnelFrameHeader.cast m).size = t := by
  rw [@check_congr m m n sizeofTunnelFrameHeaderInfo (fun _ _ => rfl) hn (Nat.le_refl _), checkedSize]
  split
  · rename_i hdr hc
    obtain ⟨rfl, -⟩ := check_eq_ok hc
    simp [hc]
  · rename_i e hc
    simp [hc]

theorem checkedSize_congr {m m' : Mem} (h : ∀ i, i < 6 → m i = m' i) : checkedSize m = checkedSize m' := by
  refine Option.ext fun t => ?_
  rw [checkedSize_eq_some_iff (Nat.le_refl _), checkedSize_eq_some_iff (Nat.le_refl _),
    check_congr h (Nat.le_refl _) (Nat.le_refl _), cast_size_congr h]

theorem checkedSize_le {m : Mem} {t : Nat} (h : checkedSize m = some t) : t ≤ kTunnelFrameMaxSize := by
  obtain ⟨hc, rfl⟩ := (checkedSize_eq_some_iff (Nat.le_refl _)).1 h
  exact (check_eq_ok hc).2.1

/-- The check throws where it does not pass; it never aborts. -/
theorem check_error {buf : TunnelFrameBuffer} {e : Failure} (h : TunnelFrameHeaderInfo.check buf = .error e) :
    ∃ ex, e = .throw ex := by
  simp only [TunnelFrameHeaderInfo.check] at h
  split at h
  · exact ⟨_, (Except.error.inj h).symm⟩
  split at h
  · exact ⟨_, (Except.error.inj h).symm⟩
  split at h
  · exact ⟨_, (Except.error.inj h).symm⟩
  split at h
  · exact ⟨_, (Except.error.inj h).symm⟩
  · cases h

namespace TunnelFrameStream

/-! ## Where the bytes given put `receive` -/

theorem receiveHeader_short {m : Mem} {n : Nat} (h : n < sizeofTunnelFrameHeaderInfo) :
    receiveHeader m n = .header n .call := by
  unfold receiveHeader
  rw [if_pos h]

theorem receiveHeader_refused {m : Mem} {n : Nat} (hn : sizeofTunnelFrameHeaderInfo ≤ n)
    (h : checkedSize m = none) : ∃ ex, receiveHeader m n = .failed (.throw ex) := by
  unfold receiveHeader
  rw [if_neg (by omega)]
  cases hc : TunnelFrameHeaderInfo.check ⟨m, n⟩ with
  | error e =>
    obtain ⟨ex, rfl⟩ := check_error hc
    exact ⟨ex, rfl⟩
  | ok hdr =>
    obtain ⟨rfl, -⟩ := check_eq_ok hc
    rw [(checkedSize_eq_some_iff hn).2 ⟨hc, rfl⟩] at h
    cases h

theorem receiveHeader_checked {m : Mem} {n t : Nat} (hn : sizeofTunnelFrameHeaderInfo ≤ n)
    (h : checkedSize m = some t) : receiveHeader m n = receiveBody m n t := by
  obtain ⟨hc, rfl⟩ := (checkedSize_eq_some_iff hn).1 h
  unfold receiveHeader
  rw [if_neg (by omega), hc]

end TunnelFrameStream

namespace Receive

open TunnelFrameStream

/-- The same place, at its system call. -/
def atCall : Receive → Receive
  | .header numRead _ => .header numRead .call
  | .body numRead totalSize _ => .body numRead totalSize .call
  | r => r

/-- `receive` stands where the bytes given put it. -/
structure At (m : Mem) (given : List UInt8) (r : Receive) : Prop where
  bytes : load m 0 given.length = given
  stands : r.atCall = receiveHeader m given.length
  bound : given.length ≤ sizeofTunnelFrameHeaderInfo ∨ ∃ t, checkedSize m = some t ∧ given.length ≤ t

theorem At.start (s : TunnelFrameStream) : At s.buffer [] s.receive :=
  ⟨rfl, rfl, .inl (Nat.zero_le _)⟩

section
variable {m : Mem} {given : List UInt8} {r : Receive}

theorem At.length_le (h : At m given r) : given.length ≤ kTunnelFrameMaxSize := by
  have hsz := sizes
  rcases h.bound with hb | ⟨t, ht, hb⟩
  · omega
  · have := checkedSize_le ht
    omega

theorem At.header {n : Nat} {io : Io} (h : At m given (.header n io)) :
    given.length = n ∧ n < sizeofTunnelFrameHeaderInfo := by
  have hs := h.stands
  rcases Nat.lt_or_ge given.length sizeofTunnelFrameHeaderInfo with hlt | hge
  · rw [receiveHeader_short hlt] at hs
    cases hs
    exact ⟨rfl, hlt⟩
  · exfalso
    cases hc : checkedSize m with
    | none =>
      obtain ⟨ex, he⟩ := receiveHeader_refused hge hc
      rw [he] at hs
      cases hs
    | some t =>
      rw [receiveHeader_checked hge hc] at hs
      unfold receiveBody at hs
      split at hs
      · cases hs
      · split at hs <;> cases hs

/-- Past the header the size is known. -/
theorem At.past (h : At m given r) (hr : ∀ n io, r ≠ .header n io) (hf : ∀ ex, r ≠ .failed (.throw ex)) :
    sizeofTunnelFrameHeaderInfo ≤ given.length ∧
      ∃ t, checkedSize m = some t ∧ r.atCall = receiveBody m given.length t := by
  have hs := h.stands
  rcases Nat.lt_or_ge given.length sizeofTunnelFrameHeaderInfo with hlt | hge
  · rw [receiveHeader_short hlt] at hs
    cases r with
    | header n io => exact absurd rfl (hr n io)
    | body n t io => cases hs
    | returned buf => cases hs
    | failed e => cases hs
  · refine ⟨hge, ?_⟩
    cases hc : checkedSize m with
    | none =>
      obtain ⟨ex, he⟩ := receiveHeader_refused hge hc
      rw [he] at hs
      cases r with
      | header n io => cases hs
      | body n t io => cases hs
      | returned buf => cases hs
      | failed e =>
        cases hs
        exact absurd rfl (hf ex)
    | some t => exact ⟨t, rfl, hs.trans (receiveHeader_checked hge hc)⟩

theorem At.body {n t : Nat} {io : Io} (h : At m given (.body n t io)) :
    given.length = n ∧ sizeofTunnelFrameHeaderInfo ≤ n ∧ n < t ∧ checkedSize m = some t := by
  obtain ⟨hge, t', ht', hs⟩ := h.past (by simp) (by simp)
  unfold receiveBody at hs
  split at hs
  · cases hs
    exact ⟨rfl, hge, by assumption, ht'⟩
  · split at hs <;> cases hs

/-- What `receive` returns is the bytes given, as many as their header says. -/
theorem At.returned {buf : TunnelFrameBuffer} (h : At m given (.returned buf)) :
    buf = ⟨m, given.length⟩ ∧ checkedSize m = some given.length := by
  obtain ⟨hge, t', ht', hs⟩ := h.past (by simp) (by simp)
  unfold receiveBody at hs
  split at hs
  · cases hs
  · split at hs
    · rename_i heq
      cases hs
      exact ⟨by rw [heq], by rw [ht', heq]⟩
    · cases hs

/-- The assertion fails only on a header that asks for less than itself. -/
theorem At.aborted {c : String} (h : At m given (.failed (.abort c))) :
    given.length = sizeofTunnelFrameHeaderInfo ∧ ∃ t, checkedSize m = some t ∧ t < sizeofTunnelFrameHeaderInfo := by
  obtain ⟨hge, t', ht', hs⟩ := h.past (by simp) (by simp)
  unfold receiveBody at hs
  split at hs
  · cases hs
  · split at hs
    · cases hs
    · rcases h.bound with hb | ⟨t, ht, hb⟩
      · exact ⟨by omega, t', ht', by omega⟩
      · rw [ht'] at ht
        cases ht
        omega

end

theorem At.room {m : Mem} {given : List UInt8} {r : Receive} (h : r.At m given) {off n : Nat}
    (ht : receiveTarget r = some (off, n)) :
    off = given.length ∧ 0 < n ∧ given.length + n ≤ kTunnelFrameMaxSize := by
  have hsz := sizes
  cases r with
  | header k io =>
    obtain ⟨rfl, hk⟩ := h.header
    simp only [receiveTarget, Option.some.injEq, Prod.mk.injEq] at ht
    omega
  | body k t io =>
    obtain ⟨rfl, hk, hkt, hc⟩ := h.body
    have := checkedSize_le hc
    simp only [receiveTarget, Option.some.injEq, Prod.mk.injEq] at ht
    omega
  | returned buf => cases ht
  | failed e => cases ht

theorem atCall_receiveBody (m : Mem) (n t : Nat) : (receiveBody m n t).atCall = receiveBody m n t := by
  unfold receiveBody
  split
  · rfl
  · split <;> rfl

theorem atCall_receiveHeader (m : Mem) (n : Nat) : (receiveHeader m n).atCall = receiveHeader m n := by
  unfold receiveHeader
  split
  · rfl
  · split
    · rfl
    · exact atCall_receiveBody _ _ _

/-- The bytes so far, then the new ones. -/
theorem At.bytes_append {m : Mem} {given : List UInt8} (h : load m 0 given.length = given) (bs : List UInt8) :
    load (store m given.length bs) 0 (given ++ bs).length = given ++ bs := by
  rw [List.length_append, load_add, load_store_disjoint (by omega), h, Nat.zero_add, load_store_self]

end Receive

/-- The bytes a system call gave. -/
def IoEvent.bytes : IoEvent (List UInt8) → List UInt8
  | .call (.ok bs) => bs
  | _ => []

/-- The returns `receive` can meet where it stands. -/
def Receive.Awaits : Receive → IoEvent (List UInt8) → Prop
  | .header numRead io, ev => FileDescriptor.Answers List.length (sizeofTunnelFrameHeaderInfo - numRead) io ev
  | .body numRead totalSize io, ev => FileDescriptor.Answers List.length (totalSize - numRead) io ev
  | _, _ => False

namespace TunnelFrameStream

open Receive

/-- `receive` takes every return it can meet. -/
theorem receiveStep_isSome {s : TunnelFrameStream} {r : Receive} {ev : IoEvent (List UInt8)} :
    (s.receiveStep r ev).isSome ↔ r.Awaits ev := by
  cases r with
  | header n io =>
    rw [Receive.Awaits, ← @FileDescriptor.retryStep_isSome _ s.fd "read from" List.length _ io ev]
    simp only [receiveStep, FileDescriptor.readStep]
    split <;> simp [*]
  | body n t io =>
    rw [Receive.Awaits, ← @FileDescriptor.retryStep_isSome _ s.fd "read from" List.length _ io ev]
    simp only [receiveStep, FileDescriptor.readStep]
    split <;> simp [*]
  | returned buf => simp [receiveStep, Receive.Awaits]
  | failed e => simp [receiveStep, Receive.Awaits]

/-- A call that still reads takes a byte, perhaps after its poll. -/
theorem receive_goesOn {s : TunnelFrameStream} {r : Receive} {off n : Nat} (ht : receiveTarget r = some (off, n))
    (hn : 0 < n) (c : UInt8) :
    ∃ r₁, (r₁ = r ∨ s.receiveStep r (.poll (.ok 1)) = some (s, r₁)) ∧
      ∃ s' r', s.receiveStep r₁ (.call (.ok [c])) = some (s', r') := by
  have htakes : r.atCall.Awaits (.call (.ok [c])) := by
    cases r with
    | header k io => cases ht; exact hn
    | body k t io => cases ht; exact hn
    | returned buf => cases ht
    | failed e => cases ht
  obtain ⟨⟨s', r'⟩, hstep⟩ := Option.isSome_iff_exists.1 (receiveStep_isSome (s := s).2 htakes)
  refine ⟨r.atCall, ?_, s', r', hstep⟩
  cases r with
  | header k io =>
    cases io with
    | call => exact .inl rfl
    | poll => exact .inr rfl
  | body k t io =>
    cases io with
    | call => exact .inl rfl
    | poll => exact .inr rfl
  | returned buf => exact .inl rfl
  | failed e => exact .inl rfl

/-- **A step of `receive`**: the bytes so far and the new ones, or no new bytes
and the same place, or an exception. -/
theorem receiveStep_cases {s s' : TunnelFrameStream} {r r' : Receive} {ev : IoEvent (List UInt8)}
    {given : List UInt8} (hat : r.At s.buffer given) (h : s.receiveStep r ev = some (s', r')) :
    (∃ n, receiveTarget r = some (given.length, n) ∧ 0 < ev.bytes.length ∧ ev.bytes.length ≤ n ∧
      s' = { s with buffer := store s.buffer given.length ev.bytes } ∧ r'.At s'.buffer (given ++ ev.bytes)) ∨
    (s' = s ∧ r'.At s.buffer given ∧ receiveTarget r' = receiveTarget r ∧ ev.bytes = []) ∨
    ∃ ex, s' = s ∧ r' = .failed (.throw ex) ∧ receiveTarget r ≠ none ∧ ev.bytes = [] ∧ ¬ ev.Smooth List.length := by
  -- A loop that goes on or throws was given nothing.
  have hnone : (∀ a, ev ≠ .call (.ok a)) → ev.bytes = [] := by
    intro hne
    rcases ev with (_ | bs) | _
    · rfl
    · exact absurd rfl (hne bs)
    · rfl
  have hempty : (∀ a : List UInt8, ev = .call (.ok a) → a.length = 0) → ev.bytes = [] := by
    intro hz
    rcases ev with (_ | bs) | _
    · rfl
    · exact List.eq_nil_of_length_eq_zero (hz bs rfl)
    · rfl
  have hsz := sizes
  cases r with
  | header n io =>
    obtain ⟨rfl, hlt⟩ := hat.header
    simp only [receiveStep] at h
    cases ha : s.fd.readStep (sizeofTunnelFrameHeaderInfo - given.length) io ev with
    | none => rw [ha] at h; cases h
    | some at' =>
      rw [ha] at h
      rcases FileDescriptor.retryStep_cases ha with ⟨bs, -, rfl, hpos, hle, rfl⟩ |
        ⟨io', rfl, hne⟩ | ⟨ex, rfl, -, -, hsm, hz⟩
      · cases h
        refine .inl ⟨_, rfl, hpos, hle, rfl, At.bytes_append hat.bytes bs, ?_, .inl ?_⟩
        · rw [atCall_receiveHeader, List.length_append]
          rfl
        · rw [List.length_append]
          show given.length + bs.length ≤ _
          omega
      · cases h
        exact .inr (.inl ⟨rfl, ⟨hat.bytes, hat.stands, hat.bound⟩, rfl, hnone hne⟩)
      · cases h
        exact .inr (.inr ⟨ex, rfl, rfl, by simp [receiveTarget], hempty hz, hsm⟩)
  | body n t io =>
    obtain ⟨rfl, hge, hlt, hc⟩ := hat.body
    simp only [receiveStep] at h
    cases ha : s.fd.readStep (t - given.length) io ev with
    | none => rw [ha] at h; cases h
    | some at' =>
      rw [ha] at h
      rcases FileDescriptor.retryStep_cases ha with ⟨bs, -, rfl, hpos, hle, rfl⟩ |
        ⟨io', rfl, hne⟩ | ⟨ex, rfl, -, -, hsm, hz⟩
      · cases h
        have hc' : checkedSize (store s.buffer given.length bs) = some t := by
          rw [← hc]
          exact checkedSize_congr fun i hi => store_out (by omega)
        refine .inl ⟨_, rfl, hpos, hle, rfl, At.bytes_append hat.bytes bs, ?_, .inr ⟨t, hc', ?_⟩⟩
        · rw [atCall_receiveBody, List.length_append, receiveHeader_checked (by omega) hc']
          rfl
        · rw [List.length_append]
          show given.length + bs.length ≤ t
          omega
      · cases h
        exact .inr (.inl ⟨rfl, ⟨hat.bytes, hat.stands, hat.bound⟩, rfl, hnone hne⟩)
      · cases h
        exact .inr (.inr ⟨ex, rfl, rfl, by simp [receiveTarget], hempty hz, hsm⟩)
  | returned buf => cases h
  | failed e => cases h

/-- A frame comes in two reads, its first six bytes and the others. -/
theorem receive_whole (s : TunnelFrameStream) (buf : TunnelFrameBuffer) (hlt : sizeofTunnelFrameHeaderInfo < buf.size)
    (hc : checkedSize buf.data = some buf.size) :
    ∃ m₁ m₂, s.receiveStep s.receive (.call (.ok (buf.bytes.take sizeofTunnelFrameHeaderInfo))) =
        some ({ s with buffer := m₁ }, .body sizeofTunnelFrameHeaderInfo buf.size .call) ∧
      ({ s with buffer := m₁ } : TunnelFrameStream).receiveStep (.body sizeofTunnelFrameHeaderInfo buf.size .call)
        (.call (.ok (buf.bytes.drop sizeofTunnelFrameHeaderInfo))) =
        some ({ s with buffer := m₂ }, .returned ⟨m₂, buf.size⟩) ∧
      (TunnelFrameBuffer.mk m₂ buf.size).bytes = buf.bytes := by
  have hsz := sizes
  have hlen := buf.bytes_length
  let m₁ := store s.buffer 0 (buf.bytes.take sizeofTunnelFrameHeaderInfo)
  let m₂ := store m₁ sizeofTunnelFrameHeaderInfo (buf.bytes.drop sizeofTunnelFrameHeaderInfo)
  have htake : (buf.bytes.take sizeofTunnelFrameHeaderInfo).length = sizeofTunnelFrameHeaderInfo := by
    rw [List.length_take, hlen]
    omega
  have hload₁ : load m₁ 0 sizeofTunnelFrameHeaderInfo = buf.bytes.take sizeofTunnelFrameHeaderInfo := by
    have := load_store_self s.buffer 0 (buf.bytes.take sizeofTunnelFrameHeaderInfo)
    rwa [htake] at this
  have hc₁ : checkedSize m₁ = some buf.size := by
    rw [← hc]
    refine checkedSize_congr fun i hi => ?_
    have hb : (TunnelFrameBuffer.mk m₁ sizeofTunnelFrameHeaderInfo).bytes =
        (TunnelFrameBuffer.mk buf.data sizeofTunnelFrameHeaderInfo).bytes := by
      have htk := load_take buf.data 0 buf.size sizeofTunnelFrameHeaderInfo
      rw [Nat.min_eq_left (Nat.le_of_lt hlt)] at htk
      exact hload₁.trans htk
    exact (TunnelFrameBuffer.data_of_bytes hb).2 i hi
  refine ⟨m₁, m₂, ?_, ?_, ?_⟩
  · -- The header.
    have hstart : s.receive = .header 0 .call := receiveHeader_short (by omega)
    have hread : s.fd.readStep (sizeofTunnelFrameHeaderInfo - 0) .call
        (.call (.ok (buf.bytes.take sizeofTunnelFrameHeaderInfo))) = some (.returned _) :=
      FileDescriptor.retryStep_call (by omega) (by omega)
    rw [hstart, receiveStep, hread]
    simp only [htake, Nat.zero_add]
    rw [receiveHeader_checked (Nat.le_refl _) hc₁, receiveBody, if_pos hlt]
  · -- The rest of the frame.
    have hread : s.fd.readStep (buf.size - sizeofTunnelFrameHeaderInfo) .call
        (.call (.ok (buf.bytes.drop sizeofTunnelFrameHeaderInfo))) = some (.returned _) :=
      FileDescriptor.retryStep_call (by rw [List.length_drop, hlen]; omega)
        (Nat.le_of_eq (by rw [List.length_drop, hlen]))
    rw [receiveStep, hread]
    simp only [List.length_drop, hlen]
    rw [receiveBody, if_neg (by omega), if_pos (by omega)]
  · have := At.bytes_append (m := m₁) (by rw [htake]; exact hload₁) (buf.bytes.drop sizeofTunnelFrameHeaderInfo)
    rwa [List.take_append_drop, htake, hlen] at this

/-! ## A step of `send` -/

/-- Only a write throws. -/
theorem sendLoop_ne_threw {buf : TunnelFrameBuffer} {n : Nat} {ex : Exception} : sendLoop buf n ≠ .threw ex := by
  unfold sendLoop
  split <;> simp

/-- The first write of a `send`, of less than the frame. -/
theorem sendStep_first {s : TunnelFrameStream} {buf : TunnelFrameBuffer} {n : Nat} (hpos : 0 < n) (h : n < buf.size) :
    s.sendStep buf (send buf) (.call (.ok n)) = some (.writing n .call, load buf.data 0 n) := by
  have hsend : send buf = .writing 0 .call := if_pos (by omega)
  simp only [hsend, sendStep, FileDescriptor.writeStep]
  rw [FileDescriptor.retryStep_call hpos (by simp only [id]; omega)]
  simp only [sendLoop, Nat.zero_add, if_pos h]

/-- A `send` whose first write takes `n` bytes, perhaps the whole frame. -/
theorem sendStep_takes {s : TunnelFrameStream} {buf : TunnelFrameBuffer} {n : Nat} (hpos : 0 < n) (h : n ≤ buf.size) :
    s.sendStep buf (send buf) (.call (.ok n)) = some (sendLoop buf n, load buf.data 0 n) := by
  have hsend : send buf = .writing 0 .call := if_pos (by omega)
  simp only [hsend, sendStep, FileDescriptor.writeStep]
  rw [FileDescriptor.retryStep_call hpos (by simp only [id]; omega)]
  simp only [Nat.zero_add]

/-- A `send` whose first write takes the whole frame. -/
theorem sendStep_whole {s : TunnelFrameStream} {buf : TunnelFrameBuffer} (hpos : 0 < buf.size) :
    s.sendStep buf (send buf) (.call (.ok buf.size)) = some (.returned, load buf.data 0 buf.size) := by
  have hsend : send buf = .writing 0 .call := if_pos hpos
  simp only [hsend, sendStep, FileDescriptor.writeStep]
  rw [@FileDescriptor.retryStep_call Nat s.fd "write to" id (buf.size - 0) buf.size hpos (Nat.le_refl _)]
  simp only [sendLoop, Nat.zero_add, if_neg (Nat.lt_irrefl _)]

/-- A write that fails, other than because it would block. -/
theorem sendStep_error {s : TunnelFrameStream} {buf : TunnelFrameBuffer} {n errno : Nat} (h : errno ≠ EWOULDBLOCK)
    (h' : errno ≠ EAGAIN) :
    ∃ ex, s.sendStep buf (.writing n .call) (.call (.error errno)) = some (.threw ex, []) ∧
      ex.isNotYetReady = false := by
  obtain ⟨ex, hex⟩ := @FileDescriptor.retryStep_error Nat s.fd "write to" id (buf.size - n) errno h h'
  refine ⟨ex, by simp only [sendStep, FileDescriptor.writeStep, hex], ?_⟩
  rcases FileDescriptor.retryStep_cases hex with ⟨_, _, he, _⟩ | ⟨_, he, _⟩ | ⟨_, he, -, hnot, _⟩
  · cases he
  · cases he
  · cases he
    exact hnot

/-- A step of `send`: the kernel takes some of what is left, or nothing is
taken and it stands where it stood, or it throws. -/
theorem sendStep_cases {s : TunnelFrameStream} {buf : TunnelFrameBuffer} {x x' : Send} {ev : IoEvent Nat}
    {out : List UInt8} (h : s.sendStep buf x ev = some (x', out)) :
    ∃ n io, x = .writing n io ∧
      ((∃ k, ev = .call (.ok k) ∧ 0 < k ∧ n + k ≤ buf.size ∧ x' = sendLoop buf (n + k) ∧ out = load buf.data n k) ∨
        (∃ io', x' = .writing n io' ∧ out = [] ∧ ∀ k, ev ≠ .call (.ok k)) ∨
        ∃ ex, x' = .threw ex ∧ out = [] ∧ ex.isSystem = true ∧ ex.isNotYetReady = false ∧ ¬ ev.Smooth id) := by
  cases x with
  | writing n io =>
    refine ⟨n, io, rfl, ?_⟩
    simp only [sendStep] at h
    cases ha : s.fd.writeStep (buf.size - n) io ev with
    | none => rw [ha] at h; cases h
    | some at' =>
      rw [ha] at h
      rcases FileDescriptor.retryStep_cases ha with ⟨k, -, rfl, hpos, hle, rfl⟩ |
        ⟨io', rfl, hne⟩ | ⟨ex, rfl, hsys, hnot, hsm, -⟩
      · cases h
        exact .inl ⟨k, rfl, hpos, by simp only [id] at hpos hle; omega, rfl, rfl⟩
      · cases h
        exact .inr (.inl ⟨io', rfl, rfl, hne⟩)
      · cases h
        exact .inr (.inr ⟨ex, rfl, rfl, hsys, hnot, hsm⟩)
  | returned => cases h
  | threw ex => cases h

end TunnelFrameStream

/-! ## A frame among others -/

/-- The first bytes of a frame are those of its buffer. -/
theorem TunnelFrameBuffer.Closed.checkedSize {buf : TunnelFrameBuffer} {ds} (h : buf.Closed ds) :
    checkedSize buf.data = some buf.size := by
  have hsz := sizes
  have hle := h.header_le
  exact (checkedSize_eq_some_iff (n := buf.size) (by omega)).2 ⟨h.check, h.size_field⟩

/-- Given bytes of a frame and then of what follows it, `receive` takes no more
than the frame, does not fail, and returns the frame as soon as it has it. -/
theorem Receive.At.frame {m : Mem} {given more after : List UInt8} {r : Receive} {buf : TunnelFrameBuffer} {ds}
    (hat : r.At m given) (hbuf : buf.Closed ds) (h : given ++ more = buf.bytes ++ after) :
    given <+: buf.bytes ∧ (∀ e, r ≠ .failed e) ∧
      (∀ res, r = .returned res → res.bytes = buf.bytes ∧ given = buf.bytes) ∧
      (given = buf.bytes → ∃ res, r = .returned res) := by
  have hsz := sizes
  have hle := hbuf.header_le
  have hlen : buf.bytes.length = buf.size := TunnelFrameBuffer.bytes_length buf
  -- Six bytes given are the frame's first six.
  have hc : sizeofTunnelFrameHeaderInfo ≤ given.length → checkedSize m = some buf.size := by
    intro hge
    rw [← hbuf.checkedSize]
    refine checkedSize_congr fun i hi => ?_
    have h₁ : (given ++ more)[i]? = some (m i) := by
      have hl : i < (load m 0 given.length).length := by rw [load_length]; omega
      have := load_getElem hl
      rw [Nat.zero_add] at this
      rw [List.getElem?_append_left (by omega), ← this]
      simp only [hat.bytes]
      exact List.getElem?_eq_getElem (by omega)
    have h₂ : (buf.bytes ++ after)[i]? = some (buf.data i) := by
      have hl : i < (load buf.data 0 buf.size).length := by rw [load_length]; omega
      have := load_getElem hl
      rw [Nat.zero_add] at this
      rw [List.getElem?_append_left (by omega), ← this]
      exact List.getElem?_eq_getElem (by omega)
    rw [h, h₂] at h₁
    exact (Option.some.inj h₁).symm
  have hshort : given.length ≤ buf.size := by
    rcases hat.bound with hb | ⟨t, ht, hb⟩
    · omega
    · rcases Nat.lt_or_ge given.length sizeofTunnelFrameHeaderInfo with hlt | hge
      · omega
      · rw [hc hge] at ht
        cases ht
        exact hb
  have hpre : given <+: buf.bytes := by
    refine @List.prefix_of_prefix_length_le _ given buf.bytes (buf.bytes ++ after) ?_
      (List.prefix_append _ _) (by omega)
    rw [← h]
    exact List.prefix_append _ _
  refine ⟨hpre, fun e he => ?_, fun res hr => ?_, fun hg => ?_⟩
  · have hs := hat.stands
    rw [he] at hs
    rcases Nat.lt_or_ge given.length sizeofTunnelFrameHeaderInfo with hlt | hge
    · rw [TunnelFrameStream.receiveHeader_short hlt] at hs
      cases hs
    · rw [TunnelFrameStream.receiveHeader_checked hge (hc hge), TunnelFrameStream.receiveBody] at hs
      split at hs
      · cases hs
      · split at hs
        · cases hs
        · omega
  · rw [hr] at hat
    obtain ⟨rfl, hc'⟩ := hat.returned
    have hge := (hat.past (by simp) (by simp)).1
    have heq : given.length = buf.bytes.length := by
      rw [hc hge] at hc'
      rw [hlen, Option.some.inj hc']
    have hg : given = buf.bytes := hpre.eq_of_length heq
    exact ⟨hat.bytes.trans hg, hg⟩
  · have hlen' : given.length = buf.size := by rw [hg, hlen]
    have hs := hat.stands
    rw [TunnelFrameStream.receiveHeader_checked (by omega) (hc (by omega)), TunnelFrameStream.receiveBody,
      if_neg (by omega), if_pos hlen'] at hs
    cases r with
    | returned res => exact ⟨res, rfl⟩
    | header n io => cases hs
    | body n t io => cases hs
    | failed e => cases hs

end RuralPipe
