/-
Batching (`_receiveFromTunnelLoop`) is the greedy partition of the datagrams.

A thread of the loop runs over any outcomes of `poll`, any datagrams and any
hand-overs. What it was given (`arrivals`) determines the frames it has closed,
accepted or waiting, and what it has open or carries over: they are the greedy
batches of a frame's capacity (`batching_greedy`). `Stands` is the loop's
invariant: what `numDatagramsWritten` counts, and that a datagram is carried
over only into an empty frame.
-/
import RuralPipe.Greedy
import RuralPipe.Machine
import RuralPipe.TunnelFacts
import RuralPipe.WriterRoom

namespace RuralPipe

open Machine Bytes

/-- What a frame has room for, after its header. -/
def frameCapacity : Nat := kTunnelFrameMaxSize - sizeofTunnelFrameHeader

/-- A datagram with its separator. -/
def itemSize (d : List UInt8) : Nat := (item d).length

def greedyFrames (as : List (Arrival (List UInt8))) : Batches (List UInt8) := Batches.greedy itemSize frameCapacity as

/-- What an event brings: a datagram, or a `poll` that timed out. -/
def LoopEvent.arrival : LoopEvent → Option (Arrival (List UInt8))
  | .polled (.ok 0) => some .pause
  | .io (.call (.ok bs)) => some (.item bs)
  | _ => none

/-- `poll` of one descriptor counts at most one, and a hand-over changes no
more of its frame than the sequence number. -/
def LoopEvent.Offered (t : TunnelThread) : LoopEvent → Prop
  | .polled (.ok res) => res ≤ 1
  | .outcome buf _ => ∃ buf₀ n, t.loop = .invoking buf₀ ∧ buf = patched buf₀ n
  | _ => True

/-- One thread of the loop; a label says whether `_interrupted` was set, and
what happened. -/
def batching (fd : FileDescriptor) (mtu : Nat) : Machine TunnelThread (Bool × LoopEvent) where
  init t := t = .start
  step t l t' := l.2.Offered t ∧ t.step fd mtu l.1 l.2 = some t'

def arrivals (tr : List (Transition TunnelThread (Bool × LoopEvent))) : List (Arrival (List UInt8)) :=
  tr.filterMap fun t => t.label.2.arrival

namespace TunnelThread

/-- The frame that the event's hand-over accepted. -/
def accepts (t : TunnelThread) : LoopEvent → Option TunnelFrameBuffer
  | .outcome _ (.ok _) =>
    match t.loop with
    | .invoking buf => some buf
    | _ => none
  | _ => none

/-- The frame that waits to be accepted, if one is closed. -/
def waiting (t : TunnelThread) : List (List (List UInt8)) :=
  match t.loop with
  | .handOver _ => [t.batch]
  | .invoking _ => [t.batch]
  | .sleep _ => [t.batch]
  | _ => []

/-- What is in no closed frame yet: the open frame, and what is carried over. -/
def opened (t : TunnelThread) : List (List UInt8) :=
  match t.loop with
  | .handOver _ => t.carried
  | .invoking _ => t.carried
  | .sleep _ => t.carried
  | _ => t.batch ++ t.carried

/-- The batches so far, when the frames of `accepted` were accepted. -/
def batches (t : TunnelThread) (accepted : List (List (List UInt8))) : Batches (List UInt8) :=
  { closed := accepted ++ t.waiting, opened := t.opened }

end TunnelThread

def accepted (tr : List (Transition TunnelThread (Bool × LoopEvent))) : List TunnelFrameBuffer :=
  tr.filterMap fun t => t.pre.accepts t.label.2

/-! ## The frame's arithmetic -/

theorem weight_body (ds : List (List UInt8)) : Batches.weight itemSize ds = (body ds).length := by
  rw [body_length, Batches.weight]
  exact congrArg List.sum (List.map_congr_left fun d _ => item_length d)

theorem itemSize_nil : itemSize [] ≤ frameCapacity := by decide

theorem itemSize_le {mtu : Nat} (h : mtu + sizeofTunnelFrameDatagramSeparator ≤ frameCapacity) {d : List UInt8}
    (hd : d.length ≤ mtu) : itemSize d ≤ frameCapacity := by
  have hsz := sizes
  have : itemSize d = 2 + d.length := item_length d
  omega

/-! ## The loop's invariant -/

namespace TunnelThread

/-- The thread holds the datagrams `ds` in its frame, and no more of a datagram
at hand than it can carry over. -/
structure Stands (t : TunnelThread) (ds : List (List UInt8)) : Prop where
  holds : t.Holds ds
  nonempty : ∀ d ∈ ds, d ≠ []
  fits : itemSize t.mtuBuffer ≤ frameCapacity
  open_frame : ∀ w n, (t.loop = .wait w n ∨ t.loop = .poll w n ∨ ∃ io, t.loop = .read w n io) →
    w.stop = kTunnelFrameMaxSize ∧ n = ds.length ∧ (t.mtuBuffer ≠ [] → ds = [])
  closed_frame : ∀ buf, (t.loop = .handOver buf ∨ t.loop = .invoking buf ∨ t.loop = .sleep buf) → ds ≠ []

variable {fd : FileDescriptor} {mtu : Nat} {interrupted : Bool} {t t' : TunnelThread} {ev : LoopEvent}
  {w : TunnelFrameWriter} {n : Nat} {ds : List (List UInt8)}

theorem append_stands (hw : w.Holds ds) (hstop : w.stop = kTunnelFrameMaxSize) (hn : n = ds.length)
    (hne : ∀ d ∈ ds, d ≠ []) (hm : t.mtuBuffer ≠ []) (hfit : itemSize t.mtuBuffer ≤ frameCapacity) :
    ∃ ds', (t.append w n).Stands ds' ∧ ∀ acc,
      (t.append w n).batches acc =
        Batches.arrive itemSize frameCapacity { closed := acc, opened := ds } (.item t.mtuBuffer) := by
  have hsz := sizes
  have hlen : itemSize t.mtuBuffer = 2 + t.mtuBuffer.length := item_length _
  have hcur := hw.current
  have hcap : frameCapacity = 3938 := rfl
  have hpos := List.length_pos_iff.2 hm
  have hroom := w.remainingBytes_ge hpos
  by_cases hlt : w.remainingBytes < t.mtuBuffer.length
  · -- It does not fit, so the frame has datagrams, and is closed.
    have hfull : frameCapacity < (body ds).length + itemSize t.mtuBuffer := by omega
    have hds : ds ≠ [] := by
      rintro rfl
      simp only [body_nil, List.length_nil] at hfull
      omega
    have hn0 : n ≠ 0 := by
      rw [hn]
      exact fun h => hds (List.length_eq_zero_iff.1 h)
    have ha : t.append w n = { t with loop := .handOver w.close.buffer } := by
      rw [append, if_pos hlt, if_neg hn0]
    rw [ha]
    refine ⟨ds, ⟨hw.close, hne, hfit, fun w' n' h => ?_, fun _ _ => hds⟩, fun acc => ?_⟩
    · simp at h
    · simp only [Batches.arrive, weight_body]
      rw [if_neg (by omega)]
      have hb : TunnelThread.batch { t with loop := .handOver w.close.buffer } = ds := hw.close.datagrams_eq
      simp only [batches, waiting, opened, hb]
      rw [carried, if_neg hm]
  · obtain ⟨w', hap, hw', hstop', -⟩ := hw.append (d := t.mtuBuffer) (hroom.1 (by omega))
    have ha : t.append w n = ⟨.wait w' (n + 1), [], t.bytesIn + UInt64.ofNat t.mtuBuffer.length⟩ := by
      rw [append, if_neg hlt, hap]
    rw [ha]
    refine ⟨ds ++ [t.mtuBuffer], ⟨hw', fun d hd => ?_, itemSize_nil, fun w'' n' h => ?_, fun buf h => by simp at h⟩,
      fun acc => ?_⟩
    · rcases List.mem_append.1 hd with hd | hd
      · exact hne d hd
      · rw [List.mem_singleton] at hd
        rwa [hd]
    · simp only [TunnelLoop.wait.injEq, reduceCtorEq, exists_false, or_false] at h
      obtain ⟨rfl, rfl⟩ := h
      exact ⟨hstop'.trans hstop, by simp [hn], fun h => absurd rfl h⟩
    · simp only [Batches.arrive, weight_body]
      rw [if_pos (by omega)]
      simp [batches, waiting, opened, batch, carried, hw'.datagrams_eq]

theorem polled_stands {res : Nat} (hw : w.Holds ds) (hstop : w.stop = kTunnelFrameMaxSize) (hn : n = ds.length)
    (hne : ∀ d ∈ ds, d ≠ []) (hm : t.mtuBuffer = []) (hres : res ≤ 1) :
    (t.polled w n res).Stands ds ∧ ∀ acc,
      (t.polled w n res).batches acc =
        if res = 0 then Batches.arrive itemSize frameCapacity { closed := acc, opened := ds } .pause
        else { closed := acc, opened := ds } := by
  have hfit : itemSize t.mtuBuffer ≤ frameCapacity := hm ▸ itemSize_nil
  have hempty : ∀ ds' : List (List UInt8), t.mtuBuffer ≠ [] → ds' = [] := fun _ h => absurd hm h
  by_cases hz : res = 0
  · by_cases hn0 : n = 0
    · have ht : t.polled w n res = { t with loop := .wait w 0 } := by rw [polled, if_pos hz, if_pos hn0]
      have hds : ds = [] := List.length_eq_zero_iff.1 (hn ▸ hn0)
      subst hds
      rw [ht]
      refine ⟨⟨hw, hne, hfit, fun w' n' h => ?_, fun buf h => by simp at h⟩, fun acc => ?_⟩
      · simp only [TunnelLoop.wait.injEq, reduceCtorEq, exists_false, or_false] at h
        obtain ⟨rfl, rfl⟩ := h
        exact ⟨hstop, rfl, hempty []⟩
      · simp [hz, Batches.arrive, batches, waiting, opened, batch, carried, hm, hw.datagrams_eq]
    · have ht : t.polled w n res = { t with loop := .handOver w.close.buffer } := by rw [polled, if_pos hz, if_neg hn0]
      have hds : ds ≠ [] := fun h => hn0 (by rw [hn, h]; rfl)
      rw [ht]
      refine ⟨⟨hw.close, hne, hfit, fun w' n' h => by simp at h, fun _ _ => hds⟩, fun acc => ?_⟩
      simp [hz, hds, Batches.arrive, batches, waiting, opened, batch, carried, hm, hw.close.datagrams_eq]
  · have ht : t.polled w n res = { t with loop := .read w n .call } := by
      rw [polled, if_neg hz, if_pos (by omega)]
    rw [ht]
    refine ⟨⟨⟨hw, hm⟩, hne, hfit, fun w' n' h => ?_, fun buf h => by simp at h⟩, fun acc => ?_⟩
    · simp only [TunnelLoop.read.injEq, reduceCtorEq, false_or] at h
      obtain ⟨io, rfl, rfl, -⟩ := h
      exact ⟨hstop, hn, hempty ds⟩
    · simp [hz, batches, waiting, opened, batch, carried, hm, hw.datagrams_eq]

theorem open_batches (h : t.Stands ds) (hl : t.loop = .poll w n ∨ ∃ io, t.loop = .read w n io) (hm : t.mtuBuffer = [])
    (acc : List (List (List UInt8))) : t.batches acc = { closed := acc, opened := ds } := by
  have hbatch : t.batch = ds := h.holds.batch_eq
  rcases hl with hl | ⟨io, hl⟩ <;> simp [batches, waiting, opened, hl, hbatch, carried_nil hm]

/-- The head of the loop: a datagram carried over is the first of its frame. -/
theorem wait_stands (interrupted : Bool) (h : t.Stands ds) (hl : t.loop = .wait w n) :
    (t.wait interrupted w n).loop = .ended .interrupted ∨
    ∃ ds', (t.wait interrupted w n).Stands ds' ∧ ∀ acc, (t.wait interrupted w n).batches acc = t.batches acc := by
  have hh := h.holds
  rw [Holds, hl] at hh
  obtain ⟨hstop, hn, hcar⟩ := h.open_frame w n (.inl hl)
  unfold wait
  by_cases hi : interrupted = true
  · exact .inl (by rw [if_pos hi])
  rw [if_neg hi]
  by_cases hm : t.mtuBuffer = []
  · rw [if_neg (not_not.2 hm)]
    refine .inr ⟨ds, ⟨⟨hh, hm⟩, h.nonempty, h.fits, fun w' n' h' => ?_, fun buf h' => by simp at h'⟩, fun acc => ?_⟩
    · simp only [TunnelLoop.poll.injEq, reduceCtorEq, exists_false, or_false, false_or] at h'
      obtain ⟨rfl, rfl⟩ := h'
      exact ⟨hstop, hn, hcar⟩
    · simp [batches, waiting, opened, batch, carried, hl]
  · have hds := hcar hm
    subst hds
    rw [if_pos hm]
    obtain ⟨ds', hst, hb⟩ := append_stands (n := n) hh hstop hn (by simp) hm h.fits
    refine .inr ⟨ds', hst, fun acc => ?_⟩
    have hbatch : t.batch = [] := h.holds.batch_eq
    rw [hb]
    simp [Batches.arrive, h.fits, batches, waiting, opened, hl, hbatch, carried_ne hm]

/-- **A step of the loop batches greedily**: what it is given joins the greedy
batches, and a frame it hands over is one of the closed ones. Or the loop ends,
but by no failed assertion. -/
theorem step_stands (h : t.Stands ds) (hfits : ∀ d, ev.datagram = some d → itemSize d ≤ frameCapacity)
    (ho : ev.Offered t) (hs : t.step fd mtu interrupted ev = some t') :
    (∃ why, t'.loop = .ended why ∧ ∀ c, why ≠ .abort c) ∨
    ∃ ds', t'.Stands ds' ∧ ∀ acc,
      t'.batches (acc ++ (t.accepts ev).toList.map (·.datagrams)) =
        ev.arrival.elim (t.batches acc) ((t.batches acc).arrive itemSize frameCapacity) := by
  have hh := h.holds
  unfold Holds at hh
  cases step_taken hs with
  | @frame buffer w hl hw =>
    rw [hl] at hh
    subst hh
    obtain ⟨w', hw', hwh, hstop, -⟩ := TunnelFrameWriter.new_holds ⟨buffer, kTunnelFrameMaxSize⟩
      (show kTunnelFrameMinSize ≤ kTunnelFrameMaxSize by decide) (Nat.le_refl _)
    rw [hw] at hw'
    cases hw'
    refine .inr ⟨[], ⟨hwh, by simp, h.fits, fun w' n' h' => ?_, fun buf h' => by simp at h'⟩, fun acc => ?_⟩
    · simp only [TunnelLoop.wait.injEq, reduceCtorEq, exists_false, or_false] at h'
      obtain ⟨rfl, rfl⟩ := h'
      exact ⟨hstop, rfl, fun _ => rfl⟩
    · simp [accepts, LoopEvent.arrival, batches, waiting, opened, batch, carried, hl, hwh.datagrams_eq]
  | @wait w n hl =>
    rcases wait_stands interrupted h hl with he | ⟨ds', hst, hb⟩
    · exact .inl ⟨_, he, fun c hc => by cases hc⟩
    · refine .inr ⟨ds', hst, fun acc => ?_⟩
      simp only [accepts, LoopEvent.arrival, Option.toList_none, List.map_nil, List.append_nil, Option.elim_none]
      exact hb acc
  | pollThrows hl => exact .inl ⟨_, rfl, fun c hc => by cases hc⟩
  | @polled w n res hl =>
    rw [hl] at hh
    obtain ⟨hstop, hn, -⟩ := h.open_frame w n (.inr (.inl hl))
    obtain ⟨hst, hb⟩ := polled_stands (n := n) hh.1 hstop hn h.nonempty hh.2 ho
    refine .inr ⟨ds, hst, fun acc => ?_⟩
    rw [open_batches h (.inl hl) hh.2]
    simp only [accepts, Option.toList_none, List.map_nil, List.append_nil, hb]
    cases res with
    | zero => rfl
    | succ res => rfl
  | readThrows hl hsm => exact .inl ⟨_, rfl, fun c hc => by cases hc⟩
  | @again w n io io' ev hl hne =>
    rw [hl] at hh
    obtain ⟨hstop, hn, -⟩ := h.open_frame w n (.inr (.inr ⟨io, hl⟩))
    have harr : LoopEvent.arrival (.io ev) = none := by
      rcases ev with (e | d) | res
      · rfl
      · exact absurd rfl (hne d)
      · rfl
    refine .inr ⟨ds, ⟨hh, h.nonempty, h.fits, fun w' n' h' => ?_, fun buf h' => by simp at h'⟩, fun acc => ?_⟩
    · simp only [TunnelLoop.read.injEq, reduceCtorEq, false_or] at h'
      obtain ⟨io'', rfl, rfl, -⟩ := h'
      exact ⟨hstop, hn, fun hm => absurd hh.2 hm⟩
    · rw [harr]
      simp [accepts, batches, waiting, opened, batch, carried, hl]
  | @read w n io d hl hd hle =>
    rw [hl] at hh
    obtain ⟨hstop, hn, -⟩ := h.open_frame w n (.inr (.inr ⟨io, hl⟩))
    obtain ⟨ds', hst, hb⟩ := append_stands (t := { t with mtuBuffer := d }) (n := n) hh.1 hstop hn h.nonempty hd
      (hfits d rfl)
    refine .inr ⟨ds', hst, fun acc => ?_⟩
    rw [open_batches h (.inr ⟨io, hl⟩) hh.2]
    simp only [accepts, Option.toList_none, List.map_nil, List.append_nil]
    exact hb acc
  | @handOver buf hl =>
    rw [hl] at hh
    by_cases hi : interrupted = true
    · exact .inl ⟨.interrupted, by simp [hi], fun c hc => by cases hc⟩
    · rw [if_neg hi]
      refine .inr ⟨ds, ⟨hh, h.nonempty, h.fits, fun w' n' h' => by simp at h', fun _ _ => ?_⟩, fun acc => ?_⟩
      · exact h.closed_frame buf (.inl hl)
      · simp [accepts, LoopEvent.arrival, batches, waiting, opened, batch, carried, hl]
  | @sleep buf hl =>
    rw [hl] at hh
    refine .inr ⟨ds, ⟨hh, h.nonempty, h.fits, fun w' n' h' => by simp at h', fun _ _ => ?_⟩, fun acc => ?_⟩
    · exact h.closed_frame buf (.inr (.inr hl))
    · simp [accepts, LoopEvent.arrival, batches, waiting, opened, batch, carried, hl]
  | @accepted buf₀ buf hl =>
    obtain ⟨buf₁, n, hl', rfl⟩ := ho
    obtain rfl : buf₀ = buf₁ := TunnelLoop.invoking.inj (hl.symm.trans hl')
    rw [hl] at hh
    refine .inr ⟨[], ⟨rfl, by simp, h.fits, fun w' n' h' => by simp at h', fun buf h' => by simp at h'⟩, fun acc => ?_⟩
    simp [LoopEvent.arrival, batches, waiting, opened, accepts, batch, carried, hl, hh.datagrams_eq]
  | @refused buf₀ buf ex hl hx =>
    obtain ⟨buf₁, n, hl', rfl⟩ := ho
    obtain rfl : buf₀ = buf₁ := TunnelLoop.invoking.inj (hl.symm.trans hl')
    rw [hl] at hh
    have hc := patched_closed hh n
    refine .inr ⟨ds, ⟨hc, h.nonempty, h.fits, fun w' n' h' => by simp at h', fun _ _ => ?_⟩, fun acc => ?_⟩
    · exact h.closed_frame buf₀ (.inr (.inl hl))
    · simp [LoopEvent.arrival, batches, waiting, opened, accepts, batch, carried, hl, hh.datagrams_eq, hc.datagrams_eq]
  | failed hl hx => exact .inl ⟨_, rfl, fun c hc => by cases hc⟩

theorem start_stands : start.Stands [] where
  holds := rfl
  nonempty := by simp
  fits := itemSize_nil
  open_frame w n h := by simp [start] at h
  closed_frame buf h := by simp [start] at h

theorem Stands.invoking {buf : TunnelFrameBuffer} (h : t.Stands ds) (hl : t.loop = .invoking buf) :
    buf.Closed buf.datagrams ∧ buf.datagrams ≠ [] ∧ (∀ d ∈ buf.datagrams, d ≠ []) ∧ buf.size ≤ kTunnelFrameMaxSize := by
  have hc : buf.Closed ds := by
    have := h.holds
    rwa [Holds, hl] at this
  rw [hc.datagrams_eq]
  exact ⟨hc, h.closed_frame buf (.inr (.inl hl)), h.nonempty, hc.size_max⟩

theorem waiting_opened : t.waiting.flatten ++ t.opened = t.batch ++ t.carried := by
  unfold waiting opened
  cases t.loop <;> simp

end TunnelThread

open TunnelThread

/-- A run batches greedily, as long as the loop goes on and an empty frame has
room for what it reads. -/
theorem run_stands {fd : FileDescriptor} {mtu : Nat} {tr : List (Transition TunnelThread (Bool × LoopEvent))}
    {t : TunnelThread} (h : (batching fd mtu).Run tr t)
    (hfits : ∀ u ∈ tr, ∀ d, u.label.2.datagram = some d → itemSize d ≤ frameCapacity) :
    (∃ why, t.loop = .ended why ∧ ∀ c, why ≠ .abort c) ∨
    ∃ ds, t.Stands ds ∧ t.batches ((accepted tr).map (·.datagrams)) = greedyFrames (arrivals tr) := by
  induction h with
  | init hi =>
    cases hi
    exact .inr ⟨[], start_stands, rfl⟩
  | @step tr t l t' hr hs ih =>
    obtain ⟨ho, hs⟩ := hs
    rcases ih fun u hu => hfits u (List.mem_append_left _ hu) with ⟨why, hl, -⟩ | ⟨ds, hst, hb⟩
    · rw [step_ended ⟨why, hl⟩] at hs
      cases hs
    · rcases step_stands hst (hfits ⟨t, l, t'⟩ (by simp)) ho hs with hend | ⟨ds', hst', hb'⟩
      · exact .inl hend
      · refine .inr ⟨ds', hst', ?_⟩
        have hacc : accepted (tr ++ [⟨t, l, t'⟩]) = accepted tr ++ (t.accepts l.2).toList := by
          simp only [accepted, List.filterMap_append, List.filterMap_cons, List.filterMap_nil]
          cases t.accepts l.2 <;> rfl
        have harr : arrivals (tr ++ [⟨t, l, t'⟩]) = arrivals tr ++ l.2.arrival.toList := by
          simp only [arrivals, List.filterMap_append, List.filterMap_cons, List.filterMap_nil]
          cases l.2.arrival <;> rfl
        rw [hacc, harr, List.map_append, hb', hb]
        cases l.2.arrival with
        | none => simp
        | some e => simp [greedyFrames]

/-- A system call gives no more than it is asked for. -/
theorem datagram_fits {fd : FileDescriptor} {mtu : Nat}
    (hmtu : mtu ≤ kTunnelFrameMaxSize - (sizeofTunnelFrameHeader + sizeofTunnelFrameDatagramSeparator))
    {tr : List (Transition TunnelThread (Bool × LoopEvent))} {t : TunnelThread} (h : (batching fd mtu).Run tr t) :
    ∀ u ∈ tr, ∀ d, u.label.2.datagram = some d → itemSize d ≤ frameCapacity := by
  intro u hu d hd
  obtain ⟨-, ⟨-, hs⟩, -⟩ := h.transition u hu
  have hcap : mtu + sizeofTunnelFrameDatagramSeparator ≤ frameCapacity := by
    have hsz := sizes
    unfold frameCapacity
    omega
  generalize u.label.2 = ev at hs hd
  generalize u.post = t' at hs
  cases step_taken hs with
  | read hl hne hle =>
    cases hd
    exact itemSize_le hcap hle
  | @readThrows w n io ev ex hl hsm =>
    -- A datagram with which `read` throws is empty.
    rcases ev with (e | d') | res <;> cases hd
    rcases d with _ | ⟨b, bs⟩
    · exact itemSize_nil
    · exact absurd (Nat.succ_pos bs.length) hsm
  | @again w n io io' ev hl hne =>
    rcases ev with (e | d') | res <;> cases hd
    exact absurd rfl (hne d)
  | _ => cases hd

/-- **Batching is the greedy partition.** For every MTU that an empty frame has
room for, and whatever the loop is given: no assertion fails; as long as the
loop goes on, the frames accepted and the one waiting are the closed batches of
the greedy partition of what was given, what is open or carried over is its
open batch, and together they are the datagrams read, in order; each of those
frames was closed by a `poll` that timed out after at least one datagram, or by
a datagram it had no room for, which the next frame begins with; and every
frame handed over holds datagrams, none empty, within the maximal size. -/
theorem batching_greedy {fd : FileDescriptor} {mtu : Nat}
    (hmtu : mtu ≤ kTunnelFrameMaxSize - (sizeofTunnelFrameHeader + sizeofTunnelFrameDatagramSeparator))
    {tr : List (Transition TunnelThread (Bool × LoopEvent))} {t : TunnelThread} (h : (batching fd mtu).Run tr t) :
    (∀ c, t.loop ≠ .ended (.abort c)) ∧
    (¬ t.Ended →
      (accepted tr).map (·.datagrams) ++ t.waiting = (greedyFrames (arrivals tr)).closed ∧
      t.opened = (greedyFrames (arrivals tr)).opened ∧
      ((accepted tr).map (·.datagrams)).flatten ++ t.batch ++ t.carried = Batches.items (arrivals tr) ∧
      ∀ closed₁ b closed₂, (accepted tr).map (·.datagrams) ++ t.waiting = closed₁ ++ b :: closed₂ →
        ∃ as₁ e as₂, arrivals tr = as₁ ++ e :: as₂ ∧ greedyFrames as₁ = ⟨closed₁, b⟩ ∧
          ((e = .pause ∧ b ≠ []) ∨
            ∃ d, e = .item d ∧ frameCapacity < (body b).length + itemSize d ∧
              ∃ next rest, closed₂ ++ [t.opened] = (d :: next) :: rest)) ∧
    ∀ u ∈ tr, ∀ buf, u.pre.loop = .invoking buf →
      buf.Closed buf.datagrams ∧ buf.datagrams ≠ [] ∧ (∀ d ∈ buf.datagrams, d ≠ []) ∧
        buf.size ≤ kTunnelFrameMaxSize := by
  have hfits := datagram_fits hmtu h
  refine ⟨fun c hl => ?_, fun hne => ?_, fun u hu buf hl => ?_⟩
  · rcases run_stands h hfits with ⟨why, hw, hno⟩ | ⟨ds, hst, -⟩
    · rw [hl] at hw
      cases hw
      exact hno c rfl
    · exact hst.holds.not_ended ⟨_, hl⟩
  · rcases run_stands h hfits with ⟨why, hw, -⟩ | ⟨ds, hst, hb⟩
    · exact absurd ⟨why, hw⟩ hne
    · have hclosed : (accepted tr).map (·.datagrams) ++ t.waiting = (greedyFrames (arrivals tr)).closed :=
        congrArg Batches.closed hb
      have hopened : t.opened = (greedyFrames (arrivals tr)).opened := congrArg Batches.opened hb
      refine ⟨hclosed, hopened, ?_, fun closed₁ b closed₂ hsplit => ?_⟩
      · rw [List.append_assoc, ← waiting_opened, ← List.append_assoc, ← List.flatten_append, hclosed, hopened]
        exact Batches.greedy_flatten
      · rw [hclosed] at hsplit
        obtain ⟨as₁, e, as₂, has, hg, hwhy⟩ := Batches.greedy_closed hsplit
        refine ⟨as₁, e, as₂, has, hg, ?_⟩
        rw [hopened, ← weight_body]
        exact hwhy
  · obtain ⟨hr, -⟩ := h.transition u hu
    obtain ⟨tr', hr⟩ := hr
    rcases run_stands hr (datagram_fits hmtu hr) with ⟨why, hw, -⟩ | ⟨ds, hst, -⟩
    · rw [hl] at hw
      cases hw
    · exact hst.invoking hl

/-- The second datagram does not fit into the frame of the first, and begins the
next. -/
theorem batching_greedy_carried : ∃ d₁ d₂ tr t, (batching ⟨"tunnel", 3⟩ 3936).Run tr t ∧
    arrivals tr = [.item d₁, .item d₂] ∧ d₂ ≠ [] ∧ (accepted tr).map (·.datagrams) = [[d₁]] ∧ t.opened = [d₂] := by
  have hsz := sizes
  obtain ⟨d₁, hd₁⟩ : ∃ d : List UInt8, d.length = 3900 := ⟨_, List.length_replicate (a := 1)⟩
  obtain ⟨d₂, hd₂⟩ : ∃ d : List UInt8, d.length = 100 := ⟨_, List.length_replicate (a := 2)⟩
  have hne : d₂ ≠ [] := List.length_pos_iff.1 (by omega)
  -- The first frame has room for the first datagram only, the second for the second.
  have hroom : ∀ (buffer : Nat → UInt8) (d : List UInt8), 0 < d.length → d.length ≤ 3936 → ∃ w w',
      TunnelFrameWriter.new ⟨buffer, kTunnelFrameMaxSize⟩ = .ok w ∧ d.length ≤ w.remainingBytes ∧ w.append d = .ok w' ∧
      w'.remainingBytes + d.length < 3940 := by
    intro buffer d hpos hle
    obtain ⟨w, hnew, hw, hstop, -⟩ := TunnelFrameWriter.new_holds ⟨buffer, kTunnelFrameMaxSize⟩
      (show kTunnelFrameMinSize ≤ kTunnelFrameMaxSize by decide) (Nat.le_refl _)
    have hcur : w.current = sizeofTunnelFrameHeader := by simpa using hw.current
    have hstop : w.stop = kTunnelFrameMaxSize := hstop
    obtain ⟨w', happ, -, hcur', hstop'⟩ := TunnelFrameWriter.append_ok (w := w) (d := d) (by omega)
    refine ⟨w, w', hnew, (w.remainingBytes_ge hpos).2 (by omega), happ, ?_⟩
    unfold TunnelFrameWriter.remainingBytes
    split <;> omega
  obtain ⟨w, w₁, hnew, hle, happ, hrem⟩ := hroom (fun _ => 0xAA) d₁ (by omega) (by omega)
  obtain ⟨w', w₂, hnew', hle', happ', -⟩ := hroom w₁.close.buffer.data d₂ (by omega) (by omega)
  have hrem₁ : w₁.remainingBytes < d₂.length := by omega
  have hread : ∀ d : List UInt8, 0 < d.length → d.length ≤ 3936 →
      FileDescriptor.readStep ⟨"tunnel", 3⟩ 3936 .call (.call (.ok d)) = some (.returned d) :=
    fun _ => FileDescriptor.retryStep_call
  let n₁ : UInt64 := 0 + UInt64.ofNat d₁.length
  have h := Run.step (.init rfl : (batching ⟨"tunnel", 3⟩ 3936).Run [] _)
    (⟨trivial, by simp [TunnelThread.step, TunnelThread.start, hnew]⟩ :
      (batching _ _).step _ (false, .tau) ⟨.wait w 0, [], 0⟩)
  have h := h.step (⟨trivial, rfl⟩ : (batching _ _).step _ (false, .tau) ⟨.poll w 0, [], 0⟩)
  have h := h.step (⟨Nat.le_refl 1, rfl⟩ : (batching _ _).step _ (false, .polled (.ok 1))
    ⟨.read w 0 .call, [], 0⟩)
  have h := h.step (⟨trivial, by
      simp [TunnelThread.step, hread d₁ (by omega) (by omega), TunnelThread.append, Nat.not_lt.2 hle, happ, n₁]⟩ :
    (batching _ _).step _ (false, .io (.call (.ok d₁))) ⟨.wait w₁ 1, [], n₁⟩)
  have h := h.step (⟨trivial, rfl⟩ : (batching _ _).step _ (false, .tau) ⟨.poll w₁ 1, [], n₁⟩)
  have h := h.step (⟨Nat.le_refl 1, rfl⟩ : (batching _ _).step _ (false, .polled (.ok 1))
    ⟨.read w₁ 1 .call, [], n₁⟩)
  have h := h.step (⟨trivial, by
      simp [TunnelThread.step, hread d₂ (by omega) (by omega), TunnelThread.append, hrem₁]⟩ :
    (batching _ _).step _ (false, .io (.call (.ok d₂))) ⟨.handOver w₁.close.buffer, d₂, n₁⟩)
  have h := h.step (⟨trivial, rfl⟩ : (batching _ _).step _ (false, .tau)
    ⟨.invoking w₁.close.buffer, d₂, n₁⟩)
  have h := h.step (⟨⟨_, none, rfl, rfl⟩, rfl⟩ : (batching _ _).step _ (false, .outcome _ (.ok ()))
    ⟨.frame w₁.close.buffer.data, d₂, n₁⟩)
  have h := h.step (⟨trivial, by simp [TunnelThread.step, hnew']⟩ : (batching _ _).step _ (false, .tau)
    ⟨.wait w' 0, d₂, n₁⟩)
  have h := h.step (⟨trivial, by
      simp [TunnelThread.step, TunnelThread.wait, hne, TunnelThread.append, Nat.not_lt.2 hle', happ']⟩ :
    (batching _ _).step _ (false, .tau) ⟨.wait w₂ 1, [], n₁ + UInt64.ofNat d₂.length⟩)
  obtain ⟨-, hgreedy, -⟩ := batching_greedy (by decide) h
  obtain ⟨hclosed, hopened, -⟩ := hgreedy (by
    rintro ⟨why, hw⟩
    cases hw)
  have hsize : ∀ d, itemSize d = 2 + d.length := fun d => item_length d
  have hcap : frameCapacity = 3938 := rfl
  have hframes : greedyFrames [.item d₁, .item d₂] = ⟨[[d₁]], [d₂]⟩ := by
    simp [greedyFrames, Batches.greedy, Batches.arrive, Batches.weight, hsize, hcap, hd₁, hd₂]
  refine ⟨d₁, d₂, _, _, h, rfl, hne, ?_, ?_⟩
  · exact (List.append_nil _).symm.trans (hclosed.trans (congrArg Batches.closed hframes))
  · exact hopened.trans (congrArg Batches.opened hframes)

/-! ## The largest datagram -/

/-- What `remainingBytes` gives for an empty frame. -/
def largestDatagram : Nat := kTunnelFrameMaxSize - (sizeofTunnelFrameHeader + sizeofTunnelFrameDatagramSeparator)

/-- A longer datagram, read first, fails the loop's assertion. -/
theorem oversized_aborts (fd : FileDescriptor) {mtu : Nat} (d : List UInt8) (hd : largestDatagram < d.length)
    (hmtu : d.length ≤ mtu) :
    ∃ tr t, (batching fd mtu).Run tr t ∧ arrivals tr = [.item d] ∧
      t.loop = .ended (.abort "numDatagramsWritten") := by
  have hsz := sizes
  obtain ⟨w, hnew, hw, hstop, -⟩ := TunnelFrameWriter.new_holds ⟨fun _ => 0xAA, kTunnelFrameMaxSize⟩
    (show kTunnelFrameMinSize ≤ kTunnelFrameMaxSize by decide) (Nat.le_refl _)
  have hcur : w.current = sizeofTunnelFrameHeader := by simpa using hw.current
  have hstop : w.stop = kTunnelFrameMaxSize := hstop
  have hrem : w.remainingBytes < d.length := by
    unfold largestDatagram at hd
    unfold TunnelFrameWriter.remainingBytes
    split <;> omega
  have h₁ := Run.step (.init rfl : (batching fd mtu).Run [] _)
    (⟨trivial, by simp [TunnelThread.step, start, hnew]⟩ :
      (batching _ _).step _ (false, .tau) { start with loop := .wait w 0 })
  have h₂ := h₁.step (⟨trivial, rfl⟩ : (batching _ _).step _ (false, .tau) { start with loop := .poll w 0 })
  have h₃ := h₂.step (⟨Nat.le_refl 1, rfl⟩ :
    (batching _ _).step _ (false, .polled (.ok 1)) { start with loop := .read w 0 .call })
  have hread : fd.readStep mtu .call (.call (.ok d)) = some (.returned d) :=
    FileDescriptor.retryStep_call (by omega) hmtu
  have happ : TunnelThread.append { start with loop := .read w 0 .call, mtuBuffer := d } w 0 =
      { start with loop := .ended (.abort "numDatagramsWritten"), mtuBuffer := d } := by
    rw [TunnelThread.append, if_pos hrem, if_pos rfl]
  have h₄ := h₃.step (⟨trivial, by simp [TunnelThread.step, hread, happ]⟩ : (batching _ _).step _
    (false, .io (.call (.ok d))) { start with loop := .ended (.abort "numDatagramsWritten"), mtuBuffer := d })
  exact ⟨_, _, h₄, rfl, rfl⟩

/-- **No assertion fails exactly when the MTU is no larger than the largest
datagram that an empty frame has room for**, whatever datagrams and timeouts the
loop is given. Under a larger MTU too, none fails as long as no longer datagram
is read. -/
theorem batching_no_abort_iff (fd : FileDescriptor) (mtu : Nat) :
    ((∀ tr t, (batching fd mtu).Run tr t → ∀ c, t.loop ≠ .ended (.abort c)) ↔ mtu ≤ largestDatagram) ∧
    ∀ tr t, (batching fd mtu).Run tr t →
      (∀ u ∈ tr, ∀ d, u.label.2.datagram = some d → d.length ≤ largestDatagram) →
      ∀ c, t.loop ≠ .ended (.abort c) := by
  have safe : ∀ {tr t}, (batching fd mtu).Run tr t →
      (∀ u ∈ tr, ∀ d, u.label.2.datagram = some d → itemSize d ≤ frameCapacity) →
      ∀ c, t.loop ≠ .ended (.abort c) := by
    intro tr t hrun hfits c hl
    rcases run_stands hrun hfits with ⟨why, hw, hno⟩ | ⟨ds, hst, -⟩
    · rw [hl] at hw
      cases hw
      exact hno c rfl
    · exact hst.holds.not_ended ⟨_, hl⟩
  refine ⟨⟨fun h => ?_, fun hmtu tr t hrun => safe hrun (datagram_fits hmtu hrun)⟩, fun tr t hrun hshort => ?_⟩
  · by_contra hlt
    obtain ⟨tr, t, hrun, -, hl⟩ := oversized_aborts fd (List.replicate mtu 0)
      (by rw [List.length_replicate]; omega) (Nat.le_of_eq List.length_replicate)
    exact h tr t hrun _ hl
  · refine safe hrun fun u hu d hd => @itemSize_le largestDatagram (by decide) d (hshort u hu d hd)

/-- One byte more, and the first full datagram ends the process. -/
theorem batching_aborts_3937 : ∃ tr t, (batching ⟨"tunnel", 3⟩ 3937).Run tr t ∧
    arrivals tr = [.item (List.replicate 3937 0)] ∧ t.loop = .ended (.abort "numDatagramsWritten") := by
  have hlen : (List.replicate 3937 (0 : UInt8)).length = 3937 := List.length_replicate
  exact oversized_aborts _ _ (by rw [hlen]; decide) (Nat.le_of_eq hlen)

end RuralPipe
