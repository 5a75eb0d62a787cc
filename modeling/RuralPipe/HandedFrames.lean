/-
The frames given to the streams, where no write fails.

What is on a stream, with what its sender has yet to put there (`outgoing`), is
the frames of its sends, one after another. Each was numbered by a selection
and is otherwise as its caller handed it over (`run_numbered`): a closed frame,
with any number but that of the initial frame (`run_outgoing`).
-/
import RuralPipe.SendingFlow
import RuralPipe.SequenceNumbers

namespace RuralPipe

open SocketState Bytes

/-- The frame of a sender past its selection, with its number. -/
def Sender.frame {K : Type} : Sender K → Option TunnelFrameBuffer
  | .waiting _ buf _ _ => some buf
  | .sending s => some s.buf
  | _ => none

/-- Frames of which all have buffers of a kind. -/
theorem exists_buffers {P : TunnelFrameBuffer → Prop} {bs : List (List UInt8)} (h : ∀ b ∈ bs, ∃ f, P f ∧ f.bytes = b) :
    ∃ fs : List TunnelFrameBuffer, fs.map TunnelFrameBuffer.bytes = bs ∧ ∀ f ∈ fs, P f := by
  induction bs with
  | nil => exact ⟨[], rfl, by simp⟩
  | cons b bs ih =>
    obtain ⟨f, hf, rfl⟩ := h b List.mem_cons_self
    obtain ⟨fs, rfl, hfs⟩ := ih fun b hb => h b (List.mem_cons_of_mem _ hb)
    exact ⟨f :: fs, rfl, by simpa using ⟨hf, hfs⟩⟩

/-- Where all sends returned, what they put on the stream is their frames. -/
theorem written_eq {S : Type} {rs : List (SendRecord S)} (h : ∀ r ∈ rs, r.Ok ∧ r.ok = true) :
    written rs = (rs.map (·.frame)).flatten := by
  rw [written]
  congr 1
  refine List.map_congr_left fun r hr => ?_
  obtain ⟨hok, htrue⟩ := h r hr
  rwa [SendRecord.Ok, if_pos htrue] at hok

section
variable {S K : Type} [DecidableEq K]

/-- The frames that got a number. -/
def numbered (tr : List (Machine.Transition (SocketState S K) (SocketLabel S K))) : List TunnelFrameBuffer :=
  (tr.filterMap stamp).map (·.frame)

/-- The frames with the senders and those sent all got their number, and are
closed. -/
structure Numbered (tr : List (Machine.Transition (SocketState S K) (SocketLabel S K)))
    (x : SocketState S K) : Prop where
  entered : ∀ i buf, x.senders i = .entered buf → ∃ ds, buf.Closed ds
  held : ∀ i f, (x.senders i).frame = some f → f ∈ numbered tr
  sends : ∀ k, ∀ r ∈ x.sends k, ∃ f ∈ numbered tr, f.bytes = r.frame
  closed : ∀ f ∈ numbered tr, ∃ ds, f.Closed ds

/-- A frame is numbered, and nothing else about it changes. -/
theorem stamp_frame {t : Machine.Transition (SocketState S K) (SocketLabel S K)} {a : Stamp K} (h : stamp t = some a) :
    ∃ i buf n, t.label = .select i ∧ t.pre.senders i = .entered buf ∧
      a.frame = TunnelFrameWriter.setSequenceNumberOnClosedBuffer buf n := by
  obtain ⟨i, buf, hl, hi, hs⟩ := stamp_some h
  refine ⟨i, buf, ?_⟩
  simp only [stamp, hl, hi, hs] at h
  obtain ⟨f, hf, ha⟩ := Option.map_eq_some_iff.1 h
  have ha : a.frame = f := by rw [← ha]
  rw [ha]
  cases hsel : t.pre.map.select buf with
  | take m obj buf' st =>
    obtain ⟨s, -, -, -, -, rfl, -⟩ := SessionsMap.select_take hsel
    rw [hsel] at hf
    cases hf
    exact ⟨_, hl, hi, rfl⟩
  | wait m obj buf' st =>
    obtain ⟨s, -, -, -, -, rfl, -⟩ := SessionsMap.select_wait hsel
    rw [hsel] at hf
    cases hf
    exact ⟨_, hl, hi, rfl⟩
  | notYetReady ex => rw [hsel] at hf; cases hf
  | crash c => rw [hsel] at hf; cases hf

theorem mem_numbered_append {tr : List (Machine.Transition (SocketState S K) (SocketLabel S K))}
    {t} {f : TunnelFrameBuffer} :
    f ∈ numbered (tr ++ [t]) ↔ f ∈ numbered tr ∨ ∃ a, stamp t = some a ∧ a.frame = f := by
  cases h : stamp t <;> simp [numbered, h, eq_comm]

variable [DecidableEq S] {client : Option SessionId} {x x' : SocketState S K} {l : SocketLabel S K}

/-- A sender's frame comes from its caller, and with its number from its
selection. -/
theorem frame_step (hs : SocketStep client x l x') (j : S) :
    (∀ buf, x'.senders j = .entered buf → x.senders j = .entered buf ∨ l = .call j buf) ∧
      ∀ f, (x'.senders j).frame = some f → (x.senders j).frame = some f ∨
        ∃ a, stamp ⟨x, l, x'⟩ = some a ∧ a.frame = f := by
  rcases sender_step hs j with heq | hst
  · rw [heq]
    exact ⟨fun buf hb => .inl hb, fun f hf => .inl hf⟩
  · generalize ha : x.senders j = a at hst ⊢
    generalize x'.senders j = a' at hst ⊢
    cases hst with
    | call =>
      refine ⟨fun buf hb => ?_, by simp [Sender.frame]⟩
      cases hb
      exact .inr rfl
    | @take _ _ _ buf' _ hsel =>
      obtain ⟨s, hsess, -⟩ := SessionsMap.select_take hsel
      refine ⟨by simp, fun f hf => .inr ⟨⟨s, buf'⟩, ?_, Option.some_inj.1 hf⟩⟩
      rw [stamp_select ha hsess, hsel]
      rfl
    | @wait _ _ _ buf' _ hsel =>
      obtain ⟨s, hsess, -⟩ := SessionsMap.select_wait hsel
      refine ⟨by simp, fun f hf => .inr ⟨⟨s, buf'⟩, ?_, Option.some_inj.1 hf⟩⟩
      rw [stamp_select ha hsess, hsel]
      rfl
    | recheckTake | recheckWait | io | woken => exact ⟨by simp, fun f hf => .inl hf⟩
    | notYetReady | complete | leave => exact ⟨by simp, by simp [Sender.frame]⟩

/-- What is recorded is the frame a sender had. -/
theorem record_step (hs : SocketStep client x l x') (k : K) :
    ∀ r ∈ x'.sends k, r ∈ x.sends k ∨ ∃ i f, (x.senders i).frame = some f ∧ f.bytes = r.frame := by
  intro r hr
  cases hs with
  | @complete i s res map wake hi hout hc hwk =>
    rw [notify_sends] at hr
    rcases mem_sends_record.1 (show r ∈ (x.record s.st ⟨i, s.buf.bytes, s.out, res.isOk⟩).sends k from hr) with
      hr | ⟨-, rfl⟩
    · exact .inl hr
    · exact .inr ⟨i, s.buf, by rw [hi]; rfl, rfl⟩
  | _ => exact .inl hr

/-- The frames with the senders and those sent all got their number. -/
theorem run_numbered {tr : List (Machine.Transition (SocketState S K) (SocketLabel S K))}
    (h : (sockets S K client).Run tr x)
    (hcl : ∀ t ∈ tr, ∀ i buf, t.label = .call i buf → ∃ ds, buf.Closed ds) : Numbered tr x := by
  induction h with
  | init hi =>
    cases hi
    exact ⟨(fun _ _ h => nomatch h), (fun _ _ h => nomatch h),
      fun _ _ h => (List.not_mem_nil h).elim, by simp [numbered]⟩
  | @step tr x l x' hr hs ih =>
    have hI := ih fun t ht => hcl t (List.mem_append_left _ ht)
    have hl := hcl ⟨x, l, x'⟩ (List.mem_append_right _ (List.mem_singleton_self _))
    refine ⟨fun i buf hi => ?_, fun i f hf => ?_, fun k r hmem => ?_, fun f hf => ?_⟩
    · rcases (frame_step hs.2 i).1 buf hi with hi | hcall
      · exact hI.entered i buf hi
      · exact hl i buf hcall
    · rw [mem_numbered_append]
      rcases (frame_step hs.2 i).2 f hf with hf | hst
      · exact .inl (hI.held i f hf)
      · exact .inr hst
    · rcases record_step hs.2 k r hmem with hmem | ⟨i, f, hf, hb⟩
      · obtain ⟨f, hf, hb⟩ := hI.sends k r hmem
        exact ⟨f, mem_numbered_append.2 (.inl hf), hb⟩
      · exact ⟨f, mem_numbered_append.2 (.inl (hI.held i f hf)), hb⟩
    · rcases mem_numbered_append.1 hf with hf | ⟨a, hst, rfl⟩
      · exact hI.closed f hf
      · obtain ⟨i, buf, n, -, hi, he⟩ := stamp_frame hst
        obtain ⟨ds, hds⟩ := hI.entered i buf hi
        exact ⟨ds, he ▸ hds.setSequenceNumber n⟩

theorem reachable_unfailed {tr : List (Machine.Transition (SocketState S K) (SocketLabel S K))}
    (h : (sockets S K client).Run tr x) (hsm : ∀ t ∈ tr, ∀ i ev, t.label = .io i ev → IoEvent.Smooth id ev) :
    x.Unfailed := by
  refine (h.guarded (I := Unfailed) (C := fun t => ∀ i ev, t.label = .io i ev → IoEvent.Smooth id ev) ?_ ?_ hsm).1
  · intro y hy
    cases hy
    exact ⟨(fun _ _ _ h => nomatch h), fun _ _ h => (List.not_mem_nil h).elim⟩
  · exact fun y l y' _ hI hC hs => hI.step hs.2 hC

/-- **What is given to a stream is whole frames**, each with the number it got. -/
theorem run_outgoing {tr : List (Machine.Transition (SocketState S K) (SocketLabel S K))}
    (h : (sockets S K client).Run tr x)
    (hcl : ∀ t ∈ tr, ∀ i buf, t.label = .call i buf → ∃ ds, buf.Closed ds)
    (hsm : ∀ t ∈ tr, ∀ i ev, t.label = .io i ev → IoEvent.Smooth id ev) (k : K) :
    ∃ fs : List TunnelFrameBuffer, x.outgoing k = (fs.map TunnelFrameBuffer.bytes).flatten ∧
      ∀ f ∈ fs, f ∈ numbered tr := by
  have hnum := run_numbered h hcl
  have hun := reachable_unfailed h hsm
  have hu := reachable_streamUse h.reachable k
  obtain ⟨fs, hfs, hmem⟩ : ∃ fs : List TunnelFrameBuffer, fs.map TunnelFrameBuffer.bytes = (x.sends k).map (·.frame) ∧
      ∀ f ∈ fs, f ∈ numbered tr := by
    refine exists_buffers fun b hb => ?_
    obtain ⟨r, hr, rfl⟩ := List.mem_map.1 hb
    exact hnum.sends k r hr
  have hwritten : written (x.sends k) = (fs.map TunnelFrameBuffer.bytes).flatten := by
    rw [hfs, written_eq fun r hr => ⟨hu.records r hr, hun.sends k r hr⟩]
  by_cases hbusy : ∃ i s, x.senders i = .sending s ∧ s.st = k
  · -- The last frame is that of the sender.
    obtain ⟨i, s, hi, hk⟩ := hbusy
    obtain ⟨-, hwire, hok⟩ := hu.busy i s hi hk
    have hrest : s.out ++ s.send.rest s.buf = s.buf.bytes := by
      unfold Sending.Ok at hok
      cases hs : s.send with
      | writing n io =>
        rw [hs] at hok
        rw [hok.2, Send.rest, List.take_append_drop]
      | returned =>
        rw [hs] at hok
        rw [hok]
        exact List.append_nil _
      | threw ex => exact absurd hs (hun.sending i s ex hi)
    refine ⟨fs ++ [s.buf], ?_, fun f hf => ?_⟩
    · rw [outgoing, unsent_busy hu hi hk, hwire, hwritten, List.append_assoc, hrest]
      simp
    · rcases List.mem_append.1 hf with hf | hf
      · exact hmem f hf
      · rw [List.mem_singleton.1 hf]
        exact hnum.held i s.buf (by rw [hi]; rfl)
  · have hfree : (x.map.trackers k).inUse = false := by
      rw [← Bool.not_eq_true, hu.inUse]
      exact hbusy
    refine ⟨fs, ?_, hmem⟩
    rw [outgoing, unsent_free fun i s hi hk => hbusy ⟨i, s, hi, hk⟩, (hu.free hfree).2, hwritten, List.append_nil]

/-- None of them has the initial frame's number. -/
theorem numbered_seqNum {tr : List (Machine.Transition (SocketState S K) (SocketLabel S K))}
    (h : (sockets S K client).Run tr x) (hn : (tr.filterMap stamp).length < 2 ^ 64 - 1) {f : TunnelFrameBuffer}
    (hf : f ∈ numbered tr) : f.seqNum ≠ kInitFrameSeqNum := by
  obtain ⟨a, ha, rfl⟩ := List.mem_map.1 hf
  exact stamped_seqNum h hn ha

end

end RuralPipe
