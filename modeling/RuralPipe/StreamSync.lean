/-
Failed sends and the streams they leave behind.

A `send` that throws after some of its frame is out leaves a torn frame on its
stream, and the guard frees the stream as if all had gone well. While nobody
takes such a stream again, the bytes on every stream are whole frames and at
most one cut short (`stream_inSync`): a torn frame is then the last on its
stream, and its stream stays unused (`Clean`).
-/
import RuralPipe.StreamUse

namespace RuralPipe

/-- A `send` that threw after some bytes of its frame had gone out. -/
def SendRecord.Torn {S : Type} (r : SendRecord S) : Prop := r.ok = false ∧ r.written ≠ []

/-- Sends of which only the last can be torn: what they put on the stream is
whole frames and at most one frame cut short. -/
theorem written_frames {S : Type} {rs : List (SendRecord S)} (hok : ∀ r ∈ rs, r.Ok)
    (hlast : rs.Pairwise fun r _ => ¬ r.Torn) :
    ∃ (fs : List (List UInt8)) (p : List UInt8), written rs = fs.flatten ++ p ∧ (∀ f ∈ fs, ∃ r ∈ rs, r.frame = f) ∧
      (p ≠ [] → ∃ r ∈ rs, r.Torn ∧ p <+: r.frame ∧ p ≠ r.frame) := by
  induction rs with
  | nil => exact ⟨[], [], rfl, by simp, fun h => absurd rfl h⟩
  | cons r rs ih =>
    obtain ⟨hr, hrs⟩ := List.pairwise_cons.1 hlast
    obtain ⟨fs, p, hw, hfs, hp⟩ := ih (fun r hr => hok r (List.mem_cons_of_mem _ hr)) hrs
    have hfs' : ∀ f ∈ fs, ∃ r' ∈ r :: rs, r'.frame = f := by
      intro f hf
      obtain ⟨r', hr', he⟩ := hfs f hf
      exact ⟨r', List.mem_cons_of_mem _ hr', he⟩
    have hp' : p ≠ [] → ∃ r' ∈ r :: rs, r'.Torn ∧ p <+: r'.frame ∧ p ≠ r'.frame := by
      intro hne
      obtain ⟨r', hr', h⟩ := hp hne
      exact ⟨r', List.mem_cons_of_mem _ hr', h⟩
    have hcons : written (r :: rs) = r.written ++ written rs := rfl
    have hrok := hok r List.mem_cons_self
    unfold SendRecord.Ok at hrok
    by_cases hr' : r.ok = true
    · rw [if_pos hr'] at hrok
      refine ⟨r.frame :: fs, p, ?_, ?_, hp'⟩
      · rw [hcons, hrok, hw, List.flatten_cons, List.append_assoc]
      · intro f hf
        rcases List.mem_cons.1 hf with rfl | hf
        · exact ⟨r, List.mem_cons_self, rfl⟩
        · exact hfs' f hf
    · rw [if_neg hr'] at hrok
      by_cases hnil : r.written = []
      · exact ⟨fs, p, by rw [hcons, hnil, hw, List.nil_append], hfs', hp'⟩
      · -- A torn record is the last one.
        have htorn : r.Torn := ⟨by simpa using hr', hnil⟩
        obtain rfl : rs = [] := List.eq_nil_iff_forall_not_mem.2 fun r' h => hr r' h htorn
        obtain ⟨n, hn, ho⟩ := hrok
        refine ⟨[], r.written, by rw [hcons]; simp [written], by simp, fun _ => ?_⟩
        refine ⟨r, List.mem_cons_self, htorn, by rw [ho]; exact List.take_prefix .., fun he => ?_⟩
        have := congrArg List.length (ho.symm.trans he)
        rw [List.length_take] at this
        omega

namespace SocketState

variable {S K : Type} {x x' : SocketState S K} {k : K}

def HandedTo (x : SocketState S K) (k : K) (f : List UInt8) : Prop :=
  (∃ r ∈ x.sends k, r.frame = f) ∨ ∃ i s, x.senders i = .sending s ∧ s.st = k ∧ s.buf.bytes = f

/-- A stream in step with its reader: its bytes are whole frames and at most
one cut short, and after a torn frame comes no byte of another. -/
structure InSync (x : SocketState S K) (k : K) : Prop where
  frames : ∃ (fs : List (List UInt8)) (p : List UInt8), x.wire k = fs.flatten ++ p ∧ (∀ f ∈ fs, x.HandedTo k f) ∧
    (p ≠ [] → ∃ f, x.HandedTo k f ∧ p <+: f ∧ p ≠ f)
  later : ∀ l₁ r l₂, x.sends k = l₁ ++ r :: l₂ → r.Torn → (∀ r' ∈ l₂, r'.written = []) ∧
    ∀ i s, x.senders i = .sending s → s.st = k → s.out = []

/-- A torn frame is the last on its stream, and nobody uses the stream. -/
structure Clean (x : SocketState S K) (k : K) : Prop where
  last : (x.sends k).Pairwise fun r _ => ¬ r.Torn
  unused : ∀ i, x.Uses i k → ∀ r ∈ x.sends k, ¬ r.Torn

theorem Clean.inSync (h : x.Clean k) (hu : x.StreamUse k) : x.InSync k := by
  obtain ⟨fs, p, hw, hfs, hp⟩ := written_frames hu.records h.last
  have hfs' : ∀ f ∈ fs, x.HandedTo k f := fun f hf => .inl (hfs f hf)
  refine ⟨?_, ?_⟩
  · cases hi : (x.map.trackers k).inUse with
    | false =>
      refine ⟨fs, p, by rw [(hu.free hi).2, hw], hfs', fun hne => ?_⟩
      obtain ⟨r, hr, -, hpre⟩ := hp hne
      exact ⟨r.frame, .inl ⟨r, hr, rfl⟩, hpre⟩
    | true =>
      -- The sender on the stream goes on after whole frames only.
      obtain ⟨i, s, hs, he⟩ := hu.inUse.1 hi
      obtain ⟨-, hwire, hok⟩ := hu.busy i s hs he
      have hnil : p = [] := by
        by_contra hne
        obtain ⟨r, hr, htorn, -⟩ := hp hne
        exact h.unused i ⟨s, hs, he⟩ r hr htorn
      rw [hnil, List.append_nil] at hw
      have hs' : x.HandedTo k s.buf.bytes := .inr ⟨i, s, hs, he, rfl⟩
      by_cases hwhole : s.out = s.buf.bytes
      · refine ⟨fs ++ [s.buf.bytes], [], by rw [hwire, hw, hwhole]; simp, ?_, fun hne => absurd rfl hne⟩
        intro f hf
        rcases List.mem_append.1 hf with hf | hf
        · exact hfs' f hf
        · rw [List.mem_singleton] at hf
          exact hf ▸ hs'
      · exact ⟨fs, s.out, by rw [hwire, hw], hfs', fun _ => ⟨_, hs', hok.part, hwhole⟩⟩
  · intro l₁ r l₂ hsends htorn
    have hlast := h.last
    rw [hsends, List.pairwise_append, List.pairwise_cons] at hlast
    refine ⟨fun r' hr' => absurd htorn (hlast.2.1.1 r' hr'), fun i s hs he => ?_⟩
    exact absurd htorn (h.unused i ⟨s, hs, he⟩ r (by rw [hsends]; simp))

/-! ## Steps -/

end SocketState

open SocketState Bytes

section
variable {S K : Type} [DecidableEq S] [DecidableEq K]

/-- A sender about to take the stream `k`, at its selection or from its wait. -/
def Takes (t : Machine.Transition (SocketState S K) (SocketLabel S K)) (k : K) : Prop :=
  (∃ i buf map obj buf', t.label = .select i ∧ t.pre.senders i = .entered buf ∧
    t.pre.map.select buf = .take map obj buf' k) ∨
  ∃ i obj buf n, t.label = .recheck i ∧ t.pre.senders i = .waiting obj buf k n ∧
    (t.pre.map.trackers k).inUse = false

/-- A sender about to take a stream with a torn frame on it. -/
def TakesTorn (t : Machine.Transition (SocketState S K) (SocketLabel S K)) : Prop :=
  ∃ k, Takes t k ∧ ∃ r ∈ t.pre.sends k, r.Torn

end

namespace SocketState

variable {S K : Type} [DecidableEq S] [DecidableEq K] {client : Option SessionId} {x x' : SocketState S K} {k : K}
  {l : SocketLabel S K}

omit [DecidableEq K] in
theorem Uses.of_setSender {i j : S} {a : Sender K} (ha : ∀ s, a = .sending s → s.st ≠ k)
    (h : (x.setSender i a).Uses j k) : x.Uses j k ∧ j ≠ i := by
  obtain ⟨s, hj, he⟩ := h
  by_cases hij : j = i
  · subst hij
    rw [setSender_self] at hj
    exact absurd he (ha s hj)
  · rw [setSender_ne hij] at hj
    exact ⟨⟨s, hj, he⟩, hij⟩

/-- A stream's users change by a selection only. -/
theorem uses_step (hs : SocketStep client x l x') (ht : ¬ Takes ⟨x, l, x'⟩ k) {i : S} (h : x'.Uses i k) :
    x.Uses i k := by
  obtain ⟨s, hi, rfl⟩ := h
  rcases sender_step hs i with heq | hst
  · exact ⟨s, heq.symm.trans hi, rfl⟩
  · rw [hi] at hst
    generalize ha : x.senders i = a at hst
    cases hst with
    | take hsel => exact absurd (.inl ⟨_, _, _, _, _, rfl, ha, hsel⟩) ht
    | recheckTake hre => exact absurd (.inr ⟨_, _, _, _, rfl, ha, (SessionsMap.recheck_some hre).1⟩) ht
    | io => exact ⟨_, ha, rfl⟩

theorem sends_step (hs : SocketStep client x l x') (k : K) :
    x'.sends k = x.sends k ∨
    ∃ i r, x.Uses i k ∧ x'.sends k = x.sends k ++ [r] ∧ ∀ j, x'.Uses j k → x.Uses j k ∧ j ≠ i := by
  cases hs with
  | @complete i s res map wake hi hout hc hwk =>
    by_cases hk : k = s.st
    · subst hk
      refine .inr ⟨i, _, ⟨s, hi, rfl⟩, by rw [notify_sends]; exact Function.update_self .., fun j hj => ?_⟩
      obtain ⟨s', hs', he⟩ := hj
      rw [sending_notify] at hs'
      exact Uses.of_setSender (x := { x with map }) (by simp) ⟨s', hs', he⟩
    · exact .inl (by rw [notify_sends]; exact Function.update_of_ne hk ..)
  | _ => exact .inl rfl

/-- A step that takes no torn stream leaves the streams clean. -/
theorem Clean.step (h : x.Clean k) (hu : x.StreamUse k) (hC : ¬ TakesTorn ⟨x, l, x'⟩)
    (hs : SocketStep client x l x') : x'.Clean k := by
  rcases sends_step hs k with hsends | ⟨i, r, hi, hsends, hgone⟩
  · refine ⟨by rw [hsends]; exact h.last, fun j hj r hr htorn => ?_⟩
    rw [hsends] at hr
    by_cases ht : Takes ⟨x, l, x'⟩ k
    · exact hC ⟨k, ht, r, hr, htorn⟩
    · exact h.unused j (uses_step hs ht hj) r hr htorn
  · refine ⟨?_, fun j hj => ?_⟩
    · rw [hsends, List.pairwise_append]
      exact ⟨h.last, List.pairwise_singleton .., fun r' hr' _ _ => h.unused i hi r' hr'⟩
    · -- Its one sender has just left the stream.
      obtain ⟨⟨s', hj, he'⟩, hne⟩ := hgone j hj
      obtain ⟨s, hi, he⟩ := hi
      exact absurd (hu.unique j i s' s hj hi he' he) hne

end SocketState

/-- **Streams stay in step unless a torn one is taken again.** In every run in
which no sender takes a stream that an earlier `send` left with a frame cut
short: the bytes on every stream are whole frames and at most one proper
prefix, and after a frame cut short comes no byte of another. -/
theorem stream_inSync {S K : Type} [DecidableEq S] [DecidableEq K] {client : Option SessionId}
    {tr : List (Machine.Transition (SocketState S K) (SocketLabel S K))} {x : SocketState S K}
    (h : (sockets S K client).Run tr x) (hC : ∀ t ∈ tr, ¬ TakesTorn t) (k : K) : x.InSync k := by
  have hclean : x.Clean k := by
    refine (h.guarded (I := fun y : SocketState S K => y.Clean k) (C := fun t => ¬ TakesTorn t) ?_ ?_ hC).1
    · intro y hy
      cases hy
      exact ⟨List.Pairwise.nil, fun _ _ r hr => nomatch hr⟩
    · intro y l y' hr hI hCt hs
      exact hI.step (reachable_streamUse hr k) hCt hs.2
  exact hclean.inSync (reachable_streamUse h.reachable k)

/-! ## A send that fails -/

namespace SocketState

variable {S K : Type} [DecidableEq S] [DecidableEq K] {client : Option SessionId} {x : SocketState S K} {i : S}
  {buf buf' : TunnelFrameBuffer} {map : SessionsMap K} {obj : Nat} {st : K}

variable (client) in
theorem firstByte (hi : x.senders i = .entered buf) (hsel : x.map.select buf = .take map obj buf' st)
    (hsize : 1 < buf'.size) (hfd : 0 ≤ (x.map.trackers st).stream.fd.fd) :
    ∃ x₁ x₂, SocketStep client x (.select i) x₁ ∧ SocketStep client x₁ (.io i (.call (.ok 1))) x₂ ∧
      x₁ = { x with map }.setSender i (.sending ⟨obj, buf', st, TunnelFrameStream.send buf', []⟩) ∧
      x₂ = (x₁.put st (load buf'.data 0 1)).setSender i
        (.sending ⟨obj, buf', st, .writing 1 .call, load buf'.data 0 1⟩) ∧
      0 ≤ (map.trackers st).stream.fd.fd := by
  obtain ⟨s, -, -, -, -, -, hmap⟩ := SessionsMap.select_take hsel
  have hopen : 0 ≤ (map.trackers st).stream.fd.fd := by
    rw [hmap, SessionsMap.take, SessionsMap.setTracker_self]
    exact hfd
  have hstep := TunnelFrameStream.sendStep_first (s := (map.trackers st).stream) Nat.one_pos hsize
  refine ⟨_, _, .take hi hsel, .io (s := ⟨obj, buf', st, TunnelFrameStream.send buf', []⟩) setSender_self
    (fun hlt => absurd hlt (Int.not_lt.2 hopen)) hstep, rfl, ?_, hopen⟩
  rfl

variable (client) in
/-- A `send` may put the first byte of its frame on the stream and then fail
for a signal, which leaves the stream free and a torn frame on it. -/
theorem failingSend (hi : x.senders i = .entered buf) (hsel : x.map.select buf = .take map obj buf' st)
    (hsize : 1 < buf'.size) (hfd : 0 ≤ (x.map.trackers st).stream.fd.fd) (hno : ¬ x.Shared) :
    ∃ x₁ x₂ x₃ x₄ ex, SocketStep client x (.select i) x₁ ∧ SocketStep client x₁ (.io i (.call (.ok 1))) x₂ ∧
      SocketStep client x₂ (.io i (.call (.error EINTR))) x₃ ∧ SocketStep client x₃ (.complete i none) x₄ ∧
      x₁.crash = x.crash ∧ x₂.crash = x.crash ∧ x₃.crash = x.crash ∧ x₄.crash = x.crash ∧
      x₄.senders = Function.update x.senders i (.returned buf' (.error ex)) ∧ ex.isNotYetReady = false ∧
      x₄.sends st = x.sends st ++ [⟨i, buf'.bytes, load buf'.data 0 1, false⟩] ∧
      x₄.map.sessions = map.sessions ∧ (x₄.map.trackers st).inUse = false ∧
      0 ≤ (x₄.map.trackers st).stream.fd.fd ∧
      ∀ k, k ≠ st → x₄.sends k = x.sends k ∧ x₄.map.trackers k = x.map.trackers k := by
  obtain ⟨x₁, x₂, hs₁, hs₂, hx₁, hx₂, hopen⟩ := firstByte client hi hsel hsize hfd
  obtain ⟨s, -, rfl, -, -, -, hmap⟩ := SessionsMap.select_take hsel
  have hsessions : map.sessions = [{ s with nextSeqNum := s.nextSeqNum + 1 }] := by rw [hmap]; rfl
  have hmap₂ : x₂.map = map := by rw [hx₂, hx₁]; rfl
  have hi₂ : x₂.senders i = .sending ⟨s.obj, buf', st, .writing 1 .call, load buf'.data 0 1⟩ := by
    rw [hx₂, setSender_self]
  obtain ⟨ex, hstep, hex⟩ := @TunnelFrameStream.sendStep_error (map.trackers st).stream
    buf' 1 EINTR (by decide) (by decide)
  have hs₃ : SocketStep client x₂ _ _ := .io hi₂
    (fun hlt => absurd hlt (by rw [hmap₂]; exact Int.not_lt.2 hopen)) (by rw [hmap₂]; exact hstep)
  rw [List.append_nil] at hs₃
  -- Nobody waits, so the guard wakes nobody.
  have hwake : ∀ j buf st, x₂.senders j ≠ .waiting s.obj buf st false := by
    intro j b t hj
    rw [hx₂, hx₁] at hj
    by_cases hij : j = i
    · subst hij
      rw [setSender_self] at hj
      cases hj
    · rw [setSender_ne hij, put_senders, setSender_ne hij] at hj
      exact hno ⟨j, _, _, _, _, hj⟩
  obtain ⟨m, hm⟩ : ∃ m, map.complete s.obj buf' st false = .ok m := by simp [SessionsMap.complete, hsessions]
  obtain ⟨-, hmeq⟩ := SessionsMap.complete_ok hm
  have hs₄ : SocketStep client ((x₂.put st []).setSender i (.sending ⟨s.obj, buf', st, .threw ex, load buf'.data 0 1⟩))
      (.complete i none) _ := .complete setSender_self rfl
        (by rw [setSender_map, put_map, hmap₂]; exact hm) (fun j b t hj => by
      by_cases hij : j = i
      · subst hij
        rw [setSender_self] at hj
        cases hj
      · rw [setSender_ne hij, put_senders] at hj
        exact hwake j b t hj)
  refine ⟨x₁, x₂, _, _, ex, hs₁, hs₂, hs₃, hs₄, ?_⟩
  subst hx₂ hx₁
  refine ⟨rfl, rfl, rfl, rfl, ?_, hex, ?_, ?_, ?_, ?_, fun k hk => ⟨?_, ?_⟩⟩
  · show Function.update (Function.update (Function.update (Function.update x.senders i _) i _) i _) i _ = _
    simp only [Function.update_idem]
  · exact Function.update_self ..
  · show m.sessions = _
    rw [hmeq, SessionsMap.setTracker_sessions]
  · show (m.trackers st).inUse = false
    rw [hmeq, SessionsMap.setTracker_self]
  · show 0 ≤ (m.trackers st).stream.fd.fd
    rw [hmeq, SessionsMap.setTracker_self]
    exact hopen
  · exact Function.update_of_ne hk ..
  · show m.trackers k = _
    rw [hmeq, SessionsMap.setTracker_ne hk, hmap, SessionsMap.take, SessionsMap.setTracker_ne hk]
    rfl

end SocketState

theorem Takes.label {S K : Type} [DecidableEq K] {t : Machine.Transition (SocketState S K) (SocketLabel S K)} {k : K}
    (h : Takes t k) : (∃ i, t.label = .select i) ∨ ∃ i, t.label = .recheck i := by
  rcases h with ⟨i, _, _, _, _, hl, -⟩ | ⟨i, _, _, _, hl, -⟩
  · exact .inl ⟨i, hl⟩
  · exact .inr ⟨i, hl⟩

theorem run_torn {f : TunnelFrameBuffer} (hf : 1 < f.size) :
    ∃ tr x s n, (sockets Unit Unit none).Run tr x ∧ (∀ t ∈ tr, ¬ TakesTorn t) ∧
      x.sends () = [⟨(), (patched f (some n)).bytes, load (patched f (some n)).data 0 1, false⟩] ∧
      x.crash = none ∧ x.senders () = .idle ∧ x.map.sessions = [s] ∧ s.streams = [()] ∧
      (x.map.trackers ()).inUse = false ∧ 0 ≤ (x.map.trackers ()).stream.fd.fd := by
  obtain ⟨tr, sid, hrun, htr⟩ := run_oneStream
  have hrun := hrun.step (l := .call () f) ⟨rfl, .call rfl⟩
  obtain ⟨x₁, x₂, x₃, x₄, ex, hs₁, hs₂, hs₃, hs₄, hc₁, hc₂, hc₃, hc₄, hi, -, hsends, hsess, hfree, hfd, -⟩ :=
    failingSend none (x := (oneStream sid).setSender () (.entered f)) setSender_self
      (SessionsMap.select_first rfl rfl rfl) hf (by show (0 : Int) ≤ 5; decide) (fun ⟨j, _, _, _, _, hj⟩ => nomatch hj)
  have hrun := hrun.step ⟨rfl, hs₁⟩
  have hrun := hrun.step ⟨hc₁, hs₂⟩
  have hrun := hrun.step ⟨hc₂, hs₃⟩
  have hrun := hrun.step ⟨hc₃, hs₄⟩
  have hrun := hrun.step (l := .leave ()) ⟨hc₄, .leave (by rw [hi, Function.update_self])⟩
  refine ⟨_, _, _, _, hrun, ?_, hsends, hc₄, setSender_self, hsess, rfl, hfree, hfd⟩
  intro t ht ⟨k, htakes, r, hr, _⟩
  simp only [List.mem_append, List.mem_singleton] at ht
  rcases ht with (((((ht | rfl) | rfl) | rfl) | rfl) | rfl) | rfl
  · rcases htakes.label with ⟨i, hl⟩ | ⟨i, hl⟩ <;>
      rcases htr t ht with (⟨_, he⟩ | ⟨_, _, he⟩ | ⟨_, he⟩) | he <;> (rw [hl] at he; cases he)
  · rcases htakes.label with ⟨i, hl⟩ | ⟨i, hl⟩ <;> cases hl
  · cases hr
  · rcases htakes.label with ⟨i, hl⟩ | ⟨i, hl⟩ <;> cases hl
  · rcases htakes.label with ⟨i, hl⟩ | ⟨i, hl⟩ <;> cases hl
  · rcases htakes.label with ⟨i, hl⟩ | ⟨i, hl⟩ <;> cases hl
  · rcases htakes.label with ⟨i, hl⟩ | ⟨i, hl⟩ <;> cases hl

theorem firstByte_eq {f : TunnelFrameBuffer} {ds} (h : f.Closed ds) : load f.data 0 1 = [82] := by
  have hmagic := h.header.magic
  calc load f.data 0 1 = (load f.data 0 3).take 1 := by rw [load_take]; rfl
    _ = kMagic.take 1 := congrArg (List.take 1) hmagic
    _ = [82] := by decide

/-- One byte of a frame is out, its `send` has thrown, and no stream was taken
again. -/
theorem stream_inSync_torn : ∃ f tr x, TunnelFrameBuffer.FromWriter f ∧ (sockets Unit Unit none).Run tr x ∧
    x.wire () = [82] ∧ x.InSync () := by
  obtain ⟨f, hf, hcl, hsize⟩ := exists_fromWriter
  obtain ⟨tr, x, s, n, hrun, hC, hsends, -, -, -, -, hfree, -⟩ := run_torn (f := f) (by omega)
  refine ⟨f, tr, x, hf, hrun, ?_, stream_inSync hrun hC ()⟩
  rw [((reachable_streamUse hrun.reachable ()).free hfree).2, hsends]
  show load (patched f (some n)).data 0 1 ++ [] = [82]
  rw [List.append_nil]
  exact firstByte_eq (hcl.setSequenceNumber n)

/-- The first byte of a frame goes out, the next write fails with `EINTR`, and
the next call puts its frame's first byte on the same stream. -/
theorem stream_desynchronised : ∃ f tr x, TunnelFrameBuffer.FromWriter f ∧ (sockets Unit Unit none).Run tr x ∧
    x.wire () = [82, 82] ∧ ¬ x.InSync () := by
  obtain ⟨f, hf, hcl, hsize⟩ := exists_fromWriter
  obtain ⟨tr, x, s, n, hrun, -, hsends, hc, hi, hsess, hst, hfree, hfd⟩ := run_torn (f := f) (by omega)
  have hrun := hrun.step (l := .call () f) ⟨hc, .call hi⟩
  obtain ⟨x₁, x₂, hs₁, hs₂, hx₁, hx₂, -⟩ := firstByte none (x := x.setSender () (.entered f)) setSender_self
    (SessionsMap.select_first hsess hst hfree) (by show 1 < f.size; omega) hfd
  have hrun := hrun.step ⟨hc, hs₁⟩
  have hrun := hrun.step ⟨by rw [hx₁]; exact hc, hs₂⟩
  have hsends₂ : x₂.sends () = x.sends () := by rw [hx₂, hx₁]; rfl
  have hi₂ : ∃ s', x₂.senders () = .sending s' ∧ s'.out = load (patched f (some s.nextSeqNum)).data 0 1 := by
    rw [hx₂, setSender_self]
    exact ⟨_, rfl, rfl⟩
  obtain ⟨s', hi₂, hout⟩ := hi₂
  have hbyte : ∀ n, load (patched f (some n)).data 0 1 = [82] := fun n => firstByte_eq (hcl.setSequenceNumber n)
  refine ⟨f, _, x₂, hf, hrun, ?_, fun h => ?_⟩
  · obtain ⟨-, hwire, -⟩ := (reachable_streamUse hrun.reachable ()).busy () s' hi₂ rfl
    rw [hwire, hsends₂, hsends, hout]
    show (load (patched f (some n)).data 0 1 ++ []) ++ load (patched f (some s.nextSeqNum)).data 0 1 = [82, 82]
    rw [List.append_nil, hbyte n, hbyte s.nextSeqNum]
    rfl
  · -- The torn record comes first, and the sender under way has put a byte after it.
    have hnil := (h.later [] _ [] (hsends₂.trans hsends) ⟨rfl, List.ne_nil_of_length_pos (by simp)⟩).2 () s' hi₂ rfl
    rw [hout, hbyte s.nextSeqNum] at hnil
    cases hnil

end RuralPipe
