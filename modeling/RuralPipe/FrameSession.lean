/-
The session id in a frame's header.

The initial exchange sets it; for a data frame nobody does. The loop fills its
frame buffer with 0xAA once, and neither the writer nor the sender, which
patches the sequence number, writes the 16 bytes of the id (`reachable_blank`),
however often the buffer is used again. So the frames on a session's streams
carry its id exactly where that id is 16 bytes 0xAA, or only the initial frame
goes out, and a client's own id is the session's (`frames_named_iff`).
-/
import RuralPipe.ClientSession
import RuralPipe.SendingStack
import RuralPipe.StreamFacts

namespace RuralPipe

open Machine Bytes

/-- The session id of a frame buffer that nobody has written one to. -/
def blank : SessionId := ⟨List.replicate 16 0xAA, rfl⟩

/-- The header in this memory has no session id of its own. -/
def Blank (m : Mem) : Prop := (TunnelFrameHeader.cast m).sessionId = blank

/-- Memory that is the same where the header's session id is. -/
theorem Blank.congr {m m' : Mem} (h : Blank m) (he : ∀ i, 6 ≤ i → i < 22 → m' i = m i) : Blank m' := by
  rw [Blank, ← h]
  simp only [TunnelFrameHeader.cast, SessionId.mk.injEq]
  exact load_congr fun i h₁ h₂ => he i h₁ (by omega)

theorem Blank.patched {buf : TunnelFrameBuffer} (h : Blank buf.data) (n : Option UInt64) :
    Blank (RuralPipe.patched buf n).data := by
  cases n with
  | none => exact h
  | some n => exact h.congr fun i h₁ h₂ => store_out (.inl (by omega))

/-! ## The loop writes no session id -/

/-- The frame's memory. -/
def TunnelLoop.frameMem : TunnelLoop → Option Mem
  | .frame buffer => some buffer
  | .wait w _ => some w.data
  | .poll w _ => some w.data
  | .read w _ _ => some w.data
  | .handOver buf => some buf.data
  | .invoking buf => some buf.data
  | .sleep buf => some buf.data
  | .ended _ => none

namespace TunnelFrameWriter

theorem close_blank {w : TunnelFrameWriter} (h : Blank w.data) : Blank w.close.buffer.data :=
  h.congr fun i h₁ _ => store_out (.inr (by rw [leBytes_length]; omega))

theorem append_blank {w w' : TunnelFrameWriter} {d : List UInt8} (h : Blank w.data) (ha : w.append d = .ok w') :
    Blank w'.data := by
  have hle := w.header_le
  have hsz := sizes
  obtain ⟨w'', hw, hdata, -⟩ := append_ok (append_eq_ok ha)
  rw [ha] at hw
  cases hw
  rw [hdata]
  exact h.congr fun i _ h₂ => by rw [store_out (.inl (by omega)), store_out (.inl (by omega))]

theorem new_blank {buf : TunnelFrameBuffer} {w : TunnelFrameWriter} (h : Blank buf.data) (hn : new buf = .ok w) :
    Blank w.data := by
  unfold new at hn
  split at hn
  · split at hn
    · rename_i hmin hmax
      obtain ⟨w', hw, -, -, hkept⟩ := new_holds buf hmin hmax
      rw [new, dif_pos hmin, dif_pos hmax, hn] at hw
      cases hw
      exact h.congr fun i h₁ _ => hkept i h₁
    · cases hn
  · cases hn

end TunnelFrameWriter

namespace TunnelThread

variable {fd : FileDescriptor} {mtu : Nat} {interrupted : Bool} {t t' : TunnelThread} {ev : LoopEvent}
  {w : TunnelFrameWriter} {n : Nat}

/-- The frame at hand has no session id. -/
def FrameBlank (t : TunnelThread) : Prop := ∀ m, t.loop.frameMem = some m → Blank m

theorem FrameBlank.fail (e : Failure) : (t.fail e).FrameBlank := by
  intro m hm
  cases e <;> cases hm

theorem append_frameBlank (h : Blank w.data) : (t.append w n).FrameBlank := by
  unfold append
  split
  · split
    · exact fun m hm => nomatch hm
    · intro m hm
      cases hm
      exact w.close_blank h
  · split
    · exact .fail _
    · rename_i w' ha
      intro m hm
      cases hm
      exact TunnelFrameWriter.append_blank h ha

theorem polled_frameBlank (h : Blank w.data) (res : Nat) : (t.polled w n res).FrameBlank := by
  unfold polled
  split
  · split
    · exact fun m hm => Option.some.inj hm ▸ h
    · exact fun m hm => Option.some.inj hm ▸ w.close_blank h
  · split
    · exact fun m hm => Option.some.inj hm ▸ h
    · exact fun m hm => nomatch hm

theorem wait_frameBlank (h : Blank w.data) : (t.wait interrupted w n).FrameBlank := by
  unfold wait
  split
  · exact fun m hm => nomatch hm
  · split
    · exact append_frameBlank h
    · exact fun m hm => Option.some.inj hm ▸ h

/-- No step of the loop writes one, given a frame back without one. -/
theorem FrameBlank.step (h : t.FrameBlank) (hs : t.step fd mtu interrupted ev = some t')
    (hb : ∀ buf res, ev = .outcome buf res → Blank buf.data) : t'.FrameBlank := by
  cases step_taken hs with
  | @frame buffer w hl hw =>
    have hbuf : Blank buffer := h buffer (by rw [hl]; rfl)
    exact fun m hm => Option.some.inj hm ▸ TunnelFrameWriter.new_blank hbuf hw
  | @wait w n hl => exact wait_frameBlank (h w.data (by rw [hl]; rfl))
  | pollThrows hl =>
    intro m hm
    cases hm
  | @polled w n res hl => exact polled_frameBlank (h w.data (by rw [hl]; rfl)) _
  | readThrows hl hsm =>
    intro m hm
    cases hm
  | @again w n io io' ev hl hne => exact fun m hm => Option.some.inj hm ▸ h w.data (by rw [hl]; rfl)
  | @read w n io d hl hd hle => exact append_frameBlank (h w.data (by rw [hl]; rfl))
  | @handOver buf hl =>
    intro m hm
    cases interrupted with
    | true => cases hm
    | false => exact Option.some.inj hm ▸ h buf.data (by rw [hl]; rfl)
  | @sleep buf hl => exact fun m hm => Option.some.inj hm ▸ h buf.data (by rw [hl]; rfl)
  | @accepted buf₀ buf hl => exact fun m hm => Option.some.inj hm ▸ hb buf _ rfl
  | @refused buf₀ buf ex hl hx => exact fun m hm => Option.some.inj hm ▸ hb buf _ rfl
  | failed hl hx =>
    intro m hm
    cases hm

end TunnelThread

/-! ## Nor does the stack -/

namespace SendingStack

variable {S K : Type} {x x' : SendingStack S K} {i : S}

/-- No frame, a thread's or a sender's, has a session id. -/
structure Blanks (x : SendingStack S K) : Prop where
  thread : ∀ i, (x.threads i).FrameBlank
  sender : ∀ i buf, (x.sockets.senders i).buf = some buf → Blank buf.data

theorem Blanks.invoking (h : x.Blanks) {buf : TunnelFrameBuffer} (hl : (x.threads i).loop = .invoking buf) :
    Blank buf.data := h.thread i buf.data (by rw [hl]; rfl)

section
variable [DecidableEq S]

theorem Blanks.setThread (h : x.Blanks) {t : TunnelThread} (ht : t.FrameBlank) : (x.setThread i t).Blanks := by
  refine ⟨fun j => ?_, h.sender⟩
  by_cases hij : j = i
  · subst hij
    rwa [setThread_self]
  · rw [setThread_ne hij]
    exact h.thread j

theorem Blanks.setSender (h : x.Blanks) {a : Sender K} (ha : ∀ buf, a.buf = some buf → Blank buf.data) :
    ({ x with sockets := x.sockets.setSender i a }).Blanks := by
  refine ⟨h.thread, fun j buf hb => ?_⟩
  by_cases hij : j = i
  · subst hij
    rw [SocketState.setSender_self] at hb
    exact ha buf hb
  · rw [SocketState.setSender_ne hij] at hb
    exact h.sender j buf hb

variable [DecidableEq K] {fds : S → FileDescriptor} {mtu : Nat} {client : Option SessionId} {l : StackLabel S K}

theorem Blanks.step (h : x.Blanks) (hs : StackStep fds mtu client x l x') : x'.Blanks := by
  cases hs with
  | @loop i ev t ho hst =>
    refine h.setThread ((h.thread i).step hst fun buf res he => ?_)
    subst he
    exact ho.elim
  | invoke hl hc => exact ⟨h.thread, h.sender⟩
  | pipe hc hst => exact ⟨h.thread, h.sender⟩
  | pipeAborts hc hst => exact ⟨h.thread, h.sender⟩
  | @enter i inside buf sockets hc hl hst =>
    obtain ⟨-, rfl⟩ := hst.call_eq
    exact h.setSender fun buf' hb => Option.some.inj hb ▸ h.invoking hl
  | @leave i inside buf res sockets hc hi hst =>
    obtain rfl := hst.leave_eq
    have hb : Blank buf.data := h.sender i buf (by rw [hi]; rfl)
    have h' := (h.setSender (i := i) (a := .idle) fun _ hb => nomatch hb).setThread (i := i)
      (t := { x.threads i with loop := .invoking buf }) fun m hm => Option.some.inj hm ▸ hb
    exact ⟨h'.thread, h'.sender⟩
  | @outcome i buf res t hc hl hst =>
    have h' := h.setThread (i := i) ((h.thread i).step hst fun buf' res' he => by cases he; exact h.invoking hl)
    exact ⟨h'.thread, h'.sender⟩
  | @socket l sockets hl hst =>
    refine ⟨h.thread, fun j buf' hb => ?_⟩
    obtain ⟨buf, hbuf, n, rfl⟩ := (hst.keeps hl j).2 buf' hb
    exact (h.sender j buf hbuf).patched n
  | interrupt => exact ⟨h.thread, h.sender⟩

/-- **No data frame names its session.** -/
theorem reachable_blank (h : (sendingStack K fds mtu client).Reachable x) : x.Blanks := by
  refine h.invariant (I := Blanks) ?_ ?_
  · intro y hy
    obtain ⟨pipes, -, rfl⟩ := hy
    exact ⟨fun _ m hm => Option.some.inj hm ▸ rfl, fun _ _ hb => nomatch hb⟩
  · intro y l y' _ hI hs
    exact hI.step hs.2

end

end SendingStack

/-! ## Which frames carry their session's id -/

section
variable {S K : Type}

/-- The kernel takes bytes of the frame that `s` sends, on a stream of the
session `σ`. -/
def Writes (t : Transition (SendingStack S K) (StackLabel S K)) (s : Sending K) (σ : Session K) : Prop :=
  ∃ i n, 0 < n ∧ t.label = .socket (.io i (.call (.ok n))) ∧ t.pre.sockets.senders i = .sending s ∧
    σ ∈ t.pre.sockets.map.sessions ∧ σ.obj = s.obj

/-- The frame that an exchange sends. -/
def initialFrame (client : Option SessionId) (io : ExchangeIo) : Except Failure TunnelFrameBuffer :=
  match client with
  | some sessionId => initFrame sessionId "RuralPipeClient"
  | none => do
    let reader ← initReader io "Server received invalid initial frame"
    initFrame reader.header.sessionId "RuralPipeServer"

/-- What a transition puts on a stream carries the session's id: a data frame
that of the session it is sent in, an initial frame that under which the stream
will be registered. -/
structure Named (client : Option SessionId) (t : Transition (SendingStack S K) (StackLabel S K)) : Prop where
  data : ∀ s σ, Writes t s σ → (TunnelFrameHeader.cast s.buf.data).sessionId = σ.sessionId
  initial : ∀ k io ier frame, t.label = .socket (.exchange k io) → initialTunnelFrameExchange client io = .ok ier →
    initialFrame client io = .ok frame → (TunnelFrameHeader.cast frame.data).sessionId = ier.sessionId

/-- The transition writes no data frame in a session whose id is other than the
buffer's own bytes, and brings a client no other id than its own. -/
structure NothingToName (client : Option SessionId) (t : Transition (SendingStack S K) (StackLabel S K)) : Prop where
  data : ∀ s σ, Writes t s σ → σ.sessionId = blank
  initial : ∀ c k io buf, client = some c → t.label = .socket (.exchange k io) → Answered c io buf →
    (TunnelFrameHeader.cast buf.data).sessionId = c

/-- The initial frame of a client has its own id, that of a server the id it
takes. -/
theorem initialFrame_sessionId {client : Option SessionId} {io : ExchangeIo} {ier : InitialExchangeResult}
    {frame : TunnelFrameBuffer} (hex : initialTunnelFrameExchange client io = .ok ier)
    (hf : initialFrame client io = .ok frame) :
    (TunnelFrameHeader.cast frame.data).sessionId = client.getD ier.sessionId := by
  cases client with
  | some c =>
    obtain ⟨buf, hbuf, -, hid, -⟩ := initFrame_ok c "RuralPipeClient" rfl
    have hf : initFrame c "RuralPipeClient" = .ok frame := hf
    rw [hbuf] at hf
    cases hf
    exact hid
  | none =>
    obtain ⟨reader, hreader, hf⟩ := bind_eq_ok hf
    obtain ⟨reader', hreader', hex⟩ := bind_eq_ok hex
    rw [hreader] at hreader'
    cases hreader'
    obtain ⟨frame', -, hex⟩ := bind_eq_ok hex
    obtain ⟨_, -, hex⟩ := bind_eq_ok hex
    obtain rfl := Except.ok.inj hex
    obtain ⟨buf, hbuf, -, hid, -⟩ := initFrame_ok reader.header.sessionId "RuralPipeServer" rfl
    rw [hbuf] at hf
    cases hf
    exact hid

variable [DecidableEq S] [DecidableEq K] {fds : S → FileDescriptor} {mtu : Nat} {client : Option SessionId}

theorem named_iff {t : Transition (SendingStack S K) (StackLabel S K)}
    (h : (sendingStack K fds mtu client).Reachable t.pre) : Named client t ↔ NothingToName client t := by
  have hblank : ∀ s σ, Writes t s σ → (TunnelFrameHeader.cast s.buf.data).sessionId = blank := by
    intro s σ ⟨i, n, _, _, hi, _⟩
    exact (SendingStack.reachable_blank h).sender i s.buf (by rw [hi]; rfl)
  constructor
  · intro hn
    refine ⟨fun s σ hw => (hn.data s σ hw).symm.trans (hblank s σ hw), fun c k io buf hc hl hans => ?_⟩
    subst hc
    obtain ⟨ier, hex, hsid⟩ := exchange_client_iff.2 ⟨buf, hans, rfl⟩
    obtain ⟨frame, hframe, -⟩ := initFrame_ok c "RuralPipeClient" rfl
    have hid := hn.initial k io ier frame hl hex hframe
    rw [initialFrame_sessionId hex hframe] at hid
    exact hsid.symm.trans hid.symm
  · intro hc
    refine ⟨fun s σ hw => (hblank s σ hw).trans (hc.data s σ hw).symm, fun k io ier frame hl hex hf => ?_⟩
    rw [initialFrame_sessionId hex hf]
    cases client with
    | none => rfl
    | some c =>
      obtain ⟨buf, hans, hid⟩ := exchange_client_iff.1 ⟨ier, hex, rfl⟩
      exact ((hc.initial c k io buf rfl hl hans).symm.trans hid)

/-- **Frames name their session where there is nothing to name.** In every run
of the stack, all frames put on a session's streams carry its id exactly when
no data frame is written in a session whose id is not 16 bytes 0xAA, and, at a
client, no exchange brings another id than its own. -/
theorem frames_named_iff {tr : List (Transition (SendingStack S K) (StackLabel S K))} {x : SendingStack S K}
    (h : (sendingStack K fds mtu client).Run tr x) :
    (∀ t ∈ tr, Named client t) ↔ ∀ t ∈ tr, NothingToName client t :=
  forall_congr' fun t => forall_congr' fun ht => named_iff (h.transition t ht).1

end

/-- The thread of a stack begins a frame on the one stream of its session. -/
theorem run_writing {client : Option SessionId}
    {trs : List (Transition (SocketState Unit Unit) (SocketLabel Unit Unit))}
    {y : SocketState Unit Unit} {s : Session Unit} (hrun : (sockets Unit Unit client).Run trs y)
    (hl : ∀ t ∈ trs, t.label.Prepares () ∨ t.label = .register ()) (hc : y.crash = none) (hi : y.senders () = .idle)
    (hs : y.map.sessions = [s]) (hst : s.streams = [()]) (hfree : (y.map.trackers ()).inUse = false)
    (hfd : 0 ≤ (y.map.trackers ()).stream.fd.fd) :
    ∃ tr t x d σ, (sendingStack Unit (fun _ : Unit => ⟨"tun", 3⟩) 1500 client).Run (tr ++ [t]) x ∧ Writes t d σ ∧
      t.pre.sockets.map.sessions = [σ] ∧ σ.sessionId = s.sessionId ∧ t.label = .socket (.io () (.call (.ok 100))) ∧
      (∀ v ∈ trs, ∃ u ∈ tr, u.label = .socket v.label) ∧
      ∀ u ∈ tr, ∀ l, u.label = .socket l → l = .select () ∨ ∃ v ∈ trs, v.label = l := by
  obtain ⟨tr, x, buf, h, hin, hls, -, hloop, hsize, ha, -⟩ := SendingStack.run_entered hrun
    (fun t ht => by rcases hl t ht with (⟨_, h⟩ | ⟨_, _, h⟩ | ⟨_, h⟩) | h <;> (rw [h]; exact id)) hc hi
  have halive : ∀ z : SendingStack Unit Unit, z.sockets.crash = none → z.aborted = none →
      (z.threads ()).loop = .invoking buf → z.Alive :=
        fun z h h' hl => ⟨h, h', fun _ c hc => by rw [hl] at hc; cases hc⟩
  have hsel : y.map.select buf = .take _ _ _ _ := SessionsMap.select_first hs hst hfree
  have h := h.step (l := .socket (.select ())) ⟨halive _ hc ha hloop, .socket id
    (.take SocketState.setSender_self (by rw [SocketState.setSender_map]; exact hsel))⟩
  have hfd : 0 ≤ (((y.map.stamped s).take () buf.size).trackers ()).stream.fd.fd := by
    rw [SessionsMap.take_stream]
    exact hfd
  have h := h.step (l := .socket (.io () (.call (.ok 100)))) ⟨halive _ hc ha hloop, .socket id
    (.io SocketState.setSender_self (fun hlt => absurd hlt (Int.not_lt.2 hfd))
      (TunnelFrameStream.sendStep_first (by decide) (by show 100 < buf.size; omega)))⟩
  refine ⟨_, _, _, _, _, h, ⟨(), 100, by decide, rfl, SocketState.setSender_self, List.mem_singleton_self _, rfl⟩,
    rfl, rfl, rfl, fun v hv => ?_, fun u hu l hul => ?_⟩
  · obtain ⟨u, hu, hul⟩ := hin v hv
    exact ⟨u, List.mem_append_left _ hu, hul⟩
  rcases List.mem_append.1 hu with hu | hu
  · exact .inr (hls u hu l hul)
  · rw [List.mem_singleton.1 hu] at hul
    exact .inl (StackLabel.socket.inj hul).symm

/-- A client called by 16 bytes 0xAA, whose exchange is answered with that id, and
a data frame. -/
theorem frames_named_iff_echoed : ∃ tr x t s σ,
    (sendingStack Unit (fun _ : Unit => ⟨"tun", 3⟩) 1500 (some ⟨List.replicate 16 0xAA, rfl⟩)).Run tr x ∧
    (∃ k io, ∃ u ∈ tr, u.label = .socket (.exchange k io)) ∧ t ∈ tr ∧ Writes t s σ ∧
    ∀ t ∈ tr, Named (some ⟨List.replicate 16 0xAA, rfl⟩) t := by
  obtain ⟨trs, y, s, io, buf, hrun, hs, hsid, hans, hid, ⟨v, hv, hvl⟩, hio, hc, hi, hst, hfree, hfd⟩ :=
    run_answered ⟨List.replicate 16 0xAA, rfl⟩ ⟨List.replicate 16 0xAA, rfl⟩
  obtain ⟨tr, t, x, d, σ, h, hw, hone, hσ, hl, hin, hls⟩ :=
    run_writing hrun (fun t ht => (hio t ht).1) hc hi hs hst hfree hfd
  obtain ⟨u, hu, hul⟩ := hin v hv
  refine ⟨_, x, t, d, σ, h, ⟨(), io, u, List.mem_append_left _ hu, hul.trans (congrArg _ hvl)⟩,
    List.mem_append_right _ (List.mem_singleton_self _), hw, (frames_named_iff h).2 fun w hmem => ?_⟩
  rcases List.mem_append.1 hmem with hmem | hmem
  · refine ⟨fun d' σ' ⟨i, n, _, hwl, _⟩ => ?_, fun c k io' buf' hc' hx hans' => ?_⟩
    · -- Nothing is written before.
      rcases hls w hmem _ hwl with he | ⟨v', hv', he⟩
      · cases he
      · rcases (hio v' hv').1 with (⟨_, h⟩ | ⟨_, _, h⟩ | ⟨_, h⟩) | h <;> (rw [he] at h; cases h)
    · cases hc'
      rcases hls w hmem _ hx with he | ⟨v', hv', he⟩
      · cases he
      · obtain rfl := (hio v' hv').2 io' he
        obtain rfl : buf' = buf := Except.ok.inj (hans'.2.1.symm.trans hans.2.1)
        exact hid
  · rw [List.mem_singleton] at hmem
    subst hmem
    refine ⟨fun d' σ' ⟨i, n, _, _, _, hσ', _⟩ => ?_, fun c k io' buf' hc' hx hans' => ?_⟩
    · rw [hone, List.mem_singleton] at hσ'
      rw [hσ', hσ, hsid]
      rfl
    · rw [hl] at hx
      cases hx

/-- A data frame of a session that is not called by 16 bytes 0xAA. -/
theorem frame_unnamed : ∃ tr x, (sendingStack Unit (fun _ : Unit => ⟨"tun", 3⟩) 1500 none).Run tr x ∧
    ∃ t ∈ tr, ∃ s σ, Writes t s σ ∧ (TunnelFrameHeader.cast s.buf.data).sessionId ≠ σ.sessionId := by
  obtain ⟨trs, hrun, htrs⟩ := run_serving ⟨List.replicate 16 7, rfl⟩
  obtain ⟨tr, t, x, s, σ, h, hw, -, hid, -⟩ := run_writing hrun htrs rfl rfl rfl rfl rfl (show (0 : Int) ≤ 5 by decide)
  refine ⟨_, x, h, t, List.mem_append_right _ (List.mem_singleton_self _), s, σ, hw, ?_⟩
  obtain ⟨i, n, -, -, hi, -⟩ := hw
  have hblank := (SendingStack.reachable_blank h.before.1.reachable).sender i s.buf (by rw [hi]; rfl)
  rw [show TunnelFrameHeader.sessionId _ = blank from hblank, hid]
  decide

end RuralPipe
