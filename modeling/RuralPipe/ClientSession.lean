/-
The session of a client.

A client makes up the session id and sends it, but then registers its stream
under whatever id the response's header has, which it never compares with its
own. So its sessions are its own in exactly the runs in which no response
carries another id (`client_session_iff`).
-/
import RuralPipe.Membership

namespace RuralPipe

open SocketState

/-- The client's initial frame went out, and `buf` came back and has a datagram. -/
def Answered (c : SessionId) (io : ExchangeIo) (buf : TunnelFrameBuffer) : Prop :=
  (∃ frame, initFrame c "RuralPipeClient" = .ok frame ∧ io.send frame = .ok ()) ∧ io.receive = .ok buf ∧
    ∃ reader, initReader io "Client received invalid initial frame response" = .ok reader

theorem initReader_data {io : ExchangeIo} {message : String} {reader : TunnelFrameReader}
    (h : initReader io message = .ok reader) : ∃ buf, io.receive = .ok buf ∧ reader.data = buf.data := by
  unfold initReader at h
  obtain ⟨buf, hbuf, h⟩ := bind_eq_ok h
  obtain ⟨r, hr, h⟩ := bind_eq_ok h
  obtain ⟨found, -, h⟩ := bind_eq_ok h
  refine ⟨buf, hbuf, ?_⟩
  cases found
  · cases h
  · cases h
    rw [TunnelFrameReader.next_snd, TunnelFrameReader.advance_data]
    unfold TunnelFrameReader.new at hr
    split at hr
    · cases hr
    · cases hr
      rfl

/-- A client's exchange succeeds with every answer, under the answer's id. -/
theorem exchange_client_iff {c : SessionId} {io : ExchangeIo} {sid : SessionId} :
    (∃ ier, initialTunnelFrameExchange (some c) io = .ok ier ∧ ier.sessionId = sid) ↔
      ∃ buf, Answered c io buf ∧ (TunnelFrameHeader.cast buf.data).sessionId = sid := by
  constructor
  · intro ⟨ier, hex, hsid⟩
    obtain ⟨frame, hframe, hex⟩ := bind_eq_ok hex
    obtain ⟨_, hsend, hex⟩ := bind_eq_ok hex
    obtain ⟨reader, hreader, hex⟩ := bind_eq_ok hex
    obtain ⟨buf, hbuf, hdata⟩ := initReader_data hreader
    obtain rfl := Except.ok.inj hex
    refine ⟨buf, ⟨⟨frame, hframe, hsend⟩, hbuf, reader, hreader⟩, ?_⟩
    rw [← hdata]
    exact hsid
  · intro ⟨buf, ⟨⟨frame, hframe, hsend⟩, hbuf, reader, hreader⟩, hsid⟩
    obtain ⟨buf', hbuf', hdata⟩ := initReader_data hreader
    rw [hbuf] at hbuf'
    cases hbuf'
    refine ⟨{ identifier := cString reader.data reader.dataOffset, sessionId := reader.header.sessionId }, ?_, ?_⟩
    · simp only [initialTunnelFrameExchange, hframe, ok_bind, hsend, hreader]
      rfl
    · rw [← hsid, ← hdata]
      rfl

section
variable {S K : Type} [DecidableEq S] [DecidableEq K] {c : SessionId}

/-- A response with another session id, in a transition of the client `c`. -/
def AnswersForeign (c : SessionId) (t : Machine.Transition (SocketState S K) (SocketLabel S K)) : Prop :=
  ∃ k io buf, t.label = .exchange k io ∧ Answered c io buf ∧ (TunnelFrameHeader.cast buf.data).sessionId ≠ c

/-- A transition after which every session is the client's, and in which an
exchange that gets another session id fails and changes no session. -/
structure KeepsOwn (c : SessionId) (t : Machine.Transition (SocketState S K) (SocketLabel S K)) : Prop where
  own : ∀ s ∈ t.post.map.sessions, s.sessionId = c
  refuses : ∀ k io buf, t.label = .exchange k io → Answered c io buf →
    (TunnelFrameHeader.cast buf.data).sessionId ≠ c →
    (∃ ex, initialTunnelFrameExchange (some c) io = .error (.throw ex)) ∧ t.post.map.sessions = t.pre.map.sessions

omit [DecidableEq S] [DecidableEq K] in
/-- What an exchange obtained is what its answer said. -/
theorem answersForeign_of_obtained {tr : List (Machine.Transition (SocketState S K) (SocketLabel S K))} {k : K}
    {sid : SessionId} (h : Obtained (some c) tr k sid) (hne : sid ≠ c) : ∃ t ∈ tr, AnswersForeign c t := by
  obtain ⟨t, ht, io, ier, hl, hex, hsid⟩ := h
  obtain ⟨buf, hans, hid⟩ := exchange_client_iff.1 ⟨ier, hex, hsid⟩
  exact ⟨t, ht, k, io, buf, hl, hans, hid ▸ hne⟩

/-- **A client has its own session while nobody answers with another.** In
every run of a client `c`: each session in the table has the id `c`, throughout,
and each response with another id fails its exchange, exactly when no response
with another id comes back. -/
theorem client_session_iff {tr : List (Machine.Transition (SocketState S K) (SocketLabel S K))}
    {x : SocketState S K} (h : (sockets S K (some c)).Run tr x) :
    (∀ t ∈ tr, KeepsOwn c t) ↔ ∀ t ∈ tr, ¬ AnswersForeign c t := by
  constructor
  · intro hown t ht ⟨k, io, buf, hl, hans, hne⟩
    obtain ⟨⟨ex, hex⟩, -⟩ := (hown t ht).refuses k io buf hl hans hne
    obtain ⟨ier, hok, -⟩ := exchange_client_iff.2 ⟨buf, hans, rfl⟩
    rw [hex] at hok
    cases hok
  · intro hno t ht
    refine ⟨fun s hs => ?_, fun k io buf hl hans hne => absurd ⟨k, io, buf, hl, hans, hne⟩ (hno t ht)⟩
    by_contra hne
    obtain ⟨l₁, l₂, rfl⟩ := List.append_of_mem ht
    obtain ⟨hr, hstep⟩ := h.before
    obtain ⟨hexact, hobt⟩ := sessions_exact (hr.step hstep)
    -- The session has a stream, whose task obtained its id.
    obtain ⟨k, ks, hst⟩ := List.exists_cons_of_ne_nil (hexact.nonempty s hs)
    obtain ⟨t', ht', hans⟩ :=
      answersForeign_of_obtained (hobt k s.sessionId ((hexact.listed s hs k).1 (by simp [hst]))) hne
    refine hno t' ?_ hans
    rcases List.mem_append.1 ht' with ht' | ht'
    · exact List.mem_append_left _ ht'
    · rw [List.mem_singleton] at ht'
      exact List.mem_append_right _ (ht' ▸ List.mem_cons_self)

end

/-- A client whose one socket is answered with the session id `sid`. -/
theorem run_answered (c sid : SessionId) : ∃ tr x s io buf, (sockets Unit Unit (some c)).Run tr x ∧
    x.map.sessions = [s] ∧ s.sessionId = sid ∧ Answered c io buf ∧ (TunnelFrameHeader.cast buf.data).sessionId = sid ∧
    (∃ t ∈ tr, t.label = .exchange () io) ∧ (∀ t ∈ tr, (t.label.Prepares () ∨ t.label = .register ()) ∧
      ∀ io', t.label = .exchange () io' → io' = io) ∧
    x.crash = none ∧ x.senders () = .idle ∧ s.streams = [()] ∧ (x.map.trackers ()).inUse = false ∧
    0 ≤ (x.map.trackers ()).stream.fd.fd := by
  obtain ⟨frame, hframe, -⟩ := initFrame_ok c "RuralPipeClient" rfl
  obtain ⟨buf, -, hcl, hid, -⟩ := initFrame_ok sid "RuralPipeServer" rfl
  obtain ⟨reader, hreader, -⟩ := initReader_ok hcl (fun _ => .ok ()) "Client received invalid initial frame response"
  have hans : Answered c { send := fun _ => .ok (), receive := .ok buf } buf :=
    ⟨⟨frame, hframe, rfl⟩, rfl, reader, hreader⟩
  obtain ⟨ier, hex, hsid⟩ := exchange_client_iff.2 ⟨buf, hans, hid⟩
  let stream : TunnelFrameStream := ⟨⟨"Server", 5⟩, fun _ => 0⟩
  have hinit : (sockets Unit Unit (some c)).Run [] (SocketState.start Unit Unit) := .init rfl
  have hr₁ := hinit.step (l := .add () stream.fd) ⟨rfl, .add rfl⟩
  have hr₂ := hr₁.step (l := .start () (.ok 0) (.ok 0))
    ⟨rfl, show SocketStep _ _ _ (setTask _ () (.exchanging stream)) from .start setTask_self rfl⟩
  have hr₃ := hr₂.step (l := .exchange () _)
    ⟨rfl, show SocketStep _ _ _ (setTask _ () (.exchanged stream ier)) from .exchange setTask_self hex⟩
  have hr₄ := hr₃.step (l := .register ()) ⟨rfl, .register setTask_self (fun ⟨_, _, _, _, _, hw⟩ => nomatch hw) rfl⟩
  refine ⟨_, _, _, _, buf, hr₄, rfl, hsid, hans, hid,
    ⟨_, List.mem_append_left _ (List.mem_append_right _ (List.mem_singleton_self _)), rfl⟩, ?_,
    rfl, rfl, rfl, rfl, show (0 : Int) ≤ 5 by decide⟩
  intro t ht
  simp only [List.nil_append, List.mem_append, List.mem_singleton] at ht
  rcases ht with ((rfl | rfl) | rfl) | rfl
  · exact ⟨.inl (.inl ⟨_, rfl⟩), fun io' hl => nomatch hl⟩
  · exact ⟨.inl (.inr (.inl ⟨_, _, rfl⟩)), fun io' hl => nomatch hl⟩
  · exact ⟨.inl (.inr (.inr ⟨_, rfl⟩)), fun io' hl => by cases hl; rfl⟩
  · exact ⟨.inr rfl, fun io' hl => nomatch hl⟩

/-- The server echoes the client's id. -/
theorem client_session_iff_echoed : ∃ c tr x s, (sockets Unit Unit (some c)).Run tr x ∧ s ∈ x.map.sessions ∧
    ∀ t ∈ tr, KeepsOwn c t := by
  obtain ⟨tr, x, s, io, buf, hrun, hs, -, hans, hid, -, hio, -⟩ :=
    run_answered ⟨List.replicate 16 7, rfl⟩ ⟨List.replicate 16 7, rfl⟩
  refine ⟨_, tr, x, s, hrun, by simp [hs], (client_session_iff hrun).2 fun t ht ⟨k, io', buf', hl, hans', hne⟩ => ?_⟩
  obtain rfl := (hio t ht).2 io' hl
  obtain rfl : buf' = buf := Except.ok.inj (hans'.2.1.symm.trans hans.2.1)
  exact hne hid

/-- The response has another id, the exchange succeeds with it, and the client
has a session that is not its own. -/
theorem client_session_foreign : ∃ c tr x s, (sockets Unit Unit (some c)).Run tr x ∧ x.map.sessions = [s] ∧
    s.sessionId ≠ c ∧ ¬ ∀ t ∈ tr, KeepsOwn c t := by
  obtain ⟨tr, x, s, io, buf, hrun, hs, hsid, hans, hid, ⟨t, ht, hl⟩, -⟩ :=
    run_answered ⟨List.replicate 16 7, rfl⟩ ⟨List.replicate 16 9, rfl⟩
  refine ⟨_, tr, x, s, hrun, hs, by rw [hsid]; decide, fun hown => ?_⟩
  obtain ⟨⟨ex, hex⟩, -⟩ := (hown t ht).refuses () io buf hl hans (by rw [hid]; decide)
  obtain ⟨ier, hok, -⟩ := exchange_client_iff.2 ⟨buf, hans, rfl⟩
  rw [hex] at hok
  cases hok

end RuralPipe
