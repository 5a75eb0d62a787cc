/-
A client that has lost its last stream.

Only the connect loop adds sockets, and it adds none once it has gone through
the interfaces and is in `waitForExit`, which does not return
(`client_ends_failed`). A session comes with a socket's task, and goes with the
last one, and its stream is closed before. So when the tasks of all sockets are
over, the client is cut off for good: every later frame is refused, and no byte
gets on any stream (`outage_permanent`).
-/
import RuralPipe.ConnectLoop
import RuralPipe.SendingStack
import RuralPipe.StreamUse

namespace RuralPipe

open Machine

/-- The connect loop, and the stack that it adds its sockets to. -/
structure ClientTunnel (S K : Type) where
  client : Client
  stack : SendingStack S K

inductive ClientTunnelLabel (S K : Type)
  | connect (ev : ConnectEvent)
  | add (k : K) (fd : FileDescriptor)
  | stack (l : StackLabel S K)

/-- A step of the loop, whose `addSocket` posts a socket's task when it returns;
or any other step of the stack. A loop in `waitForExit` has no step, for no run of
the client sets the exit code before (`client_ends_failed`). -/
inductive ClientTunnelStep {S K : Type} [DecidableEq S] [DecidableEq K] (interfaces : List String)
    (fds : S → FileDescriptor) (mtu : Nat) (sessionId : SessionId) :
    ClientTunnel S K → ClientTunnelLabel S K → ClientTunnel S K → Prop
  | connect {p : ClientTunnel S K} {ev client} : p.client.loop ≠ .waitForExit → ev ≠ .add (.ok ()) →
      p.client.step interfaces ev = some client →
      ClientTunnelStep interfaces fds mtu sessionId p (.connect ev) { p with client }
  | add {p : ClientTunnel S K} {k fd client stack} : p.client.step interfaces (.add (.ok ())) = some client →
      p.stack.Alive → StackStep fds mtu (some sessionId) p.stack (.socket (.add k fd)) stack →
      ClientTunnelStep interfaces fds mtu sessionId p (.add k fd) { client, stack }
  | stack {p : ClientTunnel S K} {l stack} : (∀ k fd, l ≠ .socket (.add k fd)) → p.stack.Alive →
      StackStep fds mtu (some sessionId) p.stack l stack →
      ClientTunnelStep interfaces fds mtu sessionId p (.stack l) { p with stack }

def clientTunnel {S : Type} (K : Type) [DecidableEq S] [DecidableEq K] (interfaces : List String)
    (fds : S → FileDescriptor) (mtu : Nat) (sessionId : SessionId) :
    Machine (ClientTunnel S K) (ClientTunnelLabel S K) where
  init p := p.client = .start interfaces ∧ p.stack.Starts
  step := ClientTunnelStep interfaces fds mtu sessionId

/-! ## The sockets -/

namespace SocketState

variable {S K : Type} {x₀ x x' : SocketState S K}

/-- The task of every socket that was ever added is over. -/
def Over (x : SocketState S K) : Prop := ∀ k, x.tasks k = .notAdded ∨ x.tasks k = .done

/-- There is no session and none to come, and the streams have what they had in
`x₀`. -/
structure Down (x₀ x : SocketState S K) : Prop where
  finished : x.Over
  sessions : x.map.sessions = []
  waits : ∀ obj, ¬ x.Waits obj
  wire : ∀ k, x.wire k = x₀.wire k

theorem Over.registered (h : x.Over) (k : K) : (x.tasks k).registered = none := by
  rcases h k with hk | hk <;> rw [hk] <;> rfl

/-- The last task takes the session with it. -/
theorem Over.down (h : x.Over) (ht : x.Table) : Down x x := by
  cases ht with
  | empty hs _ hw => exact ⟨h, hs, hw, fun k => rfl⟩
  | one s _ hne _ hk =>
    obtain ⟨k, ks, hks⟩ := List.exists_cons_of_ne_nil hne
    have hreg := (hk k).1 (by rw [hks]; exact List.mem_cons_self)
    rw [h.registered k] at hreg
    cases hreg

/-- A stream that a sender has is one of a registered task, or closed; and
closed it is before it leaves its session. -/
structure Shut (x : SocketState S K) : Prop where
  closed : ∀ k sid, x.tasks k = .closed sid → (x.map.trackers k).stream.fd.fd < 0
  targets : ∀ k, x.Targets k → (x.tasks k).registered ≠ none ∨ (x.map.trackers k).stream.fd.fd < 0

variable [DecidableEq S] [DecidableEq K] {client : Option SessionId} {l : SocketLabel S K}

/-- A tracker's descriptor is its stream's from the registration on, until it is
closed. -/
theorem fd_step (hs : SocketStep client x l x') (k : K) :
    (x'.map.trackers k).stream.fd = (x.map.trackers k).stream.fd ∨ (∃ sid, x'.tasks k = .receiving sid) ∨
      (x'.map.trackers k).stream.fd.fd < 0 := by
  cases hs with
  | take hi hsel =>
    obtain ⟨s, -, -, -, -, -, rfl⟩ := SessionsMap.select_take hsel
    exact .inl (congrArg TunnelFrameStream.fd (SessionsMap.take_stream (x.map.stamped s) k))
  | wait hi hsel =>
    obtain ⟨s, -, -, -, -, -, rfl⟩ := SessionsMap.select_wait hsel
    exact .inl rfl
  | recheckTake hi hre =>
    obtain ⟨-, rfl⟩ := SessionsMap.recheck_some hre
    exact .inl (congrArg TunnelFrameStream.fd (SessionsMap.take_stream x.map k))
  | complete hi hout hc hwk =>
    obtain ⟨-, rfl⟩ := SessionsMap.complete_ok hc
    rw [notify_map]
    simp only [setSender_map, record]
    exact .inl (congrArg TunnelFrameStream.fd (SessionsMap.setTracker_stream x.map (by exact fun _ => rfl) k))
  | @register k' stream ier map hk hsh hreg =>
    by_cases hkk : k = k'
    · subst hkk
      exact .inr (.inl ⟨_, setTask_self⟩)
    · rw [setTask_map, SessionsMap.register_trackers hreg, Function.update_of_ne hkk]
      exact .inl rfl
  | @close k' sid map hk hcl =>
    obtain ⟨fd, hfd, rfl⟩ := SessionsMap.closeStream_ok hcl
    by_cases hkk : k = k'
    · subst hkk
      rw [setTask_map, SessionsMap.setTracker_self]
      exact .inr (.inr (FileDescriptor.close_lt hfd))
    · rw [setTask_map, SessionsMap.setTracker_ne hkk]
      exact .inl rfl
  | cleanup hk hsh hcl =>
    rw [setTask_map, SessionsMap.cleanup_trackers hcl]
    exact .inl rfl
  | _ => exact .inl rfl

/-- What is closed stays closed until its task registers. -/
theorem closed_step (hs : SocketStep client x l x') {k : K} (h : (x.map.trackers k).stream.fd.fd < 0) :
    (∃ sid, x'.tasks k = .receiving sid) ∨ (x'.map.trackers k).stream.fd.fd < 0 := by
  rcases fd_step hs k with hfd | hr | hlt
  · rw [hfd]
    exact .inr h
  · exact .inl hr
  · exact .inr hlt

/-- A task leaves its session closed. -/
theorem registered_step (h : x.Shut) (hs : SocketStep client x l x') {k : K} (hk : (x.tasks k).registered ≠ none) :
    (x'.tasks k).registered ≠ none ∨ (x'.map.trackers k).stream.fd.fd < 0 := by
  rcases task_step hs k with ⟨-, he⟩ | ⟨-, hst⟩
  · rw [he]
    exact .inl hk
  · generalize ht : x.tasks k = t at hst hk
    generalize ht' : x'.tasks k = t' at hst
    cases hst with
    | cleanup =>
      rcases closed_step hs (h.closed k _ ht) with ⟨sid, hr⟩ | hlt
      · cases ht'.symm.trans hr
      · exact .inr hlt
    | receiveEnds | receiveAborts | close | closeAborts | cleanupCrash => exact .inl (by simp [Task.registered])
    | _ => exact absurd rfl hk

theorem Shut.step (ht : x.Table) (h : x.Shut) (hs : SocketStep client x l x') : x'.Shut := by
  refine ⟨fun k sid hk => ?_, fun k hk => ?_⟩
  · have hkept : ∀ sid', x.tasks k = .closed sid' → (x'.map.trackers k).stream.fd.fd < 0 := by
      intro sid' hk'
      rcases closed_step hs (h.closed k sid' hk') with ⟨_, hr⟩ | hlt
      · cases hk.symm.trans hr
      · exact hlt
    rcases task_step hs k with ⟨-, he⟩ | ⟨hl, hst⟩
    · exact hkept sid (he ▸ hk)
    · generalize ht : x.tasks k = t at hst
      rw [hk] at hst
      cases hst with
      | cleanupCrash => exact hkept _ ht
      | close =>
        cases hl
        cases hs with
        | close _ hcl =>
          obtain ⟨fd, hfd, rfl⟩ := SessionsMap.closeStream_ok hcl
          simpa only [setTask_map, SessionsMap.setTracker_self] using FileDescriptor.close_lt hfd
        | closeAborts => cases ht.symm.trans hk
  · rcases targets_step hs hk with hk | ⟨s, hsess, hmem⟩
    · rcases h.targets k hk with hreg | hlt
      · exact registered_step h hs hreg
      · rcases closed_step hs hlt with ⟨sid, hr⟩ | hlt'
        · exact .inl (by simp [hr, Task.registered])
        · exact .inr hlt'
    · refine registered_step h hs ?_
      rw [((ht.session hsess).2.2.1 k).1 hmem]
      simp

theorem reachable_shut (h : (sockets S K client).Reachable x) : x.Shut := by
  refine h.invariant (I := Shut) ?_ ?_
  · intro y hy
    cases hy
    exact ⟨fun _ _ hk => (nomatch hk), fun _ ⟨_, hi⟩ => nomatch hi⟩
  · intro y l y' hr hI hs
    exact hI.step (reachable_table hr) hs.2

/-- What is over stays over, unless a socket is added. -/
theorem Over.step (h : x.Over) (hs : SocketStep client x l x') (hl : ∀ k fd, l ≠ .add k fd) : x'.Over := by
  intro k
  rcases task_step hs k with ⟨-, he⟩ | ⟨-, hst⟩
  · rw [he]
    exact h k
  · generalize x'.tasks k = t' at hst ⊢
    rcases h k with hk | hk
    · rw [hk] at hst
      cases hst with
      | add => exact absurd rfl (hl _ _)
    · rw [hk] at hst
      cases hst

omit [DecidableEq S] in
/-- Without a session no sender gets a stream. -/
theorem Down.select (h : Down x₀ x) (buf : TunnelFrameBuffer) :
    ∃ ex, x.map.select buf = .notYetReady ex ∧ ex.isNotYetReady = true := by
  refine ⟨NotYetReadyException "The other side of the tunnel is not connected yet", ?_, rfl⟩
  rw [SessionsMap.select, h.sessions]

omit [DecidableEq S] in
theorem Down.sender {j : S} (h : Down x₀ x) (hst : SenderStep x j l (x.senders j) (x'.senders j)) :
    ∀ obj buf st n, x'.senders j ≠ .waiting obj buf st n := by
  have hwait : ∀ obj buf st n, x.senders j ≠ .waiting obj buf st n := fun obj buf st n hw =>
    h.waits obj ⟨j, buf, st, n, hw⟩
  generalize x.senders j = a at hst hwait ⊢
  generalize x'.senders j = a' at hst ⊢
  cases hst with
  | call | notYetReady | complete | leave | io => simp
  | @take buf _ _ _ _ hsel | @wait buf _ _ _ _ hsel =>
    obtain ⟨ex, hno, -⟩ := h.select buf
    rw [hno] at hsel
    cases hsel
  | recheckTake | recheckWait | woken => exact absurd rfl (hwait _ _ _ _)

/-- Whoever still sends does so on a closed stream. -/
theorem Down.wire_step (h : Down x₀ x) (hsh : x.Shut) (hs : SocketStep client x l x') (k : K) :
    x'.wire k = x.wire k := by
  cases hs with
  | @io i s ev send out hi hal hst =>
    by_cases hk : k = s.st
    · subst hk
      have hlt := (hsh.targets s.st ⟨i, by rw [hi]; rfl⟩).resolve_left fun hreg => hreg (h.finished.registered _)
      have hout : out = [] := by
        obtain ⟨-, -, -, ⟨n, rfl, -⟩ | ⟨-, -, hout, -⟩ | ⟨-, -, hout, -⟩⟩ := TunnelFrameStream.sendStep_cases hst
        · exact absurd rfl (hal hlt n)
        · exact hout
        · exact hout
      subst hout
      show Function.update x.wire s.st (x.wire s.st ++ []) s.st = _
      rw [Function.update_self, List.append_nil]
    · exact Function.update_of_ne hk ..
  | complete =>
    rw [notify_wire]
    rfl
  | _ => rfl

/-- Neither a sender nor a task changes the sessions. -/
theorem Down.sessions_step (h : Down x₀ x) (hs : SocketStep client x l x') : x'.map.sessions = [] := by
  have htask : ∀ {k t}, x.tasks k = t → t = .notAdded ∨ t = .done := fun hk => hk ▸ h.finished _
  cases hs with
  | @take i buf _ _ _ _ hi hsel | @wait i buf _ _ _ _ hi hsel =>
    obtain ⟨ex, hno, -⟩ := h.select buf
    rw [hno] at hsel
    cases hsel
  | @recheckTake i obj buf st n map hi hre => exact absurd ⟨i, buf, st, n, hi⟩ (h.waits obj)
  | complete hi hout hc hwk =>
    obtain ⟨-, rfl⟩ := SessionsMap.complete_ok hc
    rw [notify_map]
    exact h.sessions
  | register hk | close hk | cleanup hk => simpa using htask hk
  | _ => exact h.sessions

theorem Down.step (h : Down x₀ x) (hsh : x.Shut) (hs : SocketStep client x l x') (hl : ∀ k fd, l ≠ .add k fd) :
    Down x₀ x' := by
  refine ⟨h.finished.step hs hl, h.sessions_step hs, fun obj hw => ?_, fun k => (h.wire_step hsh hs k).trans (h.wire k)⟩
  obtain ⟨j, buf, st, n, hj⟩ := hw
  rcases sender_step hs j with he | hst
  · exact h.waits obj ⟨j, buf, st, n, he ▸ hj⟩
  · exact h.sender hst _ _ _ _ hj

end SocketState

/-! ## The client -/

namespace ClientTunnel

variable {S K : Type} [DecidableEq S] [DecidableEq K] {interfaces : List String} {fds : S → FileDescriptor} {mtu : Nat}
  {sessionId : SessionId} {p p' : ClientTunnel S K} {l : ClientTunnelLabel S K} {x₀ : SocketState S K}

theorem maps_stack : Maps (clientTunnel K interfaces fds mtu sessionId)
    (sendingStack (S := S) K fds mtu (some sessionId)) (·.stack) := by
  refine ⟨fun p hp => hp.2, fun p l p' _ hs => ?_⟩
  cases hs with
  | connect => exact .refl
  | add hst ha hs => exact .one ⟨ha, hs⟩
  | stack hl ha hs => exact .one ⟨ha, hs⟩

/-- The loop has gone through the interfaces, and the sockets are down. -/
structure CutOff (x₀ : SocketState S K) (p : ClientTunnel S K) : Prop where
  loop : p.client.loop = .waitForExit
  down : SocketState.Down x₀ p.stack.sockets

theorem CutOff.stack {x : SendingStack S K} {l : StackLabel S K} (h : SocketState.Down x₀ p.stack.sockets)
    (hsh : p.stack.sockets.Shut) (hl : ∀ k fd, l ≠ .socket (.add k fd))
    (hs : StackStep fds mtu (some sessionId) p.stack l x) : SocketState.Down x₀ x.sockets := by
  cases hs with
  | enter _ _ hst | leave _ _ hst => exact h.step hsh hst (by simp)
  | socket _ hst => exact h.step hsh hst fun k fd he => hl k fd (congrArg _ he)
  | _ => exact h

theorem reachable_sockets (hr : (clientTunnel K interfaces fds mtu sessionId).Reachable p) :
    (sockets S K (some sessionId)).Reachable p.stack.sockets :=
  SendingStack.maps_sockets.reachable (maps_stack.reachable hr)

theorem CutOff.step (h : CutOff x₀ p) (hsh : p.stack.sockets.Shut)
    (hs : ClientTunnelStep interfaces fds mtu sessionId p l p') : CutOff x₀ p' := by
  cases hs with
  | connect hne => exact absurd h.loop hne
  | add hst => simp [Client.step, h.loop] at hst
  | stack hl ha hs => exact ⟨h.loop, CutOff.stack h.down hsh hl hs⟩

theorem CutOff.refuses {i : S} {buf : TunnelFrameBuffer} (h : CutOff x₀ p)
    (hs : ClientTunnelStep interfaces fds mtu sessionId p (.stack (.socket (.select i))) p')
    (hi : p.stack.sockets.senders i = .entered buf) :
    ∃ ex, p'.stack.sockets.senders i = .returned buf (.error ex) ∧ ex.isNotYetReady = true := by
  obtain ⟨ex, hno, hnyr⟩ := h.down.select buf
  cases hs with
  | stack _ _ hs =>
    cases hs with
    | socket _ hst =>
      cases hst with
      | notYetReady hi' hsel =>
        cases hi.symm.trans hi'
        cases hno.symm.trans hsel
        exact ⟨ex, SocketState.setSender_self, hnyr⟩
      | selectCrash hi' hsel | take hi' hsel | wait hi' hsel =>
        cases hi.symm.trans hi'
        cases hno.symm.trans hsel

theorem cutOff_since {l₁ l₂ : List (Transition (ClientTunnel S K) (ClientTunnelLabel S K))}
    {t : Transition (ClientTunnel S K) (ClientTunnelLabel S K)}
    (h : (clientTunnel K interfaces fds mtu sessionId).Run (l₁ ++ t :: l₂) p) (h₀ : CutOff x₀ t.post) : CutOff x₀ p :=
  (h.since (I := CutOff x₀) (C := fun _ => True)
    (fun _ _ _ hr hI _ hs => hI.step (SocketState.reachable_shut (reachable_sockets hr)) hs) h₀ fun _ _ => trivial).1

end ClientTunnel

/-- **The outage of a client is for good.** Once its connect loop is in
`waitForExit` and the tasks of its sockets are over, there is no session any
any more, every frame that a tunnel thread has handed to the socket side is refused
with `NotYetReadyException`, and no byte gets on any stream, for who is still in
the middle of a `send` is so on a stream that was closed. -/
theorem outage_permanent {S K : Type} [DecidableEq S] [DecidableEq K] {interfaces : List String}
    {fds : S → FileDescriptor} {mtu : Nat} {sessionId : SessionId}
    {tr : List (Transition (ClientTunnel S K) (ClientTunnelLabel S K))} {p : ClientTunnel S K}
    (h : (clientTunnel K interfaces fds mtu sessionId).Run tr p)
    {l₁ l₂ : List (Transition (ClientTunnel S K) (ClientTunnelLabel S K))}
    {t : Transition (ClientTunnel S K) (ClientTunnelLabel S K)} (htr : tr = l₁ ++ t :: l₂)
    (hloop : t.post.client.loop = .waitForExit) (hover : t.post.stack.sockets.Over) :
    p.stack.sockets.map.sessions = [] ∧
      (∀ u ∈ l₂, ∀ i buf, u.label = .stack (.socket (.select i)) → u.pre.stack.sockets.senders i = .entered buf →
        ∃ ex, u.post.stack.sockets.senders i = .returned buf (.error ex) ∧ ex.isNotYetReady = true) ∧
      ∀ k, p.stack.sockets.wire k = t.post.stack.sockets.wire k := by
  subst htr
  have hr := (h.transition t (List.mem_append_right _ List.mem_cons_self)).2.2
  have h₀ : ClientTunnel.CutOff t.post.stack.sockets t.post :=
    ⟨hloop, hover.down (SocketState.reachable_table (ClientTunnel.reachable_sockets hr))⟩
  have hcut := ClientTunnel.cutOff_since h h₀
  refine ⟨hcut.down.sessions, fun u hu i buf hl hi => ?_, hcut.down.wire⟩
  obtain ⟨a, b, rfl⟩ := List.append_of_mem hu
  rw [← List.cons_append, ← List.append_assoc] at h
  obtain ⟨hbefore, hs⟩ := h.before
  rw [hl] at hs
  exact (ClientTunnel.cutOff_since hbefore h₀).refuses hs hi

/-- The stack may go first. -/
theorem ClientTunnel.run_stack {S K : Type} [DecidableEq S] [DecidableEq K] {interfaces : List String}
    {fds : S → FileDescriptor} {mtu : Nat} {sessionId : SessionId} {x : SendingStack S K}
    {trs : List (Transition (SendingStack S K) (StackLabel S K))}
    (h : (sendingStack K fds mtu (some sessionId)).Run trs x)
    (hl : ∀ l ∈ trs.map (·.label), ∀ k fd, l ≠ .socket (.add k fd)) :
    ∃ tr, (clientTunnel K interfaces fds mtu sessionId).Run tr { client := .start interfaces, stack := x } := by
  induction h with
  | init hx => exact ⟨[], .init ⟨rfl, hx⟩⟩
  | step _ hs ih =>
    rw [List.map_append, List.forall_mem_append] at hl
    obtain ⟨tr, hrun⟩ := ih hl.1
    exact ⟨_, hrun.step (.stack (hl.2 _ (List.mem_singleton_self _)) hs.1 hs.2)⟩

/-- The exchange on the only interface fails while a thread hands over a frame. -/
theorem outage_permanent_exchange : ∃ (tr : List (Transition (ClientTunnel Unit Unit) (ClientTunnelLabel Unit Unit)))
    (p : ClientTunnel Unit Unit) (buf : TunnelFrameBuffer) (ex : Exception),
    (clientTunnel Unit ["eth0"] (fun _ : Unit => ⟨"tun", 3⟩) 1500 ⟨List.replicate 16 7, rfl⟩).Run tr p ∧
    p.stack.sockets.map.sessions = [] ∧ p.stack.sockets.senders () = .returned buf (.error ex) ∧
    ex.isNotYetReady = true ∧ p.stack.sockets.wire () = [] := by
  have hstart : (sockets Unit Unit (some ⟨List.replicate 16 7, rfl⟩)).Run [] (SocketState.start Unit Unit) := .init rfl
  obtain ⟨trs, x, buf, h, -, hls, -, hbuf, -, ha, -⟩ :=
    SendingStack.run_entered hstart (fun _ ht => absurd ht List.not_mem_nil) rfl rfl
  have ha : SendingStack.Alive { x with sockets := (SocketState.start Unit Unit).setSender () (.entered buf) } :=
    ⟨rfl, ha, fun _ c hc => by rw [show (x.threads _).loop = .invoking buf from hbuf] at hc; cases hc⟩
  have hno : ∀ l ∈ trs.map (·.label), ∀ k fd, l ≠ .socket (.add k fd) := by
    intro l hl k fd hadd
    obtain ⟨t, ht, rfl⟩ := List.mem_map.1 hl
    obtain ⟨_, hno, -⟩ := hls t ht _ hadd
    exact absurd hno List.not_mem_nil
  obtain ⟨tr, h⟩ : ∃ tr, (clientTunnel Unit ["eth0"] _ 1500 _).Run tr _ := ClientTunnel.run_stack h hno
  -- The connection is made, and the exchange on it fails.
  obtain ⟨frame, hframe, -⟩ := initFrame_ok ⟨List.replicate 16 7, rfl⟩ "RuralPipeClient" rfl
  have hex : initialTunnelFrameExchange (some ⟨List.replicate 16 7, rfl⟩)
      { send := fun _ => .error (.throw ⟨.system, "EPIPE"⟩), receive := .error (.throw ⟨.system, "EPIPE"⟩) } =
      .error (.throw ⟨.system, "EPIPE"⟩) := by
    simp only [initialTunnelFrameExchange, hframe, ok_bind]
    rfl
  have hconnecting : (Client.start ["eth0"]).loop ≠ .waitForExit := by decide
  have h := h.step (l := .connect (.connect (.ok ()))) (by exact .connect hconnecting (by simp) rfl)
  have h := h.step (l := .add () ⟨"Server", 5⟩) (by exact .add rfl ha (.socket id (.add rfl)))
  have h := h.step (l := .stack (.socket (.start () (.ok 0) (.ok 0)))) (by
    exact .stack (by simp) ha (.socket id
      (show SocketStep _ _ _ (SocketState.setTask _ () (.exchanging ⟨⟨"Server", 5⟩, fun _ => 0⟩)) from
        .start SocketState.setTask_self rfl)))
  have h := h.step (l := .stack (.socket (.exchange () _))) (by
    exact .stack (by simp) ha (.socket id (.exchangeThrows SocketState.setTask_self hex)))
  have h := h.step (l := .stack (.socket (.select ()))) (by
    exact .stack (by simp) ha (.socket id (.notYetReady rfl rfl)))
  obtain ⟨hs, hrefused, hwire⟩ := outage_permanent h (List.append_assoc _ [_] [_]) rfl
    fun k => .inr SocketState.setTask_self
  obtain ⟨ex, hret, hnyr⟩ := hrefused _ (List.mem_singleton_self _) () buf rfl rfl
  exact ⟨_, _, buf, ex, h, hs, hret, hnyr, hwire ()⟩

end RuralPipe
