/-
The handshake of a client and its server: what every exchange returns and what
goes over every connection, for any number of them, as long as each side's pool
has a thread for every socket it is given. With one socket more it fails: the
last exchange never begins (`handshake_starved`).
-/
import RuralPipe.Completion

namespace RuralPipe

open TunnelFrameStream SocketState Handshake

namespace Handshake

section
variable {S K : Type} [DecidableEq S] [DecidableEq K] {c : SessionId} {x : Handshake S K}
  {tr : List (Machine.Transition (Handshake S K) (HandshakeLabel S K))}

/-- The direction of `k` from the side `s`: its initial frame and then frames with
numbers from 1 on; of these the other's exchange takes the first, and its loop all
others. -/
structure InOrder (c : SessionId) (x : Handshake S K) (s : Side) (k : K) : Prop where
  frames : ∃ fs : List TunnelFrameBuffer, (∀ f ∈ fs, (∃ ds, f.Closed ds) ∧ 1 ≤ f.seqNum) ∧
    x.sent s k <+: (s.frame c).bytes ++ (fs.map TunnelFrameBuffer.bytes).flatten ∧
    (x.ends s.other k).frames <+: fs.map TunnelFrameBuffer.bytes
  byExchange : (x.ends s.other k).takenByExchange ≤ (s.frame c).size
  byLoop : 0 < (x.ends s.other k).takenByLoop → (x.ends s.other k).takenByExchange = (s.frame c).size

theorem run_inOrder (h : (handshake S K c).Run tr x) (hi : ∀ t ∈ tr, t.label.Intact)
    (hn : ∀ s, ((trace s tr).filterMap stamp).length < 2 ^ 64 - 1) (s : Side) (k : K) : x.InOrder c s k := by
  have hag := run_agrees h hi
  obtain ⟨fs, hfs, hmem⟩ := run_given h hi s k
  have hcl : ∀ f ∈ fs, ∃ ds, f.Closed ds := fun f hf => (hmem f hf).2
  have hnum : ∀ f ∈ fs, 1 ≤ f.seqNum := by
    intro f hf
    have hne := numbered_seqNum (run_trace h s) (hn s) (hmem f hf).1
    rw [UInt64.le_iff_toNat_le]
    have : f.seqNum.toNat ≠ 0 := fun h0 => hne (UInt64.toNat_inj.1 h0)
    exact Nat.one_le_iff_ne_zero.2 this
  have hsent := hag.sent_prefix ((run_feeds h hi).fresh s) hfs
  have htaken := hag.taken s.other k
  cases hag.stands s.other k with
  | exchanging he hst hfirst hr hfr ht =>
    refine ⟨⟨fs, fun f hf => ⟨hcl f hf, hnum f hf⟩, hsent, by rw [hfr]; exact List.nil_prefix⟩, ?_, fun hpos => ?_⟩
    · have hle := hst.given_prefix.length_le
      rw [given, List.length_take, Nat.min_eq_left htaken, Handshake.taken, ht, Side.other_other,
        TunnelFrameBuffer.bytes_length] at hle
      exact hle
    · omega
  | @past rest ha hw ht hg hl =>
    rw [Side.other_other] at ht hg
    obtain ⟨more, hmore⟩ : ∃ more, rest ++ more = (fs.map TunnelFrameBuffer.bytes).flatten := by
      have hall := x.given_underway s.other k
      rw [Side.other_other, hg, List.append_assoc] at hall
      rw [← hall, List.prefix_append_right_inj] at hsent
      obtain ⟨after, hafter⟩ := hsent
      exact ⟨x.underway s.other k ++ after, by rw [← hafter, List.append_assoc]⟩
    obtain ⟨gs, gs', part, rfl, hgs, -⟩ := hl.frames hcl hmore
    refine ⟨⟨_, fun f hf => ⟨hcl f hf, hnum f hf⟩, hsent, ?_⟩, Nat.le_of_eq ht, fun _ => ht⟩
    rw [hgs, List.map_append]
    exact List.prefix_append ..

end

end Handshake

/-! ## Sockets on both sides -/

/-- Both sides have been given the sockets `ks`, and nothing else has happened. -/
def Handshake.connected (S : Type) {K : Type} [DecidableEq K] (c : SessionId) (fd : K → FileDescriptor) (ks : List K) :
    Handshake S K where
  sockets _ := { SocketState.start S K with tasks := fun k => if k ∈ ks then .posted (fd k) else .notAdded }
  ends s _ :=
    { buffer := fun _ => 0, exchanging := .before (exchange (s.clientSessionId c)), written := [], receiving := none,
      takenByExchange := 0, takenByLoop := 0, frames := [] }

/-- The step of a sender that takes a number. -/
def HandshakeLabel.selects {S K : Type} : HandshakeLabel S K → Bool
  | .socket _ (.select _) => true
  | _ => false

namespace Handshake

section
variable {S K : Type} [DecidableEq S] [DecidableEq K] {threads : Side → Nat} {c : SessionId} {fd : K → FileDescriptor}

omit [DecidableEq S] in
theorem unfinished_connected (ks : List K) (s : Side) :
    ((connected S c fd ks).sockets s).unfinished.encard ≤ ks.length := by
  have hsub : ((connected S c fd ks).sockets s).unfinished ⊆ (ks.toFinset : Set K) := by
    intro k hk
    rw [mem_unfinished] at hk
    by_contra hno
    have hno : k ∉ ks := by simpa using hno
    simp only [connected, if_neg hno] at hk
    cases hk
  refine (Set.encard_le_encard hsub).trans ?_
  rw [Set.encard_coe_eq_coe_finsetCard]
  exact_mod_cast ks.toFinset_card_le

variable (S threads c fd) in
theorem exists_connected (hfd : ∀ k, 0 ≤ (fd k).fd) {ks : List K} (hks : ks.Nodup) :
    ∃ tr, (pooled S K threads c).Run tr (connected S c fd ks) ∧
      ∀ t ∈ tr, Lasting t ∧ t.label.selects = false ∧ ((∀ s, ks.length ≤ threads s) → FitsPool threads t) := by
  induction ks with
  | nil =>
    refine ⟨[], .init ⟨fun _ => ?_, fun _ _ => rfl, fun _ _ => rfl, fun _ _ => rfl, fun _ _ => ⟨rfl, rfl⟩,
      fun _ _ => rfl⟩, fun _ ht => nomatch ht⟩
    simp [connected, SocketState.start]
  | cons k ks ih =>
    obtain ⟨hk, hks⟩ := List.nodup_cons.1 hks
    obtain ⟨tr, hr, htr⟩ := ih hks
    let x₁ := (connected S c fd ks).setSockets .client
      (((connected S c fd ks).sockets .client).setTask k (.posted (fd k)))
    have hno : ∀ s, ((connected S c fd ks).sockets s).tasks k = .notAdded := fun s => by simp [connected, hk]
    have hserver : x₁.sockets .server = (connected S c fd ks).sockets .server := setSockets_ne (by decide)
    have hr₁ : (pooled S K threads c).Run _ x₁ :=
      hr.step (pooled_socket rfl (.add (hno .client)) (fun _ _ => by simp) (fun _ _ _ => by simp))
    have hr₂ := hr₁.step (l := .socket .server (.add k (fd k))) (pooled_socket (by rw [hserver]; rfl)
      (.add (by rw [hserver]; exact hno .server)) (fun _ _ => by simp) (fun _ _ _ => by simp))
    have hx : x₁.setSockets .server ((x₁.sockets .server).setTask k (.posted (fd k))) = connected S c fd (k :: ks) := by
      have htasks : Function.update (fun k' => if k' ∈ ks then Task.posted (fd k') else .notAdded) k (.posted (fd k)) =
          fun k' => if k' ∈ k :: ks then .posted (fd k') else .notAdded := by
        funext k'
        by_cases hk' : k' = k
        · subst hk'
          simp
        · simp [hk']
      have hsockets : ∀ s, ((connected S c fd ks).sockets s).setTask k (.posted (fd k)) =
          (connected S c fd (k :: ks)).sockets s := fun s => by
        simp only [connected, SocketState.setTask, htasks]
      have hboth : (x₁.setSockets .server ((x₁.sockets .server).setTask k (.posted (fd k)))).sockets =
          (connected S c fd (k :: ks)).sockets := by
        funext s
        cases s with
        | client => exact (setSockets_ne (by decide)).trans (setSockets_self.trans (hsockets .client))
        | server => exact setSockets_self.trans (by rw [hserver]; exact hsockets .server)
      show Handshake.mk _ _ = Handshake.mk _ _
      exact congrArg (Handshake.mk · _) hboth
    rw [hx, List.append_assoc] at hr₂
    have hlt : (∀ s, (k :: ks).length ≤ threads s) → ∀ s,
        ((connected S c fd ks).sockets s).unfinished.encard < threads s := fun hle s =>
      (unfinished_connected ks s).trans_lt (by exact_mod_cast hle s)
    refine ⟨_, hr₂, fun t ht => ?_⟩
    simp only [List.mem_append, List.mem_singleton] at ht
    rcases ht with ht | rfl | rfl
    · obtain ⟨hlast, hsel, hfits⟩ := htr t ht
      exact ⟨hlast, hsel, fun hle => hfits fun s => (Nat.le_succ _).trans (hle s)⟩
    · refine ⟨⟨hfd k, id⟩, rfl, fun hle s k' fd' hl => ?_⟩
      cases hl
      exact hlt hle .client
    · refine ⟨⟨hfd k, id⟩, rfl, fun hle s k' fd' hl => ?_⟩
      cases hl
      show (x₁.sockets .server).unfinished.encard < _
      rw [hserver]
      exact hlt hle .server

end

end Handshake

/-! ## A frame from the client to the server -/

/-- The sockets alone, from the state `z` on, without the steps of an exchange. -/
def Handshake.alone {S K : Type} [DecidableEq S] [DecidableEq K] (client : Option SessionId) (z : SocketState S K) :
    Machine (SocketState S K) (SocketLabel S K) where
  init y := y = z
  step y l y' := y.crash = none ∧ SocketStep client y l y' ∧ (∀ k io, l ≠ .exchange k io) ∧
    ∀ k getfl setfl, l ≠ .start k getfl setfl

namespace Handshake

section
variable {S K : Type} [DecidableEq S] [DecidableEq K] {threads : Side → Nat} {c : SessionId} {x : Handshake S K}
  {tr : List (Machine.Transition (Handshake S K) (HandshakeLabel S K))}

omit [DecidableEq S] [DecidableEq K] in
theorem Exchanges.selects {k : K} {l : HandshakeLabel S K} (h : Exchanges k l) : l.selects = false := by
  obtain ⟨s, getfl, setfl, rfl⟩ | ⟨s, io, rfl⟩ | ⟨s, ev, rfl⟩ := h.2 <;> rfl

omit [DecidableEq S] [DecidableEq K] in
theorem selects_none {tr : List (Machine.Transition (Handshake S K) (HandshakeLabel S K))}
    (h : ∀ t ∈ tr, t.label.selects = false) : tr.countP (·.label.selects) = 0 :=
  List.countP_eq_zero.2 fun t ht => Bool.not_eq_true _ ▸ h t ht

omit [DecidableEq S] in
/-- A side draws no more numbers than its senders select. -/
theorem stamps_le (s : Side) (tr : List (Machine.Transition (Handshake S K) (HandshakeLabel S K))) :
    ((trace s tr).filterMap stamp).length ≤ tr.countP (·.label.selects) := by
  simp only [trace, Machine.project, List.filterMap_filterMap, List.length_filterMap_eq_countP]
  refine List.countP_mono_left fun t _ h => ?_
  obtain ⟨a, ha⟩ := Option.isSome_iff_exists.1 h
  obtain ⟨u, hu, hst⟩ := Option.bind_eq_some_iff.1 ha
  obtain ⟨l, hl, rfl⟩ := Option.map_eq_some_iff.1 hu
  obtain ⟨i, buf, hsel, -⟩ := stamp_some hst
  rw [share_eq hl, show l = .select i from hsel]
  rfl

omit [DecidableEq S] [DecidableEq K] in
/-- A step that gives a side no socket. -/
theorem calm {t : Machine.Transition (Handshake S K) (HandshakeLabel S K)} {l : HandshakeLabel S K} (ht : t.label = l)
    (hi : l.Intact) (hl : ¬ l.EndsLoop) (hadd : ∀ s k fd, l ≠ .socket s (.add k fd)) :
    Lasting t ∧ FitsPool threads t :=
  ⟨⟨ht ▸ hi, ht ▸ hl⟩, fun s k fd he => absurd (ht.symm.trans he) (hadd s k fd)⟩

theorem run_alone (h : (pooled S K threads c).Run tr x) {s : Side} {z y : SocketState S K} (hz : x.sockets s = z)
    {tr' : List (Machine.Transition (SocketState S K) (SocketLabel S K))}
    (h' : (alone (s.clientSessionId c) z).Run tr' y) :
    ∃ tr'', (pooled S K threads c).Run (tr ++ tr'') (x.setSockets s y) ∧
      tr''.map (·.label) = (tr'.map (·.label)).map (.socket s) := by
  induction h' with
  | @init y hy =>
    refine ⟨[], ?_, rfl⟩
    have hsame : x.setSockets s y = x := by
      rw [show y = x.sockets s from Eq.trans hy hz.symm, setSockets, Function.update_eq_self]
    rwa [List.append_nil, hsame]
  | @step tr' y l y' _ hs ih =>
    obtain ⟨tr'', hr, hl⟩ := ih
    obtain ⟨hc, hstep, hex, hst⟩ := hs
    have hr' := hr.step (pooled_socket (y := y') (by rw [setSockets_self]; exact hc)
      (by rw [setSockets_self]; exact hstep) hex hst)
    have hidem : (x.setSockets s y).setSockets s y' = x.setSockets s y' := by simp [setSockets]
    rw [hidem, List.append_assoc] at hr'
    exact ⟨_, hr', by simp [hl]⟩

end

/-- Both streams are registered, and a frame goes out on the first. -/
theorem exists_client (c : SessionId) {st : Bool → TunnelFrameStream} (hst : 0 ≤ (st false).fd.fd)
    {f : TunnelFrameBuffer} (hf : 0 < f.size) :
    ∃ tr y ev, (alone (S := Unit) (some c) { SocketState.start Unit Bool with
        tasks := fun k => .exchanged (st k) (Side.client.result c) }).Run tr y ∧
      tr.map (·.label) = [.register false, .register true, .call () f, .select (), .io () ev, .complete () none] ∧
      ev.Smooth id ∧ y.crash = none ∧ (∀ k, y.tasks k = .receiving c) ∧
      y.wire false = (TunnelFrameWriter.setSequenceNumberOnClosedBuffer f 1).bytes := by
  have hno : ∀ {y : SocketState Unit Bool} {a}, y.senders () = a → (∀ obj buf st n, a ≠ .waiting obj buf st n) →
      ¬ y.Shared := by
    rintro y a hy ha ⟨⟨⟩, _, _, _, _, hw⟩
    exact ha _ _ _ _ (hy.symm.trans hw)
  obtain ⟨tr, y, hr, hls, hi, hsess, htrack, htasks, hwire, hc⟩ : ∃ tr y, (alone (S := Unit) (some c)
      { SocketState.start Unit Bool with tasks := fun k => .exchanged (st k) (Side.client.result c) }).Run tr y ∧
      tr.map (·.label) = [.register false, .register true] ∧ y.senders () = .idle ∧
      y.map.sessions = [⟨0, c, 1, [false, true]⟩] ∧ y.map.trackers false = ⟨st false, false, 0, 0⟩ ∧
      (∀ k, y.tasks k = .receiving c) ∧ y.wire false = [] ∧ y.crash = none := by
    have hr := Machine.Run.init (M := alone (some c) { SocketState.start Unit Bool with
      tasks := fun k => .exchanged (st k) (Side.client.result c) }) rfl
    have hr := hr.step (l := .register false)
      ⟨rfl, .register rfl (hno (a := .idle) rfl fun _ _ _ _ => by simp) rfl, fun _ _ => by simp, fun _ _ _ => by simp⟩
    have hr := hr.step (l := .register true) ⟨rfl, .register rfl (hno (a := .idle) rfl fun _ _ _ _ => by simp)
      (SessionsMap.register_join (s := ⟨0, c, 1, [false]⟩) rfl _ _), fun _ _ => by simp, fun _ _ _ => by simp⟩
    exact ⟨_, _, hr, rfl, rfl, rfl, rfl, fun k => by cases k <;> rfl, rfl, rfl⟩
  -- The frame gets the number 1.
  have hr := hr.step (l := .call () f) ⟨hc, .call hi, fun _ _ => by simp, fun _ _ _ => by simp⟩
  have hentered : (y.setSender () (.entered f)).senders () = .entered f := setSender_self
  have hsel : (y.setSender () (.entered f)).map.select f = .take _ _ _ _ :=
    SessionsMap.select_first hsess rfl (by rw [setSender_map, htrack])
  obtain ⟨x₁, ev, x₂, x₃, s', res, hsend, -⟩ := sendOnce (some c) hentered hsel hf
    (by rw [setSender_map, htrack]; exact hst) (hno hentered fun _ _ _ _ => by simp) true
  obtain ⟨hc₁, hc₂, hc₃⟩ := hsend.crash
  obtain ⟨hsm, hout⟩ := hsend.whole rfl
  have hr := hr.step (l := .select ()) ⟨hc, hsend.select, fun _ _ => by simp, fun _ _ _ => by simp⟩
  have hr := hr.step (l := .io () ev) ⟨hc₁.trans hc, hsend.io, fun _ _ => by simp, fun _ _ _ => by simp⟩
  have hr := hr.step (l := .complete () none) ⟨hc₂.trans hc, hsend.complete, fun _ _ => by simp, fun _ _ _ => by simp⟩
  refine ⟨_, x₃, ev, hr, by simp [hls], hsm, hc₃.trans hc, fun k => ?_, ?_⟩
  · rw [hsend.tasks]
    exact htasks k
  · rw [hout, Function.update_self, setSender_wire, hwire]
    rfl

/-- The first stream is registered. -/
theorem exists_server (c : SessionId) (st : Bool → TunnelFrameStream) :
    ∃ tr y, (alone (S := Unit) none { SocketState.start Unit Bool with
        tasks := fun k => .exchanged (st k) (Side.server.result c) }).Run tr y ∧
      tr.map (·.label) = [.register false] ∧ y.crash = none ∧ y.interrupted = false ∧
      y.tasks false = .receiving c ∧ y.tasks true = .exchanged (st true) (Side.server.result c) := by
  have hr := Machine.Run.init (M := alone (S := Unit) none { SocketState.start Unit Bool with
    tasks := fun k => .exchanged (st k) (Side.server.result c) }) rfl
  have hr := hr.step (l := .register false) ⟨rfl, .register rfl (by rintro ⟨⟨⟩, _, _, _, _, ⟨⟩⟩) rfl,
    fun _ _ => by simp, fun _ _ _ => by simp⟩
  exact ⟨_, _, hr, rfl, rfl, rfl, rfl, rfl⟩

/-- A frame on its way to a side is received by its loop, in two reads. -/
theorem run_receives {S K : Type} [DecidableEq S] [DecidableEq K] {threads : Side → Nat} {c : SessionId}
    {x : Handshake S K} {tr : List (Machine.Transition (Handshake S K) (HandshakeLabel S K))} {s : Side} {k : K}
    {sid : SessionId} {f : TunnelFrameBuffer} {ds : List (List UInt8)} (h : (pooled S K threads c).Run tr x)
    (hc : (x.sockets s).crash = none) (htask : (x.sockets s).tasks k = .receiving sid)
    (hint : (x.sockets s).interrupted = false) (he : (x.ends s k).receiving = none) (hcl : f.Closed ds)
    (hu : x.underway s k = f.bytes) :
    ∃ tr' x', (pooled S K threads c).Run (tr ++ tr') x' ∧
      (∀ t ∈ tr', t.label.Intact ∧ ∃ ev, t.label = .receive s k ev) ∧
      x'.sockets = x.sockets ∧ (x'.ends s k).frames = (x.ends s k).frames ++ [f.bytes] := by
  have hsz := sizes
  have hlt : sizeofTunnelFrameHeaderInfo < f.size := by
    have := hcl.header_le
    omega
  have hlen := f.bytes_length
  obtain ⟨fd, hfd⟩ : ∃ fd, fd = ((x.sockets s).map.trackers k).stream.fd := ⟨_, rfl⟩
  obtain ⟨m₁, m₂, hfirst, hsecond, hbytes⟩ := receive_whole ⟨fd, (x.ends s k).buffer⟩ f hlt hcl.checkedSize
  have hunder : ∀ {y : Handshake S K} {e : Endpoint}, y.sent s.other k = x.sent s.other k →
      (y.setEnd s k e).underway s k = (x.sent s.other k).drop (e.takenByExchange + e.takenByLoop) := by
    intro y e hy
    rw [← hy, underway, sent, setEnd_ne fun hsk => s.other_ne hsk.1, taken, setEnd_self, setEnd_sockets, sent]
  have hsent : ∀ {y : Handshake S K} {e : Endpoint}, (y.setEnd s k e).sent s.other k = y.sent s.other k := by
    intro y e
    rw [sent, setEnd_ne fun hsk => s.other_ne hsk.1, setEnd_sockets, sent]
  -- A call of `receive`, the header, the rest, and the return.
  let e₁ : Endpoint := { x.ends s k with receiving := some (TunnelFrameStream.mk fd (x.ends s k).buffer).receive }
  let e₂ : Endpoint := { e₁ with
    buffer := m₁, receiving := some (.body sizeofTunnelFrameHeaderInfo f.size .call),
    takenByLoop := e₁.takenByLoop + (f.bytes.take sizeofTunnelFrameHeaderInfo).length }
  let e₃ : Endpoint := { e₂ with
    buffer := m₂, receiving := some (.returned ⟨m₂, f.size⟩),
    takenByLoop := e₂.takenByLoop + (f.bytes.drop sizeofTunnelFrameHeaderInfo).length }
  let e₄ : Endpoint := { e₃ with receiving := none, frames := e₃.frames ++ [(TunnelFrameBuffer.mk m₂ f.size).bytes] }
  have htook : e₂.takenByExchange + e₂.takenByLoop = x.taken s k + sizeofTunnelFrameHeaderInfo := by
    simp only [e₂, e₁, taken, List.length_take, hlen, Nat.min_eq_left (Nat.le_of_lt hlt), Nat.add_assoc]
  have hr₁ : (pooled S K threads c).Run _ (x.setEnd s k e₁) := h.step (l := HandshakeLabel.receive s k .tau)
    (pooled_receive hc (.receive htask List.nil_prefix (by rw [hint, ← hfd]; simp [Endpoint.receiveStep, he, e₁])))
  have hr₂ : (pooled S K threads c).Run _ ((x.setEnd s k e₁).setEnd s k e₂) := hr₁.step
    (l := HandshakeLabel.receive s k (.read (.call (.ok (f.bytes.take sizeofTunnelFrameHeaderInfo)))))
    (pooled_receive hc (.receive htask (by
      rw [hunder rfl]
      exact hu ▸ List.take_prefix _ _) (by
      rw [setEnd_self, setEnd_sockets, ← hfd]
      simp only [Endpoint.receiveStep, e₁, hfirst]
      rfl)))
  have hr₃ : (pooled S K threads c).Run _ (((x.setEnd s k e₁).setEnd s k e₂).setEnd s k e₃) :=
    hr₂.step (l := HandshakeLabel.receive s k (.read (.call (.ok (f.bytes.drop sizeofTunnelFrameHeaderInfo)))))
      (pooled_receive hc (.receive htask (by
        rw [hunder hsent, htook, ← List.drop_drop, show (x.sent s.other k).drop (x.taken s k) = f.bytes from hu]
        exact List.prefix_rfl) (by
        rw [setEnd_self, setEnd_sockets, setEnd_sockets, ← hfd]
        simp only [Endpoint.receiveStep, e₂, hsecond]
        rfl)))
  have hr₄ : (pooled S K threads c).Run _ ((((x.setEnd s k e₁).setEnd s k e₂).setEnd s k e₃).setEnd s k e₄) :=
    hr₃.step (l := HandshakeLabel.receive s k .tau) (pooled_receive hc (.receive htask List.nil_prefix (by
      rw [setEnd_self]
      simp only [Endpoint.receiveStep, e₃]
      rfl)))
  simp only [List.append_assoc] at hr₄
  refine ⟨_, _, hr₄, ?_, rfl, ?_⟩
  · simp only [List.mem_append, List.mem_singleton]
    rintro t (rfl | rfl | rfl | rfl)
    · exact ⟨trivial, _, rfl⟩
    · exact ⟨show 0 < (f.bytes.take _).length by rw [List.length_take, hlen]; omega, _, rfl⟩
    · exact ⟨show 0 < (f.bytes.drop _).length by rw [List.length_drop, hlen]; omega, _, rfl⟩
    · exact ⟨trivial, _, rfl⟩
  · rw [setEnd_self, ← hbytes]

end Handshake

/-! ## Agreement -/

/-- **The handshake agrees.** In every run of a client and its server, over any
number of connections, as long as no operation on a descriptor fails and no side
has more sockets than threads in its pool: an exchange that ends returns the
client's session id and the name in the other's initial frame; every session is
the client's; what goes over a connection in either direction is the initial
frame, with the number 0 and taken by the exchange, and then frames with numbers
from 1 on, taken by the receive loop; neither side crashes while no loop ends; the
exchanges on a connection take only so many steps other than polls and calls that
would have blocked; and while not both are complete one of them can go on. -/
theorem handshake_agreement {S K : Type} [DecidableEq S] [DecidableEq K] {threads : Side → Nat} {c : SessionId}
    {tr : List (Machine.Transition (Handshake S K) (HandshakeLabel S K))} {x : Handshake S K}
    (h : (pooled S K threads c).Run tr x) (hi : ∀ t ∈ tr, t.label.Intact)
    (hn : ∀ s, ((trace s tr).filterMap stamp).length < 2 ^ 64 - 1) (hf : ∀ t ∈ tr, FitsPool threads t) :
    (∀ t ∈ tr, ∀ s k io, t.label = .socket s (.exchange k io) →
      initialTunnelFrameExchange (s.clientSessionId c) io =
        .ok { identifier := chars s.other.identifier, sessionId := c }) ∧
    (∀ s k sid, ((x.sockets s).tasks k).sessionId = some sid → sid = c) ∧
    (∀ s : Side, (s.frame c).Closed [chars s.identifier ++ [0]] ∧ (s.frame c).seqNum = 0) ∧
    (∀ s k, x.InOrder c s k) ∧
    ((∀ t ∈ tr, ¬ t.label.EndsLoop) → ∀ s, (x.sockets s).crash = none) ∧
    (∀ k, tr.countP (fun t => t.label.exchanges k) ≤ 2 * (exchangeWork + 2)) ∧
    ∀ k, (∀ s, (x.sockets s).crash = none) → (∀ s, (x.sockets s).tasks k ≠ .notAdded) →
      (∀ s, ((x.sockets s).tasks k).Agreed s c) ∨ Handshake.GoesOn threads c k x := by
  have hrun := h.of_restrict.1
  have hag := run_agrees hrun hi
  refine ⟨fun t ht s k io hl => ?_, fun s k sid hk => hag.sessionId hk,
    fun s => ⟨s.frame_closed c, (s.frame_ok c).2.2.2⟩,
    run_inOrder hrun hi hn, run_uncrashed hrun hi, run_exchanges_le hrun hi,
      fun k hc hadd => hag.goesOn (run_feeds hrun hi) hc (run_unfinished_le h hf) hadd⟩
  -- The run up to the end of the exchange.
  obtain ⟨l₁, l₂, rfl⟩ := List.append_of_mem ht
  obtain ⟨hr, hs⟩ := hrun.before
  have hs := hs.2
  rw [hl] at hs
  exact (run_agrees hr fun u hu => hi u (List.mem_append_left _ hu)).exchanged hs

/-- Two connections, both past their exchanges, and on the first a frame that the
client sent and the server's loop received. -/
theorem handshake_agreement_two : ∃ (c : SessionId) (f : TunnelFrameBuffer) (tr : _) (x : _),
    (pooled Unit Bool (fun _ => 2) c).Run tr x ∧ (∀ s k, ((x.sockets s).tasks k).Agreed s c) ∧
    (∀ s, (x.sockets s).crash = none) ∧ f.seqNum = 1 ∧
    (x.ends .server false).frames = [f.bytes] ∧ ∀ s k, x.InOrder c s k := by
  let c : SessionId := ⟨List.replicate 16 7, rfl⟩
  let fd : Bool → FileDescriptor := fun k => ⟨"socket", if k then 4 else 3⟩
  obtain ⟨tr₁, hr₁, htr₁⟩ := exists_connected Unit (fun _ => 2) c fd (fun k => by cases k <;> decide)
    (show [false, true].Nodup by decide)
  have hlast₁ : ∀ t ∈ tr₁, Lasting t := fun t ht => (htr₁ t ht).1
  obtain ⟨tr₂, x₂, h₂, hag₂⟩ := run_completes (k := false) hr₁ hlast₁ (unfinished_connected _) fun s => by
    simp [connected]
  obtain ⟨tr₃, x₃, h₃, hag₃⟩ := run_completes (k := true) h₂.run (h₂.intact hlast₁) (h₂.room (unfinished_connected _))
    fun s => by
      obtain ⟨t, hx, -⟩ := h₂.apart.sockets s
      rw [hx, setTask_ne (by decide)]
      simp [connected]
  have hx₃ : ∀ s, ∃ st : Bool → TunnelFrameStream, x₃.sockets s = { SocketState.start Unit Bool with
      tasks := fun k => .exchanged (st k) (s.result c) } ∧ ∀ k, (st k).fd = fd k := by
    intro s
    obtain ⟨t₁, e₁, d₁⟩ := h₂.apart.sockets s
    obtain ⟨t₂, e₂, d₂⟩ := h₃.apart.sockets s
    have a₁ := hag₂ s
    have a₂ := hag₃ s
    rw [e₁, setTask_self] at a₁
    rw [e₂, setTask_self] at a₂
    rw [e₁, setTask_ne (by decide)] at d₂
    obtain ⟨st₁, rfl, hfd₁⟩ := a₁.exchanged d₁
    obtain ⟨st₂, rfl, hfd₂⟩ := a₂.exchanged d₂
    refine ⟨fun k => if k then st₂ else st₁, ?_, fun k => by cases k <;> assumption⟩
    rw [e₂, e₁]
    simp only [connected, SocketState.setTask, SocketState.mk.injEq, true_and, and_true]
    funext k
    cases k <;> rfl
  obtain ⟨stc, hxc, hfdc⟩ := hx₃ .client
  obtain ⟨sts, hxs, -⟩ := hx₃ .server
  -- The client registers both streams and sends; the server registers one.
  obtain ⟨f, -, hcl, hsize⟩ := exists_fromWriter
  have hopen : 0 ≤ (stc false).fd.fd := by
    rw [hfdc]
    decide
  obtain ⟨tr, yc, ev, hrc, hlc, hsm, hcc, htc, hwc⟩ := exists_client c hopen (show 0 < f.size by omega)
  obtain ⟨tr₄, hr₄, hl₄⟩ := run_alone h₃.run hxc hrc
  obtain ⟨trs, ys, hrs, hls, hcs, hint, htf, htt⟩ := exists_server c sts
  obtain ⟨tr₅, hr₅, hl₅⟩ := run_alone (s := .server) hr₄ ((setSockets_ne (by decide)).trans hxs) hrs
  have hall : ∀ t ∈ tr₁ ++ tr₂ ++ tr₃ ++ tr₄ ++ tr₅, Lasting t ∧ FitsPool (fun _ => 2) t := by
    intro t ht
    simp only [List.mem_append] at ht
    rcases ht with (((ht | ht) | ht) | ht) | ht
    · exact ⟨(htr₁ t ht).1, (htr₁ t ht).2.2 fun _ => Nat.le_refl 2⟩
    · exact ⟨(h₂.exchanges t ht).lasting, (h₂.exchanges t ht).fitsPool⟩
    · exact ⟨(h₃.exchanges t ht).lasting, (h₃.exchanges t ht).fitsPool⟩
    · have hmem := List.mem_map_of_mem (f := (·.label)) ht
      rw [hl₄, hlc] at hmem
      simp only [List.map_cons, List.map_nil, List.mem_cons, List.not_mem_nil, or_false] at hmem
      rcases hmem with hl | hl | hl | hl | hl | hl
      · exact calm hl trivial id (by simp)
      · exact calm hl trivial id (by simp)
      · exact calm hl ⟨_, hcl⟩ id (by simp)
      · exact calm hl trivial id (by simp)
      · exact calm hl hsm id (by simp)
      · exact calm hl trivial id (by simp)
    · have hmem := List.mem_map_of_mem (f := (·.label)) ht
      rw [hl₅, hls] at hmem
      exact calm (List.mem_singleton.1 hmem) trivial id (by simp)
  -- The client's frame is what the server's loop has not taken yet.
  obtain ⟨x₅, hx₅⟩ : ∃ y, y = (x₃.setSockets .client yc).setSockets .server ys := ⟨_, rfl⟩
  rw [← hx₅] at hr₅
  have hserver : x₅.sockets .server = ys := by rw [hx₅, setSockets_self]
  have hclient : x₅.sockets .client = yc := by rw [hx₅, setSockets_ne (by decide), setSockets_self]
  have htask : (x₅.sockets .server).tasks false = .receiving c := by rw [hserver, htf]
  have hends : x₅.ends = x₃.ends := by rw [hx₅]; rfl
  obtain ⟨hnone, hframes, hzero⟩ : (x₅.ends .server false).receiving = none ∧ (x₅.ends .server false).frames = [] ∧
      (x₅.ends .server false).takenByLoop = 0 := by
    obtain ⟨h₁, h₂', h₃'⟩ := h₃.apart.loops .server false
    obtain ⟨h₁', h₂'', h₃''⟩ := h₂.apart.loops .server false
    rw [hends]
    exact ⟨h₁.trans h₁', h₂'.trans h₂'', h₃'.trans h₃''⟩
  have hag := run_agrees hr₅.of_restrict.1 fun t ht => (hall t ht).1.1
  have hu : x₅.underway .server false = (TunnelFrameWriter.setSequenceNumberOnClosedBuffer f 1).bytes := by
    have hwritten : (x₅.ends .client false).written = (Side.client.frame c).bytes := by
      cases hag.stands .client false with
      | exchanging he _ _ _ _ _ => rw [hclient, htc] at he; cases he
      | past _ hw _ _ _ => exact hw
    have htook : (x₅.ends .server false).takenByExchange = (Side.client.frame c).size := by
      cases hag.stands .server false with
      | exchanging he _ _ _ _ _ => rw [htask] at he; cases he
      | past _ _ ht _ _ => exact ht
    rw [underway, taken, hzero, htook, Nat.add_zero, ← TunnelFrameBuffer.bytes_length]
    show List.drop _ ((x₅.ends .client false).written ++ (x₅.sockets .client).wire false) = _
    rw [hwritten, hclient, hwc, List.drop_left]
  obtain ⟨tr₆, x, hr, hl₆, hsockets, hgot⟩ := run_receives hr₅ (by rw [hserver, hcs]) htask (by rw [hserver, hint])
    hnone (hcl.setSequenceNumber 1) hu
  have hall₆ : ∀ t ∈ tr₆, Lasting t ∧ FitsPool (fun _ => 2) t := fun t ht => by
    obtain ⟨hi, ev, hl⟩ := hl₆ t ht
    exact calm hl (hl ▸ hi) id (by simp)
  have hevery : ∀ t ∈ tr₁ ++ tr₂ ++ tr₃ ++ tr₄ ++ tr₅ ++ tr₆, Lasting t ∧ FitsPool (fun _ => 2) t := by
    intro t ht
    rcases List.mem_append.1 ht with ht | ht
    · exact hall t ht
    · exact hall₆ t ht
  -- One frame has been numbered.
  have hone : ∀ s, ((trace s (tr₁ ++ tr₂ ++ tr₃ ++ tr₄ ++ tr₅ ++ tr₆)).filterMap stamp).length < 2 ^ 64 - 1 := by
    intro s
    refine Nat.lt_of_le_of_lt (stamps_le s _) ?_
    have h₄ : tr₄.countP (·.label.selects) = 1 := by
      have := List.countP_map (p := HandshakeLabel.selects) (f := (·.label)) (l := tr₄)
      rw [hl₄, hlc] at this
      exact this.symm
    have h₅ : tr₅.countP (·.label.selects) = 0 := by
      have := List.countP_map (p := HandshakeLabel.selects) (f := (·.label)) (l := tr₅)
      rw [hl₅, hls] at this
      exact this.symm
    rw [List.countP_append, List.countP_append, List.countP_append, List.countP_append, List.countP_append,
      selects_none fun t ht => (htr₁ t ht).2.1, selects_none fun t ht => (h₂.exchanges t ht).selects,
      selects_none fun t ht => (h₃.exchanges t ht).selects, h₄, h₅, selects_none fun t ht => ?_]
    · decide
    · obtain ⟨-, ev, hl⟩ := hl₆ t ht
      rw [hl]
      rfl
  obtain ⟨-, -, -, hord, hcrash, -⟩ := handshake_agreement hr (fun t ht => (hevery t ht).1.1) hone
    fun t ht => (hevery t ht).2
  refine ⟨c, _, _, x, hr, fun s k => ?_, hcrash fun t ht => (hevery t ht).1.2, seqNum_setSequenceNumber f 1, ?_, hord⟩
  · rw [hsockets]
    cases s with
    | client => rw [hclient, htc]; rfl
    | server =>
      rw [hserver]
      cases k with
      | false => rw [htf]; rfl
      | true => rw [htt]; rfl
  · rw [hgot, hframes]
    rfl

/-- Three connections, and two threads on each side: while all stay, a task is
left posted. -/
theorem handshake_starved : ∃ c tr x, (pooled Unit (Fin 3) (fun _ => 2) c).Run tr x ∧ (∀ t ∈ tr, Lasting t) ∧
    (∀ s k, (x.sockets s).tasks k ≠ .notAdded) ∧
    ∀ tr' x', (pooled Unit (Fin 3) (fun _ => 2) c).Run (tr ++ tr') x' → (∀ t ∈ tr', Lasting t) →
      ∀ s, ∃ k fd, (x'.sockets s).tasks k = .posted fd := by
  let c : SessionId := ⟨List.replicate 16 7, rfl⟩
  obtain ⟨tr, hr, htr⟩ := exists_connected Unit (fun _ => 2) c
    (fun k : Fin 3 => ⟨"socket", 3 + k.val⟩) (fun k => by simp; omega) (List.nodup_finRange 3)
  refine ⟨c, tr, _, hr, fun t ht => (htr t ht).1, fun s k => ?_, fun tr' x' hr' htr' s => ?_⟩
  · simp [connected]
  · have hne : tr ≠ [] := by
      rintro rfl
      have := congrFun (congrArg SocketState.tasks (Handshake.Starts.sockets hr.of_nil .client)) 0
      simp [connected, SocketState.start] at this
    obtain ⟨tr₀, t, rfl⟩ := (List.eq_nil_or_concat tr).resolve_left hne
    rw [List.concat_eq_append] at hr htr hr'
    rw [List.append_assoc] at hr'
    refine overfull_posted hr' (fun u hu => ?_) ?_
    · rcases List.mem_append.1 ((List.append_assoc tr₀ [t] tr').symm ▸ hu) with hu | hu
      · exact (htr u hu).1
      · exact htr' u hu
    · have hall : ((connected Unit c (fun k : Fin 3 => ⟨"socket", 3 + k.val⟩) (List.finRange 3)).sockets s).unfinished =
          Set.univ := Set.eq_univ_of_forall fun k => by simp [mem_unfinished, connected, Task.unfinished]
      rw [hr.last, hall, Set.encard_univ, ENat.card_eq_coe_fintype_card, Fintype.card_fin]
      decide

end RuralPipe
