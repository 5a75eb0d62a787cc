/-
Every exchange completes.

An exchange has so many calls and bytes left (`left`), and a step of it, unless a
poll or a call that would have blocked, leaves less. A side that cannot go on
waits for bytes that the other has not put on the connection yet, or for a thread
of its pool. With a thread for every socket it is the bytes, so not both wait: the
client's frame is out before the client waits (`Agrees.goesOn`).
-/
import RuralPipe.ThreadPool

namespace RuralPipe

open SocketState Handshake

/-! ## What is left -/

/-- Two calls, each begun and ended, and the bytes of two initial frames. -/
def exchangeWork : Nat := 4 + 2 * 176

theorem Exchanging.left_le (s : Side) (c : SessionId) (put given : Nat) (e : Exchanging) :
    e.left s c put given ≤ exchangeWork := by
  have hcalls : e.calls put given ≤ 4 := by
    cases e <;> simp only [Exchanging.calls] <;> split <;> (try split) <;> omega
  have := s.frame_size c
  have := s.other.frame_size c
  simp only [Exchanging.left, exchangeWork]
  omega

/-- What is left to a task, with `n` left of the exchange it is in. -/
def Task.left (n : Nat) : Task → Nat
  | .notAdded => exchangeWork + 2
  | .posted _ => exchangeWork + 2
  | .exchanging _ => n + 1
  | _ => 0

/-- The steps of the exchanges of `k`, without polls and calls that would have
blocked. -/
def HandshakeLabel.exchanges {S K : Type} [DecidableEq K] (k : K) : HandshakeLabel S K → Bool
  | .socket _ (.start k' _ _) => k' = k
  | .socket _ (.exchange k' _) => k' = k
  | .exchange _ k' ev => k' = k && ev.progress
  | _ => false

namespace Handshake

section
variable {S K : Type} [DecidableEq K]

/-- What is left to a side of its exchange on a connection. -/
def left (c : SessionId) (s : Side) (k : K) (x : Handshake S K) : Nat :=
  ((x.sockets s).tasks k).left
    ((x.ends s k).exchanging.left s c (x.ends s k).written.length (x.ends s k).takenByExchange)

variable [DecidableEq S] {client : Option SessionId} {y y' : SocketState S K} {l : SocketLabel S K}

/-- The beginning and the end of an exchange are the steps of it that a task
takes. -/
theorem task_left {n : Nat} (hn : n ≤ exchangeWork) (hs : SocketStep client y l y') (hi : l.Intact) (s : Side) (k : K)
    (hok : ∀ k' io, l = .exchange k' io → ∃ ier, initialTunnelFrameExchange client io = .ok ier) :
    (y'.tasks k).left n + (if (HandshakeLabel.socket s l).exchanges k then 1 else 0) ≤ (y.tasks k).left n := by
  rcases task_step hs k with ⟨hno, heq⟩ | ⟨hk, ht⟩
  · have hne : ¬ (HandshakeLabel.socket s l).exchanges k = true := by
      cases l <;> simp_all [HandshakeLabel.exchanges, SocketLabel.task]
    rw [heq, if_neg hne]
    exact Nat.le_refl _
  · generalize y.tasks k = t at ht ⊢
    generalize y'.tasks k = t' at ht ⊢
    cases ht with
    | start hnb =>
      cases hk
      simp only [HandshakeLabel.exchanges, decide_true, if_true, Task.left]
      omega
    | startThrows hnb => cases hi.symm.trans hnb
    | exchange hex =>
      cases hk
      simp only [HandshakeLabel.exchanges, decide_true, if_true, Task.left]
      omega
    | exchangeThrows hex =>
      obtain ⟨ier, hok⟩ := hok _ _ rfl
      cases hok.symm.trans hex
    | exchangeAborts hex =>
      obtain ⟨ier, hok⟩ := hok _ _ rfl
      cases hok.symm.trans hex
    | _ => exact Nat.le_refl _

end

section
variable {S K : Type} [DecidableEq S] [DecidableEq K] {c : SessionId} {x x' : Handshake S K} {l : HandshakeLabel S K}

theorem left_sockets {s₁ : Side} {l : SocketLabel S K} {y : SocketState S K}
    (hs : SocketStep (s₁.clientSessionId c) (x.sockets s₁) l y) (hi : l.Intact)
    (hok : ∀ k io, l = .exchange k io → ∃ ier, initialTunnelFrameExchange (s₁.clientSessionId c) io = .ok ier)
    (s : Side) (k : K) :
    left c s k (x.setSockets s₁ y) +
      (if s₁ = s ∧ (HandshakeLabel.socket s₁ l).exchanges k = true then 1 else 0) ≤ left c s k x := by
  by_cases hss : s = s₁
  · subst hss
    have hstep := task_left (Exchanging.left_le s c (x.ends s k).written.length (x.ends s k).takenByExchange
      (x.ends s k).exchanging) hs hi s k hok
    simp only [left, setSockets_self, setSockets_ends, true_and]
    exact hstep
  · rw [if_neg fun hh => hss hh.1.symm, left, left, setSockets_ne hss, setSockets_ends]
    exact Nat.le_refl _

/-- A step leaves less to the side that takes it, if it is one of the exchange, and
no more to the other. -/
theorem Agrees.left_step (h : x.Agrees c) (hx : x.Feeds) (hs : HandshakeStep c x l x')
    (hi : l.Intact) (s : Side) (k : K) :
    left c s k x' + (if l.side = s ∧ l.exchanges k = true then 1 else 0) ≤ left c s k x := by
  cases hs with
  | @socket s₁ l y hl hs => exact left_sockets hs hi (fun k io he => absurd he (hl k io)) s k
  | @finish s₁ k₁ io res y hend hex hs =>
    refine left_sockets hs hi (fun k io he => ?_) s k
    cases he
    exact ⟨_, h.exchanged (.finish hend hex hs)⟩
  | @exchange s₁ k₁ ev stream stream' e out htask hbs hst =>
    by_cases hsk : s = s₁ ∧ k = k₁
    · obtain ⟨rfl, rfl⟩ := hsk
      obtain ⟨fs, hfs, -⟩ := hx.closed s.other k
      obtain ⟨more, hmore⟩ := h.more (hx.fresh s.other) hfs hbs
      cases h.stands s k with
      | exchanging he hstands hfirst hr hfr hloop =>
        have hlen : (x.given s k).length = (x.ends s k).takenByExchange := by
          rw [given, List.length_take, Nat.min_eq_left (h.taken s k), Handshake.taken, hloop, Nat.add_zero]
        have hstep := hstands.left_step hst hi ⟨more, _, hmore⟩
        have hmoved : (x.given s k ++ ev.bytes).length = (x.ends s k).takenByExchange + ev.bytes.length := by
          rw [List.length_append, hlen]
        rw [hmoved, hlen] at hstep
        simp only [left, setEnd_self, setEnd_sockets, htask, Task.left, HandshakeLabel.side, HandshakeLabel.exchanges,
          decide_true, Bool.true_and, true_and]
        omega
      | past ha hw ht hg hl => exact absurd htask (ha.ne_exchanging stream)
    · have hne : ¬ ((HandshakeLabel.exchange (S := S) s₁ k₁ ev).side = s ∧
          (HandshakeLabel.exchange (S := S) s₁ k₁ ev).exchanges k = true) := by
        rintro ⟨rfl, hk⟩
        simp only [HandshakeLabel.exchanges, Bool.and_eq_true, decide_eq_true_eq] at hk
        exact hsk ⟨rfl, hk.1.symm⟩
      rw [if_neg hne, left, left, setEnd_ne hsk, setEnd_sockets]
      exact Nat.le_refl _
  | @receive s₁ k₁ ev sid e htask hbs hst =>
    have hno : ¬ ((HandshakeLabel.receive (S := S) s₁ k₁ ev).side = s ∧
        (HandshakeLabel.receive (S := S) s₁ k₁ ev).exchanges k = true) := by
      rintro ⟨-, ⟨⟩⟩
    rw [if_neg hno, left, left, setEnd_sockets]
    by_cases hsk : s = s₁ ∧ k = k₁
    · obtain ⟨rfl, rfl⟩ := hsk
      obtain ⟨hex, hw, ht⟩ := Endpoint.receiveStep_exchange hst
      rw [setEnd_self, hex, hw, ht]
      exact Nat.le_refl _
    · rw [setEnd_ne hsk]
      exact Nat.le_refl _

/-! ## Going on -/

/-- A step of the exchanges of `k` can be taken, perhaps after a poll. -/
def GoesOn (threads : Side → Nat) (c : SessionId) (k : K) (x : Handshake S K) : Prop :=
  ∃ x₁, (x₁ = x ∨ ∃ s ev, ExchangeEvent.Smooth ev ∧ (pooled S K threads c).step x (.exchange s k ev) x₁) ∧
    ∃ l x₂, l.Intact ∧ (pooled S K threads c).step x₁ l x₂ ∧ l.exchanges k = true

variable {threads : Side → Nat}

/-- An exchange that steps, perhaps after its poll, with the next bytes on their
way to it. -/
theorem GoesOn.of_step {s : Side} {k : K} {stream : TunnelFrameStream} {pev ev : ExchangeEvent} {e₁ e' : Exchanging}
    {stream' : TunnelFrameStream} {out : List UInt8} (hc : (x.sockets s).crash = none)
    (htask : (x.sockets s).tasks k = .exchanging stream)
    (hpoll : e₁ = (x.ends s k).exchanging ∨ (x.ends s k).exchanging.step ⟨stream.fd, (x.ends s k).buffer⟩ pev =
      some (⟨stream.fd, (x.ends s k).buffer⟩, e₁, []))
    (hpsm : pev.Smooth) (hpbs : pev.bytes = [])
    (hst : e₁.step ⟨stream.fd, (x.ends s k).buffer⟩ ev = some (stream', e', out))
    (hsm : ev.Smooth) (hbs : ev.bytes <+: x.underway s k) (hp : ev.progress = true) : GoesOn threads c k x := by
  have hcounts : (HandshakeLabel.exchange (S := S) s k ev).exchanges k = true := by
    simp [HandshakeLabel.exchanges, hp]
  rcases hpoll with rfl | hpoll
  · exact ⟨x, .inl rfl, .exchange s k ev, _, hsm, pooled_exchange hc (.exchange htask hbs hst), hcounts⟩
  · -- The poll moves no byte.
    have hfirst := HandshakeStep.exchange (c := c) htask (by rw [hpbs]; exact List.nil_prefix) hpoll
    generalize he : ({ x.ends s k with
      buffer := _, exchanging := e₁, written := _, takenByExchange := _ } : Endpoint) = e at hfirst
    have hst' : ((x.setEnd s k e).ends s k).exchanging.step ⟨stream.fd, ((x.setEnd s k e).ends s k).buffer⟩ ev =
        some (stream', e', out) := by
      rw [setEnd_self, ← he]
      exact hst
    have hbs' : ev.bytes <+: (x.setEnd s k e).underway s k := by
      rw [underway, sent, setEnd_ne fun hsk => s.other_ne hsk.1, taken, setEnd_self, setEnd_sockets, ← he, hpbs]
      exact hbs
    exact ⟨_, .inr ⟨s, pev, hpsm, pooled_exchange hc hfirst⟩, .exchange s k ev, _, hsm,
      pooled_exchange hc (.exchange htask hbs' hst'), hcounts⟩

/-- A side whose exchange is not over goes on, or waits for bytes of the other's
initial frame that are not on the connection yet. -/
theorem Agrees.side_goesOn (h : x.Agrees c) (hx : x.Feeds) {s : Side} {k : K} (hc : (x.sockets s).crash = none)
    (hroom : (x.sockets s).unfinished.encard ≤ threads s) (hadd : (x.sockets s).tasks k ≠ .notAdded)
    (he : ((x.sockets s).tasks k).early = true) :
    GoesOn threads c k x ∨
      ((∃ r next, (x.ends s k).exchanging = .receiving r next) ∧ x.underway s k = [] ∧
        x.given s k ≠ (s.other.frame c).bytes) := by
  cases h.stands s k with
  | past ha hw ht hg hl =>
    rw [ha.not_early] at he
    cases he
  | exchanging he' hst hfirst hr hfr ht =>
    cases htask : (x.sockets s).tasks k with
    | notAdded => exact absurd htask hadd
    | posted fd =>
      refine .inl ⟨x, .inl rfl, .socket s (.start k (.ok 0) (.ok 0)), _, (rfl : FileDescriptor.makeNonBlocking _ _ = _),
        ⟨⟨hc, .socket (fun _ _ hl => nomatch hl)
          (show SocketStep _ _ _ (SocketState.setTask _ k (.exchanging ⟨fd, fun _ => 0⟩)) from .start htask rfl)⟩,
          ?_⟩, ?_⟩
      · rintro s' l ⟨⟩ _ _ _ -
        exact posted_findsThread hroom htask
      · simp [HandshakeLabel.exchanges]
    | exchanging stream =>
      obtain ⟨fs, hfs, -⟩ := hx.closed s.other k
      obtain ⟨more, hmore⟩ := h.more (hx.fresh s.other) hfs (List.nil_prefix (l := x.underway s k))
      rw [List.append_nil] at hmore
      rcases hst.goesOn stream.fd ⟨more, _, hmore⟩ with hend |
        ⟨e₁, hpoll, ev, s', e', out, hsm, hp, hbs, hstep⟩ | ⟨hrec, hg, hread⟩
      · -- Its end.
        have hex := exchange_honest (show (s.other.frame c).bytes = (s.other.frame c).bytes from rfl)
        refine .inl ⟨x, .inl rfl, .socket s (.exchange k _), _, trivial,
          ⟨⟨hc, .finish hend hex (show SocketStep _ _ _ (SocketState.setTask _ k
            (.exchanged ⟨stream.fd, (x.ends s k).buffer⟩ (s.result c))) from .exchange htask hex)⟩, ?_⟩, ?_⟩
        · rintro s' l ⟨⟩ _ _ _ ⟨⟩
        · simp [HandshakeLabel.exchanges]
      · exact .inl (.of_step hc htask hpoll
          (show ExchangeEvent.Smooth (.write (.poll (.ok 1))) from trivial) rfl hstep hsm
          (by rw [hbs]; exact List.nil_prefix) hp)
      · cases hu : x.underway s k with
        | nil => exact .inr ⟨hrec, rfl, hg⟩
        | cons b bs =>
          obtain ⟨e₁, hpoll, s', e', hstep⟩ := hread b
          exact .inl (.of_step hc htask hpoll (show ExchangeEvent.Smooth (.read (.poll (.ok 1))) from trivial) rfl hstep
            (show ExchangeEvent.Smooth (.read (.call (.ok [b]))) from Nat.one_pos)
            (by rw [hu]; exact ⟨bs, rfl⟩) rfl)
    | exchanged stream ier => rw [htask] at he; cases he
    | receiving sid => rw [htask] at he; cases he
    | loopEnded sid => rw [htask] at he; cases he
    | closed sid => rw [htask] at he; cases he
    | done => rw [htask] at he; cases he

omit [DecidableEq S] [DecidableEq K] in
/-- A side that waits for bytes of the other's frame has been given all there are,
so that frame is not out. -/
theorem Agrees.unwritten (h : x.Agrees c) {s : Side} {k : K} (he : ((x.sockets s).tasks k).early = true)
    (hu : x.underway s k = []) (hg : x.given s k ≠ (s.other.frame c).bytes) :
    (x.ends s.other k).written ≠ (s.other.frame c).bytes := by
  intro hw
  cases h.stands s k with
  | past ha _ _ _ _ =>
    rw [ha.not_early] at he
    cases he
  | exchanging he' hst hfirst hr hfr ht =>
    have hall := x.given_underway s k
    rw [hu, List.append_nil, sent, hw] at hall
    have hpre := hst.given_prefix
    refine hg (hpre.eq_of_length (Nat.le_antisymm hpre.length_le ?_))
    rw [hall, List.length_append]
    omega

/-- **Not both sides wait.** While neither has crashed, both have the connection
and neither has more sockets than threads, an exchange on it that is not over can
go on, perhaps after a poll, or the other side's can. -/
theorem Agrees.goesOn (h : x.Agrees c) (hx : x.Feeds) {k : K} (hc : ∀ s, (x.sockets s).crash = none)
    (hroom : ∀ s, (x.sockets s).unfinished.encard ≤ threads s) (hadd : ∀ s, (x.sockets s).tasks k ≠ .notAdded) :
    (∀ s, ((x.sockets s).tasks k).Agreed s c) ∨ GoesOn threads c k x := by
  have side : ∀ s, ((x.sockets s).tasks k).early = true → ¬ GoesOn threads c k x →
      (∃ r next, (x.ends s k).exchanging = .receiving r next) ∧
        (x.ends s.other k).written ≠ (s.other.frame c).bytes := by
    intro s he hno
    rcases h.side_goesOn hx (hc s) (hroom s) (hadd s) he with hgo | ⟨hrec, hu, hg⟩
    · exact absurd hgo hno
    · exact ⟨hrec, h.unwritten he hu hg⟩
  have early : ∀ s, (x.ends s k).written ≠ (s.frame c).bytes → ((x.sockets s).tasks k).early = true := by
    intro s hw
    cases h.stands s k with
    | exchanging he _ _ _ _ _ => exact he
    | past _ hw' _ _ _ => exact absurd hw' hw
  rw [or_iff_not_imp_right]
  intro hno s
  refine h.agreed ?_
  rw [← Bool.not_eq_true]
  intro he
  -- Both wait, the client with its frame out.
  have both : ∀ s, ((x.sockets s).tasks k).early = true := by
    have hother := early s.other (side s he hno).2
    cases s
    · exact fun s => by cases s <;> assumption
    · exact fun s => by cases s <;> assumption
  obtain ⟨⟨r, next, hrec⟩, -⟩ := side .client (both .client) hno
  refine (side .server (both .server) hno).2 ?_
  cases h.stands .client k with
  | exchanging _ hst hfirst _ _ _ =>
    have hfirst := hfirst rfl
    rw [hrec] at hst hfirst
    exact hst.put_of_sendsFirst hfirst
  | past _ hw _ _ _ => exact hw

/-! ## Runs -/

variable {tr : List (Machine.Transition (Handshake S K) (HandshakeLabel S K))}

/-- What is left to both sides. -/
def leftToBoth (c : SessionId) (k : K) (x : Handshake S K) : Nat := left c .client k x + left c .server k x

theorem left_run_step (h : (handshake S K c).Run tr x) (hi : ∀ t ∈ tr, t.label.Intact) (hs : HandshakeStep c x l x')
    (hl : l.Intact) (k : K) : leftToBoth c k x' + (if l.exchanges k = true then 1 else 0) ≤ leftToBoth c k x := by
  have hside := fun s => (run_agrees h hi).left_step (run_feeds h hi) hs hl s k
  have hclient := hside .client
  have hserver := hside .server
  cases hl : l.side <;> simp only [hl, true_and, reduceCtorEq, false_and, if_false] at hclient hserver <;>
    simp only [leftToBoth] <;> omega

/-- A run takes only so many steps of the exchanges on a connection. -/
theorem run_exchanges_le (h : (handshake S K c).Run tr x) (hi : ∀ t ∈ tr, t.label.Intact) (k : K) :
    tr.countP (fun t => t.label.exchanges k) ≤ 2 * (exchangeWork + 2) := by
  have hm := (h.restrict hi).measure (p := fun t => t.label.exchanges k) (leftToBoth c k)
    (N := 2 * (exchangeWork + 2)) ?_ ?_
  · omega
  · intro y hy
    have hy : y.Starts c := hy
    have hleft : ∀ s, left c s k y = exchangeWork + 2 := fun s => by rw [left, hy.sockets s]; rfl
    simp only [leftToBoth, hleft]
    omega
  · intro y l y' hr hs
    obtain ⟨tr', hrun, hi'⟩ := hr.restrict
    exact left_run_step hrun hi' hs.1.2 hs.2 k

/-- A socket that was added stays so. -/
theorem added_step (hs : HandshakeStep c x l x') {s : Side} {k : K} (h : (x.sockets s).tasks k ≠ .notAdded) :
    (x'.sockets s).tasks k ≠ .notAdded := by
  obtain ⟨hshare, halone⟩ := share_step hs s
  cases hl : share s l with
  | none =>
    rw [halone hl]
    exact h
  | some l' =>
    rcases task_step (hshare l' hl) k with ⟨-, heq⟩ | ⟨-, ht⟩
    · rw [heq]
      exact h
    · generalize (x.sockets s).tasks k = t at ht
      generalize (x'.sockets s).tasks k = t' at ht ⊢
      cases ht <;> simp

/-- A step of the exchange of `k`, or its beginning or its end. -/
def Exchanges (k : K) (l : HandshakeLabel S K) : Prop :=
  l.Intact ∧ ((∃ s getfl setfl, l = .socket s (.start k getfl setfl)) ∨ (∃ s io, l = .socket s (.exchange k io)) ∨
    ∃ s ev, l = .exchange s k ev)

omit [DecidableEq S] in
theorem Exchanges.of_exchanges {k : K} (hi : l.Intact) (h : l.exchanges k = true) : Exchanges k l := by
  refine ⟨hi, ?_⟩
  cases l with
  | socket s l =>
    cases l with
    | start k' getfl setfl =>
      obtain rfl : k' = k := by simpa [HandshakeLabel.exchanges] using h
      exact .inl ⟨s, getfl, setfl, rfl⟩
    | exchange k' io =>
      obtain rfl : k' = k := by simpa [HandshakeLabel.exchanges] using h
      exact .inr (.inl ⟨s, io, rfl⟩)
    | _ => cases h
  | exchange s k' ev =>
    simp only [HandshakeLabel.exchanges, Bool.and_eq_true, decide_eq_true_eq] at h
    obtain ⟨rfl, -⟩ := h
    exact .inr (.inr ⟨s, ev, rfl⟩)
  | receive s k' ev => cases h

omit [DecidableEq S] [DecidableEq K] in
theorem Exchanges.lasting {k : K} {x x' : Handshake S K} (h : Exchanges k l) : Lasting ⟨x, l, x'⟩ := by
  refine ⟨h.1, ?_⟩
  obtain ⟨s, getfl, setfl, rfl⟩ | ⟨s, io, rfl⟩ | ⟨s, ev, rfl⟩ := h.2 <;> exact id

omit [DecidableEq S] [DecidableEq K] in
theorem Exchanges.fitsPool {k : K} {x x' : Handshake S K} (h : Exchanges k l) : FitsPool threads ⟨x, l, x'⟩ := by
  intro s k' fd hl
  obtain ⟨s, getfl, setfl, rfl⟩ | ⟨s, io, rfl⟩ | ⟨s, ev, rfl⟩ := h.2 <;> cases hl

end

end Handshake

/-- The descriptor of a task up to its registration. -/
def Task.descriptor : Task → Option FileDescriptor
  | .posted fd => some fd
  | .exchanging stream => some stream.fd
  | .exchanged stream _ => some stream.fd
  | _ => none

/-- An agreed task that is not registered yet. -/
theorem Task.Agreed.exchanged {s : Side} {c : SessionId} {t : Task} {fd : FileDescriptor} (h : t.Agreed s c)
    (hfd : t.descriptor = some fd) : ∃ stream, t = .exchanged stream (s.result c) ∧ stream.fd = fd := by
  cases t with
  | exchanged stream ier => exact ⟨stream, congrArg _ h, Option.some_inj.1 hfd⟩
  | posted fd => exact h.elim
  | exchanging stream => exact h.elim
  | _ => cases hfd

namespace Handshake

section
variable {S K : Type} [DecidableEq K]

/-- What the exchange of `k` leaves alone. -/
structure Apart (k : K) (x x' : Handshake S K) : Prop where
  sockets : ∀ s, ∃ t, x'.sockets s = (x.sockets s).setTask k t ∧
    t.descriptor = ((x.sockets s).tasks k).descriptor
  loops : ∀ s k', (x'.ends s k').receiving = (x.ends s k').receiving ∧ (x'.ends s k').frames = (x.ends s k').frames ∧
    (x'.ends s k').takenByLoop = (x.ends s k').takenByLoop

variable {c : SessionId} {threads : Side → Nat} {x x' x'' : Handshake S K} {k : K}

theorem Apart.refl (k : K) (x : Handshake S K) : Apart k x x :=
  ⟨fun _ => ⟨_, by simp [SocketState.setTask], rfl⟩, fun _ _ => ⟨rfl, rfl, rfl⟩⟩

theorem Apart.trans (h : Apart k x x') (h' : Apart k x' x'') : Apart k x x'' := by
  refine ⟨fun s => ?_, fun s k' => ?_⟩
  · obtain ⟨t, hx', hfd⟩ := h.sockets s
    obtain ⟨t', hx'', hfd'⟩ := h'.sockets s
    refine ⟨t', by rw [hx'', hx', SocketState.setTask_setTask], hfd'.trans ?_⟩
    rw [hx', SocketState.setTask_self, hfd]
  · obtain ⟨h₁, h₂, h₃⟩ := h.loops s k'
    obtain ⟨h₁', h₂', h₃'⟩ := h'.loops s k'
    exact ⟨h₁'.trans h₁, h₂'.trans h₂, h₃'.trans h₃⟩

theorem Apart.setTask {s : Side} {t : Task} (ht : t.descriptor = ((x.sockets s).tasks k).descriptor) :
    Apart k x (x.setSockets s ((x.sockets s).setTask k t)) := by
  refine ⟨fun s' => ?_, fun _ _ => ⟨rfl, rfl, rfl⟩⟩
  by_cases hs : s' = s
  · subst hs
    exact ⟨t, setSockets_self, ht⟩
  · rw [setSockets_ne hs]
    exact (Apart.refl k x).sockets s'

variable [DecidableEq S] {l : HandshakeLabel S K}

theorem Apart.step (h : x.Agrees c) (hs : HandshakeStep c x l x') (hl : Exchanges k l) : Apart k x x' := by
  obtain ⟨hi, hl⟩ := hl
  cases hs with
  | @socket s l y hno hs =>
    rcases hl with ⟨_, getfl, setfl, ⟨⟩⟩ | ⟨_, io, ⟨⟩⟩ | ⟨_, _, ⟨⟩⟩
    · cases hs with
      | start hk hnb => exact .setTask (by rw [hk]; rfl)
      | startThrows hk hnb => cases hi.symm.trans hnb
    · exact absurd rfl (hno k io)
  | @finish s k' io res y hend hex hs =>
    rcases hl with ⟨_, _, _, ⟨⟩⟩ | ⟨_, _, ⟨⟩⟩ | ⟨_, _, ⟨⟩⟩
    have hok := h.exchanged (.finish hend hex hs)
    cases hs with
    | exchange hk hex' => exact .setTask (by rw [hk]; rfl)
    | exchangeThrows hk hex' => cases hok.symm.trans hex'
    | exchangeAborts hk hex' => cases hok.symm.trans hex'
  | @exchange s k' ev stream stream' e out htask hbs hst =>
    refine ⟨(Apart.refl k x).sockets, fun s' k'' => ?_⟩
    by_cases hsk : s' = s ∧ k'' = k'
    · obtain ⟨rfl, rfl⟩ := hsk
      rw [setEnd_self]
      exact ⟨rfl, rfl, rfl⟩
    · rw [setEnd_ne hsk]
      exact ⟨rfl, rfl, rfl⟩
  | receive htask hbs hst => rcases hl with ⟨_, _, _, ⟨⟩⟩ | ⟨_, _, ⟨⟩⟩ | ⟨_, _, ⟨⟩⟩

variable {tr : List (Machine.Transition (Handshake S K) (HandshakeLabel S K))}

/-- A run, and then steps of the exchange of `k`. -/
structure Onward (threads : Side → Nat) (c : SessionId) (k : K)
    (tr : List (Machine.Transition (Handshake S K) (HandshakeLabel S K))) (x : Handshake S K)
    (tr' : List (Machine.Transition (Handshake S K) (HandshakeLabel S K))) (x' : Handshake S K) : Prop where
  run : (pooled S K threads c).Run (tr ++ tr') x'
  exchanges : ∀ t ∈ tr', Exchanges k t.label
  apart : Apart k x x'
  left : leftToBoth c k x' ≤ leftToBoth c k x
  room : (∀ s, (x.sockets s).unfinished.encard ≤ threads s) → ∀ s, (x'.sockets s).unfinished.encard ≤ threads s
  added : (∀ s, (x.sockets s).tasks k ≠ .notAdded) → ∀ s, (x'.sockets s).tasks k ≠ .notAdded

theorem Onward.refl (h : (pooled S K threads c).Run tr x) : Onward threads c k tr x [] x :=
  ⟨by rwa [List.append_nil], (fun _ ht => nomatch ht), .refl k x, Nat.le_refl _, id, id⟩

theorem Onward.intact {tr' : List (Machine.Transition (Handshake S K) (HandshakeLabel S K))}
    (h : Onward threads c k tr x tr' x') (hlast : ∀ t ∈ tr, Lasting t) : ∀ t ∈ tr ++ tr', Lasting t := by
  intro t ht
  rcases List.mem_append.1 ht with ht | ht
  · exact hlast t ht
  · exact (h.exchanges t ht).lasting

theorem Onward.step {tr' : List (Machine.Transition (Handshake S K) (HandshakeLabel S K))}
    (h : Onward threads c k tr x tr' x') (hlast : ∀ t ∈ tr, Lasting t)
    (hs : (pooled S K threads c).step x' l x'') (hl : Exchanges k l) :
    Onward threads c k tr x (tr' ++ [⟨x', l, x''⟩]) x'' where
  run := by rw [← List.append_assoc]; exact h.run.step hs
  exchanges t ht := by
    rcases List.mem_append.1 ht with ht | ht
    · exact h.exchanges t ht
    · rw [List.mem_singleton.1 ht]
      exact hl
  apart := h.apart.trans
    (.step (run_agrees h.run.of_restrict.1 fun t ht => (h.intact hlast t ht).1) hs.1.2 hl)
  left := Nat.le_trans (Nat.le_add_right _ _) (Nat.le_trans
    (left_run_step h.run.of_restrict.1 (fun t ht => (h.intact hlast t ht).1) hs.1.2 hl.1 k) h.left)
  room hroom s := unfinished_le_next hs.1.2 hl.fitsPool (h.room hroom s)
  added hadd s := added_step hs.1.2 (h.added hadd s)

theorem Onward.trans {tr' tr'' : List (Machine.Transition (Handshake S K) (HandshakeLabel S K))}
    (h : Onward threads c k tr x tr' x') (h' : Onward threads c k (tr ++ tr') x' tr'' x'') :
    Onward threads c k tr x (tr' ++ tr'') x'' where
  run := by rw [← List.append_assoc]; exact h'.run
  exchanges t ht := by
    rcases List.mem_append.1 ht with ht | ht
    · exact h.exchanges t ht
    · exact h'.exchanges t ht
  apart := h.apart.trans h'.apart
  left := Nat.le_trans h'.left h.left
  room hroom := h'.room (h.room hroom)
  added hadd := h'.added (h.added hadd)

/-- What goes on has less left. -/
theorem GoesOn.run (h : (pooled S K threads c).Run tr x) (hlast : ∀ t ∈ tr, Lasting t) (hg : GoesOn threads c k x) :
    ∃ tr' x', Onward threads c k tr x tr' x' ∧ leftToBoth c k x' < leftToBoth c k x := by
  obtain ⟨x₁, hpoll, l, x₂, hl, hs, hcount⟩ := hg
  obtain ⟨tr₁, h₁⟩ : ∃ tr₁, Onward threads c k tr x tr₁ x₁ := by
    rcases hpoll with rfl | ⟨s, ev, hev, hs₁⟩
    · exact ⟨[], .refl h⟩
    · exact ⟨_, (Onward.refl h).step hlast hs₁ ⟨hev, .inr (.inr ⟨s, ev, rfl⟩)⟩⟩
  have hstep := left_run_step h₁.run.of_restrict.1 (fun t ht => (h₁.intact hlast t ht).1) hs.1.2 hl k
  rw [if_pos hcount] at hstep
  have := h₁.left
  exact ⟨_, x₂, h₁.step hlast hs (.of_exchanges hl hcount), by omega⟩

/-- **Every exchange can complete**, from any state of a run in which no loop
ended and no side has more sockets than threads, with nothing but its own steps. -/
theorem run_completes (h : (pooled S K threads c).Run tr x) (hlast : ∀ t ∈ tr, Lasting t)
    (hroom : ∀ s, (x.sockets s).unfinished.encard ≤ threads s) (hadd : ∀ s, (x.sockets s).tasks k ≠ .notAdded) :
    ∃ tr' x', Onward threads c k tr x tr' x' ∧ ∀ s, ((x'.sockets s).tasks k).Agreed s c := by
  induction hn : leftToBoth c k x using Nat.strong_induction_on generalizing tr x with
  | _ n ih =>
    subst hn
    have hrun := h.of_restrict.1
    have hi : ∀ t ∈ tr, t.label.Intact := fun t ht => (hlast t ht).1
    rcases (run_agrees hrun hi).goesOn (run_feeds hrun hi) (run_uncrashed hrun hi fun t ht => (hlast t ht).2) hroom hadd
      with hdone | hgo
    · exact ⟨[], x, .refl h, hdone⟩
    · obtain ⟨tr₁, x₁, h₁, hlt⟩ := hgo.run h hlast
      obtain ⟨tr₂, x₂, h₂, hag⟩ := ih _ hlt h₁.run (h₁.intact hlast) (h₁.room hroom) (h₁.added hadd) rfl
      exact ⟨_, x₂, h₁.trans h₂, hag⟩

end

end Handshake

end RuralPipe
