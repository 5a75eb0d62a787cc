/-
Where the sending stack has its datagrams while nothing fails.

A thread carries at most one datagram over in its MTU buffer and has a batch in
its frame. The frame is its own until a sender takes a stream for it: from then
on the frame's bytes count as the stream's, whether they are out or the `send`
has yet to put them out (`outgoing`). So the only step that touches both is the
one that takes a stream, and it moves the whole batch (`Moves`).
-/
import RuralPipe.HandOver
import RuralPipe.StreamTransfer

namespace RuralPipe

open Bytes

/-! ## The sockets -/

/-- The frame has been given to a stream. -/
def Sender.handed {K : Type} : Sender K → Bool
  | .sending _ => true
  | .returned _ (.ok _) => true
  | _ => false

/-- No system call of a `send` fails, no stream ends, nobody interrupts. -/
def SocketLabel.Smooth {S K : Type} : SocketLabel S K → Prop
  | .io _ ev => ev.Smooth id
  | .receiveEnds _ _ => False
  | .interrupt => False
  | _ => True

theorem SocketLabel.Smooth.io {S K : Type} {l : SocketLabel S K} (h : l.Smooth) :
    ∀ i ev, l = .io i ev → IoEvent.Smooth id ev := by
  rintro i ev rfl
  exact h

namespace SocketState

variable {S K : Type} {x x' : SocketState S K} {k : K} {i : S}

/-- No `send` has thrown. -/
structure Unfailed (x : SocketState S K) : Prop where
  sending : ∀ i s ex, x.senders i = .sending s → s.send ≠ .threw ex
  sends : ∀ k, ∀ r ∈ x.sends k, r.ok = true

/-- Some sender's `send` is on the stream. -/
def SendOn (x : SocketState S K) (k : K) (s : Sending K) : Prop := s.st = k ∧ ∃ i, x.senders i = .sending s

open Classical in
/-- What a sender on the stream has yet to put on it. -/
noncomputable def unsent (x : SocketState S K) (k : K) : List UInt8 :=
  if h : ∃ s, x.SendOn k s then h.choose.send.rest h.choose.buf else []

/-- All bytes given to the stream. -/
noncomputable def outgoing (x : SocketState S K) (k : K) : List UInt8 := x.wire k ++ x.unsent k

theorem unsent_busy (hu : x.StreamUse k) {s : Sending K} (hi : x.senders i = .sending s) (hk : s.st = k) :
    x.unsent k = s.send.rest s.buf := by
  have h : ∃ s, x.SendOn k s := ⟨s, hk, i, hi⟩
  obtain ⟨hk', j, hj⟩ := h.choose_spec
  have hij := hu.unique i j s _ hi hj hk hk'
  subst hij
  rw [hi] at hj
  rw [unsent, dif_pos h, ← Sender.sending.inj hj]

theorem unsent_free (h : ∀ i s, x.senders i = .sending s → s.st ≠ k) : x.unsent k = [] := by
  rw [unsent, dif_neg]
  intro ⟨s, hk, i, hi⟩
  exact h i s hi hk

theorem unsent_congr (h : ∀ i s, s.st = k → (x'.senders i = .sending s ↔ x.senders i = .sending s)) :
    x'.unsent k = x.unsent k := by
  have hp : x'.SendOn k = x.SendOn k :=
    funext fun s => propext (and_congr_right fun hk => exists_congr fun i => h i s hk)
  rw [unsent, unsent, hp]

theorem outgoing_congr (hw : x'.wire k = x.wire k)
    (h : ∀ i s, s.st = k → (x'.senders i = .sending s ↔ x.senders i = .sending s)) : x'.outgoing k = x.outgoing k := by
  rw [outgoing, outgoing, hw, unsent_congr h]

/-- A `send` that goes on is inside its frame. -/
theorem Unfailed.inside (h : x.Unfailed) (hu : x.StreamUse k) {s : Sending K} (hi : x.senders i = .sending s)
    (hk : s.st = k) : s.send.Inside s.buf := by
  have hok := (hu.busy i s hi hk).2.2
  unfold Sending.Ok at hok
  cases hs : s.send with
  | writing n io =>
    rw [hs] at hok
    exact hok.1
  | returned => trivial
  | threw ex => exact absurd hs (h.sending i s ex hi)

/-- A `send` at its end has returned. -/
theorem Unfailed.outcome (h : x.Unfailed) {s : Sending K} (hi : x.senders i = .sending s)
    {res : Except Exception Unit} (hout : s.send.outcome = some res) : s.send = .returned ∧ res = .ok () := by
  cases hs : s.send with
  | writing n io => rw [hs] at hout; cases hout
  | returned =>
    rw [hs] at hout
    cases hout
    exact ⟨rfl, rfl⟩
  | threw ex => exact absurd hs (h.sending i s ex hi)

section
variable [DecidableEq S]

theorem handed_notify (w : Option S) (j : S) : ((x.notify w).senders j).handed = (x.senders j).handed := by
  rcases x.notify_cases w with he | ⟨i, obj, buf, st, n, hi, he⟩
  · rw [he]
  · rw [he]
    by_cases hij : j = i
    · subst hij
      rw [setSender_self, hi]
      rfl
    · rw [setSender_ne hij]

variable [DecidableEq K] {client : Option SessionId} {l : SocketLabel S K}

theorem Unfailed.step (h : x.Unfailed) (hs : SocketStep client x l x')
    (hsm : ∀ i ev, l = .io i ev → IoEvent.Smooth id ev) : x'.Unfailed := by
  refine ⟨fun j s ex hj hthrew => ?_, fun k r hr => ?_⟩
  · rcases threw_step hs hj hthrew with ⟨s', hj', hthrew'⟩ | ⟨ev, hl, -, hno⟩
    · exact h.sending j s' ex hj' hthrew'
    · exact hno (hsm j ev hl)
  · cases hs with
    | @complete i s res map wake hi hout hc hwk =>
      obtain ⟨-, rfl⟩ := h.outcome hi hout
      rw [notify_sends] at hr
      rcases mem_sends_record.1
        (show r ∈ (x.record s.st ⟨i, s.buf.bytes, s.out, true⟩).sends k from hr) with hr | ⟨-, rfl⟩
      · exact h.sends k r hr
      · rfl
    | _ => exact h.sends k r hr

/-- Bytes only come to a stream. -/
theorem wire_step (hs : SocketStep client x l x') (k : K) : ∃ out, x'.wire k = x.wire k ++ out := by
  cases hs with
  | @io i s ev send out hi hal hst =>
    by_cases hk : k = s.st
    · subst hk
      exact ⟨out, Function.update_self ..⟩
    · exact ⟨[], by rw [List.append_nil]; exact Function.update_of_ne hk ..⟩
  | complete hi hout hc hwk => exact ⟨[], by rw [notify_wire, List.append_nil]; rfl⟩
  | _ => exact ⟨[], (List.append_nil _).symm⟩

/-- No sender is given to a stream, and the streams have the bytes they had. -/
def Quiet (x x' : SocketState S K) : Prop :=
  (∀ j, (x'.senders j).handed = (x.senders j).handed) ∧ ∀ k, x'.outgoing k = x.outgoing k

/-- The sender `i` gives its frame to the stream `k`. -/
structure Gives (x x' : SocketState S K) (i : S) (k : K) (f : TunnelFrameBuffer) : Prop where
  buf : ∃ buf n, (x.senders i).buf = some buf ∧ f = patched buf n
  before : (x.senders i).handed = false
  after : (x'.senders i).handed = true
  others : ∀ j, j ≠ i → (x'.senders j).handed = (x.senders j).handed
  outgoing : x'.outgoing k = x.outgoing k ++ f.bytes
  streams : ∀ k', k' ≠ k → x'.outgoing k' = x.outgoing k'

omit [DecidableEq K] in
theorem Quiet.setSender {a : Sender K} (hi : ∀ s, x.senders i ≠ .sending s) (ha : ∀ s, a ≠ .sending s)
    (hh : a.handed = (x.senders i).handed) (hx : x'.senders = (x.setSender i a).senders) (hw : x'.wire = x.wire) :
    x.Quiet x' := by
  refine ⟨fun j => ?_, fun k => outgoing_congr (congrFun hw k) fun j s hk => ?_⟩
  · rw [hx]
    by_cases hij : j = i
    · subst hij
      rw [setSender_self, hh]
    · rw [setSender_ne hij]
  · rw [hx]
    exact sending_setSender (k := k) (fun s _ => hi s) (fun s _ => ha s) j s hk

omit [DecidableEq S] [DecidableEq K] in
theorem Quiet.of_senders (hx : x'.senders = x.senders) (hw : x'.wire = x.wire) : x.Quiet x' :=
  ⟨fun j => by rw [hx], fun k => outgoing_congr (congrFun hw k) fun i s _ => by rw [hx]⟩

omit [DecidableEq K] in
/-- A sender with no stream yet takes a free one. -/
theorem Gives.take {map : SessionsMap K} {obj : Nat} {buf f : TunnelFrameBuffer} {n : Option UInt64} {st : K}
    (hu : x.StreamUse st) (hfree : (x.map.trackers st).inUse = false) (hi : ∀ s, x.senders i ≠ .sending s)
    (hh : (x.senders i).handed = false) (hbuf : (x.senders i).buf = some buf) (hf : f = patched buf n) :
    x.Gives ({ x with map }.setSender i (.sending ⟨obj, f, st, TunnelFrameStream.send f, []⟩)) i st f := by
  have hnone : ∀ j s, x.senders j = .sending s → s.st ≠ st := by
    intro j s hj he
    have := hu.inUse.2 ⟨j, s, hj, he⟩
    rw [hfree] at this
    cases this
  -- On its new stream the sender is alone, with all of its frame to go.
  have hon : ({ x with map }.setSender i (.sending ⟨obj, f, st, TunnelFrameStream.send f, []⟩)).unsent st =
      f.bytes := by
    have h : ∃ s, ({ x with map }.setSender i (.sending ⟨obj, f, st, TunnelFrameStream.send f, []⟩)).SendOn st s :=
      ⟨_, rfl, i, setSender_self⟩
    obtain ⟨hk, j, hj⟩ := h.choose_spec
    have hij : j = i := by
      by_contra hij
      rw [setSender_ne hij] at hj
      exact hnone j _ hj hk
    rw [hij, setSender_self] at hj
    rw [unsent, dif_pos h, ← Sender.sending.inj hj]
    exact Send.rest_loop
  refine ⟨⟨buf, n, hbuf, hf⟩, hh,
    by rw [setSender_self]; rfl, fun j hij => by rw [setSender_ne hij], ?_, fun k hk => ?_⟩
  · rw [SocketState.outgoing, hon, SocketState.outgoing, unsent_free hnone, List.append_nil, setSender_wire]
  · refine outgoing_congr rfl (sending_setSender (x := { x with map }) (fun s _ => hi s) ?_)
    rintro s hs ⟨⟩
    exact hk hs.symm

/-- **What a step of the sockets does with the frames**: nothing, or it gives
one to a stream. -/
theorem flow_step (hu : ∀ k, x.StreamUse k) (hu' : ∀ k, x'.StreamUse k) (h : x.Unfailed)
    (hs : SocketStep client x l x') (hl : ¬ l.OfCaller) (hsm : l.Smooth) : x.Quiet x' ∨ ∃ i k f, x.Gives x' i k f := by
  cases hs with
  | call hi => exact absurd trivial hl
  | notYetReady hi hsel => exact .inl (.setSender (by simp [hi]) (by simp) (by rw [hi]; rfl) rfl rfl)
  | take hi hsel =>
    obtain ⟨s, -, -, -, hfree, rfl, -⟩ := SessionsMap.select_take hsel
    exact .inr ⟨_, _, _, .take (n := some _) (hu _) hfree (by simp [hi]) (by rw [hi]; rfl) (by rw [hi]; rfl) rfl⟩
  | wait hi hsel => exact .inl (.setSender (by simp [hi]) (by simp) (by rw [hi]; rfl) rfl rfl)
  | recheckTake hi hre =>
    obtain ⟨hfree, -⟩ := SessionsMap.recheck_some hre
    exact .inr ⟨_, _, _, .take (n := none) (hu _) hfree (by simp [hi]) (by rw [hi]; rfl) (by rw [hi]; rfl) rfl⟩
  | recheckWait hi hre => exact .inl (.setSender (by simp [hi]) (by simp) (by rw [hi]; rfl) rfl rfl)
  | @io i s ev send out hi hal hst =>
    refine .inl ⟨fun j => ?_, fun k => ?_⟩
    · by_cases hij : j = i
      · subst hij
        rw [setSender_self, hi]
        rfl
      · rw [setSender_ne hij, put_senders]
    · by_cases hk : k = s.st
      · subst hk
        obtain ⟨hrest, -⟩ := Send.rest_step hst hsm (h.inside (hu s.st) hi rfl)
        rw [SocketState.outgoing, SocketState.outgoing, unsent_busy (hu s.st) hi rfl,
          unsent_busy (hu' s.st) setSender_self rfl, hrest, ← List.append_assoc]
        exact congrArg (· ++ _) (Function.update_self ..)
      · refine outgoing_congr (Function.update_of_ne hk ..) (sending_setSender (x := x.put s.st out) ?_ ?_)
        · rintro s' hs' h'
          rw [put_senders, hi] at h'
          cases h'
          exact hk hs'.symm
        · rintro s' hs' ⟨⟩
          exact hk hs'.symm
  | @complete i s res map wake hi hout hc hwk =>
    obtain ⟨hret, rfl⟩ := h.outcome hi hout
    refine .inl ⟨fun j => ?_, fun k => ?_⟩
    · rw [handed_notify]
      by_cases hij : j = i
      · subst hij
        rw [setSender_self, hi]
        rfl
      · rw [setSender_ne hij]
        rfl
    · by_cases hk : k = s.st
      · subst hk
        have hnone : ∀ j s', ((({ x with map }.record s.st ⟨i, s.buf.bytes, s.out, true⟩).setSender i
            (.returned s.buf (.ok ()))).notify wake).senders j = .sending s' → s'.st ≠ s.st := by
          intro j s' hj he
          rw [sending_notify] at hj
          by_cases hij : j = i
          · subst hij
            rw [setSender_self] at hj
            cases hj
          · rw [setSender_ne hij] at hj
            exact hij ((hu s.st).unique j i s' s hj hi he rfl)
        rw [SocketState.outgoing, SocketState.outgoing, unsent_busy (hu s.st) hi rfl, hret, notify_wire]
        exact congrArg (x.wire s.st ++ ·) (unsent_free hnone)
      · refine outgoing_congr (by rw [notify_wire]; rfl) fun j s' hs' => ?_
        rw [sending_notify]
        refine sending_setSender (x := { x with map }.record s.st ⟨i, s.buf.bytes, s.out, true⟩) (k := k)
          (a := .returned s.buf (.ok ())) ?_ (by simp) j s' hs'
        rintro s'' hs'' h'
        rw [record_senders, hi] at h'
        cases h'
        exact hk hs''.symm
  | leave hi => exact absurd trivial hl
  | _ => exact .inl (.of_senders rfl rfl)

end

end SocketState

/-! ## The stack -/

/-- On its way back from a `send` that returned. -/
def Invocation.sent : Invocation → Bool
  | .up _ (.ok _) => true
  | _ => false

/-- No system call fails, no stream ends, nobody interrupts. -/
def StackLabel.Smooth {S K : Type} : StackLabel S K → Prop
  | .loop _ ev => ev.Smooth
  | .socket l => l.Smooth
  | .interrupt => False
  | _ => True

/-- The datagram a step reads from a tunnel queue. -/
def StackLabel.read {S K : Type} : StackLabel S K → Option (S × List UInt8)
  | .loop i ev => ev.datagram.map (i, ·)
  | _ => none

namespace SendingStack

variable {S K : Type} {x x' : SendingStack S K} {i j : S}

/-- The thread's frame has been given to a stream. -/
def handed (x : SendingStack S K) (i : S) : Bool := (x.sockets.senders i).handed || (x.calls i).any Invocation.sent

/-- The batch not yet handed over. -/
def batch (x : SendingStack S K) (i : S) : List (List UInt8) := if x.handed i then [] else (x.threads i).batch

/-- The datagram carried over. -/
def carried (x : SendingStack S K) (i : S) : List (List UInt8) := (x.threads i).carried

/-- Nothing has failed so far. -/
structure Calm (x : SendingStack S K) : Prop where
  unfailed : x.sockets.Unfailed
  running : ∀ i, ¬ (x.threads i).Ended
  uninterrupted : x.interrupted = false

/-- What a step may do with the datagrams: none moves; one is read, and perhaps
joins the batch at once; the one carried over joins the batch; or a batch goes
to a stream. -/
inductive Moves (x x' : SendingStack S K) : Option (S × List UInt8) → Prop
  | stays : (∀ j, x'.batch j = x.batch j ∧ x'.carried j = x.carried j) →
      (∀ k, x'.sockets.outgoing k = x.sockets.outgoing k) → Moves x x' none
  | reads {i d} : x.carried i = [] → x'.carried i = [d] → x'.batch i = x.batch i →
      (∀ j, j ≠ i → x'.batch j = x.batch j ∧ x'.carried j = x.carried j) →
      (∀ k, x'.sockets.outgoing k = x.sockets.outgoing k) → Moves x x' (some (i, d))
  | readsOn {i d} : x.carried i = [] → x'.carried i = [] → x'.batch i = x.batch i ++ [d] →
      (∀ j, j ≠ i → x'.batch j = x.batch j ∧ x'.carried j = x.carried j) →
      (∀ k, x'.sockets.outgoing k = x.sockets.outgoing k) → Moves x x' (some (i, d))
  | joins {i d} : x.carried i = [d] → x'.carried i = [] → x'.batch i = x.batch i ++ [d] →
      (∀ j, j ≠ i → x'.batch j = x.batch j ∧ x'.carried j = x.carried j) →
      (∀ k, x'.sockets.outgoing k = x.sockets.outgoing k) → Moves x x' none
  | gives {i k} {f : TunnelFrameBuffer} : f.Closed (x.batch i) → x'.batch i = [] →
    (∀ j, j ≠ i → x'.batch j = x.batch j) →
      (∀ j, x'.carried j = x.carried j) → x'.sockets.outgoing k = x.sockets.outgoing k ++ f.bytes →
      (∀ k', k' ≠ k → x'.sockets.outgoing k' = x.sockets.outgoing k') → Moves x x' none

theorem batch_congr (hs : (x'.sockets.senders i).handed = (x.sockets.senders i).handed)
    (hc : (x'.calls i).any Invocation.sent = (x.calls i).any Invocation.sent) (ht : x'.threads i = x.threads i) :
    x'.batch i = x.batch i := by
  rw [batch, batch, handed, handed, hs, hc, ht]

theorem Linked.unhanded (h : x.Linked i) (hl : ∀ buf, (x.threads i).loop ≠ .invoking buf) : x.handed i = false := by
  obtain ⟨hc, hi⟩ := h.idle hl
  rw [handed, hc, hi]
  rfl

theorem Calm.holds (h : x.Calm) (hI : x.Inv) (i : S) :
    ∃ ds, (x.threads i).Holds ds ∧ ∀ buf, (x.sockets.senders i).buf = some buf → buf.Closed ds := by
  obtain ⟨ds, hh, hb⟩ := hI.carries i
  exact ⟨ds, hh.resolve_left (h.running i), hb⟩

/-- A step in which no sender gets a frame, no thread's frame changes its
datagrams, and no call its outcome. -/
theorem Moves.quiet (hq : x.sockets.Quiet x'.sockets)
    (hc : ∀ j, (x'.calls j).any Invocation.sent = (x.calls j).any Invocation.sent)
    (ht : x'.threads = x.threads) : Moves x x' none :=
  .stays (fun j => ⟨batch_congr (hq.1 j) (hc j) (congrFun ht j), by rw [carried, ht]; rfl⟩) hq.2

/-- The hand-over's way down and up the pipes keeps its outcome. -/
theorem sent_pipe {c c' : Invocation} {pipes pipes' : Pipes} (h : c.step pipes = some (.ok (pipes', c'))) :
    c'.sent = c.sent := by
  cases c with
  | down inside next =>
    rcases next with _ | (_ | _ | _ | _) <;> cases h <;> rfl
  | up inside res =>
    cases inside with
    | nil => cases h
    | cons self inside =>
      cases h
      cases res <;> rfl

section
variable [DecidableEq S]

theorem sent_setCall {c : Option Invocation} (hc : c.any Invocation.sent = (x.calls i).any Invocation.sent) (j : S) :
    ((x.setCall i c).calls j).any Invocation.sent = (x.calls j).any Invocation.sent := by
  by_cases hij : j = i
  · subst hij
    rw [setCall_self, hc]
  · rw [setCall_ne hij]

/-- A thread's own step. -/
theorem loop_moves {fd : FileDescriptor} {mtu : Nat} {ev : LoopEvent} {t : TunnelThread}
    (hI : x.Inv) (h : x.Calm) (ho : ev.Own)
    (hst : (x.threads i).step fd mtu x.interrupted ev = some t) (hsm : ev.Smooth)
    (ha : ∀ c, t.loop ≠ .ended (.abort c)) :
    ¬ t.Ended ∧ Moves x (x.setThread i t) (ev.datagram.map (i, ·)) := by
  have hl : ∀ buf, (x.threads i).loop ≠ .invoking buf := by
    intro buf hl
    rw [TunnelThread.step_invoking hl ho] at hst
    cases hst
  have hun := (hI.linked i).unhanded hl
  have hun' : (x.setThread i t).handed i = false := hun
  obtain ⟨ds, hh, -⟩ := h.holds hI i
  have hself : (x.setThread i t).threads i = t := setThread_self
  have hbatch : x.batch i = ds := by rw [batch, hun, if_neg Bool.false_ne_true, hh.batch_eq]
  have hbatch' : ∀ {ds'}, t.Holds ds' → (x.setThread i t).batch i = ds' := by
    intro ds' h'
    rw [batch, hun', if_neg Bool.false_ne_true, hself, h'.batch_eq]
  have hothers : ∀ j, j ≠ i → (x.setThread i t).batch j = x.batch j ∧ (x.setThread i t).carried j = x.carried j :=
    fun j hij => ⟨batch_congr rfl rfl (setThread_ne hij), congrArg TunnelThread.carried (setThread_ne hij)⟩
  have hout : ∀ k, (x.setThread i t).sockets.outgoing k = x.sockets.outgoing k := fun _ => rfl
  rcases TunnelThread.step_holds hst ho hh with
    ⟨why, hw, ⟨-, hint⟩ | ⟨ex, -, hno⟩ | ⟨c, rfl⟩⟩ | ⟨h₁, hm, hd⟩ | ⟨hne, h₁, hm, hd⟩ |
      ⟨d, hd, hne, hm, ⟨h₁, hm'⟩ | ⟨h₁, hm'⟩⟩
  · rw [h.uninterrupted] at hint
    cases hint
  · exact absurd hsm hno
  · exact absurd hw (ha c)
  · rw [hd]
    refine ⟨h₁.not_ended, .stays (fun j => ?_) hout⟩
    by_cases hij : j = i
    · subst hij
      exact ⟨(hbatch' h₁).trans hbatch.symm, by rw [carried, hself, TunnelThread.carried, hm]; rfl⟩
    · exact hothers j hij
  · rw [hd]
    refine ⟨h₁.not_ended, .joins (TunnelThread.carried_ne hne) ?_ ((hbatch' h₁).trans (by rw [hbatch])) hothers hout⟩
    rw [carried, hself, TunnelThread.carried_nil hm]
  · rw [hd]
    refine ⟨h₁.not_ended, .reads (TunnelThread.carried_nil hm) ?_ ((hbatch' h₁).trans hbatch.symm) hothers hout⟩
    rw [carried, hself, TunnelThread.carried_ne (by rwa [hm']), hm']
  · rw [hd]
    refine ⟨h₁.not_ended, .readsOn (TunnelThread.carried_nil hm) ?_ ((hbatch' h₁).trans (by rw [hbatch])) hothers hout⟩
    rw [carried, hself, TunnelThread.carried_nil hm']

/-- The socket's pipe is left with the outcome that the sender had. -/
theorem leave_moves {inside : List PipeId} {buf : TunnelFrameBuffer} {res : Except Exception Unit} (hI : x.Inv)
    (h : x.Calm) (hc : x.calls i = some (.down inside (some .socket))) (hi : x.sockets.senders i = .returned buf res) :
    Moves x (({ x with sockets := x.sockets.setSender i .idle }.setThread i
      { x.threads i with loop := .invoking buf }).setCall i (some (.up inside res))) none := by
  obtain ⟨ds, hh, hb⟩ := h.holds hI i
  refine .stays (fun j => ?_) fun k => ?_
  · by_cases hij : j = i
    · subst hij
      refine ⟨?_, by rw [carried, setCall_threads, setThread_self]; rfl⟩
      rw [batch, handed, setCall_self, setCall_threads, setThread_self, setCall_sockets,
        setThread_sockets, batch, handed, SocketState.setSender_self, hi, hc]
      cases res with
      | ok u => rfl
      | error ex => exact (hb buf (by rw [hi]; rfl)).datagrams_eq.trans hh.batch_eq.symm
    · refine ⟨batch_congr (congrArg Sender.handed (SocketState.setSender_ne hij)) ?_ (setThread_ne hij),
        congrArg TunnelThread.carried (setThread_ne hij)⟩
      rw [setCall_ne hij]
      rfl
  · exact SocketState.outgoing_congr rfl
      (SocketState.sending_setSender (k := k) (fun s _ hs => by rw [hi] at hs; cases hs) (fun s _ => by simp))

/-- The loop goes on after the outcome of its hand-over. -/
theorem outcome_moves {fd : FileDescriptor} {mtu : Nat} {buf : TunnelFrameBuffer} {res : Except Exception Unit}
    {t : TunnelThread} (hi : x.sockets.senders i = .idle) (hc : x.calls i = some (.up [] res))
    (hl : (x.threads i).loop = .invoking buf)
    (hst : (x.threads i).step fd mtu x.interrupted (.outcome buf res) = some t)
    (hres : ∀ ex, res = .error ex → ex.isNotYetReady = true) :
    ¬ t.Ended ∧ Moves x ((x.setThread i t).setCall i none) none := by
  have hmoves : t.mtuBuffer = (x.threads i).mtuBuffer → t.batch = x.batch i →
      Moves x ((x.setThread i t).setCall i none) none := by
    intro hm hb
    refine .stays (fun j => ?_) fun k => rfl
    by_cases hij : j = i
    · subst hij
      refine ⟨?_, by rw [carried, setCall_threads, setThread_self, TunnelThread.carried, hm]; rfl⟩
      rw [← hb, batch, handed, setCall_self, setCall_threads, setThread_self, setCall_sockets, setThread_sockets, hi]
      rfl
    · refine ⟨batch_congr rfl ?_ (setThread_ne hij), congrArg TunnelThread.carried (setThread_ne hij)⟩
      rw [setCall_ne hij]
      rfl
  obtain ⟨-, hm, ⟨rfl, ht⟩ | ⟨ex, rfl, ⟨-, ht⟩ | ⟨hno, -⟩⟩⟩ := TunnelThread.step_outcome hst
  · refine ⟨(fun ⟨why, he⟩ => by rw [ht] at he; cases he), hmoves hm ?_⟩
    rw [batch, handed, hi, hc, TunnelThread.batch, ht]
    rfl
  · refine ⟨(fun ⟨why, he⟩ => by rw [ht] at he; cases he), hmoves hm ?_⟩
    rw [batch, handed, hi, hc, TunnelThread.batch, TunnelThread.batch, ht, hl]
    rfl
  · rw [hres ex rfl] at hno
    cases hno

variable [DecidableEq K] {fds : S → FileDescriptor} {mtu : Nat} {client : Option SessionId} {l : StackLabel S K}

/-- **What a step of the stack does with the datagrams**, while nothing fails:
it keeps the stack calm, and moves them from place to place. -/
theorem moves_step (hr : (sendingStack K fds mtu client).Reachable x) (h : x.Calm) (ha : x.Alive)
    (hs : StackStep fds mtu client x l x') (hl : l.Smooth) (ha' : x'.Alive) : x'.Calm ∧ Moves x x' l.read := by
  have hI := reachable_inv hr
  have hr' := hr.step ⟨ha, hs⟩
  have hthread : ∀ {i : S} {t : TunnelThread}, ¬ t.Ended → ∀ j, ¬ ((x.setThread i t).threads j).Ended := by
    intro i t ht j
    by_cases hij : j = i
    · subst hij
      rwa [setThread_self]
    · rw [setThread_ne hij]
      exact h.running j
  cases hs with
  | @loop i ev t ho hst =>
    obtain ⟨hrun, hmv⟩ := loop_moves hI h ho hst hl fun c => by
      have := ha'.2.2 i c
      rwa [setThread_self] at this
    exact ⟨⟨h.unfailed, hthread hrun, h.uninterrupted⟩, hmv⟩
  | invoke hloop hc =>
    exact ⟨⟨h.unfailed, h.running, h.uninterrupted⟩,
      .quiet (.of_senders rfl rfl) (sent_setCall (by rw [hc]; rfl)) rfl⟩
  | pipe hc hst =>
    exact ⟨⟨h.unfailed, h.running, h.uninterrupted⟩,
      .quiet (.of_senders rfl rfl) (sent_setCall (by rw [hc]; exact sent_pipe hst)) rfl⟩
  | pipeAborts hc hst => exact nomatch ha'.2.1
  | enter hc hloop hst =>
    obtain ⟨hi, rfl⟩ := hst.call_eq
    exact ⟨⟨h.unfailed.step hst (SocketLabel.Smooth.io trivial), h.running, h.uninterrupted⟩,
      .quiet (.setSender (by simp [hi]) (by simp) (by rw [hi]; rfl) rfl rfl) (fun _ => rfl) rfl⟩
  | leave hc hi hst =>
    have hun := h.unfailed.step hst (SocketLabel.Smooth.io trivial)
    obtain rfl := hst.leave_eq
    exact ⟨⟨hun, hthread (fun ⟨why, he⟩ => nomatch he), h.uninterrupted⟩, leave_moves hI h hc hi⟩
  | @outcome i buf res t hc hloop hst =>
    have hi := (hI.linked i).idle_outside (by simp [hc])
    -- Only what a `send` threw would end the loop here, and none has thrown.
    obtain ⟨hrun, hmv⟩ := outcome_moves hi hc hloop hst fun ex hex => by
      by_contra hno
      obtain ⟨k, r, hr, -, hok⟩ := (reachable_failed_iff hr i).1 (.inr (.inl ⟨_, hc, by
        rw [hex]
        exact Bool.eq_false_iff.2 hno⟩))
      rw [h.unfailed.sends k r hr] at hok
      cases hok
    exact ⟨⟨h.unfailed, hthread hrun, h.uninterrupted⟩, hmv⟩
  | socket ho hst =>
    refine ⟨⟨h.unfailed.step hst (SocketLabel.Smooth.io hl), h.running, h.uninterrupted⟩, ?_⟩
    rcases SocketState.flow_step (SocketState.reachable_streamUse (maps_sockets.reachable hr))
      (SocketState.reachable_streamUse (maps_sockets.reachable hr')) h.unfailed hst ho hl with hq | ⟨i, k, f, hg⟩
    · exact .quiet hq (fun _ => rfl) rfl
    · obtain ⟨buf, n, hbuf, rfl⟩ := hg.buf
      obtain ⟨ds, hh, hcl⟩ := h.holds hI i
      have hun : x.handed i = false := by
        cases hI.linked i with
        | own _ h₂ => rw [h₂] at hbuf; cases hbuf
        | down _ _ _ h₄ => rw [h₄] at hbuf; cases hbuf
        | inside h₁ => rw [handed, hg.before, h₁]; rfl
        | up _ _ h₃ => rw [h₃] at hbuf; cases hbuf
      refine .gives (i := i) (k := k) (f := patched buf n) ?_ ?_ (fun j hij => batch_congr (hg.others j hij) rfl rfl)
        (fun j => rfl) hg.outgoing hg.streams
      · rw [batch, hun, if_neg Bool.false_ne_true, hh.batch_eq]
        exact patched_closed (hcl buf hbuf) n
      · rw [batch, handed]
        show (if ((_ : Sender K).handed || _) = true then _ else _) = _
        rw [hg.after]
        rfl
  | interrupt => exact hl.elim

end

end SendingStack

end RuralPipe
