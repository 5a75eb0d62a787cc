/-
Where the sending stack has its datagrams, whatever fails.

As while nothing fails, a thread has a batch in its frame and carries at most
one datagram over. The batch is its own until the frame is whole on a stream,
so a hand-over that fails leaves it there (`ownBatch`), and only the end of the
thread loses it, with what is carried over (`ends`).
-/
import RuralPipe.PartFrames

namespace RuralPipe

namespace TunnelThread

/-- The datagram carried over, while the thread runs. -/
def spare (t : TunnelThread) : List (List UInt8) :=
  match t.loop with
  | .ended _ => []
  | _ => t.carried

theorem spare_running {t : TunnelThread} (h : ¬ t.Ended) : t.spare = t.carried := by
  unfold spare
  cases hl : t.loop with
  | ended why => exact absurd ⟨why, hl⟩ h
  | _ => rfl

theorem not_ended {t : TunnelThread} {l : TunnelLoop} (h : t.loop = l) (hl : ∀ why, l ≠ .ended why) : ¬ t.Ended := by
  rintro ⟨why, he⟩
  exact hl why (h.symm.trans he)

theorem Ended.nothing {t : TunnelThread} (h : t.Ended) : t.batch = [] ∧ t.spare = [] := by
  obtain ⟨why, hl⟩ := h
  rw [batch, spare, hl]
  exact ⟨rfl, rfl⟩

end TunnelThread

namespace SendingStack

variable {S K : Type} {x x' : SendingStack S K} {i j : S}

/-- The thread's frame is whole on a stream. -/
def sent (x : SendingStack S K) (i : S) : Bool := (x.sockets.senders i).sent || (x.calls i).any Invocation.sent

/-- The batch that is not whole on a stream. -/
def ownBatch (x : SendingStack S K) (i : S) : List (List UInt8) := if x.sent i then [] else (x.threads i).batch

def ownSpare (x : SendingStack S K) (i : S) : List (List UInt8) := (x.threads i).spare

/-- The thread has the datagrams it had. -/
def Same (x x' : SendingStack S K) (j : S) : Prop := x'.ownBatch j = x.ownBatch j ∧ x'.ownSpare j = x.ownSpare j

/-- What a step may do with the datagrams, whatever fails: none moves; one is
read, and perhaps joins the batch at once; the one carried over joins the
batch; a batch is whole on a stream; or a thread ends and has none. -/
inductive Shifts (x x' : SendingStack S K) : Option (S × List UInt8) → Prop
  | stays : (∀ j, x.Same x' j) → (∀ k, x.sockets.Goes x'.sockets k) → Shifts x x' none
  | reads {i d} : d ≠ [] → x.ownSpare i = [] → x'.ownSpare i = [d] → x'.ownBatch i = x.ownBatch i →
      (∀ j, j ≠ i → x.Same x' j) → (∀ k, x.sockets.Goes x'.sockets k) → Shifts x x' (some (i, d))
  | readsOn {i d} : d ≠ [] → x.ownSpare i = [] → x'.ownSpare i = [] → x'.ownBatch i = x.ownBatch i ++ [d] →
      (∀ j, j ≠ i → x.Same x' j) → (∀ k, x.sockets.Goes x'.sockets k) → Shifts x x' (some (i, d))
  | joins {i d} : x.ownSpare i = [d] → x'.ownSpare i = [] → x'.ownBatch i = x.ownBatch i ++ [d] →
      (∀ j, j ≠ i → x.Same x' j) → (∀ k, x.sockets.Goes x'.sockets k) → Shifts x x' none
  | gives {i k} {f : TunnelFrameBuffer} : f.Closed (x.ownBatch i) → x'.ownBatch i = [] →
      x'.ownSpare i = x.ownSpare i → (∀ j, j ≠ i → x.Same x' j) → x.sockets.Finishes x'.sockets i k f →
      Shifts x x' none
  | ends {i : S} {o : Option (List UInt8)} : (x'.threads i).Ended → x'.ownBatch i = [] → x'.ownSpare i = [] →
      (∀ j, j ≠ i → x.Same x' j) →
      (∀ k, x.sockets.Goes x'.sockets k) → Shifts x x' (o.map (i, ·))

theorem ownBatch_congr (hs : (x'.sockets.senders i).sent = (x.sockets.senders i).sent)
    (hc : (x'.calls i).any Invocation.sent = (x.calls i).any Invocation.sent) (ht : x'.threads i = x.threads i) :
    x'.ownBatch i = x.ownBatch i := by
  rw [ownBatch, ownBatch, sent, sent, hs, hc, ht]

theorem Same.congr (hs : (x'.sockets.senders i).sent = (x.sockets.senders i).sent)
    (hc : (x'.calls i).any Invocation.sent = (x.calls i).any Invocation.sent) (ht : x'.threads i = x.threads i) :
    x.Same x' i :=
  ⟨ownBatch_congr hs hc ht, by rw [ownSpare, ownSpare, ht]⟩

theorem Linked.unsent (h : x.Linked i) (hl : ∀ buf, (x.threads i).loop ≠ .invoking buf) : x.sent i = false := by
  obtain ⟨hc, hi⟩ := h.idle hl
  rw [sent, hc, hi]
  rfl

/-- A thread that has ended has nothing in hand. -/
theorem ended_nothing (hend : (x.threads i).Ended) : x.ownBatch i = [] ∧ x.ownSpare i = [] := by
  obtain ⟨hb, hs⟩ := hend.nothing
  rw [ownBatch, ownSpare, hb, ite_self]
  exact ⟨rfl, hs⟩

/-- A step in which no frame gets whole, no thread moves, and no call changes
its outcome. -/
theorem Shifts.quiet (hq : ∀ j, (x'.sockets.senders j).sent = (x.sockets.senders j).sent)
    (hg : ∀ k, x.sockets.Goes x'.sockets k)
    (hc : ∀ j, (x'.calls j).any Invocation.sent = (x.calls j).any Invocation.sent) (ht : x'.threads = x.threads) :
    Shifts x x' none :=
  .stays (fun j => .congr (hq j) (hc j) (congrFun ht j)) hg

section
variable [DecidableEq S] {fd : FileDescriptor} {mtu : Nat} {t : TunnelThread}

/-- A thread's own step. -/
theorem loop_shifts {ev : LoopEvent} (hI : x.Inv) (ho : ev.Own)
    (hst : (x.threads i).step fd mtu x.interrupted ev = some t) :
    Shifts x (x.setThread i t) (ev.datagram.map (i, ·)) := by
  have hl : ∀ buf, (x.threads i).loop ≠ .invoking buf := by
    intro buf hl
    rw [TunnelThread.step_invoking hl ho] at hst
    cases hst
  have hrun : ¬ (x.threads i).Ended := by
    intro hend
    rw [TunnelThread.step_ended hend] at hst
    cases hst
  have hun := (hI.linked i).unsent hl
  have hun' : (x.setThread i t).sent i = false := hun
  obtain ⟨ds, hh, -⟩ := hI.carries i
  have hh := hh.resolve_left hrun
  have hself : (x.setThread i t).threads i = t := setThread_self
  have hbatch : x.ownBatch i = ds := by rw [ownBatch, hun, if_neg Bool.false_ne_true, hh.batch_eq]
  have hspare : x.ownSpare i = (x.threads i).carried := TunnelThread.spare_running hrun
  have hbatch' : ∀ {ds'}, t.Holds ds' → (x.setThread i t).ownBatch i = ds' := by
    intro ds' h'
    rw [ownBatch, hun', if_neg Bool.false_ne_true, hself, h'.batch_eq]
  have hspare' : ∀ {ds'}, t.Holds ds' → (x.setThread i t).ownSpare i = t.carried := by
    intro ds' h'
    rw [ownSpare, hself, TunnelThread.spare_running h'.not_ended]
  have hothers : ∀ j, j ≠ i → x.Same (x.setThread i t) j := fun j hij => .congr rfl rfl (setThread_ne hij)
  have hgoes : ∀ k, x.sockets.Goes (x.setThread i t).sockets k := .of_senders rfl rfl rfl
  rcases TunnelThread.step_holds hst ho hh with ⟨why, hw, -⟩ | ⟨h₁, hm, hd⟩ | ⟨hne, h₁, hm, hd⟩ |
      ⟨d, hd, hne, hm, ⟨h₁, hm'⟩ | ⟨h₁, hm'⟩⟩
  · have hend : ((x.setThread i t).threads i).Ended := by
      rw [hself]
      exact ⟨why, hw⟩
    obtain ⟨hb, hs⟩ := ended_nothing hend
    exact .ends hend hb hs hothers hgoes
  · rw [hd]
    refine .stays (fun j => ?_) hgoes
    by_cases hij : j = i
    · subst hij
      refine ⟨(hbatch' h₁).trans hbatch.symm, ?_⟩
      rw [hspare' h₁, hspare, TunnelThread.carried, hm]
      rfl
    · exact hothers j hij
  · rw [hd]
    refine .joins (hspare.trans (TunnelThread.carried_ne hne)) ?_ ((hbatch' h₁).trans (by rw [hbatch])) hothers hgoes
    rw [hspare' h₁, TunnelThread.carried_nil hm]
  · rw [hd]
    refine .reads hne (hspare.trans (TunnelThread.carried_nil hm)) ?_ ((hbatch' h₁).trans hbatch.symm) hothers hgoes
    rw [hspare' h₁, TunnelThread.carried_ne (by rwa [hm']), hm']
  · rw [hd]
    refine .readsOn hne (hspare.trans (TunnelThread.carried_nil hm)) ?_ ((hbatch' h₁).trans (by rw [hbatch])) hothers
      hgoes
    rw [hspare' h₁, TunnelThread.carried_nil hm']

/-- The socket's pipe is left with the outcome that the sender had. -/
theorem leave_shifts {inside : List PipeId} {buf : TunnelFrameBuffer} {res : Except Exception Unit} (hI : x.Inv)
    (hc : x.calls i = some (.down inside (some .socket))) (hi : x.sockets.senders i = .returned buf res) :
    Shifts x (({ x with sockets := x.sockets.setSender i .idle }.setThread i
      { x.threads i with loop := .invoking buf }).setCall i (some (.up inside res))) none := by
  obtain ⟨buf₀, hl⟩ := (hI.linked i).invoking hc
  have hrun : ¬ (x.threads i).Ended := TunnelThread.not_ended hl (by simp)
  obtain ⟨ds, hh, hb⟩ := hI.carries i
  have hh := hh.resolve_left hrun
  refine .stays (fun j => ?_) (.setSender (i := i) (a := .idle) (by simp [hi]) (by simp) rfl rfl rfl)
  by_cases hij : j = i
  · subst hij
    refine ⟨?_, ?_⟩
    · rw [ownBatch, sent, setCall_self, setCall_threads, setThread_self, setCall_sockets,
        setThread_sockets, ownBatch, sent, SocketState.setSender_self, hi, hc]
      cases res with
      | ok u => rfl
      | error ex => exact (hb buf (by rw [hi]; rfl)).datagrams_eq.trans hh.batch_eq.symm
    · rw [ownSpare, ownSpare, setCall_threads, setThread_self, TunnelThread.spare_running hrun]
      rfl
  · refine .congr (congrArg Sender.sent (SocketState.setSender_ne hij)) ?_ (setThread_ne hij)
    rw [setCall_ne hij]
    rfl

/-- The outcome of a hand-over. -/
theorem outcome_shifts {buf : TunnelFrameBuffer} {res : Except Exception Unit} (hi : x.sockets.senders i = .idle)
    (hc : x.calls i = some (.up [] res)) (hl : (x.threads i).loop = .invoking buf)
    (hst : (x.threads i).step fd mtu x.interrupted (.outcome buf res) = some t) :
    Shifts x ((x.setThread i t).setCall i none) none := by
  have hrun : ¬ (x.threads i).Ended := TunnelThread.not_ended hl (by simp)
  have hself : ((x.setThread i t).setCall i none).threads i = t := by
    rw [setCall_threads, setThread_self]
  have hbatch' : ((x.setThread i t).setCall i none).ownBatch i = t.batch := by
    rw [ownBatch, sent, setCall_self, hself, setCall_sockets, setThread_sockets, hi]
    rfl
  have hothers : ∀ j, j ≠ i → x.Same ((x.setThread i t).setCall i none) j := by
    intro j hij
    refine .congr rfl ?_ (setThread_ne hij)
    rw [setCall_ne hij]
    rfl
  have hgoes : ∀ k, x.sockets.Goes ((x.setThread i t).setCall i none).sockets k := .of_senders rfl rfl rfl
  have hstays : ¬ t.Ended → t.mtuBuffer = (x.threads i).mtuBuffer → t.batch = x.ownBatch i →
      Shifts x ((x.setThread i t).setCall i none) none := by
    intro hrun' hm hb
    refine .stays (fun j => ?_) hgoes
    by_cases hij : j = i
    · subst hij
      refine ⟨hbatch'.trans hb, ?_⟩
      rw [ownSpare, hself, ownSpare, TunnelThread.spare_running hrun', TunnelThread.spare_running hrun,
        TunnelThread.carried, hm]
      rfl
    · exact hothers j hij
  obtain ⟨-, hm, ⟨rfl, ht⟩ | ⟨ex, rfl, ⟨-, ht⟩ | ⟨-, ht⟩⟩⟩ := TunnelThread.step_outcome hst
  · refine hstays (TunnelThread.not_ended ht (by simp)) hm ?_
    rw [ownBatch, sent, hi, hc, TunnelThread.batch, ht]
    rfl
  · refine hstays (TunnelThread.not_ended ht (by simp)) hm ?_
    rw [ownBatch, sent, hi, hc, TunnelThread.batch, TunnelThread.batch, ht, hl]
    rfl
  · have hend : (((x.setThread i t).setCall i none).threads i).Ended := by
      rw [hself]
      exact ⟨_, ht⟩
    obtain ⟨hb, hs⟩ := ended_nothing hend
    exact .ends (o := none) hend hb hs hothers hgoes

variable [DecidableEq K] {fds : S → FileDescriptor} {client : Option SessionId} {l : StackLabel S K}

/-- **What a step of the stack does with the datagrams**, whatever fails, unless
it takes a stream with a torn frame on it. -/
theorem shifts_step (hr : (sendingStack K fds mtu client).Reachable x) (hs : StackStep fds mtu client x l x')
    (hC : ∀ l', l = .socket l' → ¬ TakesTorn ⟨x.sockets, l', x'.sockets⟩) : Shifts x x' l.read := by
  have hI := reachable_inv hr
  cases hs with
  | loop ho hst => exact loop_shifts hI ho hst
  | invoke hloop hc => exact .quiet (fun _ => rfl) (.of_senders rfl rfl rfl) (sent_setCall (by rw [hc]; rfl)) rfl
  | pipe hc hst =>
    exact .quiet (fun _ => rfl) (.of_senders rfl rfl rfl) (sent_setCall (by rw [hc]; exact sent_pipe hst)) rfl
  | pipeAborts hc hst => exact .quiet (fun _ => rfl) (.of_senders rfl rfl rfl) (fun _ => rfl) rfl
  | enter hc hloop hst =>
    obtain ⟨hi, rfl⟩ := hst.call_eq
    exact .quiet (SocketState.sent_setSender rfl (by rw [hi]; rfl))
      (.setSender (by simp [hi]) (by simp) rfl rfl rfl) (fun _ => rfl) rfl
  | leave hc hi hst =>
    obtain rfl := hst.leave_eq
    exact leave_shifts hI hc hi
  | @outcome i buf res t hc hloop hst =>
    exact outcome_shifts ((hI.linked i).idle_outside (by simp [hc])) hc hloop hst
  | socket ho hst =>
    have hcl : ∀ i buf, (x.sockets.senders i).buf = some buf → ∃ ds, TunnelFrameBuffer.Closed buf ds := by
      intro i buf hbuf
      obtain ⟨ds, -, hb⟩ := hI.carries i
      exact ⟨ds, hb buf hbuf⟩
    have huse := SocketState.reachable_streamUse (maps_sockets.reachable hr)
    rcases SocketState.part_step huse hcl (hC _ rfl) hst ho with
      ⟨hq, hg⟩ | ⟨i, k, f, hf⟩
    · exact .quiet hq hg (fun _ => rfl) rfl
    · have hbuf := hf.buf
      obtain ⟨ds, hh, hb⟩ := hI.carries i
      have hin : x.calls i = some (.down [.signing, .compressing, .tunnel] (some .socket)) ∧ ¬ (x.threads i).Ended := by
        cases hI.linked i with
        | own _ h₂ => rw [h₂] at hbuf; cases hbuf
        | down _ _ _ h₄ => rw [h₄] at hbuf; cases hbuf
        | inside h₁ h₂ => exact ⟨h₁, TunnelThread.not_ended h₂ (by simp)⟩
        | up _ _ h₃ => rw [h₃] at hbuf; cases hbuf
      refine .gives (i := i) (k := k) (f := f) ?_ ?_ rfl (fun j hij => .congr (hf.others j hij) rfl rfl) hf
      · rw [ownBatch, sent, hf.before, hin.1]
        exact (hh.resolve_left hin.2).batch_eq.symm ▸ hb f hbuf
      · rw [ownBatch, sent]
        show (if ((_ : Sender K).sent || _) = true then _ else _) = _
        rw [hf.after]
        rfl
  | interrupt => exact .quiet (fun _ => rfl) (.of_senders rfl rfl rfl) (fun _ => rfl) rfl

/-- A thread that has ended stays so. -/
theorem ended_step (hr : (sendingStack K fds mtu client).Reachable x) (hs : StackStep fds mtu client x l x')
    (hend : (x.threads i).Ended) : (x'.threads i).Ended := by
  have hI := reachable_inv hr
  have hcall : ∀ {j : S} {t : TunnelThread}, (∃ c, x.calls j = some c) → ((x.setThread j t).threads i).Ended := by
    intro j t ⟨c, hc⟩
    obtain ⟨buf, hl⟩ := (hI.linked j).invoking hc
    have hij : i ≠ j := by
      intro he
      obtain ⟨why, hw⟩ := hend
      rw [he, hl] at hw
      cases hw
    rw [setThread_ne hij]
    exact hend
  cases hs with
  | @loop j ev t ho hst =>
    have hij : i ≠ j := by
      intro he
      rw [TunnelThread.step_ended (he ▸ hend)] at hst
      cases hst
    rw [setThread_ne hij]
    exact hend
  | leave hc hi hst => exact hcall ⟨_, hc⟩
  | outcome hc hl hst => exact hcall ⟨_, hc⟩
  | _ => exact hend

end

end SendingStack

end RuralPipe
