/-
The threads of `_pool`.

A task has a thread from its start to its end, and a connection that stays has
one for good. So a side with more sockets than threads leaves one posted
(`overfull_posted`), and a side with no more of them has a thread for every
posted task (`posted_findsThread`). Both come from two counts: of the tasks that
run, which never are more than the threads (`run_running_le`), and of those not
over, which only `addSocket` makes more.
-/
import RuralPipe.Agreement

namespace RuralPipe

open SocketState Handshake

/-- Given to `addSocket`, and not over. -/
def Task.unfinished : Task → Bool
  | .notAdded => false
  | .done => false
  | _ => true

theorem Task.unfinished_of_running {t : Task} (h : t.running = true) : t.unfinished = true := by
  cases t <;> first | rfl | cases h

theorem Task.posted_of_unfinished {t : Task} (h : t.unfinished = true) (hr : t.running = false) :
    ∃ fd, t = .posted fd := by
  cases t with
  | posted fd => exact ⟨fd, rfl⟩
  | notAdded => cases h
  | done => cases h
  | _ => cases hr

namespace SocketState

variable {S K : Type} {x x' : SocketState S K}

/-- The sockets a side has. -/
def unfinished (x : SocketState S K) : Set K := {k | (x.tasks k).unfinished = true}

theorem mem_running {k : K} : k ∈ x.running ↔ (x.tasks k).running = true := Iff.rfl
theorem mem_unfinished {k : K} : k ∈ x.unfinished ↔ (x.tasks k).unfinished = true := Iff.rfl

theorem running_subset (x : SocketState S K) : x.running ⊆ x.unfinished := fun _ hk => Task.unfinished_of_running hk

/-- Of more sockets than running tasks, one is posted. -/
theorem exists_posted (h : x.running.encard < x.unfinished.encard) : ∃ k fd, x.tasks k = .posted fd := by
  obtain ⟨k, hk, hno⟩ : ∃ k ∈ x.unfinished, k ∉ x.running := by
    by_contra hall
    simp only [not_exists, not_and, not_not] at hall
    exact absurd (Set.encard_le_encard hall) (not_le.2 h)
  obtain ⟨fd, hfd⟩ := Task.posted_of_unfinished hk (Bool.eq_false_iff.2 hno)
  exact ⟨k, fd, hfd⟩

/-- With no more sockets than threads there is one for a posted task. -/
theorem posted_findsThread {threads : Nat} (h : x.unfinished.encard ≤ threads) {k : K} {fd : FileDescriptor}
    (hk : x.tasks k = .posted fd) : x.running.encard < threads := by
  have hfin := (Set.finite_of_encard_le_coe h).subset x.running_subset
  refine lt_of_lt_of_le (hfin.encard_lt_encard ⟨x.running_subset, fun hsub => ?_⟩) h
  have hmem : k ∈ x.running := hsub (by rw [mem_unfinished, hk]; rfl)
  rw [mem_running, hk] at hmem
  cases hmem

section
variable [DecidableEq S] [DecidableEq K] {client : Option SessionId} {l : SocketLabel S K}

/-- Only a start takes a thread. -/
theorem running_step (hs : SocketStep client x l x') {k : K} (hk : k ∈ x'.running) :
    k ∈ x.running ∨ ∃ getfl setfl, l = .start k getfl setfl := by
  rw [mem_running] at hk ⊢
  rcases task_step hs k with ⟨-, heq⟩ | ⟨hl, ht⟩
  · rw [heq] at hk
    exact .inl hk
  · generalize x.tasks k = t at ht
    generalize x'.tasks k = t' at ht hk
    cases ht with
    | start hnb =>
      cases hl
      exact .inr ⟨_, _, rfl⟩
    | add => cases hk
    | startThrows hnb => cases hk
    | exchangeThrows hex => cases hk
    | cleanup => cases hk
    | _ => exact .inl rfl

/-- Only `addSocket` gives a side a socket. -/
theorem unfinished_step (hs : SocketStep client x l x') {k : K} (hk : k ∈ x'.unfinished) :
    k ∈ x.unfinished ∨ ∃ fd, l = .add k fd := by
  rw [mem_unfinished] at hk ⊢
  rcases task_step hs k with ⟨-, heq⟩ | ⟨hl, ht⟩
  · rw [heq] at hk
    exact .inl hk
  · generalize x.tasks k = t at ht
    generalize x'.tasks k = t' at ht hk
    cases ht with
    | add =>
      cases hl
      exact .inr ⟨_, rfl⟩
    | exchangeThrows hex => cases hk
    | cleanup => cases hk
    | _ => exact .inl rfl

/-- A side loses a socket only by the end of its loop, or by an exchange that
throws. -/
theorem kept_step (hs : SocketStep client x l x') {k : K} (hk : k ∈ x.unfinished) (hleave : (x.tasks k).leaving = false)
    (hex : ∀ k io, l = .exchange k io → ∃ ier, initialTunnelFrameExchange client io = .ok ier) :
    k ∈ x'.unfinished := by
  rw [mem_unfinished] at hk ⊢
  rcases task_step hs k with ⟨-, heq⟩ | ⟨-, ht⟩
  · rw [heq]
    exact hk
  · generalize x.tasks k = t at ht hk hleave
    generalize x'.tasks k = t' at ht
    cases ht with
    | exchangeThrows hno =>
      obtain ⟨ier, hok⟩ := hex _ _ rfl
      cases hok.symm.trans hno
    | cleanup => cases hleave
    | _ => rfl

/-- A start takes no more than one thread. -/
theorem running_le_step {threads : Nat} (hs : SocketStep client x l x') (hf : FindsThread threads x l)
    (h : x.running.encard ≤ threads) : x'.running.encard ≤ threads := by
  by_cases hl : ∃ k getfl setfl, l = .start k getfl setfl
  · obtain ⟨k, getfl, setfl, rfl⟩ := hl
    have hsub : x'.running ⊆ insert k x.running := by
      intro k' hk'
      rcases running_step hs hk' with hk' | ⟨_, _, he⟩
      · exact .inr hk'
      · cases he
        exact .inl rfl
    exact (Set.encard_le_encard hsub).trans ((Set.encard_insert_le _ _).trans
      (Order.add_one_le_of_lt (hf k getfl setfl rfl)))
  · refine (Set.encard_le_encard fun k hk => ?_).trans h
    rcases running_step hs hk with hk | ⟨getfl, setfl, rfl⟩
    · exact hk
    · exact absurd ⟨k, getfl, setfl, rfl⟩ hl

/-- `addSocket` gives no more than one. -/
theorem unfinished_le_step {threads : Nat} (hs : SocketStep client x l x')
    (hf : ∀ k fd, l = .add k fd → x.unfinished.encard < threads) (h : x.unfinished.encard ≤ threads) :
    x'.unfinished.encard ≤ threads := by
  by_cases hl : ∃ k fd, l = .add k fd
  · obtain ⟨k, fd, rfl⟩ := hl
    have hsub : x'.unfinished ⊆ insert k x.unfinished := by
      intro k' hk'
      rcases unfinished_step hs hk' with hk' | ⟨_, he⟩
      · exact .inr hk'
      · cases he
        exact .inl rfl
    exact (Set.encard_le_encard hsub).trans ((Set.encard_insert_le _ _).trans (Order.add_one_le_of_lt (hf k fd rfl)))
  · refine (Set.encard_le_encard fun k hk => ?_).trans h
    rcases unfinished_step hs hk with hk | ⟨fd, rfl⟩
    · exact hk
    · exact absurd ⟨k, fd, rfl⟩ hl

end

end SocketState

/-! ## Two sides -/

namespace Handshake

variable {S K : Type}

/-- A side is given a socket only while it has fewer than its `_pool` has threads. -/
def FitsPool (threads : Side → Nat) (t : Machine.Transition (Handshake S K) (HandshakeLabel S K)) : Prop :=
  ∀ s k fd, t.label = .socket s (.add k fd) → (t.pre.sockets s).unfinished.encard < threads s

variable [DecidableEq S] [DecidableEq K] {threads : Side → Nat} {c : SessionId} {x x' : Handshake S K}
  {l : HandshakeLabel S K} {tr : List (Machine.Transition (Handshake S K) (HandshakeLabel S K))}

/-- What has its thread, or is no task's, steps in a pool of any size. -/
theorem pooled_socket {s : Side} {l : SocketLabel S K} {y : SocketState S K} (hc : (x.sockets s).crash = none)
    (hs : SocketStep (s.clientSessionId c) (x.sockets s) l y) (hex : ∀ k io, l ≠ .exchange k io)
    (hst : ∀ k getfl setfl, l ≠ .start k getfl setfl) :
    (pooled S K threads c).step x (.socket s l) (x.setSockets s y) := by
  refine ⟨⟨hc, .socket hex hs⟩, ?_⟩
  rintro _ _ ⟨⟩ k getfl setfl rfl
  exact absurd rfl (hst k getfl setfl)

theorem pooled_exchange {s : Side} {k : K} {ev : ExchangeEvent} (hc : (x.sockets s).crash = none)
    (hs : HandshakeStep c x (.exchange s k ev) x') : (pooled S K threads c).step x (.exchange s k ev) x' :=
  ⟨⟨hc, hs⟩, fun _ _ hl => nomatch hl⟩

theorem pooled_receive {s : Side} {k : K} {ev : ReceivingEvent} (hc : (x.sockets s).crash = none)
    (hs : HandshakeStep c x (.receive s k ev) x') : (pooled S K threads c).step x (.receive s k ev) x' :=
  ⟨⟨hc, hs⟩, fun _ _ hl => nomatch hl⟩

theorem run_running_le (h : (pooled S K threads c).Run tr x) (s : Side) :
    (x.sockets s).running.encard ≤ threads s := by
  refine h.reachable.invariant (I := fun x => (x.sockets s).running.encard ≤ (threads s : ℕ∞)) ?_ ?_
  · intro y hy
    have hnone : (y.sockets s).running = ∅ := by
      rw [Handshake.Starts.sockets hy s]
      exact Set.eq_empty_of_forall_notMem fun k hk => nomatch hk
    rw [hnone, Set.encard_empty]
    exact bot_le
  · intro y l y' _ hI hs
    obtain ⟨hshare, halone⟩ := share_step hs.1.2 s
    cases hl : share s l with
    | none =>
      rw [halone hl]
      exact hI
    | some l' => exact running_le_step (hshare l' hl) (hs.2 s l' (share_eq hl)) hI

theorem unfinished_le_next (hs : HandshakeStep c x l x') (hf : FitsPool threads ⟨x, l, x'⟩) {s : Side}
    (h : (x.sockets s).unfinished.encard ≤ threads s) : (x'.sockets s).unfinished.encard ≤ threads s := by
  obtain ⟨hshare, halone⟩ := share_step hs s
  cases hl : share s l with
  | none =>
    rw [halone hl]
    exact h
  | some l' =>
    refine unfinished_le_step (hshare l' hl) (fun k fd he => hf s k fd ?_) h
    rw [← he]
    exact share_eq hl

theorem run_unfinished_le (h : (pooled S K threads c).Run tr x) (hf : ∀ t ∈ tr, FitsPool threads t) (s : Side) :
    (x.sockets s).unfinished.encard ≤ threads s := by
  refine (h.guarded (C := FitsPool threads) (I := fun x => (x.sockets s).unfinished.encard ≤ (threads s : ℕ∞))
    ?_ ?_ hf).1
  · intro y hy
    have hnone : (y.sockets s).unfinished = ∅ := by
      rw [Handshake.Starts.sockets hy s]
      exact Set.eq_empty_of_forall_notMem fun k hk => nomatch hk
    rw [hnone, Set.encard_empty]
    exact bot_le
  · exact fun y l y' _ hI hfits hs => unfinished_le_next hs.1.2 hfits hI

/-- No descriptor fails and no loop ends. -/
def Lasting (t : Machine.Transition (Handshake S K) (HandshakeLabel S K)) : Prop :=
  t.label.Intact ∧ ¬ t.label.EndsLoop

/-- **A side with more sockets than threads never gets to the last of them**:
while no descriptor fails and no loop ends, one of its tasks stays posted. -/
theorem overfull_posted {tr' : List (Machine.Transition (Handshake S K) (HandshakeLabel S K))} {t}
    (h : (pooled S K threads c).Run (tr ++ t :: tr') x) (hlast : ∀ u ∈ tr ++ t :: tr', Lasting u) {s : Side}
    (hfull : threads s < (t.post.sockets s).unfinished.encard) : ∃ k fd, (x.sockets s).tasks k = .posted fd := by
  have hkept := ((h.restrict hlast).since (C := fun _ => True)
    (I := fun y => (t.post.sockets s).unfinished ⊆ (y.sockets s).unfinished) ?_ subset_rfl fun _ _ => trivial).1
  · exact exists_posted ((run_running_le h s).trans_lt (hfull.trans_le (Set.encard_le_encard hkept)))
  · intro y l y' hr hI _ hs k hk
    obtain ⟨tr₀, hr₀, hlast₀⟩ := hr.restrict
    have hr₀ := hr₀.of_restrict.1
    obtain ⟨hshare, halone⟩ := share_step hs.1.1.2 s
    cases hl : share s l with
    | none =>
      rw [halone hl]
      exact hI hk
    | some l' =>
      obtain ⟨hleave, -⟩ := run_staying (run_trace hr₀ s) fun u hu => by
        obtain ⟨v, hv, hlab⟩ := mem_trace hu
        have := (hlast₀ v hv).2
        rw [hlab] at this
        exact this
      refine kept_step (hshare l' hl) (hI hk) (hleave k) fun k io he => ?_
      subst he
      obtain rfl := share_eq hl
      exact ⟨_, (run_agrees hr₀ fun u hu => (hlast₀ u hu).1).exchanged hs.1.1.2⟩

end Handshake

end RuralPipe
