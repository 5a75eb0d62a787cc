/-
The lifetime of a session against the senders that use it.

A sender holds no lock during its `send`, and its guard locks the session's
mutex afterwards. So the session it selected is there for as long as no
cleanup erases it in between (`session_outlives_iff`); the comment in
`addSocket` counts only the receive loop among the users of the reference.
-/
import RuralPipe.SessionTable

namespace RuralPipe

namespace SocketState

variable {S K : Type} {x x' : SocketState S K}

/-- Some sender has selected a stream of the session `obj` and not finished
its guard. -/
def Sends (x : SocketState S K) (obj : Nat) : Prop := ∃ i s, x.senders i = .sending s ∧ s.obj = obj

/-- The session `obj` is in `_sessions`. -/
def Holds (x : SocketState S K) (obj : Nat) : Prop := ∃ s ∈ x.map.sessions, s.obj = obj

/-- Every sender's session is present. -/
def Present (x : SocketState S K) : Prop := ∀ obj, x.Sends obj → x.Holds obj

/-- What a step does to a session's presence: only a cleanup can end it. -/
theorem Holds.stamped [DecidableEq K] {s : Session K} {obj : Nat} (hs : x.map.sessions = [s])
    (hm : x'.map.sessions = (x.map.stamped s).sessions) (h : x.Holds obj) : x'.Holds obj := by
  obtain ⟨t, ht, rfl⟩ := h
  rw [hs, List.mem_singleton] at ht
  subst ht
  exact ⟨{ t with nextSeqNum := t.nextSeqNum + 1 }, by rw [hm]; exact List.mem_singleton.2 rfl, rfl⟩

theorem Holds.map {f : Session K → Session K} {obj : Nat} (hf : ∀ s, (f s).obj = s.obj)
    (hm : x'.map.sessions = x.map.sessions.map f) (h : x.Holds obj) : x'.Holds obj := by
  obtain ⟨t, ht, rfl⟩ := h
  exact ⟨f t, by rw [hm]; exact List.mem_map_of_mem ht, hf t⟩

end SocketState

open SocketState

/-- A cleanup about to erase a session with its last stream, while a sender
has selected a stream of it and not finished its guard. -/
def ErasesUnderSender {S K : Type} [DecidableEq K]
    (t : Machine.Transition (SocketState S K) (SocketLabel S K)) : Prop :=
  ∃ k sid s, t.label = .cleanup k ∧ t.pre.tasks k = .closed sid ∧ t.pre.map.find sid = some s ∧
    s.streams.erase k = [] ∧ t.pre.Sends s.obj

variable {S K : Type} [DecidableEq S] [DecidableEq K] {client : Option SessionId}

/-- Before a step too, the session of every sender is there: it had it, or it
selects it, or has waited for it. -/
theorem holds_of_sends {x x' : SocketState S K} {l : SocketLabel S K} (ht : x.Table) (h : x.Present)
    (hs : SocketStep client x l x') {obj : Nat} (h' : x'.Sends obj) : x.Holds obj := by
  obtain ⟨i, s, hi, rfl⟩ := h'
  rcases sender_step hs i with heq | hst
  · exact h s.obj ⟨i, s, heq.symm.trans hi, rfl⟩
  · rw [hi] at hst
    generalize ha : x.senders i = a at hst
    cases hst with
    | take hsel =>
      obtain ⟨s, hsess, rfl, -⟩ := SessionsMap.select_take hsel
      exact ⟨s, by simp [hsess], rfl⟩
    | recheckTake hre =>
      have hw : x.Waits _ := ⟨i, _, _, _, ha⟩
      cases ht with
      | empty _ _ hno => exact absurd hw (hno _)
      | one s hsess _ _ _ _ hobj => exact ⟨s, by simp [hsess], (hobj _ hw).symm⟩
    | io => exact h _ ⟨i, _, ha, rfl⟩

theorem present_step {x x' : SocketState S K} {l : SocketLabel S K} (ht : x.Table) (h : x.Present)
    (hC : ¬ ErasesUnderSender ⟨x, l, x'⟩) (hs : SocketStep client x l x') : x'.Present := by
  intro obj h'
  have hold := holds_of_sends ht h hs h'
  cases hs with
  | take hi hsel =>
    obtain ⟨s, hsess, -, -, -, -, rfl⟩ := SessionsMap.select_take hsel
    exact hold.stamped hsess rfl
  | wait hi hsel =>
    obtain ⟨s, hsess, -, -, -, -, rfl⟩ := SessionsMap.select_wait hsel
    exact hold.stamped hsess rfl
  | recheckTake hi hre =>
    obtain ⟨-, rfl⟩ := SessionsMap.recheck_some hre
    exact hold
  | complete hi hout hc hwk =>
    obtain ⟨-, rfl⟩ := SessionsMap.complete_ok hc
    obtain ⟨s, hs, ho⟩ := hold
    exact ⟨s, by simpa using hs, ho⟩
  | register hk hsh hreg =>
    rcases SessionsMap.register_sessions hreg with ⟨hs, -⟩ | ⟨s, hf, hs'⟩
    · obtain ⟨t, ht', -⟩ := hold
      rw [hs] at ht'
      cases ht'
    · exact hold.map (fun s => by split <;> rfl) hs'
  | close hk hcl =>
    obtain ⟨fd, -, rfl⟩ := SessionsMap.closeStream_ok hcl
    exact hold
  | @cleanup k sid map hk hsh hcl =>
    obtain ⟨s, hf, ⟨hemp, hs'⟩ | ⟨-, hs'⟩⟩ := SessionsMap.cleanup_sessions hcl
    · obtain ⟨t, ht', rfl⟩ := hold
      have hmem := List.mem_of_find?_eq_some hf
      cases ht with
      | empty hs => rw [hs] at hmem; cases hmem
      | one s₁ hs =>
        rw [hs, List.mem_singleton] at hmem ht'
        subst hmem ht'
        exact absurd ⟨k, sid, _, rfl, hk, hf, hemp, h'⟩ hC
    · exact hold.map (fun s => by split <;> rfl) hs'
  | _ => exact hold

/-- The cleanup that erases a session under a sender leaves that sender
without it. -/
theorem not_present_of_erases {x x' : SocketState S K} {l : SocketLabel S K} (ht : x.Table)
    (hC : ErasesUnderSender ⟨x, l, x'⟩) (hs : SocketStep client x l x') : ¬ x'.Present := by
  obtain ⟨k, sid, s, rfl, hk, hf, hemp, hsend⟩ := hC
  have hmem := List.mem_of_find?_eq_some hf
  cases hs with
  | cleanup hk' hsh hcl =>
    rw [hk] at hk'
    cases hk'
    obtain ⟨s', hf', hcases⟩ := SessionsMap.cleanup_sessions hcl
    rw [hf] at hf'
    cases hf'
    rcases hcases with ⟨-, hs'⟩ | ⟨hne, -⟩
    · intro hp
      obtain ⟨t, ht', -⟩ := hp s.obj hsend
      rw [setTask_map, hs'] at ht'
      cases ht with
      | empty hs => rw [hs] at hmem; cases hmem
      | one s₁ hs =>
        rw [hs, List.mem_singleton] at hmem
        subst hmem
        have hsid : s.sessionId = sid := by simpa using List.find?_some hf
        rw [hs] at ht'
        simp [hsid] at ht'
    · exact absurd hemp hne
  | cleanupCrash hk' hsh hcl =>
    rw [hk] at hk'
    cases hk'
    rw [SessionsMap.cleanup, hf] at hcl
    simp only at hcl
    split at hcl <;> cases hcl

/-- **A session outlives its senders unless a cleanup takes it away.** In every
run, each sender that has selected a stream and not finished its guard finds
its session in the table, throughout, exactly when no cleanup of the run erases
a session under such a sender. -/
theorem session_outlives_iff {tr : List (Machine.Transition (SocketState S K) (SocketLabel S K))}
    {x : SocketState S K} (h : (sockets S K client).Run tr x) :
    (∀ t ∈ tr, t.post.Present) ↔ ∀ t ∈ tr, ¬ ErasesUnderSender t := by
  refine h.guarded_iff (P := Present) (C := fun t => ¬ ErasesUnderSender t) ?_ ?_ ?_
  · intro y hy obj hsend
    cases hy
    obtain ⟨i, s, hi, -⟩ := hsend
    cases hi
  · intro y l y' hr hP hC hs
    exact present_step (reachable_table hr) hP hC hs.2
  · intro y l y' hr hC hs
    exact not_present_of_erases (reachable_table hr) (not_not.1 hC) hs.2

/-- A frame is sent, and then a cleanup erases the session, which nobody uses any
more. -/
theorem session_outlives_iff_sent : ∃ tr x, (sockets Unit Unit none).Run tr x ∧ (∃ t ∈ tr, t.post.Sends 0) ∧
    (∃ t ∈ tr, t.label = .cleanup () ∧ t.pre.map.sessions ≠ []) ∧ x.map.sessions = [] ∧ ∀ t ∈ tr, t.post.Present := by
  obtain ⟨tr, hrun, htr⟩ := run_serving ⟨List.replicate 16 7, rfl⟩
  have hrun := hrun.step (l := .call () ⟨fun _ => 0, 160⟩) ⟨rfl, .call rfl⟩
  have hrun := hrun.step (l := .select ()) ⟨rfl, .take setSender_self rfl⟩
  have hrun := hrun.step (l := .io () (.call (.ok 160)))
    ⟨rfl, .io setSender_self (fun hlt => absurd hlt (by decide)) rfl⟩
  have hrun := hrun.step (l := .complete () none) ⟨rfl, .complete setSender_self rfl rfl (by
    intro _ _ _ hw
    cases hw)⟩
  have hrun := hrun.step (l := .leave ()) ⟨rfl, .leave rfl⟩
  obtain ⟨tr', hrun, hls, hs⟩ := run_left (k := ()) hrun rfl rfl (fun ⟨_, _, _, _, _, hw⟩ => nomatch hw)
    ⟨.system, "Connection reset"⟩ rfl rfl
  have hclean : .cleanup () ∈ tr'.map (·.label) := by
    rw [hls]
    simp
  obtain ⟨t, ht, hl⟩ := List.mem_map.1 hclean
  refine ⟨_, _, hrun, ⟨_, List.mem_append_left _ (List.mem_append_left _ (List.mem_append_left _ (List.mem_append_left _
    (List.mem_append_right _ (List.mem_singleton_self _))))), (), _, rfl, rfl⟩, ⟨t, List.mem_append_right _ ht, hl, ?_⟩,
    rfl, (session_outlives_iff hrun).2 fun t ht => ?_⟩
  · rw [(hs t ht).2]
    exact List.cons_ne_nil _ _
  · rintro ⟨k, -, -, hl, -, -, -, i, s, hi, -⟩
    simp only [List.mem_append, List.mem_singleton] at ht
    rcases ht with (((((ht | rfl) | rfl) | rfl) | rfl) | rfl) | ht
    · rcases htr t ht with (⟨_, he⟩ | ⟨_, _, he⟩ | ⟨_, he⟩) | he <;> (rw [hl] at he; cases he)
    all_goals try cases hl
    rw [(hs t ht).1] at hi
    cases hi

/-- A cleanup erases the one session while a sender is in its `send`. -/
theorem session_erased_under_sender : ∃ tr x, (sockets Unit Unit none).Run tr x ∧ x.Sends 0 ∧
    x.map.sessions = [] ∧ ¬ x.Present := by
  obtain ⟨tr, sid, hrun, -⟩ := run_oneStream
  have hrun := hrun.step (l := .call () ⟨fun _ => 0, 160⟩) ⟨rfl, .call rfl⟩
  have hrun := hrun.step (l := .select ()) ⟨rfl, .take setSender_self rfl⟩
  have hrun := hrun.step (l := .receiveEnds () (.throw ⟨.system, "Connection reset"⟩)) ⟨rfl, .receiveEnds rfl⟩
  have hrun := hrun.step (l := .close ()) ⟨rfl, .close setTask_self rfl⟩
  have hrun := hrun.step (l := .cleanup ()) ⟨rfl, .cleanup setTask_self (fun ⟨_, _, _, _, _, hw⟩ => nomatch hw)
    (by simp [SessionsMap.cleanup, SessionsMap.find, oneStream, SessionsMap.take, SessionsMap.setTracker,
      setSender, setTask]; rfl)⟩
  refine ⟨_, _, hrun, ⟨(), _, rfl, rfl⟩, by simp, fun hp => ?_⟩
  obtain ⟨s, hs, -⟩ := hp 0 ⟨(), _, rfl, rfl⟩
  simp at hs

end RuralPipe
