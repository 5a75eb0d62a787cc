/-
Who is in the session table.

A task is in the table from its registration to its cleanup, under the session
id that its exchange obtained (`Obtained`). With the table's invariant this
says exactly what `_sessions` holds whenever no exclusive section is under way,
and that the three assertions that rest on it cannot fail (`sessions_exact`).
-/
import RuralPipe.SessionTable

namespace RuralPipe

open SocketState

/-- The assertion of `~SocketProducerConsumer`, past `_pool.join()`. -/
def SessionsMap.destructor {K : Type} (m : SessionsMap K) : Except Crash Unit :=
  if m.sessions.isEmpty then .ok () else .error (.aborted "_sessions.empty()")

/-! ## Sessions obtained -/

/-- The session id that the task's exchange returned. -/
def Task.sessionId : Task → Option SessionId
  | .exchanged _ ier => some ier.sessionId
  | .receiving sid => some sid
  | .loopEnded sid => some sid
  | .closed sid => some sid
  | _ => none

theorem Task.sessionId_of_registered {t : Task} {sid : SessionId} (h : t.registered = some sid) :
    t.sessionId = some sid := by
  cases t <;> simp_all [Task.registered, Task.sessionId]

section
variable {S K : Type}

/-- `_pool.join()` returns: every task posted has ended. -/
def SocketState.Joined (x : SocketState S K) : Prop := ∀ k, x.tasks k = .notAdded ∨ x.tasks k = .done

/-- The exchange of the task `k` returned the session id `sid`. -/
def Obtained (client : Option SessionId) (tr : List (Machine.Transition (SocketState S K) (SocketLabel S K))) (k : K)
    (sid : SessionId) : Prop :=
  ∃ t ∈ tr, ∃ io ier, t.label = .exchange k io ∧ initialTunnelFrameExchange client io = .ok ier ∧ ier.sessionId = sid

variable [DecidableEq K] {x : SocketState S K} {k : K} {sid : SessionId}

variable [DecidableEq S] {client : Option SessionId}

/-- A task comes by its session id in its exchange only. -/
theorem sessionId_step {l : SocketLabel S K} {x' : SocketState S K} (hs : SocketStep client x l x')
    (h : (x'.tasks k).sessionId = some sid) :
    (x.tasks k).sessionId = some sid ∨
      ∃ io ier, l = .exchange k io ∧ initialTunnelFrameExchange client io = .ok ier ∧ ier.sessionId = sid := by
  rcases task_step hs k with ⟨-, heq⟩ | ⟨hk, ht⟩
  · rw [heq] at h
    exact .inl h
  · generalize x.tasks k = t at ht ⊢
    generalize x'.tasks k = t' at ht h
    cases ht with
    | add => cases h
    | start hnb => cases h
    | startThrows hnb => cases h
    | exchange hex =>
      cases hk
      exact .inr ⟨_, _, rfl, hex, Option.some_inj.1 h⟩
    | exchangeThrows hex => cases h
    | exchangeAborts hex => cases h
    | cleanup => cases h
    | _ => exact .inl h

theorem run_obtained {tr : List (Machine.Transition (SocketState S K) (SocketLabel S K))}
    (h : (sockets S K client).Run tr x) (hk : (x.tasks k).sessionId = some sid) : Obtained client tr k sid := by
  induction h with
  | init hi =>
    cases hi
    cases hk
  | step hr hs ih =>
    rcases sessionId_step hs.2 hk with hk' | ⟨io, ier, hl, hex, hsid⟩
    · obtain ⟨t, ht, hobt⟩ := ih hk'
      exact ⟨t, List.mem_append_left _ ht, hobt⟩
    · exact ⟨_, List.mem_append_right _ (List.mem_singleton_self _), io, ier, hl, hex, hsid⟩

/-- What the table says in one state, and what cannot fail there. -/
structure SocketState.Exact (x : SocketState S K) : Prop where
  atMostOne : x.map.sessions.length ≤ 1
  nonempty : ∀ s ∈ x.map.sessions, s.streams ≠ []
  listedOnce : ∀ s ∈ x.map.sessions, s.streams.Nodup
  listed : ∀ s ∈ x.map.sessions, ∀ k, k ∈ s.streams ↔ (x.tasks k).registered = some s.sessionId
  found : ∀ k sid, (x.tasks k).registered = some sid → ∃ s, x.map.find sid = some s ∧ k ∈ s.streams
  cleanup : ∀ k sid, x.tasks k = .closed sid → ∃ map, x.map.cleanup k sid = .ok map
  select : ∀ buf c, x.map.select buf ≠ .crash c
  destructor : x.Joined → x.map.destructor = .ok ()

omit [DecidableEq S] in
theorem SocketState.Table.exact (h : x.Table) : x.Exact := by
  cases h with
  | empty hs hk _ =>
    refine ⟨by simp [hs], by simp [hs], by simp [hs], by simp [hs], fun k sid hr => ?_, fun k sid hc => ?_,
      fun buf c hsel => ?_, fun _ => by simp [SessionsMap.destructor, hs]⟩
    · rw [hk k] at hr
      cases hr
    · have := hk k
      rw [hc] at this
      cases this
    · obtain ⟨s, hmem, -⟩ := SessionsMap.select_crash hsel
      rw [hs] at hmem
      cases hmem
  | one s hs hne hnd hk hsid _ =>
    have hfind : ∀ k sid, (x.tasks k).registered = some sid → ∃ s, x.map.find sid = some s ∧ k ∈ s.streams := by
      intro k sid hr
      obtain rfl := hsid k sid hr
      exact ⟨s, by simp [SessionsMap.find, hs], (hk k).2 hr⟩
    refine ⟨by simp [hs], by simp [hs, hne], by simp [hs, hnd], ?_, hfind, fun k sid hc => ?_, fun buf c hsel => ?_,
      fun hj => ?_⟩
    · intro s' hmem
      rw [hs, List.mem_singleton] at hmem
      exact hmem ▸ hk
    · obtain ⟨s', hf, -⟩ := hfind k sid (by rw [hc]; rfl)
      simp only [SessionsMap.cleanup, hf]
      split <;> exact ⟨_, rfl⟩
    · obtain ⟨s', hmem, hcrash⟩ := SessionsMap.select_crash hsel
      rw [hs, List.mem_singleton] at hmem
      subst hmem
      exact hne (hcrash hs)
    · -- A listed stream has a task that has not ended.
      obtain ⟨k, ks, hst⟩ := List.exists_cons_of_ne_nil hne
      have hr := (hk k).1 (by simp [hst])
      rcases hj k with h | h <;> (rw [h] at hr; cases hr)

/-- **The session table is exact.** In every run: `_sessions` holds at most
one session, no session's list is empty, and the streams listed, each once,
are those of the tasks between their registration and their cleanup, in the
session whose id the task's exchange returned. So a cleanup finds its session,
a selection looks at one session with a stream, and once every task has ended
the destructor finds no session left. -/
theorem sessions_exact {tr : List (Machine.Transition (SocketState S K) (SocketLabel S K))}
    (h : (sockets S K client).Run tr x) :
    x.Exact ∧ ∀ k sid, (x.tasks k).registered = some sid → Obtained client tr k sid :=
  ⟨(reachable_table h.reachable).exact, fun _ _ hr => run_obtained h (Task.sessionId_of_registered hr)⟩

end

/-- The first of two streams has left. -/
theorem sessions_exact_left : ∃ tr x sid, (sockets Unit Bool none).Run tr x ∧ x.tasks false = .done ∧
    x.map.sessions = [{ obj := 0, sessionId := sid, nextSeqNum := 1, streams := [true] }] ∧ x.Exact ∧
    Obtained none tr true sid := by
  obtain ⟨tr, hrun, -⟩ := run_twoStreams Unit ⟨List.replicate 16 7, rfl⟩
  obtain ⟨tr', hrun, -, -⟩ := run_left (k := false) hrun rfl rfl (fun ⟨_, _, _, _, _, hw⟩ => nomatch hw)
    ⟨.system, "Connection reset"⟩ rfl rfl
  obtain ⟨hexact, hobt⟩ := sessions_exact hrun
  exact ⟨_, _, _, hrun, SocketState.setTask_self, rfl, hexact, hobt true _ rfl⟩

end RuralPipe
