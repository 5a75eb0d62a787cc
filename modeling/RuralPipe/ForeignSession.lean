/-
A connection that brings a session of its own to a `SocketProducerConsumer`
that has another.

The lookup in `addSocket`'s task throws on it, after the first try block and
before the second. So the exception leaves the task, and the process with all
its connections is gone.
-/
import RuralPipe.SessionTable

namespace RuralPipe

open SocketState

variable {S K : Type}

/-- The exchange on `k` ended with an id other than the present session's. -/
def SocketState.Foreign (x : SocketState S K) (k : K) : Prop :=
  ∃ stream ier, x.tasks k = .exchanged stream ier ∧ x.map.sessions ≠ [] ∧
    ∀ s ∈ x.map.sessions, s.sessionId ≠ ier.sessionId

/-- From `x` to `x'` only the connection `k` is dropped: its task has ended,
the process goes on, and the sessions, their streams and sequence numbers, the
trackers and the other tasks are as before. -/
structure RefusedWithoutHarm (x : SocketState S K) (k : K) (x' : SocketState S K) : Prop where
  crash : x'.crash = none
  task : x'.tasks k = .done
  map : x'.map = x.map
  tasks : ∀ k', k' ≠ k → x'.tasks k' = x.tasks k'
  senders : x'.senders = x.senders

section
variable [DecidableEq S] [DecidableEq K] {client : Option SessionId}

/-- **A foreign session is never refused without harm.** In every state,
reachable or not, the registration of a connection with a foreign session ends
the process: no step that registers it is a refusal, after it nobody takes
another step, and it comes as soon as no sender waits. -/
theorem foreign_session_terminates {x : SocketState S K} {k : K} (hf : x.Foreign k) :
    (∀ x', (sockets S K client).step x (.register k) x' → ¬ RefusedWithoutHarm x k x' ∧
      x'.crash = some (.terminated ⟨.exception, "Currently only one session is supported per server instance"⟩) ∧
      ∀ l x'', ¬ (sockets S K client).step x' l x'') ∧
      (x.crash = none → ¬ x.Shared → ∃ x', (sockets S K client).step x (.register k) x') := by
  obtain ⟨stream, ier, ht, hne, hall⟩ := hf
  have herr : x.map.register k stream ier.sessionId = .error
      ⟨.exception, "Currently only one session is supported per server instance"⟩ :=
    SessionsMap.register_error.2 ⟨hne, hall, rfl⟩
  refine ⟨fun x' hs => ?_, fun hc hsh => ⟨_, hc, .registerThrows ht hsh herr⟩⟩
  obtain ⟨-, hs⟩ := hs
  cases hs with
  | register ht' hsh hreg =>
    rw [ht] at ht'
    cases ht'
    rw [herr] at hreg
    cases hreg
  | registerThrows ht' hsh hreg =>
    rw [ht] at ht'
    cases ht'
    rw [herr] at hreg
    cases hreg
    exact ⟨(fun hr => nomatch hr.crash), rfl, fun l x'' hs' => nomatch hs'.1⟩

end

/-- A server with a session, and a second connection with another one. -/
theorem run_foreign : ∃ tr x, (sockets Unit Bool none).Run tr x ∧ x.Foreign true ∧ x.crash = none ∧ ¬ x.Shared := by
  obtain ⟨frame, -, hcl, hid, -⟩ := initFrame_ok ⟨List.replicate 16 7, rfl⟩ "RuralPipeClient" rfl
  obtain ⟨frame', -, hcl', hid', -⟩ := initFrame_ok ⟨List.replicate 16 9, rfl⟩ "RuralPipeClient" rfl
  obtain ⟨ier, hex, hier⟩ := exchange_server hcl
  obtain ⟨ier', hex', hier'⟩ := exchange_server hcl'
  have hno : ∀ x : SocketState Unit Bool, x.senders = (fun _ => .idle) → ¬ x.Shared := by
    rintro x hx ⟨i, obj, buf, st, n, hw⟩
    rw [hx] at hw
    cases hw
  obtain ⟨tr, hrun, -⟩ := run_exchanged (.init rfl) rfl rfl ⟨⟨"Client 1", 5⟩, fun _ => 0⟩ hex
    (S := Unit) (K := Bool) (k := false)
  have hrun := hrun.step (l := .register false) ⟨rfl, .register setTask_self (hno _ rfl) rfl⟩
  obtain ⟨tr', hrun, -⟩ := run_exchanged hrun rfl (k := true)
    (by rw [setTask_ne (by decide), setTask_map, setTask_ne (by decide)]; rfl)
    ⟨⟨"Client 2", 6⟩, fun _ => 0⟩ hex'
  refine ⟨_, _, hrun, ⟨_, _, setTask_self, by simp, fun s hs => ?_⟩, rfl, hno _ rfl⟩
  rw [setTask_map, setTask_map, List.mem_singleton] at hs
  subst hs
  show ier.sessionId ≠ ier'.sessionId
  rw [hier', hid', hier, hid]
  decide

/-- The second connection's registration there. -/
theorem foreign_session_terminates_second : ∃ tr x x', (sockets Unit Bool none).Run tr x ∧ x.Foreign true ∧
    (sockets Unit Bool none).step x (.register true) x' ∧
    x'.crash = some (.terminated ⟨.exception, "Currently only one session is supported per server instance"⟩) := by
  obtain ⟨tr, x, hrun, hf, hc, hsh⟩ := run_foreign
  obtain ⟨hall, hex⟩ := foreign_session_terminates hf
  obtain ⟨x', hs⟩ := hex hc hsh
  exact ⟨tr, x, x', hrun, hf, hs, (hall x' hs).2.1⟩

/-- It is no refusal: the registration ends the process. -/
theorem foreign_session_harms : ¬ ∀ tr x x' k, (sockets Unit Bool none).Run tr x → x.Foreign k →
    (sockets Unit Bool none).step x (.register k) x' → RefusedWithoutHarm x k x' := by
  intro hall
  obtain ⟨tr, x, hrun, hf, hc, hsh⟩ := run_foreign
  obtain ⟨stream, ier, ht, hne, hids⟩ := hf
  have hs : (sockets Unit Bool none).step x (.register true) _ :=
    ⟨hc, .registerThrows ht hsh (SessionsMap.register_error.2 ⟨hne, hids, rfl⟩)⟩
  exact nomatch (hall tr x _ true hrun ⟨stream, ier, ht, hne, hids⟩ hs).crash

end RuralPipe
