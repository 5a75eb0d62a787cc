/-
The client's process (`client/client_main.cpp`): the connect loop, and the
`ContextBase` it calls.

One thread runs both, so while it is in the loop's `waitForExit` there is nobody
to call `exit`: a client that has connected stays, whatever becomes of its
connections, and one that ends has failed (`client_ends_failed`).
-/
import RuralPipe.ConnectLoop
import RuralPipe.ContextBase

namespace RuralPipe

open Machine

/-- The loop, the context, and what `main` has returned. -/
structure ClientExit where
  client : Client
  context : ContextBase Unit
  result : Option Int

inductive ClientExitLabel
  | connect (ev : ConnectEvent)
  | waitForExit
  | context (l : ContextLabel Unit)
  | leave
  | main

/-- A step of the loop, which in its second `catch` clause calls `exit`; the call
of `waitForExit` at the loop's end, or at that of `main`; a step of these calls;
or the return from `waitForExit`, to the loop or from `main`. -/
inductive ClientExitStep (interfaces : List String) : ClientExit → ClientExitLabel → ClientExit → Prop
  | connect {p : ClientExit} {ev client} : p.client.loop ≠ .waitForExit →
      p.client.step interfaces ev = some client → client.exitCode = none →
      ClientExitStep interfaces p (.connect ev) { p with client }
  | fail {p : ClientExit} {ev client code context} : p.client.loop ≠ .waitForExit →
      p.client.step interfaces ev = some client → client.exitCode = some code →
      p.context.step (.exit () code) = some context →
      ClientExitStep interfaces p (.connect ev) { p with client, context }
  | waitForExit {p : ClientExit} {context} : p.client.loop = .waitForExit ∨ p.client.loop = .ended →
      p.context.threads () = .outside → p.context.step (.waitForExit ()) = some context →
      ClientExitStep interfaces p .waitForExit { p with context }
  | goesOn {p : ClientExit} {context} : p.context.step (.goesOn ()) = some context →
      ClientExitStep interfaces p (.context (.goesOn ())) { p with context }
  | spurious {p : ClientExit} {context} : p.context.step (.spurious ()) = some context →
      ClientExitStep interfaces p (.context (.spurious ())) { p with context }
  | leave {p : ClientExit} {code client} : p.client.loop = .waitForExit →
      p.context.threads () = .returned code → p.client.step interfaces .tau = some client →
      ClientExitStep interfaces p .leave { p with client }
  | main {p : ClientExit} {code} : p.client.loop = .ended → p.context.threads () = .returned code →
      ClientExitStep interfaces p .main { p with result := some code }

/-- The process, from the start of `runConnectToServerLoop` on. -/
def clientExit (interfaces : List String) : Machine ClientExit ClientExitLabel where
  init p := p = { client := .start interfaces, context := .initial, result := none }
  step := ClientExitStep interfaces

namespace ClientExit

/-- `exit` has not been called, nor is it about to be. -/
def NoExit (x : ContextBase Unit) : Prop := x.calls = [] ∧ ∀ c, x.threads () ≠ .exitLocks c

/-- The context has had a run of its own; before the loop has ended nobody has
called `exit`, and it ends with a code; and the only code is 1. -/
structure Inv (p : ClientExit) : Prop where
  context : (contextBase Unit).Reachable p.context
  noExit : p.client.loop ≠ .ended → NoExit p.context ∧ p.client.exitCode = none
  ended : p.client.loop = .ended → p.client.exitCode = some 1
  calls : ∀ c ∈ p.context.calls, c = 1
  exits : ∀ c, p.context.threads () = .exitLocks c → c = 1
  result : ∀ c, p.result = some c → c = 1 ∧ p.client.loop = .ended

variable {interfaces : List String} {p p' : ClientExit} {l : ClientExitLabel}

/-- Without a call of `exit` nobody returns from `waitForExit`. -/
theorem NoExit.not_returned {x : ContextBase Unit} (h : NoExit x) (hr : (contextBase Unit).Reachable x) (c : Int) :
    x.threads () ≠ .returned c := by
  intro hi
  have hI := ContextBase.reachable_inv hr
  have hfirst := hI.first c (hI.read () c (.inr hi))
  rw [h.1] at hfirst
  cases hfirst

/-- The head of the inner loop is not its end. -/
theorem head_loop {c : Client} (i : Nat) : (c.head interfaces i).loop ≠ .ended := by
  unfold Client.head
  split <;> simp

theorem noExit_initial : NoExit .initial := ⟨rfl, fun _ h => nomatch h⟩

theorem Inv.initial : ({ client := .start interfaces, context := .initial, result := none } : ClientExit).Inv where
  context := .init rfl
  noExit := fun _ => ⟨noExit_initial, rfl⟩
  ended := fun h => by
    have hhead : ({ loop := .sleeping, added := [], exitCode := none } : Client).head interfaces 0 = .start interfaces := rfl
    rw [← hhead] at h
    exact absurd h (head_loop 0)
  calls := fun _ h => nomatch h
  exits := fun _ h => nomatch h
  result := fun _ h => nomatch h

/-- A step of a call begins no `exit`, and the one it takes up was begun. -/
theorem goesOn_calls {x x' : ContextBase Unit} (h : x.goesOn () = some x') : (∀ c, x'.threads () ≠ .exitLocks c) ∧
    (x'.calls = x.calls ∨ ∃ c, x.threads () = .exitLocks c ∧ x'.calls = x.calls ++ [c]) := by
  cases ht : x.threads () with
  | outside | asleep | returned c => simp [ContextBase.goesOn, ht] at h
  | exitLocks c =>
    simp only [ContextBase.goesOn, ht] at h
    split at h <;> cases h
    exact ⟨(fun c' he => by cases he), .inr ⟨c, rfl, rfl⟩⟩
  | exitTests c | waitLocks | waitTests | woken =>
    simp only [ContextBase.goesOn, ht] at h
    split at h <;> cases h
    all_goals exact ⟨(fun c' he => by cases he), .inl rfl⟩
  | exitNotifies | exitUnlocks | waitUnlocks c =>
    simp only [ContextBase.goesOn, ht] at h
    cases h
    exact ⟨(fun c' he => by cases he), .inl rfl⟩

/-- The loop's own steps end it only where they set a code, and that is 1. -/
theorem connect_exit {c c' : Client} {ev : ConnectEvent} (h : c.step interfaces ev = some c') (hn : c.exitCode = none)
    (hw : c.loop ≠ .waitForExit) : (c'.loop = .ended ↔ c'.exitCode ≠ none) ∧ ∀ code, c'.exitCode = some code → code = 1 := by
  rcases Client.step_cases h with ⟨i, -, -, rfl⟩ | ⟨ex, rfl⟩ | ⟨i, -, rfl⟩ | ⟨-, rfl⟩ | ⟨hl, -⟩
  · simp [hn]
  · unfold Client.caught
    split <;> simp [hn]
  · have hcode : (c.head interfaces (i + 1)).exitCode = none := hn
    simp [head_loop, hcode]
  · have hcode : (c.head interfaces 0).exitCode = none := hn
    simp [head_loop, hcode]
  · exact absurd hl hw

theorem not_ended {c c' : Client} {ev : ConnectEvent} (h : c.step interfaces ev = some c') : c.loop ≠ .ended := by
  intro hl
  cases ev <;> simp [Client.step, hl] at h

theorem Inv.step (h : p.Inv) (hs : ClientExitStep interfaces p l p') : p'.Inv := by
  cases hs with
  | connect hl hst hcode =>
    have hne := not_ended hst
    refine ⟨h.context, fun _ => ⟨(h.noExit hne).1, hcode⟩, fun hend => ?_, h.calls, h.exits,
      fun c hc => absurd (h.result c hc).2 hne⟩
    exact absurd hcode ((connect_exit hst (h.noExit hne).2 hl).1.1 hend)
  | @fail ev client code context hl hst hcode hc =>
    obtain ⟨hend, hone⟩ := connect_exit hst (h.noExit (not_ended hst)).2 hl
    have hended : client.loop = .ended := hend.2 (by rw [hcode]; simp)
    refine ⟨h.context.step hc, fun hne => absurd hended hne, fun _ => by rw [hcode, hone code hcode], ?_, ?_,
      fun c hc => absurd (h.result c hc).2 (not_ended hst)⟩ <;> simp only [ContextBase.step] at hc <;>
      split at hc <;> cases hc
    · exact h.calls
    · intro c he
      cases he
      rw [hone code hcode]
      rfl
  | waitForExit hl hout hc =>
    have hcontext := h.context.step hc
    simp only [ContextBase.step] at hc
    split at hc <;> cases hc
    refine ⟨hcontext, fun hne => ?_, h.ended, h.calls, (fun c he => by cases he), h.result⟩
    exact ⟨⟨(h.noExit hne).1.1, fun c he => by cases he⟩, (h.noExit hne).2⟩
  | @goesOn context hc =>
    obtain ⟨hlocks, hcalls⟩ := goesOn_calls hc
    refine ⟨h.context.step hc, fun hne => ⟨⟨?_, hlocks⟩, (h.noExit hne).2⟩, h.ended, fun c hmem => ?_,
      fun c he => absurd he (hlocks c), h.result⟩
    · obtain ⟨hnil, hno⟩ := (h.noExit hne).1
      rcases hcalls with he | ⟨c, he, -⟩
      · exact he.trans hnil
      · exact absurd he (hno c)
    · rcases hcalls with he | ⟨c', he, hadd⟩
      · exact h.calls c (he ▸ hmem)
      · rcases List.mem_append.1 (hadd ▸ hmem) with hmem | hmem
        · exact h.calls c hmem
        · rw [List.mem_singleton.1 hmem]
          exact h.exits c' he
  | spurious hc =>
    have hcontext := h.context.step hc
    simp only [ContextBase.step] at hc
    split at hc <;> cases hc
    refine ⟨hcontext, fun hne => ?_, h.ended, h.calls, (fun c he => by cases he), h.result⟩
    exact ⟨⟨(h.noExit hne).1.1, fun c he => by cases he⟩, (h.noExit hne).2⟩
  | leave hl hr hst => exact absurd hr ((h.noExit (not_ended hst)).1.not_returned h.context _)
  | main hl hr =>
    refine ⟨h.context, h.noExit, h.ended, h.calls, h.exits, fun c he => ⟨?_, hl⟩⟩
    cases he
    have hI := ContextBase.reachable_inv h.context
    exact h.calls _ (List.mem_of_head? (hI.first _ (hI.read () _ (.inr hr))))

theorem reachable_inv (h : (clientExit interfaces).Reachable p) : p.Inv :=
  h.invariant (fun _ hi => by cases hi; exact .initial) fun _ _ _ _ hI hs => hI.step hs

end ClientExit

/-- **A client that has connected stays, and one that ends has failed**: the loop's
`waitForExit` never returns, since whoever could call `exit` is the one that
waits; and `main` returns from its own only after an exception other than a
refusal has ended the loop, with the code 1. -/
theorem client_ends_failed {interfaces : List String} {p : ClientExit} (h : (clientExit interfaces).Reachable p) :
    (p.client.loop = .waitForExit → p.client.exitCode = none ∧ p.context.exitCode = none ∧
      ∀ c, p.context.threads () ≠ .returned c) ∧
    ∀ code, p.result = some code → code = 1 ∧ p.client.exitCode = some 1 := by
  have hI := ClientExit.reachable_inv h
  refine ⟨fun hl => ?_, fun code hcode => ⟨(hI.result code hcode).1, hI.ended (hI.result code hcode).2⟩⟩
  obtain ⟨hno, hcode⟩ := hI.noExit (by rw [hl]; simp)
  refine ⟨hcode, ?_, hno.not_returned hI.context⟩
  rw [Option.eq_none_iff_forall_not_mem]
  intro c hc
  have hfirst := (ContextBase.reachable_inv hI.context).first c hc
  rw [hno.1] at hfirst
  cases hfirst

/-- A run, and one step of the context more. -/
theorem clientExit_context {interfaces : List String} {p : ClientExit} {context : ContextBase Unit}
    (h : (clientExit interfaces).Reachable p) (hs : p.context.step (.goesOn ()) = some context) :
    (clientExit interfaces).Reachable { p with context } :=
  h.step (l := .context (.goesOn ())) (by exact .goesOn hs)

/-- One client has connected, and sleeps in `waitForExit`; of another the first
`connect` has failed. -/
theorem client_ends_failed_both :
    (∃ p, (clientExit ["eth0"]).Reachable p ∧ p.client.added = [0] ∧ p.context.threads () = .asleep ∧
      p.context.exitCode = none) ∧
    ∃ p, (clientExit ["eth0"]).Reachable p ∧ p.result = some 1 ∧ p.client.exitCode = some 1 := by
  have h₀ : (clientExit ["eth0"]).Reachable { client := .start ["eth0"], context := .initial, result := none } := .init rfl
  constructor
  · have h := h₀.step (l := .connect (.connect (.ok ()))) (by exact .connect (by decide) rfl rfl)
    have h := h.step (l := .connect (.add (.ok ()))) (by exact .connect (by decide) rfl rfl)
    have h := h.step (l := .waitForExit) (by exact .waitForExit (.inl rfl) rfl rfl)
    have h := clientExit_context h rfl
    have h := clientExit_context h rfl
    exact ⟨_, h, rfl, rfl, ((client_ends_failed h).1 rfl).2.1⟩
  · have h := h₀.step (l := .connect (.connect (.error ⟨.system, "connect"⟩)))
      (by exact .fail (by decide) rfl rfl rfl)
    have h := clientExit_context h rfl
    have h := clientExit_context h rfl
    have h := clientExit_context h rfl
    have h := clientExit_context h rfl
    have h := h.step (l := .waitForExit) (by exact .waitForExit (.inr rfl) rfl rfl)
    have h := clientExit_context h rfl
    have h := clientExit_context h rfl
    have h := clientExit_context h rfl
    have h := h.step (l := .main) (by exact .main rfl rfl)
    exact ⟨_, h, rfl, ((client_ends_failed h).2 1 rfl).2⟩

end RuralPipe
