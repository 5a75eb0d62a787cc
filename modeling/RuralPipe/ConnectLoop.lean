/-
The client's connect loop (`client/client_main.cpp`).

`runConnectToServerLoop` connects on each configured interface in turn and hands
each socket to `addSocket`. A refused connection leaves the inner loop, and after
a sleep this starts again from the first interface, whatever was added before.

So the entries handed over are those of the rounds, each the first few of the
list (`Rounds`), and they are each other's repetitions as soon as a second round
adds anything (`connect_once_iff`).
-/
import Mathlib.Data.List.Nodup
import RuralPipe.Exception
import RuralPipe.Machine

namespace RuralPipe

open Machine

/-- Where `runConnectToServerLoop` stands: in `_connectToServer` for an entry of
the list, in the `addSocket` after it, in the sleep before the next round, in
`waitForExit`, or at its end. -/
inductive ConnectLoop
  | connecting (intf : Nat)
  | adding (intf : Nat)
  | sleeping
  | waitForExit
  | ended
  deriving DecidableEq

/-- The loop, the entries whose socket was handed to `addSocket`, in order, and
the code given to `_ctx.exit`. -/
structure Client where
  loop : ConnectLoop
  added : List Nat
  exitCode : Option Nat

/-- What `_connectToServer` or `addSocket` ends with; or the loop goes on by
itself. -/
inductive ConnectEvent
  | connect (res : Except Exception Unit)
  | add (res : Except Exception Unit)
  | tau

namespace Client

/-- The inner loop's head, at the entry `intf`. -/
def head (interfaces : List String) (c : Client) (intf : Nat) : Client :=
  { c with loop := if intf < interfaces.length then .connecting intf else .waitForExit }

/-- The two `catch` clauses. -/
def caught (c : Client) (ex : Exception) : Client :=
  if ex.cls = .connRefusedSystem then { c with loop := .sleeping }
  else { c with loop := .ended, exitCode := some 1 }

def start (interfaces : List String) : Client :=
  head interfaces { loop := .sleeping, added := [], exitCode := none } 0

/-- One step of `runConnectToServerLoop`. -/
def step (interfaces : List String) (c : Client) : ConnectEvent → Option Client
  | .connect res =>
    match c.loop with
    | .connecting intf =>
      match res with
      | .ok _ => some { c with loop := .adding intf, added := c.added ++ [intf] }
      | .error ex => some (c.caught ex)
    | _ => none
  | .add res =>
    match c.loop with
    | .adding intf =>
      match res with
      | .ok _ => some (c.head interfaces (intf + 1))
      | .error ex => some (c.caught ex)
    | _ => none
  | .tau =>
    match c.loop with
    | .sleeping => some (c.head interfaces 0)
    | .waitForExit => some { c with loop := .ended }
    | _ => none

end Client

/-- The loop over any outcomes. -/
def connectLoop (interfaces : List String) : Machine Client ConnectEvent where
  init c := c = .start interfaces
  step c ev c' := c.step interfaces ev = some c'

/-! ## One socket for each entry -/

namespace Client

/-- At most one socket has been handed over for each entry, and in `waitForExit`
exactly one. -/
structure Once (interfaces : List String) (c : Client) : Prop where
  atMost : ∀ i, c.added.count i ≤ 1
  exactly : c.loop = .waitForExit → ∀ i < interfaces.length, c.added.count i = 1

/-- The first entry is connected although sockets were handed over before. -/
def Reconnects (t : Transition Client ConnectEvent) : Prop :=
  t.pre.loop = .connecting 0 ∧ t.pre.added ≠ [] ∧ t.label = .connect (.ok ())

/-- How far the round at hand has come: `k` entries. -/
def Reached (interfaces : List String) (c : Client) (k : Nat) : Prop :=
  match c.loop with
  | .connecting i => k = i ∧ i < interfaces.length
  | .adding i => k = i + 1 ∧ i < interfaces.length
  | .waitForExit => k = interfaces.length
  | _ => True

/-- The entries of the rounds before and of the one at hand, which all begin
with the first. -/
def Rounds (interfaces : List String) (c : Client) : Prop :=
  ∃ past k, c.added = past ++ List.range k ∧ (past ≠ [] → 0 ∈ past) ∧ c.Reached interfaces k

variable {interfaces : List String} {c c' : Client} {ev : ConnectEvent}

theorem head_added (i : Nat) : (c.head interfaces i).added = c.added := rfl

theorem caught_added (ex : Exception) : (c.caught ex).added = c.added := by
  unfold caught
  split <;> rfl

theorem caught_loop (ex : Exception) : (c.caught ex).loop = .sleeping ∨ (c.caught ex).loop = .ended := by
  unfold caught
  split
  · exact .inl rfl
  · exact .inr rfl

/-- What a step does: a socket is handed over, and otherwise the entries stay;
the next round begins, or the round at hand goes on. -/
theorem step_cases (h : c.step interfaces ev = some c') :
    (∃ i, c.loop = .connecting i ∧ ev = .connect (.ok ()) ∧
    c' = { c with loop := .adding i, added := c.added ++ [i] }) ∨
    (∃ ex, c' = c.caught ex) ∨
    (∃ i, c.loop = .adding i ∧ c' = c.head interfaces (i + 1)) ∨
    (c.loop = .sleeping ∧ c' = c.head interfaces 0) ∨
    (c.loop = .waitForExit ∧ c' = { c with loop := .ended }) := by
  cases ev with
  | connect res =>
    cases hl : c.loop with
    | connecting i =>
      cases res <;> simp only [step, hl, Option.some.injEq] at h
      · exact .inr (.inl ⟨_, h.symm⟩)
      · exact .inl ⟨i, rfl, rfl, h.symm⟩
    | _ => simp [step, hl] at h
  | add res =>
    cases hl : c.loop with
    | adding i =>
      cases res <;> simp only [step, hl, Option.some.injEq] at h
      · exact .inr (.inl ⟨_, h.symm⟩)
      · exact .inr (.inr (.inl ⟨i, rfl, h.symm⟩))
    | _ => simp [step, hl] at h
  | tau =>
    cases hl : c.loop with
    | sleeping =>
      simp only [step, hl, Option.some.injEq] at h
      exact .inr (.inr (.inr (.inl ⟨rfl, h.symm⟩)))
    | waitForExit =>
      simp only [step, hl, Option.some.injEq] at h
      exact .inr (.inr (.inr (.inr ⟨rfl, h.symm⟩)))
    | _ => simp [step, hl] at h

/-- At the inner loop's head the round has come as far as the head. -/
theorem reached_head {k : Nat} (h : k ≤ interfaces.length) : (c.head interfaces k).Reached interfaces k := by
  unfold head
  split
  · rename_i hlt
    exact ⟨rfl, hlt⟩
  · rename_i hge
    show k = interfaces.length
    omega

theorem rounds_start : (start interfaces).Rounds interfaces :=
  ⟨[], 0, rfl, fun h => absurd rfl h, reached_head (Nat.zero_le _)⟩

theorem Rounds.step (h : c.Rounds interfaces) (hs : c.step interfaces ev = some c') : c'.Rounds interfaces := by
  obtain ⟨past, k, hadd, hpast, hk⟩ := h
  unfold Reached at hk
  rcases step_cases hs with ⟨i, hl, -, rfl⟩ | ⟨ex, rfl⟩ | ⟨i, hl, rfl⟩ | ⟨hl, rfl⟩ | ⟨hl, rfl⟩
  · rw [hl] at hk
    obtain ⟨rfl, hlt⟩ := hk
    exact ⟨past, k + 1, by rw [hadd, List.range_succ, List.append_assoc], hpast, rfl, hlt⟩
  · refine ⟨past, k, by rw [caught_added, hadd], hpast, ?_⟩
    unfold Reached
    rcases caught_loop ex with hl | hl <;> rw [hl] <;> trivial
  · rw [hl] at hk
    obtain ⟨rfl, hlt⟩ := hk
    exact ⟨past, i + 1, hadd, hpast, reached_head hlt⟩
  · -- What the round handed over is past.
    refine ⟨past ++ List.range k, 0, by rw [head_added, hadd, List.range_zero, List.append_nil], fun hne => ?_,
      reached_head (Nat.zero_le _)⟩
    cases k with
    | zero =>
      rw [List.range_zero, List.append_nil] at hne ⊢
      exact hpast hne
    | succ k => exact List.mem_append_right _ (List.mem_range.2 (Nat.succ_pos k))
  · exact ⟨past, k, hadd, hpast, trivial⟩

theorem reachable_rounds (h : (connectLoop interfaces).Reachable c) : c.Rounds interfaces :=
  h.invariant (fun _ hi => by cases hi; exact rounds_start) fun _ _ _ _ hI hs => hI.step hs

/-- Without repetitions only one round has handed anything over. -/
theorem past_nil {past : List Nat} {k : Nat} (hnd : (past ++ List.range k).Nodup) (hpast : past ≠ [] → 0 ∈ past)
    (hk : 0 < k) : past = [] := by
  by_contra hne
  exact List.disjoint_of_nodup_append hnd (hpast hne) (List.mem_range.2 hk)

theorem Once.nodup (h : c.Once interfaces) : c.added.Nodup := List.nodup_iff_count_le_one.2 h.atMost

/-- In `waitForExit` the round at hand has handed over every entry. -/
theorem Once.of_nodup (hr : c.Rounds interfaces) (hnd : c.added.Nodup) : c.Once interfaces := by
  refine ⟨List.nodup_iff_count_le_one.1 hnd, fun hl i hi => List.count_eq_one_of_mem hnd ?_⟩
  obtain ⟨past, k, hadd, -, hk⟩ := hr
  unfold Reached at hk
  rw [hl] at hk
  rw [hadd]
  exact List.mem_append_right _ (List.mem_range.2 (hk ▸ hi))

/-- A step that does not connect the first entry again repeats no entry. -/
theorem Once.step (hr : c.Rounds interfaces) (h : c.Once interfaces) (hC : ¬ Reconnects ⟨c, ev, c'⟩)
    (hs : c.step interfaces ev = some c') : c'.Once interfaces := by
  refine .of_nodup (hr.step hs) ?_
  have hnd := h.nodup
  obtain ⟨past, k, hadd, hpast, hk⟩ := hr
  rcases step_cases hs with ⟨i, hl, rfl, rfl⟩ | ⟨ex, rfl⟩ | ⟨i, hl, rfl⟩ | ⟨hl, rfl⟩ | ⟨hl, rfl⟩
  · unfold Reached at hk
    rw [hl] at hk
    obtain ⟨rfl, -⟩ := hk
    show (c.added ++ [k]).Nodup
    have hnil : past = [] := by
      rcases Nat.eq_zero_or_pos k with rfl | hpos
      · by_contra hne
        exact hC ⟨hl, by rw [hadd]; simpa using hne, rfl⟩
      · exact past_nil (hadd ▸ hnd) hpast hpos
    rw [hadd, hnil, List.nil_append, ← List.range_succ]
    exact List.nodup_range
  · rwa [caught_added]
  · exact hnd
  · exact hnd
  · exact hnd

/-- And one that does repeats it. -/
theorem not_once_of_reconnects (hr : c.Rounds interfaces) (hC : Reconnects ⟨c, ev, c'⟩)
    (hs : c.step interfaces ev = some c') : ¬ c'.Once interfaces := by
  obtain ⟨hl, hne, rfl⟩ := hC
  have hl : c.loop = .connecting 0 := hl
  obtain ⟨past, k, hadd, hpast, hk⟩ := hr
  unfold Reached at hk
  rw [hl] at hk
  obtain ⟨rfl, -⟩ := hk
  rw [List.range_zero, List.append_nil] at hadd
  have hmem : 0 ∈ c.added := by
    rw [hadd] at hne ⊢
    exact hpast hne
  intro h
  have hnd := h.nodup
  simp only [Client.step, hl, Option.some.injEq] at hs
  subst hs
  exact List.disjoint_of_nodup_append hnd hmem (List.mem_singleton_self 0)

end Client

open Client

/-- **One socket for each interface exactly in the runs that never connect the
first one again**: at every moment at most one has been handed over for each
entry of the list, and one for each in `waitForExit`, as long as no refusal after
a hand-over is followed by a new connection. -/
theorem connect_once_iff (interfaces : List String) {tr : List (Transition Client ConnectEvent)} {c : Client}
    (h : (connectLoop interfaces).Run tr c) :
    (∀ t ∈ tr, t.post.Once interfaces) ↔ ∀ t ∈ tr, ¬ Reconnects t := by
  refine h.guarded_iff (P := Once interfaces) (C := fun t => ¬ Reconnects t) ?_ ?_ ?_
  · intro c hc
    subst hc
    exact .of_nodup rounds_start List.nodup_nil
  · exact fun c ev c' hr hP hC hs => hP.step (reachable_rounds hr) hC hs
  · exact fun c ev c' hr hC hs => not_once_of_reconnects (reachable_rounds hr) (not_not.1 hC) hs

/-- A run, and one outcome more. -/
theorem run_step {interfaces : List String} {tr : List (Transition Client ConnectEvent)} {c c' : Client}
    (h : (connectLoop interfaces).Run tr c) (ev : ConnectEvent) (hs : c.step interfaces ev = some c') :
    (connectLoop interfaces).Run (tr ++ [⟨c, ev, c'⟩]) c' := .step h hs

def connRefused : Exception := ⟨.connRefusedSystem, "connect"⟩

/-- A refusal first, and then both interfaces. -/
theorem connect_once_refused : ∃ tr c, (connectLoop ["eth0", "wlan0"]).Run tr c ∧ c.loop = .waitForExit ∧
    c.added = [0, 1] ∧ ∀ t ∈ tr, t.post.Once ["eth0", "wlan0"] := by
  have h₀ : (connectLoop ["eth0", "wlan0"]).Run [] (start ["eth0", "wlan0"]) := .init rfl
  have h₁ := run_step h₀ (.connect (.error connRefused)) rfl
  have h₂ := run_step h₁ .tau rfl
  have h₃ := run_step h₂ (.connect (.ok ())) rfl
  have h₄ := run_step h₃ (.add (.ok ())) rfl
  have h₅ := run_step h₄ (.connect (.ok ())) rfl
  have h₆ := run_step h₅ (.add (.ok ())) rfl
  refine ⟨_, _, h₆, rfl, rfl, (connect_once_iff _ h₆).2 ?_⟩
  intro t ht
  simp only [List.nil_append, List.cons_append, List.mem_cons, List.not_mem_nil, or_false] at ht
  rcases ht with rfl | rfl | rfl | rfl | rfl | rfl <;> intro h
  · exact h.2.1 rfl
  · exact h.2.1 rfl
  · exact h.2.1 rfl
  · cases h.1
  · cases h.1
  · cases h.1

/-- The second interface is refused once, and the first is connected twice. -/
theorem connect_twice : ∃ tr c, (connectLoop ["eth0", "wlan0"]).Run tr c ∧ c.loop = .waitForExit ∧
    c.added = [0, 0, 1] ∧ ¬ ∀ t ∈ tr, t.post.Once ["eth0", "wlan0"] := by
  have h₀ : (connectLoop ["eth0", "wlan0"]).Run [] (start ["eth0", "wlan0"]) := .init rfl
  have h₁ := run_step h₀ (.connect (.ok ())) rfl
  have h₂ := run_step h₁ (.add (.ok ())) rfl
  have h₃ := run_step h₂ (.connect (.error connRefused)) rfl
  have h₄ := run_step h₃ .tau rfl
  have h₅ := run_step h₄ (.connect (.ok ())) rfl
  have h₆ := run_step h₅ (.add (.ok ())) rfl
  have h₇ := run_step h₆ (.connect (.ok ())) rfl
  have h₈ := run_step h₇ (.add (.ok ())) rfl
  refine ⟨_, _, h₈, rfl, rfl, fun hall => ?_⟩
  have honce := (hall _ (List.mem_append_right _ (List.mem_singleton_self _))).atMost 0
  exact absurd honce (by decide)

end RuralPipe
