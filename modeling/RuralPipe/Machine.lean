/-
Machines: a set of start states and labelled steps, and what holds of all
their runs.

A run lists the transitions it took, oldest first, so a theorem can speak of
what happened on the way (`Run.states`), of runs whose every transition meets
a condition (`Run.guarded`), and of the runs that meet it as exactly those in
which a property holds throughout (`Run.guarded_iff`). `Run.measure` bounds
how often a run can take a step that makes progress, and `Maps` carries runs
of one machine over to another.
-/
import Mathlib.Data.List.Basic
import Mathlib.Data.List.Induction
import Mathlib.Logic.Relation

/-- Where runs start and which steps they take. -/
structure Machine (σ : Type*) (ℓ : Type*) where
  init : σ → Prop
  step : σ → ℓ → σ → Prop

namespace Machine

/-- A step taken: the state before it, its label, the state after it. -/
structure Transition (σ : Type*) (ℓ : Type*) where
  pre : σ
  label : ℓ
  post : σ

/-- The runs of a machine: the transitions taken, oldest first, and the state
they reach. -/
inductive Run {σ ℓ : Type*} (M : Machine σ ℓ) : List (Transition σ ℓ) → σ → Prop
  | init {s} : M.init s → Run M [] s
  | step {tr s l s'} : Run M tr s → M.step s l s' → Run M (tr ++ [⟨s, l, s'⟩]) s'

def Reachable {σ ℓ : Type*} (M : Machine σ ℓ) (s : σ) : Prop := ∃ tr, M.Run tr s

section
variable {σ ℓ : Type*} {M : Machine σ ℓ}

theorem Run.reachable {tr s} (h : M.Run tr s) : M.Reachable s := ⟨tr, h⟩

theorem Reachable.init {s} (h : M.init s) : M.Reachable s := ⟨[], .init h⟩

theorem Reachable.step {s l s'} (h : M.Reachable s) (hs : M.step s l s') : M.Reachable s' := by
  obtain ⟨tr, hr⟩ := h
  exact ⟨_, .step hr hs⟩

/-- A run whose labels are known, and one label more. -/
theorem Run.labelled {tr s l s'} {ls : List ℓ} (h : M.Run tr s) (hls : tr.map (·.label) = ls) (hs : M.step s l s') :
    ∃ tr', M.Run tr' s' ∧ tr'.map (·.label) = ls ++ [l] :=
  ⟨_, .step h hs, by simp [hls]⟩

/-- Every transition of a run is a step between reachable states. -/
theorem Run.transition {tr s} (h : M.Run tr s) :
    ∀ t ∈ tr, M.Reachable t.pre ∧ M.step t.pre t.label t.post ∧ M.Reachable t.post := by
  induction h with
  | init => simp
  | step hr hs ih =>
    intro t ht
    rcases List.mem_append.1 ht with ht | ht
    · exact ih t ht
    · rw [List.mem_singleton] at ht
      subst ht
      exact ⟨hr.reachable, hs, hr.reachable.step hs⟩

/-- A run up to one of its transitions. -/
theorem Run.before {l₁ l₂ : List (Transition σ ℓ)} {t s} (h : M.Run (l₁ ++ t :: l₂) s) :
    M.Run l₁ t.pre ∧ M.step t.pre t.label t.post := by
  generalize htr : l₁ ++ t :: l₂ = tr at h
  induction h generalizing l₂ with
  | init => simp at htr
  | @step tr' y l y' hr hs ih =>
    rcases List.eq_nil_or_concat l₂ with rfl | ⟨l₃, u, rfl⟩
    · obtain ⟨rfl, ht⟩ := List.append_inj' htr rfl
      cases ht
      exact ⟨hr, hs⟩
    · have hsplit : (l₁ ++ t :: l₃) ++ [u] = tr' ++ [⟨y, l, y'⟩] := by rw [← htr]; simp
      exact ih (List.append_inj_left' hsplit rfl)

/-- A run reaches what its last transition leads to. -/
theorem Run.last {l : List (Transition σ ℓ)} {t s} (h : M.Run (l ++ [t]) s) : t.post = s := by
  generalize htr : l ++ [t] = tr at h
  cases h with
  | init => simp at htr
  | step hr hs =>
    obtain ⟨-, ht⟩ := List.append_inj' htr rfl
    cases ht
    rfl

theorem Run.of_nil {s} (h : M.Run [] s) : M.init s := by
  generalize htr : [] = tr at h
  cases h with
  | init hi => exact hi
  | step hr hs => simp at htr

/-- A run, and from where it ends a run of a machine that takes no other steps. -/
theorem Run.append {N : Machine σ ℓ} {tr tr' s s'} (h : M.Run tr s) (h' : N.Run tr' s') (hi : ∀ t, N.init t → t = s)
    (hs : ∀ t l t', N.step t l t' → M.step t l t') : M.Run (tr ++ tr') s' := by
  induction h' with
  | init ht =>
    rw [List.append_nil, hi _ ht]
    exact h
  | step _ hstep ih =>
    rw [← List.append_assoc]
    exact ih.step (hs _ _ _ hstep)

/-- What holds at the start and is kept by every step from a reachable state
holds in every reachable state. -/
theorem Reachable.invariant {I : σ → Prop} (h₀ : ∀ s, M.init s → I s)
    (hs : ∀ s l s', M.Reachable s → I s → M.step s l s' → I s') {s} (h : M.Reachable s) : I s := by
  obtain ⟨tr, hr⟩ := h
  induction hr with
  | init hi => exact h₀ _ hi
  | step hr hstep ih => exact hs _ _ _ hr.reachable ih hstep

/-- What holds at the start and is kept by every step that meets `C` holds
throughout a run whose steps all meet `C`. -/
theorem Run.guarded {I : σ → Prop} {C : Transition σ ℓ → Prop} (h₀ : ∀ s, M.init s → I s)
    (hs : ∀ s l s', M.Reachable s → I s → C ⟨s, l, s'⟩ → M.step s l s' → I s') {tr s}
    (h : M.Run tr s) (hC : ∀ t ∈ tr, C t) : I s ∧ ∀ t ∈ tr, I t.pre ∧ I t.post := by
  induction h with
  | init hi => exact ⟨h₀ _ hi, by simp⟩
  | step hr hstep ih =>
    obtain ⟨hI, hall⟩ := ih fun t ht => hC t (List.mem_append_left _ ht)
    have hI' := hs _ _ _ hr.reachable hI (hC _ (by simp)) hstep
    refine ⟨hI', fun t ht => ?_⟩
    rcases List.mem_append.1 ht with ht | ht
    · exact hall t ht
    · rw [List.mem_singleton] at ht
      subst ht
      exact ⟨hI, hI'⟩

/-- What holds after a transition of a run, and is kept by every later step that
meets `C`, holds from then on while the steps meet `C`. -/
theorem Run.since {I : σ → Prop} {C : Transition σ ℓ → Prop}
    (hs : ∀ s l s', M.Reachable s → I s → C ⟨s, l, s'⟩ → M.step s l s' → I s') {l₁ l₂ : List (Transition σ ℓ)} {t s}
    (h : M.Run (l₁ ++ t :: l₂) s) (h₀ : I t.post) (hC : ∀ u ∈ l₂, C u) : I s ∧ ∀ u ∈ l₂, I u.post := by
  induction l₂ using List.reverseRecOn generalizing s with
  | nil => exact ⟨h.last ▸ h₀, fun _ hu => nomatch hu⟩
  | append_singleton l₂ u ih =>
    rw [← List.cons_append, ← List.append_assoc] at h
    obtain ⟨hr, hstep⟩ := h.before
    obtain ⟨hI, hall⟩ := ih hr fun v hv => hC v (List.mem_append_left _ hv)
    have hI' : I u.post := hs u.pre u.label u.post hr.reachable hI (hC u (by simp)) hstep
    refine ⟨h.last ▸ hI', fun v hv => ?_⟩
    rcases List.mem_append.1 hv with hv | hv
    · exact hall v hv
    · rw [List.mem_singleton] at hv
      exact hv ▸ hI'

/-- `C` is exact for `P`: when steps that meet `C` keep `P` and a step that
does not leads out of `P`, the runs that keep `P` are those whose steps all
meet `C`. -/
theorem Run.guarded_iff {P : σ → Prop} {C : Transition σ ℓ → Prop} (h₀ : ∀ s, M.init s → P s)
    (hs : ∀ s l s', M.Reachable s → P s → C ⟨s, l, s'⟩ → M.step s l s' → P s')
    (hn : ∀ s l s', M.Reachable s → ¬ C ⟨s, l, s'⟩ → M.step s l s' → ¬ P s') {tr s}
    (h : M.Run tr s) : (∀ t ∈ tr, P t.post) ↔ ∀ t ∈ tr, C t := by
  constructor
  · intro hP t ht
    by_contra hC
    obtain ⟨hr, hstep, -⟩ := h.transition t ht
    exact hn t.pre t.label t.post hr hC hstep (hP t ht)
  · intro hC t ht
    exact ((h.guarded h₀ hs hC).2 t ht).2

/-- A measure that every step of `p` lowers and no step raises bounds
the number of such steps a run can take. -/
theorem Run.measure {p : Transition σ ℓ → Bool} (m : σ → Nat) {N : Nat}
    (h₀ : ∀ s, M.init s → m s ≤ N)
    (hs : ∀ s l s', M.Reachable s → M.step s l s' →
      m s' + (if p ⟨s, l, s'⟩ then 1 else 0) ≤ m s) {tr s}
    (h : M.Run tr s) : (tr.countP p) + m s ≤ N := by
  induction h with
  | init hi => simpa using h₀ _ hi
  | step hr hstep ih =>
    have := hs _ _ _ hr.reachable hstep
    rw [List.countP_append, List.countP_singleton]
    omega

/-- And from one of its transitions on, among later steps that meet `C`. -/
theorem Run.measure_since {I : σ → Prop} {C : Transition σ ℓ → Prop} {p : Transition σ ℓ → Bool} (m : σ → Nat)
    (hs : ∀ s l s', M.Reachable s → I s → C ⟨s, l, s'⟩ → M.step s l s' →
      I s' ∧ m s' + (if p ⟨s, l, s'⟩ then 1 else 0) ≤ m s) {l₁ l₂ : List (Transition σ ℓ)} {t s}
    (h : M.Run (l₁ ++ t :: l₂) s) (h₀ : I t.post) (hC : ∀ u ∈ l₂, C u) : l₂.countP p + m s ≤ m t.post := by
  have hI := h.since (fun s l s' hr hI hC hstep => (hs s l s' hr hI hC hstep).1) h₀ hC
  induction l₂ using List.reverseRecOn generalizing s with
  | nil => simp [h.last]
  | append_singleton l₂ u ih =>
    rw [← List.cons_append, ← List.append_assoc] at h
    obtain ⟨hr, hstep⟩ := h.before
    have hC' : ∀ v ∈ l₂, C v := fun v hv => hC v (List.mem_append_left _ hv)
    have hI' := hr.since (fun s l s' hr hI hC hstep => (hs s l s' hr hI hC hstep).1) h₀ hC'
    have hm := ih hr hC' hI'
    have hu : m u.post + (if p u then 1 else 0) ≤ m u.pre := (hs _ _ _ hr.reachable hI'.1 (hC u (by simp)) hstep).2
    rw [List.countP_append, List.countP_singleton, ← h.last]
    omega

end

/-- The machine without the steps that do not meet `C`. -/
def restrict {σ ℓ : Type*} (M : Machine σ ℓ) (C : Transition σ ℓ → Prop) : Machine σ ℓ where
  init := M.init
  step s l s' := M.step s l s' ∧ C ⟨s, l, s'⟩

theorem Run.of_restrict {σ ℓ : Type*} {M : Machine σ ℓ} {C : Transition σ ℓ → Prop} {tr : List (Transition σ ℓ)}
    {s : σ} (h : (M.restrict C).Run tr s) : M.Run tr s ∧ ∀ t ∈ tr, C t := by
  induction h with
  | init hi => exact ⟨.init hi, fun _ ht => nomatch ht⟩
  | step hr hs ih =>
    refine ⟨ih.1.step hs.1, fun t ht => ?_⟩
    rcases List.mem_append.1 ht with ht | ht
    · exact ih.2 t ht
    · rw [List.mem_singleton] at ht
      exact ht ▸ hs.2

theorem Reachable.restrict {σ ℓ : Type*} {M : Machine σ ℓ} {C : Transition σ ℓ → Prop} {s : σ}
    (h : (M.restrict C).Reachable s) : ∃ tr, M.Run tr s ∧ ∀ t ∈ tr, C t :=
  ⟨_, h.choose_spec.of_restrict⟩

/-- A run whose steps all meet `C`. -/
theorem Run.restrict {σ ℓ : Type*} {M : Machine σ ℓ} {C : Transition σ ℓ → Prop} {tr : List (Transition σ ℓ)} {s : σ}
    (h : M.Run tr s) (hC : ∀ t ∈ tr, C t) : (M.restrict C).Run tr s := by
  induction h with
  | init hi => exact .init hi
  | step hr hs ih => exact (ih fun t ht => hC t (List.mem_append_left _ ht)).step ⟨hs, hC _ (by simp)⟩

/-- What a run is to a component: `f` reads off its state, and `g` its share of a
label. -/
def project {σ ℓ τ κ : Type*} (f : σ → τ) (g : ℓ → Option κ) (tr : List (Transition σ ℓ)) : List (Transition τ κ) :=
  tr.filterMap fun t => (g t.label).map fun l => ⟨f t.pre, l, f t.post⟩

theorem mem_project {σ ℓ τ κ : Type*} {f : σ → τ} {g : ℓ → Option κ} {tr : List (Transition σ ℓ)} {u : Transition τ κ} :
    u ∈ project f g tr ↔ ∃ t ∈ tr, ∃ l, g t.label = some l ∧ ⟨f t.pre, l, f t.post⟩ = u := by
  simp only [project, List.mem_filterMap, Option.map_eq_some_iff]

theorem project_append {σ ℓ τ κ : Type*} {f : σ → τ} {g : ℓ → Option κ} (tr tr' : List (Transition σ ℓ)) :
    project f g (tr ++ tr') = project f g tr ++ project f g tr' := List.filterMap_append

/-- A component that takes its share of every step, and is left alone by the
steps it has none in, takes a run of its own. -/
theorem Run.project {σ ℓ τ κ : Type*} {M : Machine σ ℓ} {N : Machine τ κ} {f : σ → τ} {g : ℓ → Option κ}
    (h₀ : ∀ s, M.init s → N.init (f s))
    (hs : ∀ s l s', M.step s l s' → (∀ l', g l = some l' → N.step (f s) l' (f s')) ∧ (g l = none → f s' = f s))
    {tr s} (h : M.Run tr s) : N.Run (project f g tr) (f s) := by
  induction h with
  | init hi => exact .init (h₀ _ hi)
  | @step tr s l s' hr hstep ih =>
    rw [project_append]
    cases hg : g l with
    | none =>
      have hnil : Machine.project f g [⟨s, l, s'⟩] = [] := by simp [Machine.project, hg]
      rw [hnil, List.append_nil, (hs s l s' hstep).2 hg]
      exact ih
    | some l' =>
      have hone : Machine.project f g [⟨s, l, s'⟩] = [⟨f s, l', f s'⟩] := by simp [Machine.project, hg]
      rw [hone]
      exact ih.step ((hs s l s' hstep).1 l' hg)

/-- Any number of steps. -/
def Steps {σ ℓ : Type*} (M : Machine σ ℓ) : σ → σ → Prop := Relation.ReflTransGen fun s s' => ∃ l, M.step s l s'

theorem Steps.one {σ ℓ : Type*} {M : Machine σ ℓ} {s s' : σ} {l : ℓ} (h : M.step s l s') : M.Steps s s' :=
  .single ⟨l, h⟩

theorem Reachable.steps {σ ℓ : Type*} {M : Machine σ ℓ} {s s' : σ} (h : M.Reachable s) (hs : M.Steps s s') :
    M.Reachable s' := by
  induction hs with
  | refl => exact h
  | tail _ hs ih =>
    obtain ⟨l, hl⟩ := hs
    exact ih.step hl

/-- `f` maps `M` into `N`: starts to starts, and a step to steps. -/
structure Maps {σ ℓ τ κ : Type*} (M : Machine σ ℓ) (N : Machine τ κ) (f : σ → τ) : Prop where
  init : ∀ s, M.init s → N.init (f s)
  step : ∀ s l s', M.Reachable s → M.step s l s' → N.Steps (f s) (f s')

/-- So whatever holds of every reachable state of `N` holds of `M`'s. -/
theorem Maps.reachable {σ ℓ τ κ : Type*} {M : Machine σ ℓ} {N : Machine τ κ} {f : σ → τ}
    (h : Maps M N f) {s} (hs : M.Reachable s) : N.Reachable (f s) := by
  refine hs.invariant (I := fun s => N.Reachable (f s)) (fun s hi => .init (h.init s hi)) ?_
  intro s l s' hr hN hstep
  exact hN.steps (h.step s l s' hr hstep)

end Machine
