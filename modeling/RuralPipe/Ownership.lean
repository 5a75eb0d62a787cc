/-
Ownership of resources: who holds what, and what was taken and released.

Resources are taken from outside and released to it, and one that was released
may be taken again; so what happened to `r` is how often it was taken and how
often released. `Tidy` is what holds whatever the owners do: a resource has one
holder at most, and it is out at most once. One that is out without a holder is
`Lost`, and stays so (`Lost.take` and the lemmas after it); without lost ones
everything taken is released when nobody holds anything (`Tidy.settled`).
-/
import Mathlib.Data.List.Count
import Mathlib.Logic.Function.Basic

structure Ownership (O R : Type*) where
  holds : O → Option R
  taken : List R
  released : List R

namespace Ownership

variable {O R : Type*}

section
variable [DecidableEq O]

/-- `r` is taken for `o`. -/
def take (w : Ownership O R) (o : O) (r : R) : Ownership O R :=
  { w with holds := Function.update w.holds o (some r), taken := w.taken ++ [r] }

/-- What `src` holds goes to `dst`. -/
def move (w : Ownership O R) (dst src : O) : Ownership O R :=
  { w with holds := Function.update (Function.update w.holds dst (w.holds src)) src none }

/-- `o` releases what it holds. -/
def release (w : Ownership O R) (o : O) : Ownership O R :=
  { w with holds := Function.update w.holds o none, released := w.released ++ (w.holds o).toList }

/-- `o` no longer knows what it held. -/
def forget (w : Ownership O R) (o : O) : Ownership O R :=
  { w with holds := Function.update w.holds o none }

variable {w : Ownership O R} {o o' dst src : O} {r r' : R}

/-- Who holds something after `o` took `r`. -/
theorem holds_take (ho : (w.take o r).holds o' = some r') : o' = o ∧ r' = r ∨ o' ≠ o ∧ w.holds o' = some r' := by
  simp only [take] at ho
  by_cases he : o' = o
  · rw [he, Function.update_self, Option.some.injEq] at ho
    exact .inl ⟨he, ho.symm⟩
  · rw [Function.update_of_ne he] at ho
    exact .inr ⟨he, ho⟩

/-- Who holds something after a move held it before, or it came from `src`. -/
theorem holds_move (ho : (w.move dst src).holds o = some r) :
    o ≠ src ∧ (o = dst ∧ w.holds src = some r ∨ o ≠ dst ∧ w.holds o = some r) := by
  simp only [move] at ho
  by_cases hs : o = src
  · rw [hs, Function.update_self] at ho
    cases ho
  · rw [Function.update_of_ne hs] at ho
    by_cases hd : o = dst
    · rw [hd, Function.update_self] at ho
      exact ⟨hs, .inl ⟨hd, ho⟩⟩
    · rw [Function.update_of_ne hd] at ho
      exact ⟨hs, .inr ⟨hd, ho⟩⟩

/-- Whoever is moved to forgets what it held. -/
theorem forget_move : (w.forget dst).move dst src = w.move dst src := by
  simp only [move, forget, Function.update_idem, Ownership.mk.injEq, and_true]
  by_cases h : src = dst
  · rw [h, Function.update_idem, Function.update_idem]
  · rw [Function.update_of_ne h]

theorem holds_forget (ho : (w.forget o).holds o' = some r) : o' ≠ o ∧ w.holds o' = some r := by
  simp only [forget] at ho
  by_cases he : o' = o
  · rw [he, Function.update_self] at ho
    cases ho
  · rw [Function.update_of_ne he] at ho
    exact ⟨he, ho⟩

end

variable [DecidableEq R]

structure Tidy (w : Ownership O R) : Prop where
  holder : ∀ o o' r, w.holds o = some r → w.holds o' = some r → o = o'
  out : ∀ o r, w.holds o = some r → w.taken.count r = w.released.count r + 1
  atMost : ∀ r, w.released.count r ≤ w.taken.count r

/-- Taken, not released, and held by nobody. -/
def Lost (w : Ownership O R) (r : R) : Prop :=
  w.released.count r < w.taken.count r ∧ ∀ o, w.holds o ≠ some r

variable {w : Ownership O R} {o dst src : O} {r r' : R}

theorem count_toList (x : Option R) (r : R) : x.toList.count r = if x = some r then 1 else 0 := by
  cases x with
  | none => rfl
  | some y => simp [List.count_singleton]

/-- What is not out is held by nobody. -/
theorem Tidy.free (h : w.Tidy) (hr : w.taken.count r ≤ w.released.count r) (o : O) : w.holds o ≠ some r := by
  intro ho
  have := h.out o r ho
  omega

/-- Without lost resources, what is not held is not out. -/
theorem Tidy.settled (h : w.Tidy) (hl : ∀ r, ¬ w.Lost r) (ho : ∀ o, w.holds o ≠ some r) :
    w.released.count r = w.taken.count r := by
  have hle := h.atMost r
  by_contra hne
  exact hl r ⟨by omega, ho⟩

variable [DecidableEq O]

/-! ## What each act keeps -/

theorem count_take (r' : R) : (w.take o r).taken.count r' = w.taken.count r' + if r = r' then 1 else 0 := by
  simp only [take, List.count_append, List.count_singleton, beq_iff_eq]

theorem Tidy.take (h : w.Tidy) (hr : w.taken.count r ≤ w.released.count r) : (w.take o r).Tidy := by
  refine ⟨?_, ?_, ?_⟩
  · intro o₁ o₂ r' h₁ h₂
    rcases holds_take h₁ with ⟨he₁, he⟩ | ⟨-, h₁⟩
    · rcases holds_take h₂ with ⟨he₂, -⟩ | ⟨-, h₂⟩
      · rw [he₁, he₂]
      · exact absurd (he ▸ h₂) (h.free hr o₂)
    · rcases holds_take h₂ with ⟨-, he⟩ | ⟨-, h₂⟩
      · exact absurd (he ▸ h₁) (h.free hr o₁)
      · exact h.holder o₁ o₂ r' h₁ h₂
  · intro o' r' ho'
    rw [count_take]
    show _ = w.released.count r' + 1
    rcases holds_take ho' with ⟨-, he⟩ | ⟨-, ho'⟩
    · have := h.atMost r'
      rw [he] at this ⊢
      rw [if_pos rfl]
      omega
    · rw [if_neg fun he : r = r' => h.free hr o' (he ▸ ho')]
      exact h.out o' r' ho'
  · intro r'
    rw [count_take]
    exact Nat.le_add_right_of_le (h.atMost r')

theorem Tidy.move (h : w.Tidy) : (w.move dst src).Tidy := by
  refine ⟨?_, ?_, h.atMost⟩
  · intro o₁ o₂ r h₁ h₂
    obtain ⟨hs₁, ⟨hd₁, k₁⟩ | ⟨-, k₁⟩⟩ := holds_move h₁
    · obtain ⟨hs₂, ⟨hd₂, -⟩ | ⟨-, k₂⟩⟩ := holds_move h₂
      · rw [hd₁, hd₂]
      · exact absurd (h.holder o₂ src r k₂ k₁) hs₂
    · obtain ⟨-, ⟨-, k₂⟩ | ⟨-, k₂⟩⟩ := holds_move h₂
      · exact absurd (h.holder o₁ src r k₁ k₂) hs₁
      · exact h.holder o₁ o₂ r k₁ k₂
  · intro o r ho
    obtain ⟨-, ⟨-, ho⟩ | ⟨-, ho⟩⟩ := holds_move ho
    · exact h.out src r ho
    · exact h.out o r ho

theorem Tidy.forget (h : w.Tidy) : (w.forget o).Tidy :=
  ⟨fun o₁ o₂ r h₁ h₂ => h.holder o₁ o₂ r (holds_forget h₁).2 (holds_forget h₂).2,
    fun o' r ho' => h.out o' r (holds_forget ho').2, h.atMost⟩

theorem count_release (r : R) :
    (w.release o).released.count r = w.released.count r + if w.holds o = some r then 1 else 0 := by
  rw [release, List.count_append, count_toList]

theorem Tidy.release (h : w.Tidy) : (w.release o).Tidy := by
  refine ⟨h.forget.holder, ?_, ?_⟩
  · intro o' r ho'
    obtain ⟨hne, ho'⟩ := holds_forget (o := o) ho'
    rw [count_release, if_neg fun ho => hne (h.holder o' o r ho' ho)]
    exact h.out o' r ho'
  · intro r
    rw [count_release]
    show _ ≤ w.taken.count r
    have hle := h.atMost r
    by_cases ho : w.holds o = some r
    · rw [if_pos ho]
      exact Nat.le_of_eq (h.out o r ho).symm
    · rw [if_neg ho]
      exact hle

/-! ## Lost resources -/

/-- What is out is not taken again. -/
theorem Lost.take (h : w.Lost r) (hr : w.taken.count r' ≤ w.released.count r') : (w.take o r').Lost r := by
  have hne : r' ≠ r := fun he => by
    rw [he] at hr
    exact absurd h.1 (Nat.not_lt.2 hr)
  refine ⟨?_, fun o' ho' => ?_⟩
  · rw [count_take]
    exact Nat.lt_add_right _ h.1
  · rcases holds_take ho' with ⟨-, he⟩ | ⟨-, ho'⟩
    · exact hne he.symm
    · exact h.2 o' ho'

theorem Lost.move (h : w.Lost r) : (w.move dst src).Lost r := by
  refine ⟨h.1, fun o ho => ?_⟩
  obtain ⟨-, ⟨-, ho⟩ | ⟨-, ho⟩⟩ := holds_move ho
  · exact h.2 src ho
  · exact h.2 o ho

theorem Lost.forget (h : w.Lost r) : (w.forget o).Lost r :=
  ⟨h.1, fun o' ho' => h.2 o' (holds_forget ho').2⟩

theorem Lost.release (h : w.Lost r) : (w.release o).Lost r := by
  refine ⟨?_, h.forget.2⟩
  rw [count_release, if_neg (h.2 o)]
  exact h.1

/-- Whoever forgets what it holds loses it. -/
theorem Tidy.lost_forget (h : w.Tidy) (ho : w.holds o = some r) : (w.forget o).Lost r := by
  refine ⟨?_, fun o' ho' => ?_⟩
  · show w.released.count r < w.taken.count r
    have := h.out o r ho
    omega
  · obtain ⟨hne, ho'⟩ := holds_forget ho'
    exact hne (h.holder o' o r ho' ho)

/-! ## Acts that lose nothing -/

theorem Lost.of_take (h : (w.take o r').Lost r) (ho : w.holds o = none) : w.Lost r := by
  have hne : r' ≠ r := fun he => h.2 o (by rw [he]; exact Function.update_self _ _ _)
  refine ⟨?_, fun o' ho' => h.2 o' ?_⟩
  · have hlt := h.1
    rw [count_take, if_neg hne] at hlt
    exact hlt
  · have hoo : o' ≠ o := fun he => by
      rw [he, ho] at ho'
      cases ho'
    simp only [Ownership.take]
    rw [Function.update_of_ne hoo]
    exact ho'

theorem Lost.of_move (h : (w.move dst src).Lost r) (hd : w.holds dst = none) : w.Lost r := by
  refine ⟨h.1, fun o ho => ?_⟩
  have hod : o ≠ dst := fun he => by
    rw [he, hd] at ho
    cases ho
  by_cases hs : o = src
  · rw [hs] at ho hod
    refine h.2 dst ?_
    simp only [Ownership.move]
    rw [Function.update_of_ne hod.symm, Function.update_self]
    exact ho
  · refine h.2 o ?_
    simp only [Ownership.move]
    rw [Function.update_of_ne hs, Function.update_of_ne hod]
    exact ho

theorem Lost.of_release (h : (w.release o).Lost r) (ht : w.Tidy) : w.Lost r := by
  have hlt := h.1
  rw [count_release] at hlt
  refine ⟨Nat.lt_of_le_of_lt (Nat.le_add_right _ _) hlt, fun o' ho' => ?_⟩
  by_cases he : o' = o
  · rw [he] at ho'
    rw [if_pos ho'] at hlt
    exact absurd (ht.out o r ho') (Nat.ne_of_gt hlt)
  · refine h.2 o' ?_
    simp only [Ownership.release]
    rw [Function.update_of_ne he]
    exact ho'

end Ownership
