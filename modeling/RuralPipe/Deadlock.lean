/-
Deadlocks, among threads of any type.

`needs d A` says that `d` is blocked, and that it cannot go on before some
thread of `A` has taken a step. A deadlock is then a set of threads that need
one another. A cycle is one; there is none as soon as every need leads down a
well-founded order.
-/
import Mathlib.Data.Set.Insert
import Mathlib.Logic.Relation
import Mathlib.Order.RelClasses
import Mathlib.Order.WellFounded

/-- Everybody in `D` is blocked, and waits for somebody in `D`. -/
structure Deadlocked {θ : Type*} (needs : θ → Set θ → Prop) (D : Set θ) : Prop where
  nonempty : D.Nonempty
  closed : ∀ d ∈ D, ∃ A, needs d A ∧ A ⊆ D

namespace Deadlocked

variable {θ : Type*} {needs : θ → Set θ → Prop} {D : Set θ}

/-- Where every need leads further down, whoever is lowest cannot be
deadlocked. -/
theorem not_of_wellFounded {lower : θ → θ → Prop} (hwf : WellFounded lower)
    (h : ∀ d A, needs d A → ∃ e ∈ A, lower e d) : ¬ Deadlocked needs D := by
  intro hD
  obtain ⟨d, hd, hmin⟩ := hwf.has_min D hD.nonempty
  obtain ⟨A, hA, hsub⟩ := hD.closed d hd
  obtain ⟨e, he, hlt⟩ := h d A hA
  exact hmin e (hsub he) hlt

/-- The lowest by a rank, and by an order among those of one rank. -/
theorem not_of_rank (rank : θ → Nat) {behind : θ → θ → Prop} (hwf : WellFounded behind)
    (h : ∀ d A, needs d A → ∃ e ∈ A, rank e < rank d ∨ rank e = rank d ∧ behind e d) : ¬ Deadlocked needs D := by
  refine not_of_wellFounded (InvImage.wf (fun d => (rank d, d)) (Nat.lt_wfRel.wf.prod_lex hwf)) fun d A hA => ?_
  obtain ⟨e, he, hlow⟩ := h d A hA
  exact ⟨e, he, Prod.lex_def.2 hlow⟩

/-- A chain of needs that closes. -/
theorem of_cycle {a : θ} (h : Relation.TransGen (fun d e => needs d {e}) a a) : ∃ D, Deadlocked needs D := by
  refine ⟨{ d | Relation.ReflTransGen (fun d e => needs d {e}) a d ∧
    Relation.ReflTransGen (fun d e => needs d {e}) d a },
    ⟨a, .refl, .refl⟩, fun d hd => ?_⟩
  obtain ⟨had, hda⟩ := hd
  have hcycle : Relation.TransGen (fun d e => needs d {e}) d d := (Relation.TransGen.trans_right hda h).trans_left had
  obtain ⟨e, hde, hed⟩ := Relation.TransGen.head'_iff.1 hcycle
  refine ⟨{e}, hde, fun e' he' => ?_⟩
  rw [Set.mem_singleton_iff.1 he']
  exact ⟨had.tail hde, hed.trans hda⟩

end Deadlocked
