/-
Greedy batching, over items of any type with a size: items join the open batch
while it stays within a capacity, and otherwise close it and open the next one;
a pause closes a batch that has items.

The batches are then the items in order (`greedy_flatten`), and each was closed
by a pause or by an item too large for what was left, which comes first in the
next batch (`greedy_closed`).
-/
import Mathlib.Algebra.BigOperators.Group.List.Basic
import Mathlib.Algebra.GroupWithZero.Nat
import Mathlib.Data.List.Induction

/-- What arrives. -/
inductive Arrival (α : Type*)
  | item (a : α)
  | pause

/-- The batches closed so far, oldest first, and the open one. -/
structure Batches (α : Type*) where
  closed : List (List α)
  opened : List α

namespace Batches

variable {α : Type*} (size : α → Nat) (cap : Nat)

def weight (as : List α) : Nat := (as.map size).sum

def arrive (b : Batches α) : Arrival α → Batches α
  | .item a =>
    if weight size b.opened + size a ≤ cap then { b with opened := b.opened ++ [a] }
    else { closed := b.closed ++ [b.opened], opened := [a] }
  | .pause => if b.opened = [] then b else { closed := b.closed ++ [b.opened], opened := [] }

/-- The greedy batches of what arrived. -/
def greedy (as : List (Arrival α)) : Batches α := as.foldl (arrive size cap) ⟨[], []⟩

/-- The items that arrived. -/
def items (as : List (Arrival α)) : List α :=
  as.filterMap fun
    | .item a => some a
    | .pause => none

variable {size cap} {as : List (Arrival α)}

@[simp] theorem greedy_nil : greedy size cap ([] : List (Arrival α)) = ⟨[], []⟩ := rfl

@[simp] theorem greedy_append_singleton (e : Arrival α) :
    greedy size cap (as ++ [e]) = (greedy size cap as).arrive size cap e := by
  simp [greedy]

@[simp] theorem items_append_singleton_item (a : α) : items (as ++ [.item a]) = items as ++ [a] := by simp [items]

@[simp] theorem items_append_singleton_pause : items (as ++ [.pause]) = items as := by simp [items]

@[simp] theorem weight_nil : weight size ([] : List α) = 0 := rfl

@[simp] theorem weight_append_singleton (l : List α) (a : α) : weight size (l ++ [a]) = weight size l + size a := by
  simp [weight]

/-- What arrives either leaves the closed batches alone, or closes the open one
for a reason. -/
theorem arrive_cases (b : Batches α) (e : Arrival α) :
    (b.arrive size cap e).closed = b.closed ∧
      (((b.arrive size cap e).opened = b.opened ∧ e = .pause) ∨
        ∃ a, e = .item a ∧ weight size b.opened + size a ≤ cap ∧ (b.arrive size cap e).opened = b.opened ++ [a]) ∨
    (b.arrive size cap e).closed = b.closed ++ [b.opened] ∧
      ((e = .pause ∧ b.opened ≠ [] ∧ (b.arrive size cap e).opened = []) ∨
        ∃ a, e = .item a ∧ cap < weight size b.opened + size a ∧ (b.arrive size cap e).opened = [a]) := by
  cases e with
  | item a =>
    simp only [arrive]
    split
    · rename_i hfit
      exact .inl ⟨rfl, .inr ⟨a, rfl, hfit, rfl⟩⟩
    · rename_i hfit
      exact .inr ⟨rfl, .inr ⟨a, rfl, by omega, rfl⟩⟩
  | pause =>
    simp only [arrive]
    split
    · exact .inl ⟨rfl, .inl ⟨rfl, trivial⟩⟩
    · rename_i hne
      exact .inr ⟨rfl, .inl ⟨trivial, hne, rfl⟩⟩

/-- No item is lost, invented or moved. -/
theorem greedy_flatten : (greedy size cap as).closed.flatten ++ (greedy size cap as).opened = items as := by
  induction as using List.reverseRecOn with
  | nil => simp [items]
  | append_singleton as e ih =>
    rw [greedy_append_singleton]
    rcases @arrive_cases α size cap (greedy size cap as) e with ⟨hc, h⟩ | ⟨hc, h⟩ <;> rw [hc]
    · rcases h with ⟨ho, rfl⟩ | ⟨a, rfl, -, ho⟩
      · rw [ho, ih, items_append_singleton_pause]
      · rw [ho, ← List.append_assoc, ih, items_append_singleton_item]
    · rw [List.flatten_append, List.flatten_singleton, ih]
      rcases h with ⟨rfl, -, ho⟩ | ⟨a, rfl, -, ho⟩
      · rw [ho, List.append_nil, items_append_singleton_pause]
      · rw [ho, items_append_singleton_item]

/-- Why a batch was closed: a pause after at least one item, or an item it had
no room for, which the next batch begins with. -/
theorem greedy_closed {closed₁ closed₂ : List (List α)} {b : List α}
    (h : (greedy size cap as).closed = closed₁ ++ b :: closed₂) :
    ∃ as₁ e as₂, as = as₁ ++ e :: as₂ ∧ greedy size cap as₁ = ⟨closed₁, b⟩ ∧
      ((e = .pause ∧ b ≠ []) ∨
        ∃ a, e = .item a ∧ cap < weight size b + size a ∧
          ∃ next rest, closed₂ ++ [(greedy size cap as).opened] = (a :: next) :: rest) := by
  induction as using List.reverseRecOn generalizing closed₂ with
  | nil => simp at h
  | append_singleton as e ih =>
    rw [greedy_append_singleton] at h ⊢
    -- A batch closed before stays closed; the item after it stays where it was put.
    have earlier : ∀ {closed₃}, (greedy size cap as).closed = closed₁ ++ b :: closed₃ →
        (∀ a next rest, closed₃ ++ [(greedy size cap as).opened] = (a :: next) :: rest →
          ∃ next' rest', closed₂ ++ [((greedy size cap as).arrive size cap e).opened] = (a :: next') :: rest') →
        ∃ as₁ e' as₂, as ++ [e] = as₁ ++ e' :: as₂ ∧ greedy size cap as₁ = ⟨closed₁, b⟩ ∧
          ((e' = .pause ∧ b ≠ []) ∨
            ∃ a, e' = .item a ∧ cap < weight size b + size a ∧
              ∃ next rest, closed₂ ++ [((greedy size cap as).arrive size cap e).opened] = (a :: next) :: rest) := by
      intro closed₃ hc hkeep
      obtain ⟨as₁, e', as₂, has, hg, hwhy⟩ := ih hc
      refine ⟨as₁, e', as₂ ++ [e], by simp [has], hg, ?_⟩
      rcases hwhy with hp | ⟨a, he, hcap, next, rest, hnext⟩
      · exact .inl hp
      · exact .inr ⟨a, he, hcap, hkeep a next rest hnext⟩
    rcases @arrive_cases α size cap (greedy size cap as) e with ⟨hc, ho⟩ | ⟨hc, ho⟩ <;> rw [hc] at h
    · refine earlier h fun a next rest hnext => ?_
      rcases ho with ⟨ho, -⟩ | ⟨a', -, -, ho⟩ <;> rw [ho]
      · exact ⟨next, rest, hnext⟩
      · cases closed₂ with
        | nil =>
          simp only [List.nil_append, List.cons.injEq] at hnext ⊢
          exact ⟨next ++ [a'], [], by simp [hnext.1], rfl⟩
        | cons c closed₂ =>
          simp only [List.cons_append, List.cons.injEq] at hnext ⊢
          exact ⟨next, closed₂ ++ [(greedy size cap as).opened ++ [a']], hnext.1, rfl⟩
    · rcases List.eq_nil_or_concat closed₂ with rfl | ⟨closed₃, c, rfl⟩
      · obtain ⟨hpre, hb⟩ := List.append_inj' h rfl
        simp only [List.cons.injEq, and_true] at hb
        subst hb
        have hg : greedy size cap as = ⟨closed₁, (greedy size cap as).opened⟩ := by rw [← hpre]
        refine ⟨as, e, [], rfl, hg, ?_⟩
        rcases ho with ⟨he, hne, -⟩ | ⟨a, he, hcap, ho⟩
        · exact .inl ⟨he, hne⟩
        · exact .inr ⟨a, he, hcap, [], [], by rw [ho]; rfl⟩
      · have hsplit : (greedy size cap as).closed ++ [(greedy size cap as).opened] =
          (closed₁ ++ b :: closed₃) ++ [c] := by
          rw [h]; simp
        obtain ⟨hpre, hlast⟩ := List.append_inj' hsplit rfl
        simp only [List.cons.injEq, and_true] at hlast
        refine earlier hpre fun a next rest hnext => ?_
        rw [hlast] at hnext
        refine ⟨next, rest ++ [((greedy size cap as).arrive size cap e).opened], ?_⟩
        rw [List.concat_eq_append, hnext]
        rfl

end Batches
