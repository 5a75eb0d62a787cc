/-
Disjoint chains, and doubly linked ones.

`Chains` puts every element of a type on one list, each once. Two functions
`next` and `prev` are `Linked` along such chains when they give every element
its neighbours. Appending a lone element to a chain's end, and taking the last
element off, keep the functions linked; and linked functions are inverse to
one another and have no cycles.
-/
import Mathlib.Data.List.Nodup
import Mathlib.Logic.Function.Basic
import Mathlib.Logic.Relation

/-- Disjoint chains that cover a type. -/
structure Chains (P : Type*) where
  chain : P → List P
  mem : ∀ p, p ∈ chain p
  nodup : ∀ p, (chain p).Nodup
  same : ∀ p q, q ∈ chain p → chain q = chain p

namespace Chains

variable {P : Type*}

/-- Everything on its own. -/
def single : Chains P where
  chain p := [p]
  mem _ := List.mem_singleton_self _
  nodup _ := List.nodup_singleton _
  same _ _ h := by rw [List.mem_singleton.1 h]

variable (c : Chains P)

/-- An element splits its chain. -/
theorem split (p : P) : ∃ l₁ l₂, c.chain p = l₁ ++ p :: l₂ := List.append_of_mem (c.mem p)

theorem split_unique {p : P} {l₁ l₂ : List P} (h : c.chain p = l₁ ++ p :: l₂) (m₁ m₂ : List P)
    (h' : c.chain p = m₁ ++ p :: m₂) : l₁ = m₁ ∧ l₂ = m₂ := by
  have hnot : ∀ {l m}, c.chain p = l ++ p :: m → p ∉ l := by
    intro l m hl hmem
    have hnd := c.nodup p
    rw [hl, List.nodup_append] at hnd
    exact hnd.2.2 p hmem p List.mem_cons_self rfl
  have hsplit := h.symm.trans h'
  rw [List.append_eq_append_iff] at hsplit
  rcases hsplit with ⟨as, rfl, hcons⟩ | ⟨bs, rfl, hcons⟩
  · cases as with
    | nil => exact ⟨by simp, by simpa using hcons⟩
    | cons a as =>
      obtain ⟨rfl, -⟩ := List.cons.inj hcons
      exact absurd (by simp) (hnot h')
  · cases bs with
    | nil => exact ⟨by simp, by simpa using hcons.symm⟩
    | cons b bs =>
      obtain ⟨rfl, -⟩ := List.cons.inj hcons
      exact absurd (by simp) (hnot h)

/-- Two chains with an element in common are one. -/
theorem eq_of_mem {p q r : P} (hp : r ∈ c.chain p) (hq : r ∈ c.chain q) : c.chain p = c.chain q :=
  (c.same p r hp).symm.trans (c.same q r hq)

variable [DecidableEq P]

/-- `a`, alone so far, comes at the end of the chain of `b`. -/
def append (a b : P) (ha : c.chain a = [a]) (hab : a ∉ c.chain b) : Chains P where
  chain p := if p = a ∨ p ∈ c.chain b then c.chain b ++ [a] else c.chain p
  mem p := by
    by_cases h : p = a ∨ p ∈ c.chain b
    · rw [if_pos h]
      rcases h with rfl | h <;> simp_all
    · rw [if_neg h]
      exact c.mem p
  nodup p := by
    by_cases h : p = a ∨ p ∈ c.chain b
    · rw [if_pos h, List.nodup_append]
      exact ⟨c.nodup b, List.nodup_singleton a, fun x hx y hy => by
        rw [List.mem_singleton.1 hy]
        exact fun he => hab (he ▸ hx)⟩
    · rw [if_neg h]
      exact c.nodup p
  same p q hq := by
    by_cases h : p = a ∨ p ∈ c.chain b
    · rw [if_pos h] at hq ⊢
      rw [if_pos]
      simpa [or_comm] using hq
    · rw [if_neg h] at hq ⊢
      rw [if_neg, c.same p q hq]
      rintro (rfl | hqb)
      · have := c.same p q hq
        rw [ha] at this
        have hp := c.mem p
        rw [← this] at hp
        exact h (.inl (List.mem_singleton.1 hp))
      · exact h (.inr (c.eq_of_mem hq hqb ▸ c.mem p))

/-- `a`, the last of its chain, is alone again. -/
def dropLast (a : P) (l : List P) (ha : c.chain a = l ++ [a]) : Chains P where
  chain p := if p = a then [a] else if p ∈ l then l else c.chain p
  mem p := by
    by_cases hp : p = a
    · simp [hp]
    · by_cases hl : p ∈ l
      · simp [hp, hl]
      · simp [hp, hl, c.mem p]
  nodup p := by
    have hnd := c.nodup a
    rw [ha, List.nodup_append] at hnd
    by_cases hp : p = a
    · simp [hp]
    · by_cases hl : p ∈ l
      · simp [hp, hl, hnd.1]
      · simp [hp, hl, c.nodup p]
  same p q hq := by
    have hnd := c.nodup a
    rw [ha, List.nodup_append] at hnd
    have hal : a ∉ l := fun h => hnd.2.2 a h a (List.mem_singleton_self a) rfl
    by_cases hp : p = a
    · simp_all
    · by_cases hl : p ∈ l
      · rw [if_neg hp, if_pos hl] at hq ⊢
        have hqa : q ≠ a := fun h => hal (h ▸ hq)
        rw [if_neg hqa, if_pos hq]
      · rw [if_neg hp, if_neg hl] at hq ⊢
        have hout : ∀ r, r ∈ c.chain p → r ∉ c.chain a := by
          intro r hr hra
          have hpa := c.eq_of_mem hr hra ▸ c.mem p
          rw [ha, List.mem_append, List.mem_singleton] at hpa
          exact hpa.elim hl hp
        have hqa := hout q hq
        rw [ha, List.mem_append, List.mem_singleton, not_or] at hqa
        rw [if_neg hqa.2, if_neg hqa.1, c.same p q hq]

end Chains

/-- `next` and `prev` give every element its neighbours on its chain. -/
structure Linked {P : Type*} (next prev : P → Option P) (c : Chains P) : Prop where
  neighbours : ∀ l₁ p l₂, c.chain p = l₁ ++ p :: l₂ → next p = l₂.head? ∧ prev p = l₁.getLast?

namespace Linked

variable {P : Type*} {next prev : P → Option P} {c : Chains P} {p q a b : P} {l : List P}

theorem single : Linked (fun _ : P => none) (fun _ => none) Chains.single where
  neighbours l₁ p l₂ h := by
    obtain ⟨rfl, rfl⟩ := Chains.single.split_unique h [] [] rfl
    exact ⟨rfl, rfl⟩

/-- The element after `p`. -/
theorem next_iff (h : Linked next prev c) : next p = some q ↔ ∃ l₁ l₂, c.chain p = l₁ ++ p :: q :: l₂ := by
  obtain ⟨l₁, l₂, hp⟩ := c.split p
  rw [(h.neighbours _ _ _ hp).1]
  constructor
  · intro hq
    cases l₂ with
    | nil => cases hq
    | cons r l₂ =>
      cases hq
      exact ⟨l₁, l₂, hp⟩
  · intro ⟨l₁', l₂', hp'⟩
    rw [(c.split_unique hp _ _ hp').2]
    rfl

theorem prev_iff (h : Linked next prev c) : prev q = some p ↔ ∃ l₁ l₂, c.chain q = l₁ ++ p :: q :: l₂ := by
  obtain ⟨l₁, l₂, hq⟩ := c.split q
  rw [(h.neighbours _ _ _ hq).2]
  constructor
  · intro hp
    obtain ⟨l₁', rfl⟩ := List.getLast?_eq_some_iff.1 hp
    exact ⟨l₁', l₂, by simpa using hq⟩
  · intro ⟨l₁', l₂', hq'⟩
    rw [(c.split_unique hq (l₁' ++ [p]) l₂' (by simpa using hq')).1]
    simp

/-- The two are inverse to one another. -/
theorem inverse (h : Linked next prev c) : next p = some q ↔ prev q = some p := by
  rw [h.next_iff, h.prev_iff]
  constructor
  · intro ⟨l₁, l₂, hp⟩
    exact ⟨l₁, l₂, (c.same p q (by simp [hp])).trans hp⟩
  · intro ⟨l₁, l₂, hq⟩
    exact ⟨l₁, l₂, (c.same q p (by simp [hq])).trans hq⟩

theorem last (h : Linked next prev c) (ha : next a = none) : ∃ l, c.chain a = l ++ [a] := by
  obtain ⟨l₁, l₂, hsplit⟩ := c.split a
  have hhead := (h.neighbours _ _ _ hsplit).1
  rw [ha] at hhead
  obtain rfl := List.head?_eq_none_iff.1 hhead.symm
  exact ⟨l₁, hsplit⟩

theorem alone (h : Linked next prev c) (ha : next a = none) (ha' : prev a = none) : c.chain a = [a] := by
  obtain ⟨l, hl⟩ := h.last ha
  have hlast := (h.neighbours l a [] hl).2
  rw [ha'] at hlast
  rw [hl, List.getLast?_eq_none_iff.1 hlast.symm, List.nil_append]

/-- What can be reached along `next` comes later on the chain. -/
theorem later (h : Linked next prev c) (hpq : Relation.TransGen (fun p q => next p = some q) p q) :
    ∃ l₁ l₂ l₃, c.chain p = l₁ ++ p :: l₂ ++ q :: l₃ := by
  induction hpq with
  | single hq =>
    obtain ⟨l₁, l₂, hp⟩ := h.next_iff.1 hq
    exact ⟨l₁, [], l₂, by simpa using hp⟩
  | @tail q r _ hr ih =>
    obtain ⟨l₁, l₂, l₃, hp⟩ := ih
    obtain ⟨m₁, m₂, hq⟩ := h.next_iff.1 hr
    have hsame : c.chain q = c.chain p := c.same p q (by simp [hp])
    obtain ⟨rfl, rfl⟩ := c.split_unique (hsame.trans hp) _ _ hq
    exact ⟨l₁, l₂ ++ [q], m₂, by simp [hp]⟩

theorem acyclic (h : Linked next prev c) : ¬ Relation.TransGen (fun p q => next p = some q) p p := by
  intro hp
  obtain ⟨l₁, l₂, l₃, hsplit⟩ := h.later hp
  have hnd := c.nodup p
  rw [hsplit, List.nodup_append] at hnd
  exact hnd.2.2 p (by simp) p List.mem_cons_self rfl

variable [DecidableEq P]

theorem append (h : Linked next prev c) (ha : c.chain a = [a]) (hab : a ∉ c.chain b) (hb : next b = none) :
    Linked (Function.update next b (some a)) (Function.update prev a (some b)) (c.append a b ha hab) where
  neighbours l₁ p l₂ hp := by
    obtain ⟨l, hl⟩ := h.last hb
    have hne : a ≠ b := fun he => hab (he ▸ c.mem b)
    have hchain : ∀ {q}, q = a ∨ q ∈ c.chain b → (c.append a b ha hab).chain q = l ++ [b, a] := by
      intro q hq
      refine (if_pos hq).trans ?_
      simp [hl]
    by_cases hpa : p = a
    · subst hpa
      obtain ⟨rfl, rfl⟩ := Chains.split_unique _ hp (l ++ [b]) [] (by simp [hchain])
      simpa [Function.update_of_ne hne] using (h.neighbours [] p [] ha).1
    by_cases hpb : p = b
    · subst hpb
      obtain ⟨rfl, rfl⟩ := Chains.split_unique _ hp l [a] (hchain (.inr (c.mem p)))
      simpa [Function.update_of_ne hpa] using (h.neighbours l₁ p [] hl).2
    rw [Function.update_of_ne hpa, Function.update_of_ne hpb]
    by_cases hmem : p ∈ c.chain b
    · have hpl : p ∈ l := by simpa [hl, hpb] using hmem
      obtain ⟨m₁, m₂, rfl⟩ := List.append_of_mem hpl
      obtain ⟨rfl, rfl⟩ := Chains.split_unique _ hp m₁ (m₂ ++ [b, a]) (by simp [hchain (.inr hmem)])
      have hold := h.neighbours l₁ p (m₂ ++ [b]) (by rw [c.same b p hmem, hl]; simp)
      cases m₂ <;> simpa using hold
    · have hsame : (c.append a b ha hab).chain p = c.chain p := if_neg (by simp [hpa, hmem])
      exact h.neighbours _ _ _ (hsame ▸ hp)

theorem dropLast (h : Linked next prev c) (ha : c.chain a = l ++ [a]) (hb : prev a = some b) :
    Linked (Function.update next b none) (Function.update prev a none) (c.dropLast a l ha) where
  neighbours l₁ p l₂ hp := by
    obtain ⟨m, rfl⟩ : ∃ m, l = m ++ [b] := by
      have hlast := (h.neighbours l a [] ha).2
      rw [hb] at hlast
      exact List.getLast?_eq_some_iff.1 hlast.symm
    have hnd := c.nodup a
    rw [ha, List.nodup_append] at hnd
    have hne : a ≠ b := fun he => hnd.2.2 b (by simp) a (by simp) he.symm
    have hchain : ∀ {q}, q ∈ m ++ [b] → (c.dropLast a (m ++ [b]) ha).chain q = m ++ [b] := by
      intro q hq
      have hqa : q ≠ a := fun he => hnd.2.2 q hq a (by simp) he
      simp only [Chains.dropLast, if_neg hqa, if_pos hq]
    by_cases hpa : p = a
    · subst hpa
      obtain ⟨rfl, rfl⟩ := Chains.split_unique _ hp [] [] (by simp [Chains.dropLast])
      simpa [Function.update_of_ne hne] using (h.neighbours _ p [] ha).1
    by_cases hpb : p = b
    · subst hpb
      obtain ⟨rfl, rfl⟩ := Chains.split_unique _ hp m [] (hchain (by simp))
      have hsame : c.chain p = c.chain a := c.same a p (by simp [ha])
      simpa [Function.update_of_ne hpa] using (h.neighbours l₁ p [a] (by rw [hsame, ha]; simp)).2
    rw [Function.update_of_ne hpa, Function.update_of_ne hpb]
    by_cases hmem : p ∈ m
    · obtain ⟨m₁, m₂, rfl⟩ := List.append_of_mem hmem
      obtain ⟨rfl, rfl⟩ := Chains.split_unique _ hp m₁ (m₂ ++ [b]) (by rw [hchain (by simp)]; simp)
      have hold := h.neighbours l₁ p (m₂ ++ [b, a]) (by rw [c.same a p (by simp [ha]), ha]; simp)
      cases m₂ <;> simpa using hold
    · have hsame : (c.dropLast a (m ++ [b]) ha).chain p = c.chain p := by simp [Chains.dropLast, hpa, hmem, hpb]
      exact h.neighbours _ _ _ (hsame ▸ hp)

end Linked
