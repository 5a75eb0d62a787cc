/-
Conveyors: places that hold things in a queue each, and moves from the front
of one place to the end of another.

A thing is loaded at a place, moves on with others from in front of it, and is
unloaded. However the places are linked, what was loaded is what was unloaded
and what the places hold, each thing as often (`conserved`). Where the places
form a line, the things also leave in the order they came (`in_order`).
-/
import Mathlib.Algebra.BigOperators.Group.Finset.Basic
import Mathlib.Algebra.Order.Group.Multiset
import Mathlib.Data.Fintype.Basic
import RuralPipe.Machine

/-- Where things enter and leave, and from where to where they move. -/
structure Layout (P : Type*) where
  entry : P → Prop
  link : P → P → Prop
  exit : P → Prop

/-- What the places hold, the front of each first, and the things loaded and
unloaded so far, the oldest first. -/
@[ext] structure Conveyor (P α : Type*) where
  holds : P → List α
  loaded : List α
  unloaded : List α

inductive ConveyorLabel (P α : Type*)
  | load (p : P) (a : α)
  | move (p q : P) (as : List α)
  | unload (p : P) (a : α)

inductive ConveyorStep {P α : Type*} (y : Layout P) : Conveyor P α → ConveyorLabel P α → Conveyor P α → Prop
  | load {c c' : Conveyor P α} {p a} : y.entry p → c'.holds p = c.holds p ++ [a] →
      (∀ r, r ≠ p → c'.holds r = c.holds r) → c'.loaded = c.loaded ++ [a] → c'.unloaded = c.unloaded →
      ConveyorStep y c (.load p a) c'
  | move {c c' : Conveyor P α} {p q as} : y.link p q → p ≠ q → c.holds p = as ++ c'.holds p →
      c'.holds q = c.holds q ++ as → (∀ r, r ≠ p → r ≠ q → c'.holds r = c.holds r) →
      c'.loaded = c.loaded → c'.unloaded = c.unloaded → ConveyorStep y c (.move p q as) c'
  | unload {c c' : Conveyor P α} {p a} : y.exit p → c.holds p = a :: c'.holds p →
      (∀ r, r ≠ p → c'.holds r = c.holds r) → c'.loaded = c.loaded → c'.unloaded = c.unloaded ++ [a] →
      ConveyorStep y c (.unload p a) c'

/-- A conveyor that starts empty. -/
def conveyor {P : Type*} (α : Type*) (y : Layout P) : Machine (Conveyor P α) (ConveyorLabel P α) where
  init c := c = { holds := fun _ => [], loaded := [], unloaded := [] }
  step := ConveyorStep y

namespace Conveyor

variable {P α : Type*} {y : Layout P} {c c' : Conveyor P α} {l : ConveyorLabel P α}

/-! ## Nothing is lost -/

section
variable [Fintype P]

/-- All the places hold together. -/
def contents (h : P → List α) : Multiset α := ∑ p, (h p : Multiset α)

/-- A change at one place. -/
theorem contents_change {f g : P → List α} {p : P} (hr : ∀ r, r ≠ p → g r = f r) :
    contents g + (f p : Multiset α) = contents f + (g p : Multiset α) := by
  classical
  have hrest : ∑ r ∈ Finset.univ.erase p, (g r : Multiset α) = ∑ r ∈ Finset.univ.erase p, (f r : Multiset α) :=
    Finset.sum_congr rfl fun r hmem => congrArg _ (hr r (Finset.ne_of_mem_erase hmem))
  rw [contents, contents, ← Finset.add_sum_erase _ _ (Finset.mem_univ p), hrest,
    ← Finset.add_sum_erase _ (fun r => (f r : Multiset α)) (Finset.mem_univ p)]
  rw [add_right_comm, add_comm (g p : Multiset α), add_right_comm]

/-- A step moves things about, or adds one to the loaded and to a place, or
takes one from a place to the unloaded. -/
theorem conserved_step (h : (c.loaded : Multiset α) = c.unloaded + contents c.holds) (hs : ConveyorStep y c l c') :
    (c'.loaded : Multiset α) = c'.unloaded + contents c'.holds := by
  cases hs with
  | @load _ p a _ hp hr hl hu =>
    have hc := contents_change hr
    rw [hp, ← Multiset.coe_add, ← add_assoc, add_right_comm] at hc
    rw [hl, hu, add_right_cancel hc, ← Multiset.coe_add, h, add_assoc]
  | @move _ p q as _ hpq hp hq hr hl hu =>
    classical
    -- First the things leave their place, then they are put at the other.
    have h₁ := contents_change (f := c.holds) (g := Function.update c.holds p (c'.holds p)) (p := p)
      fun r hrp => Function.update_of_ne hrp ..
    have h₂ := contents_change (f := Function.update c.holds p (c'.holds p)) (g := c'.holds) (p := q) fun r hrq => by
      by_cases hrp : r = p
      · subst hrp
        rw [Function.update_self]
      · rw [Function.update_of_ne hrp, hr r hrp hrq]
    rw [Function.update_self, hp, ← Multiset.coe_add, ← add_assoc] at h₁
    rw [Function.update_of_ne hpq.symm, hq, ← Multiset.coe_add, add_comm (c.holds q : Multiset α), ← add_assoc] at h₂
    rw [hl, hu, h, add_right_cancel h₂, add_right_cancel h₁]
  | @unload _ p a _ hp hr hl hu =>
    have hc := contents_change hr
    rw [hp, ← Multiset.cons_coe, ← Multiset.singleton_add, ← add_assoc] at hc
    rw [hl, hu, h, ← add_right_cancel hc, ← Multiset.coe_add, add_assoc, add_comm (contents c'.holds)]
    rfl

/-- **What was loaded was unloaded or is held**, each thing as often. -/
theorem conserved (h : (conveyor α y).Reachable c) : (c.loaded : Multiset α) = c.unloaded + contents c.holds := by
  refine h.invariant (I := fun c : Conveyor P α => (c.loaded : Multiset α) = c.unloaded + contents c.holds) ?_ ?_
  · intro c hc
    cases hc
    simp [contents]
  · intro c l c' _ hI hs
    exact conserved_step hI hs

end

/-! ## Order -/

end Conveyor

/-- The places form a line, the exit first: things enter at its end, leave at
its head, and move from each place to the one before. -/
structure Layout.Line {P : Type*} (y : Layout P) (line : List P) : Prop where
  nodup : line.Nodup
  entry : ∀ p, y.entry p → ∃ l, line = l ++ [p]
  link : ∀ p q, y.link p q → ∃ l l', line = l ++ q :: p :: l'
  exit : ∀ p, y.exit p → ∃ l, line = p :: l

namespace Conveyor

variable {P α : Type*} {y : Layout P} {c c' : Conveyor P α} {l : ConveyorLabel P α} {line : List P}

theorem flatMap_same {h h' : P → List α} {ps : List P} (hr : ∀ r ∈ ps, h' r = h r) : ps.flatMap h' = ps.flatMap h :=
  congrArg List.flatten (List.map_congr_left hr)

theorem in_order_step (hy : y.Line line) (h : c.unloaded ++ line.flatMap c.holds = c.loaded)
    (hs : ConveyorStep y c l c') : c'.unloaded ++ line.flatMap c'.holds = c'.loaded := by
  have hnodup := hy.nodup
  cases hs with
  | @load _ p a hp hadd hr hl hu =>
    obtain ⟨l, rfl⟩ := hy.entry p hp
    have hne : ∀ r ∈ l, r ≠ p := fun r hmem he => List.disjoint_of_nodup_append hnodup hmem (by simp [he])
    rw [hl, hu, ← h, List.flatMap_append, List.flatMap_append, flatMap_same fun r hmem => hr r (hne r hmem)]
    simp [hadd]
  | @move _ p q as hp hpq hsub hadd hr hl hu =>
    obtain ⟨l, l', rfl⟩ := hy.link p q hp
    have hne : ∀ r ∈ l, r ≠ p ∧ r ≠ q := fun r hmem =>
      ⟨fun he => List.disjoint_of_nodup_append hnodup hmem (by simp [he]),
        fun he => List.disjoint_of_nodup_append hnodup hmem (by simp [he])⟩
    have hne' : ∀ r ∈ l', r ≠ p ∧ r ≠ q := by
      intro r hmem
      have hcons := (List.nodup_append.1 hnodup).2.1
      obtain ⟨hq, hp⟩ := List.nodup_cons.1 hcons
      refine ⟨?_, ?_⟩
      · exact fun he => (List.nodup_cons.1 hp).1 (he ▸ hmem)
      · exact fun he => hq (he ▸ List.mem_cons_of_mem _ hmem)
    rw [hl, hu, ← h, List.flatMap_append, List.flatMap_append, List.flatMap_cons, List.flatMap_cons,
      List.flatMap_cons, List.flatMap_cons, flatMap_same fun r hmem => hr r (hne r hmem).1 (hne r hmem).2,
      flatMap_same fun r hmem => hr r (hne' r hmem).1 (hne' r hmem).2, hadd, hsub]
    simp
  | @unload _ p a hp hsub hr hl hu =>
    obtain ⟨l, rfl⟩ := hy.exit p hp
    have hne : ∀ r ∈ l, r ≠ p := fun r hmem he => (List.nodup_cons.1 hnodup).1 (he ▸ hmem)
    rw [hl, hu, ← h, List.flatMap_cons, List.flatMap_cons, flatMap_same fun r hmem => hr r (hne r hmem), hsub]
    simp

/-- **On a line, things leave in the order they came**: those unloaded, then
those held, the nearest to the exit first, are those loaded. -/
theorem in_order (hy : y.Line line) (h : (conveyor α y).Reachable c) :
    c.unloaded ++ line.flatMap c.holds = c.loaded := by
  refine h.invariant (I := fun c : Conveyor P α => c.unloaded ++ line.flatMap c.holds = c.loaded) ?_ ?_
  · intro c hc
    cases hc
    simp
  · intro c l c' _ hI hs
    exact in_order_step hy hI hs

end Conveyor
