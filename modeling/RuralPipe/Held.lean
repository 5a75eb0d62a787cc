/-
What a set of holders has, one thing each at most, as a bag.

Any number of holders may be there, but only finitely many have something
(`Held`). One that is given a thing adds it to the bag, and one that gives its
thing back takes it out.
-/
import Mathlib.Data.Finset.Basic
import Mathlib.Data.Multiset.Filter

/-- `m` is the bag of what the holders have. -/
def Held {S α : Type*} (f : S → Option α) (m : Multiset α) : Prop :=
  ∃ s : Finset S, (∀ i, i ∈ s ↔ (f i).isSome) ∧ m = s.val.filterMap f

namespace Held

variable {S α : Type*} {f g : S → Option α} {m : Multiset α} {i : S} {a : α}

/-- Nobody holds anything. -/
theorem none (h : ∀ i, f i = Option.none) : Held f 0 :=
  ⟨∅, fun i => by simp [h i], rfl⟩

/-- So the bag is empty where nobody holds anything. -/
theorem eq_zero (hm : Held f m) (h : ∀ i, f i = Option.none) : m = 0 := by
  obtain ⟨s, hs, rfl⟩ := hm
  obtain rfl : s = ∅ := Finset.eq_empty_of_forall_notMem fun i hi => by simp [hs, h i] at hi
  rfl

theorem congr (hm : Held f m) (h : ∀ i, g i = f i) : Held g m := by
  rwa [funext h]

theorem filterMap_congr {s : Multiset S} (h : ∀ j ∈ s, g j = f j) : s.filterMap g = s.filterMap f := by
  induction s using Quotient.inductionOn with
  | _ l => exact congrArg _ (List.filterMap_congr h)

/-- What others hold, before and after `i` gets or gives its own. -/
theorem filterMap_erase [DecidableEq S] {s : Finset S} (h : ∀ j, j ≠ i → g j = f j) :
    (s.erase i).val.filterMap g = (s.erase i).val.filterMap f :=
  filterMap_congr fun j hj => h j (Finset.ne_of_mem_erase hj)

theorem give [DecidableEq S] (hm : Held f m) (hi : f i = Option.none) (ha : g i = some a)
    (h : ∀ j, j ≠ i → g j = f j) : Held g (a ::ₘ m) := by
  obtain ⟨s, hs, rfl⟩ := hm
  have hnot : i ∉ s := fun hmem => by simp [hs, hi] at hmem
  refine ⟨insert i s, fun j => ?_, ?_⟩
  · by_cases hj : j = i
    · simp [hj, ha]
    · simp [hj, hs, h j hj]
  · have herase := filterMap_erase (s := s) h
    rw [Finset.erase_eq_of_notMem hnot] at herase
    rw [Finset.insert_val_of_notMem hnot, Multiset.filterMap_cons_some _ _ _ ha, herase]

theorem giveBack [DecidableEq S] (hm : Held f m) (ha : f i = some a) (hi : g i = Option.none)
    (h : ∀ j, j ≠ i → g j = f j) : ∃ m', m = a ::ₘ m' ∧ Held g m' := by
  obtain ⟨s, hs, rfl⟩ := hm
  have hmem : i ∈ s := by simp [hs, ha]
  refine ⟨(s.erase i).val.filterMap f, ?_, s.erase i, fun j => ?_, (filterMap_erase h).symm⟩
  · rw [← Multiset.filterMap_cons_some _ _ _ ha, Finset.erase_val, Multiset.cons_erase hmem]
  · by_cases hj : j = i
    · simp [hj, hi]
    · simp [hj, hs, h j hj]

end Held
