/-
Conveyors with drains: beside its places a conveyor may have others, into which
things fall and from which nothing moves on.

A layout with drains is a layout, so what was loaded is still what was unloaded
and what the places and the drains hold. Here are the moves of more than one
step that end in a drain, or in a place behind the entry.
-/
import Mathlib.Data.Fintype.BigOperators
import RuralPipe.Conveyor

/-- The layout with the drains `Q` beside its places, and from where things may
fall into each. -/
def Layout.withDrains {P Q : Type*} (y : Layout P) (drain : P → Q → Prop) : Layout (P ⊕ Q) where
  entry := Sum.elim y.entry fun _ => False
  link
    | .inl p, .inl q => y.link p q
    | .inl p, .inr q => drain p q
    | .inr _, _ => False
  exit := Sum.elim y.exit fun _ => False

namespace Conveyor

variable {P Q α : Type*} {y : Layout P} {drain : P → Q → Prop} {c c' : Conveyor (P ⊕ Q) α}

/-- All that some places hold may fall into one drain. -/
theorem falls_steps {q : Q} (ps : List P) (hd : ∀ p ∈ ps, drain p q) (hps : ps.Nodup)
    (hp : ∀ p ∈ ps, c'.holds (.inl p) = [])
    (hq : c'.holds (.inr q) = c.holds (.inr q) ++ ps.flatMap fun p => c.holds (.inl p))
    (hr : ∀ r, r ≠ .inr q → (∀ p ∈ ps, r ≠ .inl p) → c'.holds r = c.holds r) (hl : c'.loaded = c.loaded)
    (hu : c'.unloaded = c.unloaded) : (conveyor α (y.withDrains drain)).Steps c c' := by
  classical
  induction ps generalizing c with
  | nil =>
    have heq : c' = c := by
      refine Conveyor.ext (funext fun r => ?_) hl hu
      by_cases hrq : r = .inr q
      · subst hrq
        rw [hq, List.flatMap_nil, List.append_nil]
      · exact hr r hrq (by simp)
    rw [heq]
    exact .refl
  | cons p ps ih =>
    obtain ⟨hnot, hps⟩ := List.nodup_cons.1 hps
    -- First what the place `p` holds.
    obtain ⟨c₁, hc₁⟩ : ∃ c₁ : Conveyor (P ⊕ Q) α, c₁ = ⟨Function.update (Function.update c.holds (.inl p) [])
      (.inr q) (c.holds (.inr q) ++ c.holds (.inl p)), c.loaded, c.unloaded⟩ := ⟨_, rfl⟩
    have hother : ∀ r, r ≠ .inl p → r ≠ .inr q → c₁.holds r = c.holds r := by
      intro r hrp hrq
      simp [hc₁, hrp, hrq]
    have hfrom : c₁.holds (.inl p) = [] := by simp [hc₁]
    have hto : c₁.holds (.inr q) = c.holds (.inr q) ++ c.holds (.inl p) := by simp [hc₁]
    have hmove : ConveyorStep (y.withDrains drain) c (.move (.inl p) (.inr q) (c.holds (.inl p))) c₁ :=
      .move (hd p List.mem_cons_self) (by simp) (by rw [hfrom, List.append_nil]) hto hother (by rw [hc₁]) (by rw [hc₁])
    have hsame : ∀ p' ∈ ps, c₁.holds (.inl p') = c.holds (.inl p') := fun p' hp' =>
      hother _ (fun he => hnot (Sum.inl.inj he ▸ hp')) (by simp)
    refine .trans (Machine.Steps.one hmove) (ih (fun p' hp' => hd p' (List.mem_cons_of_mem _ hp')) hps
      (fun p' hp' => hp p' (List.mem_cons_of_mem _ hp')) ?_ (fun r hrq hrps => ?_) (by rw [hl, hc₁]) (by rw [hu, hc₁]))
    · rw [hq, hto, List.flatMap_cons, flatMap_same hsame, List.append_assoc]
    · by_cases hrp : r = .inl p
      · subst hrp
        rw [hp p List.mem_cons_self, hfrom]
      · rw [hr r hrq (by simpa [hrp] using hrps), hother r hrp hrq]

/-- A thing may fall as soon as it is loaded. -/
theorem load_falls_steps {p : P} {q : Q} (ps : List P) {o : Option α}
    (he : ∀ a, o = some a → y.entry p) (hd : ∀ r ∈ p :: ps, drain r q)
    (hps : (p :: ps).Nodup) (hp : ∀ r ∈ p :: ps, c'.holds (.inl r) = [])
    (hq : c'.holds (.inr q) =
      c.holds (.inr q) ++ (c.holds (.inl p) ++ o.toList ++ ps.flatMap fun r => c.holds (.inl r)))
    (hr : ∀ r, r ≠ .inr q → (∀ r' ∈ p :: ps, r ≠ .inl r') → c'.holds r = c.holds r)
    (hl : c'.loaded = c.loaded ++ o.toList) (hu : c'.unloaded = c.unloaded) :
    (conveyor α (y.withDrains drain)).Steps c c' := by
  classical
  cases o with
  | none =>
    refine falls_steps (p :: ps) hd hps hp (hq.trans ?_) hr (hl.trans (List.append_nil _)) hu
    rw [Option.toList, List.append_nil, List.flatMap_cons]
  | some a =>
    obtain ⟨c₁, hc₁⟩ : ∃ c₁ : Conveyor (P ⊕ Q) α,
      c₁ = ⟨Function.update c.holds (.inl p) (c.holds (.inl p) ++ [a]), c.loaded ++ [a], c.unloaded⟩ := ⟨_, rfl⟩
    have hother : ∀ r, r ≠ .inl p → c₁.holds r = c.holds r := fun r hrp => by simp [hc₁, hrp]
    have hself : c₁.holds (.inl p) = c.holds (.inl p) ++ [a] := by simp [hc₁]
    have hload : ConveyorStep (y.withDrains drain) c (.load (.inl p) a) c₁ :=
      .load (he a rfl) hself hother (by rw [hc₁]) (by rw [hc₁])
    refine .trans (Machine.Steps.one hload) (falls_steps (p :: ps) hd hps hp ?_ (fun r hrq hrps => ?_) (by rw [hl, hc₁]; rfl)
      (by rw [hu, hc₁]))
    · rw [hq, hother (.inr q) (by simp), List.flatMap_cons, hself]
      refine congrArg (fun l => _ ++ (_ ++ l)) (flatMap_same fun r hmem => (hother _ fun he => ?_).symm)
      exact (List.nodup_cons.1 hps).1 (Sum.inl.inj he ▸ hmem)
    · rw [hr r hrq hrps, hother r (hrps p List.mem_cons_self)]

/-- A thing may move on as soon as it is loaded. -/
theorem load_move_steps {P : Type*} {y : Layout P} {c c' : Conveyor P α} {p q : P} {a : α} (he : y.entry p)
    (hpq : y.link p q) (hne : p ≠ q) (hp : c.holds p = []) (hp' : c'.holds p = [])
    (hq : c'.holds q = c.holds q ++ [a]) (hr : ∀ r, r ≠ p → r ≠ q → c'.holds r = c.holds r)
    (hl : c'.loaded = c.loaded ++ [a]) (hu : c'.unloaded = c.unloaded) : (conveyor α y).Steps c c' := by
  classical
  obtain ⟨c₁, hc₁⟩ : ∃ c₁ : Conveyor P α, c₁ = ⟨Function.update c.holds p [a], c.loaded ++ [a], c.unloaded⟩ := ⟨_, rfl⟩
  have hother : ∀ r, r ≠ p → c₁.holds r = c.holds r := fun r hrp => by simp [hc₁, hrp]
  have hself : c₁.holds p = [a] := by simp [hc₁]
  have hload : ConveyorStep y c (.load p a) c₁ :=
    .load he (by rw [hself, hp]; rfl) hother (by rw [hc₁]) (by rw [hc₁])
  have hmove : ConveyorStep y c₁ (.move p q [a]) c' :=
    .move hpq hne (by rw [hself, hp']; rfl) (by rw [hq, hother q hne.symm])
      (fun r hrp hrq => by rw [hr r hrp hrq, hother r hrp]) (by rw [hl, hc₁]) (by rw [hu, hc₁])
  exact .tail (Machine.Steps.one hload) ⟨_, hmove⟩

/-- Nothing comes back from a drain: what is at a place afterwards was at one, or
has been loaded. -/
theorem steps_places (h : (conveyor α (y.withDrains drain)).Steps c c') :
    ∃ as, c'.loaded = c.loaded ++ as ∧ ∀ p, ∀ a ∈ c'.holds (.inl p), (∃ p', a ∈ c.holds (.inl p')) ∨ a ∈ as := by
  induction h with
  | refl => exact ⟨[], (List.append_nil _).symm, fun p a ha => .inl ⟨p, ha⟩⟩
  | @tail c₁ c' _ hstep ih =>
    obtain ⟨as, hl, hall⟩ := ih
    obtain ⟨l, hs⟩ := hstep
    cases hs with
    | @load _ r a he hp hr hl' hu =>
      refine ⟨as ++ [a], by rw [hl', hl, List.append_assoc], fun p b hb => ?_⟩
      by_cases hpr : (.inl p : P ⊕ Q) = r
      · rw [hpr, hp, List.mem_append] at hb
        rcases hb with hb | hb
        · exact (hall p b (hpr ▸ hb)).imp_right (List.mem_append_left _)
        · exact .inr (List.mem_append_right _ hb)
      · rw [hr _ hpr] at hb
        exact (hall p b hb).imp_right (List.mem_append_left _)
    | @move _ r q bs hlink hne hr hq hrest hl' hu =>
      refine ⟨as, hl'.trans hl, fun p b hb => ?_⟩
      by_cases hpq : (.inl p : P ⊕ Q) = q
      · rw [hpq, hq, List.mem_append] at hb
        rcases hb with hb | hb
        · exact hall p b (hpq ▸ hb)
        · rcases r with r | r
          · exact hall r b (hr ▸ List.mem_append_left _ hb)
          · exact hlink.elim
      · by_cases hpr : (.inl p : P ⊕ Q) = r
        · exact hall p b (by rw [hpr, hr]; exact List.mem_append_right _ (hpr ▸ hb))
        · exact hall p b (hrest _ hpr hpq ▸ hb)
    | @unload _ r a he hr hrest hl' hu =>
      refine ⟨as, hl'.trans hl, fun p b hb => ?_⟩
      by_cases hpr : (.inl p : P ⊕ Q) = r
      · exact hall p b (by rw [hpr, hr]; exact List.mem_cons_of_mem _ (hpr ▸ hb))
      · exact hall p b (hrest _ hpr ▸ hb)

/-- The places' contents, and the drains'. -/
theorem contents_drained [Fintype P] [Fintype Q] (h : P ⊕ Q → List α) :
    contents h = contents (fun p => h (.inl p)) + contents fun q => h (.inr q) := by
  rw [contents, Fintype.sum_sum_type]
  rfl

end Conveyor
