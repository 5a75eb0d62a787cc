/-
Ways through a conveyor: in line from one entry to one exit.

Where places fork and join, things overtake one another. But those loaded at
one entry get to some of the places only, and a way among these may be in line:
joined at its end alone. Those that come in at that entry and go out at the
way's exit do so in order, whatever leaves the way in between
(`ways_in_order`). For the proof every thing is marked with the place where it
was loaded (`marked`).
-/
import RuralPipe.Conveyor

/-- The layout with places `E` to come in at and `X` to go out at. -/
def Layout.through {P : Type*} (y : Layout P) (E X : P → Prop) : Layout P where
  entry := E
  link := y.link
  exit := X

/-- From `e` things get to `p`. -/
def Layout.Leads {P : Type*} (y : Layout P) : P → P → Prop := Relation.ReflTransGen y.link

/-- A way for what comes in at `e`: its places are in line, the exit first, and
nothing of it gets onto the way but at its end. -/
structure Layout.Way {P : Type*} (y : Layout P) (e : P) (line : List P) : Prop where
  nodup : line.Nodup
  entry : e ∈ line → ∃ l, line = l ++ [e]
  link : ∀ p q, q ∈ line → y.Leads e p → y.link p q → ∃ l l', line = l ++ q :: p :: l'
  exit : ∀ p ∈ line, y.Leads e p → y.exit p → ∃ l, line = p :: l

namespace Conveyor

open Machine

variable {P α : Type*} {y : Layout P} {c c' : Conveyor P α} {l : ConveyorLabel P α} {line : List P}

/-- What has come in, and where. -/
def entries (tr : List (Transition (Conveyor P α) (ConveyorLabel P α))) : List (P × α) :=
  tr.filterMap fun t => match t.label with
    | .load p a => some (p, a)
    | _ => none

/-- What has gone out, and where. -/
def exits (tr : List (Transition (Conveyor P α) (ConveyorLabel P α))) : List (P × α) :=
  tr.filterMap fun t => match t.label with
    | .unload p a => some (p, a)
    | _ => none

theorem entries_append {tr tr' : List (Transition (Conveyor P α) (ConveyorLabel P α))} :
    entries (tr ++ tr') = entries tr ++ entries tr' := List.filterMap_append

theorem exits_append {tr tr' : List (Transition (Conveyor P α) (ConveyorLabel P α))} :
    exits (tr ++ tr') = exits tr ++ exits tr' := List.filterMap_append

/-- A run goes on by steps that load and unload at some places only. -/
theorem run_through {E X : P → Prop} {tr : List (Transition (Conveyor P α) (ConveyorLabel P α))}
    (h : (conveyor α y).Run tr c) (hE : ∀ p, E p → y.entry p) (hX : ∀ p, X p → y.exit p)
    (hs : (conveyor α (y.through E X)).Steps c c') :
    ∃ tr', (conveyor α y).Run (tr ++ tr') c' ∧ c'.loaded = c.loaded ++ (entries tr').map (·.2) ∧
      c'.unloaded = c.unloaded ++ (exits tr').map (·.2) ∧ (∀ e ∈ entries tr', E e.1) ∧ ∀ e ∈ exits tr', X e.1 := by
  induction hs with
  | refl => exact ⟨[], by rwa [List.append_nil], by simp [entries, exits]⟩
  | @tail d d' _ hstep ih =>
    obtain ⟨tr', hrun, hl, hu, hEs, hXs⟩ := ih
    obtain ⟨l, hstep⟩ := hstep
    refine ⟨tr' ++ [⟨d, l, d'⟩], ?_⟩
    rw [← List.append_assoc, entries_append, exits_append, List.map_append, List.map_append, ← List.append_assoc,
      ← List.append_assoc, ← hl, ← hu, List.forall_mem_append, List.forall_mem_append]
    cases hstep with
    | @load _ p a hp hadd hr hl hu =>
      exact ⟨hrun.step (.load (hE p hp) hadd hr hl hu), hl, hu.trans (List.append_nil _).symm,
        ⟨hEs, by simpa [entries, Layout.through] using hp⟩, hXs, by simp [exits]⟩
    | @move _ p q as hp hpq hsub hadd hr hl hu =>
      exact ⟨hrun.step (.move hp hpq hsub hadd hr hl hu), hl.trans (List.append_nil _).symm,
        hu.trans (List.append_nil _).symm, ⟨hEs, by simp [entries]⟩, hXs, by simp [exits]⟩
    | @unload _ p a hp hsub hr hl hu =>
      exact ⟨hrun.step (.unload (hX p hp) hsub hr hl hu), hl.trans (List.append_nil _).symm, hu,
        ⟨hEs, by simp [entries]⟩, hXs, by simpa [exits, Layout.through] using hp⟩

/-! ## Things with their marks -/

/-- Without the marks. -/
def plain (c : Conveyor P (P × α)) : Conveyor P α where
  holds p := (c.holds p).map (·.2)
  loaded := c.loaded.map (·.2)
  unloaded := c.unloaded.map (·.2)

/-- A step of things without marks is one of things with them, each marked with
the place where it is loaded. -/
theorem marked_step {m : Conveyor P (P × α)} (hs : ConveyorStep y m.plain l c') :
    ∃ l' m', ConveyorStep y m l' m' ∧ m'.plain = c' ∧ (∀ p a, l' = .load p a → a.1 = p) ∧
      m'.loaded = m.loaded ++ entries [⟨m.plain, l, c'⟩] ∧
      (exits [⟨m, l', m'⟩]).map (fun e => (e.1, e.2.2)) = exits [⟨m.plain, l, c'⟩] := by
  classical
  cases hs with
  | @load _ p a hp hadd hr hl hu =>
    refine ⟨.load p (p, a), ⟨Function.update m.holds p (m.holds p ++ [(p, a)]), m.loaded ++ [(p, a)], m.unloaded⟩,
      .load hp (by simp) (fun r hrp => by simp [hrp]) rfl rfl,
      Conveyor.ext (funext fun r => ?_) ?_ hu.symm, fun q b he => ?_, rfl, rfl⟩
    · show (Function.update m.holds p _ r).map _ = _
      by_cases hrp : r = p
      · subst hrp
        rw [Function.update_self, hadd, List.map_append]
        rfl
      · rw [Function.update_of_ne hrp, hr r hrp]
        rfl
    · show (m.loaded ++ [(p, a)]).map _ = _
      rw [hl, List.map_append]
      rfl
    · cases he
      rfl
  | @move _ p q as hp hpq hsub hadd hr hl hu =>
    obtain ⟨bs, rest, hm, rfl, hrest⟩ := List.map_eq_append_iff.1 hsub
    refine ⟨.move p q bs, ⟨Function.update (Function.update m.holds p rest) q (m.holds q ++ bs), m.loaded, m.unloaded⟩,
      .move hp hpq (by simp [hpq, hm]) (by simp) (fun r hrp hrq => by simp [hrp, hrq]) rfl rfl,
      Conveyor.ext (funext fun r => ?_) hl.symm hu.symm, fun _ _ he => (nomatch he), (List.append_nil _).symm, rfl⟩
    · show List.map (·.2) (Function.update (Function.update m.holds p rest) q (m.holds q ++ bs) r) = _
      by_cases hrq : r = q
      · subst hrq
        rw [Function.update_self, hadd, List.map_append]
        rfl
      by_cases hrp : r = p
      · subst hrp
        rw [Function.update_of_ne hrq, Function.update_self, hrest]
      · rw [Function.update_of_ne hrq, Function.update_of_ne hrp, hr r hrp hrq]
        rfl
  | @unload _ p a hp hsub hr hl hu =>
    obtain ⟨b, rest, hm, rfl, hrest⟩ := List.map_eq_cons_iff.1 hsub
    refine ⟨.unload p b, ⟨Function.update m.holds p rest, m.loaded, m.unloaded ++ [b]⟩,
      .unload hp (by simp [hm]) (fun r hrp => by simp [hrp]) rfl rfl,
      Conveyor.ext (funext fun r => ?_) hl.symm ?_, fun _ _ he => (nomatch he), (List.append_nil _).symm, rfl⟩
    · show (Function.update m.holds p _ r).map _ = _
      by_cases hrp : r = p
      · subst hrp
        rw [Function.update_self, hrest]
      · rw [Function.update_of_ne hrp, hr r hrp]
        rfl
    · show (m.unloaded ++ [b]).map _ = _
      rw [hu, List.map_append]
      rfl

/-- A run of things without marks is one of things with them. -/
theorem marked {tr : List (Transition (Conveyor P α) (ConveyorLabel P α))} (h : (conveyor α y).Run tr c) :
    ∃ (ms : List (Transition (Conveyor P (P × α)) (ConveyorLabel P (P × α)))) (m : Conveyor P (P × α)),
      (conveyor (P × α) y).Run ms m ∧ m.plain = c ∧ (∀ t ∈ ms, ∀ p a, t.label = .load p a → a.1 = p) ∧
      m.loaded = entries tr ∧ (exits ms).map (fun e => (e.1, e.2.2)) = exits tr := by
  induction h with
  | init hc =>
    cases hc
    exact ⟨[], _, .init rfl, rfl, (fun _ ht => nomatch ht), rfl, rfl⟩
  | step _ hs ih =>
    obtain ⟨ms, m, hrun, rfl, hmark, hl, hu⟩ := ih
    obtain ⟨l', m', hs', rfl, hmark', hl', hu'⟩ := marked_step hs
    refine ⟨ms ++ [⟨m, l', m'⟩], m', hrun.step hs', rfl, fun t ht => ?_, ?_, ?_⟩
    · rcases List.mem_append.1 ht with ht | ht
      · exact hmark t ht
      · rw [List.mem_singleton] at ht
        exact ht ▸ hmark'
    · rw [hl', hl, entries_append]
    · rw [exits_append, exits_append, List.map_append, hu, hu']

/-- What has gone out, wherever, is what has been unloaded. -/
theorem exits_unloaded {tr : List (Transition (Conveyor P α) (ConveyorLabel P α))} (h : (conveyor α y).Run tr c) :
    (exits tr).map (·.2) = c.unloaded := by
  induction h with
  | init hc =>
    cases hc
    rfl
  | step _ hs ih =>
    rw [exits_append, List.map_append, ih]
    cases hs with
    | load _ _ _ _ hu => exact (List.append_nil _).trans hu.symm
    | move _ _ _ _ _ _ hu => exact (List.append_nil _).trans hu.symm
    | unload _ _ _ _ hu => exact hu.symm

/-! ## Order on a way -/

section
variable [DecidableEq P] {m m' : Conveyor P (P × α)} {l : ConveyorLabel P (P × α)} {e : P}

/-- Those that came in at `e`. -/
def cameIn (e : P) (as : List (P × α)) : List (P × α) := as.filter (·.1 = e)

theorem cameIn_append (as bs : List (P × α)) : cameIn e (as ++ bs) = cameIn e as ++ cameIn e bs :=
  List.filter_append ..

/-- Those of them that are on the way, the nearest to the exit first. -/
def onWay (m : Conveyor P (P × α)) (e : P) (line : List P) : List (P × α) :=
  line.flatMap fun p => cameIn e (m.holds p)

omit [DecidableEq P] in
theorem flatMap_sublist {h h' : P → List α} {ps : List P} (hr : ∀ r ∈ ps, (h' r).Sublist (h r)) :
    (ps.flatMap h').Sublist (ps.flatMap h) := by
  induction ps with
  | nil => exact .slnil
  | cons p ps ih =>
    rw [List.flatMap_cons, List.flatMap_cons]
    exact (hr p List.mem_cons_self).append (ih fun r hmem => hr r (List.mem_cons_of_mem _ hmem))

theorem onWay_same {ps : List P} (h : ∀ p ∈ ps, m'.holds p = m.holds p) : m'.onWay e ps = m.onWay e ps :=
  flatMap_same fun p hp => congrArg _ (h p hp)

theorem onWay_append (ps qs : List P) : m.onWay e (ps ++ qs) = m.onWay e ps ++ m.onWay e qs :=
  List.flatMap_append

theorem onWay_cons (p : P) (ps : List P) : m.onWay e (p :: ps) = cameIn e (m.holds p) ++ m.onWay e ps :=
  List.flatMap_cons

/-- Every thing is where it can have got from where it came in. -/
def Placed (y : Layout P) (m : Conveyor P (P × α)) : Prop := ∀ p, ∀ a ∈ m.holds p, y.Leads a.1 p

omit [DecidableEq P] in
theorem Placed.step (h : Placed y m) (hs : ConveyorStep y m l m') (hmark : ∀ p a, l = .load p a → a.1 = p) :
    Placed y m' := by
  intro r a ha
  cases hs with
  | @load _ p b hp hadd hr =>
    by_cases hrp : r = p
    · subst hrp
      rw [hadd] at ha
      rcases List.mem_append.1 ha with ha | ha
      · exact h r a ha
      · rw [List.mem_singleton] at ha
        rw [ha, hmark r b rfl]
        exact .refl
    · exact h r a (hr r hrp ▸ ha)
  | @move _ p q as hp hpq hsub hadd hr =>
    by_cases hrp : r = p
    · subst hrp
      exact h r a (by rw [hsub]; exact List.mem_append_right _ ha)
    by_cases hrq : r = q
    · subst hrq
      rw [hadd] at ha
      rcases List.mem_append.1 ha with ha | ha
      · exact h r a ha
      · exact (h p a (by rw [hsub]; exact List.mem_append_left _ ha)).tail hp
    · exact h r a (hr r hrp hrq ▸ ha)
  | @unload _ p b hp hsub hr =>
    by_cases hrp : r = p
    · subst hrp
      exact h r a (by rw [hsub]; exact List.mem_cons_of_mem _ ha)
    · exact h r a (hr r hrp ▸ ha)

/-- What a step lets out by the exit of the way. -/
def leaves (e : P) (line : List P) : ConveyorLabel P (P × α) → List (P × α)
  | .unload p a => if p ∈ line ∧ a.1 = e then [a] else []
  | _ => []

/-- What it loads. -/
def loads : ConveyorLabel P (P × α) → List (P × α)
  | .load _ a => [a]
  | _ => []

/-- **A step on a way** lets its first thing out, takes one on at its end, or
loses some. -/
theorem way_step (hw : y.Way e line) (hp : Placed y m) (hmark : ∀ p a, l = .load p a → a.1 = p)
    (hs : ConveyorStep y m l m') :
    (leaves e line l ++ m'.onWay e line).Sublist (m.onWay e line ++ cameIn e (loads l)) := by
  have hnodup := hw.nodup
  cases hs with
  | @load _ p a hent hadd hr =>
    show (m'.onWay e line).Sublist (m.onWay e line ++ cameIn e [a])
    by_cases hmem : p ∈ line ∧ a.1 = e
    · obtain rfl : p = e := (hmark p a rfl).symm.trans hmem.2
      obtain ⟨l, rfl⟩ := hw.entry hmem.1
      have hne : ∀ r ∈ l, r ≠ p := fun r hmem he => List.disjoint_of_nodup_append hnodup hmem (by simp [he])
      rw [onWay_append, onWay_append, onWay_same fun r hmem => hr r (hne r hmem), onWay_cons, onWay_cons, hadd,
        cameIn_append]
      simp [onWay]
    · refine (flatMap_sublist fun r hmemr => ?_).trans (List.sublist_append_left ..)
      by_cases hrp : r = p
      · subst hrp
        have hne : a.1 ≠ e := fun he => hmem ⟨hmemr, he⟩
        rw [hadd, cameIn_append]
        simp [cameIn, hne]
      · rw [hr r hrp]
  | @move _ p q as hpq hne hsub hadd hr =>
    show (m'.onWay e line).Sublist (m.onWay e line ++ [])
    rw [List.append_nil]
    by_cases hgo : q ∈ line ∧ cameIn e as ≠ []
    · -- They come to the way from the place behind.
      obtain ⟨hq, has⟩ := hgo
      obtain ⟨a, ha⟩ := List.exists_mem_of_ne_nil _ has
      have hmem := List.mem_filter.1 ha
      have hlead : y.Leads e p := by
        have := hp p a (by rw [hsub]; exact List.mem_append_left _ hmem.1)
        rwa [of_decide_eq_true hmem.2] at this
      obtain ⟨l, l', rfl⟩ := hw.link p q hq hlead hpq
      have hl : m'.onWay e l = m.onWay e l := onWay_same fun r hmem =>
        hr r (fun he => List.disjoint_of_nodup_append hnodup hmem (by simp [he]))
          fun he => List.disjoint_of_nodup_append hnodup hmem (by simp [he])
      have hl' : m'.onWay e l' = m.onWay e l' := onWay_same fun r hmem => by
        obtain ⟨hq, hp⟩ := List.nodup_cons.1 (List.nodup_append.1 hnodup).2.1
        exact hr r (fun he => (List.nodup_cons.1 hp).1 (he ▸ hmem)) fun he => hq (he ▸ List.mem_cons_of_mem _ hmem)
      rw [onWay_append, onWay_append, onWay_cons, onWay_cons, onWay_cons, onWay_cons, hl, hl', hadd, hsub,
        cameIn_append, cameIn_append]
      simp
    · refine flatMap_sublist fun r hmem => ?_
      by_cases hrq : r = q
      · subst hrq
        have hnil : cameIn e as = [] := by
          by_contra has
          exact hgo ⟨hmem, has⟩
        rw [hadd, cameIn_append, hnil, List.append_nil]
      · by_cases hrp : r = p
        · subst hrp
          rw [hsub, cameIn_append]
          exact List.sublist_append_right ..
        · rw [hr r hrp hrq]
  | @unload _ p a hex hsub hr =>
    show (leaves e line (.unload p a) ++ m'.onWay e line).Sublist (m.onWay e line ++ [])
    rw [List.append_nil, leaves]
    split
    · rename_i hmem
      obtain ⟨hpl, rfl⟩ := hmem
      have hlead := hp p a (by rw [hsub]; exact List.mem_cons_self)
      obtain ⟨l, rfl⟩ := hw.exit p hpl hlead hex
      have hne : ∀ r ∈ l, r ≠ p := fun r hmem he => (List.nodup_cons.1 hnodup).1 (he ▸ hmem)
      rw [onWay_cons, onWay_cons, onWay_same fun r hmem => hr r (hne r hmem), hsub]
      simp [cameIn]
    · rw [List.nil_append]
      refine flatMap_sublist fun r hmem => List.Sublist.filter _ ?_
      by_cases hrp : r = p
      · subst hrp
        rw [hsub]
        exact List.sublist_cons_self ..
      · rw [hr r hrp]

/-- What has gone out of a way and what is on it came in in this order. -/
theorem way_in_order {ms : List (Transition (Conveyor P (P × α)) (ConveyorLabel P (P × α)))} (hw : y.Way e line)
    (h : (conveyor (P × α) y).Run ms m) (hmark : ∀ t ∈ ms, ∀ p a, t.label = .load p a → a.1 = p) :
    Placed y m ∧ (((exits ms).filter fun u => u.1 ∈ line ∧ u.2.1 = e).map (·.2) ++ m.onWay e line).Sublist
      (cameIn e m.loaded) := by
  induction h with
  | init hc =>
    cases hc
    refine ⟨(fun p a ha => nomatch ha), ?_⟩
    simp [onWay, exits, cameIn]
  | @step ms m l m' _ hs ih =>
    obtain ⟨hp, hsub⟩ := ih fun u hu => hmark u (List.mem_append_left _ hu)
    have hmark' := hmark _ (List.mem_append_right _ (List.mem_singleton_self _))
    refine ⟨hp.step hs hmark', ?_⟩
    have hstep := way_step hw hp hmark' hs
    have hl : m'.loaded = m.loaded ++ loads l := by
      cases hs with
      | load _ _ _ hl => exact hl
      | move _ _ _ _ _ hl => exact hl.trans (List.append_nil _).symm
      | unload _ _ _ hl => exact hl.trans (List.append_nil _).symm
    have hout : ((exits [⟨m, l, m'⟩]).filter fun u => u.1 ∈ line ∧ u.2.1 = e).map (·.2) = leaves e line l := by
      cases l with
      | load p a => rfl
      | move p q as => rfl
      | unload p a =>
        simp only [exits, leaves, List.filterMap_cons, List.filterMap_nil, List.filter_cons, List.filter_nil,
          decide_eq_true_eq]
        split <;> rfl
    rw [exits_append, List.filter_append, List.map_append, hout, List.append_assoc, hl, cameIn_append]
    refine ((List.Sublist.refl _).append hstep).trans ?_
    rw [← List.append_assoc]
    exact hsub.append (.refl _)

/-- **On a way nothing overtakes.** For what has gone out there is where it came
in, each thing at most as often as it was loaded there; and of those that came
in at one place, those that went out by one way did so in order. -/
theorem ways_in_order [Fintype P] {tr : List (Transition (Conveyor P α) (ConveyorLabel P α))} {c : Conveyor P α}
    (h : (conveyor α y).Run tr c) : ∃ w : List (P × P × α), w.map (fun u => (u.1, u.2.2)) = exits tr ∧
      (w.map (·.2) : Multiset (P × α)) ≤ entries tr ∧
      ∀ e line, y.Way e line →
        ((w.filter fun u => u.1 ∈ line ∧ u.2.1 = e).map (·.2)).Sublist ((entries tr).filter (·.1 = e)) := by
  obtain ⟨ms, m, hrun, -, hmark, hl, hout⟩ := marked h
  refine ⟨exits ms, hout, ?_, fun e line hw => ?_⟩
  · rw [exits_unloaded hrun, ← hl, conserved hrun.reachable]
    exact Multiset.le_add_right ..
  · rw [← hl]
    exact (List.sublist_append_left ..).trans (way_in_order hw hrun hmark).2

end

end Conveyor
