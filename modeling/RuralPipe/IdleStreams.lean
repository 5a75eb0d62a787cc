/-
Streams that stay free while a sender waits.

A sender that finds all streams in use waits for the first one. Whichever is
given back, one that waits is notified, looks at the first again, and goes back
to sleep if that is still in use. While a stream is free and somebody sleeps,
there is somebody notified for it, and two if the first is free as well
(`Covered`). So a sender sleeps beside a free stream exactly when the last one
notified goes back to sleep beside it (`waits_while_busy_iff`).
-/
import RuralPipe.Wakeups

namespace RuralPipe

open Machine

namespace SocketState

variable {S K : Type} {x x' : SocketState S K}

/-- Notified, and still to look at its stream again. -/
def Notified (x : SocketState S K) (j : S) : Prop := ∃ obj buf st, x.senders j = .waiting obj buf st true

/-- Unless somebody is notified, whoever sleeps does so while all streams of its
session are in use. -/
def WaitsWhileBusy (x : SocketState S K) : Prop :=
  (∀ j, ¬ x.Notified j) → ∀ i obj buf st, x.senders i = .waiting obj buf st false →
    ∀ s ∈ x.map.sessions, s.obj = obj → ∀ k ∈ s.streams, (x.map.trackers k).inUse = true

/-- A free stream has somebody notified, and the first and another one have two. -/
structure Covered (x : SocketState S K) : Prop where
  other : ∀ i obj buf st rest k, x.senders i = .waiting obj buf st false → x.map.lists = [(obj, st :: rest)] →
    k ∈ rest → (x.map.trackers k).inUse = false → ∃ j, x.Notified j
  both : ∀ i obj buf st rest k, x.senders i = .waiting obj buf st false → x.map.lists = [(obj, st :: rest)] →
    k ∈ rest → k ≠ st → (x.map.trackers k).inUse = false → (x.map.trackers st).inUse = false →
    ∃ j j', j ≠ j' ∧ x.Notified j ∧ x.Notified j'

theorem Covered.start : (SocketState.start S K).Covered where
  other := fun _ _ _ _ _ _ h => nomatch h
  both := fun _ _ _ _ _ _ h => nomatch h

/-- The streams of the one session. -/
theorem Awake.streams (h : x.Awake) {i : S} {obj : Nat} {buf : TunnelFrameBuffer} {st : K} {n : Bool}
    (hi : x.senders i = .waiting obj buf st n) :
    ∃ s rest, x.map.sessions = [s] ∧ s.obj = obj ∧ s.streams = st :: rest ∧ x.map.lists = [(obj, st :: rest)] := by
  obtain ⟨rest, hl⟩ := h.first i obj buf st n hi
  have hmap := hl
  rw [SessionsMap.lists, List.map_eq_singleton_iff] at hmap
  obtain ⟨s, hs, he⟩ := hmap
  rw [Prod.mk.injEq] at he
  exact ⟨s, rest, hs, he.1, he.2, hl⟩

theorem Covered.waitsWhileBusy (h : x.Covered) (ha : x.Awake) : x.WaitsWhileBusy := by
  intro hno i obj buf st hi s hs _ k hk
  obtain ⟨s', rest, hs', -, hst, hl⟩ := ha.streams hi
  rw [hs', List.mem_singleton] at hs
  rw [hs, hst] at hk
  by_contra hfree
  rw [Bool.not_eq_true] at hfree
  rcases List.mem_cons.1 hk with rfl | hk
  · obtain ⟨j, hj⟩ := ha.woken i obj buf k hi hfree
    exact hno j ⟨obj, hj⟩
  · obtain ⟨j, hj⟩ := h.other i obj buf st rest k hi hl hk hfree
    exact hno j hj

/-- Two waiters wait at the head of the same list. -/
theorem Awake.same_rest (h : x.Awake) {i : S} {obj obj' : Nat} {buf : TunnelFrameBuffer} {st st' : K} {rest : List K}
    {n : Bool} (hi : x.senders i = .waiting obj buf st n) (hl : x.map.lists = [(obj', st' :: rest)]) :
    obj = obj' ∧ st = st' := by
  obtain ⟨rest', hl'⟩ := h.first i obj buf st n hi
  rw [hl] at hl'
  simp only [List.cons.injEq, Prod.mk.injEq, and_true] at hl'
  exact ⟨hl'.1.symm, hl'.2.1.symm⟩

theorem Covered.passes (h : x.Covered) (hp : Passes x x') : x'.Covered := by
  have hnot : ∀ j, x.Notified j → x'.Notified j := by
    intro j hn
    obtain ⟨obj, buf, st, hj⟩ := hn
    exact ⟨obj, buf, st, (hp.waits ..).2 hj⟩
  refine ⟨fun i obj buf st rest k hi hl hk hf => ?_, fun i obj buf st rest k hi hl hk hne hf hf' => ?_⟩ <;>
    rw [hp.waits] at hi <;> rw [hp.lists] at hl <;> rw [hp.inUse] at hf
  · obtain ⟨j, hj⟩ := h.other i obj buf st rest k hi hl hk hf
    exact ⟨j, hnot j hj⟩
  · rw [hp.inUse] at hf'
    obtain ⟨j, j', hjj, hj, hj'⟩ := h.both i obj buf st rest k hi hl hk hne hf hf'
    exact ⟨j, j', hjj, hnot j hj, hnot j' hj'⟩

theorem Covered.of_no_waiter (hs : x'.senders = x.senders) (hno : ¬ x.Shared) : x'.Covered where
  other i obj buf st _ _ hi := absurd ⟨i, obj, buf, st, false, hs ▸ hi⟩ hno
  both i obj buf st _ _ hi := absurd ⟨i, obj, buf, st, false, hs ▸ hi⟩ hno

section
variable [DecidableEq S]

/-- Whoever takes the first stream was one of two notified if another one is
free, or was not asleep at all. -/
theorem Covered.take (h : x.Covered) (ha : x.Awake) {i : S} {s : Sending K} {map : SessionsMap K}
    (hl : map.lists = x.map.lists) (hfree : (x.map.trackers s.st).inUse = false)
    (hu : (map.trackers s.st).inUse = true)
    (hu' : ∀ k, k ≠ s.st → (map.trackers k).inUse = (x.map.trackers k).inUse)
    (hi : ∀ obj buf st n, x.senders i = .waiting obj buf st n → st = s.st) :
    (({ x with map }).setSender i (.sending s)).Covered := by
  have hnot : ∀ j, j ≠ i → x.Notified j → (({ x with map }).setSender i (.sending s)).Notified j := by
    intro j hj hn
    obtain ⟨obj, buf, st, hw⟩ := hn
    exact ⟨obj, buf, st, (setSender_ne hj).trans hw⟩
  have hwait : ∀ {j obj buf st}, (({ x with map }).setSender i (.sending s)).senders j = .waiting obj buf st false →
      x.senders j = .waiting obj buf st false := by
    intro j obj buf st hj
    by_cases hij : j = i
    · rw [hij, setSender_self] at hj
      cases hj
    · rwa [setSender_ne hij] at hj
  have hne : ∀ k, (map.trackers k).inUse = false → k ≠ s.st := by
    intro k hf he
    subst he
    rw [hu] at hf
    cases hf
  -- When the stream taken is not the first, nobody waited for it.
  have hawake : ∀ {obj st rest}, x.map.lists = [(obj, st :: rest)] → st ≠ s.st → ∀ j, x.Notified j → j ≠ i := by
    intro obj st rest hl hst j hn he
    subst he
    obtain ⟨obj', buf', st', hj⟩ := hn
    exact hst ((ha.same_rest hj hl).2.symm.trans (hi _ _ _ _ hj))
  refine ⟨fun j obj buf st rest k hj hm hk hf => ?_, fun j obj buf st rest k hj hm hk hkst hf hf' => ?_⟩
  · have hm : x.map.lists = _ := hl.symm.trans hm
    have hf : (map.trackers k).inUse = false := hf
    have hks := hne k hf
    rw [hu' k hks] at hf
    by_cases hst : st = s.st
    · obtain ⟨j₁, j₂, hjj, h₁, h₂⟩ := h.both j obj buf st rest k (hwait hj) hm hk (hst ▸ hks) hf (hst ▸ hfree)
      by_cases h₁i : j₁ = i
      · exact ⟨j₂, hnot j₂ (fun he => hjj (h₁i.trans he.symm)) h₂⟩
      · exact ⟨j₁, hnot j₁ h₁i h₁⟩
    · obtain ⟨j₁, h₁⟩ := h.other j obj buf st rest k (hwait hj) hm hk hf
      exact ⟨j₁, hnot j₁ (hawake hm hst j₁ h₁) h₁⟩
  · have hm : x.map.lists = _ := hl.symm.trans hm
    have hf : (map.trackers k).inUse = false := hf
    have hf' : (map.trackers st).inUse = false := hf'
    have hst := hne st hf'
    rw [hu' k (hne k hf)] at hf
    rw [hu' st hst] at hf'
    obtain ⟨j₁, j₂, hjj, h₁, h₂⟩ := h.both j obj buf st rest k (hwait hj) hm hk hkst hf hf'
    exact ⟨j₁, j₂, hjj, hnot j₁ (hawake hm hst j₁ h₁) h₁, hnot j₂ (hawake hm hst j₂ h₂) h₂⟩

/-- Somebody who goes to sleep leaves another one notified, unless no stream is
free. -/
theorem Covered.sleep {i : S} {obj : Nat} {buf : TunnelFrameBuffer} {st : K} {map : SessionsMap K} {rest : List K}
    (hl : map.lists = x.map.lists) (hm : x.map.lists = [(obj, st :: rest)])
    (hu : ∀ k, (map.trackers k).inUse = (x.map.trackers k).inUse) (hbusy : (x.map.trackers st).inUse = true)
    (hwhy : (∀ k ∈ rest, (x.map.trackers k).inUse = true) ∨ ∃ j, j ≠ i ∧ x.Notified j) :
    (({ x with map }).setSender i (.waiting obj buf st false)).Covered := by
  have hsame : ∀ {obj' st' rest'}, map.lists = [(obj', st' :: rest')] → st' = st ∧ rest' = rest := by
    intro obj' st' rest' h
    rw [hl, hm] at h
    simp only [List.cons.injEq, Prod.mk.injEq, and_true] at h
    exact ⟨h.2.1.symm, h.2.2.symm⟩
  refine ⟨fun j obj' buf' st' rest' k _ hm' hk hf => ?_, fun j obj' buf' st' rest' k _ hm' hk hne hf hf' => ?_⟩ <;>
    obtain ⟨rfl, rfl⟩ := hsame hm'
  · have hf : (map.trackers k).inUse = false := hf
    rw [hu] at hf
    rcases hwhy with hall | ⟨w, hw, obj₁, buf₁, st₁, hnot⟩
    · rw [hall k hk] at hf
      cases hf
    · exact ⟨w, obj₁, buf₁, st₁, (setSender_ne hw).trans hnot⟩
  · have hf' : (map.trackers st').inUse = false := hf'
    rw [hu, hbusy] at hf'
    cases hf'

end

/-- A stream given back has somebody notified for it who was not before. -/
theorem Covered.complete (h : x.Covered) (ha : x.Awake) {i : S} {s : Sending K} (hi : x.senders i = .sending s)
    (hwait : ∀ j obj buf st n, x'.senders j = .waiting obj buf st n →
      ∃ n₀, x.senders j = .waiting obj buf st n₀ ∧ (n = false → n₀ = false))
    (hkeep : ∀ j obj buf st, x.senders j = .waiting obj buf st true → x'.senders j = .waiting obj buf st true)
    (hwake : (∃ j buf st, x.senders j = .waiting s.obj buf st false ∧ x'.senders j = .waiting s.obj buf st true) ∨
      ∀ j buf st, x.senders j ≠ .waiting s.obj buf st false)
    (hl : x'.map.lists = x.map.lists)
    (hu : ∀ k, k ≠ s.st → (x'.map.trackers k).inUse = (x.map.trackers k).inUse) : x'.Covered := by
  have hnot : ∀ j, x.Notified j → x'.Notified j := by
    intro j hn
    obtain ⟨obj, buf, st, hj⟩ := hn
    exact ⟨obj, buf, st, hkeep j obj buf st hj⟩
  have hasleep : ∀ {j obj buf st}, x'.senders j = .waiting obj buf st false →
      x.senders j = .waiting obj buf st false := by
    intro j obj buf st hj
    obtain ⟨n₀, hj₀, hn₀⟩ := hwait j obj buf st false hj
    rwa [hn₀ rfl] at hj₀
  -- With the stream in the list of somebody asleep, one of these is notified.
  have hwoken : ∀ {j obj buf st rest}, x.senders j = .waiting obj buf st false → x.map.lists = [(obj, st :: rest)] →
      s.st ∈ st :: rest → ∃ w, ¬ x.Notified w ∧ x'.Notified w := by
    intro j obj buf st rest hj hm hmem
    have hobj : s.obj = obj := ha.same i s (obj, st :: rest) hi (by rw [hm]; exact List.mem_singleton_self _) hmem
    rcases hwake with ⟨w, bufw, stw, hw, hw'⟩ | hno
    · refine ⟨w, ?_, _, _, _, hw'⟩
      intro hn
      obtain ⟨_, _, _, hn⟩ := hn
      rw [hw] at hn
      cases hn
    · exact absurd (hobj ▸ hj) (hno j buf st)
  refine ⟨fun j obj buf st rest k hj hm hk hf => ?_, fun j obj buf st rest k hj hm hk hne hf hf' => ?_⟩ <;>
    rw [hl] at hm <;> replace hj := hasleep hj
  · by_cases hks : k = s.st
    · obtain ⟨w, -, hw⟩ := hwoken hj hm (hks ▸ List.mem_cons_of_mem _ hk)
      exact ⟨w, hw⟩
    · rw [hu k hks] at hf
      obtain ⟨w, hw⟩ := h.other j obj buf st rest k hj hm hk hf
      exact ⟨w, hnot w hw⟩
  · by_cases hks : k = s.st
    · obtain ⟨w, hno, hw⟩ := hwoken hj hm (hks ▸ List.mem_cons_of_mem _ hk)
      rw [hu st fun he => hne (hks.trans he.symm)] at hf'
      obtain ⟨w', hw'⟩ := ha.woken j obj buf st hj hf'
      exact ⟨w, w', fun he => hno (he ▸ ⟨obj, hw'⟩), hw, hnot w' ⟨obj, hw'⟩⟩
    · rw [hu k hks] at hf
      by_cases hst : st = s.st
      · obtain ⟨w, hno, hw⟩ := hwoken hj hm (hst ▸ List.mem_cons_self)
        obtain ⟨w', hw'⟩ := h.other j obj buf st rest k hj hm hk hf
        exact ⟨w, w', fun he => hno (he ▸ hw'), hw, hnot w' hw'⟩
      · rw [hu st hst] at hf'
        obtain ⟨w, w', hww, hw, hw'⟩ := h.both j obj buf st rest k hj hm hk hne hf hf'
        exact ⟨w, w', hww, hnot w hw, hnot w' hw'⟩

end SocketState

section
variable {S K : Type} [DecidableEq S] [DecidableEq K] {client : Option SessionId}
  {tr : List (Transition (SocketState S K) (SocketLabel S K))} {x x' : SocketState S K} {l : SocketLabel S K}

open SocketState

/-- A sender looks at its stream again and goes back to sleep, with another
stream of its session free and nobody else notified. -/
def GoesBack (t : Transition (SocketState S K) (SocketLabel S K)) : Prop :=
  ∃ i obj buf st n, t.label = .recheck i ∧ t.pre.senders i = .waiting obj buf st n ∧
    (t.pre.map.trackers st).inUse = true ∧
    (∃ s ∈ t.pre.map.sessions, s.obj = obj ∧ ∃ k ∈ s.streams, (t.pre.map.trackers k).inUse = false) ∧
    ∀ j, j ≠ i → ¬ t.pre.Notified j

theorem SocketState.Covered.step (h : x.Covered) (ha : x.Awake) (hf : x.Fresh) (hs : SocketStep client x l x')
    (hno : ¬ GoesBack ⟨x, l, x'⟩) : x'.Covered := by
  cases ha.step_change hf hs with
  | passes hp => exact h.passes hp
  | take hx hl hmem hfree hu hu' hi => exact hx ▸ h.take ha hl hfree hu hu' hi
  | @sleep i obj buf st map rest hx hl hm hu hbusy hwhy =>
    rw [hx]
    refine .sleep hl hm hu hbusy ?_
    rcases hwhy with hall | ⟨n, hlab, hi⟩
    · exact .inl hall
    · obtain ⟨s, rest', hsess, hobj, hst, hl'⟩ := ha.streams hi
      rw [hm] at hl'
      simp only [List.cons.injEq, Prod.mk.injEq, true_and, and_true] at hl'
      by_contra hboth
      simp only [not_or, not_forall, not_exists, not_and, Bool.not_eq_true] at hboth
      obtain ⟨⟨k, hk, hfree⟩, hnone⟩ := hboth
      exact hno ⟨i, obj, buf, st, n, hlab, hi, hbusy, ⟨s, by rw [hsess]; exact List.mem_singleton_self _, hobj, k,
        by rw [hst, ← hl']; exact List.mem_cons_of_mem _ hk, hfree⟩, hnone⟩
  | complete hi hsend hwait hkeep hwake hl hu => exact h.complete ha hi hwait hkeep hwake hl hu
  | lists hs' hsh hl => exact .of_no_waiter hs' hsh

theorem run_covered (h : (sockets S K client).Run tr x) (hno : ∀ t ∈ tr, ¬ GoesBack t) : ∀ t ∈ tr, t.post.Covered := by
  have hinv := h.guarded (I := Covered) (C := fun t => ¬ GoesBack t) ?_ ?_ hno
  · exact fun t ht => (hinv.2 t ht).2
  · intro y hy
    cases hy
    exact .start
  · intro y l y' hr hI hC hs
    exact hI.step (reachable_awake hr) (reachable_fresh hr) hs.2 hC

/-- After such a step somebody sleeps beside a free stream. -/
theorem GoesBack.not_busy {t : Transition (SocketState S K) (SocketLabel S K)} (h : GoesBack t)
    (hs : SocketStep client t.pre t.label t.post) : ¬ t.post.WaitsWhileBusy := by
  obtain ⟨x, l, x'⟩ := t
  obtain ⟨i, obj, buf, st, n, hl, hi, hbusy, ⟨s, hmem, hobj, k, hk, hfree⟩, hnone⟩ := h
  intro hb
  cases hl
  have hs : SocketStep client x (.recheck i) x' := hs
  cases hs with
  | recheckTake hi' hre =>
    rw [hi] at hi'
    cases hi'
    rw [(SessionsMap.recheck_some hre).1] at hbusy
    cases hbusy
  | recheckWait hi' hre =>
    rw [hi] at hi'
    cases hi'
    have hnot : ∀ j, ¬ (x.setSender i (.waiting obj buf st false)).Notified j := by
      intro j hn
      obtain ⟨obj', buf', st', hj⟩ := hn
      by_cases hij : j = i
      · rw [hij, setSender_self] at hj
        cases hj
      · rw [setSender_ne hij] at hj
        exact hnone j hij ⟨obj', buf', st', hj⟩
    have huse : (x.map.trackers k).inUse = true := hb hnot i obj buf st setSender_self s hmem hobj k hk
    rw [hfree] at huse
    cases huse

/-- **A sender waits only while every stream is busy**, in every state of a run
in which nobody is notified, exactly when nobody goes back to sleep as the last
one notified, with a stream of its session free. -/
theorem waits_while_busy_iff (h : (sockets S K client).Run tr x) :
    (∀ t ∈ tr, t.post.WaitsWhileBusy) ↔ ∀ t ∈ tr, ¬ GoesBack t := by
  constructor
  · intro hb t ht hg
    exact hg.not_busy (h.transition t ht).2.1.2 (hb t ht)
  · intro hno t ht
    exact (run_covered h hno t ht).waitsWhileBusy (reachable_awake (h.transition t ht).2.2)

end

/-- Two senders have the two streams, and a third waits for the first one. The
second stream is given back, the third sender notified, and back asleep. -/
theorem run_beside : ∃ tr t x, (sockets (Fin 3) Bool none).Run (tr ++ [t]) x ∧ (∀ u ∈ tr, ∀ i, u.label ≠ .recheck i) ∧
    ¬ x.WaitsWhileBusy := by
  obtain ⟨f, -, -, hsize⟩ := exists_fromWriter
  obtain ⟨tr, hrun, htr⟩ := run_twoStreams (Fin 3) ⟨List.replicate 16 7, rfl⟩
  have hrun := hrun.step (l := .call 0 f) ⟨rfl, .call rfl⟩
  have hrun := hrun.step (l := .select 0) ⟨rfl, .take SocketState.setSender_self rfl⟩
  have hrun := hrun.step (l := .call 1 f) ⟨rfl, .call rfl⟩
  have hrun := hrun.step (l := .select 1) ⟨rfl, .take SocketState.setSender_self rfl⟩
  have hrun := hrun.step (l := .call 2 f) ⟨rfl, .call rfl⟩
  have hrun := hrun.step (l := .select 2) ⟨rfl, .wait SocketState.setSender_self rfl⟩
  have hrun := hrun.step (l := .io 1 (.call (.ok f.size)))
    ⟨rfl, .io rfl (fun h => absurd (show (6 : Int) < 0 from h) (by decide))
      (TunnelFrameStream.sendStep_whole (by show 0 < f.size; omega))⟩
  have hrun := hrun.step (l := .complete 1 (some 2))
    ⟨rfl, .complete SocketState.setSender_self rfl rfl (by exact ⟨_, _, rfl⟩)⟩
  have hrun := hrun.step (l := .recheck 2) ⟨rfl, .recheckWait rfl rfl⟩
  refine ⟨_, _, _, hrun, ?_, fun hb => ?_⟩
  · intro u hu i he
    simp only [List.mem_append, List.mem_singleton] at hu
    rcases hu with (((((((hu | rfl) | rfl) | rfl) | rfl) | rfl) | rfl) | rfl) | rfl
    · obtain ⟨k, (⟨_, hl⟩ | ⟨_, _, hl⟩ | ⟨_, hl⟩) | hl⟩ := htr u hu <;> (rw [he] at hl; cases hl)
    all_goals cases he
  · refine Bool.false_ne_true (hb ?_ 2 _ _ _ rfl _ (List.mem_singleton_self _) rfl true (by decide))
    intro j hn
    obtain ⟨obj, buf, st, hj⟩ := hn
    obtain rfl | rfl | rfl : j = 0 ∨ j = 1 ∨ j = 2 := by omega
    all_goals cases hj

/-- So it is not so in every run. -/
theorem waits_beside_free : ¬ ∀ tr x, (sockets (Fin 3) Bool none).Run tr x → x.WaitsWhileBusy := by
  intro h
  obtain ⟨tr, t, x, hrun, -, hno⟩ := run_beside
  exact hno (h _ x hrun)

/-- Up to its last step that run kept it. -/
theorem waits_while_busy_until : ∃ tr t x, (sockets (Fin 3) Bool none).Run (tr ++ [t]) x ∧
    (∀ u ∈ tr, u.post.WaitsWhileBusy) ∧ GoesBack t := by
  obtain ⟨tr, t, x, hrun, hlab, hno⟩ := run_beside
  have hkeep : ∀ u ∈ tr, ¬ GoesBack u := by
    intro u hu hback
    obtain ⟨i, _, _, _, _, hl, -⟩ := hback
    exact hlab u hu i hl
  refine ⟨tr, t, x, hrun, (waits_while_busy_iff hrun.before.1).2 hkeep, ?_⟩
  by_contra hg
  refine hno (hrun.last ▸ (waits_while_busy_iff hrun).2 (fun u hu => ?_) t (by simp))
  rcases List.mem_append.1 hu with hu | hu
  · exact hkeep u hu
  · rwa [List.mem_singleton.1 hu]

end RuralPipe
