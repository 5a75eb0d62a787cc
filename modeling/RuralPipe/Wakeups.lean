/-
Waiting for a stream, and being woken.

All senders that wait, wait for the first stream of the one session, whose list
cannot change under them, and whoever has that stream was in the same session.
So although `notify_one` may wake a waiter that finds its stream in use, no
wake is lost: a waiter whose stream is free has been woken itself, or another
has who will take the stream (`Awake`).
-/
import RuralPipe.StreamUse

namespace RuralPipe

namespace SessionsMap

variable {K : Type}

/-- Which streams are in which session. -/
def lists (m : SessionsMap K) : List (Nat × List K) := m.sessions.map fun s => (s.obj, s.streams)

variable [DecidableEq K] {m m' : SessionsMap K} {buf buf' : TunnelFrameBuffer} {obj : Nat} {st k : K}

omit [DecidableEq K] in
theorem lists_stamped {s : Session K} (hs : m.sessions = [s]) : (m.stamped s).lists = m.lists := by
  simp [lists, stamped, hs]

@[simp] theorem lists_setTracker (f : StreamTracker → StreamTracker) : (m.setTracker st f).lists = m.lists := rfl

@[simp] theorem lists_take (n : Nat) : (m.take st n).lists = m.lists := rfl

omit [DecidableEq K] in
theorem lists_one {s : Session K} (hs : m.sessions = [s]) : m.lists = [(s.obj, s.streams)] := by simp [lists, hs]

/-- The stream to wait for is the first. -/
theorem select_wait_first (h : m.select buf = .wait m' obj buf' st) : ∃ rest, m.lists = [(obj, st :: rest)] := by
  unfold select at h
  split at h
  · cases h
  · rename_i s hs
    simp only at h
    split at h
    · cases h
    · split at h
      · cases h
      · rename_i st' rest hst
        cases h
        exact ⟨rest, by rw [lists_one hs, hst]⟩
  · cases h

end SessionsMap

namespace SocketState

variable {S K : Type} {x x' : SocketState S K}

structure Awake (x : SocketState S K) : Prop where
  first : ∀ i obj buf st n, x.senders i = .waiting obj buf st n → ∃ rest, x.map.lists = [(obj, st :: rest)]
  same : ∀ i s p, x.senders i = .sending s → p ∈ x.map.lists → s.st ∈ p.2 → s.obj = p.1
  woken : ∀ i obj buf st, x.senders i = .waiting obj buf st false → (x.map.trackers st).inUse = false →
    ∃ j buf' st', x.senders j = .waiting obj buf' st' true

theorem Awake.start : (SocketState.start S K).Awake where
  first := fun _ _ _ _ _ h => nomatch h
  same := fun _ _ _ h => nomatch h
  woken := fun _ _ _ _ h => nomatch h

/-- Nobody goes to sleep, is woken or takes a stream, and no list changes. -/
structure Passes (x x' : SocketState S K) : Prop where
  waits : ∀ i obj buf st n, x'.senders i = .waiting obj buf st n ↔ x.senders i = .waiting obj buf st n
  sends : ∀ i s, x'.senders i = .sending s → ∃ s₀, x.senders i = .sending s₀ ∧ s.obj = s₀.obj ∧ s.st = s₀.st
  lists : x'.map.lists = x.map.lists
  inUse : ∀ k, (x'.map.trackers k).inUse = (x.map.trackers k).inUse

theorem Passes.of_senders (hs : x'.senders = x.senders) (hl : x'.map.lists = x.map.lists)
    (hu : ∀ k, (x'.map.trackers k).inUse = (x.map.trackers k).inUse) : Passes x x' :=
  ⟨fun i obj buf st n => by rw [hs], fun i s hi => ⟨s, by rw [← hs]; exact hi, rfl, rfl⟩, hl, hu⟩

theorem Awake.passes (h : x.Awake) (hp : Passes x x') : x'.Awake := by
  refine ⟨fun i obj buf st n hi => ?_, fun i s p hi hm hst => ?_, fun i obj buf st hi hf => ?_⟩
  · rw [hp.lists]
    exact h.first i obj buf st n ((hp.waits ..).1 hi)
  · obtain ⟨s₀, hi₀, ho, hs⟩ := hp.sends i s hi
    rw [hp.lists] at hm
    exact ho.trans (h.same i s₀ p hi₀ hm (hs ▸ hst))
  · rw [hp.inUse] at hf
    obtain ⟨j, buf', st', hj⟩ := h.woken i obj buf st ((hp.waits ..).1 hi) hf
    exact ⟨j, buf', st', (hp.waits ..).2 hj⟩

/-- All waiters wait for one stream of one session. -/
theorem Awake.same_stream (h : x.Awake) {i j : S} {obj obj' : Nat} {buf buf' : TunnelFrameBuffer}
    {st st' : K} {n n' : Bool}
    (hi : x.senders i = .waiting obj buf st n) (hj : x.senders j = .waiting obj' buf' st' n') :
    obj' = obj ∧ st' = st := by
  obtain ⟨rest, hl⟩ := h.first i obj buf st n hi
  obtain ⟨rest', hl'⟩ := h.first j obj' buf' st' n' hj
  rw [hl] at hl'
  simp only [List.cons.injEq, Prod.mk.injEq, and_true] at hl'
  exact ⟨hl'.1.symm, hl'.2.1.symm⟩

section
variable [DecidableEq S]

/-- A sender that neither waited nor waits now, nor sends. -/
theorem Passes.setSender {i : S} {a : Sender K} (hw : ∀ obj buf st n, x.senders i ≠ .waiting obj buf st n)
    (ha : ∀ obj buf st n, a ≠ .waiting obj buf st n)
    (hs : ∀ s, a = .sending s → ∃ s₀, x.senders i = .sending s₀ ∧ s.obj = s₀.obj ∧ s.st = s₀.st)
    (hx : x'.senders = (x.setSender i a).senders) (hm : x'.map = x.map) : Passes x x' := by
  refine ⟨fun j obj buf st n => ?_, fun j s hj => ?_, by rw [hm], fun k => by rw [hm]⟩ <;> by_cases hij : j = i
  · subst hij
    rw [hx, setSender_self]
    exact ⟨fun h => absurd h (ha obj buf st n), fun h => absurd h (hw obj buf st n)⟩
  · rw [hx, setSender_ne hij]
  · subst hij
    rw [hx, setSender_self] at hj
    exact hs s hj
  · rw [hx, setSender_ne hij] at hj
    exact ⟨s, hj, rfl, rfl⟩

variable [DecidableEq K]

/-- What a step does to those who wait and to the streams they could have:
nothing; or a sender takes a stream of its session; or it goes to sleep, or back
to sleep; or a guard gives a stream back and wakes one that waits; or the lists
change, while nobody waits. -/
inductive Change (x : SocketState S K) (l : SocketLabel S K) (x' : SocketState S K) : Prop
  | passes : Passes x x' → Change x l x'
  | take {i s map rest} : x' = ({ x with map }).setSender i (.sending s) → map.lists = x.map.lists →
      x.map.lists = [(s.obj, rest)] → (x.map.trackers s.st).inUse = false → (map.trackers s.st).inUse = true →
      (∀ k, k ≠ s.st → (map.trackers k).inUse = (x.map.trackers k).inUse) →
      (∀ obj buf st n, x.senders i = .waiting obj buf st n → st = s.st) → Change x l x'
  | sleep {i obj buf st map rest} : x' = ({ x with map }).setSender i (.waiting obj buf st false) →
      map.lists = x.map.lists → x.map.lists = [(obj, st :: rest)] →
      (∀ k, (map.trackers k).inUse = (x.map.trackers k).inUse) → (x.map.trackers st).inUse = true →
      ((∀ k ∈ rest, (x.map.trackers k).inUse = true) ∨ ∃ n, l = .recheck i ∧ x.senders i = .waiting obj buf st n) →
      Change x l x'
  | complete {i s} : x.senders i = .sending s → (∀ j s', x'.senders j = .sending s' → x.senders j = .sending s') →
      (∀ j obj buf st n, x'.senders j = .waiting obj buf st n →
        ∃ n₀, x.senders j = .waiting obj buf st n₀ ∧ (n = false → n₀ = false)) →
      (∀ j obj buf st, x.senders j = .waiting obj buf st true → x'.senders j = .waiting obj buf st true) →
      ((∃ j buf st, x.senders j = .waiting s.obj buf st false ∧ x'.senders j = .waiting s.obj buf st true) ∨
        ∀ j buf st, x.senders j ≠ .waiting s.obj buf st false) →
      x'.map.lists = x.map.lists → (∀ k, k ≠ s.st → (x'.map.trackers k).inUse = (x.map.trackers k).inUse) →
      Change x l x'
  | lists : x'.senders = x.senders → ¬ x.Shared →
      (∀ i s p, x.senders i = .sending s → p ∈ x'.map.lists → s.st ∈ p.2 →
        ∃ q ∈ x.map.lists, q.1 = p.1 ∧ s.st ∈ q.2) → Change x l x'

/-! ## Every step is one of these -/

section
variable {client : Option SessionId} {l : SocketLabel S K} {k : K} {map : SessionsMap K}

theorem Change.of_complete {i : S} {s : Sending K} {r : SendRecord S} {res : Except Exception Unit} {wake : Option S}
    (hx' : x' = ((({ x with map }).record s.st r).setSender i (.returned s.buf res)).notify wake)
    (hs : SocketStep client x (.complete i wake) x') (hi : x.senders i = .sending s)
    (hc : x.map.complete s.obj s.buf s.st res.isOk = .ok map) (hwk : x.Wakes s.obj wake) :
    Change x (.complete i wake) x' := by
  obtain ⟨-, hm⟩ := SessionsMap.complete_ok hc
  have hother := sender_step hs
  have hmap : x'.map = map := by rw [hx', notify_map]; rfl
  refine .complete hi (fun j s' hj => ?_) (fun j obj buf st n hj => ?_) (fun j obj buf st hj => ?_) ?_
    (by rw [hmap, hm]; rfl) (fun k hk => by rw [hmap, hm, SessionsMap.setTracker_ne hk])
  · rcases hother j with heq | hst
    · rwa [heq] at hj
    · rw [hj] at hst
      generalize x.senders j = a at hst
      cases hst
  · rcases hother j with heq | hst
    · exact ⟨n, heq ▸ hj, id⟩
    · rw [hj] at hst
      generalize x.senders j = a at hst ⊢
      cases hst with
      | woken hi' => exact ⟨false, rfl, fun _ => rfl⟩
  · rcases hother j with heq | hst
    · rwa [heq]
    · rw [hj] at hst
      cases hst
  · cases wake with
    | none => exact .inr hwk
    | some w =>
      obtain ⟨buf, st, hw⟩ := hwk
      refine .inl ⟨w, buf, st, hw, ?_⟩
      have hwi : w ≠ i := fun he => by
        rw [he, hi] at hw
        cases hw
      have hw' : ((({ x with map }).record s.st r).setSender i (.returned s.buf res)).senders w =
          .waiting s.obj buf st false := (setSender_ne hwi).trans hw
      rw [hx', notify, hw']
      exact setSender_self

theorem Change.of_register (hf : x.Fresh) {stream : TunnelFrameStream} {ier : InitialExchangeResult}
    (hk : x.tasks k = .exchanged stream ier) (hno : ¬ x.Shared)
    (hreg : x.map.register k stream ier.sessionId = .ok map) :
    Change x l ({ x with map }.setTask k (.receiving ier.sessionId)) := by
  have hnew : ∀ i s, x.senders i = .sending s → s.st ≠ k := fun i s hi he =>
    (hf k (by rw [hk]; rfl)).1 ⟨i, by rw [hi]; exact congrArg some he⟩
  refine .lists rfl hno fun i s p hi hp hst => ?_
  have hp : p ∈ map.lists := hp
  rcases SessionsMap.register_sessions hreg with ⟨-, hs⟩ | ⟨σ, -, hs⟩
  · rw [SessionsMap.lists_one hs, List.mem_singleton] at hp
    subst hp
    exact absurd (List.mem_singleton.1 hst) (hnew i s hi)
  · simp only [SessionsMap.lists, hs, List.map_map, List.mem_map] at hp ⊢
    obtain ⟨τ, hτ, rfl⟩ := hp
    refine ⟨_, ⟨τ, hτ, rfl⟩, ?_⟩
    simp only [Function.comp_apply] at hst ⊢
    split at hst
    · rename_i hid
      rw [if_pos hid]
      rcases List.mem_append.1 hst with hst | hst
      · exact ⟨rfl, hst⟩
      · exact absurd (List.mem_singleton.1 hst) (hnew i s hi)
    · rename_i hid
      rw [if_neg hid]
      exact ⟨rfl, hst⟩

theorem Change.of_cleanup {sid : SessionId} (hno : ¬ x.Shared) (hcl : x.map.cleanup k sid = .ok map) :
    Change x l ({ x with map }.setTask k .done) := by
  refine .lists rfl hno fun i s p hi hp hst => ?_
  have hp : p ∈ map.lists := hp
  obtain ⟨σ, -, ⟨-, hs⟩ | ⟨-, hs⟩⟩ := SessionsMap.cleanup_sessions hcl
  · simp only [SessionsMap.lists, hs, List.mem_map] at hp ⊢
    obtain ⟨τ, hτ, rfl⟩ := hp
    exact ⟨_, ⟨τ, List.mem_of_mem_filter hτ, rfl⟩, rfl, hst⟩
  · simp only [SessionsMap.lists, hs, List.map_map, List.mem_map] at hp ⊢
    obtain ⟨τ, hτ, rfl⟩ := hp
    refine ⟨_, ⟨τ, hτ, rfl⟩, ?_⟩
    simp only [Function.comp_apply] at hst ⊢
    split at hst
    · rename_i hid
      rw [if_pos hid]
      exact ⟨rfl, List.mem_of_mem_erase hst⟩
    · rename_i hid
      rw [if_neg hid]
      exact ⟨rfl, hst⟩

/-- Those who wait wait for the first stream, and a new stream is nobody's. -/
theorem Awake.step_change (h : x.Awake) (hf : x.Fresh) (hs : SocketStep client x l x') : Change x l x' := by
  have same : ∀ {y : SocketState S K}, y.senders = x.senders → y.map = x.map → Change x l y := fun hy hm =>
    .passes (.of_senders hy (by rw [hm]) fun k => by rw [hm])
  cases hs with
  | call hi => exact .passes (.setSender (by simp [hi]) (by simp) (by simp) rfl rfl)
  | notYetReady hi hsel => exact .passes (.setSender (by simp [hi]) (by simp) (by simp) rfl rfl)
  | selectCrash hi hsel => exact same rfl rfl
  | @take i buf map obj buf' st hi hsel =>
    obtain ⟨s, hs, rfl, hst, hfree, -, rfl⟩ := SessionsMap.select_take hsel
    refine .take rfl (SessionsMap.lists_take _ |>.trans (SessionsMap.lists_stamped hs)) (SessionsMap.lists_one hs) hfree
      ?_ ?_ ?_
    · simp [SessionsMap.take]
    · intro k hk
      rw [SessionsMap.take, SessionsMap.setTracker_ne hk]
      rfl
    · intro obj buf st n hw
      rw [hi] at hw
      cases hw
  | @wait i buf map obj buf' st hi hsel =>
    obtain ⟨rest, hl⟩ := SessionsMap.select_wait_first hsel
    obtain ⟨s, hs, rfl, hst, hall, -, rfl⟩ := SessionsMap.select_wait hsel
    have hrest := (SessionsMap.lists_one hs).symm.trans hl
    simp only [List.cons.injEq, Prod.mk.injEq, true_and, and_true] at hrest
    exact .sleep rfl (SessionsMap.lists_stamped hs) hl (fun _ => rfl) (hall st hst)
      (.inl fun k hk => hall k (by rw [hrest]; exact List.mem_cons_of_mem _ hk))
  | @recheckTake i obj buf st n map hi hre =>
    obtain ⟨hfree, rfl⟩ := SessionsMap.recheck_some hre
    obtain ⟨rest, hl⟩ := h.first i obj buf st n hi
    refine .take rfl (SessionsMap.lists_take _) hl hfree ?_ ?_ ?_
    · simp [SessionsMap.take]
    · intro k hk
      rw [SessionsMap.take, SessionsMap.setTracker_ne hk]
    · intro obj' buf' st' n' hw
      rw [hi] at hw
      cases hw
      rfl
  | @recheckWait i obj buf st n hi hre =>
    obtain ⟨rest, hl⟩ := h.first i obj buf st n hi
    have hbusy : (x.map.trackers st).inUse = true := by
      unfold SessionsMap.recheck at hre
      split at hre
      · assumption
      · cases hre
    have hsame : x.map.lists = x.map.lists := rfl
    exact .sleep rfl hsame hl (fun _ => rfl) hbusy (.inr ⟨n, rfl, hi⟩)
  | @io i s ev send out hi hal hst =>
    refine .passes (.setSender (by simp [hi]) (by simp) (fun s' hs' => ?_) rfl rfl)
    cases hs'
    exact ⟨s, hi, rfl, rfl⟩
  | @complete i s res map wake hi hout hc hwk =>
    have hstep : SocketStep client x (.complete i wake) _ := .complete hi hout hc hwk
    exact .of_complete rfl hstep hi hc hwk
  | completeCrash hi hout hc => exact same rfl rfl
  | leave hi => exact .passes (.setSender (by simp [hi]) (by simp) (by simp) rfl rfl)
  | register hk hsh hreg => exact .of_register hf hk hsh hreg
  | @close k sid map hk hcl =>
    obtain ⟨fd, -, rfl⟩ := SessionsMap.closeStream_ok hcl
    refine .passes (.of_senders rfl rfl fun k' => ?_)
    by_cases hkk : k' = k
    · subst hkk
      simp
    · simp [SessionsMap.setTracker_ne hkk]
  | cleanup hk hsh hcl => exact .of_cleanup hsh hcl
  | _ => exact same rfl rfl

end

/-! ## No wake is lost -/

omit [DecidableEq K] in
/-- A sender takes a stream of its session. -/
theorem Awake.take (h : x.Awake) {i : S} {s : Sending K} {map : SessionsMap K} {rest : List K}
    (hl : map.lists = x.map.lists) (hmem : x.map.lists = [(s.obj, rest)]) (hu : (map.trackers s.st).inUse = true)
    (hu' : ∀ k, k ≠ s.st → (map.trackers k).inUse = (x.map.trackers k).inUse)
    (hi : ∀ obj buf st n, x.senders i = .waiting obj buf st n → st = s.st) :
    (({ x with map }).setSender i (.sending s)).Awake := by
  have hother : ∀ {j a}, (({ x with map }).setSender i (.sending s)).senders j = a → (∀ s', a ≠ .sending s') →
      j ≠ i ∧ x.senders j = a := by
    intro j a hj ha
    by_cases hij : j = i
    · subst hij
      rw [setSender_self] at hj
      exact absurd hj.symm (ha s)
    · rw [setSender_ne hij] at hj
      exact ⟨hij, hj⟩
  refine ⟨fun j obj buf st n hj => ?_, fun j s' p hj hp hst => ?_, fun j obj buf st hj hf => ?_⟩
  · show ∃ rest, map.lists = [(obj, st :: rest)]
    rw [hl]
    exact h.first j obj buf st n (hother hj fun _ => by simp).2
  · have hp₀ : p ∈ x.map.lists := by rw [← hl]; exact hp
    by_cases hij : j = i
    · subst hij
      rw [setSender_self] at hj
      cases hj
      rw [hmem, List.mem_singleton] at hp₀
      rw [hp₀]
    · rw [setSender_ne hij] at hj
      exact h.same j s' p hj hp₀ hst
  · obtain ⟨-, hj₀⟩ := hother hj fun _ => by simp
    have hne : st ≠ s.st := fun he => by
      have hf : (map.trackers st).inUse = false := hf
      rw [he, hu] at hf
      cases hf
    obtain ⟨j', buf', st', hj'⟩ := h.woken j obj buf st hj₀ ((hu' st hne).symm.trans hf)
    have hij : j' ≠ i := fun he => by
      subst he
      exact hne ((h.same_stream hj' hj₀).2.trans (hi _ _ _ _ hj'))
    exact ⟨j', buf', st', (setSender_ne hij).trans hj'⟩

omit [DecidableEq S] [DecidableEq K] in
/-- A guard wakes one of its session's waiters, if there are any. -/
theorem Awake.complete (h : x.Awake) {i : S} {s : Sending K} (hi : x.senders i = .sending s)
    (hsend : ∀ j s', x'.senders j = .sending s' → x.senders j = .sending s')
    (hwait : ∀ j obj buf st n, x'.senders j = .waiting obj buf st n →
      ∃ n₀, x.senders j = .waiting obj buf st n₀ ∧ (n = false → n₀ = false))
    (hkeep : ∀ j obj buf st, x.senders j = .waiting obj buf st true → x'.senders j = .waiting obj buf st true)
    (hwake : (∃ j buf st, x.senders j = .waiting s.obj buf st false ∧ x'.senders j = .waiting s.obj buf st true) ∨
      ∀ j buf st, x.senders j ≠ .waiting s.obj buf st false)
    (hl : x'.map.lists = x.map.lists)
    (hu : ∀ k, k ≠ s.st → (x'.map.trackers k).inUse = (x.map.trackers k).inUse) : x'.Awake := by
  refine ⟨fun j obj buf st n hj => ?_, fun j s' p hj hp hst => ?_, fun j obj buf st hj hf => ?_⟩
  · obtain ⟨n₀, hj, -⟩ := hwait j obj buf st n hj
    rw [hl]
    exact h.first j obj buf st n₀ hj
  · rw [hl] at hp
    exact h.same j s' p (hsend j s' hj) hp hst
  · obtain ⟨n₀, hj₀, hn₀⟩ := hwait j obj buf st false hj
    obtain rfl := hn₀ rfl
    by_cases hobj : obj = s.obj
    · -- A waiter of the session was there to wake.
      subst hobj
      rcases hwake with ⟨w, bufw, stw, -, hw⟩ | hno
      · exact ⟨w, bufw, stw, hw⟩
      · exact absurd hj₀ (hno j buf st)
    · -- The stream given back is not the one waited for.
      obtain ⟨rest, hlist⟩ := h.first j obj buf st false hj₀
      have hne : st ≠ s.st := fun he =>
        hobj (h.same i s (obj, st :: rest) hi (by rw [hlist]; exact List.mem_singleton_self _) (by simp [he])).symm
      rw [hu st hne] at hf
      obtain ⟨w, bufw, stw, hw⟩ := h.woken j obj buf st hj₀ hf
      exact ⟨w, bufw, stw, hkeep w obj bufw stw hw⟩

omit [DecidableEq K] in
/-- A sender goes to sleep, or back to sleep, while the first stream is in use. -/
theorem Awake.sleep (h : x.Awake) {i : S} {obj : Nat} {buf : TunnelFrameBuffer} {st : K} {map : SessionsMap K}
    {rest : List K} (hl : map.lists = x.map.lists) (hm : x.map.lists = [(obj, st :: rest)])
    (hu : ∀ k, (map.trackers k).inUse = (x.map.trackers k).inUse) (hbusy : (x.map.trackers st).inUse = true) :
    (({ x with map }).setSender i (.waiting obj buf st false)).Awake := by
  refine ⟨fun j obj' buf' st' n hj => ?_, fun j s p hj hp hst => ?_, fun j obj' buf' st' hj hf => ?_⟩ <;>
    by_cases hij : j = i
  · subst hij
    rw [setSender_self] at hj
    cases hj
    exact ⟨rest, hl.trans hm⟩
  · rw [setSender_ne hij] at hj
    show ∃ rest, map.lists = _
    rw [hl]
    exact h.first j obj' buf' st' n hj
  · subst hij
    rw [setSender_self] at hj
    cases hj
  · rw [setSender_ne hij] at hj
    exact h.same j s p hj (by rw [← hl]; exact hp) hst
  · subst hij
    rw [setSender_self] at hj
    cases hj
    have hf : (map.trackers st).inUse = false := hf
    rw [hu, hbusy] at hf
    cases hf
  · rw [setSender_ne hij] at hj
    obtain ⟨rest', hm'⟩ := h.first j obj' buf' st' false hj
    rw [hm] at hm'
    simp only [List.cons.injEq, Prod.mk.injEq, and_true] at hm'
    have hf : (map.trackers st').inUse = false := hf
    rw [hu, ← hm'.2.1, hbusy] at hf
    cases hf

omit [DecidableEq S] [DecidableEq K] in
/-- While nobody waits, the lists may change, but a stream someone has stays in
its session. -/
theorem Awake.of_no_waiter (h : x.Awake) (hs : x'.senders = x.senders) (hno : ¬ x.Shared)
    (hl : ∀ i s p, x.senders i = .sending s → p ∈ x'.map.lists → s.st ∈ p.2 →
    ∃ q ∈ x.map.lists, q.1 = p.1 ∧ s.st ∈ q.2) :
    x'.Awake := by
  refine ⟨fun i obj buf st n hi => ?_, fun i s p hi hp hst => ?_, fun i obj buf st hi _ => ?_⟩ <;> rw [hs] at hi
  · exact absurd ⟨i, obj, buf, st, n, hi⟩ hno
  · obtain ⟨q, hq, he, hst'⟩ := hl i s p hi hp hst
    exact (h.same i s q hi hq hst').trans he
  · exact absurd ⟨i, obj, buf, st, false, hi⟩ hno

theorem Awake.step {client : Option SessionId} {l : SocketLabel S K} (h : x.Awake) (hf : x.Fresh)
    (hs : SocketStep client x l x') : x'.Awake := by
  cases h.step_change hf hs with
  | passes hp => exact h.passes hp
  | take hx hl hmem hfree hu hu' hi => exact hx ▸ h.take hl hmem hu hu' hi
  | sleep hx hl hm hu hbusy hwhy => exact hx ▸ h.sleep hl hm hu hbusy
  | complete hi hsend hwait hkeep hwake hl hu => exact h.complete hi hsend hwait hkeep hwake hl hu
  | lists hs hno hl => exact h.of_no_waiter hs hno hl

/-- **No wake is lost.** -/
theorem reachable_awake {client : Option SessionId} (h : (sockets S K client).Reachable x) : x.Awake := by
  refine h.invariant (I := Awake) ?_ ?_
  · intro y hy
    cases hy
    exact Awake.start
  · intro y l y' hr hI hs
    exact hI.step (reachable_fresh hr) hs.2

end

end SocketState

end RuralPipe
