/-
The session table, in every reachable state: at most one session, whose stream
list is never empty and holds exactly the streams of the tasks between their
registration and their cleanup (`Table`).

First what each section of the code does to the table, once and for all; the
invariant is then a short case analysis. It holds of every run, whatever the
senders do, because a sender that waits keeps registration and cleanup out.
-/
import RuralPipe.SocketSteps

namespace RuralPipe

/-! ## What a section does -/

namespace SessionsMap

variable {K : Type} [DecidableEq K] {m m' : SessionsMap K} {buf buf' : TunnelFrameBuffer} {obj : Nat} {st k : K}

@[simp] theorem setTracker_sessions (m : SessionsMap K) (st : K) (f) : (m.setTracker st f).sessions = m.sessions := rfl

@[simp] theorem setTracker_created (m : SessionsMap K) (st : K) (f) : (m.setTracker st f).created = m.created := rfl

@[simp] theorem setTracker_self (m : SessionsMap K) (st : K) (f) :
    (m.setTracker st f).trackers st = f (m.trackers st) := Function.update_self ..

theorem setTracker_ne {st k : K} (h : k ≠ st) (m : SessionsMap K) (f) :
    (m.setTracker st f).trackers k = m.trackers k := Function.update_of_ne h ..

/-- The senders change no stream. -/
theorem setTracker_stream (m : SessionsMap K) {st : K} {f : StreamTracker → StreamTracker}
    (hf : ∀ t, (f t).stream = t.stream) (k : K) : ((m.setTracker st f).trackers k).stream = (m.trackers k).stream := by
  by_cases hk : k = st
  · subst hk
    rw [setTracker_self, hf]
  · rw [setTracker_ne hk]

theorem take_stream (m : SessionsMap K) {st : K} {n : Nat} (k : K) :
    ((m.take st n).trackers k).stream = (m.trackers k).stream :=
  setTracker_stream m (by exact fun _ => rfl) k

@[simp] theorem take_sessions (m : SessionsMap K) (st : K) (n : Nat) : (m.take st n).sessions = m.sessions := rfl

/-- A session with its sequence number handed out. -/
def stamped (m : SessionsMap K) (s : Session K) : SessionsMap K :=
  { m with sessions := [{ s with nextSeqNum := s.nextSeqNum + 1 }] }

theorem select_notYetReady {ex : Exception} (h : m.select buf = .notYetReady ex) :
    m.sessions = [] ∧ ex.isNotYetReady = true := by
  unfold select at h
  split at h
  · rename_i hs
    cases h
    exact ⟨hs, rfl⟩
  · simp only at h
    split at h
    · cases h
    · split at h <;> cases h
  · cases h

/-- A stream taken at once is of the one session, and was free. -/
theorem select_take (h : m.select buf = .take m' obj buf' st) :
    ∃ s, m.sessions = [s] ∧ obj = s.obj ∧ st ∈ s.streams ∧ (m.trackers st).inUse = false ∧
      buf' = TunnelFrameWriter.setSequenceNumberOnClosedBuffer buf s.nextSeqNum ∧
      m' = (m.stamped s).take st buf'.size := by
  unfold select at h
  split at h
  · cases h
  · rename_i s hs
    simp only at h
    split at h
    · rename_i st' hf
      cases h
      have hfree := List.find?_some hf
      have hmem := List.mem_of_find?_eq_some hf
      exact ⟨s, hs, rfl, hmem, by simpa using hfree, rfl, rfl⟩
    · split at h <;> cases h
  · cases h

/-- The first stream is taken where it is free. -/
theorem select_first {s : Session K} {ks : List K} (hs : m.sessions = [s]) (hst : s.streams = st :: ks)
    (hfree : (m.trackers st).inUse = false) :
    m.select buf = .take ((m.stamped s).take st buf.size) s.obj
      (TunnelFrameWriter.setSequenceNumberOnClosedBuffer buf s.nextSeqNum) st := by
  have hf : s.streams.find? (fun k => !(m.trackers k).inUse) = some st := by
    rw [hst, List.find?_cons, hfree]
    rfl
  simp only [select, hs, hf]
  rfl

/-- A stream waited for is the first of the one session, and all are in use. -/
theorem select_wait (h : m.select buf = .wait m' obj buf' st) :
    ∃ s, m.sessions = [s] ∧ obj = s.obj ∧ st ∈ s.streams ∧ (∀ k ∈ s.streams, (m.trackers k).inUse = true) ∧
      buf' = TunnelFrameWriter.setSequenceNumberOnClosedBuffer buf s.nextSeqNum ∧ m' = m.stamped s := by
  unfold select at h
  split at h
  · cases h
  · rename_i s hs
    simp only at h
    split at h
    · cases h
    · rename_i hf
      split at h
      · cases h
      · rename_i st' sts hst
        cases h
        refine ⟨s, hs, rfl, by rw [hst]; exact List.mem_cons_self, fun k hk => ?_, rfl, rfl⟩
        have := List.find?_eq_none.1 hf k hk
        simpa using this
  · cases h

/-- The selection can only crash on an empty stream list or a second session. -/
theorem select_crash {c : Crash} (h : m.select buf = .crash c) :
    ∃ s, s ∈ m.sessions ∧ (m.sessions = [s] → s.streams = []) := by
  unfold select at h
  split at h
  · cases h
  · rename_i s hs
    simp only at h
    split at h
    · cases h
    · split at h
      · rename_i hst
        exact ⟨s, by rw [hs]; exact List.mem_cons_self, fun _ => hst⟩
      · cases h
  · rename_i hne hno
    cases hs : m.sessions with
    | nil => exact absurd hs hne
    | cons s ss =>
      refine ⟨s, List.mem_cons_self, fun he => ?_⟩
      rw [hs] at hno
      exact absurd he (hno s)

theorem recheck_some (h : m.recheck buf st = some m') :
    (m.trackers st).inUse = false ∧ m' = m.take st buf.size := by
  unfold recheck at h
  split at h
  · cases h
  · cases h
    exact ⟨by simp_all, rfl⟩

/-- The guard's session is there, and only the stream's tracker changes. -/
theorem complete_ok {ok : Bool} (h : m.complete obj buf st ok = .ok m') :
    (∃ s ∈ m.sessions, s.obj = obj) ∧
      m' = m.setTracker st fun t =>
        { t with
          inUse := false,
          bytesSending := t.bytesSending - UInt64.ofNat buf.size,
          bytesSent := if ok then t.bytesSent + UInt64.ofNat buf.size else t.bytesSent } := by
  unfold complete at h
  split at h
  · cases h
  · rename_i s hs
    cases h
    exact ⟨⟨s, List.mem_of_find?_eq_some hs, by simpa using List.find?_some hs⟩, rfl⟩

theorem complete_error {ok : Bool} {c : Crash} (h : m.complete obj buf st ok = .error c) :
    ∀ s ∈ m.sessions, s.obj ≠ obj := by
  unfold complete at h
  split at h
  · rename_i hn
    intro s hs
    simpa using List.find?_eq_none.1 hn s hs
  · cases h

theorem register_trackers {stream : TunnelFrameStream} {sid : SessionId} (h : m.register k stream sid = .ok m') :
    m'.trackers = Function.update m.trackers k { stream, inUse := false, bytesSending := 0, bytesSent := 0 } := by
  simp only [register] at h
  split at h
  · cases h
    rfl
  · split at h
    · cases h
    · cases h
      rfl

/-- A registration in the one session there is. -/
theorem register_join {s : Session K} (hs : m.sessions = [s]) (k : K) (stream : TunnelFrameStream) :
    m.register k stream s.sessionId = .ok { m with
      sessions := [{ s with streams := s.streams ++ [k] }],
      trackers := Function.update m.trackers k { stream, inUse := false, bytesSending := 0, bytesSent := 0 } } := by
  simp [register, find, modify, hs]

/-- A registration makes the first session, or finds its own. -/
theorem register_sessions {stream : TunnelFrameStream} {sid : SessionId} (h : m.register k stream sid = .ok m') :
    (m.sessions = [] ∧ m'.sessions =
        [{ obj := m.created, sessionId := sid, nextSeqNum := kInitFrameSeqNum + 1, streams := [k] }]) ∨
      ∃ s, m.find sid = some s ∧
        m'.sessions = m.sessions.map fun s => if s.sessionId = sid then
          { s with streams := s.streams ++ [k] } else s := by
  simp only [register] at h
  split at h
  · rename_i s hs
    cases h
    exact .inr ⟨s, hs, rfl⟩
  · split at h
    · cases h
    · rename_i hs
      cases h
      exact .inl ⟨by simpa using hs, rfl⟩

/-- The objects created are counted. -/
theorem register_created {stream : TunnelFrameStream} {sid : SessionId} (h : m.register k stream sid = .ok m') :
    m'.created = if m.sessions = [] then m.created + 1 else m.created := by
  simp only [register] at h
  split at h
  · rename_i s hs
    cases h
    have hne : m.sessions ≠ [] := List.ne_nil_of_mem (List.mem_of_find?_eq_some hs)
    simp [hne, modify]
  · split at h
    · cases h
    · rename_i hs
      cases h
      simp_all

/-- A registration fails on a session other than its own, and only then. -/
theorem register_error {stream : TunnelFrameStream} {sid : SessionId} {ex : Exception} :
    m.register k stream sid = .error ex ↔ m.sessions ≠ [] ∧ (∀ s ∈ m.sessions, s.sessionId ≠ sid) ∧
      ex = ⟨.exception, "Currently only one session is supported per server instance"⟩ := by
  simp only [register]
  cases hf : m.find sid with
  | some s =>
    have hmem := List.mem_of_find?_eq_some hf
    have hsid := List.find?_some hf
    simp only [reduceCtorEq, false_iff]
    rintro ⟨-, hall, -⟩
    exact hall s hmem (by simpa using hsid)
  | none =>
    have hall : ∀ s ∈ m.sessions, s.sessionId ≠ sid := fun s hs => by simpa using List.find?_eq_none.1 hf s hs
    by_cases hs : m.sessions = []
    · simp [hs]
    · simp only [ne_eq, hs, not_false_eq_true, if_true, Except.error.injEq, true_and]
      exact ⟨fun h => ⟨hall, h.symm⟩, fun h => h.2.symm⟩

theorem closeStream_ok (h : m.closeStream k = .ok m') :
    ∃ fd, (m.trackers k).stream.fd.close = .ok fd ∧
      m' = m.setTracker k fun t => { t with stream := { t.stream with fd } } := by
  unfold closeStream at h
  split at h
  · cases h
  · rename_i fd hfd
    cases h
    exact ⟨fd, hfd, rfl⟩

theorem cleanup_trackers {sid : SessionId} (h : m.cleanup k sid = .ok m') : m'.trackers = m.trackers := by
  unfold cleanup at h
  split at h
  · cases h
  · split at h
    · cases h
      rfl
    · cases h
      rfl

theorem cleanup_created {sid : SessionId} (h : m.cleanup k sid = .ok m') : m'.created = m.created := by
  unfold cleanup at h
  split at h
  · cases h
  · split at h
    · cases h
      rfl
    · cases h
      rfl

/-- A cleanup erases the stream, and with its last stream the session. -/
theorem cleanup_sessions {sid : SessionId} (h : m.cleanup k sid = .ok m') :
    ∃ s, m.find sid = some s ∧
      ((s.streams.erase k = [] ∧ m'.sessions = m.sessions.filter (·.sessionId ≠ sid)) ∨
        (s.streams.erase k ≠ [] ∧ m'.sessions =
          m.sessions.map fun s => if s.sessionId = sid then { s with streams := s.streams.erase k } else s)) := by
  unfold cleanup at h
  split at h
  · cases h
  · rename_i s hs
    refine ⟨s, hs, ?_⟩
    split at h
    · rename_i he
      cases h
      exact .inl ⟨List.isEmpty_iff.1 he, rfl⟩
    · rename_i he
      cases h
      exact .inr ⟨fun h' => he (List.isEmpty_iff.2 h'), rfl⟩

end SessionsMap

/-! ## The table -/

/-- The session a task's stream is registered in. -/
def Task.registered : Task → Option SessionId
  | .receiving sid => some sid
  | .loopEnded sid => some sid
  | .closed sid => some sid
  | _ => none

namespace SocketState

variable {S K : Type} {x : SocketState S K}

/-- Some sender waits on the session `obj`. -/
def Waits (x : SocketState S K) (obj : Nat) : Prop := ∃ i buf st n, x.senders i = .waiting obj buf st n

theorem Waits.shared {obj : Nat} (h : x.Waits obj) : x.Shared := by
  obtain ⟨i, buf, st, n, hw⟩ := h
  exact ⟨i, obj, buf, st, n, hw⟩

theorem Waits.of_map {x' : SocketState S K} {obj : Nat} (hs : x'.senders = x.senders) (h : x'.Waits obj) :
    x.Waits obj := by
  obtain ⟨i, buf, st, n, hw⟩ := h
  exact ⟨i, buf, st, n, by rw [← hs]; exact hw⟩

/-- No session and no registered task; or one session, with the streams of the
registered tasks. -/
inductive Table (x : SocketState S K) : Prop
  | empty : x.map.sessions = [] → (∀ k, (x.tasks k).registered = none) → (∀ obj, ¬ x.Waits obj) → Table x
  | one (s : Session K) : x.map.sessions = [s] → s.streams ≠ [] → s.streams.Nodup →
      (∀ k, k ∈ s.streams ↔ (x.tasks k).registered = some s.sessionId) →
      (∀ k sid, (x.tasks k).registered = some sid → sid = s.sessionId) →
      (∀ obj, x.Waits obj → obj = s.obj) → Table x

/-- A step that leaves the sessions and the registered tasks alone, and makes
nobody wait. -/
theorem Table.congr {x' : SocketState S K} (h : x.Table) (hm : x'.map.sessions = x.map.sessions)
    (ht : ∀ k, (x'.tasks k).registered = (x.tasks k).registered) (hw : ∀ obj, x'.Waits obj → x.Waits obj) :
    x'.Table := by
  cases h with
  | empty hs hk hn => exact .empty (hm.trans hs) (fun k => (ht k).trans (hk k)) fun obj h' => hn obj (hw obj h')
  | one s hs hne hnd hk hsid hobj =>
    exact .one s (hm.trans hs) hne hnd (fun k => (hk k).trans (by rw [ht k]))
      (fun k sid h' => hsid k sid ((ht k).symm.trans h')) fun obj h' => hobj obj (hw obj h')

/-- The one session that a taken or waited-for stream belongs to. -/
theorem Table.session (h : x.Table) {s : Session K} (hs : x.map.sessions = [s]) :
    s.streams ≠ [] ∧ s.streams.Nodup ∧ (∀ k, k ∈ s.streams ↔ (x.tasks k).registered = some s.sessionId) ∧
      (∀ k sid, (x.tasks k).registered = some sid → sid = s.sessionId) ∧ ∀ obj, x.Waits obj → obj = s.obj := by
  cases h with
  | empty hs' => rw [hs] at hs'; cases hs'
  | one s' hs' hne hnd hk hsid hobj =>
    rw [hs] at hs'
    cases hs'
    exact ⟨hne, hnd, hk, hsid, hobj⟩

/-- Handing out a sequence number, and perhaps letting a sender wait for the
session. -/
theorem Table.stamped {x' : SocketState S K} (h : x.Table) {s : Session K} (hs : x.map.sessions = [s])
    (hm : x'.map.sessions = (x.map.stamped s).sessions) (ht : x'.tasks = x.tasks)
    (hw : ∀ obj, x'.Waits obj → x.Waits obj ∨ obj = s.obj) : x'.Table := by
  obtain ⟨hne, hnd, hk, hsid, hobj⟩ := h.session hs
  refine .one _ hm hne hnd (fun k => by rw [ht]; exact hk k) (fun k sid hr => hsid k sid (by rw [← ht]; exact hr)) ?_
  intro obj hw'
  rcases hw obj hw' with hw' | rfl
  · exact hobj obj hw'
  · rfl

theorem Table.start : (SocketState.start S K).Table := by
  refine .empty rfl (fun _ => rfl) fun obj hw => ?_
  obtain ⟨i, buf, st, n, hi⟩ := hw
  cases hi

section
variable [DecidableEq K]

theorem registered_setTask {k : K} {t : Task} (h : t.registered = (x.tasks k).registered) (k' : K) :
    ((x.setTask k t).tasks k').registered = (x.tasks k').registered := by
  by_cases hk : k' = k
  · subst hk
    simpa using h
  · rw [setTask_ne hk]

theorem Table.register (h : x.Table) {k : K} {stream : TunnelFrameStream} {ier : InitialExchangeResult}
    {map : SessionsMap K} (ht : x.tasks k = .exchanged stream ier) (hsh : ¬ x.Shared)
    (hreg : x.map.register k stream ier.sessionId = .ok map) :
    ({ x with map }.setTask k (.receiving ier.sessionId)).Table := by
  have hno : ∀ obj, ¬ ({ x with map }.setTask k (.receiving ier.sessionId)).Waits obj :=
    fun _ hw => hsh (hw.of_map (x := x) rfl).shared
  have hreg_k : (x.tasks k).registered = none := by rw [ht]; rfl
  rcases SessionsMap.register_sessions hreg with ⟨hs, hs'⟩ | ⟨s, hf, hs'⟩
  · cases h with
    | one s hs₁ => rw [hs₁] at hs; cases hs
    | empty _ hk _ =>
      refine .one _ hs' (by simp) (by simp) (fun k' => ?_) (fun k' sid hr => ?_) fun obj hw => absurd hw (hno obj)
      · by_cases hk' : k' = k
        · subst hk'
          simp [Task.registered]
        · rw [setTask_ne hk']
          simp [hk', hk k']
      · by_cases hk' : k' = k
        · subst hk'
          rw [setTask_self] at hr
          cases hr
          rfl
        · rw [setTask_ne hk', hk k'] at hr
          cases hr
  · cases h with
    | empty hs₁ => rw [SessionsMap.find, hs₁] at hf; cases hf
    | one s₁ hs₁ hne hnd hk hsid hobj =>
      rw [SessionsMap.find, hs₁] at hf
      have hsid₁ : s₁.sessionId = ier.sessionId := by
        have := List.find?_some hf
        have hmem := List.mem_of_find?_eq_some hf
        rw [List.mem_singleton] at hmem
        subst hmem
        simpa using this
      have hknot : k ∉ s₁.streams := fun hm => by rw [hk, hreg_k] at hm; cases hm
      rw [hs₁, List.map_cons, if_pos hsid₁, List.map_nil] at hs'
      refine .one _ hs' (by simp) ?_ (fun k' => ?_) (fun k' sid hr => ?_) fun obj hw => absurd hw (hno obj)
      · rw [List.nodup_append]
        exact ⟨hnd, by simp, fun a ha b hb => by rw [List.mem_singleton] at hb; rintro rfl; exact hknot (hb ▸ ha)⟩
      · by_cases hk' : k' = k
        · subst hk'
          simp [Task.registered, hsid₁]
        · rw [setTask_ne hk']
          simp [hk', hk k']
      · by_cases hk' : k' = k
        · subst hk'
          rw [setTask_self] at hr
          cases hr
          exact hsid₁.symm
        · rw [setTask_ne hk'] at hr
          exact hsid k' sid hr

theorem Table.cleanup (h : x.Table) {k : K} {sid : SessionId} {map : SessionsMap K}
    (ht : x.tasks k = .closed sid) (hsh : ¬ x.Shared) (hcl : x.map.cleanup k sid = .ok map) :
    ({ x with map }.setTask k .done).Table := by
  have hno : ∀ obj, ¬ ({ x with map }.setTask k .done).Waits obj :=
    fun _ hw => hsh (hw.of_map (x := x) rfl).shared
  have hreg_k : (x.tasks k).registered = some sid := by rw [ht]; rfl
  obtain ⟨s, hf, hcases⟩ := SessionsMap.cleanup_sessions hcl
  cases h with
  | empty hs₁ => rw [SessionsMap.find, hs₁] at hf; cases hf
  | one s₁ hs₁ hne hnd hk hsid hobj =>
    obtain rfl := hsid k sid hreg_k
    have hmem := List.mem_of_find?_eq_some hf
    rw [hs₁, List.mem_singleton] at hmem
    subst hmem
    rcases hcases with ⟨hemp, hs'⟩ | ⟨hrest, hs'⟩
    · refine .empty (by simpa [hs₁] using hs') (fun k' => ?_) hno
      by_cases hk' : k' = k
      · subst hk'
        rw [setTask_self]
        rfl
      · rw [setTask_ne hk']
        cases hr : (x.tasks k').registered with
        | none => rfl
        | some sid' =>
          obtain rfl := hsid k' sid' hr
          have := (hk k').2 hr
          rw [← List.mem_erase_of_ne hk', hemp] at this
          cases this
    · rw [hs₁, List.map_cons, if_pos rfl, List.map_nil] at hs'
      refine .one _ hs' hrest (hnd.erase k) (fun k' => ?_) (fun k' sid' hr => ?_) fun obj hw => absurd hw (hno obj)
      · rw [hnd.mem_erase_iff, hk k']
        by_cases hk' : k' = k
        · subst hk'
          simp [Task.registered]
        · rw [setTask_ne hk']
          simp [hk']
      · by_cases hk' : k' = k
        · subst hk'
          rw [setTask_self] at hr
          cases hr
        · rw [setTask_ne hk'] at hr
          exact hsid k' sid' hr

end

section
variable [DecidableEq S] [DecidableEq K]

/-- A sender that waits after a step did so before, or its selection has made it
wait for the one session. -/
theorem waits_step {client : Option SessionId} {l : SocketLabel S K} {x' : SocketState S K}
    (hs : SocketStep client x l x') {obj : Nat} (h : x'.Waits obj) :
    x.Waits obj ∨ ∃ i s, l = .select i ∧ x.map.sessions = [s] ∧ obj = s.obj := by
  obtain ⟨i, buf, st, n, hw⟩ := h
  rcases sender_step hs i with heq | hst
  · exact .inl ⟨i, buf, st, n, heq.symm.trans hw⟩
  · rw [hw] at hst
    generalize ha : x.senders i = a at hst
    cases hst with
    | wait hsel =>
      obtain ⟨s, hsess, hobj, -⟩ := SessionsMap.select_wait hsel
      exact .inr ⟨i, s, rfl, hsess, hobj⟩
    | recheckWait hre => exact .inl ⟨i, _, _, _, ha⟩
    | woken hi => exact .inl ⟨i, _, _, _, ha⟩

theorem Table.step {client : Option SessionId} {l : SocketLabel S K} {x' : SocketState S K} (h : x.Table)
    (hs : SocketStep client x l x') : x'.Table := by
  have hwaits : (∀ i s, l = .select i → x.map.sessions ≠ [s]) → ∀ obj, x'.Waits obj → x.Waits obj := by
    intro hno obj hw
    rcases waits_step hs hw with hw | ⟨i, s, hl, hsess, -⟩
    · exact hw
    · exact absurd hsess (hno i s hl)
  have hstamp : ∀ s, x.map.sessions = [s] → ∀ obj, x'.Waits obj → x.Waits obj ∨ obj = s.obj := by
    intro s hsess obj hw
    rcases waits_step hs hw with hw | ⟨i, s', -, hsess', hobj⟩
    · exact .inl hw
    · rw [hsess] at hsess'
      cases hsess'
      exact .inr hobj
  cases hs with
  | call hi => exact h.congr rfl (fun _ => rfl) (hwaits (by simp))
  | notYetReady hi hsel => exact h.congr rfl (fun _ => rfl) (hwaits (by simp [(SessionsMap.select_notYetReady hsel).1]))
  | take hi hsel =>
    obtain ⟨s, hsess, rfl, -, -, rfl, rfl⟩ := SessionsMap.select_take hsel
    exact h.stamped hsess rfl rfl (hstamp s hsess)
  | wait hi hsel =>
    obtain ⟨s, hsess, rfl, -, -, rfl, rfl⟩ := SessionsMap.select_wait hsel
    exact h.stamped hsess rfl rfl (hstamp s hsess)
  | recheckTake hi hre =>
    obtain ⟨-, rfl⟩ := SessionsMap.recheck_some hre
    exact h.congr rfl (fun _ => rfl) (hwaits (by simp))
  | recheckWait hi hre => exact h.congr rfl (fun _ => rfl) (hwaits (by simp))
  | io hi hal hst => exact h.congr rfl (fun _ => rfl) (hwaits (by simp))
  | complete hi hout hc hwk =>
    obtain ⟨-, rfl⟩ := SessionsMap.complete_ok hc
    exact h.congr (by simp) (by simp) (hwaits (by simp))
  | leave hi => exact h.congr rfl (fun _ => rfl) (hwaits (by simp))
  | add ht | start ht | exchange ht | exchangeThrows ht | receiveEnds ht =>
    exact h.congr rfl (registered_setTask (by rw [ht]; rfl)) (hwaits (by simp))
  | register ht hsh hreg => exact h.register ht hsh hreg
  | close ht hcl =>
    obtain ⟨fd, -, rfl⟩ := SessionsMap.closeStream_ok hcl
    exact h.congr rfl (registered_setTask (by rw [ht]; rfl)) (hwaits (by simp))
  | cleanup ht hsh hcl => exact h.cleanup ht hsh hcl
  | _ => exact h.congr rfl (fun _ => rfl) fun _ hw => hw

/-- The table's invariant holds in every reachable state. -/
theorem reachable_table {client : Option SessionId} (h : (sockets S K client).Reachable x) : x.Table := by
  refine h.invariant (I := Table) ?_ ?_
  · intro y hy
    cases hy
    exact Table.start
  · intro y l y' _ hI hs
    exact hI.step hs.2

end

end SocketState

/-! ## Joining -/

/-- The labels of a task's steps up to the end of its exchange. -/
def SocketLabel.Prepares {S K : Type} (k : K) (l : SocketLabel S K) : Prop :=
  (∃ fd, l = .add k fd) ∨ (∃ getfl setfl, l = .start k getfl setfl) ∨ ∃ io, l = .exchange k io

/-- A socket not yet added can be, and then exchange initial frames. -/
theorem run_exchanged {S K : Type} [DecidableEq S] [DecidableEq K] {client : Option SessionId}
    {tr : List (Machine.Transition (SocketState S K) (SocketLabel S K))} {x : SocketState S K}
    (h : (sockets S K client).Run tr x) (hc : x.crash = none) {k : K} (hk : x.tasks k = .notAdded)
    (stream : TunnelFrameStream) {io : ExchangeIo} {ier : InitialExchangeResult}
    (hex : initialTunnelFrameExchange client io = .ok ier) :
    ∃ tr', (sockets S K client).Run (tr ++ tr') (x.setTask k (.exchanged stream ier)) ∧
      ∀ t ∈ tr', t.label.Prepares k := by
  have hr₁ := h.step (l := .add k stream.fd) ⟨hc, .add hk⟩
  have hr₂ := hr₁.step (l := .start k (.ok 0) (.ok 0))
    ⟨hc, show SocketStep client _ _ (SocketState.setTask _ k (.exchanging stream)) from .start
      SocketState.setTask_self rfl⟩
  have hr₃ := hr₂.step (l := .exchange k io)
    ⟨hc, show SocketStep client _ _ (SocketState.setTask _ k (.exchanged stream ier)) from
      .exchange SocketState.setTask_self hex⟩
  rw [SocketState.setTask_setTask, SocketState.setTask_setTask, List.append_assoc, List.append_assoc] at hr₃
  refine ⟨_, hr₃, ?_⟩
  intro t ht
  simp only [List.mem_append, List.mem_singleton] at ht
  rcases ht with rfl | rfl | rfl
  · exact .inl ⟨_, rfl⟩
  · exact .inr (.inl ⟨_, _, rfl⟩)
  · exact .inr (.inr ⟨_, rfl⟩)

/-- And then be registered, in the first session or in its own. -/
theorem run_registered {S K : Type} [DecidableEq S] [DecidableEq K] {client : Option SessionId}
    {tr : List (Machine.Transition (SocketState S K) (SocketLabel S K))} {x : SocketState S K}
    (h : (sockets S K client).Run tr x) (hc : x.crash = none) {k : K} (hk : x.tasks k = .notAdded) (hsh : ¬ x.Shared)
    (stream : TunnelFrameStream) {io : ExchangeIo} {ier : InitialExchangeResult}
    (hex : initialTunnelFrameExchange client io = .ok ier)
    (hs : ∀ s ∈ x.map.sessions, s.sessionId = ier.sessionId) :
    ∃ tr' map, (sockets S K client).Run (tr ++ tr') ({ x with map }.setTask k (.receiving ier.sessionId)) ∧
      x.map.register k stream ier.sessionId = .ok map ∧ ∀ t ∈ tr', t.label.Prepares k ∨ t.label = .register k := by
  obtain ⟨tr', hrun, htr⟩ := run_exchanged h hc hk stream hex
  obtain ⟨map, hreg⟩ : ∃ map, x.map.register k stream ier.sessionId = .ok map := by
    cases hreg : x.map.register k stream ier.sessionId with
    | ok map => exact ⟨map, rfl⟩
    | error ex =>
      obtain ⟨hne, hall, -⟩ := SessionsMap.register_error.1 hreg
      obtain ⟨s, ss, hss⟩ := List.exists_cons_of_ne_nil hne
      have hmem : s ∈ x.map.sessions := by rw [hss]; exact List.mem_cons_self
      exact absurd (hs s hmem) (hall s hmem)
  have hrun' := hrun.step (l := .register k) ⟨hc, .register SocketState.setTask_self hsh hreg⟩
  have hx : ({ x.setTask k (.exchanged stream ier) with map }).setTask k (.receiving ier.sessionId) =
      ({ x with map }).setTask k (.receiving ier.sessionId) := by
    simp [SocketState.setTask]
  rw [List.append_assoc, hx] at hrun'
  refine ⟨_, map, hrun', hreg, fun t ht => ?_⟩
  rcases List.mem_append.1 ht with ht | ht
  · exact .inl (htr t ht)
  · rw [List.mem_singleton] at ht
    subst ht
    exact .inr rfl

/-- A stream whose loop ends is closed and leaves its session. -/
theorem run_left {S K : Type} [DecidableEq S] [DecidableEq K] {client : Option SessionId}
    {tr : List (Machine.Transition (SocketState S K) (SocketLabel S K))} {x : SocketState S K}
    (h : (sockets S K client).Run tr x) (hc : x.crash = none) {k : K} {sid : SessionId}
    (hk : x.tasks k = .receiving sid) (hsh : ¬ x.Shared) (ex : Exception) {m map : SessionsMap K}
    (hclose : x.map.closeStream k = .ok m) (hclean : m.cleanup k sid = .ok map) :
    ∃ tr', (sockets S K client).Run (tr ++ tr') ({ x with map }.setTask k .done) ∧
      tr'.map (·.label) = [.receiveEnds k (.throw ex), .close k, .cleanup k] ∧
      ∀ t ∈ tr', t.pre.senders = x.senders ∧ t.pre.map.sessions = x.map.sessions := by
  have hsessions : m.sessions = x.map.sessions := by
    obtain ⟨fd, -, rfl⟩ := SessionsMap.closeStream_ok hclose
    rfl
  have h := h.step (l := .receiveEnds k (.throw ex)) ⟨hc, .receiveEnds hk⟩
  have h := h.step (l := .close k) ⟨hc, .close SocketState.setTask_self hclose⟩
  have hclosed : ({ x.setTask k (.loopEnded sid) with map := m }.setTask k (.closed sid)).tasks k = .closed sid :=
    SocketState.setTask_self
  have h := h.step (l := .cleanup k) ⟨hc, .cleanup hclosed hsh hclean⟩
  simp only [List.append_assoc, SocketState.setTask, Function.update_idem] at h
  refine ⟨_, h, rfl, fun t ht => ?_⟩
  simp only [List.mem_append, List.mem_singleton] at ht
  rcases ht with rfl | rfl | rfl
  · exact ⟨rfl, rfl⟩
  · exact ⟨rfl, rfl⟩
  · exact ⟨rfl, hsessions⟩

/-- A server with one stream, registered and not used yet. -/
def oneStream (sid : SessionId) : SocketState Unit Unit where
  map := { sessions := [{ obj := 0, sessionId := sid, nextSeqNum := 1, streams := [()] }], created := 1,
           trackers := fun _ =>
             { stream := ⟨⟨"Client", 5⟩, fun _ => 0⟩, inUse := false, bytesSending := 0, bytesSent := 0 } }
  senders := fun _ => .idle
  tasks := fun _ => .receiving sid
  interrupted := false
  crash := none
  wire := fun _ => []
  sends := fun _ => []

theorem run_serving (sid : SessionId) : ∃ tr, (sockets Unit Unit none).Run tr (oneStream sid) ∧
    ∀ t ∈ tr, t.label.Prepares () ∨ t.label = .register () := by
  obtain ⟨frame, -, hcl, hid, -⟩ := initFrame_ok sid "RuralPipeClient" rfl
  obtain ⟨ier, hex, hsid⟩ := exchange_server hcl
  obtain ⟨tr, map, hrun, hreg, htr⟩ := run_registered (S := Unit) (K := Unit) (k := ()) (.init rfl) rfl rfl
    (fun ⟨_, _, _, _, _, hw⟩ => nomatch hw) ⟨⟨"Client", 5⟩, fun _ => 0⟩ hex (fun _ hs => nomatch hs)
  cases hreg
  have heq : ∀ {α : Type} (f : Unit → α) (a : α), Function.update f () a = fun _ => a :=
    fun f a => funext fun _ => by simp
  simp only [SocketState.setTask, heq, hsid.trans hid] at hrun
  exact ⟨_, hrun, htr⟩

theorem run_oneStream : ∃ tr sid, (sockets Unit Unit none).Run tr (oneStream sid) ∧
    ∀ t ∈ tr, t.label.Prepares () ∨ t.label = .register () := by
  obtain ⟨tr, hrun, htr⟩ := run_serving ⟨List.replicate 16 7, rfl⟩
  exact ⟨tr, _, hrun, htr⟩

/-- A server with two streams in one session, registered and not used yet. -/
def twoStreams (S : Type) (sid : SessionId) : SocketState S Bool where
  map := { sessions := [{ obj := 0, sessionId := sid, nextSeqNum := 1, streams := [false, true] }], created := 1,
           trackers := fun k =>
             { stream := ⟨⟨"Client", if k then 6 else 5⟩, fun _ => 0⟩, inUse :=
               false, bytesSending := 0, bytesSent := 0 } }
  senders := fun _ => .idle
  tasks := fun _ => .receiving sid
  interrupted := false
  crash := none
  wire := fun _ => []
  sends := fun _ => []

theorem run_twoStreams (S : Type) [DecidableEq S] (sid : SessionId) :
    ∃ tr, (sockets S Bool none).Run tr (twoStreams S sid) ∧
      ∀ t ∈ tr, ∃ k, t.label.Prepares k ∨ t.label = .register k := by
  obtain ⟨frame, -, hcl, hid, -⟩ := initFrame_ok sid "RuralPipeClient" rfl
  obtain ⟨ier, hex, hsid⟩ := exchange_server hcl
  have hid : ier.sessionId = sid := hsid.trans hid
  obtain ⟨tr₁, m₁, hrun₁, hreg₁, htr₁⟩ := run_registered (S := S) (K := Bool) (k := false) (.init rfl) rfl rfl
    (fun ⟨_, _, _, _, _, hw⟩ => nomatch hw) ⟨⟨"Client", 5⟩, fun _ => 0⟩ hex (fun s hs => nomatch hs)
  cases hreg₁
  obtain ⟨tr₂, m₂, hrun₂, hreg₂, htr₂⟩ := run_registered (k := true) hrun₁ rfl rfl
    (fun ⟨_, _, _, _, _, hw⟩ => nomatch hw) ⟨⟨"Client", 6⟩, fun _ => 0⟩ hex (fun s hs => by
      rw [List.mem_singleton.1 hs])
  subst hid
  have hm₂ : m₂ = (twoStreams S ier.sessionId).map := by
    rw [SocketState.setTask_map, SessionsMap.register] at hreg₂
    simp only [SessionsMap.find, SessionsMap.modify, List.find?_cons, decide_true, List.map_cons, List.map_nil, if_true,
      List.cons_append, List.nil_append, Except.ok.injEq] at hreg₂
    subst hreg₂
    simp only [twoStreams, SessionsMap.mk.injEq]
    refine ⟨rfl, rfl, funext fun k => ?_⟩
    cases k <;> rfl
  have htasks : Function.update (Function.update (fun _ : Bool => Task.notAdded) false (.receiving ier.sessionId)) true
      (.receiving ier.sessionId) = fun _ => .receiving ier.sessionId := funext fun k => by cases k <;> rfl
  subst hm₂
  refine ⟨[] ++ tr₁ ++ tr₂, ?_, ?_⟩
  · rw [twoStreams, ← htasks]
    exact hrun₂
  · intro t ht
    rcases List.mem_append.1 ht with ht | ht
    · exact ⟨false, htr₁ t (by simpa using ht)⟩
    · exact ⟨true, htr₂ t ht⟩

end RuralPipe
