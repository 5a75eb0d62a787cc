/-
Who uses a stream: `inUse` is set exactly while one sender has it, the counts
follow that sender, and the bytes on the stream are those of the sends so far,
one after another (`StreamUse`).

The invariant is kept stream by stream. A step touches at most one stream, so
for the others it is enough that the step looks the same to them
(`StreamUse.congr`).
-/
import RuralPipe.SessionLifetime
import RuralPipe.StreamFacts

namespace RuralPipe

/-- A `send` that has put the first bytes of its frame on the stream, and all
of them once it returned. -/
def Sending.Ok {K : Type} (s : Sending K) : Prop :=
  match s.send with
  | .writing n _ => n < s.buf.size ∧ s.out = s.buf.bytes.take n
  | .returned => s.out = s.buf.bytes
  | .threw _ => ∃ n, n < s.buf.size ∧ s.out = s.buf.bytes.take n

/-- A `send` that ended put its whole frame on the stream, or threw before. -/
def SendRecord.Ok {S : Type} (r : SendRecord S) : Prop :=
  if r.ok then r.written = r.frame else ∃ n, n < r.frame.length ∧ r.written = r.frame.take n

/-- What the ended sends put on the stream. -/
def written {S : Type} (rs : List (SendRecord S)) : List UInt8 := (rs.map (·.written)).flatten

/-- The bytes of the frames whose send returned. -/
def sentBytes {S : Type} (rs : List (SendRecord S)) : Nat := ((rs.filter (·.ok)).map (·.frame.length)).sum

theorem Sending.Ok.start {K : Type} (obj : Nat) (buf : TunnelFrameBuffer) (st : K) :
    Sending.Ok ⟨obj, buf, st, TunnelFrameStream.send buf, []⟩ := by
  unfold Sending.Ok
  by_cases h : 0 < buf.size
  · have hs : TunnelFrameStream.send buf = .writing 0 .call := if_pos h
    simp only [hs]
    exact ⟨h, rfl⟩
  · have hs : TunnelFrameStream.send buf = .returned := if_neg h
    simp only [hs]
    have hlen : buf.bytes.length = 0 := by rw [TunnelFrameBuffer.bytes_length]; omega
    exact (List.eq_nil_of_length_eq_zero hlen).symm

/-- What the kernel took goes on where the bytes before it ended. -/
theorem Sending.Ok.step {K : Type} {s : Sending K} {stream : TunnelFrameStream} {ev : IoEvent Nat} {send : Send}
    {out : List UInt8} (h : s.Ok) (hs : stream.sendStep s.buf s.send ev = some (send, out)) :
    Sending.Ok { s with send, out := s.out ++ out } := by
  obtain ⟨n, io, hw, hc⟩ := TunnelFrameStream.sendStep_cases hs
  have hok : n < s.buf.size ∧ s.out = s.buf.bytes.take n := by
    unfold Sending.Ok at h
    rwa [hw] at h
  rcases hc with ⟨k, rfl, hpos, hle, rfl, rfl⟩ | ⟨io', rfl, rfl, -⟩ | ⟨ex, rfl, rfl, -⟩
  · have hout : s.out ++ Bytes.load s.buf.data n k = s.buf.bytes.take (n + k) := by
      rw [hok.2, TunnelFrameBuffer.bytes, Bytes.load_take, Bytes.load_take, Nat.min_eq_left (by omega),
        Nat.min_eq_left hle, Bytes.load_add, Nat.zero_add]
    unfold Sending.Ok TunnelFrameStream.sendLoop
    by_cases hlt : n + k < s.buf.size
    · simp only [if_pos hlt]
      exact ⟨hlt, hout⟩
    · simp only [if_neg hlt]
      rw [hout, List.take_of_length_le (by rw [TunnelFrameBuffer.bytes_length]; omega)]
  · exact ⟨hok.1, by rw [List.append_nil]; exact hok.2⟩
  · exact ⟨n, hok.1, by rw [List.append_nil]; exact hok.2⟩

theorem Sending.Ok.part {K : Type} {s : Sending K} (h : s.Ok) : s.out <+: s.buf.bytes := by
  unfold Sending.Ok at h
  split at h
  · rw [h.2]
    exact List.take_prefix ..
  · exact h ▸ List.prefix_rfl
  · obtain ⟨n, -, ho⟩ := h
    rw [ho]
    exact List.take_prefix ..

/-- An ended `send` leaves a record of what it did. -/
theorem Sending.Ok.record {S K : Type} {s : Sending K} {res : Except Exception Unit} (h : s.Ok)
    (hres : s.send.outcome = some res) (i : S) :
    SendRecord.Ok ⟨i, s.buf.bytes, s.out, res.isOk⟩ := by
  unfold Sending.Ok at h
  cases hs : s.send with
  | writing n io => rw [hs] at hres; cases hres
  | returned =>
    rw [hs] at h hres
    cases hres
    exact h
  | threw ex =>
    rw [hs] at h hres
    cases hres
    obtain ⟨n, hn, ho⟩ := h
    exact ⟨n, by rwa [TunnelFrameBuffer.bytes_length], ho⟩

namespace SocketState

variable {S K : Type} {x x' : SocketState S K} {k : K}

structure StreamUse (x : SocketState S K) (k : K) : Prop where
  inUse : (x.map.trackers k).inUse = true ↔ ∃ i s, x.senders i = .sending s ∧ s.st = k
  unique : ∀ i j s s', x.senders i = .sending s → x.senders j = .sending s' → s.st = k → s'.st = k → i = j
  busy : ∀ i s, x.senders i = .sending s → s.st = k →
    (x.map.trackers k).bytesSending = UInt64.ofNat s.buf.size ∧ x.wire k = written (x.sends k) ++ s.out ∧ s.Ok
  free : (x.map.trackers k).inUse = false → (x.map.trackers k).bytesSending = 0 ∧ x.wire k = written (x.sends k)
  sent : (x.map.trackers k).bytesSent = UInt64.ofNat (sentBytes (x.sends k))
  records : ∀ r ∈ x.sends k, r.Ok

/-- The parts of a tracker that the senders change. -/
def StreamTracker.use (t : StreamTracker) : Bool × UInt64 × UInt64 := (t.inUse, t.bytesSending, t.bytesSent)

/-- A step that looks the same to the stream. -/
theorem StreamUse.congr (h : x.StreamUse k)
    (ht : StreamTracker.use (x'.map.trackers k) = StreamTracker.use (x.map.trackers k))
    (hs : ∀ i s, s.st = k → (x'.senders i = .sending s ↔ x.senders i = .sending s))
    (hw : x'.wire k = x.wire k) (hr : x'.sends k = x.sends k) : x'.StreamUse k := by
  obtain ⟨h₁, h₂⟩ := Prod.mk.injEq .. ▸ ht
  obtain ⟨h₂, h₃⟩ := Prod.mk.injEq .. ▸ h₂
  refine ⟨?_, ?_, ?_, ?_, ?_, ?_⟩
  · rw [h₁, h.inUse]
    exact ⟨fun ⟨i, s, hi, he⟩ => ⟨i, s, (hs i s he).2 hi, he⟩, fun ⟨i, s, hi, he⟩ => ⟨i, s, (hs i s he).1 hi, he⟩⟩
  · intro i j s s' hi hj he he'
    exact h.unique i j s s' ((hs i s he).1 hi) ((hs j s' he').1 hj) he he'
  · intro i s hi he
    rw [h₂, hw, hr]
    exact h.busy i s ((hs i s he).1 hi) he
  · intro hf
    rw [h₁] at hf
    rw [h₂, hw, hr]
    exact h.free hf
  · rw [h₃, hr]
    exact h.sent
  · rw [hr]
    exact h.records

/-! ## Streams not registered yet -/

end SocketState

/-- The stream a sender has selected or waits for. -/
def Sender.target {K : Type} : Sender K → Option K
  | .waiting _ _ st _ => some st
  | .sending s => some s.st
  | _ => none

/-- Before its registration. -/
def Task.preparing : Task → Bool
  | .notAdded => true
  | .posted _ => true
  | .exchanging _ => true
  | .exchanged _ _ => true
  | _ => false

theorem Task.preparing_of_registered {t : Task} {sid : SessionId} (h : t.registered = some sid) :
    t.preparing = false := by
  cases t with
  | receiving _ => rfl
  | loopEnded _ => rfl
  | closed _ => rfl
  | done => rfl
  | notAdded => cases h
  | posted fd => cases h
  | exchanging stream => cases h
  | exchanged stream ier => cases h

namespace SocketState

variable {S K : Type} {x x' : SocketState S K} {k : K}

def Targets (x : SocketState S K) (k : K) : Prop := ∃ i, (x.senders i).target = some k

/-- No sender knows a stream before its registration. -/
def Fresh (x : SocketState S K) : Prop :=
  ∀ k, (x.tasks k).preparing = true → ¬ x.Targets k ∧ x.wire k = [] ∧ x.sends k = []

theorem Fresh.congr (h : x.Fresh) (ht : ∀ k, (x'.tasks k).preparing = true → (x.tasks k).preparing = true)
    (hs : ∀ k, (x.tasks k).preparing = true → x'.Targets k → x.Targets k)
    (hw : ∀ k, ¬ x.Targets k → x'.wire k = x.wire k ∧ x'.sends k = x.sends k) : x'.Fresh := by
  intro k hk
  obtain ⟨hn, hwire, hsends⟩ := h k (ht k hk)
  exact ⟨fun h' => hn (hs k (ht k hk) h'), (hw k hn).1.trans hwire, (hw k hn).2.trans hsends⟩

section
variable [DecidableEq S] [DecidableEq K] {client : Option SessionId} {l : SocketLabel S K}

/-- A sender has its stream from before a step, or selects one of the session's. -/
theorem targets_step (hs : SocketStep client x l x') (h : x'.Targets k) :
    x.Targets k ∨ ∃ s, x.map.sessions = [s] ∧ k ∈ s.streams := by
  obtain ⟨i, hi⟩ := h
  rcases sender_step hs i with heq | hst
  · exact .inl ⟨i, by rw [← heq]; exact hi⟩
  · generalize ha : x.senders i = a at hst
    generalize x'.senders i = a' at hst hi
    have hsame : a.target = some k → x.Targets k := fun hk => ⟨i, by rw [ha]; exact hk⟩
    cases hst with
    | take hsel =>
      obtain ⟨s, hsess, -, hmem, -⟩ := SessionsMap.select_take hsel
      cases hi
      exact .inr ⟨s, hsess, hmem⟩
    | wait hsel =>
      obtain ⟨s, hsess, -, hmem, -⟩ := SessionsMap.select_wait hsel
      cases hi
      exact .inr ⟨s, hsess, hmem⟩
    | recheckTake | recheckWait | io | woken => exact .inl (hsame hi)
    | call | notYetReady | complete | leave => cases hi

/-- No task gets back before its registration. -/
theorem preparing_step (hs : SocketStep client x l x') (h : (x'.tasks k).preparing = true) :
    (x.tasks k).preparing = true := by
  rcases task_step hs k with ⟨-, heq⟩ | ⟨-, hst⟩
  · rw [← heq]
    exact h
  · generalize x.tasks k = t at hst ⊢
    generalize x'.tasks k = t' at hst h
    cases hst <;> first | rfl | cases h

theorem Fresh.step (ht : x.Table) (h : x.Fresh) (hs : SocketStep client x l x') : x'.Fresh := by
  refine h.congr (fun _ => preparing_step hs) (fun k hk hk' => ?_) fun k hk => ?_
  · refine (targets_step hs hk').resolve_right fun ⟨s, hsess, hmem⟩ => ?_
    have hno := Task.preparing_of_registered (((ht.session hsess).2.2.1 k).1 hmem)
    rw [hk] at hno
    cases hno
  · cases hs with
    | @io i s ev send out hi hal hst =>
      have hne : k ≠ s.st := by
        intro he
        subst he
        exact hk ⟨i, by rw [hi]; rfl⟩
      exact ⟨Function.update_of_ne hne .., rfl⟩
    | @complete i s res map wake hi hout hc hwk =>
      have hne : k ≠ s.st := by
        intro he
        subst he
        exact hk ⟨i, by rw [hi]; rfl⟩
      exact ⟨by simp, by rw [notify_sends]; exact Function.update_of_ne hne ..⟩
    | _ => exact ⟨rfl, rfl⟩

end

/-! ## The steps -/

section
variable [DecidableEq S] {i : S}

/-- A sender moved between states that are no send on `k`. -/
theorem sending_setSender {a : Sender K} (hi : ∀ s, s.st = k → x.senders i ≠ .sending s)
    (ha : ∀ s, s.st = k → a ≠ .sending s) (j : S) (s : Sending K) (hs : s.st = k) :
    (x.setSender i a).senders j = .sending s ↔ x.senders j = .sending s := by
  by_cases hij : j = i
  · subst hij
    rw [setSender_self]
    exact ⟨fun h => absurd h (ha s hs), fun h => absurd h (hi s hs)⟩
  · rw [setSender_ne hij]

theorem sending_notify {w : Option S} (j : S) (s : Sending K) :
    (x.notify w).senders j = .sending s ↔ x.senders j = .sending s := by
  rcases x.notify_cases w with he | ⟨i, obj, buf, st, n, hi, he⟩
  · rw [he]
  · rw [he]
    exact sending_setSender (k := s.st) (fun s' _ h' => by rw [hi] at h'; cases h') (fun _ _ => by simp) j s rfl

/-- Steps of senders that neither have a stream before nor after. -/
theorem StreamUse.move {a : Sender K} (h : x.StreamUse k) (hi : ∀ s, x.senders i ≠ .sending s)
    (ha : ∀ s, a ≠ .sending s) : (x.setSender i a).StreamUse k :=
  h.congr rfl (sending_setSender (fun s _ => hi s) fun s _ => ha s) rfl rfl

variable [DecidableEq K]

/-- A sender takes a stream that was free. -/
theorem StreamUse.take (h : x.StreamUse k) {map : SessionsMap K} {st : K} {obj : Nat} {buf : TunnelFrameBuffer}
    (hfree : (x.map.trackers st).inUse = false) (hi : ∀ s, x.senders i ≠ .sending s)
    (hm : map.trackers = (x.map.take st buf.size).trackers) :
    ({ x with map }.setSender i (.sending ⟨obj, buf, st, TunnelFrameStream.send buf, []⟩)).StreamUse k := by
  by_cases hk : k = st
  · subst hk
    obtain ⟨hzero, hwire⟩ := h.free hfree
    have hnone : ∀ j s, x.senders j = .sending s → s.st ≠ k := by
      intro j s hj he
      have := h.inUse.2 ⟨j, s, hj, he⟩
      rw [hfree] at this
      cases this
    -- The one sender on the stream is the one that took it.
    have hone : ∀ j s, ({ x with map }.setSender i (.sending ⟨obj, buf, k, TunnelFrameStream.send buf, []⟩)).senders j =
        .sending s → s.st = k → j = i ∧ s = ⟨obj, buf, k, TunnelFrameStream.send buf, []⟩ := by
      intro j s hj he
      by_cases hij : j = i
      · subst hij
        rw [setSender_self] at hj
        cases hj
        exact ⟨rfl, rfl⟩
      · rw [setSender_ne hij] at hj
        exact absurd he (hnone j s hj)
    have htr : map.trackers k = { x.map.trackers k with
        inUse := true, bytesSending := (x.map.trackers k).bytesSending + UInt64.ofNat buf.size } := by
      rw [hm]
      exact SessionsMap.setTracker_self ..
    refine ⟨?_, ?_, ?_, ?_, ?_, h.records⟩
    · rw [setSender_map, htr]
      exact ⟨fun _ => ⟨i, _, setSender_self, rfl⟩, fun _ => rfl⟩
    · intro a b s s' ha hb he he'
      rw [(hone a s ha he).1, (hone b s' hb he').1]
    · intro j s hj he
      obtain ⟨rfl, rfl⟩ := hone j s hj he
      rw [setSender_map, htr]
      refine ⟨?_, ?_, Sending.Ok.start _ _ _⟩
      · simp [hzero]
      · simpa using hwire
    · rw [setSender_map, htr]
      exact fun hf => nomatch hf
    · rw [setSender_map, htr]
      exact h.sent
  · refine h.congr ?_ (sending_setSender (x := { x with map }) (fun s _ => hi s) ?_) rfl rfl
    · rw [setSender_map, hm]
      exact congrArg StreamTracker.use (SessionsMap.setTracker_ne hk ..)
    · intro s hs he
      cases he
      exact hk hs.symm

/-- A sender's `send` goes on. -/
theorem StreamUse.io (h : x.StreamUse k) {s : Sending K} (hi : x.senders i = .sending s)
    {ev : IoEvent Nat} {send : Send} {out : List UInt8}
    (hs : (x.map.trackers s.st).stream.sendStep s.buf s.send ev = some (send, out)) :
    ((x.put s.st out).setSender i (.sending { s with send, out := s.out ++ out })).StreamUse k := by
  by_cases hk : k = s.st
  · subst hk
    have hone : ∀ j s', ((x.put s.st out).setSender i (.sending { s with send, out := s.out ++ out })).senders j =
        .sending s' → s'.st = s.st → j = i ∧ s' = { s with send, out := s.out ++ out } := by
      intro j s' hj he
      by_cases hij : j = i
      · subst hij
        rw [setSender_self] at hj
        cases hj
        exact ⟨rfl, rfl⟩
      · rw [setSender_ne hij] at hj
        exact absurd (h.unique j i s' s hj hi he rfl) hij
    obtain ⟨hsending, hwire, hok⟩ := h.busy i s hi rfl
    have hused := h.inUse.2 ⟨i, s, hi, rfl⟩
    refine ⟨?_, ?_, ?_, ?_, h.sent, h.records⟩
    · exact ⟨fun _ => ⟨i, _, setSender_self, rfl⟩, fun _ => hused⟩
    · intro a b s₁ s₂ ha hb he he'
      rw [(hone a s₁ ha he).1, (hone b s₂ hb he').1]
    · intro j s' hj he
      obtain ⟨rfl, rfl⟩ := hone j s' hj he
      refine ⟨hsending, ?_, hok.step hs⟩
      show Function.update x.wire s.st (x.wire s.st ++ out) s.st = _
      rw [Function.update_self, hwire, List.append_assoc]
      rfl
    · intro hf
      exact absurd hused (by rw [setSender_map, put_map] at hf; rw [hf]; decide)
  · refine h.congr rfl (sending_setSender (x := x.put s.st out) ?_ ?_) (Function.update_of_ne hk ..) rfl
    · intro s' hs' h'
      rw [put_senders, hi] at h'
      cases h'
      exact hk hs'.symm
    · intro s' hs' he
      cases he
      exact hk hs'.symm

/-- A sender's guard gives the stream back. -/
theorem StreamUse.complete (h : x.StreamUse k) {s : Sending K} (hi : x.senders i = .sending s)
    {res : Except Exception Unit} (hout : s.send.outcome = some res) {map : SessionsMap K} {wake : Option S}
    (hc : x.map.complete s.obj s.buf s.st res.isOk = .ok map)
    (hx' : x' = (({ x with map }.record s.st ⟨i, s.buf.bytes, s.out, res.isOk⟩).setSender i
      (.returned s.buf res)).notify wake) : x'.StreamUse k := by
  obtain ⟨-, rfl⟩ := SessionsMap.complete_ok hc
  have hsenders : ∀ j s', x'.senders j = .sending s' → x.senders j = .sending s' ∧ j ≠ i := by
    intro j s' hj
    rw [hx', sending_notify] at hj
    by_cases hij : j = i
    · subst hij
      rw [setSender_self] at hj
      cases hj
    · rw [setSender_ne hij] at hj
      exact ⟨hj, hij⟩
  have hwire' : x'.wire = x.wire := by rw [hx', notify_wire]; rfl
  by_cases hk : k = s.st
  · subst hk
    obtain ⟨hsending, hwire, hok⟩ := h.busy i s hi rfl
    have hnone : ∀ j s', x'.senders j = .sending s' → s'.st ≠ s.st := by
      intro j s' hj he
      obtain ⟨hj, hij⟩ := hsenders j s' hj
      exact hij (h.unique j i s' s hj hi he rfl)
    have hsends : x'.sends s.st = x.sends s.st ++ [⟨i, s.buf.bytes, s.out, res.isOk⟩] := by
      rw [hx', notify_sends]
      exact Function.update_self ..
    have htr : x'.map.trackers s.st = { x.map.trackers s.st with
        inUse := false
        bytesSending := (x.map.trackers s.st).bytesSending - UInt64.ofNat s.buf.size
        bytesSent := if res.isOk then (x.map.trackers s.st).bytesSent + UInt64.ofNat s.buf.size
          else (x.map.trackers s.st).bytesSent } := by
      rw [hx', notify_map, setSender_map, record_map, SessionsMap.setTracker_self]
    refine ⟨?_, ?_, ?_, ?_, ?_, ?_⟩
    · rw [htr]
      exact ⟨(fun hf => nomatch hf), fun ⟨j, s', hj, he⟩ => absurd he (hnone j s' hj)⟩
    · exact fun a b s₁ s₂ ha _ he _ => absurd he (hnone a s₁ ha)
    · exact fun j s' hj he => absurd he (hnone j s' hj)
    · intro _
      rw [htr, hwire', hsends, hwire]
      exact ⟨by simp [hsending], by simp [written]⟩
    · rw [htr, hsends]
      cases hr : res.isOk
      · simpa [sentBytes] using h.sent
      · have hlen := TunnelFrameBuffer.bytes_length s.buf
        simp [sentBytes, h.sent, hlen, UInt64.ofNat_add]
    · intro r hr
      rw [hsends] at hr
      rcases List.mem_append.1 hr with hr | hr
      · exact h.records r hr
      · rw [List.mem_singleton] at hr
        subst hr
        exact hok.record hout i
  · refine h.congr ?_ (fun j s' hs' => ⟨fun hj => (hsenders j s' hj).1, fun hj => ?_⟩) (congrFun hwire' k) ?_
    · rw [hx', notify_map, setSender_map, record_map, SessionsMap.setTracker_ne hk]
    · have hij : j ≠ i := by
        intro he
        subst he
        rw [hi] at hj
        cases hj
        exact hk hs'.symm
      rw [hx', sending_notify, setSender_ne hij]
      exact hj
    · rw [hx', notify_sends]
      exact Function.update_of_ne hk ..

omit [DecidableEq S] in
/-- A stream that is registered has not been used. -/
theorem StreamUse.register {map : SessionsMap K} {stream : TunnelFrameStream} {sid : SessionId} {k' : K} {t : Task}
    (h : x.StreamUse k) (hreg : x.map.register k' stream sid = .ok map) (hn : ¬ x.Targets k')
    (hw : x.wire k' = []) (hr : x.sends k' = []) : ({ x with map }.setTask k' t).StreamUse k := by
  have htr := SessionsMap.register_trackers hreg
  by_cases hk : k = k'
  · subst hk
    have hnone : ∀ j s, x.senders j = .sending s → s.st ≠ k := by
      intro j s hj he
      subst he
      exact hn ⟨j, by rw [hj]; rfl⟩
    have htr : map.trackers k = { stream, inUse := false, bytesSending := 0, bytesSent := 0 } := by
      rw [htr, Function.update_self]
    refine ⟨?_, h.unique, fun j s hj he => absurd he (hnone j s hj), ?_, ?_, h.records⟩
    · rw [setTask_map, htr]
      exact ⟨(fun hf => nomatch hf), fun ⟨j, s, hj, he⟩ => absurd he (hnone j s hj)⟩
    · intro _
      rw [setTask_map, htr, setTask_wire, setTask_sends, hw, hr]
      exact ⟨rfl, rfl⟩
    · rw [setTask_map, htr, setTask_sends, hr]
      rfl
  · refine h.congr ?_ (fun _ _ _ => Iff.rfl) rfl rfl
    rw [setTask_map, htr]
    exact congrArg StreamTracker.use (Function.update_of_ne hk ..)

theorem StreamUse.step {client : Option SessionId} {l : SocketLabel S K} (hf : x.Fresh) (h : x.StreamUse k)
    (hs : SocketStep client x l x') : x'.StreamUse k := by
  have hsame : ∀ i s, s.st = k → (x.senders i = .sending s ↔ x.senders i = .sending s) := fun _ _ _ => Iff.rfl
  cases hs with
  | call hi => exact h.move (by simp [hi]) (by simp)
  | notYetReady hi hsel => exact h.move (by simp [hi]) (by simp)
  | take hi hsel =>
    obtain ⟨s, -, -, -, hfree, -, rfl⟩ := SessionsMap.select_take hsel
    exact h.take hfree (by simp [hi]) rfl
  | wait hi hsel =>
    obtain ⟨s, -, -, -, -, -, rfl⟩ := SessionsMap.select_wait hsel
    exact h.congr rfl (sending_setSender (x := { x with map := x.map.stamped s }) (by simp [hi]) (by simp)) rfl rfl
  | recheckTake hi hre =>
    obtain ⟨hfree, rfl⟩ := SessionsMap.recheck_some hre
    exact h.take hfree (by simp [hi]) rfl
  | recheckWait hi hre => exact h.move (by simp [hi]) (by simp)
  | io hi hal hst => exact h.io hi hst
  | complete hi hout hc hwk => exact h.complete hi hout hc rfl
  | leave hi => exact h.move (by simp [hi]) (by simp)
  | @register k' _ _ _ hk hsh hreg =>
    obtain ⟨hn, hw, hr⟩ := hf k' (by rw [hk]; rfl)
    exact h.register hreg hn hw hr
  | @close k' _ _ hk hcl =>
    obtain ⟨fd, -, rfl⟩ := SessionsMap.closeStream_ok hcl
    refine h.congr ?_ hsame rfl rfl
    by_cases hkk : k = k'
    · subst hkk
      rw [setTask_map, SessionsMap.setTracker_self]
      rfl
    · rw [setTask_map, SessionsMap.setTracker_ne hkk]
  | cleanup hk hsh hcl =>
    have htr := SessionsMap.cleanup_trackers hcl
    exact h.congr (by rw [setTask_map, htr]) hsame rfl rfl
  | _ => exact h.congr rfl hsame rfl rfl

end

/-! ## Every reachable state -/

/-- The sender `i` has selected the stream `k` and not finished its guard. -/
def Uses (x : SocketState S K) (i : S) (k : K) : Prop := ∃ s, x.senders i = .sending s ∧ s.st = k

theorem StreamUse.start (k : K) : (SocketState.start S K).StreamUse k where
  inUse := ⟨(fun h => nomatch h), fun ⟨_, _, h, _⟩ => nomatch h⟩
  unique := fun _ _ _ _ h => nomatch h
  busy := fun _ _ h => nomatch h
  free := fun _ => ⟨rfl, rfl⟩
  sent := rfl
  records := fun _ h => nomatch h

section
variable [DecidableEq S] [DecidableEq K] {client : Option SessionId}

theorem reachable_fresh (h : (sockets S K client).Reachable x) : x.Fresh := by
  refine h.invariant (I := Fresh) ?_ ?_
  · intro y hy k _
    cases hy
    exact ⟨fun ⟨_, h⟩ => (nomatch h), rfl, rfl⟩
  · intro y l y' hr hI hs
    exact hI.step (reachable_table hr) hs.2

theorem reachable_streamUse (h : (sockets S K client).Reachable x) (k : K) : x.StreamUse k := by
  refine h.invariant (I := fun x => x.StreamUse k) ?_ ?_
  · intro y hy
    cases hy
    exact StreamUse.start k
  · intro y l y' hr hI hs
    exact hI.step (reachable_fresh hr) hs.2

/-- With its session there for every sender, no step is undefined. -/
theorem not_undefined_step {l : SocketLabel S K} (ht : x.Table) (hp : x.Present) (hc : x.crash = none)
    (hs : SocketStep client x l x') (what : String) : x'.crash ≠ some (.undefined what) := by
  have hnone : x.crash ≠ some (.undefined what) := by
    rw [hc]
    simp
  cases hs with
  | selectCrash hi hsel =>
    obtain ⟨s, hmem, hs⟩ := SessionsMap.select_crash hsel
    cases ht with
    | empty hs₁ => rw [hs₁] at hmem; cases hmem
    | one s₁ hs₁ hne =>
      rw [hs₁, List.mem_singleton] at hmem
      subst hmem
      exact absurd (hs hs₁) hne
  | completeCrash hi hout hcm =>
    obtain ⟨s, hs, ho⟩ := hp _ ⟨_, _, hi, rfl⟩
    exact absurd ho (SessionsMap.complete_error hcm s hs)
  | @cleanupCrash k sid c hk hsh hcl =>
    have hreg : (x.tasks k).registered = some sid := by rw [hk]; rfl
    cases ht with
    | empty _ hno => rw [hno] at hreg; cases hreg
    | one s hs _ _ _ hsid =>
      obtain rfl := hsid _ _ hreg
      simp only [SessionsMap.cleanup, SessionsMap.find, hs, List.find?_cons, decide_true] at hcl
      split at hcl <;> cases hcl
  | complete hi hout hcm hwk =>
    rw [notify_crash]
    exact hnone
  | startThrows | exchangeAborts | registerThrows | receiveAborts | closeAborts => simp
  | _ => exact hnone

end

end SocketState

open SocketState

/-! ## One frame after another -/

/-- One write may take a whole frame, or fail. -/
theorem TunnelFrameStream.sendStep_once {s : TunnelFrameStream} {buf : TunnelFrameBuffer}
    (h : 0 < buf.size) (ok : Bool) :
    ∃ ev send' out res, s.sendStep buf (TunnelFrameStream.send buf) ev = some (send', out) ∧
      send'.outcome = some res ∧ res.isOk = ok ∧ (ok = true → ev.Smooth id ∧ out = buf.bytes) := by
  cases ok with
  | true => exact ⟨.call (.ok buf.size), .returned, _, .ok (), sendStep_whole h, rfl, rfl, fun _ => ⟨h, rfl⟩⟩
  | false =>
    have hsend : TunnelFrameStream.send buf = .writing 0 .call := if_pos h
    obtain ⟨ex, hex, -⟩ := @TunnelFrameStream.sendStep_error s buf 0 EINTR (by decide) (by decide)
    exact ⟨.call (.error EINTR), .threw ex, [], .error ex, by rw [hsend, hex], rfl, rfl, fun hf => nomatch hf⟩

namespace SocketState

/-- The sender `i` has entered with a frame, takes the stream `st` for it, makes
one write, which takes the frame whole or fails, and ends its guard. -/
structure SendsOnce {S K : Type} [DecidableEq S] [DecidableEq K] (client : Option SessionId) (x : SocketState S K)
    (i : S) (obj : Nat) (buf : TunnelFrameBuffer) (st : K) (ok : Bool) (x₁ : SocketState S K) (ev : IoEvent Nat)
    (x₂ x₃ : SocketState S K) (s : Sending K) (res : Except Exception Unit) : Prop where
  select : SocketStep client x (.select i) x₁
  io : SocketStep client x₁ (.io i ev) x₂
  complete : SocketStep client x₂ (.complete i none) x₃
  crash : x₁.crash = x.crash ∧ x₂.crash = x.crash ∧ x₃.crash = x.crash
  sending : x₂.senders i = .sending s ∧ s.obj = obj ∧ s.buf = buf ∧ s.send.outcome = some res ∧ res.isOk = ok
  senders : x₃.senders = Function.update x.senders i (.returned buf res)
  tasks : x₃.tasks = x.tasks
  interrupted : x₃.interrupted = x.interrupted
  free : (x₃.map.trackers st).inUse = false ∧ (x₃.map.trackers st).stream = (x.map.trackers st).stream
  sent : sentBytes (x₃.sends st) = sentBytes (x.sends st) + if ok then buf.size else 0
  whole : ok = true → ev.Smooth id ∧ x₃.wire = Function.update x.wire st (x.wire st ++ buf.bytes)

section
variable {S K : Type} [DecidableEq S] [DecidableEq K] {x : SocketState S K} {i : S} {st : K}

/-- A `send` may be a single write. -/
theorem sendOnce (client : Option SessionId) {buf buf' : TunnelFrameBuffer} {map : SessionsMap K} {obj : Nat}
    (hi : x.senders i = .entered buf) (hsel : x.map.select buf = .take map obj buf' st)
    (hsize : 0 < buf'.size) (hfd : 0 ≤ (x.map.trackers st).stream.fd.fd) (hno : ¬ x.Shared) (ok : Bool) :
    ∃ x₁ ev x₂ x₃ s res, SendsOnce client x i obj buf' st ok x₁ ev x₂ x₃ s res ∧
      x₃.map.sessions = map.sessions := by
  obtain ⟨s, -, rfl, -, -, -, hmap⟩ := SessionsMap.select_take hsel
  have hsessions : map.sessions = [{ s with nextSeqNum := s.nextSeqNum + 1 }] := by rw [hmap]; rfl
  have hstream : (map.trackers st).stream = (x.map.trackers st).stream := by
    rw [hmap, SessionsMap.take_stream]
    rfl
  have hopen : 0 ≤ (map.trackers st).stream.fd.fd := by rwa [hstream]
  obtain ⟨ev, send', out, res, hstep, hout, hres, hwhole⟩ :=
    TunnelFrameStream.sendStep_once (s := (map.trackers st).stream) hsize ok
  obtain ⟨x₁, hx₁⟩ : ∃ y, y = { x with map }.setSender i
    (.sending ⟨s.obj, buf', st, TunnelFrameStream.send buf', []⟩) :=
    ⟨_, rfl⟩
  obtain ⟨x₂, hx₂⟩ : ∃ y, y = (x₁.put st out).setSender i (.sending ⟨s.obj, buf', st, send', [] ++ out⟩) := ⟨_, rfl⟩
  have hmap₁ : x₁.map = map := by rw [hx₁]; rfl
  have hmap₂ : x₂.map = map := by rw [hx₂, setSender_map, put_map, hmap₁]
  have hi₁ : x₁.senders i = .sending ⟨s.obj, buf', st, TunnelFrameStream.send buf', []⟩ := by rw [hx₁, setSender_self]
  have hi₂ : x₂.senders i = .sending ⟨s.obj, buf', st, send', [] ++ out⟩ := by rw [hx₂, setSender_self]
  have hs₁ : SocketStep client x (.select i) x₁ := hx₁ ▸ .take hi hsel
  have hs₂ : SocketStep client x₁ (.io i ev) x₂ :=
    hx₂ ▸ .io hi₁ (fun hlt => absurd hlt (by rw [hmap₁]; exact Int.not_lt.2 hopen)) (by rw [hmap₁]; exact hstep)
  -- Nobody waits, so the guard wakes nobody.
  have hwake : x₂.Wakes s.obj none := by
    intro j b t hj
    rw [hx₂, hx₁] at hj
    by_cases hij : j = i
    · subst hij
      rw [setSender_self] at hj
      cases hj
    · rw [setSender_ne hij, put_senders, setSender_ne hij] at hj
      exact hno ⟨j, _, _, _, _, hj⟩
  obtain ⟨m, hm⟩ : ∃ m, map.complete s.obj buf' st res.isOk = .ok m := by simp [SessionsMap.complete, hsessions]
  obtain ⟨-, hmeq⟩ := SessionsMap.complete_ok hm
  have hs₃ : SocketStep client x₂ (.complete i none) _ := .complete hi₂ hout (by rw [hmap₂]; exact hm) hwake
  refine ⟨x₁, ev, x₂, _, ⟨s.obj, buf', st, send', [] ++ out⟩, res, ⟨hs₁, hs₂, hs₃, ?_, ⟨hi₂, rfl, rfl, hout, hres⟩, ?_,
    ?_, ?_, ⟨?_, ?_⟩, ?_, fun hok => ⟨(hwhole hok).1, ?_⟩⟩, ?_⟩ <;> subst hx₂ hx₁
  · exact ⟨rfl, rfl, rfl⟩
  · show Function.update (Function.update (Function.update x.senders i _) i _) i _ = _
    simp only [Function.update_idem]
  · rfl
  · rfl
  · show (m.trackers st).inUse = false
    rw [hmeq, SessionsMap.setTracker_self]
  · show (m.trackers st).stream = _
    rw [hmeq, SessionsMap.setTracker_self]
    exact hstream
  · show sentBytes (Function.update x.sends st (x.sends st ++ [⟨i, buf'.bytes, [] ++ out, res.isOk⟩]) st) = _
    rw [Function.update_self]
    cases hok : ok <;> simp [sentBytes, hres, hok, TunnelFrameBuffer.bytes_length]
  · rw [← (hwhole hok).2]
    rfl
  · show m.sessions = _
    rw [hmeq, SessionsMap.setTracker_sessions]

end

end SocketState

/-- **A stream has one user at a time.** In every state of a run that erases no
session under a sender, and for every stream: it is in use exactly when one
sender has it, and never has two; `bytesSending` is that sender's frame, or
zero; `bytesSent` counts the bytes of the frames whose send returned, as a
64-bit number; and its bytes are those of the sends so far, each the first bytes of its frame, and then of the
one under way. No step of such a run is undefined. -/
theorem stream_exclusive {S K : Type} [DecidableEq S] [DecidableEq K] {client : Option SessionId}
    {tr : List (Machine.Transition (SocketState S K) (SocketLabel S K))} {x : SocketState S K}
    (h : (sockets S K client).Run tr x) (hC : ∀ t ∈ tr, ¬ ErasesUnderSender t) (k : K) :
    ((x.map.trackers k).inUse = true ↔ ∃ i, x.Uses i k) ∧
      (∀ i j, x.Uses i k → x.Uses j k → i = j) ∧
      (∀ i s, x.senders i = .sending s → s.st = k →
        (x.map.trackers k).bytesSending = UInt64.ofNat s.buf.size ∧
          x.wire k = written (x.sends k) ++ s.out ∧ s.out <+: s.buf.bytes) ∧
      ((¬ ∃ i, x.Uses i k) → (x.map.trackers k).bytesSending = 0 ∧
        (x.map.trackers k).bytesSent = UInt64.ofNat (sentBytes (x.sends k)) ∧
        (sentBytes (x.sends k) < 2 ^ 64 → (x.map.trackers k).bytesSent.toNat = sentBytes (x.sends k)) ∧
        x.wire k = written (x.sends k)) ∧
      (∀ r ∈ x.sends k, r.written <+: r.frame ∧ (r.ok = true → r.written = r.frame)) ∧
      ∀ what, x.crash ≠ some (.undefined what) := by
  have hu := reachable_streamUse h.reachable k
  refine ⟨hu.inUse, ?_, ?_, ?_, ?_, ?_⟩
  · intro i j hi hj
    obtain ⟨s, hi, he⟩ := hi
    obtain ⟨s', hj, he'⟩ := hj
    exact hu.unique i j s s' hi hj he he'
  · intro i s hi he
    obtain ⟨h₁, h₂, hok⟩ := hu.busy i s hi he
    exact ⟨h₁, h₂, hok.part⟩
  · intro hno
    have hfree : (x.map.trackers k).inUse = false := by
      cases hi : (x.map.trackers k).inUse with
      | false => rfl
      | true => exact absurd (hu.inUse.1 hi) hno
    obtain ⟨h₁, h₂⟩ := hu.free hfree
    refine ⟨h₁, hu.sent, fun hlt => ?_, h₂⟩
    rw [hu.sent, UInt64.toNat_ofNat', Nat.mod_eq_of_lt hlt]
  · intro r hr
    have hok := hu.records r hr
    unfold SendRecord.Ok at hok
    split at hok
    · rw [hok]
      exact ⟨List.prefix_rfl, fun _ => rfl⟩
    · rename_i hno
      obtain ⟨n, -, ho⟩ := hok
      rw [ho]
      exact ⟨List.take_prefix .., fun hr' => absurd hr' hno⟩
  · obtain ⟨⟨-, hno⟩, -⟩ := h.guarded
      (I := fun y : SocketState S K => y.Present ∧ ∀ what, y.crash ≠ some (.undefined what))
        (C := fun t => ¬ ErasesUnderSender t)
      (by
        intro y hy
        cases hy
        exact ⟨fun obj ⟨i, s, hi, _⟩ => (nomatch hi), fun what h => nomatch h⟩)
      (by
        intro y l y' hr hI hCt hs
        have ht := reachable_table hr
        exact ⟨present_step ht hI.1 hCt hs.2, not_undefined_step ht hI.1 hs.1 hs.2⟩) hC
    exact hno

/-- A sender whose frame went out whole is on the first stream again, with the
first half of its next frame out, and another sender is on the second. -/
theorem stream_exclusive_sending : ∃ tr x, (sockets Bool Bool none).Run tr x ∧ x.Uses false false ∧ x.Uses true true ∧
    ¬ x.Uses true false ∧ (x.map.trackers false).bytesSending = 160 ∧ (x.map.trackers true).bytesSending = 160 ∧
    (x.wire false).length = 240 ∧ (x.sends false).map (·.ok) = [true] := by
  let f : TunnelFrameBuffer := ⟨fun _ => 0xAA, 160⟩
  obtain ⟨tr, hrun, htr⟩ := run_twoStreams Bool ⟨List.replicate 16 7, rfl⟩
  have hrun := hrun.step (l := .call false f) ⟨rfl, .call rfl⟩
  have hrun := hrun.step (l := .select false) ⟨rfl, .take setSender_self rfl⟩
  have hrun := hrun.step (l := .io false (.call (.ok 160))) ⟨rfl, .io setSender_self (fun h => absurd h (by decide))
    (TunnelFrameStream.sendStep_whole (by decide))⟩
  have hrun := hrun.step (l := .complete false none) ⟨rfl, .complete setSender_self rfl rfl (by
    intro j
    cases j <;> simp [setSender, put, twoStreams])⟩
  have hrun := hrun.step (l := .leave false) ⟨rfl, .leave setSender_self⟩
  have hrun := hrun.step (l := .call false f) ⟨rfl, .call setSender_self⟩
  have hrun := hrun.step (l := .select false) ⟨rfl, .take setSender_self rfl⟩
  have hrun := hrun.step (l := .call true f) ⟨rfl, .call rfl⟩
  have hrun := hrun.step (l := .select true) ⟨rfl, .take setSender_self rfl⟩
  have hrun := hrun.step (l := .io false (.call (.ok 80))) ⟨rfl, .io rfl (fun h => absurd h (by decide))
    (TunnelFrameStream.sendStep_first (by decide) (by decide))⟩
  have huse := stream_exclusive hrun (by
    rintro t ht ⟨k, -, -, hl, -⟩
    simp only [List.mem_append, List.mem_singleton] at ht
    rcases ht with (((((((((ht | rfl) | rfl) | rfl) | rfl) | rfl) | rfl) | rfl) | rfl) | rfl) | rfl
    · obtain ⟨_, (⟨_, he⟩ | ⟨_, _, he⟩ | ⟨_, he⟩) | he⟩ := htr t ht <;> (rw [hl] at he; cases he)
    all_goals cases hl)
  obtain ⟨-, hone, hbusy, -⟩ := huse false
  obtain ⟨-, -, hbusy', -⟩ := huse true
  obtain ⟨hbytes, hwire, -⟩ := hbusy false _ rfl rfl
  refine ⟨_, _, hrun, ⟨_, rfl, rfl⟩, ⟨_, rfl, rfl⟩, fun h => ?_, hbytes, (hbusy' true _ rfl rfl).1, ?_, rfl⟩
  · cases hone false true ⟨_, rfl, rfl⟩ h
  · rw [hwire]
    rfl

section
variable {tr : List (Machine.Transition (SocketState Unit Unit) (SocketLabel Unit Unit))} {x : SocketState Unit Unit}

/-- Between two frames on the one stream of a session. -/
structure BetweenFrames (x : SocketState Unit Unit) : Prop where
  crash : x.crash = none
  idle : ∀ i, x.senders i = .idle
  session : ∃ s, x.map.sessions = [s] ∧ s.streams = [()]
  free : (x.map.trackers ()).inUse = false
  isOpen : 0 ≤ (x.map.trackers ()).stream.fd.fd

/-- What the one sender does with the frame `f`, and no cleanup. -/
def OfFrame (f : TunnelFrameBuffer) (t : Machine.Transition (SocketState Unit Unit) (SocketLabel Unit Unit)) : Prop :=
  t.label ≠ .cleanup () ∧ ∀ buf, t.label = .call () buf → buf = f

/-- One more frame goes out whole. -/
theorem BetweenFrames.next (h : (sockets Unit Unit none).Run tr x) (hx : BetweenFrames x) {f : TunnelFrameBuffer}
    (hsize : 0 < f.size) : ∃ tr' x', (sockets Unit Unit none).Run (tr ++ tr') x' ∧ BetweenFrames x' ∧
      (∀ t ∈ tr', OfFrame f t) ∧ sentBytes (x'.sends ()) = sentBytes (x.sends ()) + f.size := by
  obtain ⟨s, hs, hst⟩ := hx.session
  have hsel : x.map.select f = _ := SessionsMap.select_first hs hst hx.free
  obtain ⟨x₁, ev, x₂, x₃, s', res, hsend, hsess⟩ :=
    sendOnce none (x := x.setSender () (.entered f)) setSender_self hsel hsize hx.isOpen (fun ⟨j, _, _, _, _, hj⟩ => by
      rw [setSender_self] at hj; cases hj) true
  obtain ⟨hc₁, hc₂, hc₃⟩ := hsend.crash
  have hrun := h.step (l := .call () f) ⟨hx.crash, .call (hx.idle ())⟩
  have hrun := hrun.step ⟨hx.crash, hsend.select⟩
  have hrun := hrun.step ⟨hc₁.trans hx.crash, hsend.io⟩
  have hrun := hrun.step ⟨hc₂.trans hx.crash, hsend.complete⟩
  have hrun := hrun.step (l := .leave ()) ⟨hc₃.trans hx.crash, .leave (by rw [hsend.senders, Function.update_self])⟩
  simp only [List.append_assoc] at hrun
  refine ⟨_, _, hrun, ⟨hc₃.trans hx.crash, fun _ => setSender_self, ⟨_, hsess, hst⟩, hsend.free.1, ?_⟩, ?_, hsend.sent⟩
  · rw [setSender_map, hsend.free.2]
    exact hx.isOpen
  · simp [OfFrame]

/-- Any number of frames go out whole. -/
theorem exists_frames {f : TunnelFrameBuffer} (hsize : 0 < f.size) (n : Nat) :
    ∃ tr x, (sockets Unit Unit none).Run tr x ∧ BetweenFrames x ∧ (∀ t ∈ tr, OfFrame f t) ∧
      sentBytes (x.sends ()) = n * f.size := by
  induction n with
  | zero =>
    obtain ⟨tr, sid, hrun, htr⟩ := run_oneStream
    refine ⟨tr, _, hrun, ⟨rfl, fun _ => rfl, ⟨_, rfl, rfl⟩, rfl, ?_⟩, fun t ht => ?_, (Nat.zero_mul _).symm⟩
    · show (0 : Int) ≤ 5
      decide
    · rcases htr t ht with (⟨_, he⟩ | ⟨_, _, he⟩ | ⟨_, he⟩) | he <;> simp [OfFrame, he]
  | succ n ih =>
    obtain ⟨tr, x, hrun, hx, hof, hsent⟩ := ih
    obtain ⟨tr', x', hrun', hx', hof', hsent'⟩ := hx.next hrun hsize
    refine ⟨_, x', hrun', hx', fun t ht => ?_, ?_⟩
    · rcases List.mem_append.1 ht with ht | ht
      · exact hof t ht
      · exact hof' t ht
    · rw [hsent', hsent, Nat.succ_mul]

end

/-- After 2^52 frames of 4096 bytes the counter is back at zero. -/
theorem bytesSent_wraps : ∃ f : TunnelFrameBuffer, f.FromWriter ∧ ∃ tr x, (sockets Unit Unit none).Run tr x ∧
    (∀ t ∈ tr, OfFrame f t ∧ ¬ ErasesUnderSender t) ∧ (¬ ∃ i, x.Uses i ()) ∧
    (x.map.trackers ()).bytesSent.toNat ≠ sentBytes (x.sends ()) := by
  obtain ⟨n, hn⟩ : ∃ n : Nat, n = 2 ^ 52 := ⟨_, rfl⟩
  obtain ⟨d, hd⟩ : ∃ d : List UInt8, d.length = 3936 := ⟨List.replicate 3936 7, List.length_replicate⟩
  obtain ⟨f, hf, -, hsize⟩ := fromWriter_of_fits (d := d) (by rw [hd]; decide)
  obtain ⟨tr, x, hrun, hx, hof, hsent⟩ := exists_frames (by omega : 0 < f.size) n
  have htotal : sentBytes (x.sends ()) = 2 ^ 64 := by
    rw [hsent, hsize, hd]
    omega
  refine ⟨f, hf, tr, x, hrun, fun t ht => ⟨hof t ht, fun ⟨k, _, _, hl, _⟩ => (hof t ht).1 hl⟩, fun ⟨i, s, hi, _⟩ => ?_,
    ?_⟩
  · rw [hx.idle i] at hi
    cases hi
  · rw [(reachable_streamUse hrun.reachable ()).sent, htotal]
    decide

end RuralPipe
