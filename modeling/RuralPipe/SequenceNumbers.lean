/-
The sequence numbers that a session hands out.

A sender draws its number as it selects a stream, before it is known what
becomes of the frame (`stamp`). So the numbers drawn of one session object are
1, 2, 3 and so on, and each is with one sender until a `send` ends: then it
was sent whole or it is lost (`ended`). Without lost numbers the ones sent are
consecutive whenever nobody is sending (`sent_consecutive`). The counter is
the object's, so a session that is erased and joined again counts from 1 again.
-/
import Mathlib.Algebra.Order.Group.Multiset
import Mathlib.Tactic.Abel
import RuralPipe.Held
import RuralPipe.StreamSync

namespace RuralPipe

open SocketState Bytes

def TunnelFrameBuffer.seqNum (buf : TunnelFrameBuffer) : UInt64 := (TunnelFrameHeader.cast buf.data).seqNum

@[simp] theorem seqNum_setSequenceNumber (buf : TunnelFrameBuffer) (n : UInt64) :
    (TunnelFrameWriter.setSequenceNumberOnClosedBuffer buf n).seqNum = n := by
  simp [TunnelFrameBuffer.seqNum, TunnelFrameWriter.setSequenceNumberOnClosedBuffer]

/-- The frame with its number, where the selection got as far. -/
def SessionsMap.Selection.frame {K : Type} : Selection K → Option TunnelFrameBuffer
  | .take _ _ buf _ => some buf
  | .wait _ _ buf _ => some buf
  | _ => none

/-- A frame that got its number, and the session as it was before. -/
structure Stamp (K : Type) where
  session : Session K
  frame : TunnelFrameBuffer

/-- The number of a sender's frame, drawn of the session `obj` and neither
sent nor lost yet. -/
def Sender.number {K : Type} (obj : Nat) : Sender K → Option UInt64
  | .waiting o buf _ _ => if o = obj then some buf.seqNum else none
  | .sending s => if s.obj = obj then some s.buf.seqNum else none
  | _ => none

section
variable {S K : Type} [DecidableEq K]

/-- The frame stamped by a transition. -/
def stamp (t : Machine.Transition (SocketState S K) (SocketLabel S K)) : Option (Stamp K) :=
  match t.label with
  | .select i =>
    match t.pre.senders i, t.pre.map.sessions with
    | .entered buf, [session] => (t.pre.map.select buf).frame.map fun frame => { session, frame }
    | _, _ => none
  | _ => none

/-- The number drawn of the session `obj` by a transition. -/
def drawn (obj : Nat) (t : Machine.Transition (SocketState S K) (SocketLabel S K)) : Option UInt64 :=
  (stamp t).bind fun a => if a.session.obj = obj then some a.frame.seqNum else none

/-- The number of the session `obj` whose `send` ends by a transition, if it
returned (`ok`) or if it threw. -/
def ended (obj : Nat) (ok : Bool) (t : Machine.Transition (SocketState S K) (SocketLabel S K)) : Option UInt64 :=
  match t.label with
  | .complete i _ =>
    match t.pre.senders i with
    | .sending s =>
      match s.send.outcome with
      | some res => if s.obj = obj ∧ res.isOk = ok then some s.buf.seqNum else none
      | none => none
    | _ => none
  | _ => none

/-- The numbers of the frames wholly sent on the session `obj`, in order. -/
def sentNumbers (obj : Nat) (tr : List (Machine.Transition (SocketState S K) (SocketLabel S K))) : List UInt64 :=
  tr.filterMap (ended obj true)

end

/-- The numbers 1, 2, ..., n in some order, each once. -/
def Consecutive (ns : List UInt64) : Prop := ∃ n, (ns.map UInt64.toNat).Perm ((List.range n).map (· + 1))

/-! ## What a step does to the numbers -/

section
variable {S K : Type} {x : SocketState S K} {obj : Nat} {i : S} {a : Sender K}

theorem Sender.number_sending {s : Sending K} :
    (Sender.sending s).number obj = if s.obj = obj then some s.buf.seqNum else none := rfl

variable [DecidableEq S]

theorem number_setSender (h : a.number obj = (x.senders i).number obj) (j : S) :
    ((x.setSender i a).senders j).number obj = (x.senders j).number obj := by
  by_cases hj : j = i
  · subst hj
    rw [setSender_self, h]
  · rw [setSender_ne hj]

@[simp] theorem number_notify (w : Option S) (j : S) :
    ((x.notify w).senders j).number obj = (x.senders j).number obj := by
  rcases x.notify_cases w with he | ⟨i, o, buf, st, n, hi, he⟩
  · rw [he]
  · rw [he]
    exact number_setSender (by rw [hi]; rfl) j

variable [DecidableEq K]

omit [DecidableEq S] in
theorem stamp_select {x' : SocketState S K} {buf : TunnelFrameBuffer} {s : Session K} (hi : x.senders i = .entered buf)
    (hs : x.map.sessions = [s]) :
    stamp ⟨x, .select i, x'⟩ = (x.map.select buf).frame.map fun frame => { session := s, frame } := by
  simp only [stamp, hi, hs]

omit [DecidableEq S] in
/-- A selection without a frame stamps none. -/
theorem stamp_none (x' : SocketState S K) {buf : TunnelFrameBuffer} (hi : x.senders i = .entered buf)
    (hf : (x.map.select buf).frame = none) : stamp ⟨x, .select i, x'⟩ = none := by
  simp only [stamp, hi]
  split
  · rename_i heq _
    cases heq
    rw [hf]
    rfl
  · rfl

/-- A step does one of four things to the numbers of a session: nothing, a
number is drawn, a number's `send` ends, or its end finds the session gone. -/
inductive NumberStep (obj : Nat) (t : Machine.Transition (SocketState S K) (SocketLabel S K)) : Prop
  | quiet : drawn obj t = none → (∀ ok, ended obj ok t = none) →
      (∀ j, (t.post.senders j).number obj = (t.pre.senders j).number obj) → NumberStep obj t
  | draw (i : S) (n : UInt64) : drawn obj t = some n → (∀ ok, ended obj ok t = none) →
      (t.pre.senders i).number obj = none → (t.post.senders i).number obj = some n →
      (∀ j, j ≠ i → (t.post.senders j).number obj = (t.pre.senders j).number obj) → NumberStep obj t
  | finish (i : S) (n : UInt64) (ok : Bool) : drawn obj t = none → ended obj ok t = some n →
      ended obj (!ok) t = none → (t.pre.senders i).number obj = some n → (t.post.senders i).number obj = none →
      (∀ j, j ≠ i → (t.post.senders j).number obj = (t.pre.senders j).number obj) → NumberStep obj t
  | gone (i : S) (n : UInt64) : t.post.crash ≠ none → (t.post.senders i).number obj = some n → NumberStep obj t

/-- A selection that got a session. -/
theorem NumberStep.select {x' : SocketState S K} {buf buf' : TunnelFrameBuffer} {s : Session K}
    (hi : x.senders i = .entered buf) (hs : x.map.sessions = [s]) (hf : (x.map.select buf).frame = some buf')
    (ha : a.number obj = if s.obj = obj then some buf'.seqNum else none)
    (hx : x'.senders = (x.setSender i a).senders) : NumberStep obj ⟨x, .select i, x'⟩ := by
  have hstamp : stamp ⟨x, .select i, x'⟩ = some ⟨s, buf'⟩ := by rw [stamp_select hi hs, hf]; rfl
  have hnone : (x.senders i).number obj = none := by rw [hi]; rfl
  by_cases hobj : s.obj = obj
  · refine .draw i buf'.seqNum (by simp [drawn, hstamp, hobj]) (fun _ => rfl) hnone ?_ fun j hj => ?_
    · show (x'.senders i).number obj = some buf'.seqNum
      rw [hx, setSender_self, ha, if_pos hobj]
    · show (x'.senders j).number obj = _
      rw [hx, setSender_ne hj]
  · refine .quiet (by simp [drawn, hstamp, hobj]) (fun _ => rfl) fun j => ?_
    show (x'.senders j).number obj = _
    rw [hx]
    exact number_setSender (by rw [ha, if_neg hobj, hnone]) j

/-- The end of a `send`, whose guard finds the session. -/
theorem NumberStep.complete {x' : SocketState S K} {s : Sending K} {res : Except Exception Unit} {wake : Option S}
    (hi : x.senders i = .sending s) (hout : s.send.outcome = some res) (ha : a.number obj = none)
    (hx : ∀ j, (x'.senders j).number obj = ((x.setSender i a).senders j).number obj) :
    NumberStep obj ⟨x, .complete i wake, x'⟩ := by
  have hended : ∀ ok, ended obj ok ⟨x, .complete i wake, x'⟩ =
      if s.obj = obj ∧ res.isOk = ok then some s.buf.seqNum else none := by
    intro ok
    simp only [ended, hi, hout]
  have hnumber : (x.senders i).number obj = if s.obj = obj then some s.buf.seqNum else none := by
    rw [hi, Sender.number_sending]
  by_cases hobj : s.obj = obj
  · refine .finish i s.buf.seqNum res.isOk rfl (by simp [hended, hobj]) (by simp [hended]) ?_ ?_ fun j hj => ?_
    · exact hnumber.trans (if_pos hobj)
    · exact (hx i).trans (by rw [setSender_self, ha])
    · exact (hx j).trans (by rw [setSender_ne hj])
  · refine .quiet rfl (fun ok => by simp [hended, hobj]) fun j => (hx j).trans ?_
    exact number_setSender (by rw [ha, hnumber, if_neg hobj]) j

theorem numberStep {client : Option SessionId} {l : SocketLabel S K} {x' : SocketState S K}
    (hs : SocketStep client x l x') (obj : Nat) : NumberStep obj ⟨x, l, x'⟩ := by
  have hmove : ∀ {i : S} {a : Sender K}, (x.senders i).number obj = none → a.number obj = none →
      x'.senders = (x.setSender i a).senders → drawn obj ⟨x, l, x'⟩ = none →
      (∀ ok, ended obj ok ⟨x, l, x'⟩ = none) → NumberStep obj ⟨x, l, x'⟩ := by
    intro i a hi ha hx hd he
    refine .quiet hd he fun j => ?_
    show (x'.senders j).number obj = _
    rw [hx]
    exact number_setSender (ha.trans hi.symm) j
  cases hs with
  | call hi => exact hmove (by rw [hi]; rfl) rfl rfl rfl fun _ => rfl
  | notYetReady hi hsel =>
    exact hmove (by rw [hi]; rfl) rfl rfl (by rw [drawn, stamp_none _ hi (by rw [hsel]; rfl)]; rfl) fun _ => rfl
  | selectCrash hi hsel =>
    exact .quiet (by rw [drawn, stamp_none _ hi (by rw [hsel]; rfl)]; rfl) (fun _ => rfl) fun _ => rfl
  | @take i buf map obj' buf' st hi hsel =>
    obtain ⟨s, hsess, rfl, -⟩ := SessionsMap.select_take hsel
    exact .select hi hsess (by rw [hsel]; rfl) rfl rfl
  | @wait i buf map obj' buf' st hi hsel =>
    obtain ⟨s, hsess, rfl, -⟩ := SessionsMap.select_wait hsel
    exact .select hi hsess (by rw [hsel]; rfl) rfl rfl
  | recheckTake hi hre =>
    exact .quiet rfl (fun _ => rfl) fun j => number_setSender (x := { x with map := _ }) (by rw [hi]; rfl) j
  | recheckWait hi hre => exact .quiet rfl (fun _ => rfl) fun j => number_setSender (by rw [hi]; rfl) j
  | @io i s ev send out hi hal hst =>
    exact .quiet rfl (fun _ => rfl) fun j => number_setSender (x := x.put s.st out) (by rw [put_senders, hi]; rfl) j
  | @complete i s res map wake hi hout hc hwk =>
    exact .complete (a := .returned s.buf res) hi hout rfl fun j => number_notify wake j
  | @completeCrash i s res c wake hi hout hc =>
    by_cases hobj : s.obj = obj
    · exact .gone i s.buf.seqNum (by simp)
        (by show (x.senders i).number obj = _; rw [hi, Sender.number_sending, if_pos hobj])
    · exact .quiet rfl (fun ok => by simp [ended, hi, hout, hobj]) fun _ => rfl
  | leave hi => exact hmove (by rw [hi]; rfl) rfl rfl rfl fun _ => rfl
  | _ => exact .quiet rfl (fun _ => rfl) fun _ => rfl

omit [DecidableEq S] [DecidableEq K] in
/-- What one transition adds to a bag of numbers. -/
theorem coe_filterMap_append {f : Machine.Transition (SocketState S K) (SocketLabel S K) → Option UInt64}
    (tr : List (Machine.Transition (SocketState S K) (SocketLabel S K))) (t) :
    (((tr ++ [t]).filterMap f : List UInt64) : Multiset UInt64) =
      (tr.filterMap f : List UInt64) + (match f t with | some n => {n} | none => 0) := by
  rw [List.filterMap_append, ← Multiset.coe_add]
  cases hf : f t <;> simp [hf]

/-- What is drawn of a session is sent, lost, or with a sender. -/
theorem numbers_accounted {client : Option SessionId}
    {tr : List (Machine.Transition (SocketState S K) (SocketLabel S K))}
    (h : (sockets S K client).Run tr x) (obj : Nat) :
    (∃ m, Held (fun i => (x.senders i).number obj) m ∧
      ((tr.filterMap (drawn obj) : List UInt64) : Multiset UInt64) =
        (tr.filterMap (ended obj true) : List UInt64) + (tr.filterMap (ended obj false) : List UInt64) + m) ∨
    ∃ i n, x.crash ≠ none ∧ (x.senders i).number obj = some n := by
  induction h with
  | init hi =>
    cases hi
    exact .inl ⟨0, .none fun _ => rfl, rfl⟩
  | @step tr x l x' hr hs ih =>
    obtain ⟨m, hm, hsum⟩ := ih.resolve_right fun ⟨_, _, hc, _⟩ => hc hs.1
    simp only [coe_filterMap_append, hsum]
    cases numberStep hs.2 obj with
    | quiet hd he hj => exact .inl ⟨m, hm.congr hj, by simp [hd, he]⟩
    | draw i n hd he hi ha hj =>
      refine .inl ⟨n ::ₘ m, hm.give hi ha hj, ?_⟩
      simp only [hd, he, ← Multiset.singleton_add]
      abel
    | finish i n ok hd he he' hi ha hj =>
      obtain ⟨m', rfl, hm'⟩ := hm.giveBack hi ha hj
      refine .inl ⟨m', hm', ?_⟩
      cases ok
      · simp only [hd, he, show ended obj true _ = none from he', ← Multiset.singleton_add]
        abel
      · simp only [hd, he, show ended obj false _ = none from he', ← Multiset.singleton_add]
        abel
    | gone i n hc hi => exact .inr ⟨i, n, hc, hi⟩

/-! ## The counter -/

/-- A step stamps a frame with the number its one session has next; or it
stamps none, and then every session it leaves is one that was there, or new. -/
inductive CounterStep (t : Machine.Transition (SocketState S K) (SocketLabel S K)) : Prop
  | stamp (s : Session K) (frame : TunnelFrameBuffer) : stamp t = some ⟨s, frame⟩ → frame.seqNum = s.nextSeqNum →
      t.pre.map.sessions = [s] → t.post.map.sessions = [{ s with nextSeqNum := s.nextSeqNum + 1 }] →
      t.post.map.created = t.pre.map.created → CounterStep t
  | same : stamp t = none → t.post.map.created = t.pre.map.created →
      (∀ s' ∈ t.post.map.sessions, ∃ s ∈ t.pre.map.sessions,
        s'.obj = s.obj ∧ s'.sessionId = s.sessionId ∧ s'.nextSeqNum = s.nextSeqNum) → CounterStep t
  | new (sid : SessionId) (k : K) : stamp t = none → t.pre.map.sessions = [] →
      t.post.map.created = t.pre.map.created + 1 →
      t.post.map.sessions = [⟨t.pre.map.created, sid, kInitFrameSeqNum + 1, [k]⟩] → CounterStep t

omit [DecidableEq S] in
theorem CounterStep.kept {t : Machine.Transition (SocketState S K) (SocketLabel S K)} (hst : RuralPipe.stamp t = none)
    (hc : t.post.map.created = t.pre.map.created) (hs : t.post.map.sessions = t.pre.map.sessions) : CounterStep t :=
  .same hst hc fun s hmem => ⟨s, hs ▸ hmem, rfl, rfl, rfl⟩

theorem counterStep {client : Option SessionId} {l : SocketLabel S K} {x' : SocketState S K}
    (hs : SocketStep client x l x') : CounterStep ⟨x, l, x'⟩ := by
  cases hs with
  | notYetReady hi hsel => exact .kept (stamp_none _ hi (by rw [hsel]; rfl)) rfl rfl
  | selectCrash hi hsel => exact .kept (stamp_none _ hi (by rw [hsel]; rfl)) rfl rfl
  | @take i buf map obj' buf' st hi hsel =>
    obtain ⟨s, hsess, -, -, -, rfl, rfl⟩ := SessionsMap.select_take hsel
    exact .stamp s _ (by rw [stamp_select hi hsess, hsel]; rfl) (by simp) hsess rfl rfl
  | @wait i buf map obj' buf' st hi hsel =>
    obtain ⟨s, hsess, -, -, -, rfl, rfl⟩ := SessionsMap.select_wait hsel
    exact .stamp s _ (by rw [stamp_select hi hsess, hsel]; rfl) (by simp) hsess rfl rfl
  | recheckTake hi hre =>
    obtain ⟨-, rfl⟩ := SessionsMap.recheck_some hre
    exact .kept rfl rfl rfl
  | complete hi hout hc hwk =>
    obtain ⟨-, rfl⟩ := SessionsMap.complete_ok hc
    exact .kept rfl (by simp [record]) (by simp)
  | @register k stream ier map hk hsh hreg =>
    have hcr := SessionsMap.register_created hreg
    rcases SessionsMap.register_sessions hreg with ⟨hnil, hs'⟩ | ⟨s, hf, hs'⟩
    · exact .new ier.sessionId k rfl hnil (by rw [if_pos hnil] at hcr; exact hcr) hs'
    · have hne : x.map.sessions ≠ [] := List.ne_nil_of_mem (List.mem_of_find?_eq_some hf)
      refine .same rfl (by rw [if_neg hne] at hcr; exact hcr) fun s' hmem => ?_
      rw [setTask_map, hs'] at hmem
      obtain ⟨s₀, hs₀, rfl⟩ := List.mem_map.1 hmem
      exact ⟨s₀, hs₀, by split <;> simp⟩
  | close hk hcl =>
    obtain ⟨fd, -, rfl⟩ := SessionsMap.closeStream_ok hcl
    exact .kept rfl rfl rfl
  | cleanup hk hsh hcl =>
    have hcr := SessionsMap.cleanup_created hcl
    obtain ⟨s, -, ⟨-, hs'⟩ | ⟨-, hs'⟩⟩ := SessionsMap.cleanup_sessions hcl
    · refine .same rfl hcr fun s' hmem => ?_
      rw [setTask_map, hs'] at hmem
      exact ⟨s', (List.mem_filter.1 hmem).1, rfl, rfl, rfl⟩
    · refine .same rfl hcr fun s' hmem => ?_
      rw [setTask_map, hs'] at hmem
      obtain ⟨s₀, hs₀, rfl⟩ := List.mem_map.1 hmem
      exact ⟨s₀, hs₀, by split <;> simp⟩
  | _ => exact .kept rfl rfl rfl

/-- The numbers 1, 2, ..., n, as a session counts them. -/
def counted (n : Nat) : List UInt64 := (List.range n).map fun j => UInt64.ofNat (j + 1)

theorem counted_succ (n : Nat) : counted (n + 1) = counted n ++ [UInt64.ofNat (n + 1)] := by
  simp [counted, List.range_succ]

/-- Every session object has counted its numbers, and what it says next is
the number after. -/
structure Counted (tr : List (Machine.Transition (SocketState S K) (SocketLabel S K)))
    (x : SocketState S K) : Prop where
  next : ∀ s ∈ x.map.sessions, s.obj < x.map.created ∧
    s.nextSeqNum = UInt64.ofNat ((tr.filterMap (drawn s.obj)).length + 1)
  unborn : ∀ obj, x.map.created ≤ obj → tr.filterMap (drawn obj) = []
  all : ∀ obj, tr.filterMap (drawn obj) = counted (tr.filterMap (drawn obj)).length

omit [DecidableEq S] in
theorem drawn_append {tr : List (Machine.Transition (SocketState S K) (SocketLabel S K))} {t} (hst : stamp t = none)
    (obj : Nat) : (tr ++ [t]).filterMap (drawn obj) = tr.filterMap (drawn obj) := by
  simp [drawn, hst]

omit [DecidableEq S] in
theorem drawn_stamp {tr : List (Machine.Transition (SocketState S K) (SocketLabel S K))} {t} {s : Session K}
    {frame : TunnelFrameBuffer} (hst : stamp t = some ⟨s, frame⟩) (obj : Nat) :
    (tr ++ [t]).filterMap (drawn obj) = tr.filterMap (drawn obj) ++ if s.obj = obj then [frame.seqNum] else [] := by
  by_cases hobj : s.obj = obj <;> simp [drawn, hst, hobj]

theorem run_counted {client : Option SessionId} {tr : List (Machine.Transition (SocketState S K) (SocketLabel S K))}
    (h : (sockets S K client).Run tr x) : Counted tr x := by
  induction h with
  | init hi =>
    cases hi
    exact ⟨fun _ hmem => (List.not_mem_nil hmem).elim, fun _ _ => rfl, fun _ => rfl⟩
  | @step tr x l x' hr hs ih =>
    cases counterStep hs.2 with
    | same hst hcr hkept =>
      refine ⟨fun s' hmem => ?_, fun obj ho => ?_, fun obj => ?_⟩
      · obtain ⟨s, hs, hobj, -, hnext⟩ := hkept s' hmem
        rw [drawn_append hst, hobj, hnext]
        exact ⟨hcr ▸ (ih.next s hs).1, (ih.next s hs).2⟩
      · rw [drawn_append hst]
        exact ih.unborn obj (hcr ▸ ho)
      · rw [drawn_append hst]
        exact ih.all obj
    | new sid k hst hnil hcr hs' =>
      simp only at hcr hs'
      refine ⟨fun s' hmem => ?_, fun obj ho => ?_, fun obj => ?_⟩
      · rw [hs', List.mem_singleton] at hmem
        subst hmem
        rw [drawn_append hst, ih.unborn _ (Nat.le_refl _), hcr]
        exact ⟨Nat.lt_succ_self _, rfl⟩
      · rw [drawn_append hst]
        exact ih.unborn obj (by omega)
      · rw [drawn_append hst]
        exact ih.all obj
    | stamp s frame hst hseq hs₁ hs' hcr =>
      simp only at hs₁ hs' hcr
      obtain ⟨hlt, hnext⟩ := ih.next s (by simp [hs₁])
      refine ⟨fun s' hmem => ?_, fun obj ho => ?_, fun obj => ?_⟩
      · rw [hs', List.mem_singleton] at hmem
        subst hmem
        rw [drawn_stamp hst, if_pos rfl, List.length_append, hcr]
        refine ⟨hlt, ?_⟩
        show s.nextSeqNum + 1 = _
        rw [hnext]
        simp [UInt64.ofNat_add]
      · rw [drawn_stamp hst, if_neg (by omega), List.append_nil]
        exact ih.unborn obj (by omega)
      · by_cases hobj : s.obj = obj
        · subst hobj
          rw [drawn_stamp hst, if_pos rfl, List.length_append, List.length_singleton,
            counted_succ, ← hnext, ← ih.all, hseq]
        · rw [drawn_stamp hst, if_neg hobj, List.append_nil]
          exact ih.all obj

omit [DecidableEq S] in
theorem stamp_some {t : Machine.Transition (SocketState S K) (SocketLabel S K)} {a : Stamp K} (h : stamp t = some a) :
    ∃ i buf, t.label = .select i ∧ t.pre.senders i = .entered buf ∧ t.pre.map.sessions = [a.session] := by
  unfold stamp at h
  split at h
  · rename_i i hl
    split at h
    · rename_i buf s hi hs
      obtain ⟨frame, -, rfl⟩ := Option.map_eq_some_iff.1 h
      exact ⟨i, buf, hl, hi, hs⟩
    · cases h
  · cases h

omit [DecidableEq S] in
theorem drawn_some {t : Machine.Transition (SocketState S K) (SocketLabel S K)} {obj : Nat} {n : UInt64} :
    drawn obj t = some n ↔ ∃ a, stamp t = some a ∧ a.session.obj = obj ∧ a.frame.seqNum = n := by
  simp [drawn, Option.bind_eq_some_iff]

omit [DecidableEq S] in
/-- A session draws no more numbers than there are frames. -/
theorem drawn_length (obj : Nat) (tr : List (Machine.Transition (SocketState S K) (SocketLabel S K))) :
    (tr.filterMap (drawn obj)).length ≤ (tr.filterMap stamp).length := by
  have hbind : tr.filterMap (drawn obj) =
      (tr.filterMap stamp).filterMap fun a => if a.session.obj = obj then some a.frame.seqNum else none :=
    List.filterMap_filterMap.symm
  rw [hbind]
  exact List.length_filterMap_le _ _

/-- A frame is stamped with what its session has next. -/
theorem stamp_next {client : Option SessionId} {t : Machine.Transition (SocketState S K) (SocketLabel S K)}
    {a : Stamp K} (hs : SocketStep client t.pre t.label t.post) (h : stamp t = some a) :
    a.frame.seqNum = a.session.nextSeqNum ∧
      t.post.map.sessions = [{ a.session with nextSeqNum := a.session.nextSeqNum + 1 }] := by
  cases counterStep hs with
  | stamp s frame hst hseq hs₁ hs' hcr =>
    obtain rfl : a = ⟨s, frame⟩ := Option.some_inj.1 (h.symm.trans hst)
    exact ⟨hseq, hs'⟩
  | same hst => exact absurd (h.symm.trans hst) (by simp)
  | new sid k hst => exact absurd (h.symm.trans hst) (by simp)

end

theorem mem_counted {n : Nat} {m : UInt64} : m ∈ counted n ↔ ∃ j, j < n ∧ m = UInt64.ofNat (j + 1) := by
  simp [counted, eq_comm]

/-- Short of 2^64 numbers, the counter does not wrap around. -/
theorem counted_toNat {n : Nat} (h : n < 2 ^ 64) : (counted n).map UInt64.toNat = (List.range n).map (· + 1) := by
  rw [counted, List.map_map]
  refine List.map_congr_left fun j hj => ?_
  have hj := List.mem_range.1 hj
  simp only [Function.comp_apply, UInt64.toNat_ofNat']
  exact Nat.mod_eq_of_lt (by omega)

theorem zero_mem_counted {n : Nat} (h : 2 ^ 64 ≤ n) : (0 : UInt64) ∈ counted n :=
  mem_counted.2 ⟨2 ^ 64 - 1, by omega, by decide⟩

/-! ## Runs -/

section
variable {S K : Type} [DecidableEq S] [DecidableEq K] {client : Option SessionId} {x : SocketState S K} {i : S}
  {f : TunnelFrameBuffer} {s : Session K} {st : K} {ks : List K}

/-- A sender's way through the sockets, with a single write that takes the
frame whole or fails. -/
theorem run_send {tr : List (Machine.Transition (SocketState S K) (SocketLabel S K))}
    (h : (sockets S K client).Run tr x) (hc : x.crash = none) (hi : ∀ j, x.senders j = .idle)
    (hs : x.map.sessions = [s]) (hst : s.streams = st :: ks) (hfree : (x.map.trackers st).inUse = false)
    (hfd : 0 ≤ (x.map.trackers st).stream.fd.fd) (hsize : 0 < f.size) (i : S) (ok : Bool) :
    ∃ tr' x', (sockets S K client).Run (tr ++ tr') x' ∧ x'.crash = none ∧ (∀ j, x'.senders j = .idle) ∧
      x'.map.sessions = [{ s with nextSeqNum := s.nextSeqNum + 1 }] ∧ x'.tasks = x.tasks ∧
      (x'.map.trackers st).inUse = false ∧ (x'.map.trackers st).stream = (x.map.trackers st).stream ∧
      tr'.filterMap stamp = [⟨s, TunnelFrameWriter.setSequenceNumberOnClosedBuffer f s.nextSeqNum⟩] ∧
      tr'.filterMap (ended s.obj ok) = [s.nextSeqNum] ∧ tr'.filterMap (ended s.obj (!ok)) = [] := by
  have hno : ∀ j, (x.setSender i (.entered f)).senders j = .idle ∨ j = i := by
    intro j
    by_cases hij : j = i
    · exact .inr hij
    · exact .inl (by rw [setSender_ne hij, hi])
  have hsel : x.map.select f = _ := SessionsMap.select_first hs hst hfree
  obtain ⟨x₁, ev, x₂, x₃, s', res, hsend, hsess⟩ :=
    sendOnce client (x := x.setSender i (.entered f)) setSender_self hsel hsize hfd (fun ⟨j, _, _, _, _, hj⟩ => by
      rcases hno j with h | rfl
      · rw [h] at hj; cases hj
      · rw [setSender_self] at hj; cases hj) ok
  obtain ⟨hc₁, hc₂, hc₃⟩ := hsend.crash
  obtain ⟨hi₂, hobj, hbuf, hout, hres⟩ := hsend.sending
  have hrun := h.step (l := .call i f) ⟨hc, .call (hi i)⟩
  have hrun := hrun.step ⟨hc, hsend.select⟩
  have hrun := hrun.step ⟨hc₁.trans hc, hsend.io⟩
  have hrun := hrun.step ⟨hc₂.trans hc, hsend.complete⟩
  have hrun := hrun.step (l := .leave i) ⟨hc₃.trans hc, .leave (by rw [hsend.senders, Function.update_self])⟩
  simp only [List.append_assoc] at hrun
  have hended : ∀ b, ended s.obj b ⟨x₂, .complete i none, x₃⟩ = if b = ok then some s.nextSeqNum else none := by
    intro b
    simp [ended, hi₂, hout, hres, hobj, hbuf, eq_comm]
  refine ⟨_, _, hrun, hc₃.trans hc, fun j => ?_, hsess, hsend.tasks, hsend.free.1, hsend.free.2, ?_, ?_, ?_⟩
  · by_cases hij : j = i
    · subst hij
      rw [setSender_self]
    · rw [setSender_ne hij, hsend.senders, Function.update_of_ne hij, setSender_ne hij, hi]
  · have hstamp : stamp ⟨x.setSender i (.entered f), .select i, x₁⟩ =
        some ⟨s, TunnelFrameWriter.setSequenceNumberOnClosedBuffer f s.nextSeqNum⟩ := by
      rw [stamp_select setSender_self hs]
      exact congrArg (fun a => (SessionsMap.Selection.frame a).map _) hsel
    show List.filterMap stamp (_ :: _ :: _ :: _ :: _ :: []) = _
    rw [List.filterMap_cons_none rfl, List.filterMap_cons_some hstamp, List.filterMap_cons_none rfl,
      List.filterMap_cons_none rfl, List.filterMap_cons_none rfl, List.filterMap_nil]
  · show List.filterMap (ended s.obj ok) (_ :: _ :: _ :: _ :: _ :: []) = _
    rw [List.filterMap_cons_none rfl, List.filterMap_cons_none rfl, List.filterMap_cons_none rfl,
      List.filterMap_cons_some ((hended ok).trans (if_pos rfl)), List.filterMap_cons_none rfl, List.filterMap_nil]
  · show List.filterMap (ended s.obj (!ok)) (_ :: _ :: _ :: _ :: _ :: []) = _
    rw [List.filterMap_cons_none rfl, List.filterMap_cons_none rfl, List.filterMap_cons_none rfl,
      List.filterMap_cons_none ((hended (!ok)).trans (if_neg (by simp))), List.filterMap_cons_none rfl,
      List.filterMap_nil]

/-- A session's only task may end, and takes the session with it. -/
theorem run_erased {tr : List (Machine.Transition (SocketState S K) (SocketLabel S K))} {k : K}
    (h : (sockets S K client).Run tr x) (hc : x.crash = none) (hi : ∀ j, x.senders j = .idle)
    (hk : x.tasks k = .receiving s.sessionId) (hs : x.map.sessions = [s]) (hst : s.streams = [k])
    (hfd : 0 < (x.map.trackers k).stream.fd.fd) :
    ∃ tr' x', (sockets S K client).Run (tr ++ tr') x' ∧ x'.crash = none ∧ x'.senders = x.senders ∧
      x'.map.sessions = [] ∧ x'.map.created = x.map.created ∧ (∀ k', k' ≠ k → x'.tasks k' = x.tasks k') ∧
      tr'.filterMap stamp = [] := by
  have hno : ¬ x.Shared := by
    rintro ⟨j, _, _, _, _, hj⟩
    rw [hi] at hj
    cases hj
  obtain ⟨m, hm⟩ : ∃ m, x.map.closeStream k = .ok m := by
    simp [SessionsMap.closeStream, FileDescriptor.close, hfd]
  obtain ⟨fd, -, hmeq⟩ := SessionsMap.closeStream_ok hm
  have hms : m.sessions = [s] := by rw [hmeq, SessionsMap.setTracker_sessions, hs]
  obtain ⟨m', hm'⟩ : ∃ m', m.cleanup k s.sessionId = .ok m' := by
    simp [SessionsMap.cleanup, SessionsMap.find, hms, hst]
  obtain ⟨tr', hrun, hl, -⟩ := run_left h hc hk hno ⟨.system, "Connection reset"⟩ hm hm'
  refine ⟨tr', _, hrun, hc, rfl, ?_, ?_, fun k' hk' => setTask_ne hk', List.filterMap_eq_nil_iff.2 fun t ht => ?_⟩
  · obtain ⟨s', hf, ⟨-, hs'⟩ | ⟨hne, -⟩⟩ := SessionsMap.cleanup_sessions hm'
    · refine hs'.trans ?_
      simp [hms]
    · rw [SessionsMap.find, hms] at hf
      obtain rfl : s = s' := by simpa using hf
      simp [hst] at hne
  · exact (SessionsMap.cleanup_created hm').trans (by rw [hmeq]; rfl)
  · have hmem := List.mem_map_of_mem (f := (·.label)) ht
    rw [hl] at hmem
    simp only [List.mem_cons, List.not_mem_nil, or_false] at hmem
    rcases hmem with he | he | he <;> simp [stamp, he]

omit [DecidableEq S] in
/-- Nothing is stamped, and no `send` ends, while a task joins. -/
theorem quiet_of_joins {tr : List (Machine.Transition (SocketState S K) (SocketLabel S K))} {k : K}
    (h : ∀ t ∈ tr, t.label.Prepares k ∨ t.label = .register k) :
    tr.filterMap stamp = [] ∧ ∀ obj ok, tr.filterMap (ended obj ok) = [] := by
  have hlabel : ∀ t ∈ tr, stamp t = none ∧ ∀ obj ok, ended obj ok t = none := by
    intro t ht
    rcases h t ht with (⟨_, he⟩ | ⟨_, _, he⟩ | ⟨_, he⟩) | he <;> simp [stamp, ended, he]
  exact ⟨List.filterMap_eq_nil_iff.2 fun t ht => (hlabel t ht).1,
    fun obj ok => List.filterMap_eq_nil_iff.2 fun t ht => (hlabel t ht).2 obj ok⟩

end

/-! ## Consecutive numbers -/

section
variable {S K : Type} [DecidableEq S] [DecidableEq K]

/-- The end of a `send` on the session `obj` that threw. -/
def LosesNumber (obj : Nat) (t : Machine.Transition (SocketState S K) (SocketLabel S K)) : Prop :=
  ∃ i wake s ex, t.label = .complete i wake ∧ t.pre.senders i = .sending s ∧ s.obj = obj ∧ s.send = .threw ex

/-- A selection on the session `obj` when its counter has come round to zero. -/
def WrapsAround (obj : Nat) (t : Machine.Transition (SocketState S K) (SocketLabel S K)) : Prop :=
  ∃ i buf s, t.label = .select i ∧ t.pre.senders i = .entered buf ∧ t.pre.map.sessions = [s] ∧ s.obj = obj ∧
    s.nextSeqNum = 0

omit [DecidableEq S] [DecidableEq K] in
theorem losesNumber_of_ended {obj : Nat} {t : Machine.Transition (SocketState S K) (SocketLabel S K)} {n : UInt64}
    (h : ended obj false t = some n) : LosesNumber obj t := by
  unfold ended at h
  split at h
  · rename_i i wake hl
    split at h
    · rename_i s hi
      cases hsend : s.send with
      | writing _ _ => simp [hsend, Send.outcome] at h
      | returned => simp [hsend, Send.outcome, Except.isOk, Except.toBool] at h
      | threw ex =>
        simp only [hsend, Send.outcome] at h
        split at h
        · rename_i ho
          exact ⟨i, wake, s, ex, hl, hi, ho.1, hsend⟩
        · cases h
    · cases h
  · cases h

variable {client : Option SessionId} {tr : List (Machine.Transition (SocketState S K) (SocketLabel S K))}
  {x : SocketState S K} {obj : Nat}

/-- No wrap, no number zero, so fewer than 2^64 numbers. -/
theorem drawn_lt (h : (sockets S K client).Run tr x) (hwrap : ∀ t ∈ tr, ¬ WrapsAround obj t) :
    (tr.filterMap (drawn obj)).length < 2 ^ 64 := by
  by_contra hge
  have hzero : (0 : UInt64) ∈ tr.filterMap (drawn obj) := by
    rw [(run_counted h).all obj]
    exact zero_mem_counted (by omega)
  obtain ⟨t, ht, hd⟩ := List.mem_filterMap.1 hzero
  obtain ⟨a, hst, hobj, hseq⟩ := drawn_some.1 hd
  obtain ⟨i, buf, hl, hi, hs⟩ := stamp_some hst
  obtain ⟨-, hstep, -⟩ := h.transition t ht
  exact hwrap t ht ⟨i, buf, a.session, hl, hi, hs, hobj, (stamp_next hstep.2 hst).1.symm.trans hseq⟩

/-- With fewer than 2^64 - 1 frames the counter does not come round. -/
theorem not_wrapsAround (h : (sockets S K client).Run tr x) (hn : (tr.filterMap stamp).length < 2 ^ 64 - 1) :
    ∀ t ∈ tr, ¬ WrapsAround obj t := by
  intro t ht ⟨i, buf, s, hl, hi, hs, hobj, hzero⟩
  obtain ⟨l₁, l₂, rfl⟩ := List.append_of_mem ht
  obtain ⟨hr, -⟩ := h.before
  have hnext := ((run_counted hr).next s (by simp [hs])).2
  have hlen := drawn_length s.obj l₁
  rw [List.filterMap_append, List.length_append] at hn
  have := congrArg UInt64.toNat (hnext.symm.trans hzero)
  rw [UInt64.toNat_ofNat', Nat.mod_eq_of_lt (by omega)] at this
  cases this
omit [DecidableEq S] [DecidableEq K] in
theorem losesNumber_iff {t : Machine.Transition (SocketState S K) (SocketLabel S K)} :
    LosesNumber obj t ↔ ended obj false t ≠ none := by
  constructor
  · intro ⟨i, wake, s, ex, hl, hi, ho, hs⟩
    simp [ended, hl, hi, hs, ho, Send.outcome, Except.isOk, Except.toBool]
  · intro h
    obtain ⟨n, hn⟩ := Option.ne_none_iff_exists'.1 h
    exact losesNumber_of_ended hn

/-- **Sent numbers are consecutive while no send fails.** In every run in which
no `send` on the session throws and its counter does not wrap around: whenever
none of its numbers is with a sender, the numbers of the frames wholly sent on
it are 1, 2, ..., n in some order, each once. -/
theorem sent_consecutive (h : (sockets S K client).Run tr x) (hlost : ∀ t ∈ tr, ¬ LosesNumber obj t)
    (hwrap : ∀ t ∈ tr, ¬ WrapsAround obj t) (hquiet : ∀ i, (x.senders i).number obj = none) :
    Consecutive (sentNumbers obj tr) := by
  have hnone : tr.filterMap (ended obj false) = [] := by
    rw [List.filterMap_eq_nil_iff]
    intro t ht
    by_contra hsome
    obtain ⟨n, hn⟩ := Option.ne_none_iff_exists'.1 hsome
    exact hlost t ht (losesNumber_of_ended hn)
  rcases numbers_accounted h obj with ⟨m, hm, hsum⟩ | ⟨i, n, -, hi⟩
  · rw [hm.eq_zero hquiet, hnone, (run_counted h).all obj] at hsum
    have hperm : (counted (tr.filterMap (drawn obj)).length).Perm (sentNumbers obj tr) := by
      simpa [sentNumbers] using hsum
    have hnat := hperm.symm.map UInt64.toNat
    rw [counted_toNat (drawn_lt h hwrap)] at hnat
    exact ⟨_, hnat⟩
  · rw [hquiet i] at hi
    cases hi

end

/-- A server sends two frames, whole. -/
theorem sent_consecutive_two : ∃ tr x, (sockets Unit Unit none).Run tr x ∧ (∀ i, x.senders i = .idle) ∧
    sentNumbers 0 tr = [1, 2] ∧ Consecutive (sentNumbers 0 tr) := by
  obtain ⟨f, -, -, hsize⟩ := exists_fromWriter
  obtain ⟨tr, sid, hrun, htr⟩ := run_oneStream
  obtain ⟨hst, hend⟩ := quiet_of_joins htr
  obtain ⟨tr₁, x₁, hrun₁, hc₁, hi₁, hs₁, -, hfree₁, hfd₁, hst₁, hok₁, hno₁⟩ :=
    run_send (f := f) hrun rfl (fun _ => rfl) rfl rfl rfl
      (by show (0 : Int) ≤ 5; decide) (by omega) () true
  obtain ⟨tr₂, x₂, hrun₂, -, hi₂, -, -, -, -, hst₂, hok₂, hno₂⟩ := run_send (f := f) hrun₁ hc₁ hi₁ hs₁ rfl hfree₁
    (by rw [hfd₁]; show (0 : Int) ≤ 5; decide) (by omega) () true
  have hlost : ∀ t ∈ tr ++ tr₁ ++ tr₂, ¬ LosesNumber 0 t := by
    intro t ht hl
    have hnil : (tr ++ tr₁ ++ tr₂).filterMap (ended 0 false) = [] := by
      rw [List.filterMap_append, List.filterMap_append, hend]
      exact congrArg₂ (· ++ ·) hno₁ hno₂
    exact losesNumber_iff.1 hl (List.filterMap_eq_nil_iff.1 hnil t ht)
  have hsent : sentNumbers 0 (tr ++ tr₁ ++ tr₂) = [1, 2] := by
    rw [sentNumbers, List.filterMap_append, List.filterMap_append, hend]
    exact congrArg₂ (· ++ ·) hok₁ hok₂
  refine ⟨_, x₂, hrun₂, hi₂, hsent, sent_consecutive hrun₂ hlost (not_wrapsAround hrun₂ ?_) fun i => by rw [hi₂]; rfl⟩
  rw [List.filterMap_append, List.filterMap_append, hst, hst₁, hst₂]
  simp

/-- The first frame's `send` fails with `EINTR` before a byte is out, and the
next frame is sent whole. -/
theorem seqNum_skipped : ∃ f tr x, TunnelFrameBuffer.FromWriter f ∧ (sockets Unit Unit none).Run tr x ∧
    (∀ i, x.senders i = .idle) ∧ sentNumbers 0 tr = [2] ∧ ¬ Consecutive (sentNumbers 0 tr) := by
  obtain ⟨f, hf, -, hsize⟩ := exists_fromWriter
  obtain ⟨tr, sid, hrun, htr⟩ := run_oneStream
  obtain ⟨-, hend⟩ := quiet_of_joins htr
  obtain ⟨tr₁, x₁, hrun₁, hc₁, hi₁, hs₁, -, hfree₁, hfd₁, -, -, hno₁⟩ :=
    run_send (f := f) hrun rfl (fun _ => rfl) rfl rfl rfl
      (by show (0 : Int) ≤ 5; decide) (by omega) () false
  obtain ⟨tr₂, x₂, hrun₂, -, hi₂, -, -, -, -, -, hok₂, -⟩ := run_send (f := f) hrun₁ hc₁ hi₁ hs₁ rfl hfree₁
    (by rw [hfd₁]; show (0 : Int) ≤ 5; decide) (by omega) () true
  have hsent : sentNumbers 0 (tr ++ tr₁ ++ tr₂) = [2] := by
    rw [sentNumbers, List.filterMap_append, List.filterMap_append, hend]
    exact congrArg₂ (· ++ ·) hno₁ hok₂
  refine ⟨f, _, x₂, hf, hrun₂, hi₂, hsent, ?_⟩
  rw [hsent]
  intro ⟨n, hn⟩
  obtain rfl : n = 1 := by simpa using hn.length_eq.symm
  simp at hn

/-! ## One life of a session -/

section
variable {S K : Type} [DecidableEq S] [DecidableEq K] {client : Option SessionId}
  {tr : List (Machine.Transition (SocketState S K) (SocketLabel S K))} {x : SocketState S K}

/-- From a stamp on, and as long as the session is not erased, it is the same
object. -/
theorem same_object {l₁ l₂ : List (Machine.Transition (SocketState S K) (SocketLabel S K))} {t₁} {a : Stamp K}
    (h : (sockets S K client).Run (l₁ ++ t₁ :: l₂) x) (hst : stamp t₁ = some a)
    (hkept : ∀ t ∈ l₂, t.post.map.sessions ≠ []) :
    ∃ s, x.map.sessions = [s] ∧ s.obj = a.session.obj ∧ s.sessionId = a.session.sessionId := by
  obtain ⟨-, hstep, -⟩ := h.transition t₁ (by simp)
  obtain ⟨-, hs'⟩ := stamp_next hstep.2 hst
  refine (h.since (I := fun y => ∃ s, y.map.sessions = [s] ∧ s.obj = a.session.obj ∧ s.sessionId = a.session.sessionId)
    (C := fun t => t.post.map.sessions ≠ []) ?_ ⟨_, hs', rfl, rfl⟩ hkept).1
  intro y l y' hr hI hpost hs
  obtain ⟨s, hs₀, hobj, hsid⟩ := hI
  cases reachable_table (hr.step hs) with
  | empty hnil => exact absurd hnil hpost
  | one s' hs' =>
    refine ⟨s', hs', ?_⟩
    cases counterStep hs.2 with
    | stamp s₁ frame _ _ hs₁ hs₂ =>
      simp only at hs₁ hs₂
      rw [hs₀] at hs₁
      rw [hs'] at hs₂
      cases hs₁
      cases hs₂
      exact ⟨hobj, hsid⟩
    | same _ _ hsame =>
      obtain ⟨s₁, hs₁, ho, hi, -⟩ := hsame s' (by simp [hs'])
      rw [hs₀, List.mem_singleton] at hs₁
      subst hs₁
      exact ⟨ho.trans hobj, hi.trans hsid⟩
    | new _ _ _ hnil =>
      rw [hs₀] at hnil
      cases hnil

/-- With fewer than 2^64 - 1 frames none gets the initial frame's number. -/
theorem stamped_seqNum (h : (sockets S K client).Run tr x) (hn : (tr.filterMap stamp).length < 2 ^ 64 - 1)
    {a : Stamp K} (ha : a ∈ tr.filterMap stamp) : a.frame.seqNum ≠ kInitFrameSeqNum := by
  obtain ⟨t, ht, hst⟩ := List.mem_filterMap.1 ha
  have hmem : a.frame.seqNum ∈ tr.filterMap (drawn a.session.obj) :=
    List.mem_filterMap.2 ⟨t, ht, drawn_some.2 ⟨a, hst, rfl, rfl⟩⟩
  rw [(run_counted h).all] at hmem
  obtain ⟨j, hj, he⟩ := mem_counted.1 hmem
  have hlen := drawn_length a.session.obj tr
  intro hzero
  have := congrArg UInt64.toNat (he.symm.trans hzero)
  rw [UInt64.toNat_ofNat', Nat.mod_eq_of_lt (by omega)] at this
  exact absurd this (by simp [kInitFrameSeqNum])

/-- **A session does not repeat its numbers.** With fewer than 2^64 - 1 frames,
no frame gets the initial frame's number, and two frames of a session that was
not erased between them get different ones. Each session object counts from 1,
so one that is erased and joined again repeats the numbers of the first. -/
theorem seqNum_unique (h : (sockets S K client).Run tr x) (hn : (tr.filterMap stamp).length < 2 ^ 64 - 1) :
    (∀ a ∈ tr.filterMap stamp, a.frame.seqNum ≠ kInitFrameSeqNum) ∧
    (∀ l₁ t₁ l₂ t₂ l₃ a b, tr = l₁ ++ t₁ :: l₂ ++ t₂ :: l₃ → stamp t₁ = some a → stamp t₂ = some b →
      a.session.sessionId = b.session.sessionId → (∀ t ∈ l₂, t.post.map.find a.session.sessionId ≠ none) →
      a.frame.seqNum ≠ b.frame.seqNum) ∧
    ∀ obj, ∃ n, tr.filterMap (drawn obj) = counted n := by
  have hcounted := run_counted h
  refine ⟨fun a ha => stamped_seqNum h hn ha, ?_, fun obj => ⟨_, hcounted.all obj⟩⟩
  · intro l₁ t₁ l₂ t₂ l₃ a b htr hsta hstb _ hkept heq
    subst htr
    obtain ⟨hr, hstep⟩ := h.before
    obtain ⟨s, hs, hobj, -⟩ := same_object hr hsta fun t ht hnil =>
      hkept t ht (by simp [SessionsMap.find, hnil])
    obtain ⟨-, -, -, -, hsb⟩ := stamp_some hstb
    obtain rfl : b.session = s := by simpa [hsb] using hs
    have hc := run_counted hr
    have hlen := drawn_length b.session.obj (l₁ ++ t₁ :: l₂)
    have hlt : ((l₁ ++ t₁ :: l₂).filterMap stamp).length < 2 ^ 64 - 1 := by
      refine Nat.lt_of_le_of_lt ?_ hn
      rw [List.filterMap_append (l := l₁ ++ t₁ :: l₂), List.length_append]
      exact Nat.le_add_right _ _
    have hmem : a.frame.seqNum ∈ (l₁ ++ t₁ :: l₂).filterMap (drawn b.session.obj) :=
      List.mem_filterMap.2 ⟨t₁, by simp, drawn_some.2 ⟨a, hsta, hobj.symm, rfl⟩⟩
    rw [hc.all] at hmem
    obtain ⟨j, hj, he⟩ := mem_counted.1 hmem
    have hnext := (stamp_next hstep.2 hstb).1.trans (hc.next b.session (by simp [hsb])).2
    have hnat := congrArg UInt64.toNat (he.symm.trans (heq.trans hnext))
    rw [UInt64.toNat_ofNat', UInt64.toNat_ofNat', Nat.mod_eq_of_lt (by omega), Nat.mod_eq_of_lt (by omega)] at hnat
    omega

end

/-- Two frames of one session. -/
theorem seqNum_unique_two : ∃ tr x a b, (sockets Unit Unit none).Run tr x ∧ tr.filterMap stamp = [a, b] ∧
    ∀ c ∈ tr.filterMap stamp, c.frame.seqNum ≠ kInitFrameSeqNum := by
  obtain ⟨f, -, -, hsize⟩ := exists_fromWriter
  obtain ⟨tr, sid, hrun, htr⟩ := run_oneStream
  obtain ⟨hst, -⟩ := quiet_of_joins htr
  obtain ⟨tr₁, x₁, hrun₁, hc₁, hi₁, hs₁, -, hfree₁, hfd₁, hst₁, -⟩ :=
    run_send (f := f) hrun rfl (fun _ => rfl) rfl rfl rfl
      (by show (0 : Int) ≤ 5; decide) (by omega) () true
  obtain ⟨tr₂, x₂, hrun₂, -, -, -, -, -, -, hst₂, -⟩ := run_send (f := f) hrun₁ hc₁ hi₁ hs₁ rfl hfree₁
    (by rw [hfd₁]; show (0 : Int) ≤ 5; decide) (by omega) () true
  have hstamps : (tr ++ tr₁ ++ tr₂).filterMap stamp = tr₁.filterMap stamp ++ tr₂.filterMap stamp := by
    simp [hst]
  rw [hst₁, hst₂] at hstamps
  exact ⟨_, x₂, _, _, hrun₂, hstamps, (seqNum_unique hrun₂ (by rw [hstamps]; simp)).1⟩

/-- A session's one stream ends and takes the session with it, another stream
joins under the same id, and the first frame of each gets the number 1. -/
theorem seqNum_repeated : ∃ f tr x a b, TunnelFrameBuffer.FromWriter f ∧ (sockets Unit Bool none).Run tr x ∧
    tr.filterMap stamp = [a, b] ∧ a.session.sessionId = b.session.sessionId ∧ a.frame.seqNum = b.frame.seqNum := by
  obtain ⟨f, hf, -, hsize⟩ := exists_fromWriter
  obtain ⟨frame, -, hcl, -⟩ := initFrame_ok ⟨List.replicate 16 7, rfl⟩ "RuralPipeClient" rfl
  obtain ⟨ier, hex, -⟩ := exchange_server hcl
  obtain ⟨tr₁, m₁, hrun₁, hreg₁, htr₁⟩ := run_registered (S := Unit) (K := Bool) (k := false) (.init rfl) rfl rfl
    (fun ⟨_, _, _, _, _, hw⟩ => nomatch hw) ⟨⟨"Client", 5⟩, fun _ => 0⟩ hex (fun s hs => nomatch hs)
  obtain ⟨hst₁, -⟩ := quiet_of_joins htr₁
  cases hreg₁
  obtain ⟨tr₂, x₂, hrun₂, hc₂, hi₂, hs₂, ht₂, hfree₂, hfd₂, hst₂, -⟩ :=
    run_send (f := f) hrun₁ rfl (fun _ => rfl) rfl rfl rfl
      (by show (0 : Int) ≤ 5; decide) (by omega) () true
  obtain ⟨tr₃, x₃, hrun₃, hc₃, hi₃, hs₃, -, ht₃, hst₃⟩ := run_erased (k := false) hrun₂ hc₂ hi₂ (by rw [ht₂]; rfl) hs₂
    rfl (by rw [hfd₂]; show (0 : Int) < 5; decide)
  obtain ⟨tr₄, m₄, hrun₄, hreg₄, htr₄⟩ := run_registered (k := true) hrun₃ hc₃
    (by rw [ht₃ true (by decide), ht₂]; rfl) (fun ⟨_, _, _, _, _, hw⟩ => by rw [hi₃, hi₂] at hw; cases hw)
    ⟨⟨"Client", 6⟩, fun _ => 0⟩ hex (fun s hs => by rw [hs₃] at hs; cases hs)
  obtain ⟨hst₄, -⟩ := quiet_of_joins htr₄
  have hs₄ : m₄.sessions = [⟨x₃.map.created, ier.sessionId, kInitFrameSeqNum + 1, [true]⟩] := by
    rcases SessionsMap.register_sessions hreg₄ with ⟨-, h⟩ | ⟨s, hf, -⟩
    · exact h
    · rw [SessionsMap.find, hs₃] at hf
      cases hf
  have htr₄ := SessionsMap.register_trackers hreg₄
  obtain ⟨tr₅, x₅, hrun₅, -, -, -, -, -, -, hst₅, -⟩ := run_send (f := f) hrun₄ hc₃ (fun j => by
    show x₃.senders j = _
    rw [hi₃, hi₂]) hs₄ rfl (by show (m₄.trackers true).inUse = false; rw [htr₄, Function.update_self])
    (by show 0 ≤ (m₄.trackers true).stream.fd.fd; rw [htr₄, Function.update_self]; show (0 : Int) ≤ 6; decide)
    (by omega) () true
  have hstamps : ([] ++ tr₁ ++ tr₂ ++ tr₃ ++ tr₄ ++ tr₅).filterMap stamp = tr₂.filterMap stamp ++
    tr₅.filterMap stamp := by
    simp [hst₁, hst₃, hst₄]
  rw [hst₂, hst₅] at hstamps
  exact ⟨f, _, x₅, _, _, hf, hrun₅, hstamps, rfl, by simp⟩

end RuralPipe
