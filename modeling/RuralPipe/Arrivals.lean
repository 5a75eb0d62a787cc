/-
What has arrived can be delivered.

A receive loop waits for its stream, or for the mutex of a tunnel queue, and who
has that mutex is writing to the queue (`Held`), so no loop waits for another
for good. However the loops take turns while nothing fails, each delivers the
datagrams on its stream in their order, in no more than `left` steps, retries
apart; and from wherever they have got to, the rest can be delivered too
(`arrived_deliverable`).
-/
import RuralPipe.Accounts

namespace RuralPipe

open Bytes Machine TunnelFrameStream

/-! ## Steps left -/

/-- No call that would have blocked, nor the poll that follows one. -/
def ReceiveEvent.progress : ReceiveEvent → Bool
  | .tau => true
  | .read (.call (.ok _)) => true
  | .read _ => false
  | .deliver .tau => true
  | .deliver (.io (.call (.ok _))) => true
  | .deliver (.io _) => false

/-- The steps a loop has left at most, but for those it takes for bytes off its
stream and datagrams it delivers. -/
def ReceiveLoop.rank : ReceiveLoop → Nat
  | .ended _ => 0
  | .receiving (.failed _) => 1
  | .delivering (.failed _) => 1
  | .receiving (.header _ _) => 2
  | .receiving (.body _ _ _) => 2
  | .head => 3
  | .delivering .returned => 4
  | .delivering (.write _ _ _) => 4
  | .delivering (.lock _ _) => 5
  | .delivering (.next _) => 6
  | .receiving (.returned _) => 7

namespace ReceiveLoop

theorem rank_receiving_le (r : Receive) : (receiving r).rank ≤ 7 := by
  cases r <;> simp [rank]

theorem rank_start (buf : TunnelFrameBuffer) : (delivering (.start buf)).rank ≤ 6 := by
  unfold Delivery.start
  split <;> simp [rank]

theorem rank_receive (s : TunnelFrameStream) : (receiving s.receive).rank = 2 := rfl

end ReceiveLoop

/-- A call that would have blocked, and the poll after it, are no progress. -/
theorem FileDescriptor.retryStep_again {α : Type} {fd : FileDescriptor} {verb : String} {len : α → Nat} {size : Nat}
    {io io' : Io} {ev : IoEvent α} (h : fd.retryStep verb len size io ev = some (.again io')) :
    ∀ a, ev ≠ .call (.ok a) := by
  rcases retryStep_cases h with ⟨_, _, _, _, _, he⟩ | ⟨_, _, hne⟩ | ⟨_, he, _⟩
  · cases he
  · exact hne
  · cases he

theorem FileDescriptor.retryStep_returned {α : Type} {fd : FileDescriptor} {verb : String} {len : α → Nat} {size : Nat}
    {io : Io} {ev : IoEvent α} {a : α} (h : fd.retryStep verb len size io ev = some (.returned a)) :
    ev = .call (.ok a) ∧ 0 < len a := by
  rcases retryStep_cases h with ⟨_, _, rfl, hpos, _, he⟩ | ⟨_, he, _⟩ | ⟨_, he, _⟩
  · cases he
    exact ⟨rfl, hpos⟩
  · cases he
  · cases he

theorem ReceiveEvent.progress_le (ev : ReceiveEvent) : ev.progress.toNat ≤ 1 := by
  cases ev.progress <;> simp

theorem ReceiveEvent.read_again {ev : IoEvent (List UInt8)} (h : ∀ a, ev ≠ .call (.ok a)) :
    (ReceiveEvent.read ev).progress = false := by
  rcases ev with (e | a) | res
  · rfl
  · exact absurd rfl (h a)
  · rfl

theorem ReceiveEvent.deliver_again {ev : IoEvent Nat} (h : ∀ a, ev ≠ .call (.ok a)) :
    (ReceiveEvent.deliver (.io ev)).progress = false := by
  rcases ev with (e | a) | res
  · rfl
  · exact absurd rfl (h a)
  · rfl

/-- `receive` goes on to a byte or its end. -/
theorem TunnelFrameStream.receiveStep_rank {s s' : TunnelFrameStream} {r r' : Receive} {ev : IoEvent (List UInt8)}
    (h : s.receiveStep r ev = some (s', r')) :
    (ReceiveLoop.receiving r').rank + (ReceiveEvent.read ev).progress.toNat ≤
      (ReceiveLoop.receiving r).rank + 6 * ev.bytes.length := by
  have hp := ReceiveEvent.progress_le (.read ev)
  have hr := ReceiveLoop.rank_receiving_le r'
  cases r with
  | header n io | body n t io =>
    simp only [receiveStep] at h
    split at h
    · cases h
    · cases h
      simp only [ReceiveLoop.rank]
      omega
    · rename_i ha
      cases h
      rw [ReceiveEvent.read_again (FileDescriptor.retryStep_again ha)]
      simp [ReceiveLoop.rank]
    · rename_i bs ha
      obtain ⟨rfl, hpos⟩ := FileDescriptor.retryStep_returned ha
      have hb : 0 < (IoEvent.call (.ok bs)).bytes.length := hpos
      show _ ≤ 2 + _
      omega
  | returned buf => cases h
  | failed e => cases h

/-- A delivery goes on to a datagram or its end. -/
theorem Delivery.step_rank {q q' : TunnelQueues} {d d' : Delivery} {ev : DeliveryEvent} {o : Option (Nat × List UInt8)}
    (h : d.step q ev = some (q', d', o)) :
    (ReceiveLoop.delivering d').rank + (ReceiveEvent.deliver ev).progress.toNat ≤
      (ReceiveLoop.delivering d).rank + 3 * o.toList.length := by
  have hp := ReceiveEvent.progress_le (.deliver ev)
  cases d with
  | next r =>
    cases ev with
    | tau =>
      simp only [step] at h
      split at h <;> (cases h; simp [ReceiveLoop.rank, ReceiveEvent.progress])
    | io ev => cases h
  | lock r idx =>
    cases ev with
    | tau =>
      simp only [step] at h
      split at h
      · cases h
      · cases h
        simp [ReceiveLoop.rank, ReceiveEvent.progress]
    | io ev => cases h
  | write r idx io =>
    cases ev with
    | tau => cases h
    | io ev =>
      simp only [step] at h
      split at h
      · cases h
      · cases h
        simp only [ReceiveLoop.rank]
        omega
      · rename_i ha
        cases h
        rw [ReceiveEvent.deliver_again (FileDescriptor.retryStep_again ha)]
        simp [ReceiveLoop.rank]
      · cases h
        simp only [ReceiveLoop.rank, Option.toList_some, List.length_singleton]
        omega
  | returned => cases ev <;> cases h
  | failed e => cases ev <;> cases h

/-- **A step lowers the rank**, unless it is a retry, or by a byte or a datagram
at most raises it. -/
theorem ReceivingStack.step_rank {K : Type} [DecidableEq K] {x x' : ReceivingStack K} {k : K} {ev : ReceiveEvent}
    {o : Option (Nat × List UInt8)} (h : x.step k ev = some (x', o)) :
    (x'.loops k).rank + ev.progress.toNat ≤ (x.loops k).rank + 6 * ev.bytes.length + 3 * o.toList.length := by
  have hp := ReceiveEvent.progress_le ev
  cases ev with
  | tau =>
    cases hl : x.loops k with
    | head =>
      simp only [step, hl] at h
      split at h
      · cases h
        rw [setLoop_self]
        simp only [ReceiveLoop.rank]
        omega
      · cases h
        rw [setLoop_self, ReceiveLoop.rank_receive]
        simp only [ReceiveLoop.rank]
        omega
    | receiving r =>
      cases r with
      | returned buf =>
        simp only [step, hl] at h
        split at h
        · cases h
          rw [setLoop_self]
          simp only [ReceiveLoop.rank]
          omega
        · cases h
          have := ReceiveLoop.rank_start buf
          rw [setLoop_self]
          show _ ≤ 7 + _ + _
          omega
      | failed e =>
        simp only [step, hl] at h
        cases h
        rw [setLoop_self]
        simp only [ReceiveLoop.rank]
        omega
      | header n io => simp [step, hl] at h
      | body n t io => simp [step, hl] at h
    | delivering d =>
      cases d with
      | returned | failed e =>
        simp only [step, hl] at h
        cases h
        rw [setLoop_self]
        simp only [ReceiveLoop.rank]
        omega
      | next r => simp [step, hl] at h
      | lock r idx => simp [step, hl] at h
      | write r idx io => simp [step, hl] at h
    | ended e => simp [step, hl] at h
  | read ev =>
    cases hl : x.loops k with
    | receiving r =>
      simp only [step, hl] at h
      split at h
      · cases h
      · rename_i hst
        cases h
        rw [setLoop_self]
        exact Nat.le_add_right_of_le (receiveStep_rank hst)
    | head => simp [step, hl] at h
    | delivering d => simp [step, hl] at h
    | ended e => simp [step, hl] at h
  | deliver ev =>
    cases hl : x.loops k with
    | delivering d =>
      simp only [step, hl] at h
      split at h
      · cases h
      · rename_i hst
        cases h
        rw [setLoop_self]
        exact Delivery.step_rank hst
    | head => simp [step, hl] at h
    | receiving r => simp [step, hl] at h
    | ended e => simp [step, hl] at h

/-! ## Who has the mutexes -/

/-- A delivery takes the mutex of a queue to write to it, and gives it back with
the write. -/
theorem Delivery.step_locks {q q' : TunnelQueues} {d d' : Delivery} {ev : DeliveryEvent} {o : Option (Nat × List UInt8)}
    (h : d.step q ev = some (q', d', o)) {i : Nat} (hi : q'.locked i = true) :
    (∃ r io, d' = .write r i io) ∨ (q.locked i = true ∧ ∀ r io, d ≠ .write r i io) := by
  cases d with
  | next r =>
    cases ev with
    | tau =>
      simp only [step] at h
      split at h <;> (cases h; exact .inr ⟨hi, by simp⟩)
    | io ev => cases h
  | lock r idx =>
    cases ev with
    | tau =>
      simp only [step] at h
      split at h
      · cases h
      · cases h
        by_cases he : i = idx
        · exact .inl ⟨r, .call, he ▸ rfl⟩
        · exact .inr ⟨(Function.update_of_ne he ..).symm.trans hi, by simp⟩
    | io ev => cases h
  | write r idx io =>
    cases ev with
    | tau => cases h
    | io ev =>
      -- The mutex is given back, and the others stay as they are.
      have hback : Function.update q.locked idx false i = true →
          q.locked i = true ∧ ∀ r' io', Delivery.write r idx io ≠ .write r' i io' := by
        intro hi
        have he : i ≠ idx := by
          intro he
          rw [he, Function.update_self] at hi
          cases hi
        exact ⟨(Function.update_of_ne he ..).symm.trans hi, fun r' io' heq => he (Delivery.write.inj heq).2.1.symm⟩
      simp only [step] at h
      split at h
      · cases h
      · cases h
        exact .inr (hback hi)
      · cases h
        by_cases he : i = idx
        · subst he
          exact .inl ⟨r, _, rfl⟩
        · exact .inr ⟨hi, fun r' io' heq => he (Delivery.write.inj heq).2.1.symm⟩
      · cases h
        exact .inr (hback hi)
  | returned => cases ev <;> cases h
  | failed e => cases ev <;> cases h

namespace ReceivingStack

variable {K : Type} [DecidableEq K] {x x' : ReceivingStack K} {k : K} {ev : ReceiveEvent}
  {o : Option (Nat × List UInt8)}

omit [DecidableEq K] in
/-- Who has a queue's mutex is a loop that writes to it. -/
def Held (x : ReceivingStack K) : Prop :=
  ∀ i, x.queues.locked i = true → ∃ j r io, x.loops j = .delivering (.write r i io)

omit [DecidableEq K] in
theorem Starts.held (h : x.Starts) : x.Held := by
  intro i hi
  rw [h.unlocked i] at hi
  cases hi

theorem Held.step (h : x.Held) (hs : x.step k ev = some (x', o)) : x'.Held := by
  obtain ⟨-, -, hothers⟩ := step_others hs
  -- A holder other than the loop that took the step is where it was.
  have hother : ∀ i, x.queues.locked i = true → (∀ r io, x.loops k ≠ .delivering (.write r i io)) →
      ∃ j r io, x'.loops j = .delivering (.write r i io) := by
    intro i hi hne
    obtain ⟨j, r, io, hj⟩ := h i hi
    have hjk : j ≠ k := fun he => hne r io (he ▸ hj)
    exact ⟨j, r, io, (hothers j hjk).1.trans hj⟩
  cases ev with
  | tau =>
    have hstay : x'.queues = x.queues ∧ ∀ r i io, x.loops k ≠ .delivering (.write r i io) := by
      simp only [ReceivingStack.step] at hs
      split at hs
      · rename_i hl
        split at hs <;> (cases hs; exact ⟨rfl, by simp [hl]⟩)
      · rename_i hl
        split at hs <;> (cases hs; exact ⟨rfl, by simp [hl]⟩)
      all_goals rename_i hl
      all_goals cases hs
      all_goals exact ⟨rfl, by simp [hl]⟩
    exact fun i hi => hother i (hstay.1 ▸ hi) fun r io => hstay.2 r i io
  | read ev =>
    simp only [ReceivingStack.step] at hs
    split at hs
    · rename_i hl
      split at hs
      · cases hs
      · cases hs
        exact fun i hi => hother i hi fun r io => by simp [hl]
    · cases hs
  | deliver ev =>
    simp only [ReceivingStack.step] at hs
    split at hs
    · rename_i d hl
      split at hs
      · cases hs
      · rename_i d' o' hst
        cases hs
        intro i hi
        rcases Delivery.step_locks hst hi with ⟨r, io, rfl⟩ | ⟨hi', hne⟩
        · exact ⟨k, r, io, setLoop_self⟩
        · exact hother i hi' fun r io he => hne r io (ReceiveLoop.delivering.inj (hl.symm.trans he))
    · cases hs

end ReceivingStack

/-- A step of the loop of `k` that is no retry. -/
def EndToEndLabel.goesOn {S K : Type} [DecidableEq K] (k : K) : EndToEndLabel S K → Bool
  | .receive j ev => j = k && ev.progress
  | _ => false

namespace EndToEnd

variable {S K : Type} {x x' : EndToEnd S K} {k j : K}

/-- What the loop of `k` has to deliver of what is on its stream. -/
def due (x : EndToEnd S K) (k : K) : List (List UInt8) := x.pending k ++ x.onWay k

/-- The steps the loop of `k` can take at most before it waits for more on its
stream, retries apart. -/
def left (x : EndToEnd S K) (k : K) : Nat :=
  3 * (x.arriving k).length + 3 * (x.pending k).length +
    6 * ((x.sending.sockets.wire k).drop (x.taken k)).length + (x.receiving.loops k).rank

theorem Arriving.due_eq {fs p ds} (h : x.Arriving k fs p ds) :
    x.due k = ds ++ fs.flatMap TunnelFrameBuffer.datagrams := by
  rw [due, h.pending_eq, h.onWay_eq]

theorem Receives.due (h : x.Receives x' j) (hk : k ≠ j) : x'.due k = x.due k := by
  rw [EndToEnd.due, EndToEnd.due, pending, pending, onWay, onWay, h.loops k hk, h.arriving hk]

theorem Receives.left (h : x.Receives x' j) (hk : k ≠ j) : x'.left k = x.left k := by
  rw [EndToEnd.left, EndToEnd.left, h.arriving hk, pending, pending, h.loops k hk, h.sending, h.taken k hk]

section
variable [DecidableEq S] [DecidableEq K] {fds : S → FileDescriptor} {mtu : Nat} {client : Option SessionId}

theorem Accounted.runs {lost out} (h : x.Accounted fds mtu client lost out)
    (hk : (x.receiving.loops k).dead = false) : ∃ fs p ds, x.Arriving k fs p ds :=
  (h.streams k).resolve_left (by rw [hk]; exact Bool.false_ne_true)

theorem held_run {tr : List (Transition (EndToEnd S K) (EndToEndLabel S K))}
    (h : (endToEnd K fds mtu client).Run tr x) : x.receiving.Held := by
  induction h with
  | init hx => exact hx.receiving.held
  | step _ hs ih =>
    cases hs with
    | send ha hst => exact ih
    | receive ha hb hst => exact ih.step hst
    | interrupt => exact ih

/-- The datagrams of a run that came over the stream `k`. -/
def deliveredBy (k : K) (tr : List (Transition (EndToEnd S K) (EndToEndLabel S K))) : List (List UInt8) :=
  ((delivered tr).filter (·.1 = k)).map (·.2)

variable (fds mtu client) in
/-- From `x` on only receive loops take steps, in which nothing fails, and the
tunnel device takes whole datagrams. -/
def draining (x : EndToEnd S K) : Machine (EndToEnd S K) (EndToEndLabel S K) where
  init y := y = x
  step y l y' := (endToEnd K fds mtu client).step y l y' ∧
    ∃ k ev, l = .receive k ev ∧ ev.Smooth ∧ (y.receiving.loops k).Whole ev

variable (fds mtu client) in
/-- The loops are not interrupted, and what they have is accounted for. -/
structure Ready (x : EndToEnd S K) : Prop where
  accounted : ∃ lost out, x.Accounted fds mtu client lost out
  held : x.receiving.Held
  uninterrupted : x.receiving.interrupted = false

omit [DecidableEq S] in
theorem deliveredBy_append (tr tr' : List (Transition (EndToEnd S K) (EndToEndLabel S K))) :
    deliveredBy k (tr ++ tr') = deliveredBy k tr ++ deliveredBy k tr' := by
  simp only [deliveredBy, delivered, List.flatMap_append, List.filter_append, List.map_append]

omit [DecidableEq S] in
theorem deliveredBy_one {ev : ReceiveEvent} {o : Option (Nat × List UInt8)} (h : x'.written = x.written ++ o.toList) :
    deliveredBy k [⟨x, .receive j ev, x'⟩] = if j = k then o.toList.map (·.2) else [] := by
  rw [deliveredBy, delivered, List.flatMap_singleton, h, List.drop_left]
  by_cases hjk : j = k <;> cases o <;> simp [hjk]

omit [DecidableEq S] [DecidableEq K] in
/-- A frame has a byte for each of its datagrams. -/
theorem length_datagrams_le {f : TunnelFrameBuffer} {ds : List (List UInt8)} (h : f.Closed ds) :
    ds.length ≤ f.bytes.length := by
  have hbody : ∀ ds : List (List UInt8), ds.length ≤ (body ds).length := by
    intro ds
    induction ds with
    | nil => exact Nat.zero_le _
    | cons d ds ih =>
      rw [List.length_cons, show body (d :: ds) = item d ++ body ds from rfl, List.length_append, item_length]
      omega
  have hle := hbody ds
  rw [TunnelFrameBuffer.bytes_length, h.size_eq]
  omega

/-- **A step of a loop** delivers the next of what is due, or leaves that as it
is, and is one of those left, or a retry. -/
theorem Ready.step {x₀ : EndToEnd S K} {l : EndToEndLabel S K} (h : x.Ready fds mtu client)
    (hs : (draining fds mtu client x₀).step x l x') :
    x'.Ready fds mtu client ∧ ∀ k, (x.receiving.loops k).dead = false →
      (x'.receiving.loops k).dead = false ∧ deliveredBy k [⟨x, l, x'⟩] ++ x'.due k = x.due k ∧
        x'.left k + (if l.goesOn k then 1 else 0) ≤ x.left k := by
  obtain ⟨hs, j, ev, rfl, hsm, hwh⟩ := hs
  obtain ⟨lost, out, hacc⟩ := h.accounted
  cases hs with
  | @receive _ _ receiving o ha hb hst =>
    have hmoved := receives_step (x := x) hst rfl
    obtain ⟨lost', hacc'⟩ := hacc.receive hb hst hwh rfl
    refine ⟨⟨⟨_, _, hacc'⟩, h.held.step hst, (ReceivingStack.step_others hst).2.1.trans h.uninterrupted⟩,
      fun k hk => ?_⟩
    rw [deliveredBy_one rfl]
    by_cases hjk : j = k
    · subst hjk
      have hrank := ReceivingStack.step_rank hst
      have huntaken : (x.sending.sockets.wire j).drop (x.taken j + ev.bytes.length) =
          ((x.sending.sockets.wire j).drop (x.taken j)).drop ev.bytes.length := List.drop_drop.symm
      have hlen := hb.length_le
      obtain ⟨fs, p, ds, harr⟩ := hacc.runs hk
      rw [if_pos rfl]
      have hprog : (if (EndToEndLabel.receive (S := S) j ev).goesOn j then 1 else 0) = ev.progress.toNat := by
        simp only [EndToEndLabel.goesOn, decide_true, Bool.true_and]
        cases ev.progress <;> rfl
      simp only [hprog, left]
      rw [Function.update_self, huntaken, List.length_drop]
      rcases harr.step hacc.chain hb hst hwh rfl with
        ⟨-, -, -, hno⟩ | ⟨rfl, harr'⟩ | ⟨f, fs', rfl, rfl, rfl, harr'⟩ | ⟨a, ds', idx, rfl, rfl, harr'⟩
      · exact absurd hno (by simp [hsm, h.uninterrupted])
      · refine ⟨harr'.loop.running, by rw [harr.due_eq, harr'.due_eq]; rfl, ?_⟩
        rw [harr.bytes, harr'.bytes, harr.pending_eq, harr'.pending_eq]
        simp only [Option.toList_none, List.length_nil] at hrank
        omega
      · refine ⟨harr'.loop.running, by rw [harr.due_eq, harr'.due_eq]; simp, ?_⟩
        obtain ⟨ds, hds⟩ := harr.closed f List.mem_cons_self
        have hle := length_datagrams_le hds
        rw [harr.bytes, harr'.bytes, harr.pending_eq, harr'.pending_eq, hds.datagrams_eq]
        simp only [List.map_cons, List.flatten_cons, List.length_append, List.length_nil, Option.toList_none] at hrank ⊢
        omega
      · refine ⟨harr'.loop.running, by rw [harr.due_eq, harr'.due_eq]; rfl, ?_⟩
        rw [harr.bytes, harr'.bytes, harr.pending_eq, harr'.pending_eq]
        simp only [List.length_cons, Option.toList_some, List.length_nil] at hrank ⊢
        omega
    · have hkj : k ≠ j := fun he => hjk he.symm
      rw [if_neg hjk, hmoved.due hkj, hmoved.left hkj, hmoved.loops k hkj]
      exact ⟨hk, rfl, by simp [EndToEndLabel.goesOn, hjk]⟩

/-- **However the loops take turns**, each delivers what is due to it in its
order, in the steps it has left. -/
theorem Ready.run {tr : List (Transition (EndToEnd S K) (EndToEndLabel S K))} (h : x.Ready fds mtu client)
    (hr : (draining fds mtu client x).Run tr x') :
    x'.Ready fds mtu client ∧ ∀ k, (x.receiving.loops k).dead = false →
      (x'.receiving.loops k).dead = false ∧ deliveredBy k tr ++ x'.due k = x.due k ∧
        tr.countP (fun t => t.label.goesOn k) + x'.left k ≤ x.left k := by
  induction hr with
  | init hx =>
    cases hx
    exact ⟨h, fun k hk => ⟨hk, rfl, by simp⟩⟩
  | @step tr y l y' _ hs ih =>
    obtain ⟨hready, hall⟩ := ih
    obtain ⟨hready', hall'⟩ := hready.step hs
    refine ⟨hready', fun k hk => ?_⟩
    obtain ⟨hk, hdue, hleft⟩ := hall k hk
    obtain ⟨hk', hdue', hleft'⟩ := hall' k hk
    refine ⟨hk', by rw [deliveredBy_append, List.append_assoc, hdue', hdue], ?_⟩
    rw [List.countP_append, List.countP_singleton]
    show tr.countP _ + (if l.goesOn k then 1 else 0) + y'.left k ≤ x.left k
    omega

/-! ### A loop that has something to do can go on -/

variable (fds mtu client) in
/-- The loop of `k` can take a step that is no retry, perhaps after others. -/
def GoesOn (x : EndToEnd S K) (k : K) : Prop :=
  ∃ tr x', (draining fds mtu client x).Run tr x' ∧ 0 < tr.countP fun t => t.label.goesOn k

/-- The state after a step of the loop of `k`. -/
def received (x : EndToEnd S K) (k : K) (ev : ReceiveEvent) (receiving : ReceivingStack K)
    (o : Option (Nat × List UInt8)) : EndToEnd S K :=
  { x with
    receiving
    taken := Function.update x.taken k (x.taken k + ev.bytes.length)
    written := x.written ++ o.toList }

variable {ev : ReceiveEvent} {receiving : ReceivingStack K} {o : Option (Nat × List UInt8)}

theorem Ready.can_step (h : x.Ready fds mtu client) (hst : x.receiving.step k ev = some (receiving, o))
    (hsm : ev.Smooth) (hwh : (x.receiving.loops k).Whole ev)
    (hb : ev.bytes <+: (x.sending.sockets.wire k).drop (x.taken k)) (x₀ : EndToEnd S K) :
    (draining fds mtu client x₀).step x (.receive k ev) (x.received k ev receiving o) := by
  obtain ⟨lost, out, hacc⟩ := h.accounted
  refine ⟨.receive (fun j c hj => ?_) hb hst, k, ev, rfl, hsm, hwh⟩
  have hun := hacc.unaborted j
  rw [hj] at hun
  cases hun

theorem draining_append {tr tr' : List (Transition (EndToEnd S K) (EndToEndLabel S K))} {y : EndToEnd S K}
    (h : (draining fds mtu client x).Run tr x') (h' : (draining fds mtu client x').Run tr' y) :
    (draining fds mtu client x).Run (tr ++ tr') y := h.append h' (fun _ ht => ht) fun _ _ _ ht => ht

theorem GoesOn.after {tr : List (Transition (EndToEnd S K) (EndToEndLabel S K))}
    (hr : (draining fds mtu client x).Run tr x') (h : x'.GoesOn fds mtu client k) : x.GoesOn fds mtu client k := by
  obtain ⟨tr', y, hr', hpos⟩ := h
  refine ⟨_, y, draining_append hr hr', ?_⟩
  rw [List.countP_append]
  omega

theorem Ready.goesOn_now (h : x.Ready fds mtu client) (hst : x.receiving.step k ev = some (receiving, o))
    (hsm : ev.Smooth) (hwh : (x.receiving.loops k).Whole ev)
    (hb : ev.bytes <+: (x.sending.sockets.wire k).drop (x.taken k)) (hp : ev.progress = true) :
    x.GoesOn fds mtu client k := by
  refine ⟨_, _, .step (.init rfl) (h.can_step hst hsm hwh hb x), ?_⟩
  simp [EndToEndLabel.goesOn, hp]

/-- A step of its own, which takes no bytes. -/
theorem Ready.goesOn_tau (h : x.Ready fds mtu client) (hst : x.receiving.step k .tau = some (receiving, o)) :
    x.GoesOn fds mtu client k := by
  refine h.goesOn_now hst trivial ?_ List.nil_prefix rfl
  cases x.receiving.loops k <;> trivial

/-- What is due and not yet read: the stream has a byte for `receive`. -/
theorem Ready.reads {r : Receive} {off n : Nat} (h : x.Ready fds mtu client)
    (hk : (x.receiving.loops k).dead = false) (hl : x.receiving.loops k = .receiving r)
    (ht : receiveTarget r = some (off, n)) (hdue : x.due k ≠ []) : x.GoesOn fds mtu client k := by
  obtain ⟨lost, out, hacc⟩ := h.accounted
  obtain ⟨fs, p, ds, harr⟩ := hacc.runs hk
  have hloop := harr.loop
  rw [hl] at hloop
  obtain ⟨hat, -, rfl⟩ := hloop
  obtain ⟨-, hn, -⟩ := hat.room ht
  obtain ⟨f, fs, rfl⟩ : ∃ f fs', fs = f :: fs' := by
    cases fs with
    | nil => exact absurd harr.due_eq hdue
    | cons f fs => exact ⟨f, fs, rfl⟩
  obtain ⟨c, rest, hrest⟩ : ∃ c rest, (x.sending.sockets.wire k).drop (x.taken k) = c :: rest := by
    cases hd : (x.sending.sockets.wire k).drop (x.taken k) with
    | cons c rest => exact ⟨c, rest, rfl⟩
    | nil =>
      -- Then `receive` has the whole frame, and asks for nothing more.
      exfalso
      obtain ⟨es, hes⟩ := harr.closed f List.mem_cons_self
      have hb := harr.bytes
      rw [arriving, hl, hd, List.map_cons, List.flatten_cons, List.append_assoc] at hb
      obtain ⟨hpre, -, -, hret⟩ := hat.frame hes hb
      have hlen := congrArg List.length hb
      have hle := hpre.length_le
      simp only [List.length_append, List.length_nil] at hlen
      obtain ⟨res, rfl⟩ := hret (hpre.eq_of_length (by omega))
      cases ht
  obtain ⟨r₁, hr₁, s', r', hcall⟩ := receive_goesOn (s := x.receiving.streams k) ht hn c
  have hcall' : ∀ y : EndToEnd S K, y.Ready fds mtu client → y.receiving.streams k = x.receiving.streams k →
      y.receiving.loops k = .receiving r₁ → (y.sending.sockets.wire k).drop (y.taken k) = c :: rest →
      y.GoesOn fds mtu client k := by
    intro y hy hs hl hb
    have hst : y.receiving.step k (.read (.call (.ok [c]))) =
        some ((y.receiving.setStream k s').setLoop k (.receiving r'), none) := by
      simp only [ReceivingStack.step, hl, hs, hcall]
    refine hy.goesOn_now hst (show 0 < [c].length from Nat.one_pos) (by rw [hl]; trivial) ?_ rfl
    rw [hb]
    exact ⟨rest, rfl⟩
  rcases hr₁ with rfl | hpoll
  · exact hcall' x h rfl hl hrest
  · have hst : x.receiving.step k (.read (.poll (.ok 1))) =
        some ((x.receiving.setStream k (x.receiving.streams k)).setLoop k (.receiving r₁), none) := by
      simp only [ReceivingStack.step, hl, hpoll]
    have hs := h.can_step hst trivial (by rw [hl]; trivial) List.nil_prefix x
    refine .after (.step (.init rfl) hs) (hcall' _ (h.step hs).1 ?_ ReceivingStack.setLoop_self ?_)
    · exact ReceivingStack.setStream_self
    · rw [← hrest]
      show (x.sending.sockets.wire k).drop (Function.update x.taken k (x.taken k + 0) k) = _
      rw [Function.update_self, Nat.add_zero]

/-- Who writes can write all of its datagram, and gives the mutex back. -/
theorem Ready.writes {r : TunnelFrameReader} {idx : Nat} {io : Io} (h : x.Ready fds mtu client)
    (hl : x.receiving.loops k = .delivering (.write r idx io)) :
    ∃ tr x', (draining fds mtu client x).Run tr x' ∧ (0 < tr.countP fun t => t.label.goesOn k) ∧
      x'.receiving.queues.locked idx = false ∧ ∀ j, j ≠ k → x'.receiving.loops j = x.receiving.loops j := by
  obtain ⟨lost, out, hacc⟩ := h.accounted
  have hpos : 0 < r.size := by
    obtain ⟨fs, p, ds, harr⟩ := hacc.runs (k := k) (by rw [hl]; rfl)
    have hloop := harr.loop
    rw [hl] at hloop
    obtain ⟨-, d, ds', rfl, hhere⟩ := hloop
    rw [hhere.sees.1]
    refine List.length_pos_of_ne_nil (hacc.full (.delivery k) d ?_)
    show d ∈ x.pending k
    rw [harr.pending_eq]
    exact List.mem_cons_self
  have hcall : ∀ y : EndToEnd S K, y.Ready fds mtu client → y.receiving.loops k = .delivering (.write r idx .call) →
      ∃ tr x', (draining fds mtu client y).Run tr x' ∧ (0 < tr.countP fun t => t.label.goesOn k) ∧
        x'.receiving.queues.locked idx = false ∧ ∀ j, j ≠ k → x'.receiving.loops j = y.receiving.loops j := by
    intro y hy hl
    have hret : (Delivery.fd y.receiving.queues idx).writeStep r.size .call (.call (.ok r.size)) =
        some (.returned r.size) := FileDescriptor.retryStep_call (show 0 < id r.size from hpos) (Nat.le_refl _)
    obtain ⟨receiving, o, hst, hfree⟩ : ∃ receiving o,
        y.receiving.step k (.deliver (.io (.call (.ok r.size)))) = some (receiving, o) ∧
          receiving.queues.locked idx = false := by
      refine ⟨_, _, by simp only [ReceivingStack.step, hl, Delivery.step, hret]; rfl, Function.update_self ..⟩
    have hs := hy.can_step hst (show 0 < id r.size from hpos) (by rw [hl]; rfl) List.nil_prefix y
    exact ⟨_, _, .step (.init rfl) hs, by simp [EndToEndLabel.goesOn, ReceiveEvent.progress], hfree,
      fun j hj => ((ReceivingStack.step_others hst).2.2 j hj).1⟩
  cases io with
  | call => exact hcall x h hl
  | poll =>
    have hst : x.receiving.step k (.deliver (.io (.poll (.ok 1)))) =
        some (x.receiving.setLoop k (.delivering (.write r idx .call)), none) := by
      simp only [ReceivingStack.step, hl]
      rfl
    have hs := h.can_step hst trivial (by rw [hl]; trivial) List.nil_prefix x
    obtain ⟨tr, x', hr, hcount, hfree, hothers⟩ := hcall _ (h.step hs).1 ReceivingStack.setLoop_self
    refine ⟨_, x', draining_append (.step (.init rfl) hs) hr, ?_, hfree, fun j hj => ?_⟩
    · rw [List.countP_append]
      omega
    · exact (hothers j hj).trans (ReceivingStack.setLoop_ne hj)

/-- A loop that waits for a mutex gets it, once who has it has written. -/
theorem Ready.locks {r : TunnelFrameReader} {idx : Nat} (h : x.Ready fds mtu client)
    (hl : x.receiving.loops k = .delivering (.lock r idx)) : x.GoesOn fds mtu client k := by
  have hfree : ∀ y : EndToEnd S K, y.Ready fds mtu client → y.receiving.loops k = .delivering (.lock r idx) →
      y.receiving.queues.locked idx = false → y.GoesOn fds mtu client k := by
    intro y hy hl hun
    obtain ⟨receiving, hst⟩ : ∃ receiving, y.receiving.step k (.deliver .tau) = some (receiving, none) :=
      ⟨_, by simp only [ReceivingStack.step, hl, Delivery.step, hun]; rfl⟩
    exact hy.goesOn_now hst trivial (by rw [hl]; trivial) List.nil_prefix rfl
  cases hq : x.receiving.queues.locked idx with
  | false => exact hfree x h hl hq
  | true =>
    obtain ⟨j, r', io, hj⟩ := h.held idx hq
    have hkj : k ≠ j := by
      rintro rfl
      rw [hl] at hj
      cases hj
    obtain ⟨tr, y, hr, -, hun, hothers⟩ := h.writes hj
    exact .after hr (hfree y (h.run hr).1 ((hothers k hkj).trans hl) hun)

/-- **Whoever has something to do can go on**: no loop waits for another that
waits for it. -/
theorem Ready.goes_on (h : x.Ready fds mtu client) (hk : (x.receiving.loops k).dead = false) (hdue : x.due k ≠ []) :
    x.GoesOn fds mtu client k := by
  obtain ⟨lost, out, hacc⟩ := h.accounted
  obtain ⟨fs, p, ds, harr⟩ := hacc.runs hk
  have hloop := harr.loop
  cases hl : x.receiving.loops k with
  | head => exact h.goesOn_tau (by simp only [ReceivingStack.step, hl, h.uninterrupted]; rfl)
  | receiving r =>
    cases r with
    | header n io => exact h.reads hk hl rfl hdue
    | body n t io => exact h.reads hk hl rfl hdue
    | returned buf => exact h.goesOn_tau (by simp only [ReceivingStack.step, hl, hacc.chain.back]; rfl)
    | failed e =>
      rw [hl] at hk
      cases hk
  | delivering d =>
    rw [hl] at hloop
    cases d with
    | next r =>
      obtain ⟨receiving, hst⟩ : ∃ receiving, x.receiving.step k (.deliver .tau) = some (receiving, none) := by
        simp only [ReceivingStack.step, hl, Delivery.step]
        rcases TunnelFrameReader.Left.next hloop.2 with ⟨-, hn⟩ | ⟨_, _, -, hn, -⟩
        · rw [show r.next = (.ok false, r.next.2) from Prod.ext hn rfl]
          exact ⟨_, rfl⟩
        · rw [show r.next = (.ok true, r.next.2) from Prod.ext hn rfl]
          exact ⟨_, rfl⟩
      exact h.goesOn_now hst trivial (by rw [hl]; trivial) List.nil_prefix rfl
    | lock r idx => exact h.locks hl
    | write r idx io =>
      obtain ⟨tr, y, hr, hpos, -⟩ := h.writes hl
      exact ⟨tr, y, hr, hpos⟩
    | returned => exact h.goesOn_tau (by simp only [ReceivingStack.step, hl]; rfl)
    | failed e =>
      rw [hl] at hk
      cases hk
  | ended e =>
    rw [hl] at hk
    cases hk

/-- So it can have delivered it all, for the steps it has left get fewer. -/
theorem Ready.delivers {n : Nat} (h : x.Ready fds mtu client) (hk : (x.receiving.loops k).dead = false)
    (hn : x.left k < n) : ∃ tr y, (draining fds mtu client x).Run tr y ∧ y.due k = [] := by
  induction n generalizing x with
  | zero => exact absurd hn (Nat.not_lt_zero _)
  | succ n ih =>
    by_cases hdue : x.due k = []
    · exact ⟨[], x, .init rfl, hdue⟩
    · obtain ⟨tr, y, hr, hpos⟩ := h.goes_on hk hdue
      obtain ⟨hy, hall⟩ := h.run hr
      obtain ⟨hky, -, hleft⟩ := hall k hk
      obtain ⟨tr', z, hr', hz⟩ := ih hy hky (by omega)
      exact ⟨tr ++ tr', z, draining_append hr hr', hz⟩

/-- Each loop in turn, for what one has delivered none takes back. -/
theorem Ready.delivers_all (h : x.Ready fds mtu client) (ks : Finset K) :
    ∃ tr y, (draining fds mtu client x).Run tr y ∧ ∀ k ∈ ks, (x.receiving.loops k).dead = false → y.due k = [] := by
  induction ks using Finset.induction_on with
  | empty => exact ⟨[], x, .init rfl, fun k hk => absurd hk (Finset.notMem_empty k)⟩
  | @insert k ks _ ih =>
    obtain ⟨tr, y, hr, hall⟩ := ih
    obtain ⟨hy, hrun⟩ := h.run hr
    cases hk : (x.receiving.loops k).dead with
    | true =>
      refine ⟨tr, y, hr, fun j hj hjd => hall j ((Finset.mem_insert.1 hj).resolve_left ?_) hjd⟩
      rintro rfl
      rw [hk] at hjd
      cases hjd
    | false =>
      obtain ⟨tr', z, hr', hz⟩ := hy.delivers (hrun k hk).1 (Nat.lt_succ_self _)
      refine ⟨tr ++ tr', z, draining_append hr hr', fun j hj hjd => ?_⟩
      rcases Finset.mem_insert.1 hj with rfl | hj
      · exact hz
      · have hdue := ((hy.run hr').2 j (hrun j hjd).1).2.1
        rw [hall j hj hjd] at hdue
        exact (List.append_eq_nil_iff.1 hdue).2

/-- A run in which nothing fails leaves no torn frame. -/
theorem undisturbed_tolerable {tr : List (Transition (EndToEnd S K) (EndToEndLabel S K))}
    (h : (endToEnd K fds mtu client).Run tr x) (hC : ∀ t ∈ tr, Undisturbed t) : ∀ t ∈ tr, Tolerable t := by
  induction h with
  | init => exact fun t ht => absurd ht List.not_mem_nil
  | @step tr y l y' hr hs ih =>
    have hC' : ∀ t ∈ tr, Undisturbed t := fun t ht => hC t (List.mem_append_left _ ht)
    have hU := hC _ (List.mem_append_right _ (List.mem_singleton_self _))
    intro t ht
    rcases List.mem_append.1 ht with ht | ht
    · exact ih hC' t ht
    rw [List.mem_singleton] at ht
    subst ht
    cases l with
    | send l =>
      rintro l' - ⟨k, -, r, hrec, htorn⟩
      have hok := (run_belt hr hC').1.calm.unfailed.sends k r hrec
      rw [htorn.1] at hok
      cases hok
    | receive k ev => exact hU.2
    | interrupt => exact hU.elim

theorem run_ready {tr : List (Transition (EndToEnd S K) (EndToEndLabel S K))} (h : (endToEnd K fds mtu client).Run tr x)
    (hC : ∀ t ∈ tr, Tolerable t) (hi : x.receiving.interrupted = false) : x.Ready fds mtu client := by
  obtain ⟨lost, hacc⟩ := run_accounted h hC
  exact ⟨⟨_, _, hacc⟩, held_run h, hi⟩

/-- The loops go on with a run, and read nothing. -/
theorem run_draining {tr tr' : List (Transition (EndToEnd S K) (EndToEndLabel S K))}
    (h : (endToEnd K fds mtu client).Run tr x) (hC : ∀ t ∈ tr, Tolerable t)
    (h' : (draining fds mtu client x).Run tr' x') :
    (endToEnd K fds mtu client).Run (tr ++ tr') x' ∧ (∀ t ∈ tr ++ tr', Tolerable t) ∧ x'.read = x.read := by
  refine ⟨h.append h' (fun _ hi => hi) fun _ _ _ hs => hs.1, fun t ht => ?_, ?_⟩
  · rcases List.mem_append.1 ht with ht | ht
    · exact hC t ht
    · obtain ⟨-, ⟨-, k, ev, hl, -, hwh⟩, -⟩ := h'.transition t ht
      cases t
      cases hl
      exact hwh
  · refine h'.reachable.invariant (I := fun y => y.read = x.read) (fun y hy => congrArg _ hy) ?_
    rintro y l y' - hI ⟨hs, k, ev, rfl, -⟩
    cases hs with
    | receive ha hb hst => exact hI

end

/-- A thread has read two datagrams, and their frame is whole on the stream. -/
theorem run_arrived : ∃ tr x, (endToEnd Unit (fun _ : Unit => ⟨"tun", 3⟩) 1500 none).Run tr x ∧
    (∀ t ∈ tr, Tolerable t) ∧ x.receiving.interrupted = false ∧ (x.receiving.loops ()).dead = false ∧
    x.read = [((), [1, 2, 3]), ((), [4, 5])] ∧ delivered tr = [] ∧ x.due () = [[1, 2, 3], [4, 5]] := by
  obtain ⟨pipes, hp, -⟩ := TunnelFramePipe.attached_chain
  obtain ⟨t, hrun, buf, hbuf, hmtu, hsize₀⟩ : ∃ t, TunnelThread.start.run ⟨"tun", 3⟩ 1500 false
      [.tau, .tau, .polled (.ok 1), .io (.call (.ok [1, 2, 3])), .tau, .polled (.ok 1), .io (.call (.ok [4, 5])), .tau,
        .polled (.ok 0), .tau] = some t ∧ ∃ buf, t.loop = .invoking buf ∧ t.mtuBuffer = [] ∧ buf.size = 167 :=
    ⟨_, rfl, _, rfl, rfl, rfl⟩
  obtain ⟨sending, d, s, h, hbatch, hcarried, -, hs, hsend, hsize⟩ := reachable_sending (n := buf.size) hrun
    (by simp [LoopEvent.Own, LoopEvent.Smooth, IoEvent.Smooth]) hbuf hmtu (by omega) (Nat.le_refl _)
    { pipes, queues := ⟨[⟨"tun", 4⟩], by decide, 0, fun _ => false, fun _ => 0⟩,
      streams := fun _ => ⟨⟨"Server", 6⟩, fun _ => 0⟩, loops := fun _ => .head, interrupted := false }
    ⟨hp, fun _ => rfl, rfl, fun _ => rfl⟩
  obtain ⟨tr, hr, hC⟩ := h.restrict
  have hT := undisturbed_tolerable hr hC
  refine ⟨tr, _, hr, hT, rfl, rfl, rfl, List.map_eq_nil_iff.1 (delivered_written hr hT), ?_⟩
  obtain ⟨hI, hbelt⟩ := run_belt hr hC
  -- The sender has nothing left to put on the stream.
  have hunsent : sending.sockets.unsent () = [] := by
    have huse := SocketState.reachable_streamUse (SendingStack.maps_sockets.reachable hI.reachable) ()
    rw [SocketState.unsent_busy huse hs rfl, hsend, TunnelFrameStream.sendLoop, if_neg (by omega)]
    rfl
  have ho := Conveyor.in_order (places_line (i := ()) (k := ()) (fun _ => rfl) fun _ => rfl) hbelt
  simp only [belt, List.flatMap_cons, List.flatMap_nil, hbatch, hcarried, underway, flow, SocketState.outgoing,
    hunsent, List.append_nil] at ho
  exact ho

end EndToEnd

/-- **What has arrived can be delivered.** Whatever tolerable has happened, no
receive loop aborts the process; and until they are interrupted none that runs
is ever stuck. However the loops take turns from there on while nothing fails,
each delivers the datagrams of its stream in their order, and takes no more
steps than it has left, retries apart; and wherever they have got to, all of
these can still be delivered. -/
theorem arrived_deliverable {S K : Type} [DecidableEq S] [DecidableEq K] {fds : S → FileDescriptor} {mtu : Nat}
    {client : Option SessionId} {tr : List (Transition (EndToEnd S K) (EndToEndLabel S K))} {x : EndToEnd S K}
    (h : (endToEnd K fds mtu client).Run tr x) (hC : ∀ t ∈ tr, Tolerable t) :
    x.receiving.Alive ∧ (x.receiving.interrupted = false → ∀ tr' x', (EndToEnd.draining fds mtu client x).Run tr' x' →
      (∀ k, (x.receiving.loops k).dead = false → EndToEnd.deliveredBy k tr' ++ x'.due k = x.due k ∧
        tr'.countP (fun t => t.label.goesOn k) ≤ x.left k) ∧
      ∀ ks : Finset K, ∃ tr'' x'', (EndToEnd.draining fds mtu client x).Run (tr' ++ tr'') x'' ∧
        ∀ k ∈ ks, (x.receiving.loops k).dead = false → EndToEnd.deliveredBy k (tr' ++ tr'') = x.due k) := by
  obtain ⟨lost, hacc⟩ := EndToEnd.run_accounted h hC
  refine ⟨fun k c hk => ?_, fun hi tr' x' hr => ?_⟩
  · have hun := hacc.unaborted k
    rw [hk] at hun
    cases hun
  have hready := EndToEnd.run_ready h hC hi
  obtain ⟨hready', hrun⟩ := hready.run hr
  refine ⟨fun k hk => ?_, fun ks => ?_⟩
  · obtain ⟨-, hdue, hleft⟩ := hrun k hk
    exact ⟨hdue, by omega⟩
  · obtain ⟨tr'', x'', hr'', hall⟩ := hready'.delivers_all ks
    have hlast := EndToEnd.draining_append hr hr''
    refine ⟨tr'', x'', hlast, fun k hks hk => ?_⟩
    have hdue := ((hready.run hlast).2 k hk).2.1
    rwa [hall k hks (hrun k hk).1, List.append_nil] at hdue

/-- The frame on the stream is delivered. -/
theorem arrived_deliverable_one : ∃ tr x tr' x', (endToEnd Unit (fun _ : Unit => ⟨"tun", 3⟩) 1500 none).Run tr x ∧
    (∀ t ∈ tr, Tolerable t) ∧ x.receiving.interrupted = false ∧ x.due () = [[1, 2, 3], [4, 5]] ∧
    (EndToEnd.draining (fun _ : Unit => ⟨"tun", 3⟩) 1500 none x).Run tr' x' ∧
    EndToEnd.deliveredBy () tr' = [[1, 2, 3], [4, 5]] := by
  obtain ⟨tr, x, hr, hC, hi, hloop, -, -, hdue⟩ := EndToEnd.run_arrived
  obtain ⟨tr', x', hr', hall⟩ := ((arrived_deliverable hr hC).2 hi [] x (.init rfl)).2 {()}
  exact ⟨tr, x, _, x', hr, hC, hi, hdue, hr', hdue ▸ hall () (Finset.mem_singleton_self ()) hloop⟩

end RuralPipe
