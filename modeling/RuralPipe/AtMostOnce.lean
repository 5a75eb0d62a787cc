/-
What is left of exactly once when threads, loops and sends fail.

No datagram is doubled, changed or made up, and none is lost but with a thread
that has ended or on a stream whose loop is dead. Whatever else happens, over
each stream the datagrams of each tunnel queue keep their order: one stream may
overtake another, but nothing overtakes on the way from a queue through its
thread over a stream.
-/
import Mathlib.Data.Set.List
import Mathlib.Tactic.Abel
import RuralPipe.Arrivals

namespace RuralPipe

/-- **At most once, whatever fails.** In every state of every run in which no
sender takes a stream with a torn frame on it: the datagrams read from the
tunnel queues of the one side are those written to the queues of the other,
those in whole frames on a stream, those of a frame partly delivered, those in
a batch, those carried over, and those lost, each as often; a datagram is lost
only with a thread that has ended, or on a stream whose loop is dead. -/
theorem datagrams_at_most_once {S K : Type} [DecidableEq S] [DecidableEq K] [Fintype S] [Fintype K]
    {fds : S → FileDescriptor} {mtu : Nat} {client : Option SessionId}
    {tr : List (Machine.Transition (EndToEnd S K) (EndToEndLabel S K))} {x : EndToEnd S K}
    (h : (endToEnd K fds mtu client).Run tr x) (hC : ∀ t ∈ tr, Tolerable t) :
    ∃ (lostBy : S → List (List UInt8)) (lostOn : K → List (List UInt8)),
      (x.read.map (·.2) : Multiset (List UInt8)) = x.written.map (·.2) +
        ((∑ k, (x.onWay k : Multiset (List UInt8))) + ∑ k, (x.pending k : Multiset (List UInt8))) +
        ((∑ i, (x.sending.ownBatch i : Multiset (List UInt8))) + ∑ i, (x.sending.ownSpare i : Multiset (List UInt8))) +
        ((∑ i, (lostBy i : Multiset (List UInt8))) + ∑ k, (lostOn k : Multiset (List UInt8))) ∧
      (∀ i, lostBy i ≠ [] → (x.sending.threads i).Ended) ∧
      ∀ k, lostOn k ≠ [] → (x.receiving.loops k).dead = true := by
  obtain ⟨lost, hI⟩ := EndToEnd.run_accounted h hC
  obtain ⟨tr', hmoved, -, -⟩ := hI.moved
  refine ⟨fun i => lost (.inl i), fun k => lost (.inr k), ?_, hI.threads, hI.loops⟩
  have hcons : (x.read.map (·.2) : Multiset (List UInt8)) = x.written.map (·.2) + _ :=
    Conveyor.conserved hmoved.reachable
  rw [Conveyor.contents_drained, Place.contents_eq, Conveyor.contents, Fintype.sum_sum_type] at hcons
  rw [hcons]
  show _ + (((∑ i, (x.held (.carried i) : Multiset (List UInt8))) + ∑ i, (x.held (.batch i) : Multiset (List UInt8))) +
    ((∑ k, (x.held (.stream k) : Multiset (List UInt8))) + ∑ k, (x.held (.delivery k) : Multiset (List UInt8))) + _) = _
  simp only [EndToEnd.held, EndToEnd.leakyBelt, Sum.elim_inr]
  abel

/-- A thread reads a datagram, and its `poll` for another fails. -/
theorem EndToEnd.run_poll_fails : ∃ tr x, (endToEnd Unit (fun _ : Unit => ⟨"tun", 3⟩) 1500 none).Run tr x ∧
    (∀ t ∈ tr, Tolerable t) ∧ x.read = [((), [1, 2, 3])] ∧ x.written = [] ∧ x.receiving.loops () = .head ∧
    x.onWay () = [] ∧ (x.sending.threads ()).Ended := by
  obtain ⟨pipes, hp, -⟩ := TunnelFramePipe.attached_chain
  obtain ⟨t, hrun, hend⟩ : ∃ t, TunnelThread.start.run ⟨"tun", 3⟩ 1500 false
      [.tau, .tau, .polled (.ok 1), .io (.call (.ok [1, 2, 3])), .tau, .polled (.error EINTR)] = some t ∧ t.Ended :=
    ⟨_, rfl, _, rfl⟩
  obtain ⟨tr, h, hls⟩ := SendingStack.run_own (i := ()) (Machine.Run.init
    (M := sendingStack Unit (fun _ : Unit => ⟨"tun", 3⟩) 1500 none) ⟨pipes, hp, rfl⟩) rfl rfl
    (fun j hj => absurd rfl hj) (by simp [LoopEvent.Own]) hrun
  have hr : ReceivingStack.Starts (K := Unit)
      { pipes, queues := ⟨[⟨"tun", 4⟩], by decide, 0, fun _ => false, fun _ => 0⟩,
        streams := fun _ => ⟨⟨"Server", 6⟩, fun _ => 0⟩, loops := fun _ => .head, interrupted := false } :=
    ⟨hp, fun _ => rfl, rfl, fun _ => rfl⟩
  have h := EndToEnd.tolerable_sending hr h fun u hu l hl => by
    have hmem := List.mem_map_of_mem (f := (·.label)) hu
    rw [hls, hl] at hmem
    simp at hmem
  rw [hls] at h
  obtain ⟨tr', h, hC⟩ := h.restrict
  refine ⟨tr', _, h, hC, rfl, rfl, rfl, rfl, ?_⟩
  rw [SendingStack.setThread_self]
  exact hend

/-- The thread has lost the datagram. -/
theorem datagrams_at_most_once_poll : ∃ (x : EndToEnd Unit Unit) (lostBy : Unit → List (List UInt8)),
    x.read = [((), [1, 2, 3])] ∧ x.written = [] ∧ (x.sending.threads ()).Ended ∧ lostBy () = [[1, 2, 3]] := by
  obtain ⟨tr, x, h, hC, hread, hwritten, hloop, hway, hend⟩ := EndToEnd.run_poll_fails
  obtain ⟨lostBy, lostOn, hall, -, hon⟩ := datagrams_at_most_once h hC
  have hnone : lostOn () = [] := by
    by_contra hne
    have hdead := hon () hne
    rw [hloop] at hdead
    cases hdead
  obtain ⟨hbatch, hspare⟩ := SendingStack.ended_nothing hend
  have hpending : x.pending () = [] := by rw [EndToEnd.pending, hloop]; rfl
  have hlost : (([[1, 2, 3]] : List (List UInt8)) : Multiset (List UInt8)) = lostBy () := by
    simpa [hread, hwritten, hway, hpending, hbatch, hspare, hnone] using hall
  exact ⟨x, lostBy, hread, hwritten, hend, List.perm_singleton.1 (Multiset.coe_eq_coe.1 hlost.symm)⟩

/-! ## Order -/

/-- A datagram with the places that it went between. -/
def EndToEnd.between {S K : Type} (u : K × S × List UInt8) :
    (Place S K ⊕ (S ⊕ K)) × (Place S K ⊕ (S ⊕ K)) × List UInt8 := (.inl (.delivery u.1), atQueue u.2)

/-- From queue `i` a datagram gets to no other thread. -/
theorem Place.leads_own {S K : Type} {i : S} {p : Place S K ⊕ (S ⊕ K)}
    (h : ((places S K).withDrains (falls S K)).Leads (.inl (.carried i)) p) :
    match p with
    | .inl (.carried j) => i = j
    | .inl (.batch j) => i = j
    | _ => True := by
  induction h with
  | refl => rfl
  | @tail p q _ hlink ih =>
    rcases q with (j | j | k | k) | q
    · rcases p with (j' | j' | k | k) | p <;> exact hlink.elim
    · rcases p with (j' | j' | k | k) | p
      · exact ih.trans hlink
      all_goals exact hlink.elim
    all_goals trivial

/-- From a queue over a stream there is one way. -/
def Place.lane {S K : Type} (i : S) (k : K) : List (Place S K ⊕ (S ⊕ K)) :=
  [.inl (.delivery k), .inl (.stream k), .inl (.batch i), .inl (.carried i)]

theorem Place.lane_way {S K : Type} (i : S) (k : K) :
    ((places S K).withDrains (falls S K)).Way (.inl (.carried i)) (Place.lane i k) := by
  refine ⟨by simp [Place.lane], fun _ => ⟨[.inl (.delivery k), .inl (.stream k), .inl (.batch i)], rfl⟩,
    fun p q hmem hlead hlink => ?_, fun p hmem _ hexit => ?_⟩
  · simp only [Place.lane, List.mem_cons, List.not_mem_nil, or_false] at hmem
    rcases hmem with rfl | rfl | rfl | rfl
    · rcases p with (j | j | k' | k') | p
      case inl.stream =>
        obtain rfl : k' = k := hlink
        exact ⟨[], [.inl (.batch i), .inl (.carried i)], rfl⟩
      all_goals exact hlink.elim
    · rcases p with (j | j | k' | k') | p
      case inl.batch =>
        obtain rfl : i = j := Place.leads_own hlead
        exact ⟨[.inl (.delivery k)], [.inl (.carried i)], rfl⟩
      all_goals exact hlink.elim
    · rcases p with (j | j | k' | k') | p
      case inl.carried =>
        obtain rfl : j = i := hlink
        exact ⟨[.inl (.delivery k), .inl (.stream k)], [], rfl⟩
      all_goals exact hlink.elim
    · rcases p with (j | j | k' | k') | p <;> exact hlink.elim
  · simp only [Place.lane, List.mem_cons, List.not_mem_nil, or_false] at hmem
    rcases hmem with rfl | rfl | rfl | rfl
    · exact ⟨_, rfl⟩
    all_goals exact hexit.elim

theorem EndToEnd.between_filter {S K : Type} [DecidableEq S] [DecidableEq K] {i : S} {k : K} {q : _ → Bool}
    {w : List (K × S × List UInt8)} (hq : ∀ u, q u = true ↔ u.1 ∈ Place.lane i k ∧ u.2.1 = .inl (.carried i)) :
    (w.map EndToEnd.between).filter q = (w.filter fun u => u.1 = k ∧ u.2.1 = i).map EndToEnd.between := by
  refine List.filter_map.trans (congrArg _ (List.filter_congr fun u _ => Bool.eq_iff_iff.2 ?_))
  rw [Function.comp_apply, hq, decide_eq_true_iff]
  simp [EndToEnd.between, EndToEnd.atQueue, Place.lane]

theorem EndToEnd.atQueue_filter {S K : Type} [DecidableEq S] {i : S} {q : (Place S K ⊕ (S ⊕ K)) × List UInt8 → Bool}
    {rs : List (S × List UInt8)} (hq : ∀ r, q r = true ↔ r.1 = .inl (.carried i)) :
    (rs.map EndToEnd.atQueue).filter q = (rs.filter (·.1 = i)).map EndToEnd.atQueue := by
  refine List.filter_map.trans (congrArg _ (List.filter_congr fun r _ => Bool.eq_iff_iff.2 ?_))
  rw [Function.comp_apply, hq, decide_eq_true_iff]
  simp [EndToEnd.atQueue]

/-- **In order, whatever fails.** In every such run each datagram written can be
given the queue that it was read from, so that none is written more often than
it was read there, and those of each queue that came over each stream were
written in the order they were read. -/
theorem queues_keep_order {S K : Type} [DecidableEq S] [DecidableEq K] [Fintype S] [Fintype K]
    {fds : S → FileDescriptor} {mtu : Nat} {client : Option SessionId}
    {tr : List (Machine.Transition (EndToEnd S K) (EndToEndLabel S K))} {x : EndToEnd S K}
    (h : (endToEnd K fds mtu client).Run tr x) (hC : ∀ t ∈ tr, Tolerable t) :
    (EndToEnd.delivered tr).map (·.2) = x.written.map (·.2) ∧
      ∃ w : List (K × S × List UInt8), w.map (fun u => (u.1, u.2.2)) = EndToEnd.delivered tr ∧
        (w.map (·.2) : Multiset (S × List UInt8)) ≤ x.read ∧
        ∀ i k, ((w.filter fun u => u.1 = k ∧ u.2.1 = i).map (·.2)).Sublist (x.read.filter (·.1 = i)) := by
  classical
  obtain ⟨lost, hI⟩ := EndToEnd.run_accounted h hC
  obtain ⟨tr', hmoved, hin, hout⟩ := hI.moved
  refine ⟨EndToEnd.delivered_written h hC, ?_⟩
  obtain ⟨w, hw, hle, hway⟩ := Conveyor.ways_in_order hmoved
  rw [hout] at hw
  rw [hin] at hle hway
  -- Everything came in at a queue, and went out at a loop.
  obtain ⟨w, rfl⟩ : w ∈ Set.range (List.map EndToEnd.between) := by
    rw [Set.range_list_map]
    intro u hu
    have hmem := List.mem_map_of_mem (f := fun u => (u.1, u.2.2)) hu
    rw [hw] at hmem
    obtain ⟨⟨k, d⟩, -, hk⟩ := List.mem_map.1 hmem
    have hmem := Multiset.mem_of_le hle (List.mem_map_of_mem (f := (·.2)) hu)
    obtain ⟨⟨i, d'⟩, -, hi⟩ := List.mem_map.1 hmem
    obtain ⟨p, q, e⟩ := u
    cases hk
    cases hi
    exact ⟨(k, i, _), rfl⟩
  have hqueue : (w.map EndToEnd.between).map (·.2) = (w.map (·.2)).map EndToEnd.atQueue := by
    rw [List.map_map, List.map_map]
    rfl
  have hinj := EndToEnd.atQueue_injective (S := S) (K := K)
  have hinj' := EndToEnd.atLoop_injective (S := S) (K := K)
  refine ⟨w, List.map_injective_iff.2 hinj' ?_, (Multiset.map_le_map_iff hinj).1 ?_, fun i k => ?_⟩
  · rw [← hw, List.map_map, List.map_map]
    rfl
  · rwa [hqueue] at hle
  · have hsub := hway _ _ (Place.lane_way i k)
    rw [EndToEnd.between_filter (i := i) (k := k), EndToEnd.atQueue_filter (i := i), List.map_map] at hsub
    · obtain ⟨rs, hsub, heq⟩ := List.sublist_map_iff.1 hsub
      have heq : (w.filter fun u => u.1 = k ∧ u.2.1 = i).map (·.2) = rs :=
        List.map_injective_iff.2 hinj ((List.map_map ..).trans heq)
      exact heq ▸ hsub
    · simp
    · simp

/-- Two datagrams of a queue, delivered in their order. -/
theorem queues_keep_order_two : ∃ (tr : List (Machine.Transition (EndToEnd Unit Unit) (EndToEndLabel Unit Unit)))
    (x : EndToEnd Unit Unit) (w : List (Unit × Unit × List UInt8)),
    (endToEnd Unit (fun _ : Unit => ⟨"tun", 3⟩) 1500 none).Run tr x ∧ x.read = [((), [1, 2, 3]), ((), [4, 5])] ∧
    EndToEnd.delivered tr = [((), [1, 2, 3]), ((), [4, 5])] ∧
    w.map (fun u => (u.1, u.2.2)) = EndToEnd.delivered tr ∧
    ((w.filter fun u => u.1 = () ∧ u.2.1 = ()).map (·.2)).Sublist (x.read.filter (·.1 = ())) := by
  obtain ⟨tr, x, h, hC, hi, hdead, hread, hdel, hdue⟩ := EndToEnd.run_arrived
  have hready := EndToEnd.run_ready h hC hi
  obtain ⟨tr', x', h', hall⟩ := hready.delivers_all {()}
  obtain ⟨-, hby, -⟩ := (hready.run h').2 () hdead
  rw [hall () (Finset.mem_singleton_self ()) hdead, List.append_nil, hdue] at hby
  obtain ⟨hrun, hC', hread'⟩ := EndToEnd.run_draining h hC h'
  -- Over the one stream came what was due there.
  have hdelivered : EndToEnd.delivered (tr ++ tr') = [((), [1, 2, 3]), ((), [4, 5])] := by
    have hone : EndToEnd.delivered (tr ++ tr') = (EndToEnd.delivered tr').map id := by
      rw [EndToEnd.delivered, List.flatMap_append, List.map_id]
      show EndToEnd.delivered tr ++ EndToEnd.delivered tr' = _
      rw [hdel, List.nil_append]
    have hpair : (id : Unit × List UInt8 → Unit × List UInt8) = (fun d => ((), d)) ∘ (·.2) := rfl
    rw [hone, hpair, ← List.map_map]
    have hmap : (EndToEnd.delivered tr').map (·.2) = [[1, 2, 3], [4, 5]] := by
      have hself : (EndToEnd.delivered tr').filter (fun u => decide (u.1 = ())) = EndToEnd.delivered tr' :=
        List.filter_eq_self.2 fun u _ => decide_eq_true rfl
      rw [← hby, EndToEnd.deliveredBy, hself]
    rw [hmap]
    rfl
  obtain ⟨-, w, hw, -, hsub⟩ := queues_keep_order hrun hC'
  exact ⟨_, x', w, hrun, hread'.trans hread, hdelivered, hw, hsub () ()⟩

end RuralPipe
