/-
The inbound side: any number of threads in `onTunnelFrameFromNext`, over the
queues they share.

A thread owes the datagrams of its frame that it has not written yet
(`Delivery.Owes`), and each of its steps is one of five (`Delivery.Move`). What a
run has given out to queues and written is read off its transitions. Each thread's
datagrams are given out in order, written in order, once and whole, and the queues
take turns whoever draws (`inbound_spread`).
-/
import Mathlib.Algebra.GroupWithZero.Nat
import RuralPipe.FrameGrammar
import RuralPipe.RoundRobin
import RuralPipe.TunnelFacts

namespace RuralPipe

open Machine Bytes

/-- A well-formed frame of the datagrams `ds`, none of them empty. -/
structure TunnelFrameBuffer.Delivers (buf : TunnelFrameBuffer) (ds : List (List UInt8)) : Prop where
  passes : buf.Passes
  size_field : (TunnelFrameHeader.cast buf.data).size = buf.size
  parses : buf.Parses ds
  nonempty : ∀ d ∈ ds, d ≠ []

theorem TunnelFrameBuffer.Parses.datagrams_eq {buf : TunnelFrameBuffer} {ds : List (List UInt8)} (h : buf.Parses ds) :
    buf.datagrams = ds := by
  rw [datagrams, bytes, load_drop, Nat.zero_add, h.body]
  exact datagrams_body h.small

/-- A closed frame of datagrams is one. -/
theorem TunnelFrameBuffer.Closed.delivers {buf : TunnelFrameBuffer} {ds : List (List UInt8)} (h : buf.Closed ds)
    (hne : ∀ d ∈ ds, d ≠ []) : buf.Delivers ds where
  passes := ⟨_, h.check⟩
  size_field := h.size_field
  parses := ⟨h.header_le, by rw [h.size_eq, Nat.add_sub_cancel_left, h.body], h.small⟩
  nonempty := hne

theorem TunnelFrameBuffer.Delivers.size_eq {buf : TunnelFrameBuffer} {ds : List (List UInt8)} {r : TunnelFrameReader}
    (h : buf.Delivers ds) (hnew : TunnelFrameReader.new buf = .ok r) : buf.size = r.stop := by
  rw [(TunnelFrameReader.new_eq_ok hnew).1]
  exact h.size_field.symm

/-! ## One thread -/

namespace TunnelFrameReader

/-- The reader has the datagrams `left` of its frame before it. -/
def Before (r : TunnelFrameReader) (left : List (List UInt8)) : Prop :=
  ∃ buf ds r₀ k, TunnelFrameBuffer.Delivers buf ds ∧ new buf = .ok r₀ ∧ r = r₀.after k ∧
    k ≤ ds.length ∧ left = ds.drop k

/-- The reader is at the first of the datagrams `left`. -/
def On (r : TunnelFrameReader) (left : List (List UInt8)) : Prop :=
  ∃ buf ds r₀ k, TunnelFrameBuffer.Delivers buf ds ∧ new buf = .ok r₀ ∧ r = r₀.after (k + 1) ∧ k < ds.length ∧
    left = ds.drop k

variable {r : TunnelFrameReader} {left : List (List UInt8)}

theorem Before.start {buf : TunnelFrameBuffer} {ds : List (List UInt8)} (h : buf.Delivers ds) :
    ∃ r, new buf = .ok r ∧ r.Before ds := by
  obtain ⟨hdr, hc⟩ := h.passes
  have hnew : new buf = .ok { data := buf.data, stop := hdr.size, current := 0 } := by rw [new, hc]
  exact ⟨_, hnew, buf, ds, _, 0, h, hnew, rfl, Nat.zero_le _, rfl⟩

theorem Before.next (h : r.Before left) :
    (left = [] ∧ r.next.1 = .ok false) ∨ (left ≠ [] ∧ r.next.1 = .ok true ∧ r.next.2.On left) := by
  obtain ⟨buf, ds, r₀, k, hd, hnew, rfl, hk, rfl⟩ := h
  obtain ⟨hyields, hend⟩ := hd.parses.yields hnew (hd.size_eq hnew)
  rcases Nat.lt_or_ge k ds.length with hlt | hge
  · refine .inr ⟨by simpa using hlt, (hyields k _ (List.getElem?_eq_getElem hlt)).1, ?_⟩
    exact ⟨buf, ds, r₀, k, hd, hnew, rfl, hlt, rfl⟩
  · exact .inl ⟨List.drop_of_length_le hge, hend k hge⟩

/-- What the caller sees there is the first of them, and the others are left. -/
theorem On.sees (h : r.On left) : ∃ ds, left = r.datagram :: ds ∧ r.size = r.datagram.length ∧ r.Before ds := by
  obtain ⟨buf, ds, r₀, k, hd, hnew, rfl, hlt, rfl⟩ := h
  obtain ⟨-, hs, hg⟩ := (hd.parses.yields hnew (hd.size_eq hnew)).1 k _ (List.getElem?_eq_getElem hlt)
  rw [hs, hg]
  exact ⟨ds.drop (k + 1), List.drop_eq_getElem_cons hlt, rfl, buf, ds, r₀, k + 1, hd, hnew, rfl, hlt, rfl⟩

theorem On.size_pos (h : r.On left) : 0 < r.size := by
  obtain ⟨buf, ds, r₀, k, hd, hnew, rfl, hlt, rfl⟩ := h
  obtain ⟨-, hs, -⟩ := (hd.parses.yields hnew (hd.size_eq hnew)).1 k _ (List.getElem?_eq_getElem hlt)
  rw [hs]
  exact List.length_pos_iff.2 (hd.nonempty _ (List.getElem_mem hlt))

end TunnelFrameReader

namespace Delivery

/-- The datagrams that are yet to be written. -/
def Owes : Delivery → List (List UInt8) → Prop
  | .next r, left => r.Before left
  | .lock r _, left => r.On left
  | .write r _ _, left => r.On left
  | .returned, left => left = []
  | .failed _, _ => False

/-- The datagram that a queue was drawn for, and the queue. -/
def inFlight : Delivery → List (Nat × List UInt8)
  | .lock r idx => [(idx, r.datagram)]
  | .write r idx _ => [(idx, r.datagram)]
  | _ => []

theorem Owes.inFlight {d : Delivery} {left : List (List UInt8)} (h : d.Owes left) :
    d.inFlight.map Prod.snd <+: left := by
  cases d with
  | next r => exact List.nil_prefix
  | lock r idx =>
    obtain ⟨ds, rfl, -⟩ := TunnelFrameReader.On.sees h
    exact ⟨ds, rfl⟩
  | write r idx io =>
    obtain ⟨ds, rfl, -⟩ := TunnelFrameReader.On.sees h
    exact ⟨ds, rfl⟩
  | returned => exact List.nil_prefix
  | failed e => exact h.elim

/-- The steps of a delivery of the datagrams `left`: it ends, draws a queue,
takes its mutex, goes on in its write, or has written. -/
inductive Move (q : TunnelQueues) :
    Delivery → List (List UInt8) → TunnelQueues → Delivery → Option (Nat × List UInt8) → List (List UInt8) → Prop
  | ends {r} : Move q (.next r) [] q .returned none []
  | draws {r r' left} : Move q (.next r) left { q with roundRobin := q.roundRobin + 1 }
      (.lock r' ((q.roundRobin + 1).toNat % q.fds.length)) none left
  | locks {r idx left} : Move q (.lock r idx) left { q with locked := Function.update q.locked idx true }
      (.write r idx .call) none left
  | again {r idx io io' left} : Move q (.write r idx io) left q (.write r idx io') none left
  | writes {r idx io left} : Move q (.write r idx io) (r.datagram :: left)
      { q with locked := Function.update q.locked idx false,
               bytesOut := Function.update q.bytesOut idx (q.bytesOut idx + UInt64.ofNat r.datagram.length) }
      (.next r) (some (idx, r.datagram)) left

variable {q q' : TunnelQueues} {d d' : Delivery} {ev : DeliveryEvent} {left : List (List UInt8)}
  {out : Option (Nat × List UInt8)}

theorem Owes.start {buf : TunnelFrameBuffer} {ds : List (List UInt8)} (h : buf.Delivers ds) : (start buf).Owes ds := by
  obtain ⟨r, hnew, hb⟩ := TunnelFrameReader.Before.start h
  rw [Delivery.start, hnew]
  exact hb

/-- While nothing fails, a step is one of these, and what is left is owed. -/
theorem Owes.step (h : d.Owes left) (hs : d.step q ev = some (q', d', out)) (hsm : ev.Smooth) (hwh : d.Whole ev) :
    ∃ left', d'.Owes left' ∧ Move q d left q' d' out left' := by
  cases d with
  | next r =>
    cases ev with
    | io ev => cases hs
    | tau =>
      simp only [Delivery.step] at hs
      rcases TunnelFrameReader.Before.next h with ⟨rfl, hn⟩ | ⟨-, hn, hon⟩
      · have hpair : r.next = (.ok false, r.next.2) := Prod.ext hn rfl
        rw [hpair] at hs
        cases hs
        exact ⟨[], rfl, .ends⟩
      · have hpair : r.next = (.ok true, r.next.2) := Prod.ext hn rfl
        rw [hpair] at hs
        cases hs
        exact ⟨left, hon, .draws⟩
  | lock r idx =>
    cases ev with
    | io ev => cases hs
    | tau =>
      simp only [Delivery.step] at hs
      split at hs
      · cases hs
      · cases hs
        exact ⟨left, h, .locks⟩
  | write r idx io =>
    cases ev with
    | tau => cases hs
    | io ev =>
      simp only [Delivery.step] at hs
      cases ha : (fd q idx).writeStep r.size io ev with
      | none => rw [ha] at hs; cases hs
      | some at' =>
        rw [ha] at hs
        rcases FileDescriptor.retryStep_cases ha with ⟨n, -, rfl, -, -, rfl⟩ | ⟨io', rfl, -⟩ | ⟨ex, rfl, -, -, hno, -⟩
        · cases hs
          have hn : n = r.size := hwh
          obtain ⟨ds, rfl, hsize, hbefore⟩ := TunnelFrameReader.On.sees h
          refine ⟨ds, hbefore, ?_⟩
          rw [hn, show load r.data r.dataOffset r.size = r.datagram from rfl, hsize]
          exact .writes
        · cases hs
          exact ⟨left, h, .again⟩
        · exact absurd hsm hno
  | returned => cases ev <;> cases hs
  | failed e => cases ev <;> cases hs

/-- The queue drawn between two points of a delivery, and the datagram it is for. -/
def drawn : Delivery → Delivery → Option (Nat × List UInt8)
  | .next _, .lock r idx => some (idx, r.datagram)
  | _, _ => none

variable {left' : List (List UInt8)}

/-- What is owed and what is in flight pass on, in order. -/
theorem Move.flow (h : Move q d left q' d' out left') :
    left = (out.map Prod.snd).toList ++ left' ∧ d.inFlight ++ (drawn d d').toList = out.toList ++ d'.inFlight := by
  cases h <;> exact ⟨rfl, rfl⟩

/-- Only a draw moves the round robin. -/
theorem Move.draw (h : Move q d left q' d' out left') :
    (drawn d d' = none ∧ q'.roundRobin = q.roundRobin) ∨
    ∃ b, drawn d d' = some ((q.roundRobin + 1).toNat % q.fds.length, b) ∧ q'.roundRobin = q.roundRobin + 1 := by
  cases h with
  | draws => exact .inr ⟨_, rfl, rfl⟩
  | _ => exact .inl ⟨rfl, rfl⟩

/-- Only a write counts bytes. -/
theorem Move.bytes (h : Move q d left q' d' out left') :
    (out = none ∧ q'.bytesOut = q.bytesOut) ∨
    ∃ idx b, out = some (idx, b) ∧
      q'.bytesOut = Function.update q.bytesOut idx (q.bytesOut idx + UInt64.ofNat b.length) := by
  cases h with
  | writes => exact .inr ⟨_, _, rfl, rfl⟩
  | _ => exact .inl ⟨rfl, rfl⟩

theorem Move.fds (h : Move q d left q' d' out left') : q'.fds = q.fds := by cases h <;> rfl

end Delivery

/-! ## All threads -/

/-- The queues, and where each thread that receives frames stands. -/
structure Inbound (T : Type*) where
  queues : TunnelQueues
  threads : T → Delivery

/-- A thread is given a frame, or takes a step. -/
inductive InboundLabel (T : Type*)
  | receive (t : T) (buf : TunnelFrameBuffer)
  | step (t : T) (ev : DeliveryEvent)

/-- Threads that are given well-formed frames, one after the other, and whose
writes succeed. -/
def inbound (T : Type*) [DecidableEq T] (fds : List FileDescriptor) : Machine (Inbound T) (InboundLabel T) where
  init x := x.queues.fds = fds ∧ x.queues.roundRobin = 0 ∧ (∀ i, x.queues.locked i = false) ∧
    (∀ i, x.queues.bytesOut i = 0) ∧ ∀ t, x.threads t = .returned
  step
    | x, .receive t buf, x' => x.threads t = .returned ∧ (∃ ds, buf.Delivers ds) ∧
        x' = { x with threads := Function.update x.threads t (.start buf) }
    | x, .step t ev, x' => ev.Smooth ∧ (x.threads t).Whole ev ∧
        ∃ q d out, (x.threads t).step x.queues ev = some (q, d, out) ∧ x' = ⟨q, Function.update x.threads t d⟩

/-- A datagram given to a queue by a thread. -/
structure Placement (T : Type*) where
  thread : T
  queue : Nat
  datagram : List UInt8
  deriving DecidableEq

namespace Inbound

section
variable {T : Type*}

def place (t : T) (p : Nat × List UInt8) : Placement T := ⟨t, p.1, p.2⟩

/-- The datagram that a step draws a queue for. -/
def draws : Transition (Inbound T) (InboundLabel T) → Option (Placement T)
  | ⟨x, .step t _, x'⟩ => (Delivery.drawn (x.threads t) (x'.threads t)).map (place t)
  | _ => none

/-- The datagram that a step writes. -/
def writes : Transition (Inbound T) (InboundLabel T) → Option (Placement T)
  | ⟨x, .step t ev, _⟩ => (((x.threads t).step x.queues ev).bind (·.2.2)).map (place t)
  | _ => none

/-- The queues drawn in a run, in order. -/
def assigned (tr : List (Transition (Inbound T) (InboundLabel T))) : List (Placement T) := tr.filterMap draws

/-- What was written in a run, in order. -/
def delivered (tr : List (Transition (Inbound T) (InboundLabel T))) : List (Placement T) := tr.filterMap writes

/-- The bytes that a queue was given. -/
def total (ps : List (Placement T)) (i : Nat) : Nat :=
  ((ps.filter (·.queue = i)).map (·.datagram.length)).sum

theorem assigned_append (tr : List (Transition (Inbound T) (InboundLabel T))) (u) :
    assigned (tr ++ [u]) = assigned tr ++ (draws u).toList := by
  rw [assigned, List.filterMap_append, assigned, List.filterMap_cons, List.filterMap_nil]
  cases draws u <;> rfl

theorem delivered_append (tr : List (Transition (Inbound T) (InboundLabel T))) (u) :
    delivered (tr ++ [u]) = delivered tr ++ (writes u).toList := by
  rw [delivered, List.filterMap_append, delivered, List.filterMap_cons, List.filterMap_nil]
  cases writes u <;> rfl

theorem total_append (ps ps' : List (Placement T)) (i : Nat) : total (ps ++ ps') i = total ps i + total ps' i := by
  simp [total]

end

variable {T : Type*} [DecidableEq T]

/-- The datagrams of the frame that a step gives to the thread `t`. -/
def gives (t : T) : Transition (Inbound T) (InboundLabel T) → List (List UInt8)
  | ⟨_, .receive u buf, _⟩ => if u = t then buf.datagrams else []
  | _ => []

/-- The datagrams of the frames given to `t` in a run, in order. -/
def given (tr : List (Transition (Inbound T) (InboundLabel T))) (t : T) : List (List UInt8) := tr.flatMap (gives t)

/-- What one thread has to do with it. -/
def byThread (t : T) (ps : List (Placement T)) : List (Placement T) := ps.filter (·.thread = t)

variable {fds : List FileDescriptor} {tr : List (Transition (Inbound T) (InboundLabel T))} {x x' : Inbound T}
  {l : InboundLabel T} {u : Transition (Inbound T) (InboundLabel T)} {t : T}

theorem given_append (tr : List (Transition (Inbound T) (InboundLabel T))) (u) (t : T) :
    given (tr ++ [u]) t = given tr t ++ gives t u := by
  simp [given]

theorem byThread_append (t : T) (ps ps' : List (Placement T)) :
    byThread t (ps ++ ps') = byThread t ps ++ byThread t ps' := List.filter_append ..

theorem byThread_place (t : T) (ps : List (Nat × List UInt8)) : byThread t (ps.map (place t)) = ps.map (place t) := by
  rw [byThread, List.filter_eq_self]
  intro p hp
  obtain ⟨a, -, rfl⟩ := List.mem_map.1 hp
  exact decide_eq_true rfl

theorem byThread_other {t v : T} (h : v ≠ t) (ps : List (Nat × List UInt8)) : byThread v (ps.map (place t)) = [] := by
  rw [byThread, List.filter_eq_nil_iff]
  intro p hp
  obtain ⟨a, -, rfl⟩ := List.mem_map.1 hp
  exact decide_eq_false (Ne.symm h) ▸ Bool.false_ne_true

/-- What a run has come to: the round robin has counted the draws, `bytesOut` the
bytes delivered, and each thread has dealt with its datagrams in order. -/
structure Spread (fds : List FileDescriptor) (tr : List (Transition (Inbound T) (InboundLabel T))) (x : Inbound T) :
    Prop where
  queues : x.queues.fds = fds
  roundRobin : x.queues.roundRobin = UInt64.ofNat (assigned tr).length
  turns : (assigned tr).length < 2 ^ 64 →
    (assigned tr).map (·.queue) = turns fds.length (assigned tr).length
  bytesOut : ∀ i, x.queues.bytesOut i = UInt64.ofNat (total (delivered tr) i)
  thread : ∀ t, ∃ left, (x.threads t).Owes left ∧
    given tr t = (byThread t (delivered tr)).map (·.datagram) ++ left ∧
    byThread t (assigned tr) = byThread t (delivered tr) ++ (x.threads t).inFlight.map (place t)

theorem Spread.init (h : (inbound T fds).init x) : Spread fds [] x where
  queues := h.1
  roundRobin := h.2.1
  turns := fun _ => rfl
  bytesOut := h.2.2.2.1
  thread t := by
    refine ⟨[], ?_, rfl, ?_⟩
    · rw [h.2.2.2.2 t]
      rfl
    · rw [h.2.2.2.2 t]
      rfl

/-- A thread that is given a frame owes its datagrams. -/
theorem Spread.receive {buf : TunnelFrameBuffer} (h : Spread fds tr x)
    (hs : (inbound T fds).step x (.receive t buf) x') :
    Spread fds (tr ++ [⟨x, .receive t buf, x'⟩]) x' := by
  obtain ⟨hret, ⟨ds, hds⟩, hx⟩ := hs
  have hq : x'.queues = x.queues := by rw [hx]
  have ha : assigned (tr ++ [⟨x, .receive t buf, x'⟩]) = assigned tr := by
    rw [assigned_append]
    exact List.append_nil _
  have hw : delivered (tr ++ [⟨x, .receive t buf, x'⟩]) = delivered tr := by
    rw [delivered_append]
    exact List.append_nil _
  refine ⟨hq ▸ h.queues, ?_, ha ▸ h.turns, ?_, fun v => ?_⟩
  · rw [hq, ha, h.roundRobin]
  · rw [hq, hw]
    exact h.bytesOut
  obtain ⟨left, howes, hgiven, hby⟩ := h.thread v
  rw [ha, hw, given_append]
  by_cases hv : v = t
  · subst hv
    have hself : x'.threads v = .start buf := hx ▸ Function.update_self ..
    rw [hret] at howes hby
    cases howes
    refine ⟨ds, ?_, ?_, ?_⟩
    · rw [hself]
      exact .start hds
    · simp [gives, hgiven, hds.parses.datagrams_eq]
    · obtain ⟨r, hr, -⟩ := TunnelFrameReader.Before.start hds
      rw [hself, hby, Delivery.start, hr]
      rfl
  · have hother : x'.threads v = x.threads v := hx ▸ Function.update_of_ne hv ..
    refine ⟨left, ?_, ?_, ?_⟩
    · rwa [hother]
    · simp [gives, Ne.symm hv, hgiven]
    · rwa [hother]

/-- A step of a thread moves what it has in flight on, and leaves the others alone. -/
theorem Spread.step {ev : DeliveryEvent} (h : Spread fds tr x) (hs : (inbound T fds).step x (.step t ev) x') :
    Spread fds (tr ++ [⟨x, .step t ev, x'⟩]) x' := by
  obtain ⟨hsm, hwh, q, d, out, hstep, hx⟩ := hs
  obtain ⟨left, howes, hgiven, hby⟩ := h.thread t
  obtain ⟨left', howes', hmove⟩ := howes.step hstep hsm hwh
  obtain ⟨hleft, hflow⟩ := hmove.flow
  have hq : x'.queues = q := by rw [hx]
  have hself : x'.threads t = d := hx ▸ Function.update_self ..
  have ha : assigned (tr ++ [⟨x, .step t ev, x'⟩]) =
      assigned tr ++ (Delivery.drawn (x.threads t) d).toList.map (place t) := by
    rw [assigned_append]
    simp only [draws, hself, Option.toList_map]
  have hw : delivered (tr ++ [⟨x, .step t ev, x'⟩]) = delivered tr ++ out.toList.map (place t) := by
    rw [delivered_append]
    simp only [writes, hstep, Option.bind_some, Option.toList_map]
  refine ⟨by rw [hq, hmove.fds, h.queues], ?_, ?_, ?_, fun v => ?_⟩
  · rw [hq, ha]
    rcases hmove.draw with ⟨hnone, hd⟩ | ⟨b, hsome, hd⟩
    · rw [hnone, hd, h.roundRobin]
      simp
    · rw [hsome, hd, h.roundRobin]
      simp
  · rw [ha]
    rcases hmove.draw with ⟨hnone, -⟩ | ⟨b, hsome, -⟩
    · rw [hnone]
      simpa using h.turns
    · rw [hsome]
      intro hlt
      have hlen : (assigned tr).length + 1 < 2 ^ 64 := by simpa using hlt
      have hidx : (x.queues.roundRobin + 1).toNat = (assigned tr).length + 1 := by
        rw [h.roundRobin, UInt64.toNat_add, UInt64.toNat_ofNat']
        simp only [UInt64.toNat_one]
        omega
      simp [place, hidx, h.queues, h.turns (by omega), turns_succ]
  · intro i
    rw [hq, hw, total_append]
    rcases hmove.bytes with ⟨rfl, hb⟩ | ⟨idx, b, rfl, hb⟩
    · simp [hb, h.bytesOut i, total]
    · by_cases hi : i = idx
      · subst hi
        simp [hb, h.bytesOut i, total, place, UInt64.ofNat_add]
      · simp [hb, Function.update_of_ne hi, h.bytesOut i, total, place, Ne.symm hi]
  · rw [ha, hw, given_append, byThread_append, byThread_append]
    by_cases hv : v = t
    · subst hv
      refine ⟨left', ?_, ?_, ?_⟩
      · rwa [hself]
      · rw [byThread_place, hgiven, hleft]
        cases out <;> simp [gives, place]
      · rw [hself, byThread_place, byThread_place, hby, List.append_assoc, ← List.map_append, hflow, List.map_append,
          List.append_assoc]
    · obtain ⟨leftv, hov, hgv, hbv⟩ := h.thread v
      have hother : x'.threads v = x.threads v := hx ▸ Function.update_of_ne hv ..
      refine ⟨leftv, ?_, ?_, ?_⟩
      · rwa [hother]
      · rw [byThread_other hv, List.append_nil, hgv]
        exact List.append_nil _
      · rw [hother, byThread_other hv, byThread_other hv, List.append_nil, List.append_nil, hbv]

theorem run_spread (h : (inbound T fds).Run tr x) : Spread fds tr x := by
  induction h with
  | init hi => exact .init hi
  | @step tr x l x' hr hs ih =>
    cases l with
    | receive t buf => exact ih.receive hs
    | step t ev => exact ih.step hs

/-! ### Every delivery can come to its end -/

/-- A queue's mutex is held by a thread that writes. -/
def Held (x : Inbound T) : Prop := ∀ i, x.queues.locked i = true → ∃ t r io, x.threads t = .write r i io

/-- The run can go on to `x` without another frame. -/
def Leads (fds : List FileDescriptor) (tr : List (Transition (Inbound T) (InboundLabel T))) (x : Inbound T) : Prop :=
  ∃ tr', (inbound T fds).Run (tr ++ tr') x ∧ given (tr ++ tr') = given tr

variable {r : TunnelFrameReader} {idx : Nat} {io : Io}

theorem held_run (h : (inbound T fds).Run tr x) : x.Held := by
  induction h with
  | init hi =>
    intro i hl
    rw [hi.2.2.1 i] at hl
    cases hl
  | @step tr x l x' hr hs ih =>
    intro i hl
    cases l with
    | receive t buf =>
      obtain ⟨hret, -, hx⟩ := hs
      subst hx
      obtain ⟨u, r, io, hu⟩ := ih i hl
      have hne : u ≠ t := by
        intro he
        subst he
        rw [hret] at hu
        cases hu
      exact ⟨u, r, io, (Function.update_of_ne hne ..).trans hu⟩
    | step t ev =>
      obtain ⟨hsm, hwh, q, d, out, hstep, hx⟩ := hs
      obtain ⟨left, howes, -⟩ := (run_spread hr).thread t
      obtain ⟨left', -, hmove⟩ := howes.step hstep hsm hwh
      subst hx
      -- A holder that is not this thread stays where it is.
      have hother : (∀ r io, x.threads t ≠ .write r i io) → x.queues.locked i = true →
          ∃ v r io, Function.update x.threads t d v = .write r i io := by
        intro hno hl
        obtain ⟨u, r, io, hu⟩ := ih i hl
        have hne : u ≠ t := by
          intro he
          subst he
          exact hno r io hu
        exact ⟨u, r, io, (Function.update_of_ne hne ..).trans hu⟩
      generalize hxt : x.threads t = dt at hmove
      cases hmove with
      | ends => exact hother (by simp [hxt]) hl
      | draws => exact hother (by simp [hxt]) hl
      | @locks r idx left =>
        by_cases hi : i = idx
        · exact ⟨t, r, .call, hi ▸ Function.update_self ..⟩
        · exact hother (by simp [hxt]) ((Function.update_of_ne hi ..).symm.trans hl)
      | @again r idx io io' left =>
        by_cases hi : i = idx
        · exact ⟨t, r, io', hi ▸ Function.update_self ..⟩
        · exact hother (by simp [hxt, Ne.symm hi]) hl
      | @writes r idx io left =>
        by_cases hi : i = idx
        · have hno : false = true := (Function.update_self ..).symm.trans (hi ▸ hl)
          cases hno
        · exact hother (by simp [hxt, Ne.symm hi]) ((Function.update_of_ne hi ..).symm.trans hl)

theorem Leads.start (h : (inbound T fds).Run tr x) : Leads fds tr x :=
  ⟨[], by rwa [List.append_nil], by rw [List.append_nil]⟩

theorem Leads.held (h : Leads fds tr x) : x.Held := by
  obtain ⟨tr', hr, -⟩ := h
  exact held_run hr

theorem Leads.owes (h : Leads fds tr x) (t : T) : ∃ left, (x.threads t).Owes left := by
  obtain ⟨tr', hr, -⟩ := h
  obtain ⟨left, ho, -⟩ := (run_spread hr).thread t
  exact ⟨left, ho⟩

theorem Leads.step {q : TunnelQueues} {d : Delivery} {out : Option (Nat × List UInt8)} (h : Leads fds tr x) (t : T)
    (ev : DeliveryEvent) (hsm : ev.Smooth) (hwh : (x.threads t).Whole ev)
    (hs : (x.threads t).step x.queues ev = some (q, d, out)) : Leads fds tr ⟨q, Function.update x.threads t d⟩ := by
  obtain ⟨tr', hr, hg⟩ := h
  refine ⟨tr' ++ [⟨x, .step t ev, ⟨q, Function.update x.threads t d⟩⟩], ?_, ?_⟩
  · rw [← List.append_assoc]
    exact hr.step ⟨hsm, hwh, q, d, out, hs, rfl⟩
  · funext v
    rw [← List.append_assoc, given_append, hg]
    exact List.append_nil _

/-- A thread that writes can write its datagram, and the mutex is free. -/
theorem Leads.writes (h : Leads fds tr x) (hw : x.threads t = .write r idx io) :
    ∃ x', Leads fds tr x' ∧ x'.threads t = .next r ∧ x'.queues.locked idx = false ∧
      ∀ v, v ≠ t → x'.threads v = x.threads v := by
  have hcall : ∀ x, Leads fds tr x → x.threads t = .write r idx .call →
      ∃ x', Leads fds tr x' ∧ x'.threads t = .next r ∧ x'.queues.locked idx = false ∧
        ∀ v, v ≠ t → x'.threads v = x.threads v := by
    intro x h hw
    obtain ⟨left, howes⟩ := h.owes t
    rw [hw] at howes
    have hpos : 0 < r.size := howes.size_pos
    have hret : (Delivery.fd x.queues idx).writeStep r.size .call (.call (.ok r.size)) = some (.returned r.size) :=
      FileDescriptor.retryStep_call (show 0 < id r.size from hpos) (Nat.le_refl _)
    refine ⟨_, h.step t (.io (.call (.ok r.size))) hpos (by rw [hw]; rfl)
      (by rw [hw, Delivery.step, hret]), Function.update_self .., Function.update_self .., fun v hv => ?_⟩
    exact Function.update_of_ne hv ..
  cases io with
  | call => exact hcall x h hw
  | poll =>
    have hpoll := h.step t (.io (.poll (.ok 1))) trivial (by rw [hw]; trivial) (by rw [hw]; rfl)
    obtain ⟨x', hl, hn, hfree, hother⟩ := hcall _ hpoll (Function.update_self ..)
    exact ⟨x', hl, hn, hfree, fun v hv => (hother v hv).trans (Function.update_of_ne hv ..)⟩

/-- A thread that waits for a mutex can have it once its holder has written. -/
theorem Leads.locks (h : Leads fds tr x) (hw : x.threads t = .lock r idx) :
    ∃ x', Leads fds tr x' ∧ x'.threads t = .next r := by
  have hfree : ∀ x, Leads fds tr x → x.threads t = .lock r idx → x.queues.locked idx = false →
      ∃ x', Leads fds tr x' ∧ x'.threads t = .next r := by
    intro x h hw hf
    have hlock := h.step t .tau trivial (by rw [hw]; trivial)
      (by rw [hw, Delivery.step, if_neg (by rw [hf]; exact Bool.false_ne_true)])
    obtain ⟨x', hl, hn, -⟩ := hlock.writes (Function.update_self ..)
    exact ⟨x', hl, hn⟩
  cases hl : x.queues.locked idx with
  | false => exact hfree x h hw hl
  | true =>
    obtain ⟨u, r', io, hu⟩ := h.held idx hl
    have hne : t ≠ u := by
      intro he
      subst he
      rw [hw] at hu
      cases hu
    obtain ⟨x', hx', -, hf, hother⟩ := h.writes hu
    exact hfree x' hx' ((hother t hne).trans hw) hf

theorem Leads.next {left : List (List UInt8)} (h : Leads fds tr x) (hw : x.threads t = .next r) (hb : r.Before left) :
    ∃ x', Leads fds tr x' ∧ x'.threads t = .returned := by
  induction left generalizing x r with
  | nil =>
    rcases hb.next with ⟨-, hn⟩ | ⟨hne, -⟩
    · have hpair : r.next = (.ok false, r.next.2) := Prod.ext hn rfl
      exact ⟨_, h.step t .tau trivial (by rw [hw]; trivial) (by rw [hw, Delivery.step, hpair]),
        Function.update_self ..⟩
    · exact absurd rfl hne
  | cons d ds ih =>
    rcases hb.next with ⟨hnil, -⟩ | ⟨-, hn, hon⟩
    · cases hnil
    · have hpair : r.next = (.ok true, r.next.2) := Prod.ext hn rfl
      have hdraw := h.step t .tau trivial (by rw [hw]; trivial) (by rw [hw, Delivery.step, hpair])
      obtain ⟨x', hx', hnext⟩ := hdraw.locks (Function.update_self ..)
      obtain ⟨ds', heq, -, hbefore⟩ := hon.sees
      cases heq
      exact ih hx' hnext hbefore

/-- Every delivery can come to its end. -/
theorem Leads.returns (h : Leads fds tr x) (t : T) : ∃ x', Leads fds tr x' ∧ x'.threads t = .returned := by
  obtain ⟨left, howes⟩ := h.owes t
  cases hw : x.threads t with
  | next r =>
    rw [hw] at howes
    exact h.next hw howes
  | lock r idx =>
    rw [hw] at howes
    obtain ⟨ds, -, -, hbefore⟩ := TunnelFrameReader.On.sees howes
    obtain ⟨x', hx', hnext⟩ := h.locks hw
    exact hx'.next hnext hbefore
  | write r idx io =>
    rw [hw] at howes
    obtain ⟨ds, -, -, hbefore⟩ := TunnelFrameReader.On.sees howes
    obtain ⟨x', hx', hnext, -⟩ := h.writes hw
    exact hx'.next hnext hbefore
  | returned => exact ⟨x, h, hw⟩
  | failed e =>
    rw [hw] at howes
    exact howes.elim

end Inbound

open Inbound

/-- **Inbound datagrams are spread evenly and exactly once.** Whatever the
threads and their interleaving, with fewer than 2^64 datagrams given out: every
datagram is given to a queue that exists, and no two queues' numbers differ by
more than one. A thread writes its datagrams where it gave them, and gives those
of its frames, once each, whole and in order: all of them once it has returned,
which it can from every state. When no thread is left in a delivery, `bytesOut`
is what was written to the queue, as a 64-bit number. -/
theorem inbound_spread {T : Type*} [DecidableEq T] {fds : List FileDescriptor}
    {tr : List (Transition (Inbound T) (InboundLabel T))} {x : Inbound T} (h : (inbound T fds).Run tr x)
    (hn : (assigned tr).length < 2 ^ 64) :
    (∀ p ∈ assigned tr, p.queue < fds.length) ∧
    (∀ i < fds.length, ∀ j < fds.length,
      ((assigned tr).map (·.queue)).count i ≤ ((assigned tr).map (·.queue)).count j + 1) ∧
    (∀ t, byThread t (delivered tr) <+: byThread t (assigned tr) ∧
      (byThread t (assigned tr)).map (·.datagram) <+: given tr t ∧
      (x.threads t = .returned → byThread t (delivered tr) = byThread t (assigned tr) ∧
        (byThread t (assigned tr)).map (·.datagram) = given tr t) ∧
      (∀ e, x.threads t ≠ .failed e) ∧
      ∃ tr' x', (inbound T fds).Run (tr ++ tr') x' ∧ given (tr ++ tr') = given tr ∧ x'.threads t = .returned) ∧
    ((∀ t, x.threads t = .returned) → ∀ i, x.queues.bytesOut i = UInt64.ofNat (total (delivered tr) i) ∧
      (total (delivered tr) i < 2 ^ 64 → (x.queues.bytesOut i).toNat = total (delivered tr) i)) := by
  have hsp := run_spread h
  have hfds : 0 < fds.length := by
    rw [← hsp.queues]
    exact List.length_pos_iff.2 x.queues.fds_ne
  refine ⟨fun p hp => ?_, fun i hi j hj => ?_, fun t => ?_, fun _ i => ⟨hsp.bytesOut i, fun hlt => ?_⟩⟩
  · refine turns_lt hfds (n := (assigned tr).length) ?_
    rw [← hsp.turns hn]
    exact List.mem_map_of_mem hp
  · rw [hsp.turns hn]
    exact turns_balanced hi hj _
  · obtain ⟨left, howes, hgiven, hby⟩ := hsp.thread t
    obtain ⟨rest, hrest⟩ := howes.inFlight
    have hall : given tr t = (byThread t (assigned tr)).map (·.datagram) ++ rest := by
      rw [hgiven, hby, List.map_append, List.map_map, List.append_assoc, ← hrest]
      rfl
    obtain ⟨x', ⟨tr', hr, hg⟩, hret⟩ := (Leads.start h).returns t
    refine ⟨⟨_, hby.symm⟩, ⟨rest, hall.symm⟩, fun hx => ?_, fun e he => ?_, tr', x', hr, hg, hret⟩
    · rw [hx] at howes hby hrest
      have hleft : left = [] := howes
      have hr : rest = [] := by simpa [Delivery.inFlight, hleft] using hrest
      exact ⟨by simpa [Delivery.inFlight] using hby.symm, by rw [hall, hr, List.append_nil]⟩
    · rw [he] at howes
      exact howes
  · rw [hsp.bytesOut i, UInt64.toNat_ofNat', Nat.mod_eq_of_lt hlt]

/-- One thread is given the datagram `d` in a frame of its own, any number of
times. -/
theorem exists_inbound {fds : List FileDescriptor} (hfds : fds ≠ []) (d : List UInt8) (hne : d ≠ [])
    (hfit : sizeofTunnelFrameHeader + (2 + d.length) ≤ kTunnelFrameMaxSize) (k : Nat) :
    ∃ tr x, (inbound Unit fds).Run tr x ∧ x.threads () = .returned ∧ given tr () = List.replicate k d := by
  obtain ⟨w, -, hw, hstop, -⟩ := TunnelFrameWriter.new_holds ⟨fun _ => 0xAA, kTunnelFrameMaxSize⟩
    (show kTunnelFrameMinSize ≤ kTunnelFrameMaxSize by decide) (Nat.le_refl _)
  obtain ⟨w', -, hw', -⟩ := hw.append (d := d) (by rw [hw.current, hstop]; exact hfit)
  have hclosed : w'.close.buffer.Closed [d] := hw'.close
  induction k with
  | zero =>
    refine ⟨[], ⟨⟨fds, hfds, 0, fun _ => false, fun _ => 0⟩, fun _ => .returned⟩, .init ?_, rfl, rfl⟩
    exact ⟨rfl, rfl, fun _ => rfl, fun _ => rfl, fun _ => rfl⟩
  | succ k ih =>
    obtain ⟨tr, x, hr, hret, hg⟩ := ih
    have hdel := hclosed.delivers (by simpa using hne)
    have hstep : (inbound Unit fds).step x (.receive () w'.close.buffer)
        { x with threads := Function.update x.threads () (.start w'.close.buffer) } := ⟨hret, ⟨_, hdel⟩, rfl⟩
    obtain ⟨x', ⟨tr', hr', hg'⟩, hret'⟩ := (Leads.start (hr.step hstep)).returns ()
    refine ⟨_, x', hr', hret', ?_⟩
    rw [hg', given_append, hg]
    simp [gives, hdel.parses.datagrams_eq, List.replicate_succ']

/-- With one thread, and that at its end, all is written. -/
theorem delivered_alone {fds : List FileDescriptor} {tr : List (Transition (Inbound Unit) (InboundLabel Unit))}
    {x : Inbound Unit} (h : (inbound Unit fds).Run tr x) (hret : x.threads () = .returned) :
    assigned tr = delivered tr ∧ (delivered tr).map (·.datagram) = given tr () := by
  obtain ⟨left, howes, hgiven, hby⟩ := (run_spread h).thread ()
  rw [hret] at howes hby
  have hleft : left = [] := howes
  have hone : ∀ ps : List (Placement Unit), byThread () ps = ps := fun ps => List.filter_eq_self.2 fun p _ => by simp
  refine ⟨by simpa [Delivery.inFlight, hone] using hby, ?_⟩
  rw [hgiven, hleft, hone, List.append_nil]

/-- With one queue, that queue is given them all. -/
theorem total_alone {f : FileDescriptor} {tr : List (Transition (Inbound Unit) (InboundLabel Unit))} {x : Inbound Unit}
    (h : (inbound Unit [f]).Run tr x) (hret : x.threads () = .returned) {k : Nat} (hk : k < 2 ^ 64) {d : List UInt8}
    (hg : given tr () = List.replicate k d) : total (delivered tr) 0 = k * d.length := by
  obtain ⟨hsame, hds⟩ := delivered_alone h hret
  rw [hg] at hds
  have hlen : (delivered tr).length = k := by simpa using congrArg List.length hds
  have hqueue : ∀ p ∈ delivered tr, p.queue = 0 := by
    intro p hp
    have hturns := (run_spread h).turns (by rwa [hsame, hlen])
    rw [hsame] at hturns
    have hmem : p.queue ∈ (delivered tr).map (·.queue) := List.mem_map_of_mem hp
    rw [hturns] at hmem
    exact Nat.lt_one_iff.1 (turns_lt Nat.one_pos hmem)
  have hmap : (delivered tr).map (·.datagram.length) = List.replicate k d.length := by
    have hlens := congrArg (List.map List.length) hds
    rwa [List.map_map, List.map_replicate] at hlens
  rw [total, List.filter_eq_self.2 fun p hp => decide_eq_true (hqueue p hp), hmap,
    List.sum_replicate_nat]

/-- After 2^54 datagrams of 1024 bytes the counter is back at zero. -/
theorem bytesOut_wraps : ∃ tr x, (inbound Unit [⟨"tun", 3⟩]).Run tr x ∧ (given tr ()).length < 2 ^ 64 ∧
    (∀ t, x.threads t = .returned) ∧ (x.queues.bytesOut 0).toNat ≠ total (delivered tr) 0 := by
  obtain ⟨d, hd⟩ : ∃ d : List UInt8, d.length = 1024 := ⟨List.replicate 1024 7, List.length_replicate⟩
  have hne : d ≠ [] := List.ne_nil_of_length_pos (by omega)
  obtain ⟨k, hk⟩ : ∃ k : Nat, k = 2 ^ 54 := ⟨_, rfl⟩
  obtain ⟨tr, x, hr, hret, hg⟩ := exists_inbound (List.cons_ne_nil ⟨"tun", 3⟩ []) d hne (by rw [hd]; decide) k
  have htotal : total (delivered tr) 0 = 2 ^ 64 := by
    rw [total_alone hr hret (by omega) hg, hd]
    omega
  refine ⟨tr, x, hr, ?_, fun _ => hret, ?_⟩
  · rw [hg, List.length_replicate]
    omega
  · rw [(run_spread hr).bytesOut 0, htotal]
    decide

/-- Two datagrams, two queues. -/
theorem inbound_spread_two : ∃ tr x, (inbound Unit [⟨"tun", 3⟩, ⟨"tun", 4⟩]).Run tr x ∧
    (delivered tr).map (·.datagram) = [[7], [7]] ∧ ((assigned tr).map (·.queue)).count 0 ≤
      ((assigned tr).map (·.queue)).count 1 + 1 ∧ x.queues.bytesOut 1 = UInt64.ofNat (total (delivered tr) 1) := by
  obtain ⟨tr, x, hr, hret, hg⟩ := exists_inbound (List.cons_ne_nil ⟨"tun", 3⟩ [⟨"tun", 4⟩])
    [7] (by decide) (by decide) 2
  obtain ⟨hsame, hds⟩ := delivered_alone hr hret
  rw [hg] at hds
  have hlen : (assigned tr).length = 2 := by
    rw [hsame]
    simpa using congrArg List.length hds
  obtain ⟨-, hbalance, -, hbytes⟩ := inbound_spread hr (by rw [hlen]; decide)
  exact ⟨tr, x, hr, hds, hbalance 0 (by decide) 1 (by decide), (hbytes (fun _ => hret) 1).1⟩

end RuralPipe
