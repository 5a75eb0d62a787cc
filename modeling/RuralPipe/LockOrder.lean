/-
Who of a `SocketProducerConsumer` waits for whom, and when that goes round.

`Needs` says for whom a thread at a lock or asleep in its session waits; one
that needs nobody goes on (`goes_on`). A sender that sleeps keeps its shared lock
until the user of its stream is back, and that one has to get `_mutex` shared
first: so nothing goes on when the order of granting has it stand back behind a
task (`Crossed`), and in no other way (`deadlock_iff`).
-/
import RuralPipe.Deadlock
import RuralPipe.Locking
import RuralPipe.SequenceNumbers

namespace RuralPipe

namespace Locking

variable {S K : Type} {x x' : Locking S K}

/-- Who may wake the waiters of a session without being called anew: whoever
sends in it, and whoever was woken. -/
def Wakers (x : Locking S K) (obj : Nat) : Set (LockThread S K) :=
  { d | ∃ j, d = .sender j ∧
      ((∃ s, x.sockets.senders j = .sending s ∧ s.obj = obj) ∨
        ∃ buf st, x.sockets.senders j = .waiting obj buf st true) }

/-- The thread is blocked on `_mutex`, on a session's mutex or in its wait, and
cannot go on before a thread of the set has taken a step. -/
inductive Needs (g : Granting S K) (x : Locking S K) : LockThread S K → Set (LockThread S K) → Prop
  | locked {i k} : x.WantsShared i → x.HoldsExclusive k → Needs g x (.sender i) {.task k}
  | behind {d e} : g.StandsBack x d e → Needs g x d {e}
  | mutex {i j obj} : x.WantsMutex i obj → x.HoldsMutex j obj → Needs g x (.sender i) {.sender j}
  | stream {i j obj st n} : x.Asleep i obj st n → x.sockets.Uses j st → Needs g x (.sender i) {.sender j}
  | wake {i obj st} : x.Asleep i obj st false → Needs g x (.sender i) (x.Wakers obj)
  | shared {k i} : x.WantsExclusive k → x.HoldsShared i → Needs g x (.task k) {.sender i}
  | exclusive {k k'} : x.WantsExclusive k → x.HoldsExclusive k' → Needs g x (.task k) {.task k'}

/-- The thread stands back behind a task that waits for the exclusive lock, or
behind a thread that does. -/
def Late (g : Granting S K) (x : Locking S K) (d : LockThread S K) : Prop :=
  ∃ k, x.WantsExclusive k ∧ Relation.ReflTransGen (g.StandsBack x) d (.task k)

/-- A sender sleeps, with its shared lock; the user of its stream is done with
its `send`, and in its guard stands back behind a task that waits for the
exclusive lock. -/
def Crossed (g : Granting S K) (x : Locking S K) : Prop :=
  ∃ i obj st n j, x.Asleep i obj st n ∧ x.sockets.Uses j st ∧ x.WantsShared j ∧ x.Late g (.sender j)

variable {g : Granting S K}

/-- They need one another, all the way round. -/
theorem Crossed.deadlocked (h : Crossed g x) : ∃ D, Deadlocked (Needs g x) D := by
  obtain ⟨i, obj, st, n, j, hi, hj, -, k, hk, hchain⟩ := h
  have hij : Needs g x (.sender i) {.sender j} := .stream hi hj
  have hjk : Relation.ReflTransGen (fun d e => Needs g x d {e}) (.sender j) (.task k) :=
    Relation.ReflTransGen.mono (fun _ _ h => Needs.behind h) _ _ hchain
  have hki : Needs g x (.task k) {.sender i} := .shared hk (by simp [HoldsShared, hi.1])
  exact Deadlocked.of_cycle ((Relation.TransGen.head' hij hjk).tail hki)

/-! ## Otherwise somebody goes on -/

open Classical in
/-- How far a thread is from going on. One that waits for a mutex is next, then
who waits for `_mutex` and not behind a task, then those asleep, and last the
tasks and whoever is behind them. -/
noncomputable def rank (g : Granting S K) (x : Locking S K) (d : LockThread S K) : Nat :=
  if x.AtLock d then (if x.Late g d then 5 else 2)
  else match d with
    | .sender i =>
      match x.senders i, x.sockets.senders i with
      | .shared, .waiting _ _ _ n => if n then 3 else 4
      | .shared, _ => 1
      | _, _ => 0
    | .task _ => 0

variable {i : S} {k : K} {d e : LockThread S K}

theorem rank_atLock (h : x.AtLock d) : (x.rank g d = 5 ∧ x.Late g d) ∨ (x.rank g d = 2 ∧ ¬ x.Late g d) := by
  by_cases hl : x.Late g d
  · exact .inl ⟨by rw [rank.eq_def, if_pos h, if_pos hl], hl⟩
  · exact .inr ⟨by rw [rank.eq_def, if_pos h, if_neg hl], hl⟩

theorem rank_wantsExclusive (h : x.WantsExclusive k) : x.rank g (.task k) = 5 := by
  rcases rank_atLock (g := g) (d := .task k) h with ⟨hr, -⟩ | ⟨-, hl⟩
  · exact hr
  · exact absurd ⟨k, h, .refl⟩ hl

theorem rank_sender (h : x.senders i ≠ .none) : x.rank g (.sender i) =
    match x.senders i, x.sockets.senders i with
    | .shared, .waiting _ _ _ n => if n then 3 else 4
    | .shared, _ => 1
    | _, _ => 0 := by
  have hno : ¬ x.AtLock (.sender i) := fun hw => h hw.1
  rw [rank, if_neg hno]

theorem rank_holdsMutex {obj : Nat} (h : x.HoldsMutex i obj) : x.rank g (.sender i) = 0 := by
  rcases h with h | h <;> simp [rank_sender, h]

theorem rank_holdsExclusive (h : x.HoldsExclusive k) : x.rank g (.task k) = 0 := by
  have hno : ¬ x.AtLock (.task k) := by rcases h with h | h <;> simp [AtLock, WantsExclusive, h]
  rw [rank, if_neg hno]

theorem rank_asleep {obj : Nat} {st : K} {n : Bool} (h : x.Asleep i obj st n) :
    x.rank g (.sender i) = if n then 3 else 4 := by
  obtain ⟨hl, buf, hi⟩ := h
  simp [rank_sender, hl, hi]

theorem rank_wantsMutex {obj : Nat} (h : x.WantsMutex i obj) : 0 < x.rank g (.sender i) := by
  obtain ⟨hl, ⟨buf, s, hi, -⟩ | ⟨buf, st, hi⟩ | ⟨s, hi, -⟩⟩ := h <;> simp [rank_sender, hl, hi]

theorem rank_holdsShared (h : x.HoldsShared i) : x.rank g (.sender i) < 5 := by
  rw [rank_sender h]
  split
  · split <;> omega
  · omega
  · omega

/-- Whoever has a stream that is waited for is closer to going on, unless it
stands back behind a task. -/
theorem rank_uses {st : K} (hu : x.sockets.Uses i st) (hno : x.WantsShared i → ¬ x.Late g (.sender i)) :
    x.rank g (.sender i) < 3 := by
  obtain ⟨s, hi, -⟩ := hu
  by_cases hw : x.WantsShared i
  · rcases rank_atLock (g := g) (d := .sender i) hw with ⟨-, hl⟩ | ⟨hr, -⟩
    · exact absurd hl (hno hw)
    · omega
  · have hno : ¬ x.AtLock (.sender i) := hw
    rw [rank, if_neg hno]
    cases hl : x.senders i <;> simp [hi]

theorem rank_woken {obj : Nat} {buf : TunnelFrameBuffer} {st : K} (h : x.sockets.senders i = .waiting obj buf st true) :
    x.rank g (.sender i) < 4 := by
  have hno : ¬ x.AtLock (.sender i) := by
    rintro ⟨-, ⟨buf', h'⟩ | ⟨s, res, h', -⟩⟩ <;> (rw [h] at h'; cases h')
  rw [rank, if_neg hno]
  cases hl : x.senders i <;> simp [h]

/-- Who stands back is no closer than whoever it stands behind. -/
theorem rank_standsBack (h : g.StandsBack x d e) : x.rank g e ≤ x.rank g d := by
  rcases rank_atLock (g := g) h.1 with ⟨hd, -⟩ | ⟨hd, hnot⟩ <;>
    rcases rank_atLock (g := g) h.2.1 with ⟨he, hlate⟩ | ⟨he, -⟩
  · omega
  · omega
  · obtain ⟨k, hk, hchain⟩ := hlate
    exact absurd ⟨k, hk, hchain.head h⟩ hnot
  · omega

/-- Where nobody is crossed, every need leads to a lower rank, or to somebody
that is granted `_mutex` first. -/
theorem Needs.lower {A : Set (LockThread S K)} (ha : x.sockets.Awake) (hu : ∀ k, x.sockets.StreamUse k)
    (hno : ¬ Crossed g x) (h : Needs g x d A) :
    ∃ e ∈ A, x.rank g e < x.rank g d ∨ x.rank g e = x.rank g d ∧ g.behind x d e := by
  have hback : ∀ {i obj st n j}, x.Asleep i obj st n → x.sockets.Uses j st → x.rank g (.sender j) < 3 :=
    fun hi hj => rank_uses hj fun hw hl => hno ⟨_, _, _, _, _, hi, hj, hw, hl⟩
  cases h with
  | @locked i k hw hk =>
    refine ⟨_, rfl, .inl ?_⟩
    rw [rank_holdsExclusive hk]
    rcases rank_atLock (g := g) (d := .sender i) hw with ⟨hr, -⟩ | ⟨hr, -⟩ <;> omega
  | @behind d e hde =>
    refine ⟨_, rfl, ?_⟩
    rcases Nat.lt_or_eq_of_le (rank_standsBack hde) with hlt | heq
    · exact .inl hlt
    · exact .inr ⟨heq, hde.2.2⟩
  | @mutex i j obj hw hj =>
    refine ⟨_, rfl, .inl ?_⟩
    rw [rank_holdsMutex hj]
    exact rank_wantsMutex hw
  | @stream i j obj st n hi hj =>
    refine ⟨_, rfl, .inl ?_⟩
    have hlt := hback hi hj
    rw [rank_asleep hi]
    split <;> omega
  | @wake i obj st hi =>
    obtain ⟨hl, buf, hw⟩ := id hi
    rw [rank_asleep hi]
    by_cases hin : (x.sockets.map.trackers st).inUse = true
    · -- The stream's user is in the same session.
      obtain ⟨j, s, hj, hst⟩ := (hu st).inUse.1 hin
      obtain ⟨rest, hlist⟩ := ha.first i obj buf st false hw
      have hobj : s.obj = obj :=
        ha.same j s (obj, st :: rest) hj (by rw [hlist]; exact List.mem_singleton_self _) (by simp [hst])
      refine ⟨.sender j, ⟨j, rfl, .inl ⟨s, hj, hobj⟩⟩, .inl ?_⟩
      have hlt := hback hi ⟨s, hj, hst⟩
      simp only [Bool.false_eq_true, if_false]
      omega
    · obtain ⟨j, buf', st', hj⟩ := ha.woken i obj buf st hw (by simpa using hin)
      refine ⟨.sender j, ⟨j, rfl, .inr ⟨buf', st', hj⟩⟩, .inl ?_⟩
      simpa using rank_woken (g := g) hj
  | @shared k i hk hi =>
    refine ⟨_, rfl, .inl ?_⟩
    rw [rank_wantsExclusive hk]
    exact rank_holdsShared hi
  | @exclusive k k' hk hk' =>
    refine ⟨_, rfl, .inl ?_⟩
    rw [rank_wantsExclusive hk, rank_holdsExclusive hk']
    omega

section
variable [DecidableEq S] [DecidableEq K] {client : Option SessionId}

theorem not_deadlocked (h : (locking S K client g).Reachable x) (hno : ¬ Crossed g x) (D : Set (LockThread S K)) :
    ¬ Deadlocked (Needs g x) D :=
  Deadlocked.not_of_rank (x.rank g) (g.wellFounded x) fun _ _ hA =>
    hA.lower (SocketState.reachable_awake (maps_sockets.reachable h))
      (SocketState.reachable_streamUse (maps_sockets.reachable h)) hno

/-- Whoever waits for a lock and needs nobody is granted it. -/
theorem goes_on (hc : x.sockets.crash = none) (hw : x.AtLock d ∨ ∃ i obj, d = .sender i ∧ x.WantsMutex i obj)
    (hno : ∀ A, ¬ Needs g x d A) : ∃ l x', (locking S K client g).step x l x' := by
  rcases hw with hw | ⟨i, obj, rfl, hw⟩
  · cases d with
    | sender i => exact ⟨_, _, hc, _, .lockShared hw (fun k hk => hno _ (.locked hw hk)) fun e
      he => hno _ (.behind he), rfl⟩
    | task k =>
      exact ⟨_, _, hc, _, .lock hw (fun i hi => hno _ (.shared hw hi)) (fun k' hk' => hno _ (.exclusive hw hk'))
        fun e he => hno _ (.behind he), rfl⟩
  · exact ⟨_, _, hc, _, .lockMutex (.inl hw) fun j hj => hno _ (.mutex hw hj), rfl⟩

end

end Locking

open Locking

/-- **Senders and stream changes deadlock exactly when they are crossed.** For
any number of senders and tasks, and whatever order the mutex grants its lock
in: no state of a run has a deadlocked set of threads exactly when in none a
sender sleeps until another gives its stream back that, done with its `send`, has
to stand back behind a task that waits for the exclusive lock. -/
theorem deadlock_iff {S K : Type} [DecidableEq S] [DecidableEq K] {client : Option SessionId} {g : Granting S K}
    {tr : List (Machine.Transition (Locking S K) (LockLabel S K))} {x : Locking S K}
    (h : (locking S K client g).Run tr x) :
    (∀ t ∈ tr, ∀ D, ¬ Deadlocked (Needs g t.post) D) ↔ ∀ t ∈ tr, ¬ Crossed g t.post := by
  constructor
  · intro hD t ht hx
    obtain ⟨D, hdead⟩ := hx.deadlocked
    exact hD t ht D hdead
  · intro hno t ht D
    exact not_deadlocked (h.transition t ht).2.2 (hno t ht) D

/-- In an order that never has a sender stand back behind a task there is no
deadlock. -/
theorem not_deadlocked_of_passes {S K : Type} [DecidableEq S] [DecidableEq K] {client : Option SessionId}
    {g : Granting S K} (hg : ∀ x i k, ¬ g.behind x (.sender i) (.task k)) {x : Locking S K}
    (h : (locking S K client g).Reachable x) (D : Set (LockThread S K)) : ¬ Deadlocked (Needs g x) D := by
  refine not_deadlocked h ?_ D
  rintro ⟨-, -, -, -, j, -, -, -, k, -, hchain⟩
  -- The first task on the way from the sender to a task is behind a sender.
  have hno : ∀ d, Relation.ReflTransGen (g.StandsBack x) d (.task k) → ∀ j, d ≠ .sender j := by
    intro d hd
    induction hd using Relation.ReflTransGen.head_induction_on with
    | refl => exact fun _ h => nomatch h
    | @head d e hde _ ih =>
      rintro j rfl
      cases e with
      | sender j' => exact ih j' rfl
      | task k' => exact hg x j k' hde.2.2
  exact hno _ hchain j rfl

/-! ## A run that gets there -/

/-- An order in which a sender stands back behind every task that waits. -/
def standsBack (S K : Type) : Granting S K where
  behind _ d e := match d, e with
    | .sender _, .task _ => True
    | _, _ => False
  wellFounded x := by
    refine Subrelation.wf (r := InvImage (· < ·) fun d : LockThread S K => match d with | .sender _ => 1 | .task _ => 0)
      ?_ (InvImage.wf _ Nat.lt_wfRel.wf)
    intro d e h
    cases d <;> cases e <;> simp_all [InvImage]

namespace Locking

variable {S K : Type} [DecidableEq S] [DecidableEq K] {client : Option SessionId} {x y : Locking S K} {i : S} {k : K}

/-- Some run leads there. -/
def Reaches (client : Option SessionId) (x : Locking S K) : Prop :=
  ∃ past, (locking S K client (standsBack S K)).Reachable { x with past }

theorem Reaches.step (h : Reaches client x) (hc : x.sockets.crash = none) {l : LockLabel S K}
    {f : List (LockLabel S K) → Locking S K} (hs : ∀ past, LockStep client (standsBack S K) { x with past } l (f past))
    (y : Locking S K) (hf : ∀ past, f past = { y with past }) : Reaches client y := by
  obtain ⟨past, hr⟩ := h
  exact ⟨past ++ [l], hr.step ⟨hc, _, hs past, by rw [hf]⟩⟩

/-- A task that gets through its exchange. -/
theorem Reaches.exchanged (h : Reaches client x) (hc : x.sockets.crash = none) (hk : x.sockets.tasks k = .notAdded)
    (hl : x.tasks k = .none) (stream : TunnelFrameStream) {io : ExchangeIo} {ier : InitialExchangeResult}
    (hex : initialTunnelFrameExchange client io = .ok ier) :
    Reaches client { x with sockets := x.sockets.setTask k (.exchanged stream ier) } := by
  have out : ∀ e, some (LockThread.task (S := S) k) = some e → x.Outside e := by
    intro e he
    cases he
    exact hl
  have h := h.step hc (fun _ => .other (l := .add k stream.fd) rfl out (.add hk))
    { x with sockets := x.sockets.setTask k (.posted stream.fd) } fun _ => rfl
  have h := h.step hc (fun _ => .other (l := .start k (.ok 0) (.ok 0)) rfl out
      (show SocketStep client _ _ (SocketState.setTask _ k (.exchanging stream)) from .start
        SocketState.setTask_self rfl))
    { x with sockets := x.sockets.setTask k (.exchanging stream) } (by simp)
  exact h.step hc (fun _ => .other (l := .exchange k io) rfl out
      (show SocketStep client _ _ (SocketState.setTask _ k (.exchanged stream ier)) from
        .exchange SocketState.setTask_self hex))
    _ (by simp)

/-- And registers its stream, with nobody there. -/
theorem Reaches.registered (h : Reaches client x) (hc : x.sockets.crash = none) {stream : TunnelFrameStream}
    {ier : InitialExchangeResult} {map : SessionsMap K} (hk : x.sockets.tasks k = .exchanged stream ier)
    (hsend : ∀ i, x.senders i = .none) (htask : ∀ k, x.tasks k = .none) (hsh : ¬ x.sockets.Shared)
    (hreg : x.sockets.map.register k stream ier.sessionId = .ok map) :
    Reaches client { x with sockets := { x.sockets with map }.setTask k (.receiving ier.sessionId) } := by
  have self : ∀ {y : Locking S K} {a}, (y.setTask k a).tasks k = a := Function.update_self ..
  have h := h.step hc (fun _ => .want (htask k) (.inl ⟨_, _, hk⟩)) (x.setTask k .wants) fun _ => rfl
  have h := h.step hc (fun _ => .lock self (fun i hi => hi (hsend i)) (fun k' hk' => by
      rcases hk' with hk' | hk' <;> (by_cases hkk : k' = k)
      all_goals simp [setTask, hkk, htask] at hk') fun e he => he.2.2) (x.setTask k .holds) (by simp [setTask])
  have h := h.step hc (fun _ => .update (l := .register k) self rfl (.register hk hsh hreg))
    ({ x with sockets := { x.sockets with map }.setTask k (.receiving ier.sessionId) }.setTask k .done)
    (by simp [setTask, SocketState.setTask])
  have he : Function.update x.tasks k .none = x.tasks := by rw [← htask k, Function.update_eq_self]
  exact h.step hc (fun _ => .unlock self) _ (by simp [setTask, he])

/-- A sender with both its locks. -/
theorem Reaches.entered (h : Reaches client x) (hc : x.sockets.crash = none) (buf : TunnelFrameBuffer)
    (hi : x.sockets.senders i = .idle) (hl : x.senders i = .none) (hsend : ∀ j obj, ¬ x.HoldsMutex j obj)
    (htask : ∀ k, x.tasks k = .none) {s : Session K} (hs : x.sockets.map.sessions = [s]) :
    Reaches client ({ x with sockets := x.sockets.setSender i (.entered buf) }.setSender i (.both s.obj)) := by
  let e : Locking S K := { x with sockets := x.sockets.setSender i (.entered buf) }
  have he : e.sockets.senders i = .entered buf := SocketState.setSender_self
  have h := h.step hc (fun _ => .other (l := .call i buf) rfl (by rintro _ ⟨⟩; exact hl) (.call hi)) e fun _ => rfl
  have h := h.step (x := e) hc (fun _ => .lockShared ⟨hl, .inl ⟨buf, he⟩⟩
    (fun k hk => by rcases hk with hk | hk <;> simp [e, htask] at hk) ?_) (e.setSender i .shared) fun _ => rfl
  · have hs' : (e.setSender i .shared).WantsMutex i s.obj := ⟨Function.update_self .., .inl ⟨buf, s, he, hs, rfl⟩⟩
    refine h.step hc (fun _ => .lockMutex (.inl hs') fun j hj => ?_) _ (by simp [Locking.setSender, e])
    by_cases hji : j = i
    · rcases hj with hj | hj <;> simp [Locking.setSender, hji] at hj
    · have hne : (e.setSender i .shared).senders j = x.senders j := Function.update_of_ne hji ..
      rw [HoldsMutex, hne] at hj
      exact hsend j s.obj hj
  · rintro (j | k) ⟨-, he, hb⟩
    · exact hb
    · cases (htask k).symm.trans he

/-- A sender that gets a stream lets go of its locks. -/
theorem Reaches.taken (h : Reaches client x) (hc : x.sockets.crash = none) {buf buf' : TunnelFrameBuffer}
    {map : SessionsMap K} {obj : Nat} {st : K} (hl : x.senders i = .both obj)
    (hi : x.sockets.senders i = .entered buf) (hsel : x.sockets.map.select buf = .take map obj buf' st) :
    let s : Sending K := ⟨obj, buf', st, TunnelFrameStream.send buf', []⟩
    Reaches client ({ x with sockets := { x.sockets with map }.setSender i (.sending s) }.setSender i .none) := by
  intro s
  have self : ∀ {y : Locking S K} {a}, (y.setSender i a).senders i = a := Function.update_self ..
  let z : Locking S K := { x with sockets := { x.sockets with map }.setSender i (.sending s) }
  have h := h.step hc (fun _ => .enter (l := .select i) hl rfl (.take hi hsel) (by simp)) (z.setSender i (.done obj))
    fun _ => rfl
  have h := h.step hc (fun _ => .unlockMutex self) (z.setSender i .unlocked) (by simp [Locking.setSender])
  exact h.step hc (fun _ => .unlockShared self) _ (by simp [Locking.setSender, z])

/-- One that gets none keeps its shared lock. -/
theorem Reaches.asleep (h : Reaches client x) (hc : x.sockets.crash = none) {buf buf' : TunnelFrameBuffer}
    {map : SessionsMap K} {obj : Nat} {st : K} (hl : x.senders i = .both obj)
    (hi : x.sockets.senders i = .entered buf) (hsel : x.sockets.map.select buf = .wait map obj buf' st) :
    Reaches client
      ({ x with sockets := { x.sockets with map }.setSender i (.waiting obj buf' st false) }.setSender i .shared) :=
  h.step hc (fun _ => .sleep (l := .select i) hl rfl (.wait hi hsel) SocketState.setSender_self) _ fun _ => rfl

/-- The one stream of a server is in use and waited for, a second one is on its
way, and the send on the first ends. -/
theorem run_crossed (buf : TunnelFrameBuffer) (hpos : 0 < buf.size) :
    ∃ tr t, (locking Bool Bool none (standsBack Bool Bool)).Run (tr ++ [t]) t.post ∧
      Crossed (standsBack Bool Bool) t.post := by
  obtain ⟨frame, -, hcl, -⟩ := initFrame_ok ⟨List.replicate 16 7, rfl⟩ "RuralPipeClient" rfl
  obtain ⟨ier, hex, -⟩ := exchange_server hcl
  have h : Reaches (S := Bool) (K := Bool) none
      { sockets := .start Bool Bool, senders := fun _ => .none, tasks := fun _ => .none, past := [] } :=
    ⟨[], .init rfl⟩
  have h := h.exchanged (k := false) rfl rfl rfl ⟨⟨"Client 1", 5⟩, fun _ => 0⟩ hex
  have h := h.registered (k := false) rfl rfl (fun _ => rfl) (fun _ => rfl)
    (fun ⟨_, _, _, _, _, hw⟩ => nomatch hw) rfl
  have h := h.exchanged (k := true) rfl rfl rfl ⟨⟨"Client 2", 6⟩, fun _ => 0⟩ hex
  have h := h.entered (i := false) rfl buf rfl rfl (fun j obj hj => by rcases hj with hj | hj <;> cases hj)
    (fun _ => rfl) rfl
  have h := h.taken (i := false) rfl rfl rfl rfl
  have h := h.entered (i := true) rfl buf rfl rfl
    (fun j obj hj => by cases j <;> rcases hj with hj | hj <;> cases hj) (fun _ => rfl) rfl
  have h := h.asleep (i := true) rfl rfl rfl rfl
  have h := h.step rfl (fun _ => .want (k := true) rfl (.inl ⟨_, _, rfl⟩)) (Locking.setTask _ true .wants) fun _ => rfl
  obtain ⟨past, tr, h⟩ := h
  have hsize : 0 < (TunnelFrameWriter.setSequenceNumberOnClosedBuffer buf 1).size := hpos
  obtain ⟨ev, send, out, res, hstep, hout, -⟩ :=
    TunnelFrameStream.sendStep_once (s := ⟨⟨"Client 1", 5⟩, fun _ => 0⟩) hsize true
  have hlast := h.step (l := .other (.io false ev)) ⟨rfl, _, .other rfl (fun e he => by cases he; rfl)
    (.io rfl (fun hlt => absurd hlt (by decide : ¬ (5 : Int) < 0)) hstep), rfl⟩
  exact ⟨tr, _, hlast, true, 0, false, false, false, ⟨rfl, _, rfl⟩, ⟨_, rfl, rfl⟩, ⟨rfl, .inr ⟨_, res, rfl, hout⟩⟩,
    true, rfl, .single ⟨⟨rfl, .inr ⟨_, res, rfl, hout⟩⟩, rfl, trivial⟩⟩

end Locking

/-- The three threads are deadlocked there: the sleeping sender, the one whose
guard is to wake it, and the task. -/
theorem senders_deadlock : ¬ ∀ (g : Granting Bool Bool) x, (locking Bool Bool none g).Reachable x →
    ∀ D, ¬ Deadlocked (Needs g x) D := by
  intro hall
  obtain ⟨buf, -, -, hsize⟩ := exists_fromWriter
  obtain ⟨tr, t, hr, hx⟩ := run_crossed buf (by omega)
  obtain ⟨D, hD⟩ := hx.deadlocked
  exact hall _ _ hr.reachable D hD

/-- And the run that leads there is one that meets them crossed. -/
theorem deadlock_iff_crossed : ∃ tr x, (locking Bool Bool none (standsBack Bool Bool)).Run tr x ∧
    (∃ t ∈ tr, Crossed (standsBack Bool Bool) t.post) ∧
    ¬ ∀ t ∈ tr, ∀ D, ¬ Deadlocked (Needs (standsBack Bool Bool) t.post) D := by
  obtain ⟨buf, -, -, hsize⟩ := exists_fromWriter
  obtain ⟨tr, t, hr, hx⟩ := run_crossed buf (by omega)
  have ht : t ∈ tr ++ [t] := List.mem_append_right _ (List.mem_singleton_self t)
  exact ⟨_, _, hr, ⟨t, ht, hx⟩, fun hall => (deadlock_iff hr).1 hall t ht hx⟩

end RuralPipe
