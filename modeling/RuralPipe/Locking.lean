/-
The locks of `SocketProducerConsumer`, one operation at a time.

A sender takes `_mutex` shared and then its session's mutex, runs its section,
and releases them; asleep on the condition variable, it keeps the shared lock.
Its guard takes both again. A task takes `_mutex` exclusively around its
registration and its cleanup. The sections are the steps of the sockets, so a
run here is a run of the sockets too (`maps_sockets`).

`std::shared_mutex` may grant its lock in any order: a `Granting` says which of
those that wait for it have to stand back behind which others, and may look at
all that has happened.
-/
import RuralPipe.Wakeups

namespace RuralPipe

/-- A sender's locks: none; `_mutex` shared, on its way to the session's mutex;
both, before its section (with the session's object), and after it; and
`_mutex` again, on its way out. -/
inductive SenderLocks
  | none
  | shared
  | both (obj : Nat)
  | done (obj : Nat)
  | unlocked

/-- A task's: it waits for `_mutex`, or has it, before or after its section. -/
inductive TaskLocks
  | none
  | wants
  | holds
  | done

/-- A thread of the senders, or of the tasks. -/
inductive LockThread (S K : Type)
  | sender (i : S)
  | task (k : K)

inductive LockLabel (S K : Type)
  | lockShared (i : S)
  | lockMutex (i : S)
  | enter (i : S) (l : SocketLabel S K)
  | refuse (i : S)
  | unlockMutex (i : S)
  | unlockShared (i : S)
  | want (k : K)
  | lock (k : K)
  | update (k : K) (l : SocketLabel S K)
  | unlock (k : K)
  | other (l : SocketLabel S K)

/-- The sockets, the locks their threads have, and the steps taken so far. -/
structure Locking (S K : Type) where
  sockets : SocketState S K
  senders : S → SenderLocks
  tasks : K → TaskLocks
  past : List (LockLabel S K)

namespace SocketLabel

variable {S K : Type}

/-- The section of the sender `i` under both locks. -/
def SectionOf (i : S) : SocketLabel S K → Prop
  | .select j => j = i
  | .recheck j => j = i
  | .complete j _ => j = i
  | _ => False

/-- The section of the task `k` under the exclusive lock. -/
def UpdateOf (k : K) : SocketLabel S K → Prop
  | .register k' => k' = k
  | .cleanup k' => k' = k
  | _ => False

/-- Whose step it is, where the source takes it without a lock. -/
def unlocked : SocketLabel S K → Option (Option (LockThread S K))
  | .call i _ => some (some (.sender i))
  | .io i _ => some (some (.sender i))
  | .leave i => some (some (.sender i))
  | .add k _ => some (some (.task k))
  | .start k _ _ => some (some (.task k))
  | .exchange k _ => some (some (.task k))
  | .receiveEnds k _ => some (some (.task k))
  | .close k => some (some (.task k))
  | .interrupt => some none
  | _ => none

end SocketLabel

namespace Locking

variable {S K : Type}

def HoldsShared (x : Locking S K) (i : S) : Prop := x.senders i ≠ .none

def HoldsMutex (x : Locking S K) (i : S) (obj : Nat) : Prop := x.senders i = .both obj ∨ x.senders i = .done obj

def HoldsExclusive (x : Locking S K) (k : K) : Prop := x.tasks k = .holds ∨ x.tasks k = .done

/-- At `std::shared_lock sl(_mutex)`, or at `sl.lock()` in its guard. -/
def WantsShared (x : Locking S K) (i : S) : Prop :=
  x.senders i = .none ∧
    ((∃ buf, x.sockets.senders i = .entered buf) ∨ ∃ s res, x.sockets.senders i = .sending s ∧
    s.send.outcome = some res)

/-- At a lock of the session's mutex: before its selection, woken from its wait,
or in its guard. -/
def WantsMutex (x : Locking S K) (i : S) (obj : Nat) : Prop :=
  x.senders i = .shared ∧
    ((∃ buf s, x.sockets.senders i = .entered buf ∧ x.sockets.map.sessions = [s] ∧ s.obj = obj) ∨
      (∃ buf st, x.sockets.senders i = .waiting obj buf st true) ∨
      ∃ s, x.sockets.senders i = .sending s ∧ s.obj = obj)

def Asleep (x : Locking S K) (i : S) (obj : Nat) (st : K) (notified : Bool) : Prop :=
  x.senders i = .shared ∧ ∃ buf, x.sockets.senders i = .waiting obj buf st notified

def AtMutex (x : Locking S K) (i : S) (obj : Nat) : Prop := x.WantsMutex i obj ∨ ∃ st, x.Asleep i obj st false

def WantsExclusive (x : Locking S K) (k : K) : Prop := x.tasks k = .wants

def AtLock (x : Locking S K) : LockThread S K → Prop
  | .sender i => x.WantsShared i
  | .task k => x.WantsExclusive k

/-- At `std::unique_lock ul(_mutex)`, before a registration or a cleanup. -/
def AtUpdate (x : Locking S K) (k : K) : Prop :=
  (∃ stream ier, x.sockets.tasks k = .exchanged stream ier) ∨ ∃ sid, x.sockets.tasks k = .closed sid

def Outside (x : Locking S K) : LockThread S K → Prop
  | .sender i => x.senders i = .none
  | .task k => x.tasks k = .none

section
variable [DecidableEq S]

def setSender (x : Locking S K) (i : S) (a : SenderLocks) : Locking S K :=
  { x with senders := Function.update x.senders i a }

end

section
variable [DecidableEq K]

def setTask (x : Locking S K) (k : K) (a : TaskLocks) : Locking S K := { x with tasks := Function.update x.tasks k a }

end

end Locking

/-- An order of granting `_mutex`: who has to stand back behind whom. -/
structure Granting (S K : Type) where
  behind : Locking S K → LockThread S K → LockThread S K → Prop
  wellFounded : ∀ x, WellFounded fun e d => behind x d e

/-- `d` and `e` wait for `_mutex`, and `d` does not get it before `e` has. -/
def Granting.StandsBack {S K : Type} (g : Granting S K) (x : Locking S K) (d e : LockThread S K) : Prop :=
  x.AtLock d ∧ x.AtLock e ∧ g.behind x d e

open Locking in
inductive LockStep {S K : Type} [DecidableEq S] [DecidableEq K] (client : Option SessionId)
    (g : Granting S K) : Locking S K → LockLabel S K → Locking S K → Prop
  | lockShared {x : Locking S K} {i} : x.WantsShared i → (∀ k, ¬ x.HoldsExclusive k) →
      (∀ e, ¬ g.StandsBack x (.sender i) e) →
      LockStep client g x (.lockShared i) (x.setSender i .shared)
  | lockMutex {x : Locking S K} {i obj} : x.AtMutex i obj → (∀ j, ¬ x.HoldsMutex j obj) →
      LockStep client g x (.lockMutex i) (x.setSender i (.both obj))
  | enter {x : Locking S K} {i obj l sockets} : x.senders i = .both obj → l.SectionOf i →
      SocketStep client x.sockets l sockets → (∀ obj buf st n, sockets.senders i ≠ .waiting obj buf st n) →
      LockStep client g x (.enter i l) ({ x with sockets }.setSender i (.done obj))
  | sleep {x : Locking S K} {i obj l sockets buf st n} : x.senders i = .both obj → l.SectionOf i →
      SocketStep client x.sockets l sockets → sockets.senders i = .waiting obj buf st n →
      LockStep client g x (.enter i l) ({ x with sockets }.setSender i .shared)
  | refuse {x : Locking S K} {i buf sockets} : x.senders i = .shared → x.sockets.senders i = .entered buf →
      (∀ s, x.sockets.map.sessions ≠ [s]) → SocketStep client x.sockets (.select i) sockets →
      LockStep client g x (.refuse i) ({ x with sockets }.setSender i .unlocked)
  | unlockMutex {x : Locking S K} {i obj} : x.senders i = .done obj →
      LockStep client g x (.unlockMutex i) (x.setSender i .unlocked)
  | unlockShared {x : Locking S K} {i} : x.senders i = .unlocked →
      LockStep client g x (.unlockShared i) (x.setSender i .none)
  | want {x : Locking S K} {k} : x.tasks k = .none → x.AtUpdate k →
      LockStep client g x (.want k) (x.setTask k .wants)
  | lock {x : Locking S K} {k} : x.WantsExclusive k → (∀ i, ¬ x.HoldsShared i) → (∀ k', ¬ x.HoldsExclusive k') →
      (∀ e, ¬ g.StandsBack x (.task k) e) →
      LockStep client g x (.lock k) (x.setTask k .holds)
  | update {x : Locking S K} {k l sockets} : x.tasks k = .holds → l.UpdateOf k → SocketStep client x.sockets l sockets →
      LockStep client g x (.update k l) ({ x with sockets }.setTask k .done)
  | unlock {x : Locking S K} {k} : x.tasks k = .done →
      LockStep client g x (.unlock k) (x.setTask k .none)
  | other {x : Locking S K} {l d sockets} : l.unlocked = some d → (∀ e, d = some e → x.Outside e) →
      SocketStep client x.sockets l sockets →
      LockStep client g x (.other l) { x with sockets }

/-- A `SocketProducerConsumer` down to its locks. -/
def locking (S K : Type) [DecidableEq S] [DecidableEq K] (client : Option SessionId) (g : Granting S K) :
    Machine (Locking S K) (LockLabel S K) where
  init x := x = { sockets := .start S K, senders := fun _ => .none, tasks := fun _ => .none, past := [] }
  step x l x' := x.sockets.crash = none ∧ ∃ y, LockStep client g x l y ∧ x' = { y with past := x.past ++ [l] }

theorem SocketStep.waited {S K : Type} [DecidableEq S] [DecidableEq K] {client : Option SessionId}
    {x x' : SocketState S K}
    {l : SocketLabel S K} (h : SocketStep client x l x') {j : S} {obj : Nat}
    {buf : TunnelFrameBuffer} {st : K} {n : Bool}
    (hw : x'.senders j = .waiting obj buf st n) :
    (l = .select j ∧ ∃ s, x.map.sessions = [s]) ∨ ∃ n', x.senders j = .waiting obj buf st n' := by
  rcases sender_step h j with heq | hst
  · exact .inr ⟨n, heq.symm.trans hw⟩
  · rw [hw] at hst
    generalize x.senders j = a at hst ⊢
    cases hst with
    | wait hsel =>
      obtain ⟨s, hs, -⟩ := SessionsMap.select_wait hsel
      exact .inl ⟨rfl, s, hs⟩
    | @recheckWait _ _ _ m hre => exact .inr ⟨m, rfl⟩
    | woken hi => exact .inr ⟨false, rfl⟩

namespace Locking

section
variable {S K : Type} {x : Locking S K} {i : S}

/-- The locks exclude, and a sender that waits in its session has `_mutex`
shared. -/
structure Excludes (x : Locking S K) : Prop where
  shared : ∀ k, x.HoldsExclusive k → ∀ i, ¬ x.HoldsShared i
  exclusive : ∀ k k', x.HoldsExclusive k → x.HoldsExclusive k' → k = k'
  mutex : ∀ i j obj, x.HoldsMutex i obj → x.HoldsMutex j obj → i = j
  waiter : ∀ i obj buf st n, x.sockets.senders i = .waiting obj buf st n →
    x.senders i = .shared ∨ ∃ obj', x.senders i = .both obj'

theorem Excludes.not_exclusive (h : x.Excludes) (hi : x.HoldsShared i) (k : K) : ¬ x.HoldsExclusive k :=
  fun hk => h.shared k hk i hi

theorem Excludes.of_sockets (h : x.Excludes) {sockets : SocketState S K}
    (hw : ∀ i obj buf st n, sockets.senders i = .waiting obj buf st n →
    ∃ n', x.sockets.senders i = .waiting obj buf st n') :
    Excludes { x with sockets } := by
  refine ⟨h.shared, h.exclusive, h.mutex, fun i obj buf st n hi => ?_⟩
  obtain ⟨n', hi'⟩ := hw i obj buf st n hi
  exact h.waiter i obj buf st n' hi'

theorem Excludes.setSender [DecidableEq S] (h : x.Excludes) {a : SenderLocks} {sockets : SocketState S K}
    (hx : a ≠ .none → ∀ k, ¬ x.HoldsExclusive k)
    (hm : ∀ obj, (a = .both obj ∨ a = .done obj) → ∀ j, x.HoldsMutex j obj → j = i)
    (hi : ∀ obj buf st n, sockets.senders i = .waiting obj buf st n → a = .shared ∨ ∃ obj', a = .both obj')
    (hj : ∀ j, j ≠ i → ∀ obj buf st n, sockets.senders j = .waiting obj buf st n →
      ∃ n', x.sockets.senders j = .waiting obj buf st n') :
    Excludes ({ x with sockets }.setSender i a) := by
  have self : ({ x with sockets }.setSender i a).senders i = a := Function.update_self ..
  have ne : ∀ j, j ≠ i → ({ x with sockets }.setSender i a).senders j = x.senders j :=
    fun j hji => Function.update_of_ne hji ..
  refine ⟨fun k hk j hj' => ?_, h.exclusive, fun j j' obj hj hj' => ?_, fun j obj buf st n hw => ?_⟩
  · by_cases hji : j = i
    · subst hji
      rw [HoldsShared, self] at hj'
      exact hx hj' k hk
    · rw [HoldsShared, ne j hji] at hj'
      exact h.shared k hk j hj'
  · by_cases hji : j = i <;> by_cases hji' : j' = i
    · rw [hji, hji']
    · subst hji
      rw [HoldsMutex, self] at hj
      rw [HoldsMutex, ne j' hji'] at hj'
      exact (hm obj hj j' hj').symm
    · subst hji'
      rw [HoldsMutex, self] at hj'
      rw [HoldsMutex, ne j hji] at hj
      exact hm obj hj' j hj
    · rw [HoldsMutex, ne j hji] at hj
      rw [HoldsMutex, ne j' hji'] at hj'
      exact h.mutex j j' obj hj hj'
  · by_cases hji : j = i
    · subst hji
      rw [self]
      exact hi obj buf st n hw
    · rw [ne j hji]
      obtain ⟨n', hw'⟩ := hj j hji obj buf st n hw
      exact h.waiter j obj buf st n' hw'

theorem Excludes.setTask [DecidableEq K] (h : x.Excludes) {k : K} {a : TaskLocks} {sockets : SocketState S K}
    (hx : a = .holds ∨ a = .done → (∀ i, ¬ x.HoldsShared i) ∧ ∀ k', x.HoldsExclusive k' → k' = k)
    (hw : ∀ i obj buf st n, sockets.senders i = .waiting obj buf st n →
    ∃ n', x.sockets.senders i = .waiting obj buf st n') :
    Excludes ({ x with sockets }.setTask k a) := by
  have self : ({ x with sockets }.setTask k a).tasks k = a := Function.update_self ..
  have ne : ∀ k', k' ≠ k → ({ x with sockets }.setTask k a).tasks k' = x.tasks k' :=
    fun k' hk' => Function.update_of_ne hk' ..
  have holder : ∀ k', ({ x with sockets }.setTask k a).HoldsExclusive k' →
      (k' = k ∧ (a = .holds ∨ a = .done)) ∨ (k' ≠ k ∧ x.HoldsExclusive k') := by
    intro k' hk'
    by_cases hkk : k' = k
    · subst hkk
      rw [HoldsExclusive, self] at hk'
      exact .inl ⟨rfl, hk'⟩
    · rw [HoldsExclusive, ne k' hkk] at hk'
      exact .inr ⟨hkk, hk'⟩
  refine ⟨fun k' hk' i hi => ?_, fun k₁ k₂ hk₁ hk₂ => ?_, h.mutex, (h.of_sockets hw).waiter⟩
  · rcases holder k' hk' with ⟨-, ha⟩ | ⟨-, hk'⟩
    · exact (hx ha).1 i hi
    · exact h.shared k' hk' i hi
  · rcases holder k₁ hk₁ with ⟨he₁, ha⟩ | ⟨-, hold₁⟩ <;> rcases holder k₂ hk₂ with ⟨he₂, ha'⟩ | ⟨-, hold₂⟩
    · rw [he₁, he₂]
    · rw [he₁, (hx ha).2 k₂ hold₂]
    · rw [he₂, (hx ha').2 k₁ hold₁]
    · exact h.exclusive k₁ k₂ hold₁ hold₂

end

section
variable {S K : Type} [DecidableEq S] [DecidableEq K] {client : Option SessionId} {g : Granting S K} {x : Locking S K}

theorem maps_sockets : Machine.Maps (locking S K client g) (RuralPipe.sockets S K client) (·.sockets) := by
  refine ⟨fun s hs => ?_, fun s l s' _ hs => ?_⟩
  · cases hs
    rfl
  · obtain ⟨hc, y, hs, rfl⟩ := hs
    cases hs with
    | enter hi hl hst => exact .one ⟨hc, hst⟩
    | sleep hi hl hst => exact .one ⟨hc, hst⟩
    | refuse hi he hno hst => exact .one ⟨hc, hst⟩
    | update hk hl hst => exact .one ⟨hc, hst⟩
    | other hl ho hst => exact .one ⟨hc, hst⟩
    | _ => exact .refl

theorem Excludes.step {x' : Locking S K} {l : LockLabel S K} (h : x.Excludes) (hs : LockStep client g x l x') :
    x'.Excludes := by
  have same : ∀ j obj buf st n, x.sockets.senders j = .waiting obj buf st n →
      ∃ n', x.sockets.senders j = .waiting obj buf st n' := fun _ _ _ _ n hj => ⟨n, hj⟩
  -- A section of `i` makes no waiter but `i`.
  have section_ne : ∀ {i l sockets}, l.SectionOf i → SocketStep client x.sockets l sockets → ∀ j, j ≠ i →
      ∀ obj buf st n, sockets.senders j = .waiting obj buf st n →
        ∃ n', x.sockets.senders j = .waiting obj buf st n' := by
    intro i l sockets hl hst j hji obj buf st n hw
    rcases hst.waited hw with ⟨rfl, -⟩ | hn
    · exact absurd hl hji
    · exact hn
  cases hs with
  | @lockShared i hi hno hback =>
    exact h.setSender (fun _ => hno) (by simp) (fun _ _ _ _ _ => .inl rfl) fun j _ => same j
  | @lockMutex i obj hi hno =>
    have hl : x.senders i = .shared := by rcases hi with hi | ⟨st, hi⟩ <;> exact hi.1
    refine h.setSender (fun _ => h.not_exclusive (i := i) (by simp [HoldsShared, hl])) ?_
      (fun _ _ _ _ _ => .inr ⟨obj, rfl⟩) fun j _ => same j
    rintro obj' (he | he) j hj <;> cases he
    exact absurd hj (hno j)
  | @enter i obj l sockets hi hl hst hno =>
    refine h.setSender (fun _ => h.not_exclusive (i := i) (by simp [HoldsShared, hi])) ?_
      (fun _ _ _ _ hw => absurd hw (hno _ _ _ _)) (section_ne hl hst)
    rintro obj' (he | he) j hj <;> cases he
    exact h.mutex j i obj hj (.inl hi)
  | @sleep i obj l sockets buf st n hi hl hst hw =>
    exact h.setSender (fun _ => h.not_exclusive (i := i) (by simp [HoldsShared, hi])) (by simp)
      (fun _ _ _ _ _ => .inl rfl) (section_ne hl hst)
  | @refuse i buf sockets hi hent hno hst =>
    refine h.setSender (fun _ => h.not_exclusive (i := i) (by simp [HoldsShared, hi])) (by simp) ?_
      (section_ne (l := .select i) rfl hst)
    intro obj buf' st n hw
    rcases hst.waited hw with ⟨-, s, hs⟩ | ⟨n', hw'⟩
    · exact absurd hs (hno s)
    · rw [hent] at hw'
      cases hw'
  | @unlockMutex i obj hi =>
    refine h.setSender (fun _ => h.not_exclusive (i := i) (by simp [HoldsShared, hi])) (by simp) ?_ fun j _ => same j
    intro obj' buf st n hw
    rcases h.waiter i obj' buf st n hw with hl | ⟨_, hl⟩ <;> (rw [hi] at hl; cases hl)
  | @unlockShared i hi =>
    refine h.setSender (fun hne => absurd rfl hne) (by simp) ?_ fun j _ => same j
    intro obj' buf st n hw
    rcases h.waiter i obj' buf st n hw with hl | ⟨_, hl⟩ <;> (rw [hi] at hl; cases hl)
  | want hk hat => exact h.setTask (by simp) same
  | lock hk hsh hex hback => exact h.setTask (fun _ => ⟨hsh, fun k' hk' => absurd hk' (hex k')⟩) same
  | @update k l sockets hk hl hst =>
    have hold : x.HoldsExclusive k := .inl hk
    refine h.setTask (fun _ => ⟨h.shared k hold, fun k' hk' => h.exclusive k' k hk' hold⟩) fun i obj buf st n hw => ?_
    rcases hst.waited hw with ⟨rfl, -⟩ | hn
    · exact hl.elim
    · exact hn
  | unlock hk => exact h.setTask (by simp) same
  | @other l d sockets hl ho hst =>
    refine h.of_sockets fun i obj buf st n hw => ?_
    rcases hst.waited hw with ⟨rfl, -⟩ | hn
    · cases hl
    · exact hn

/-- **The locks exclude.** So the sections of the sockets' steps do not overlap,
whatever order the locks are granted in. -/
theorem reachable_excludes (h : (locking S K client g).Reachable x) : x.Excludes := by
  refine h.invariant (I := Excludes) ?_ ?_
  · intro y hy
    cases hy
    exact ⟨fun k hk => by simp [HoldsExclusive] at hk, fun k k' hk => by simp [HoldsExclusive] at hk,
      fun i j obj hi => by simp [HoldsMutex] at hi, fun i obj buf st n hi => by cases hi⟩
  · rintro y l y' - hI ⟨-, z, hs, rfl⟩
    have hz := hI.step hs
    exact ⟨hz.shared, hz.exclusive, hz.mutex, hz.waiter⟩

end

end Locking

end RuralPipe
