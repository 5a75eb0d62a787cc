/-
The exit code of the process (`common/context_base.cpp`).

`exit` stores a code under `_mutex` unless there is one, and wakes all who wait;
`waitForExit` sleeps on `_condVar` while there is none. Any number of threads may
be in either. Nobody tests the code without the lock and nobody goes to sleep but
from a test, so no wake is lost: whoever is asleep went to sleep before there was
a code, or is about to be woken (`Inv.asleep`).
-/
import Mathlib.Logic.Function.Basic
import RuralPipe.Machine

namespace RuralPipe

open Machine

/-- Where a thread stands: outside; in `exit`, at its lock, at its test, at
`notify_all`, or on its way out; or in `waitForExit`, at its lock, at the test of
its loop, asleep, woken and about to take the lock again, or on its way out with
the code. -/
inductive ContextThread
  | outside
  | exitLocks (exitCode : Int)
  | exitTests (exitCode : Int)
  | exitNotifies
  | exitUnlocks
  | waitLocks
  | waitTests
  | asleep
  | woken
  | waitUnlocks (exitCode : Int)
  | returned (exitCode : Int)
  deriving DecidableEq

/-- `_mutex`, `_exitCode`, the threads, and the codes `exit` was called with, in
the order in which the calls got the lock. -/
structure ContextBase (T : Type) where
  mutex : Option T
  exitCode : Option Int
  threads : T → ContextThread
  calls : List Int

/-- A thread calls `exit` or `waitForExit`, or goes on in it, or is woken for no
reason. -/
inductive ContextLabel (T : Type)
  | exit (i : T) (exitCode : Int)
  | waitForExit (i : T)
  | goesOn (i : T)
  | spurious (i : T)

namespace ContextThread

/-- The thread has `_mutex`. -/
def locks : ContextThread → Bool
  | exitTests _ | exitNotifies | exitUnlocks | waitTests | waitUnlocks _ => true
  | _ => false

/-- It is in neither function. -/
def idle : ContextThread → Bool
  | outside | returned _ => true
  | _ => false

def notified : ContextThread → ContextThread
  | asleep => woken
  | t => t

end ContextThread

namespace ContextBase

variable {T : Type} [DecidableEq T]

def initial : ContextBase T := { mutex := none, exitCode := none, threads := fun _ => .outside, calls := [] }

def setThread (x : ContextBase T) (i : T) (t : ContextThread) : ContextBase T :=
  { x with threads := Function.update x.threads i t }

def lock (x : ContextBase T) (i : T) (t : ContextThread) : ContextBase T := { x.setThread i t with mutex := some i }

def unlock (x : ContextBase T) (i : T) (t : ContextThread) : ContextBase T := { x.setThread i t with mutex := none }

/-- `_condVar.notify_all()`. -/
def notifyAll (x : ContextBase T) : ContextBase T := { x with threads := fun j => (x.threads j).notified }

/-- One step of `exit` or `waitForExit`. -/
def goesOn (x : ContextBase T) (i : T) : Option (ContextBase T) :=
  match x.threads i with
  | .exitLocks exitCode =>
    if x.mutex = none then some { x.lock i (.exitTests exitCode) with calls := x.calls ++ [exitCode] } else none
  | .exitTests exitCode =>
    match x.exitCode with
    | some _ => some (x.setThread i .exitUnlocks)
    | none => some { x.setThread i .exitNotifies with exitCode := some exitCode }
  | .exitNotifies => some (x.notifyAll.setThread i .exitUnlocks)
  | .exitUnlocks => some (x.unlock i .outside)
  | .waitLocks => if x.mutex = none then some (x.lock i .waitTests) else none
  | .waitTests =>
    match x.exitCode with
    | none => some (x.unlock i .asleep)
    | some exitCode => some (x.setThread i (.waitUnlocks exitCode))
  | .woken => if x.mutex = none then some (x.lock i .waitTests) else none
  | .waitUnlocks exitCode => some (x.unlock i (.returned exitCode))
  | .outside | .asleep | .returned _ => none

def step (x : ContextBase T) : ContextLabel T → Option (ContextBase T)
  | .exit i exitCode => if (x.threads i).idle then some (x.setThread i (.exitLocks exitCode)) else none
  | .waitForExit i => if (x.threads i).idle then some (x.setThread i .waitLocks) else none
  | .goesOn i => x.goesOn i
  | .spurious i => if x.threads i = .asleep then some (x.setThread i .woken) else none

end ContextBase

/-- The context, whose functions the threads `T` call. -/
def contextBase (T : Type) [DecidableEq T] : Machine (ContextBase T) (ContextLabel T) where
  init x := x = .initial
  step x l x' := x.step l = some x'

namespace ContextBase

variable {T : Type}

/-- The invariant: the lock's owner is the thread that has it; the code is that of
the first call; before there is one, that call is at its test; whoever is asleep
waits for a code, or for the `notify_all` of the first call; and who has read the
code has read this one. -/
structure Inv (x : ContextBase T) : Prop where
  owner : ∀ i, (x.threads i).locks = true ↔ x.mutex = some i
  first : ∀ c, x.exitCode = some c → x.calls.head? = some c
  called : x.exitCode = none → x.calls ≠ [] → ∃ i c, x.threads i = .exitTests c
  testing : ∀ i c, x.exitCode = none → x.threads i = .exitTests c → x.calls = [c]
  asleep : ∀ i, x.threads i = .asleep → x.exitCode = none ∨ ∃ j, x.threads j = .exitNotifies
  read : ∀ i c, x.threads i = .waitUnlocks c ∨ x.threads i = .returned c → x.exitCode = some c

theorem Inv.initial : (ContextBase.initial : ContextBase T).Inv := by
  constructor <;> simp [ContextBase.initial, ContextThread.locks]

variable [DecidableEq T] {x x' : ContextBase T} {i j : T} {l : ContextLabel T} {t : ContextThread}

theorem setThread_self : (x.setThread i t).threads i = t := Function.update_self ..
theorem setThread_ne (h : j ≠ i) : (x.setThread i t).threads j = x.threads j := Function.update_of_ne h ..

/-- Who is somewhere after a step of `i` was there before, or is `i`. -/
theorem setThread_cases {t' : ContextThread} (h : (x.setThread i t).threads j = t') :
    j = i ∧ t = t' ∨ j ≠ i ∧ x.threads j = t' := by
  by_cases hj : j = i
  · subst hj
    exact .inl ⟨rfl, setThread_self.symm.trans h⟩
  · exact .inr ⟨hj, (setThread_ne hj).symm.trans h⟩

omit [DecidableEq T] in
/-- One that has the lock is not one that has not. -/
theorem ne_of_locks (hi : (x.threads i).locks = false) (hj : (x.threads j).locks = true) : j ≠ i := by
  intro h
  rw [h, hi] at hj
  cases hj

omit [DecidableEq T] in
/-- Only the owner is inside. -/
theorem Inv.inside (h : x.Inv) (hi : (x.threads i).locks = true) (hj : (x.threads j).locks = true) : j = i := by
  have hm := ((h.owner j).1 hj).symm.trans ((h.owner i).1 hi)
  exact Option.some.inj hm

/-- Who has read the code after a step of `i`, unless this is the first to. -/
theorem Inv.read_set (h : x.Inv) (ht : ∀ c, t = .waitUnlocks c ∨ t = .returned c → x.exitCode = some c) (j : T) (c : Int)
    (hj : (x.setThread i t).threads j = .waitUnlocks c ∨ (x.setThread i t).threads j = .returned c) :
    x.exitCode = some c := by
  by_cases hij : j = i
  · subst hij
    rw [setThread_self] at hj
    exact ht c hj
  · rw [setThread_ne hij] at hj
    exact h.read j c hj

/-- A thread moves on outside the lock, before any test. -/
theorem Inv.outside (h : x.Inv) (hi : (x.threads i).locks = false) (ht : t.locks = false) (hs : t ≠ .asleep)
    (hr : ∀ c, t ≠ .returned c) : (x.setThread i t).Inv := by
  refine ⟨fun j => ?_, h.first, fun hn hc => ?_, fun j c hn hj => ?_, fun j hj => ?_, h.read_set fun c he => ?_⟩
  · by_cases hj : j = i
    · subst hj
      rw [setThread_self, ht]
      exact iff_of_false (by simp) fun hm => by rw [(h.owner j).2 hm] at hi; cases hi
    · rw [setThread_ne hj]
      exact h.owner j
  · obtain ⟨j, c, hj⟩ := h.called hn hc
    exact ⟨j, c, (setThread_ne (ne_of_locks hi (by rw [hj]; rfl))).trans hj⟩
  · rcases setThread_cases hj with ⟨-, rfl⟩ | ⟨-, hj⟩
    · cases ht
    · exact h.testing j c hn hj
  · rcases setThread_cases hj with ⟨-, he⟩ | ⟨-, hj⟩
    · exact absurd he hs
    · refine (h.asleep j hj).imp_right fun hex => ?_
      obtain ⟨k, hk⟩ := hex
      exact ⟨k, (setThread_ne (ne_of_locks hi (by rw [hk]; rfl))).trans hk⟩
  · rcases he with rfl | rfl
    · cases ht
    · exact absurd rfl (hr c)

omit [DecidableEq T] in
/-- While nobody has the lock, there is a code if there was a call, and nobody is
asleep if there is one. -/
theorem Inv.free (h : x.Inv) (hm : x.mutex = none) : (∀ j, (x.threads j).locks = false) ∧
    (x.exitCode = none → x.calls = []) ∧ ∀ j, x.threads j = .asleep → x.exitCode = none := by
  have hno : ∀ j, (x.threads j).locks = false := fun j => by
    rw [Bool.eq_false_iff]
    intro hj
    rw [(h.owner j).1 hj] at hm
    cases hm
  refine ⟨hno, fun hn => ?_, fun j hj => (h.asleep j hj).resolve_right fun hex => ?_⟩
  · by_contra hc
    obtain ⟨j, c, hj⟩ := h.called hn hc
    have := hno j
    rw [hj] at this
    cases this
  · obtain ⟨k, hk⟩ := hex
    have := hno k
    rw [hk] at this
    cases this

/-- A thread gets the lock for its test. -/
theorem Inv.lock_owner (h : x.Inv) (hm : x.mutex = none) (ht : t.locks = true) (j : T) :
    ((x.lock i t).threads j).locks = true ↔ (x.lock i t).mutex = some j := by
  show ((x.setThread i t).threads j).locks = true ↔ some i = some j
  by_cases hj : j = i
  · subst hj
    rw [setThread_self]
    exact iff_of_true ht rfl
  · rw [setThread_ne hj, (h.free hm).1 j]
    exact iff_of_false (by simp) fun he => hj (Option.some.inj he).symm

theorem Inv.lock_wait (h : x.Inv) (hm : x.mutex = none) : (x.lock i .waitTests).Inv := by
  obtain ⟨hno, hcalls, hasleep⟩ := h.free hm
  refine ⟨h.lock_owner hm rfl, h.first, fun hn hc => absurd (hcalls hn) hc, fun j c hn hj => ?_, fun j hj => ?_,
    h.read_set (by simp)⟩
  · rcases setThread_cases hj with ⟨-, he⟩ | ⟨-, hj⟩
    · cases he
    · exact h.testing j c hn hj
  · rcases setThread_cases hj with ⟨-, he⟩ | ⟨-, hj⟩
    · cases he
    · exact .inl (hasleep j hj)

theorem Inv.lock_exit (h : x.Inv) (hm : x.mutex = none) (c : Int) :
    ({ x.lock i (.exitTests c) with calls := x.calls ++ [c] } : ContextBase T).Inv := by
  obtain ⟨hno, hcalls, hasleep⟩ := h.free hm
  refine ⟨h.lock_owner hm rfl, fun c' hc' => ?_, fun hn hc => ⟨i, c, setThread_self⟩, fun j c' hn hj => ?_,
    fun j hj => ?_, h.read_set (by simp)⟩
  · show (x.calls ++ [c]).head? = some c'
    rw [List.head?_append, h.first c' hc']
    rfl
  · show x.calls ++ [c] = [c']
    rw [hcalls hn]
    rcases setThread_cases hj with ⟨-, he⟩ | ⟨-, hj⟩
    · cases he
      rfl
    · have := hno j
      rw [hj] at this
      cases this
  · rcases setThread_cases hj with ⟨-, he⟩ | ⟨-, hj⟩
    · cases he
    · exact .inl (hasleep j hj)

omit [DecidableEq T] in
/-- Nor is anybody asleep, with a code, while the thread inside is elsewhere than
at its `notify_all`. -/
theorem Inv.asleep_unset (h : x.Inv) (hi : (x.threads i).locks = true) (hne : x.threads i ≠ .exitNotifies)
    (hj : x.threads j = .asleep) : x.exitCode = none := by
  refine (h.asleep j hj).resolve_right fun hex => ?_
  obtain ⟨k, hk⟩ := hex
  have hki := h.inside hi (j := k) (by rw [hk]; rfl)
  exact hne (hki ▸ hk)

omit [DecidableEq T] in
/-- And while it is elsewhere than at its test, there is a code or no call. -/
theorem Inv.called_inside (h : x.Inv) (hi : (x.threads i).locks = true) (hne : ∀ c, x.threads i ≠ .exitTests c)
    (hn : x.exitCode = none) : x.calls = [] := by
  by_contra hc
  obtain ⟨k, c, hk⟩ := h.called hn hc
  have hki := h.inside hi (j := k) (by rw [hk]; rfl)
  exact hne c (hki ▸ hk)

theorem Inv.inside_owner (h : x.Inv) (hi : (x.threads i).locks = true) (ht : t.locks = true) (j : T) :
    ((x.setThread i t).threads j).locks = true ↔ x.mutex = some j := by
  by_cases hj : j = i
  · subst hj
    rw [setThread_self]
    exact iff_of_true ht ((h.owner j).1 hi)
  · rw [setThread_ne hj]
    exact h.owner j

/-- The thread inside has found a code. -/
theorem Inv.found (h : x.Inv) {c : Int} (hc : x.exitCode = some c) (hi : (x.threads i).locks = true)
    (hne : x.threads i ≠ .exitNotifies) (ht : t = .exitUnlocks ∨ t = .waitUnlocks c) : (x.setThread i t).Inv := by
  have hn : x.exitCode ≠ none := by rw [hc]; simp
  have hlocks : t.locks = true := by rcases ht with rfl | rfl <;> rfl
  refine ⟨h.inside_owner hi hlocks, h.first, fun hn' => absurd hn' hn, fun _ _ hn' => absurd hn' hn, fun j hj => ?_,
    h.read_set fun c' he => ?_⟩
  · rcases setThread_cases hj with ⟨-, rfl⟩ | ⟨-, hj⟩
    · rcases ht with he | he <;> cases he
    · exact .inl (h.asleep_unset hi hne hj)
  · rcases ht with rfl | rfl <;> rcases he with he | he <;> cases he
    exact hc

/-- The first call stores its code. -/
theorem Inv.store (h : x.Inv) {c : Int} (hn : x.exitCode = none) (hi : x.threads i = .exitTests c) :
    ({ x.setThread i .exitNotifies with exitCode := some c } : ContextBase T).Inv := by
  refine ⟨h.inside_owner (by rw [hi]; rfl) rfl, fun c' hc' => ?_, (fun hn' => nomatch hn'), (fun _ _ hn' => nomatch hn'),
    fun j hj => .inr ⟨i, setThread_self⟩, fun j c' hj => ?_⟩
  · cases hc'
    show x.calls.head? = some c
    rw [h.testing i c hn hi]
    rfl
  · have hread := h.read_set (i := i) (t := .exitNotifies) (by simp) j c' hj
    rw [hn] at hread
    cases hread

theorem notified_locks (t : ContextThread) : t.notified.locks = t.locks := by cases t <;> rfl

/-- `notify_all` leaves nobody asleep. -/
theorem Inv.notify (h : x.Inv) (hi : x.threads i = .exitNotifies) : (x.notifyAll.setThread i .exitUnlocks).Inv := by
  have hlocks : (x.threads i).locks = true := by rw [hi]; rfl
  have hthreads : ∀ {j t'}, x.notifyAll.threads j = t' → t' ≠ .woken → x.threads j = t' := by
    intro j t' hj hne
    have hj : (x.threads j).notified = t' := hj
    subst hj
    cases hx : x.threads j <;> rw [hx] at hne <;> first | rfl | exact absurd rfl hne
  refine ⟨fun j => ?_, h.first, fun hn hc => absurd (h.called_inside hlocks (by rw [hi]; simp) hn) hc,
    fun j c hn hj => ?_, fun j hj => ?_, fun j c hj => ?_⟩
  · by_cases hj : j = i
    · subst hj
      rw [setThread_self]
      exact iff_of_true rfl ((h.owner j).1 hlocks)
    · rw [setThread_ne hj]
      show (x.threads j).notified.locks = true ↔ _
      rw [notified_locks]
      exact h.owner j
  · rcases setThread_cases hj with ⟨-, he⟩ | ⟨-, hj⟩
    · cases he
    · exact h.testing j c hn (hthreads hj (by simp))
  · rcases setThread_cases hj with ⟨-, he⟩ | ⟨-, hj⟩
    · cases he
    · have hj : (x.threads j).notified = .asleep := hj
      cases hx : x.threads j <;> rw [hx] at hj <;> cases hj
  · refine h.read j c ?_
    rcases hj with hj | hj <;> rcases setThread_cases hj with ⟨-, he⟩ | ⟨-, hj⟩
    · cases he
    · exact .inl (hthreads hj (by simp))
    · cases he
    · exact .inr (hthreads hj (by simp))

/-- The thread inside releases the lock: to sleep, with the code it has found, or
from `exit`. -/
theorem Inv.unlock (h : x.Inv) (hi : (x.threads i).locks = true) (hne : x.threads i ≠ .exitNotifies)
    (hne' : ∀ c, x.threads i ≠ .exitTests c) (ht : t.locks = false) (hs : t = .asleep → x.exitCode = none)
    (hr : ∀ c, t = .returned c → x.exitCode = some c) : (x.unlock i t).Inv := by
  refine ⟨fun j => ?_, h.first, fun hn hc => absurd (h.called_inside hi hne' hn) hc, fun j c hn hj => ?_,
    fun j hj => .inl ?_, h.read_set fun c he => ?_⟩
  · refine iff_of_false (fun hj => ?_) (by simp [ContextBase.unlock])
    have hj : ((x.setThread i t).threads j).locks = true := hj
    by_cases hij : j = i
    · subst hij
      rw [setThread_self, ht] at hj
      cases hj
    · rw [setThread_ne hij] at hj
      exact hij (h.inside hi hj)
  · rcases setThread_cases hj with ⟨-, rfl⟩ | ⟨-, hj⟩
    · cases ht
    · exact h.testing j c hn hj
  · rcases setThread_cases hj with ⟨-, he⟩ | ⟨-, hj⟩
    · exact hs he
    · exact h.asleep_unset hi hne hj
  · rcases he with rfl | he
    · cases ht
    · exact hr c he

theorem Inv.goesOn (h : x.Inv) (hs : x.goesOn i = some x') : x'.Inv := by
  have hlocks : ∀ {t}, x.threads i = t → t.locks = true → (x.threads i).locks = true := fun ht hl => by rw [ht, hl]
  cases ht : x.threads i with
  | outside | asleep | returned c => simp [ContextBase.goesOn, ht] at hs
  | exitLocks c =>
    simp only [ContextBase.goesOn, ht] at hs
    split at hs <;> cases hs
    rename_i hm
    exact h.lock_exit hm c
  | exitTests c =>
    simp only [ContextBase.goesOn, ht] at hs
    split at hs <;> cases hs
    · rename_i c' hc
      exact h.found hc (hlocks ht rfl) (by rw [ht]; simp) (.inl rfl)
    · rename_i hn
      exact h.store hn ht
  | exitNotifies =>
    simp only [ContextBase.goesOn, ht] at hs
    cases hs
    exact h.notify ht
  | exitUnlocks =>
    simp only [ContextBase.goesOn, ht] at hs
    cases hs
    exact h.unlock (hlocks ht rfl) (by rw [ht]; simp) (by rw [ht]; simp) rfl (by simp) (by simp)
  | waitLocks | woken =>
    simp only [ContextBase.goesOn, ht] at hs
    split at hs <;> cases hs
    rename_i hm
    exact h.lock_wait hm
  | waitTests =>
    simp only [ContextBase.goesOn, ht] at hs
    split at hs <;> cases hs
    · rename_i hn
      exact h.unlock (hlocks ht rfl) (by rw [ht]; simp) (by rw [ht]; simp) rfl (fun _ => hn) (by simp)
    · rename_i c hc
      exact h.found hc (hlocks ht rfl) (by rw [ht]; simp) (.inr rfl)
  | waitUnlocks c =>
    simp only [ContextBase.goesOn, ht] at hs
    cases hs
    refine h.unlock (hlocks ht rfl) (by rw [ht]; simp) (by rw [ht]; simp) rfl (by simp) fun c' he => ?_
    cases he
    exact h.read i c (.inl ht)

theorem Inv.step (h : x.Inv) (hs : x.step l = some x') : x'.Inv := by
  have hidle : ∀ {i}, (x.threads i).idle = true → (x.threads i).locks = false := by
    intro i hi
    cases ht : x.threads i <;> rw [ht] at hi <;> first | rfl | cases hi
  cases l with
  | goesOn i => exact h.goesOn hs
  | exit i c | waitForExit i =>
    simp only [ContextBase.step] at hs
    split at hs <;> cases hs
    rename_i hi
    exact h.outside (hidle hi) rfl (by simp) (by simp)
  | spurious i =>
    simp only [ContextBase.step] at hs
    split at hs <;> cases hs
    rename_i hi
    exact h.outside (by rw [hi]; rfl) rfl (by simp) (by simp)

theorem reachable_inv (h : (contextBase T).Reachable x) : x.Inv :=
  h.invariant (fun _ hi => by cases hi; exact .initial) fun _ _ _ _ hI hs => hI.step hs

/-- A code that is there stays. -/
theorem exitCode_step {c : Int} (hc : x.exitCode = some c) (hs : x.step l = some x') : x'.exitCode = some c := by
  cases l with
  | exit i | waitForExit i | spurious i =>
    simp only [step] at hs
    split at hs <;> cases hs
    exact hc
  | goesOn i =>
    cases ht : x.threads i <;> simp only [step, goesOn, ht, hc] at hs
    case exitLocks | waitLocks | woken =>
      split at hs <;> cases hs
      exact hc
    all_goals cases hs
    all_goals exact hc

/-! ## The way out -/

end ContextBase

/-- The steps a thread has left once there is a code. -/
def ContextThread.left : ContextThread → Nat
  | .outside | .returned _ => 0
  | .exitLocks _ | .waitLocks | .woken => 3
  | .exitTests _ | .exitNotifies | .waitTests => 2
  | .exitUnlocks | .waitUnlocks _ => 1
  | .asleep => 4

def ContextLabel.thread {T : Type} : ContextLabel T → T
  | exit i _ | waitForExit i | goesOn i | spurious i => i

/-- The label begins no call of the thread `i`. -/
def ContextLabel.CallsNot {T : Type} (i : T) : ContextLabel T → Prop
  | exit j _ | waitForExit j => j ≠ i
  | _ => True

namespace ContextBase

variable {T : Type} [DecidableEq T] {x x' : ContextBase T} {i j : T} {l : ContextLabel T} {t : ContextThread}

theorem setThread_left (h : t.left + 1 ≤ (x.threads i).left) (hx : x'.threads = (x.setThread i t).threads) (j : T) :
    (x'.threads j).left + (if i = j then 1 else 0) ≤ (x.threads j).left := by
  rw [hx]
  by_cases hj : j = i
  · subst hj
    rw [setThread_self, if_pos rfl]
    exact h
  · rw [setThread_ne hj, if_neg fun he => hj he.symm]
    exact Nat.le_refl _

theorem notified_left (t : ContextThread) : t.notified.left ≤ t.left := by cases t <;> simp [ContextThread.notified, ContextThread.left]

/-- Once there is a code, every step of a thread's call is one towards its end. -/
theorem left_step {c : Int} (hc : x.exitCode = some c) (hl : l.CallsNot j) (hs : x.step l = some x') :
    (x'.threads j).left + (if l.thread = j then 1 else 0) ≤ (x.threads j).left := by
  cases l with
  | exit i c' | waitForExit i =>
    simp only [step] at hs
    split at hs <;> cases hs
    have hne : ¬ i = j := hl
    show _ + (if i = j then 1 else 0) ≤ _
    rw [setThread_ne fun he => hne he.symm, if_neg hne]
    exact Nat.le_refl _
  | spurious i =>
    simp only [step] at hs
    split at hs <;> cases hs
    rename_i hi
    exact setThread_left (by rw [hi]; exact Nat.le_refl _) rfl j
  | goesOn i =>
    cases ht : x.threads i with
    | outside | asleep | returned c' => simp [step, goesOn, ht] at hs
    | exitLocks c' | waitLocks | woken =>
      simp only [step, goesOn, ht] at hs
      split at hs <;> cases hs
      exact setThread_left (by rw [ht]; exact Nat.le_refl _) rfl j
    | exitTests c' | waitTests =>
      simp only [step, goesOn, ht, hc] at hs
      cases hs
      exact setThread_left (by rw [ht]; exact Nat.le_refl _) rfl j
    | exitUnlocks | waitUnlocks c' =>
      simp only [step, goesOn, ht] at hs
      cases hs
      exact setThread_left (by rw [ht]; exact Nat.le_refl _) rfl j
    | exitNotifies =>
      simp only [step, goesOn, ht] at hs
      cases hs
      have hle := setThread_left (x := x.notifyAll) (i := i) (t := .exitUnlocks)
        (by rw [show x.notifyAll.threads i = (x.threads i).notified from rfl, ht]; decide) rfl j
      exact Nat.le_trans hle (notified_left _)

/-- The thread inside can always go on. -/
theorem goesOn_inside (hi : (x.threads i).locks = true) : ∃ x', x.goesOn i = some x' := by
  cases ht : x.threads i <;> rw [ht] at hi <;> try cases hi
  all_goals simp only [goesOn, ht]
  case exitTests | waitTests => split <;> exact ⟨_, rfl⟩
  all_goals exact ⟨_, rfl⟩

/-- A thread in a call can go on, or the owner of the lock can. -/
theorem Inv.goes_on (h : x.Inv) {c : Int} (hc : x.exitCode = some c) (hi : (x.threads i).idle = false) :
    ∃ j x', (j = i ∨ x.mutex = some j) ∧ x.goesOn j = some x' := by
  have hlock : (x.mutex = none → ∃ x', x.goesOn i = some x') →
      ∃ j x', (j = i ∨ x.mutex = some j) ∧ x.goesOn j = some x' := by
    intro hfree
    cases hm : x.mutex with
    | none =>
      obtain ⟨x', hx'⟩ := hfree hm
      exact ⟨i, x', .inl rfl, hx'⟩
    | some j =>
      obtain ⟨x', hx'⟩ := goesOn_inside ((h.owner j).2 hm)
      exact ⟨j, x', .inr rfl, hx'⟩
  cases ht : x.threads i with
  | outside | returned c' => rw [ht] at hi; cases hi
  | exitLocks c' | waitLocks | woken => exact hlock fun hm => by simp [ContextBase.goesOn, ht, hm]
  | asleep =>
    obtain ⟨j, hj⟩ := (h.asleep i ht).resolve_left (by rw [hc]; simp)
    have hlocks : (x.threads j).locks = true := by rw [hj]; rfl
    obtain ⟨x', hx'⟩ := goesOn_inside hlocks
    exact ⟨j, x', .inr ((h.owner j).1 hlocks), hx'⟩
  | exitTests c' | exitNotifies | exitUnlocks | waitTests | waitUnlocks c' =>
    obtain ⟨x', hx'⟩ := goesOn_inside (x := x) (i := i) (by rw [ht]; rfl)
    exact ⟨i, x', .inl rfl, hx'⟩

end ContextBase

open ContextBase

variable {T : Type} [DecidableEq T]

/-- **Only the first `exit` counts**: the code is that of the call which got the
lock first, whatever is called later and however often, and every `waitForExit`
returns this code; and when nobody has the lock, nobody is left asleep once there
was a call. -/
theorem exit_first_counts {tr : List (Transition (ContextBase T) (ContextLabel T))} {x : ContextBase T}
    (h : (contextBase T).Run tr x) :
    (∀ t ∈ tr, ∀ c, t.post.exitCode = some c → x.exitCode = some c ∧ x.calls.head? = some c) ∧
    (∀ i c, x.threads i = .returned c → x.calls.head? = some c) ∧
    (x.mutex = none → x.calls ≠ [] → ∀ i, x.threads i ≠ .asleep) := by
  have hI := reachable_inv h.reachable
  refine ⟨fun t ht c hc => ?_, fun i c hi => hI.first c (hI.read i c (.inr hi)), fun hm hcalls i hi => ?_⟩
  · obtain ⟨l₁, l₂, rfl⟩ := List.append_of_mem ht
    have hx : x.exitCode = some c := (h.since (I := fun y => y.exitCode = some c) (C := fun _ => True)
      (fun _ _ _ _ hc _ hs => exitCode_step hc hs) hc fun _ _ => trivial).1
    exact ⟨hx, hI.first c hx⟩
  · obtain ⟨-, hnone, hasleep⟩ := hI.free hm
    exact hcalls (hnone (hasleep i hi))

/-- **An `exit` reaches everybody.** Once there is a code, a thread in `exit` or
`waitForExit` takes at most four steps until it is out, unless it calls again;
and while it is not out, it can go on itself, or the owner of the lock can. -/
theorem exit_reaches_all {tr : List (Transition (ContextBase T) (ContextLabel T))} {x : ContextBase T}
    (h : (contextBase T).Run tr x) {l₁ l₂ : List (Transition (ContextBase T) (ContextLabel T))}
    {t : Transition (ContextBase T) (ContextLabel T)} (htr : tr = l₁ ++ t :: l₂) {c : Int}
    (hc : t.post.exitCode = some c) {i : T} (hcalls : ∀ u ∈ l₂, u.label.CallsNot i) :
    l₂.countP (·.label.thread = i) ≤ 4 ∧
    ((x.threads i).idle = false → ∃ j x', (j = i ∨ x.mutex = some j) ∧ x.goesOn j = some x') := by
  subst htr
  have hI := reachable_inv h.reachable
  have hstep : ∀ (y : ContextBase T) l y', y.exitCode = some c → l.CallsNot i → y.step l = some y' →
      y'.exitCode = some c ∧ (y'.threads i).left + (if l.thread = i then 1 else 0) ≤ (y.threads i).left :=
    fun y l y' hy hl hs => ⟨exitCode_step hy hs, left_step hy hl hs⟩
  constructor
  · have hrun := h.measure_since (I := fun y => y.exitCode = some c) (C := fun u => u.label.CallsNot i)
      (p := fun u => decide (u.label.thread = i)) (fun y => (y.threads i).left)
      (fun y l y' _ hy hl hs => by simpa using hstep y l y' hy hl hs) hc hcalls
    have hle : (t.post.threads i).left ≤ 4 := by cases t.post.threads i <;> simp [ContextThread.left]
    omega
  · obtain ⟨hx, -⟩ := h.since (I := fun y => y.exitCode = some c) (C := fun u => u.label.CallsNot i)
      (fun y l y' _ hy hl hs => (hstep y l y' hy hl hs).1) hc hcalls
    exact hI.goes_on hx

/-- A run, and one step more. -/
theorem context_step {tr : List (Transition (ContextBase T) (ContextLabel T))} {x x' : ContextBase T}
    (h : (contextBase T).Run tr x) (l : ContextLabel T) (hs : x.step l = some x') :
    (contextBase T).Run (tr ++ [⟨x, l, x'⟩]) x' := .step h hs

/-- One thread sleeps in `waitForExit` when the other calls `exit`, and gets its
code. -/
theorem run_exit : ∃ (l₁ l₂ : List (Transition (ContextBase Bool) (ContextLabel Bool)))
    (t : Transition (ContextBase Bool) (ContextLabel Bool)) (x : ContextBase Bool),
    (contextBase Bool).Run (l₁ ++ t :: l₂) x ∧ t.post.exitCode = some 1 ∧ t.post.threads false = .asleep ∧
    (∀ u ∈ l₂, u.label.CallsNot false) ∧ x.threads false = .returned 1 := by
  have h : (contextBase Bool).Run [] .initial := .init rfl
  have h := context_step h (.waitForExit false) rfl
  have h := context_step h (.goesOn false) rfl
  have h := context_step h (.goesOn false) rfl
  have h := context_step h (.exit true 1) rfl
  have h := context_step h (.goesOn true) rfl
  have h := context_step h (.goesOn true) rfl
  have h := context_step h (.goesOn true) rfl
  have h := context_step h (.goesOn true) rfl
  have h := context_step h (.goesOn false) rfl
  have h := context_step h (.goesOn false) rfl
  have h := context_step h (.goesOn false) rfl
  simp only [List.nil_append, List.cons_append] at h
  refine ⟨[_, _, _, _, _], [_, _, _, _, _], _, _, h, rfl, rfl, ?_, rfl⟩
  simp [ContextLabel.CallsNot]

theorem exit_first_counts_sleeper : ∃ tr x, (contextBase Bool).Run tr x ∧ x.threads false = .returned 1 ∧
    x.calls.head? = some 1 := by
  obtain ⟨l₁, l₂, t, x, h, -, -, -, hx⟩ := run_exit
  exact ⟨_, x, h, hx, (exit_first_counts h).2.1 false 1 hx⟩

theorem exit_reaches_all_sleeper : ∃ (l₁ l₂ : List (Transition (ContextBase Bool) (ContextLabel Bool)))
    (t : Transition (ContextBase Bool) (ContextLabel Bool)) (x : ContextBase Bool),
    (contextBase Bool).Run (l₁ ++ t :: l₂) x ∧ t.post.threads false = .asleep ∧ x.threads false = .returned 1 ∧
    l₂.countP (·.label.thread = false) ≤ 4 := by
  obtain ⟨l₁, l₂, t, x, h, hc, hasleep, hcalls, hx⟩ := run_exit
  exact ⟨l₁, l₂, t, x, h, hasleep, hx, (exit_reaches_all h rfl hc hcalls).1⟩

end RuralPipe
