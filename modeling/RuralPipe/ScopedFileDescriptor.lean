/-
The objects of `ScopedFileDescriptor` (`common/file_descriptor.cpp`).

An object owns the descriptor it was constructed from: its destructor calls
`close()`, and a move takes the descriptor along. But the move assignment is that
of `FileDescriptor`, which owns nothing, so what its target held before is lost;
and `close()` knows the descriptors above 0 and the -1 of an empty object, and
aborts on 0.

Any number of objects live at once, and their operations come in any order
(`scopedDescriptors`). What they hold is an `Ownership`, and each operation one
or two of its acts (`step_acts`).
-/
import RuralPipe.FileDescriptor
import RuralPipe.Machine
import RuralPipe.Ownership

namespace RuralPipe

open Machine

namespace FileDescriptor

/-- The constructor, on what the system call that gave the descriptor returned. -/
def construct (desc : String) : Syscall Nat → Except Exception FileDescriptor
  | .ok fd => .ok { desc, fd := fd }
  | .error errno => .error (throwFromErrno s!"Could not open file descriptor (-1): {desc}" errno)

/-- `operator=(FileDescriptor &&)`: `*this` and `other` after it. -/
def moveAssign (this other : FileDescriptor) : FileDescriptor × FileDescriptor :=
  ({ this with desc := other.desc, fd := other.fd }, { other with desc := "", fd := -1 })

/-- The move constructor assigns to an empty object. -/
def moveConstruct (other : FileDescriptor) : FileDescriptor × FileDescriptor :=
  moveAssign { desc := "", fd := -1 } other

/-- What `close()` passes to `::close`. -/
def passedToClose (fd : FileDescriptor) : List Int := if 0 < fd.fd then [fd.fd] else []

end FileDescriptor

/-- The objects that live, the descriptors they were constructed from, those that
were passed to `::close`, and the assertion that ended the process. -/
structure ScopedDescriptors (O : Type) where
  object : O → Option FileDescriptor
  given : List Int
  closed : List Int
  aborted : Option Failure

inductive ScopedOp (O : Type)
  | construct (o : O) (desc : String) (res : Syscall Nat)
  | moveConstruct (o other : O)
  | moveAssign (o other : O)
  | close (o : O)
  | destroy (o : O)

namespace ScopedDescriptors

variable {O : Type} [DecidableEq O]

def initial : ScopedDescriptors O := { object := fun _ => none, given := [], closed := [], aborted := none }

/-- Both objects of a move. -/
def moved (s : ScopedDescriptors O) (o other : O) (d : FileDescriptor × FileDescriptor) : ScopedDescriptors O :=
  { s with object := Function.update (Function.update s.object o (some d.1)) other (some d.2) }

/-- `close()` on `o`, and what becomes of the object then. -/
def closing (s : ScopedDescriptors O) (o : O) (d : FileDescriptor) (after : FileDescriptor → Option FileDescriptor) :
    ScopedDescriptors O :=
  match d.close with
  | .ok d' => { s with object := Function.update s.object o (after d'), closed := s.closed ++ d.passedToClose }
  | .error failure => { s with aborted := some failure }

/-- One operation. An object is constructed where none lives, and from a
descriptor that no other was given while it is open. -/
def step (s : ScopedDescriptors O) : ScopedOp O → Option (ScopedDescriptors O)
  | .construct o desc res =>
    if s.aborted.isSome ∨ (s.object o).isSome then none
    else
      match FileDescriptor.construct desc res with
      | .error _ => some s
      | .ok d =>
        if s.closed.count d.fd < s.given.count d.fd then none
        else some { s with object := Function.update s.object o (some d), given := s.given ++ [d.fd] }
  | .moveConstruct o other =>
    match s.aborted, s.object o, s.object other with
    | none, none, some d => some (s.moved o other d.moveConstruct)
    | _, _, _ => none
  | .moveAssign o other =>
    match s.aborted, s.object o, s.object other with
    | none, some this, some d => some (s.moved o other (this.moveAssign d))
    | _, _, _ => none
  | .close o =>
    match s.aborted, s.object o with
    | none, some d => some (s.closing o d some)
    | _, _ => none
  | .destroy o =>
    match s.aborted, s.object o with
    | none, some d => some (s.closing o d fun _ => none)
    | _, _ => none

/-- The descriptor an object has: none where none lives, or an empty one. -/
def holding : Option FileDescriptor → Option Int
  | some d => if d.fd = -1 then none else some d.fd
  | none => none

/-- The objects as owners of their descriptors. -/
def ownership (s : ScopedDescriptors O) : Ownership O Int :=
  { holds := holding ∘ s.object, taken := s.given, released := s.closed }

def held (s : ScopedDescriptors O) (o : O) : Option Int := holding (s.object o)

end ScopedDescriptors

def scopedDescriptors (O : Type) [DecidableEq O] : Machine (ScopedDescriptors O) (ScopedOp O) where
  init s := s = .initial
  step s op s' := s.step op = some s'

namespace ScopedDescriptors

variable {O : Type}

/-- Ownership as the header describes it, in a state: the process runs, no
descriptor was passed to `::close` more often than it was given, one object at
most has it, and when no object lives each was closed as often as given. -/
structure ClosesOnce (s : ScopedDescriptors O) : Prop where
  running : s.aborted = none
  atMost : ∀ fd, s.closed.count fd ≤ s.given.count fd
  holder : ∀ o o' fd, s.held o = some fd → s.held o' = some fd → o = o'
  all : (∀ o, s.object o = none) → ∀ fd, s.closed.count fd = s.given.count fd

/-- The operation loses nothing: a move assignment goes to an object that holds no
descriptor, and an object that is closed or destroyed holds none or a positive
one. -/
def Keeps (t : Transition (ScopedDescriptors O) (ScopedOp O)) : Prop :=
  match t.label with
  | .moveAssign o _ => t.pre.held o = none
  | .close o | .destroy o => ∀ fd, t.pre.held o = some fd → 0 < fd
  | _ => True

/-- The process was aborted, or all objects have been destroyed. -/
def Over (s : ScopedDescriptors O) : Prop := s.aborted ≠ none ∨ ∀ o, s.object o = none

/-! ## Operations as acts of owners -/

variable {s s' : ScopedDescriptors O} {op : ScopedOp O} {o other : O} {d : FileDescriptor}

theorem held_eq (s : ScopedDescriptors O) (o : O) : s.ownership.holds o = s.held o := rfl

/-- Once a descriptor is lost, the end does not find all closed. -/
theorem not_closesOnce_of_lost {fd : Int} (h : s.ownership.Lost fd) (hover : s.Over) : ¬ s.ClosesOnce := by
  intro hc
  rcases hover with hab | hnone
  · exact hab hc.running
  · have hlt : s.closed.count fd < s.given.count fd := h.1
    rw [hc.all hnone fd] at hlt
    exact absurd hlt (Nat.lt_irrefl _)

theorem holding_some (hd : d.fd ≠ -1) : holding (some d) = some d.fd := if_neg hd

theorem holding_empty (hd : d.fd = -1) : holding (some d) = none := if_pos hd

/-- A constructed object holds what was given. -/
theorem construct_ok {desc : String} {res : Syscall Nat} (h : FileDescriptor.construct desc res = .ok d) :
    holding (some d) = some d.fd := by
  cases res with
  | ok fd =>
    cases h
    exact holding_some (by show (fd : Int) ≠ -1; omega)
  | error errno => cases h

/-- Nothing is lost, and the process runs. -/
def Sound (s : ScopedDescriptors O) : Prop := s.aborted = none ∧ ∀ fd, ¬ s.ownership.Lost fd

/-- Tidy and sound, every descriptor is accounted for. -/
theorem Sound.closesOnce (h : s.Sound) (ht : s.ownership.Tidy) : s.ClosesOnce := by
  refine ⟨h.1, ht.atMost, ht.holder, fun hnone fd => ht.settled h.2 fun o ho => ?_⟩
  have hempty : s.held o = none := by rw [held, hnone o]; rfl
  rw [held_eq, hempty] at ho
  cases ho

variable [DecidableEq O]

/-- A move out of `other`, in terms of what is held. -/
theorem ownership_moved {ds : FileDescriptor × FileDescriptor} (hd : s.object other = some d) (h₁ : ds.1.fd = d.fd)
    (h₂ : ds.2.fd = -1) : (s.moved o other ds).ownership = s.ownership.move o other := by
  have hgo : holding (some ds.1) = s.ownership.holds other := by
    show _ = holding (s.object other)
    rw [hd]
    simp only [holding, h₁]
  simp only [ownership, moved, Function.comp_update, holding_empty h₂, hgo]
  rfl

/-- What `close()` does to the descriptor held: none is left, a positive one is
closed, and any other aborts. -/
theorem ownership_closing {after : FileDescriptor → Option FileDescriptor} (hd : s.object o = some d)
    (hafter : ∀ d', d'.fd = -1 → holding (after d') = none) :
    (s.closing o d after).ownership = s.ownership.release o ∧ (s.closing o d after).aborted = s.aborted ∧
      (∀ fd, s.held o = some fd → 0 < fd) ∨
    (s.closing o d after).ownership = s.ownership ∧ (s.closing o d after).aborted ≠ none ∧
      ∃ fd, s.held o = some fd ∧ ¬ 0 < fd := by
  have hheld : s.held o = holding (some d) := by rw [held, hd]
  by_cases hpos : 0 < d.fd
  · have hclose : d.close = .ok { d with fd := -1 } := if_pos hpos
    have hsome : s.held o = some d.fd := by rw [hheld, holding_some (by omega)]
    refine .inl ⟨?_, by rw [closing, hclose], fun fd hfd => ?_⟩
    · simp only [closing, hclose, ownership, Function.comp_update, hafter, FileDescriptor.passedToClose, if_pos hpos,
        Ownership.release]
      rw [show (holding ∘ s.object) o = some d.fd from hsome]
      rfl
    · rw [hsome] at hfd
      cases hfd
      exact hpos
  · by_cases hempty : d.fd = -1
    · have hclose : d.close = .ok d := by rw [FileDescriptor.close, if_neg hpos, if_pos hempty]
      have hnone : s.held o = none := by rw [hheld, holding_empty hempty]
      refine .inl ⟨?_, by rw [closing, hclose], fun fd hfd => ?_⟩
      · simp only [closing, hclose, ownership, Function.comp_update, hafter d hempty, FileDescriptor.passedToClose,
          if_neg hpos, Ownership.release]
        rw [show (holding ∘ s.object) o = none from hnone]
        rfl
      · rw [hnone] at hfd
        cases hfd
    · have hclose : d.close = .error (.abort s!"Illegal file descriptor ({d.fd}): {d.desc}") := by
        rw [FileDescriptor.close, if_neg hpos, if_neg hempty]
      refine .inr ⟨by rw [closing, hclose]; rfl, by simp [closing, hclose], d.fd, ?_, hpos⟩
      rw [hheld, holding_some hempty]

/-- Each operation is one act of the owners; or it is a `close()` that aborts. -/
theorem step_acts (h : s.step op = some s') : s.aborted = none ∧
    ((s' = s ∧ Keeps ⟨s, op, s'⟩) ∨
    (∃ o fd, s'.ownership = s.ownership.take o fd ∧ s.held o = none ∧ s.given.count fd ≤ s.closed.count fd ∧
      s'.aborted = none ∧ Keeps ⟨s, op, s'⟩) ∨
    (∃ o other, s'.ownership = s.ownership.move o other ∧ s'.aborted = none ∧
      (Keeps ⟨s, op, s'⟩ ↔ s.held o = none)) ∨
    (∃ o, s'.ownership = s.ownership.release o ∧ s'.aborted = none ∧ Keeps ⟨s, op, s'⟩) ∨
    (s'.ownership = s.ownership ∧ s'.aborted ≠ none ∧ ¬ Keeps ⟨s, op, s'⟩)) := by
  cases op with
  | construct o desc res =>
    simp only [step] at h
    split at h
    · cases h
    rename_i hlive
    simp only [not_or, Option.not_isSome_iff_eq_none] at hlive
    obtain ⟨hrun, ho⟩ := hlive
    refine ⟨hrun, ?_⟩
    cases hc : FileDescriptor.construct desc res with
    | error ex =>
      rw [hc] at h
      cases h
      exact .inl ⟨rfl, trivial⟩
    | ok d =>
      rw [hc] at h
      simp only at h
      split at h
      · cases h
      rename_i hopen
      cases h
      refine .inr (.inl ⟨o, d.fd, ?_, by rw [held, ho]; rfl, Nat.le_of_not_lt hopen, hrun, trivial⟩)
      simp only [ownership, Function.comp_update, construct_ok hc]
      rfl
  | moveConstruct o other =>
    simp only [step] at h
    split at h
    · rename_i d hrun ho hd
      cases h
      refine ⟨hrun, .inr (.inr (.inl ⟨o, other, ownership_moved hd rfl rfl, hrun, ?_⟩))⟩
      exact iff_of_true trivial (by rw [held, ho]; rfl)
    · cases h
  | moveAssign o other =>
    simp only [step] at h
    split at h
    · rename_i this d hrun ho hd
      cases h
      exact ⟨hrun, .inr (.inr (.inl ⟨o, other, ownership_moved hd rfl rfl, hrun, Iff.rfl⟩))⟩
    · cases h
  | close o =>
    simp only [step] at h
    split at h
    · rename_i d hrun hd
      cases h
      refine ⟨hrun, .inr (.inr (.inr ?_))⟩
      rcases ownership_closing hd fun _ => holding_empty with ⟨hown, hab, hk⟩ | ⟨hown, hab, fd, hfd, hpos⟩
      · exact .inl ⟨o, hown, hab.trans hrun, hk⟩
      · exact .inr ⟨hown, hab, fun hk => hpos (hk fd hfd)⟩
    · cases h
  | destroy o =>
    simp only [step] at h
    split at h
    · rename_i d hrun hd
      cases h
      refine ⟨hrun, .inr (.inr (.inr ?_))⟩
      have hgone : ∀ d' : FileDescriptor, d'.fd = -1 → holding ((fun _ => none) d') = none := fun _ _ => rfl
      rcases ownership_closing hd hgone with ⟨hown, hab, hk⟩ | ⟨hown, hab, fd, hfd, hpos⟩
      · exact .inl ⟨o, hown, hab.trans hrun, hk⟩
      · exact .inr ⟨hown, hab, fun hk => hpos (hk fd hfd)⟩
    · cases h

/-- Whatever the operations, the descriptors stay tidy. -/
theorem reachable_tidy (h : (scopedDescriptors O).Reachable s) : s.ownership.Tidy := by
  refine h.invariant (I := fun s => s.ownership.Tidy) ?_ ?_
  · intro s hs
    cases hs
    exact ⟨by simp [ownership, initial, holding], by simp [ownership, initial, holding], fun _ => Nat.le_refl _⟩
  · intro s op s' _ hI hs
    obtain ⟨-, ⟨rfl, -⟩ | ⟨o, fd, hown, -, hfree, -⟩ | ⟨o, other, hown, -⟩ | ⟨o, hown, -⟩ | ⟨hown, -⟩⟩ := step_acts hs
    · exact hI
    · rw [hown]
      exact hI.take hfree
    · rw [hown]
      exact hI.move
    · rw [hown]
      exact hI.release
    · rw [hown]
      exact hI

/-- What is lost stays lost. -/
theorem lost_step {fd : Int} (h : s.ownership.Lost fd) (hs : s.step op = some s') : s'.ownership.Lost fd := by
  obtain ⟨-, ⟨rfl, -⟩ | ⟨o, fd', hown, -, hfree, -⟩ | ⟨o, other, hown, -⟩ | ⟨o, hown, -⟩ | ⟨hown, -⟩⟩ := step_acts hs
  · exact h
  · rw [hown]
    exact h.take hfree
  · rw [hown]
    exact h.move
  · rw [hown]
    exact h.release
  · rw [hown]
    exact h

theorem sound_step (ht : s.ownership.Tidy) (h : s.Sound) (hk : Keeps ⟨s, op, s'⟩) (hs : s.step op = some s') :
    s'.Sound := by
  obtain ⟨-, ⟨rfl, -⟩ | ⟨o, fd, hown, ho, -, hab, -⟩ | ⟨o, other, hown, hab, hiff⟩ | ⟨o, hown, hab, -⟩ | ⟨-, -, hn⟩⟩ :=
    step_acts hs
  · exact h
  · exact ⟨hab, fun fd hl => h.2 fd ((hown ▸ hl).of_take ho)⟩
  · exact ⟨hab, fun fd hl => h.2 fd ((hown ▸ hl).of_move (hiff.1 hk))⟩
  · exact ⟨hab, fun fd hl => h.2 fd ((hown ▸ hl).of_release ht)⟩
  · exact absurd hk hn

/-- An operation that does not keep what is held aborts, or loses a descriptor. -/
theorem not_keeps (ht : s.ownership.Tidy) (hk : ¬ Keeps ⟨s, op, s'⟩) (hs : s.step op = some s') :
    s'.aborted ≠ none ∨ ∃ fd, s'.ownership.Lost fd := by
  obtain ⟨-, ⟨-, h⟩ | ⟨o, fd, -, -, -, -, h⟩ | ⟨o, other, hown, -, hiff⟩ | ⟨o, -, -, h⟩ | ⟨-, hab, -⟩⟩ := step_acts hs
  · exact absurd h hk
  · exact absurd h hk
  · obtain ⟨fd, hfd⟩ := Option.ne_none_iff_exists'.1 fun hn => hk (hiff.2 hn)
    refine .inr ⟨fd, ?_⟩
    rw [hown, ← Ownership.forget_move]
    exact (ht.lost_forget hfd).move
  · exact absurd h hk
  · exact .inl hab

end ScopedDescriptors

open ScopedDescriptors

/-- **Owned descriptors are closed exactly once in the runs that neither move
onto an owner nor close descriptor 0**: in these every state is in order, and a
run at whose end no object lives, or whose process was aborted, is in order
throughout only if it is one of them. -/
theorem closed_once {O : Type} [DecidableEq O] {tr : List (Transition (ScopedDescriptors O) (ScopedOp O))}
    {s : ScopedDescriptors O} (h : (scopedDescriptors O).Run tr s) :
    ((∀ t ∈ tr, Keeps t) → s.ClosesOnce ∧ ∀ t ∈ tr, t.pre.ClosesOnce ∧ t.post.ClosesOnce) ∧
    (s.Over → (∀ t ∈ tr, t.post.ClosesOnce) → ∀ t ∈ tr, Keeps t) := by
  constructor
  · intro hk
    have hsound : s.Sound ∧ ∀ t ∈ tr, t.pre.Sound ∧ t.post.Sound := by
      refine h.guarded (I := Sound) (C := Keeps) ?_ ?_ hk
      · intro s hs
        cases hs
        exact ⟨rfl, fun fd hl => absurd hl.1 (Nat.lt_irrefl _)⟩
      · exact fun s op s' hr hI hk hs => sound_step (reachable_tidy hr) hI hk hs
    refine ⟨hsound.1.closesOnce (reachable_tidy h.reachable), fun t ht => ?_⟩
    obtain ⟨hpre, -, hpost⟩ := h.transition t ht
    exact ⟨(hsound.2 t ht).1.closesOnce (reachable_tidy hpre), (hsound.2 t ht).2.closesOnce (reachable_tidy hpost)⟩
  · intro hover hall t ht
    by_contra hk
    obtain ⟨hpre, hstep, -⟩ := h.transition t ht
    rcases not_keeps (reachable_tidy hpre) hk hstep with hab | ⟨fd, hl⟩
    · exact hab (hall t ht).running
    · obtain ⟨l₁, l₂, rfl⟩ := List.append_of_mem ht
      have hlost : s.ownership.Lost fd :=
        (h.since (I := fun s => s.ownership.Lost fd) (C := fun _ => True) (fun _ _ _ _ hl _ hs => lost_step hl hs) hl
          fun _ _ => trivial).1
      obtain hnil | ⟨l, u, hlast⟩ := List.eq_nil_or_concat (l₁ ++ t :: l₂)
      · simp at hnil
      · rw [hlast, List.concat_eq_append] at h hall
        refine not_closesOnce_of_lost hlost hover ?_
        rw [← h.last]
        exact hall u (by simp)

/-- A run, and one operation more. -/
theorem scoped_step {O : Type} [DecidableEq O] {tr : List (Transition (ScopedDescriptors O) (ScopedOp O))}
    {s s' : ScopedDescriptors O} (h : (scopedDescriptors O).Run tr s) (op : ScopedOp O) (hs : s.step op = some s') :
    (scopedDescriptors O).Run (tr ++ [⟨s, op, s'⟩]) s' := .step h hs

/-- A socket is moved out of `_connectToServer` and closed with its new owner. -/
theorem closed_once_moved : ∃ tr s, (scopedDescriptors Bool).Run tr s ∧ s.given = [3] ∧ s.closed = [3] ∧
    s.ClosesOnce := by
  have h₀ : (scopedDescriptors Bool).Run [] .initial := .init rfl
  have h₁ := scoped_step h₀ (.construct false "Server on eth0" (.ok 3)) rfl
  have h₂ := scoped_step h₁ (.moveConstruct true false) rfl
  have h₃ := scoped_step h₂ (.destroy false) rfl
  have h₄ := scoped_step h₃ (.close true) rfl
  have h₅ := scoped_step h₄ (.close true) rfl
  have h₆ := scoped_step h₅ (.destroy true) rfl
  refine ⟨_, _, h₆, rfl, rfl, ((closed_once h₆).1 ?_).1⟩
  intro t ht
  simp only [List.nil_append, List.cons_append, List.mem_cons, List.not_mem_nil, or_false] at ht
  rcases ht with rfl | rfl | rfl | rfl | rfl | rfl
  · trivial
  · trivial
  all_goals
    intro fd hfd
    cases hfd
  decide

/-- An object constructed from descriptor 0 aborts the process when it is
closed; and of two objects, the one that is moved to leaves its descriptor open
for good. -/
theorem not_closed_once :
    (∃ tr s, (scopedDescriptors Bool).Run tr s ∧ s.given = [0] ∧ s.closed = [] ∧ ¬ s.ClosesOnce) ∧
    ∃ tr s, (scopedDescriptors Bool).Run tr s ∧ (∀ o, s.object o = none) ∧ s.given = [3, 4] ∧ s.closed = [4] ∧
      ¬ s.ClosesOnce := by
  have h₀ : (scopedDescriptors Bool).Run [] .initial := .init rfl
  constructor
  · have h₁ := scoped_step h₀ (.construct false "stdin" (.ok 0)) rfl
    have h₂ := scoped_step h₁ (.close false) rfl
    exact ⟨_, _, h₂, rfl, rfl, fun hc => by cases hc.running⟩
  · have h₁ := scoped_step h₀ (.construct false "eth0" (.ok 3)) rfl
    have h₂ := scoped_step h₁ (.construct true "wlan0" (.ok 4)) rfl
    have h₃ := scoped_step h₂ (.moveAssign false true) rfl
    have h₄ := scoped_step h₃ (.destroy false) rfl
    have h₅ := scoped_step h₄ (.destroy true) rfl
    refine ⟨_, _, h₅, ?_, rfl, rfl, fun hc => ?_⟩
    · intro o
      cases o <;> rfl
    · exact absurd (hc.all (fun o => by cases o <;> rfl) 3) (by decide)

end RuralPipe
