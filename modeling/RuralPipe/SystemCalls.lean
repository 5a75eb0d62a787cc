/-
What a function does with the kernel, where it fails half-way.

A `Routine` is such a function: it goes from the `Trace` of what was done so far
to the trace after it, and returns, or stops: with an exception or a failed
assertion, or because a `strcpy` wrote past its field, after which the language
promises nothing. What the system calls return is given to the functions.
-/
import RuralPipe.ScopedFileDescriptor

namespace RuralPipe

/-- A `std::string` without zero bytes: all of it is its `c_str()`. -/
structure Name where
  bytes : List UInt8
  noZero : 0 ∉ bytes

namespace Name

def length (name : Name) : Nat := name.bytes.length

/-- What a moved-from string is. -/
def empty : Name := ⟨[], by simp⟩

/-- The name in a message. -/
def text (name : Name) : String := String.ofList (name.bytes.map fun b => Char.ofNat b.toNat)

end Name

/-- The size of `ifr_name`. -/
def IFNAMSIZ : Nat := 16

/-- The descriptors opened, those passed to `::close`, and how many bytes each
`strcpy` into an `ifr_name` wrote. -/
structure Trace where
  opened : List Int
  closed : List Int
  copied : List Nat

def Trace.start : Trace := { opened := [], closed := [], copied := [] }

/-- Every descriptor was closed as often as it was opened. -/
def Trace.AllClosed (k : Trace) : Prop := ∀ fd, k.closed.count fd = k.opened.count fd

/-- Some were opened and closed again, and `os` were opened. -/
theorem Trace.allClosed_iff {k : Trace} {os : List Int} (h : k.opened = os ++ k.closed) : k.AllClosed ↔ os = [] := by
  constructor
  · intro hall
    refine List.eq_nil_iff_forall_not_mem.2 fun fd hfd => ?_
    have hcount := hall fd
    have hpos := List.count_pos_iff.2 hfd
    rw [h, List.count_append] at hcount
    omega
  · intro hos fd
    rw [h, hos, List.nil_append]

inductive Stop
  | failure (f : Failure)
  | overrun
  deriving DecidableEq

def Routine (α : Type) := Trace → Except Stop α × Trace

namespace Routine

variable {α β : Type}

instance : Monad Routine where
  pure a k := (.ok a, k)
  bind x f k :=
    match x k with
    | (.ok a, k') => f a k'
    | (.error e, k') => (.error e, k')

def throw (ex : Exception) : Routine α := fun k => (.error (.failure (.throw ex)), k)

/-- `SYSCALL_MSG`. -/
def syscall (msg : String) : Syscall α → Routine α
  | .ok a => pure a
  | .error errno => throw (throwFromErrno msg errno)

/-- `RASSERT`. -/
def rassert (x : Bool) (condition : String) : Routine Unit :=
  fun k => if x then (.ok (), k) else (.error (.failure (.abort condition)), k)

/-- `FileDescriptor(desc, fd)` with the system call that gives `fd`. -/
def openDescriptor (desc : String) (res : Syscall Nat) : Routine FileDescriptor := fun k =>
  match FileDescriptor.construct desc res with
  | .ok d => (.ok d, { k with opened := k.opened ++ [d.fd] })
  | .error ex => (.error (.failure (.throw ex)), k)

/-- `strcpy(ifr.ifr_name, name.c_str())`, terminator included. -/
def strcpy (name : Name) : Routine Unit := fun k =>
  let n := name.length + 1
  (if IFNAMSIZ < n then .error .overrun else .ok (), { k with copied := k.copied ++ [n] })

/-- The destructor of a `ScopedFileDescriptor`. -/
def destroy (sock : FileDescriptor) : Routine Unit := fun k =>
  match sock.close with
  | .ok _ => (.ok (), { k with closed := k.closed ++ sock.passedToClose })
  | .error f => (.error (.failure f), k)

/-- The rest of a function in which `sock` lives: it is destroyed on the way out,
by an exception too. What is left in it is for `body` to say. -/
def withScoped (sock : FileDescriptor) (body : Routine (α × FileDescriptor)) : Routine α := fun k =>
  match body k with
  | (.ok (a, left), k') => (do destroy left; pure a : Routine α) k'
  | (.error (.failure (.throw ex)), k') => (do destroy sock; throw ex : Routine α) k'
  | (.error e, k') => (.error e, k')

@[simp] theorem pure_apply (a : α) (k : Trace) : (pure a : Routine α) k = (.ok a, k) := rfl

/-- What follows an action that returned. -/
theorem bind_ok {x : Routine α} {f : α → Routine β} {k k' : Trace} {a : α} (h : x k = (.ok a, k')) :
    (x >>= f) k = f a k' := by
  show (match x k with | (.ok a, k') => f a k' | (.error e, k') => (.error e, k')) = _
  rw [h]

/-- What follows one that stopped is left out. -/
theorem bind_error {x : Routine α} {f : α → Routine β} {k k' : Trace} {e : Stop} (h : x k = (.error e, k')) :
    (x >>= f) k = (.error e, k') := by
  show (match x k with | (.ok a, k') => f a k' | (.error e, k') => (.error e, k')) = _
  rw [h]

theorem openDescriptor_ok (desc : String) (fd : Nat) (k : Trace) :
    openDescriptor desc (.ok fd) k = (.ok { desc, fd := fd }, { k with opened := k.opened ++ [(fd : Int)] }) := rfl

theorem openDescriptor_error (desc : String) (errno : Nat) (k : Trace) :
    ∃ ex, openDescriptor desc (.error errno) k = (.error (.failure (.throw ex)), k) := ⟨_, rfl⟩

theorem syscall_ok (msg : String) (a : α) (k : Trace) : syscall msg (.ok a) k = (.ok a, k) := rfl

theorem syscall_error (msg : String) (errno : Nat) (k : Trace) :
    ∃ ex, (syscall msg (.error errno) : Routine α) k = (.error (.failure (.throw ex)), k) := ⟨_, rfl⟩

theorem strcpy_fits {name : Name} (h : name.length < IFNAMSIZ) (k : Trace) :
    strcpy name k = (.ok (), { k with copied := k.copied ++ [name.length + 1] }) := by
  simp only [strcpy, if_neg (Nat.not_lt.2 h)]

theorem strcpy_overrun {name : Name} (h : IFNAMSIZ ≤ name.length) (k : Trace) :
    strcpy name k = (.error .overrun, { k with copied := k.copied ++ [name.length + 1] }) := by
  simp only [strcpy, if_pos (Nat.lt_succ_of_le h)]

/-! ## Destructors -/

variable {sock left : FileDescriptor} {body : Routine (α × FileDescriptor)} {k k' k'' : Trace} {a : α} {ex : Exception}

theorem destroy_owner (h : 0 < sock.fd) : destroy sock k = (.ok (), { k with closed := k.closed ++ [sock.fd] }) := by
  simp only [destroy, FileDescriptor.close, FileDescriptor.passedToClose, if_pos h]

theorem destroy_zero (h : sock.fd = 0) : ∃ c, destroy sock k = (.error (.failure (.abort c)), k) := by
  have hpos : ¬ 0 < sock.fd := by omega
  have hempty : ¬ sock.fd = -1 := by omega
  refine ⟨s!"Illegal file descriptor ({sock.fd}): {sock.desc}", ?_⟩
  simp only [destroy, FileDescriptor.close, if_neg hpos, if_neg hempty]

theorem withScoped_ok (h : body k = (.ok (a, left), k')) :
    withScoped sock body k = (do destroy left; pure a : Routine α) k' := by
  simp only [withScoped, h]

theorem withScoped_throw (h : body k = (.error (.failure (.throw ex)), k')) :
    withScoped sock body k = (do destroy sock; throw ex : Routine α) k' := by
  simp only [withScoped, h]

/-- After a failed assertion, or an overrun, nothing is destroyed. -/
theorem withScoped_stop {e : Stop} (he : ∀ ex, e ≠ .failure (.throw ex)) (h : body k = (.error e, k')) :
    withScoped sock body k = (.error e, k') := by
  cases e with
  | failure f =>
    cases f with
    | throw ex => exact absurd rfl (he ex)
    | abort c => simp only [withScoped, h]
  | overrun => simp only [withScoped, h]

/-- A function that keeps its object closes the descriptor when it returns. -/
theorem withScoped_closes (hfd : 0 < sock.fd) (h : body k = (.ok (a, sock), k')) :
    withScoped sock body k = (.ok a, { k' with closed := k'.closed ++ [sock.fd] }) := by
  rw [withScoped_ok h, bind_ok (destroy_owner hfd)]
  rfl

/-- And when an exception leaves it. -/
theorem withScoped_unwinds (hfd : 0 < sock.fd) (h : body k = (.error (.failure (.throw ex)), k')) :
    withScoped sock body k = (.error (.failure (.throw ex)), { k' with closed := k'.closed ++ [sock.fd] }) := by
  rw [withScoped_throw h, bind_ok (destroy_owner hfd)]
  rfl

/-- On descriptor 0 either way ends in the destructor. -/
theorem withScoped_zero (hfd : sock.fd = 0)
    (h : (∃ a, body k = (.ok (a, sock), k')) ∨ ∃ ex, body k = (.error (.failure (.throw ex)), k')) :
    ∃ c, withScoped sock body k = (.error (.failure (.abort c)), k') := by
  obtain ⟨c, hc⟩ := destroy_zero (k := k') hfd
  refine ⟨c, ?_⟩
  rcases h with ⟨a, h⟩ | ⟨ex, h⟩
  · rw [withScoped_ok h, bind_error hc]
  · rw [withScoped_throw h, bind_error hc]

/-! ## Invariants of the trace -/

/-- `x` keeps `P`, and what it returns, if it does, meets `Q`. -/
def Ensures (P : Trace → Prop) (x : Routine α) (Q : α → Prop) : Prop :=
  ∀ k, P k → P (x k).2 ∧ ∀ a, (x k).1 = .ok a → Q a

variable {P : Trace → Prop} {Q : α → Prop} {Q' : β → Prop} {x : Routine α} {f : α → Routine β}

theorem ensures_pure (h : Q a) : Ensures P (pure a) Q := by
  intro k hk
  refine ⟨hk, fun a' ha' => ?_⟩
  cases ha'
  exact h

theorem ensures_throw (ex : Exception) : Ensures P (throw ex) Q :=
  fun _ hk => ⟨hk, fun a ha => by cases ha⟩

theorem Ensures.bind (hx : Ensures P x Q) (hf : ∀ a, Q a → Ensures P (f a) Q') : Ensures P (x >>= f) Q' := by
  intro k hk
  obtain ⟨hk', hQ⟩ := hx k hk
  cases hr : x k with
  | mk r k' =>
    rw [hr] at hk' hQ
    cases r with
    | ok a =>
      rw [bind_ok hr]
      exact hf a (hQ a rfl) k' hk'
    | error e =>
      rw [bind_error hr]
      exact ⟨hk', fun b hb => by cases hb⟩

/-- What leaves the trace as it is keeps everything. -/
theorem ensures_of_trace (h : ∀ k, (x k).2 = k) : Ensures P x fun _ => True :=
  fun k hk => ⟨(h k).symm ▸ hk, fun _ _ => trivial⟩

theorem ensures_syscall (msg : String) (res : Syscall α) : Ensures P (syscall msg res) fun _ => True :=
  ensures_of_trace fun k => by cases res <;> rfl

theorem ensures_rassert (b : Bool) (condition : String) : Ensures P (rassert b condition) fun _ => True :=
  ensures_of_trace fun k => by cases b <;> rfl

/-- A function with an object on its way out closes a descriptor at most. -/
theorem ensures_withScoped (h : Ensures P body fun r => Q r.1)
    (hclose : ∀ k fd, P k → P { k with closed := k.closed ++ fd }) : Ensures P (withScoped sock body) Q := by
  have hdestroy : ∀ d : FileDescriptor, Ensures P (destroy d) fun _ => True := by
    intro d k hk
    refine ⟨?_, fun _ _ => trivial⟩
    unfold destroy
    split
    · exact hclose _ _ hk
    · exact hk
  intro k hk
  obtain ⟨hk', hQ⟩ := h k hk
  cases hr : body k with
  | mk r k' =>
    rw [hr] at hk' hQ
    cases r with
    | ok p =>
      rw [withScoped_ok hr]
      exact ((hdestroy p.2).bind fun _ _ => ensures_pure (hQ p rfl)) k' hk'
    | error e =>
      by_cases he : ∃ ex, e = .failure (.throw ex)
      · obtain ⟨ex, rfl⟩ := he
        rw [withScoped_throw hr]
        exact ((hdestroy sock).bind fun _ _ => ensures_throw ex) k' hk'
      · rw [withScoped_stop (fun ex hex => he ⟨ex, hex⟩) hr]
        exact ⟨hk', fun a ha => by cases ha⟩

end Routine

end RuralPipe
