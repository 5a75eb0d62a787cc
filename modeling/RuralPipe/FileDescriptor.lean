/-
File descriptors (`common/file_descriptor.cpp`), one system call at a time.

`FileDescriptor::read` and `write` are the same loop: make the call; would it
block, `poll` without a timeout and call again; a result of zero or any other
error throws. `Io` is where in that loop the thread stands, and a step of it
(`retryStep`) takes what one system call returned. What the kernel may return
is up to the caller of the step.
-/
import RuralPipe.Exception

namespace RuralPipe

structure FileDescriptor where
  desc : String
  fd : Int
  deriving DecidableEq

/-- What a system call returned, or the `errno` it failed with. -/
abbrev Syscall (α : Type) := Except Nat α

/-- Where `read` or `write` stands: at its system call, or in `poll`. -/
inductive Io
  | call
  | poll
  deriving DecidableEq

/-- A system call's return to `read` or `write`. -/
inductive IoEvent (α : Type)
  | call (res : Syscall α)
  | poll (res : Syscall Nat)

/-- A return in which nothing fails. -/
def IoEvent.Smooth {α : Type} (len : α → Nat) : IoEvent α → Prop
  | .call (.ok a) => 0 < len a
  | .call (.error errno) => errno = EWOULDBLOCK
  | .poll (.ok _) => True
  | .poll (.error _) => False

inductive Attempt (α : Type)
  | returned (a : α)
  | again (io : Io)
  | threw (ex : Exception)

namespace FileDescriptor

/-- `readNonBlocking` and `writeNonBlocking`: `none` where they return a
negative result, the call having found that it would block. -/
def nonBlocking {α : Type} (fd : FileDescriptor) (verb : String) : Syscall α → Except Exception (Option α)
  | .ok a => .ok (some a)
  | .error errno =>
    if errno = EWOULDBLOCK ∨ errno = EAGAIN then .ok none
    else .error (throwFromErrno s!"Failed to {verb} file descriptor ({fd.fd}): {fd.desc}" errno)

def poll : Syscall Nat → Except Exception Nat
  | .ok n => .ok n
  | .error errno => .error (throwFromErrno "::poll(&fd, 1, timeout.count())" errno)

/-- One turn of the loop of `read` and `write`, asked for `size` bytes; `len`
is how many a result is. A return that does not belong to the call the loop is
making, or of more than was asked, is no step. -/
def retryStep {α : Type} (fd : FileDescriptor) (verb : String) (len : α → Nat) (size : Nat) :
    Io → IoEvent α → Option (Attempt α)
  | .call, .call res =>
    match fd.nonBlocking verb res with
    | .error ex => some (.threw ex)
    | .ok none => some (.again .poll)
    | .ok (some a) =>
      if size < len a then none
      else if len a = 0 then
        some (.threw (SystemException s!"Failed to {verb} closed file descriptor ({fd.fd}): {fd.desc}"))
      else some (.returned a)
  | .poll, .poll res =>
    match poll res with
    | .error ex => some (.threw ex)
    | .ok _ => some (.again .call)
  | _, _ => none

def readStep (fd : FileDescriptor) (size : Nat) : Io → IoEvent (List UInt8) → Option (Attempt (List UInt8)) :=
  fd.retryStep "read from" List.length size

def writeStep (fd : FileDescriptor) (size : Nat) : Io → IoEvent Nat → Option (Attempt Nat) :=
  fd.retryStep "write to" id size

/-- `makeNonBlocking`, given what its two `fcntl` calls return. -/
def makeNonBlocking (getfl setfl : Syscall Nat) : Except Exception Unit :=
  match getfl with
  | .error errno => .error (throwFromErrno "::fcntl(_fd, F_GETFL)" errno)
  | .ok _ =>
    match setfl with
    | .error errno => .error (throwFromErrno "::fcntl(_fd, F_SETFL, flags | O_NONBLOCK)" errno)
    | .ok _ => .ok ()

/-- `ScopedFileDescriptor::close`: what `::close` itself returns is only logged. -/
def close (fd : FileDescriptor) : Except Failure FileDescriptor :=
  if 0 < fd.fd then .ok { fd with fd := -1 }
  else if fd.fd = -1 then .ok fd
  else .error (.abort s!"Illegal file descriptor ({fd.fd}): {fd.desc}")

theorem close_lt {fd fd' : FileDescriptor} (h : fd.close = .ok fd') : fd'.fd < 0 := by
  unfold close at h
  split at h
  · cases h
    show (-1 : Int) < 0
    decide
  · split at h
    · cases h
      omega
    · cases h

/-! ## What a step of the loop gives -/

variable {α : Type} {fd : FileDescriptor} {verb : String} {len : α → Nat} {size : Nat} {io : Io} {ev : IoEvent α}

/-- Whatever the loop throws is a `SystemException`. -/
theorem nonBlocking_threw {res : Syscall α} {ex : Exception} (h : fd.nonBlocking verb res = .error ex) :
    ex.isSystem = true ∧ ex.isNotYetReady = false := by
  cases res with
  | ok a => cases h
  | error e =>
    simp only [nonBlocking] at h
    by_cases he : e = EWOULDBLOCK ∨ e = EAGAIN
    · simp [he] at h
    · simp only [he, if_false, Except.error.injEq] at h
      subst h
      exact ⟨throwFromErrno_isSystem _ _, throwFromErrno_isNotYetReady _ _⟩

theorem nonBlocking_ok {res : Syscall α} {a : α} (h : fd.nonBlocking verb res = .ok (some a)) : res = .ok a := by
  cases res with
  | ok b =>
    simp only [nonBlocking, Except.ok.injEq, Option.some.injEq] at h
    rw [h]
  | error e =>
    simp only [nonBlocking] at h
    split at h <;> cases h

/-- The loop returns what its own call gave it, at least one byte and no more
than it asked for; or it goes on, or throws, without a byte moved. -/
theorem retryStep_cases {at' : Attempt α} (h : fd.retryStep verb len size io ev = some at') :
    (∃ a, io = .call ∧ ev = .call (.ok a) ∧ 0 < len a ∧ len a ≤ size ∧ at' = .returned a) ∨
    (∃ io', at' = .again io' ∧ ∀ a, ev ≠ .call (.ok a)) ∨
    ∃ ex, at' = .threw ex ∧ ex.isSystem = true ∧ ex.isNotYetReady = false ∧ ¬ ev.Smooth len ∧
      ∀ a, ev = .call (.ok a) → len a = 0 := by
  cases io <;> cases ev <;> simp only [retryStep, reduceCtorEq] at h
  case call.call res =>
    cases hn : fd.nonBlocking verb res with
    | error ex =>
      rw [hn] at h
      cases h
      obtain ⟨h₁, h₂⟩ := nonBlocking_threw hn
      refine .inr (.inr ⟨ex, rfl, h₁, h₂, fun hsm => ?_, fun a ha => ?_⟩)
      · cases res with
        | ok a => cases hn
        | error e =>
          have he : e = EWOULDBLOCK := hsm
          simp [nonBlocking, he] at hn
      · cases ha
        cases hn
    | ok o =>
      rw [hn] at h
      cases o with
      | none =>
        cases h
        refine .inr (.inl ⟨_, rfl, fun a ha => ?_⟩)
        cases ha
        cases hn
      | some a =>
        have hres := nonBlocking_ok hn
        simp only at h
        split at h
        · cases h
        split at h
        · rename_i hz
          cases h
          rw [hres]
          refine .inr (.inr ⟨_, rfl, rfl, rfl, fun hsm => ?_, fun b hb => ?_⟩)
          · have hpos : 0 < len a := hsm
            omega
          · cases hb
            exact hz
        · cases h
          exact .inl ⟨a, rfl, by rw [hres], by omega, by omega, rfl⟩
  case poll.poll res =>
    cases res with
    | error e =>
      cases h
      exact .inr (.inr ⟨_, rfl, throwFromErrno_isSystem _ _, throwFromErrno_isNotYetReady _ _, id, by simp⟩)
    | ok n =>
      cases h
      exact .inr (.inl ⟨_, rfl, by simp⟩)

/-- The returns that belong to the call the loop is making, asked for `size`
bytes. -/
def Answers {α : Type} (len : α → Nat) (size : Nat) : Io → IoEvent α → Prop
  | .call, .call (.ok a) => len a ≤ size
  | .call, .call (.error _) => True
  | .poll, .poll _ => True
  | _, _ => False

/-- The loop takes every return that belongs to its call, and no other. -/
theorem retryStep_isSome : (fd.retryStep verb len size io ev).isSome ↔ Answers len size io ev := by
  cases io <;> cases ev <;> simp only [retryStep, Answers, Option.isSome_none, Bool.false_eq_true]
  case call.call res =>
    cases res with
    | error e =>
      simp only [nonBlocking]
      by_cases he : e = EWOULDBLOCK ∨ e = EAGAIN <;> simp [he]
    | ok a =>
      simp only [nonBlocking]
      by_cases hs : size < len a
      · simp [hs]
      · by_cases hz : len a = 0 <;> simp [hs, hz, Nat.le_of_not_lt]
  case poll.poll res => cases res <;> simp [poll]

theorem retryStep_call {a : α} (hpos : 0 < len a) (hle : len a ≤ size) :
    fd.retryStep verb len size .call (.call (.ok a)) = some (.returned a) := by
  simp only [retryStep, nonBlocking]
  rw [if_neg (by omega), if_neg (by omega)]

/-- A failing call throws, unless it only found that it would block. -/
theorem retryStep_error {errno : Nat} (h : errno ≠ EWOULDBLOCK) (h' : errno ≠ EAGAIN) :
    ∃ ex, fd.retryStep verb len size .call (.call (.error errno)) = some (.threw ex) := by
  simp [retryStep, nonBlocking, h, h']

end FileDescriptor

end RuralPipe
