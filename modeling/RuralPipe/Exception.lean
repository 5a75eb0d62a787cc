/-
Exceptions and assertions (`common/exception.h`, `common/base.h`).

A function ends early in one of two ways: it throws an `Exception`, which a
caller may catch by its class, or a `RASSERT` fails, which aborts the process
and which nothing catches.
-/

namespace RuralPipe

inductive ExceptionClass
  | exception
  | notYetReady
  | system
  | fileNotFoundSystem
  | connRefusedSystem
  deriving DecidableEq

structure Exception where
  cls : ExceptionClass
  what : String
  deriving DecidableEq

def NotYetReadyException (message : String) : Exception := ⟨.notYetReady, message⟩
def SystemException (message : String) : Exception := ⟨.system, message⟩

/-- Caught by `catch (const NotYetReadyException &)`. -/
def Exception.isNotYetReady (ex : Exception) : Bool := ex.cls = .notYetReady

/-- A `SystemException` or one of its subclasses. -/
def Exception.isSystem (ex : Exception) : Bool :=
  ex.cls = .system || ex.cls = .fileNotFoundSystem || ex.cls = .connRefusedSystem

@[simp] theorem ok_bind {ε α β : Type} (a : α) (f : α → Except ε β) : (Except.ok a >>= f) = f a := rfl

theorem bind_eq_ok {ε α β : Type} {r : Except ε α} {f : α → Except ε β} {b : β} (h : (r >>= f) = .ok b) :
    ∃ a, r = .ok a ∧ f a = .ok b := by
  cases r with
  | ok a => exact ⟨a, rfl, h⟩
  | error e => cases h

inductive Failure
  | throw (ex : Exception)
  | abort (condition : String)
  deriving DecidableEq

def ENOENT : Nat := 2
def EINTR : Nat := 4
def EAGAIN : Nat := 11
def EWOULDBLOCK : Nat := 11
def ECONNREFUSED : Nat := 111

/-- The message's number; the text `strerror_r` gives for it is left out. -/
def errnoMsg (e : Nat) : String := s!"({e}): "

/-- `SystemException::throwFromErrno`, with `errno` as the system call left it. -/
def throwFromErrno (context : String) (errno : Nat) : Exception :=
  let msg := if context.isEmpty then s!"System error {errnoMsg errno}"
    else s!"({context}): System error {errnoMsg errno}"
  if errno = ENOENT then ⟨.fileNotFoundSystem, msg⟩
  else if errno = ECONNREFUSED then ⟨.connRefusedSystem, msg⟩
  else ⟨.system, msg⟩

theorem throwFromErrno_isSystem (context : String) (errno : Nat) :
    (throwFromErrno context errno).isSystem = true := by
  simp only [throwFromErrno]
  split
  · rfl
  · split <;> rfl

/-- What throwing from `errno` gives is never retried by the tunnel's hand-over. -/
theorem throwFromErrno_isNotYetReady (context : String) (errno : Nat) :
    (throwFromErrno context errno).isNotYetReady = false := by
  simp only [throwFromErrno]
  split
  · rfl
  · split <;> rfl

end RuralPipe
