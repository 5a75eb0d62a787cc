/-
Any number of tunnel frame pipes (`common/tunnel_frame.cpp`): attaching and
detaching them, and calls along them.

The pipes are a heap, from whatever identifies a pipe to what it holds. A link
to `kNotYetReadyTunnelFramePipe` is `none`; that placeholder's own links are
null pointers, so no pipe finds itself behind it. `TunnelFramePipe` is the same
for the four pipes of the program (`ofPipes_pipePush`, `ofPipes_invokeBegin`).
-/
import RuralPipe.TunnelFrame
import RuralPipe.TunnelFramePipe

namespace RuralPipe

/-- A `TunnelFramePipe` among the pipes `P`. -/
structure PipeNode (P : Type) where
  prev : Option P
  next : Option P
  numCallsToNext : Int
  nextIsDetaching : Bool

abbrev PipeHeap (P : Type) := P → PipeNode P

namespace PipeHeap

variable {P : Type} [DecidableEq P]

/-- Every pipe as constructed. -/
def new : PipeHeap P := fun _ => { prev := none, next := none, numCallsToNext := 0, nextIsDetaching := false }

def pipePush (ps : PipeHeap P) (self prev : P) : Except Failure (PipeHeap P) :=
  if (ps self).prev ≠ none then .error (.abort "_prev == &kNotYetReadyTunnelFramePipe")
  else if (ps self).next ≠ none then .error (.abort "_next == &kNotYetReadyTunnelFramePipe")
  else if (ps prev).next ≠ none then .error (.abort "prev._next == &kNotYetReadyTunnelFramePipe")
  else
    let ps := Function.update ps self { ps self with prev := some prev }
    .ok (Function.update ps prev { ps prev with next := some self })

/-- `pipePop` up to its wait: the assertions, and the locked section. -/
def popBegin (ps : PipeHeap P) (self : P) : Except Failure (PipeHeap P × P) :=
  if (ps self).next ≠ none then .error (.abort "_next == &kNotYetReadyTunnelFramePipe")
  else
    match (ps self).prev with
    | none => .error (.abort "_prev->_next == this")
    | some prev =>
      if (ps prev).next ≠ some self then .error (.abort "_prev->_next == this")
      else .ok (Function.update ps prev { ps prev with nextIsDetaching := true, next := none }, prev)

/-- `pipePop` past its wait. -/
def popEnd (ps : PipeHeap P) (self : P) : PipeHeap P := Function.update ps self { ps self with prev := none }

/-- `pipePop` when there is nothing to wait for. -/
def pipePop (ps : PipeHeap P) (self : P) : Except Failure (PipeHeap P) :=
  match popBegin ps self with
  | .error e => .error e
  | .ok (ps, _) => .ok (popEnd ps self)

/-! ## Calls -/

/-- The first locked section of `pipeInvokeNext`: its pipe and the next. -/
def invokeBegin (ps : PipeHeap P) (self : P) : PipeHeap P × Option P :=
  (Function.update ps self { ps self with numCallsToNext := (ps self).numCallsToNext + 1 }, (ps self).next)

/-- The guard of `pipeInvokeNext`, without its notification. -/
def invokeEnd (ps : PipeHeap P) (self : P) : PipeHeap P :=
  Function.update ps self { ps self with numCallsToNext := (ps self).numCallsToNext - 1 }

/-- Whether the guard notifies: `--_numCallsToNext == 0 && _nextIsDetaching`. -/
def notifies (ps : PipeHeap P) (self : P) : Bool :=
  (ps self).numCallsToNext - 1 = 0 && (ps self).nextIsDetaching

end PipeHeap

/-- What a pipe does with a frame: the compressing and the signing pipe hand it
on as it is, any other pipe does something of its own. -/
inductive PipeKind
  | compressing
  | signing
  | other
  deriving DecidableEq

namespace PipeHeap

variable {P : Type} [DecidableEq P]

def notYetReady : Failure := .throw (NotYetReadyException "Received frame before the pipe was configured")

/-- `pipeInvokeNext`, as far as `n` calls deep: the pipes after it, the
`onTunnelFrameFromPrev` called in turn with their frames, and the outcome.
`on` is what the other pipes do. -/
def pipeInvokeNext (kind : P → PipeKind) (on : P → TunnelFrameBuffer → Except Failure Unit) :
    Nat → PipeHeap P → P → TunnelFrameBuffer → Option (PipeHeap P × List (P × TunnelFrameBuffer) × Except Failure Unit)
  | 0, _, _, _ => none
  | n + 1, ps, self, buf =>
    let (ps, next) := invokeBegin ps self
    match next with
    | none => some (invokeEnd ps self, [], .error notYetReady)
    | some next =>
      if kind next = .other then some (invokeEnd ps self, [(next, buf)], on next buf)
      else
        match pipeInvokeNext kind on n ps next buf with
        | none => none
        | some (ps, called, res) => some (invokeEnd ps self, (next, buf) :: called, res)

/-- `pipeInvokePrev`, likewise, with the `onTunnelFrameFromNext` called. -/
def pipeInvokePrev (kind : P → PipeKind) (on : P → TunnelFrameBuffer → Except Failure Unit) (ps : PipeHeap P) :
    Nat → P → TunnelFrameBuffer → Option (List (P × TunnelFrameBuffer) × Except Failure Unit)
  | 0, _, _ => none
  | n + 1, self, buf =>
    match (ps self).prev with
    | none => some ([], .error notYetReady)
    | some prev =>
      if kind prev = .other then some ([(prev, buf)], on prev buf)
      else
        match pipeInvokePrev kind on ps n prev buf with
        | none => none
        | some (called, res) => some ((prev, buf) :: called, res)

/-! ## What an operation does -/

variable {ps ps' : PipeHeap P} {self prev p : P}

/-- What a push asks for, and what it does to the links. -/
theorem pipePush_ok (h : pipePush ps self prev = .ok ps') (hne : self ≠ prev) :
    (ps self).prev = none ∧ (ps self).next = none ∧ (ps prev).next = none ∧
      ps' = Function.update (Function.update ps self { ps self with prev := some prev }) prev
        { ps prev with next := some self } := by
  unfold pipePush at h
  split at h
  · cases h
  split at h
  · cases h
  split at h
  · cases h
  · rename_i h₁ h₂ h₃
    simp only [Function.update_of_ne hne.symm, Except.ok.injEq] at h
    exact ⟨not_not.1 h₁, not_not.1 h₂, not_not.1 h₃, h.symm⟩

/-- What a pop asks for, and its section. -/
theorem popBegin_ok (h : popBegin ps self = .ok (ps', prev)) :
    (ps self).next = none ∧ (ps self).prev = some prev ∧ (ps prev).next = some self ∧
      ps' = Function.update ps prev { ps prev with nextIsDetaching := true, next := none } := by
  unfold popBegin at h
  split at h
  · cases h
  · rename_i h₁
    split at h
    · cases h
    · rename_i prev' hprev
      split at h
      · cases h
      · rename_i h₂
        cases h
        exact ⟨not_not.1 h₁, hprev, not_not.1 h₂, rfl⟩

theorem pipePop_ok (h : pipePop ps self = .ok ps') :
    ∃ prev, (ps self).next = none ∧ (ps self).prev = some prev ∧ (ps prev).next = some self ∧
      ps' = popEnd (Function.update ps prev { ps prev with nextIsDetaching := true, next := none }) self := by
  unfold pipePop at h
  split at h
  · cases h
  · rename_i ps₁ prev hbegin
    cases h
    obtain ⟨h₁, h₂, h₃, rfl⟩ := popBegin_ok hbegin
    exact ⟨prev, h₁, h₂, h₃, rfl⟩

/-- A field that an update of a pipe leaves alone. -/
theorem update_field {α : Type} (f : PipeNode P → α) {a : PipeNode P} (ha : f a = f (ps self)) (p : P) :
    f (Function.update ps self a p) = f (ps p) := by
  by_cases h : p = self
  · subst h
    rw [Function.update_self, ha]
  · rw [Function.update_of_ne h]

theorem next_update (q : P) (a : PipeNode P) :
    (fun p => ((Function.update ps q a) p).next) = Function.update (fun p => (ps p).next) q a.next :=
  (Function.comp_update PipeNode.next ps q a)

theorem prev_update (q : P) (a : PipeNode P) :
    (fun p => ((Function.update ps q a) p).prev) = Function.update (fun p => (ps p).prev) q a.prev :=
  (Function.comp_update PipeNode.prev ps q a)

/-- A push, on the links. -/
theorem pipePush_links (h : pipePush ps self prev = .ok ps') (hne : self ≠ prev) :
    (fun p => (ps' p).next) = Function.update (fun p => (ps p).next) prev (some self) ∧
      (fun p => (ps' p).prev) = Function.update (fun p => (ps p).prev) self (some prev) := by
  obtain ⟨-, -, -, rfl⟩ := pipePush_ok h hne
  simp only [next_update, prev_update]
  constructor
  · rw [Function.update_eq_self]
  · exact Function.update_eq_self_iff.2 (by rw [Function.update_of_ne hne.symm])

/-- A pop, on the links. -/
theorem pipePop_links (h : pipePop ps self = .ok ps') :
    ∃ prev, (ps self).next = none ∧ (ps self).prev = some prev ∧ (ps prev).next = some self ∧
      (fun p => (ps' p).next) = Function.update (fun p => (ps p).next) prev none ∧
      (fun p => (ps' p).prev) = Function.update (fun p => (ps p).prev) self none := by
  obtain ⟨prev, hnext, hprev, hback, rfl⟩ := pipePop_ok h
  have hne : self ≠ prev := fun he => by
    subst he
    rw [hnext] at hback
    cases hback
  refine ⟨prev, hnext, hprev, hback, ?_, ?_⟩
  · simp only [popEnd, next_update, Function.update_of_ne hne]
    exact Function.update_eq_self_iff.2 (by rw [Function.update_of_ne hne])
  · simp only [popEnd, prev_update, Function.update_eq_self]

/-- A push leaves the counts and the flags alone. -/
theorem pipePush_rest (h : pipePush ps self prev = .ok ps') (hne : self ≠ prev) (p : P) :
    (ps' p).numCallsToNext = (ps p).numCallsToNext ∧ (ps' p).nextIsDetaching = (ps p).nextIsDetaching := by
  obtain ⟨-, -, -, rfl⟩ := pipePush_ok h hne
  by_cases hp : p = prev
  · subst hp
    simp
  · rw [Function.update_of_ne hp]
    exact ⟨update_field PipeNode.numCallsToNext (by rfl) p, update_field PipeNode.nextIsDetaching (by rfl) p⟩

@[simp] theorem invokeBegin_next : ((invokeBegin ps self).1 p).next = (ps p).next :=
    update_field PipeNode.next (by rfl) p

@[simp] theorem invokeBegin_prev : ((invokeBegin ps self).1 p).prev = (ps p).prev :=
    update_field PipeNode.prev (by rfl) p

@[simp] theorem invokeBegin_nextIsDetaching : ((invokeBegin ps self).1 p).nextIsDetaching = (ps p).nextIsDetaching :=
  update_field PipeNode.nextIsDetaching (by rfl) p

theorem invokeBegin_numCallsToNext : ((invokeBegin ps self).1 p).numCallsToNext =
    if p = self then (ps p).numCallsToNext + 1 else (ps p).numCallsToNext := by
  by_cases h : p = self
  · subst h
    simp [invokeBegin]
  · simp [invokeBegin, h]

@[simp] theorem invokeEnd_next : (invokeEnd ps self p).next = (ps p).next := update_field PipeNode.next (by rfl) p

@[simp] theorem invokeEnd_prev : (invokeEnd ps self p).prev = (ps p).prev := update_field PipeNode.prev (by rfl) p

@[simp] theorem invokeEnd_nextIsDetaching : (invokeEnd ps self p).nextIsDetaching = (ps p).nextIsDetaching :=
  update_field PipeNode.nextIsDetaching (by rfl) p

theorem invokeEnd_numCallsToNext : (invokeEnd ps self p).numCallsToNext =
    if p = self then (ps p).numCallsToNext - 1 else (ps p).numCallsToNext := by
  by_cases h : p = self
  · subst h
    simp [invokeEnd]
  · simp [invokeEnd, h]

/-- The guard undoes the call's own count. -/
theorem invokeEnd_invokeBegin (ps : PipeHeap P) (self : P) : invokeEnd (invokeBegin ps self).1 self = ps := by
  simp [invokeEnd, invokeBegin]

/-! ## The program's four pipes -/

def ofPipes (ps : Pipes) : PipeHeap PipeId := fun p =>
  { prev := (ps p).prev, next := (ps p).next, numCallsToNext := (ps p).numCallsToNext,
    nextIsDetaching := (ps p).nextIsDetaching }

theorem ofPipes_update (ps : Pipes) (p : PipeId) (a : TunnelFramePipe) :
    ofPipes (Function.update ps p a) = Function.update (ofPipes ps) p
      { prev := a.prev, next := a.next, numCallsToNext := a.numCallsToNext, nextIsDetaching := a.nextIsDetaching } := by
  funext q
  by_cases h : q = p
  · subst h
    simp [ofPipes]
  · simp [ofPipes, h]

theorem ofPipes_pipePush (ps : Pipes) (self prev : PipeId) :
    pipePush (ofPipes ps) self prev = (TunnelFramePipe.pipePush ps self prev).map ofPipes := by
  simp only [pipePush, TunnelFramePipe.pipePush]
  have hself : (ofPipes ps self).prev = (ps self).prev ∧ (ofPipes ps self).next = (ps self).next := ⟨rfl, rfl⟩
  have hprev : (ofPipes ps prev).next = (ps prev).next := rfl
  rw [hself.1, hself.2, hprev]
  split
  · rfl
  split
  · rfl
  split
  · rfl
  · have heq := (ofPipes_update ps self { ps self with prev := some prev }).symm
    rw [Except.map, ofPipes_update]
    exact congrArg (fun qs : PipeHeap PipeId =>
      Except.ok (Function.update qs prev { qs prev with next := some self })) heq

theorem ofPipes_invokeBegin (ps : Pipes) (self : PipeId) :
    invokeBegin (ofPipes ps) self =
      (ofPipes (TunnelFramePipe.invokeBegin ps self).1, (TunnelFramePipe.invokeBegin ps self).2) := by
  simp only [invokeBegin, TunnelFramePipe.invokeBegin, ofPipes_update]
  rfl

theorem ofPipes_invokeEnd (ps : Pipes) (self : PipeId) :
    invokeEnd (ofPipes ps) self = ofPipes (TunnelFramePipe.invokeEnd ps self) := by
  simp only [invokeEnd, TunnelFramePipe.invokeEnd, ofPipes_update]
  rfl

end PipeHeap

end RuralPipe
