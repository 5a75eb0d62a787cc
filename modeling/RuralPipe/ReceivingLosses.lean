/-
The receive loops, whatever fails.

A loop that an exception or a failed assertion is on its way out of, or has
left, takes no byte and delivers no datagram any more (`dead`). Every other
step of a loop is one that it takes while nothing fails, so that it passes on
exactly the datagrams of the frames it is given, up to its end.
-/
import RuralPipe.ReceivingStack

namespace RuralPipe

open TunnelFrameStream

/-- A return in which something fails makes the loop of `read` and `write`
throw. -/
theorem FileDescriptor.retryStep_threw {α : Type} {fd : FileDescriptor} {verb : String} {len : α → Nat} {size : Nat}
    {io : Io} {ev : IoEvent α} {at' : Attempt α} (h : fd.retryStep verb len size io ev = some at')
    (hno : ¬ ev.Smooth len) : ∃ ex, at' = .threw ex := by
  rcases retryStep_cases h with ⟨a, -, rfl, hpos, -⟩ | ⟨io', rfl, hne⟩ | ⟨ex, rfl, -⟩
  · exact absurd hpos hno
  · exfalso
    rcases ev with (errno | a) | (e | n)
    · cases io with
      | poll => cases h
      | call =>
        have hn : ¬ (errno = EWOULDBLOCK ∨ errno = EAGAIN) := fun he => hno (he.elim id id)
        simp [retryStep, nonBlocking, hn] at h
    · exact hne a rfl
    · cases io with
      | call => cases h
      | poll => simp [retryStep, FileDescriptor.poll] at h
    · exact hno trivial
  · exact ⟨ex, rfl⟩

namespace ReceiveLoop

variable {s : TunnelFrameStream} {given : List UInt8} {ds : List (List UInt8)} {l : ReceiveLoop}

/-- Past an exception or a failed assertion. -/
def dead : ReceiveLoop → Bool
  | .receiving (.failed _) => true
  | .delivering (.failed _) => true
  | .ended _ => true
  | _ => false

/-- The assertion that failed is on its way to end the process. -/
def aborting : ReceiveLoop → Bool
  | .receiving (.failed (.abort _)) => true
  | .delivering (.failed (.abort _)) => true
  | .ended (.abort _) => true
  | _ => false

theorem running_unaborted (h : l.dead = false) : l.aborting = false := by
  cases l with
  | head => rfl
  | receiving r =>
    cases r with
    | failed e => cases h
    | _ => rfl
  | delivering d =>
    cases d with
    | failed e => cases h
    | _ => rfl
  | ended e => cases h

theorem Holds.running (h : l.Holds s given ds) : l.dead = false := by
  cases l with
  | head => rfl
  | receiving r =>
    cases r with
    | failed e => exact absurd rfl (h.2.1 e)
    | _ => rfl
  | delivering d =>
    cases d with
    | failed e => exact h.2.elim
    | _ => rfl
  | ended e => exact h.elim

theorem pending_dead (h : l.dead = true) : l.pending = [] := by
  cases l with
  | head => cases h
  | receiving r => rfl
  | delivering d =>
    cases d with
    | failed e => rfl
    | _ => cases h
  | ended e => rfl

end ReceiveLoop

namespace ReceivingStack

variable {K : Type} [DecidableEq K] {x x' : ReceivingStack K} {k : K} {ev : ReceiveEvent}
  {out : Option (Nat × List UInt8)} {given more : List UInt8} {ds : List (List UInt8)} {fs : List TunnelFrameBuffer}

/-- A loop stays dead, for the same reason, and delivers nothing. -/
theorem step_dead (h : x.step k ev = some (x', out)) (hd : (x.loops k).dead = true) :
    out = none ∧ (x'.loops k).dead = true ∧ (x'.loops k).aborting = (x.loops k).aborting := by
  have hended : ∀ e, some (x.setLoop k (.ended e), none) = some (x', out) →
      out = none ∧ (x'.loops k).dead = true ∧ (x'.loops k).aborting = (ReceiveLoop.ended e).aborting := by
    intro e he
    cases he
    exact ⟨rfl, by rw [setLoop_self]; rfl, by rw [setLoop_self]⟩
  cases hl : x.loops k with
  | head => rw [hl] at hd; cases hd
  | ended e => cases ev <;> simp [step, hl] at h
  | receiving r =>
    rw [hl] at hd
    cases r with
    | failed e =>
      cases ev with
      | tau => cases e <;> exact hended _ (by simpa only [step, hl] using h)
      | read ev => simp [step, hl, receiveStep] at h
      | deliver ev => simp [step, hl] at h
    | _ => cases hd
  | delivering d =>
    rw [hl] at hd
    cases d with
    | failed e =>
      cases ev with
      | tau => cases e <;> exact hended _ (by simpa only [step, hl] using h)
      | read ev => simp [step, hl] at h
      | deliver ev => simp [step, hl, Delivery.step] at h
    | _ => cases hd

/-- What fails ends the loop, with an exception. -/
theorem step_fails (h : x.step k ev = some (x', out)) (hno : ¬ ev.Smooth) :
    out = none ∧ (x'.loops k).dead = true ∧ (x'.loops k).aborting = false := by
  cases ev with
  | tau => exact absurd trivial hno
  | read ev =>
    have hno : ¬ ev.Smooth List.length := hno
    cases hl : x.loops k with
    | receiving r =>
      simp only [step, hl] at h
      cases hst : (x.streams k).receiveStep r ev with
      | none => rw [hst] at h; cases h
      | some sr =>
        obtain ⟨s, r'⟩ := sr
        rw [hst] at h
        cases h
        refine ⟨rfl, ?_⟩
        rw [setLoop_self]
        have hfail : ∃ ex, r' = .failed (.throw ex) := by
          cases r with
          | header n io | body n t io =>
            simp only [receiveStep] at hst
            split at hst
            · cases hst
            · cases hst
              exact ⟨_, rfl⟩
            · rename_i ha
              obtain ⟨ex, he⟩ := FileDescriptor.retryStep_threw ha hno
              cases he
            · rename_i ha
              obtain ⟨ex, he⟩ := FileDescriptor.retryStep_threw ha hno
              cases he
          | returned buf => cases hst
          | failed e => cases hst
        obtain ⟨ex, rfl⟩ := hfail
        exact ⟨rfl, rfl⟩
    | head => simp [step, hl] at h
    | delivering d => simp [step, hl] at h
    | ended e => simp [step, hl] at h
  | deliver ev =>
    cases hl : x.loops k with
    | delivering d =>
      simp only [step, hl] at h
      cases hst : d.step x.queues ev with
      | none => rw [hst] at h; cases h
      | some qdo =>
        obtain ⟨queues, d', o⟩ := qdo
        rw [hst] at h
        cases h
        rw [setLoop_self]
        cases ev with
        | tau => exact absurd trivial hno
        | io ev =>
          have hno : ¬ ev.Smooth id := hno
          cases d with
          | write r idx io =>
            simp only [Delivery.step] at hst
            split at hst
            · cases hst
            · cases hst
              exact ⟨rfl, rfl, rfl⟩
            · rename_i ha
              obtain ⟨ex, he⟩ := FileDescriptor.retryStep_threw ha hno
              cases he
            · rename_i ha
              obtain ⟨ex, he⟩ := FileDescriptor.retryStep_threw ha hno
              cases he
          | _ => cases hst
    | head => simp [step, hl] at h
    | receiving r => simp [step, hl] at h
    | ended e => simp [step, hl] at h

/-- Whether the tunnel is interrupted matters at the head of a loop only. -/
theorem step_uninterrupted (h : x.step k ev = some (x', out)) (hl : x.loops k ≠ .head) :
    ({ x with interrupted := false } : ReceivingStack K).step k ev = some ({ x' with interrupted := false }, out) := by
  cases ev with
  | tau =>
    cases hl' : x.loops k with
    | head => exact absurd hl' hl
    | receiving r =>
      cases r with
      | returned buf =>
        simp only [step, hl'] at h ⊢
        split at h <;> (cases h; rfl)
      | failed e =>
        simp only [step, hl'] at h ⊢
        cases h
        rfl
      | header n io => simp [step, hl'] at h
      | body n t io => simp [step, hl'] at h
    | delivering d =>
      cases d with
      | returned | failed e =>
        simp only [step, hl'] at h ⊢
        cases h
        rfl
      | next r => simp [step, hl'] at h
      | lock r idx => simp [step, hl'] at h
      | write r idx io => simp [step, hl'] at h
    | ended e => simp [step, hl'] at h
  | read ev | deliver ev =>
    simp only [step] at h ⊢
    split at h
    · split at h
      · cases h
      · cases h
        rfl
    · cases h

/-- **A step of a loop** that is given frames, whatever fails: it is dead, by an
exception; or it takes bytes of the frame that comes next; or it has that frame
whole and turns to its datagrams; or it writes its next datagram. -/
theorem step_holds_or_dead (hch : TunnelFramePipe.Chain x.pipes) (h : x.step k ev = some (x', out))
    (hwh : (x.loops k).Whole ev) (hh : (x.loops k).Holds (x.streams k) given ds) (hfs : ∀ f ∈ fs, ∃ ds, f.Closed ds)
    (hb : given ++ (ev.bytes ++ more) = (fs.map TunnelFrameBuffer.bytes).flatten) :
    (out = none ∧ (x'.loops k).dead = true ∧ (x'.loops k).aborting = false ∧ (¬ ev.Smooth ∨ x.interrupted = true)) ∨
    (out = none ∧ (x'.loops k).Holds (x'.streams k) (given ++ ev.bytes) ds) ∨
    (∃ f fs', fs = f :: fs' ∧ given = f.bytes ∧ ev.bytes = [] ∧ ds = [] ∧ out = none ∧
      (x'.loops k).Holds (x'.streams k) [] f.datagrams) ∨
    ∃ a ds' idx, ds = a :: ds' ∧ out = some (idx, a) ∧ ev.bytes = [] ∧
      (x'.loops k).Holds (x'.streams k) given ds' := by
  by_cases hsm : ev.Smooth
  · by_cases hl : x.loops k = .head
    · cases hint : x.interrupted with
      | false => exact .inr (step_holds hch hint h hsm hwh hh hfs hb)
      | true =>
        cases ev with
        | tau =>
          simp only [step, hl, hint] at h
          cases h
          exact .inl ⟨rfl, by rw [setLoop_self]; rfl, by rw [setLoop_self]; rfl, .inr rfl⟩
        | read ev => simp [step, hl] at h
        | deliver ev => simp [step, hl] at h
    · have hst := step_uninterrupted h hl
      have hcase := step_holds (x := { x with interrupted := false }) hch rfl hst hsm hwh hh hfs hb
      exact .inr hcase
  · obtain ⟨hnone, hdead, hab⟩ := step_fails h hsm
    exact .inl ⟨hnone, hdead, hab, .inl hsm⟩

end ReceivingStack

end RuralPipe
