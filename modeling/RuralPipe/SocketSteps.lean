/-
What a step of the sockets does to one of its threads.

A step is taken by one sender or by one task, or by neither. It moves the thread
that takes it (`TaskStep`, `SenderStep`); the end of a guard may also wake a
sender that waits. Every other thread stays where it is.
-/
import RuralPipe.SocketProducerConsumer

namespace RuralPipe

open SocketState

/-! ## Tasks -/

/-- The socket whose task takes the step. -/
def SocketLabel.task {S K : Type} : SocketLabel S K → Option K
  | .add k _ => some k
  | .start k _ _ => some k
  | .exchange k _ => some k
  | .register k => some k
  | .receiveEnds k _ => some k
  | .close k => some k
  | .cleanup k => some k
  | _ => none

/-- What a step does to the task that takes it, which stays where it is when the
process ends. -/
inductive TaskStep {S K : Type} (client : Option SessionId) : SocketLabel S K → Task → Task → Prop
  | add {k fd} : TaskStep client (.add k fd) .notAdded (.posted fd)
  | start {k fd getfl setfl buffer} : FileDescriptor.makeNonBlocking getfl setfl = .ok () →
      TaskStep client (.start k getfl setfl) (.posted fd) (.exchanging ⟨fd, buffer⟩)
  | startThrows {k fd getfl setfl ex} : FileDescriptor.makeNonBlocking getfl setfl = .error ex →
      TaskStep client (.start k getfl setfl) (.posted fd) (.posted fd)
  | exchange {k stream buffer io ier} : initialTunnelFrameExchange client io = .ok ier →
      TaskStep client (.exchange k io) (.exchanging stream) (.exchanged { stream with buffer } ier)
  | exchangeThrows {k stream io ex} : initialTunnelFrameExchange client io = .error (.throw ex) →
      TaskStep client (.exchange k io) (.exchanging stream) .done
  | exchangeAborts {k stream io c} : initialTunnelFrameExchange client io = .error (.abort c) →
      TaskStep client (.exchange k io) (.exchanging stream) (.exchanging stream)
  | register {k stream ier} : TaskStep client (.register k) (.exchanged stream ier) (.receiving ier.sessionId)
  | registerThrows {k stream ier} : TaskStep client (.register k) (.exchanged stream ier) (.exchanged stream ier)
  | receiveEnds {k sid ex} : TaskStep client (.receiveEnds k (.throw ex)) (.receiving sid) (.loopEnded sid)
  | receiveAborts {k sid c} : TaskStep client (.receiveEnds k (.abort c)) (.receiving sid) (.receiving sid)
  | close {k sid} : TaskStep client (.close k) (.loopEnded sid) (.closed sid)
  | closeAborts {k sid} : TaskStep client (.close k) (.loopEnded sid) (.loopEnded sid)
  | cleanup {k sid} : TaskStep client (.cleanup k) (.closed sid) .done
  | cleanupCrash {k sid} : TaskStep client (.cleanup k) (.closed sid) (.closed sid)

/-- A step is a step of one task, or of none. -/
theorem task_step {S K : Type} [DecidableEq S] [DecidableEq K] {client : Option SessionId} {x x' : SocketState S K}
    {l : SocketLabel S K} (hs : SocketStep client x l x') (k : K) :
    (l.task ≠ some k ∧ x'.tasks k = x.tasks k) ∨ (l.task = some k ∧ TaskStep client l (x.tasks k) (x'.tasks k)) := by
  have moved : ∀ {y : SocketState S K} {k₁ : K} {t : Task}, y.tasks = x.tasks → l.task = some k₁ →
      TaskStep client l (x.tasks k₁) t → (l.task ≠ some k ∧ (y.setTask k₁ t).tasks k = x.tasks k) ∨
        (l.task = some k ∧ TaskStep client l (x.tasks k) ((y.setTask k₁ t).tasks k)) := by
    intro y k₁ t hy hl ht
    by_cases hk : k = k₁
    · subst hk
      rw [setTask_self]
      exact .inr ⟨hl, ht⟩
    · rw [setTask_ne hk, hy]
      exact .inl ⟨fun he => hk (Option.some_inj.1 (he.symm.trans hl)), rfl⟩
  have stayed : ∀ {y : SocketState S K} {k₁ : K}, y.tasks = x.tasks → l.task = some k₁ →
      TaskStep client l (x.tasks k₁) (x.tasks k₁) → (l.task ≠ some k ∧ y.tasks k = x.tasks k) ∨
        (l.task = some k ∧ TaskStep client l (x.tasks k) (y.tasks k)) := by
    intro y k₁ hy hl ht
    rw [hy]
    by_cases hk : k = k₁
    · subst hk
      exact .inr ⟨hl, ht⟩
    · exact .inl ⟨fun he => hk (Option.some_inj.1 (he.symm.trans hl)), rfl⟩
  cases hs with
  | complete hi hout hc hwk => exact .inl ⟨(fun h => nomatch h), by rw [notify_tasks]; rfl⟩
  | add hk => exact moved rfl rfl (by rw [hk]; exact .add)
  | start hk hnb => exact moved rfl rfl (by rw [hk]; exact .start hnb)
  | startThrows hk hnb => exact stayed rfl rfl (by rw [hk]; exact .startThrows hnb)
  | exchange hk hex => exact moved rfl rfl (by rw [hk]; exact .exchange hex)
  | exchangeThrows hk hex => exact moved rfl rfl (by rw [hk]; exact .exchangeThrows hex)
  | exchangeAborts hk hex => exact stayed rfl rfl (by rw [hk]; exact .exchangeAborts hex)
  | @register k₁ stream ier map hk hsh hreg =>
    exact moved (y := { x with map }) rfl rfl (by rw [hk]; exact .register)
  | registerThrows hk hsh hreg => exact stayed rfl rfl (by rw [hk]; exact .registerThrows)
  | receiveEnds hk => exact moved rfl rfl (by rw [hk]; exact .receiveEnds)
  | receiveAborts hk => exact stayed rfl rfl (by rw [hk]; exact .receiveAborts)
  | @close k₁ sid map hk hcl => exact moved (y := { x with map }) rfl rfl (by rw [hk]; exact .close)
  | closeAborts hk hcl => exact stayed rfl rfl (by rw [hk]; exact .closeAborts)
  | @cleanup k₁ sid map hk hsh hcl => exact moved (y := { x with map }) rfl rfl (by rw [hk]; exact .cleanup)
  | cleanupCrash hk hsh hcl => exact stayed rfl rfl (by rw [hk]; exact .cleanupCrash)
  | _ => exact .inl ⟨(fun h => nomatch h), rfl⟩

/-! ## Senders -/

/-- What a step does to the sender that takes it, or that it wakes. -/
inductive SenderStep {S K : Type} [DecidableEq K] (x : SocketState S K) (j : S) :
    SocketLabel S K → Sender K → Sender K → Prop
  | call {buf} : SenderStep x j (.call j buf) .idle (.entered buf)
  | notYetReady {buf ex} : x.map.select buf = .notYetReady ex →
      SenderStep x j (.select j) (.entered buf) (.returned buf (.error ex))
  | take {buf map obj buf' st} : x.map.select buf = .take map obj buf' st →
      SenderStep x j (.select j) (.entered buf) (.sending ⟨obj, buf', st, TunnelFrameStream.send buf', []⟩)
  | wait {buf map obj buf' st} : x.map.select buf = .wait map obj buf' st →
      SenderStep x j (.select j) (.entered buf) (.waiting obj buf' st false)
  | recheckTake {obj buf st n map} : x.map.recheck buf st = some map →
      SenderStep x j (.recheck j) (.waiting obj buf st n) (.sending ⟨obj, buf, st, TunnelFrameStream.send buf, []⟩)
  | recheckWait {obj buf st n} : x.map.recheck buf st = none →
      SenderStep x j (.recheck j) (.waiting obj buf st n) (.waiting obj buf st false)
  | io {s ev send out} : (x.map.trackers s.st).stream.fd.Allows ev →
      (x.map.trackers s.st).stream.sendStep s.buf s.send ev = some (send, out) →
      SenderStep x j (.io j ev) (.sending s) (.sending { s with send, out := s.out ++ out })
  | complete {s res map wake} : s.send.outcome = some res → x.map.complete s.obj s.buf s.st res.isOk = .ok map →
      SenderStep x j (.complete j wake) (.sending s) (.returned s.buf res)
  | woken {i s buf st} : x.senders i = .sending s →
      SenderStep x j (.complete i (some j)) (.waiting s.obj buf st false) (.waiting s.obj buf st true)
  | leave {buf res} : SenderStep x j (.leave j) (.returned buf res) .idle

/-- A step leaves a sender where it is, or is a step of it or wakes it. -/
theorem sender_step {S K : Type} [DecidableEq S] [DecidableEq K] {client : Option SessionId} {x x' : SocketState S K}
    {l : SocketLabel S K} (hs : SocketStep client x l x') (j : S) :
    x'.senders j = x.senders j ∨ SenderStep x j l (x.senders j) (x'.senders j) := by
  have moved : ∀ {y : SocketState S K} {i : S} {a : Sender K}, y.senders = x.senders →
      SenderStep x i l (x.senders i) a → (y.setSender i a).senders j = x.senders j ∨
        SenderStep x j l (x.senders j) ((y.setSender i a).senders j) := by
    intro y i a hy ha
    by_cases hj : j = i
    · subst hj
      rw [setSender_self]
      exact .inr ha
    · rw [setSender_ne hj, hy]
      exact .inl rfl
  cases hs with
  | call hi => exact moved rfl (by rw [hi]; exact .call)
  | notYetReady hi hsel => exact moved rfl (by rw [hi]; exact .notYetReady hsel)
  | @take i buf map obj buf' st hi hsel => exact moved (y := { x with map }) rfl (by rw [hi]; exact .take hsel)
  | @wait i buf map obj buf' st hi hsel => exact moved (y := { x with map }) rfl (by rw [hi]; exact .wait hsel)
  | @recheckTake i obj buf st n map hi hre =>
    exact moved (y := { x with map }) rfl (by rw [hi]; exact .recheckTake hre)
  | recheckWait hi hre => exact moved rfl (by rw [hi]; exact .recheckWait hre)
  | @io i s ev send out hi hal hst => exact moved (y := x.put s.st out) rfl (by rw [hi]; exact .io hal hst)
  | @complete i s res map wake hi hout hc hwk =>
    generalize hy : ({ x with map } : SocketState S K).record s.st
      { sender := i, frame := s.buf.bytes, written := s.out, ok := res.isOk } = y
    have hsenders : y.senders = x.senders := by
      rw [← hy]
      rfl
    have hown := moved hsenders (by rw [hi]; exact .complete (j := i) hout hc)
    cases wake with
    | none => exact hown
    | some w =>
      obtain ⟨buf, st, hw⟩ := hwk
      have hwi : w ≠ i := by
        intro he
        rw [he, hi] at hw
        cases hw
      have hnotify : (y.setSender i (.returned s.buf res)).notify (some w) =
          (y.setSender i (.returned s.buf res)).setSender w (.waiting s.obj buf st true) := by
        rw [notify, setSender_ne hwi, hsenders, hw]
      rw [hnotify]
      by_cases hj : j = w
      · subst hj
        rw [setSender_self, hw]
        exact .inr (.woken hi)
      · rw [setSender_ne hj]
        exact hown
  | leave hi => exact moved rfl (by rw [hi]; exact .leave)
  | _ => exact .inl rfl

end RuralPipe
