/-
What a failing socket does to the tunnel.

Of all exceptions that leave a hand-over, the loop catches and retries the
`NotYetReadyException` only. What `send` throws is none, so it travels up the
pipes and ends the thread: a thread outside its hand-overs has ended by one of
them exactly when a `send` of it threw (`Failed`, `SendFailed`). It goes on as
promised exactly when none did and no assertion of its loop failed (`asserts`).
-/
import RuralPipe.SendingStack
import RuralPipe.StreamSync
import RuralPipe.WriterRoom

namespace RuralPipe

/-- On its way back with an exception that the loop does not catch. -/
def Sender.Failed {K : Type} : Sender K → Prop
  | .returned _ (.error ex) => ex.isNotYetReady = false
  | _ => False

def Invocation.Failed : Invocation → Prop
  | .up _ (.error ex) => ex.isNotYetReady = false
  | _ => False

/-- Ended by its hand-over. -/
def TunnelLoop.Failed : TunnelLoop → Prop
  | .ended (.handOver _) => True
  | _ => False

/-- A pipe hands a failure on, and makes none. -/
theorem Invocation.step_failed {c c' : Invocation} {ps ps' : Pipes} (h : c.step ps = some (.ok (ps', c'))) :
    c'.Failed ↔ c.Failed := by
  cases c with
  | down inside next =>
    cases next with
    | none =>
      cases h
      simp [Failed, NotYetReadyException, Exception.isNotYetReady]
    | some p => cases p <;> cases h <;> exact Iff.rfl
  | up inside res =>
    cases inside with
    | nil => cases h
    | cons self inside =>
      cases h
      cases res <;> exact Iff.rfl

namespace TunnelThread

variable {fd : FileDescriptor} {mtu : Nat} {interrupted : Bool} {t t' : TunnelThread}

/-- A step of the loop's own neither follows nor makes a failed hand-over. -/
theorem step_not_failed {ds : List (List UInt8)} {ev : LoopEvent} (hh : t.Ended ∨ t.Holds ds) (ho : ev.Own)
    (hs : t.step fd mtu interrupted ev = some t') : ¬ t.loop.Failed ∧ ¬ t'.loop.Failed := by
  have hended : ¬ t.Ended := fun he => by rw [step_ended he] at hs; cases hs
  refine ⟨fun hf => ?_, fun hf => ?_⟩
  · cases hl : t.loop with
    | ended why => exact hended ⟨why, hl⟩
    | _ => rw [hl] at hf; exact hf
  · have hcase := step_holds hs ho (hh.resolve_left hended)
    cases hl : t'.loop with
    | ended why =>
      rcases hcase with ⟨why', hw, hc⟩ | ⟨h₁, -⟩ | ⟨-, h₁, -⟩ | ⟨d, -, -, -, ⟨h₁, -⟩ | ⟨h₁, -⟩⟩
      · rw [hl] at hw hf
        cases hw
        rcases hc with ⟨rfl, -⟩ | ⟨ex, rfl, -⟩ | ⟨c, rfl⟩ <;> exact hf
      all_goals exact h₁.not_ended ⟨why, hl⟩
    | _ => rw [hl] at hf; exact hf

/-- The loop ends by the failure of its call. -/
theorem outcome_failed {buf : TunnelFrameBuffer} {res : Except Exception Unit}
    (hs : t.step fd mtu interrupted (.outcome buf res) = some t') : t'.loop.Failed ↔ (Invocation.up [] res).Failed := by
  obtain ⟨-, -, ⟨rfl, ht⟩ | ⟨ex, rfl, ⟨hx, ht⟩ | ⟨hx, ht⟩⟩⟩ := step_outcome hs
  · rw [ht]
    exact Iff.rfl
  · rw [ht, Invocation.Failed, hx]
    simp [TunnelLoop.Failed]
  · rw [ht]
    exact iff_of_true trivial hx

/-- An assertion of the loop fails at its next step: an empty frame has no room
for the datagram, or `poll` returned more than one descriptor. -/
def asserts (t : TunnelThread) (interrupted : Bool) : LoopEvent → Bool
  | .tau =>
    match t.loop with
    | .wait writer 0 => !interrupted && decide (writer.remainingBytes < t.mtuBuffer.length)
    | _ => false
  | .polled (.ok res) =>
    match t.loop with
    | .poll _ _ => decide (1 < res)
    | _ => false
  | .io (.call (.ok d)) =>
    match t.loop with
    | .read writer 0 _ => decide (writer.remainingBytes < d.length)
    | _ => false
  | _ => false

theorem append_aborts_iff {w : TunnelFrameWriter} {n : Nat} (hm : t.mtuBuffer ≠ []) :
    (∃ c, (t.append w n).loop = .ended (.abort c)) ↔ n = 0 ∧ w.remainingBytes < t.mtuBuffer.length := by
  unfold append
  split
  · rename_i hgt
    split
    · rename_i hn
      exact ⟨fun _ => ⟨hn, hgt⟩, fun _ => ⟨_, rfl⟩⟩
    · rename_i hn
      exact ⟨fun ⟨_, h⟩ => (by cases h), fun h => absurd h.1 hn⟩
  · rename_i hle
    obtain ⟨w', hw, -⟩ := TunnelFrameWriter.append_ok
      ((w.remainingBytes_ge (List.length_pos_of_ne_nil hm)).1 (Nat.le_of_not_lt hle))
    rw [hw]
    exact ⟨fun ⟨_, h⟩ => (by cases h), fun h => absurd h.2 hle⟩

/-- A step of the loop's own ends it by an assertion when one fails there. -/
theorem step_aborts_iff {ev : LoopEvent} (hs : t.step fd mtu interrupted ev = some t') (ho : ev.Own) :
    (∃ c, t'.loop = .ended (.abort c)) ↔ t.asserts interrupted ev = true := by
  cases step_taken hs with
  | frame hl hw => simp [asserts, hl]
  | @wait w n hl =>
    unfold wait
    by_cases hi : interrupted = true
    · cases n <;> simp [asserts, hl, hi]
    by_cases hm : t.mtuBuffer = []
    · cases n <;> simp [asserts, hl, hi, hm]
    rw [if_neg hi, if_pos hm, append_aborts_iff hm]
    cases n <;> simp [asserts, hl, hi]
  | pollThrows hl => simp [asserts]
  | @polled w n res hl =>
    simp only [asserts, hl, decide_eq_true_eq, TunnelThread.polled]
    split
    · split <;> simp [*]
    · split
      · simp [*]
      · exact ⟨fun _ => by omega, fun _ => ⟨_, rfl⟩⟩
  | @readThrows w n io ev ex hl hsm =>
    -- Only the end of the file is a read that returned and no datagram.
    refine ⟨fun ⟨_, h⟩ => (by cases h), fun h => ?_⟩
    rcases ev with (_ | d) | _
    · cases h
    · have hd : d.length = 0 := Nat.eq_zero_of_not_pos hsm
      cases n <;> simp [asserts, hl, hd] at h
    · cases h
  | @again w n io io' ev hl hne =>
    refine ⟨fun ⟨_, h⟩ => (by cases h), fun h => ?_⟩
    rcases ev with (_ | d) | _
    · cases h
    · exact absurd rfl (hne d)
    · cases h
  | @read w n io d hl hd hle =>
    rw [append_aborts_iff hd]
    cases n <;> simp [asserts, hl]
  | handOver hl => cases interrupted <;> simp [asserts, hl]
  | sleep hl => simp [asserts, hl]
  | accepted hl => exact absurd ho id
  | refused hl hx => exact absurd ho id
  | failed hl hx => exact absurd ho id

end TunnelThread

namespace SocketState

variable {S K : Type} {x x' : SocketState S K} {i j : S}

/-- A `send` of the thread threw. -/
def SendFailed (x : SocketState S K) (i : S) : Prop := ∃ k, ∃ r ∈ x.sends k, r.sender = i ∧ r.ok = false

/-- The loop does not catch what a `send` has thrown. -/
def Uncaught (x : SocketState S K) : Prop :=
  ∀ i s ex, x.senders i = .sending s → s.send = .threw ex → ex.isNotYetReady = false

theorem sendFailed_record [DecidableEq K] {st : K} {r : SendRecord S} (hs : x'.sends = (x.record st r).sends) :
    x'.SendFailed j ↔ x.SendFailed j ∨ (r.sender = j ∧ r.ok = false) := by
  simp only [SendFailed, hs, mem_sends_record]
  constructor
  · intro ⟨k, r', hr', h⟩
    rcases hr' with hr' | ⟨-, rfl⟩
    · exact .inl ⟨k, r', hr', h⟩
    · exact .inr h
  · intro h
    rcases h with ⟨k, r', hr', h⟩ | h
    · exact ⟨k, r', .inl hr', h⟩
    · exact ⟨st, r, .inr ⟨rfl, rfl⟩, h⟩

section
variable [DecidableEq S]

theorem failed_setSender {a : Sender K} (hi : ¬ (x.senders i).Failed) (ha : ¬ a.Failed) (j : S) :
    ((x.setSender i a).senders j).Failed ↔ (x.senders j).Failed := by
  by_cases hij : j = i
  · subst hij
    rw [setSender_self]
    exact ⟨fun h => absurd h ha, fun h => absurd h hi⟩
  · rw [setSender_ne hij]

theorem failed_notify (w : Option S) (j : S) : ((x.notify w).senders j).Failed ↔ (x.senders j).Failed := by
  rcases x.notify_cases w with he | ⟨i, obj, buf, st, n, hi, he⟩
  · rw [he]
  · rw [he]
    exact failed_setSender (by rw [hi]; exact id) id j

variable [DecidableEq K] {client : Option SessionId} {l : SocketLabel S K}

/-- What a `send` has thrown it threw before the step, or its write has failed. -/
theorem threw_step (hs : SocketStep client x l x') {s : Sending K} {ex : Exception} (hj : x'.senders j = .sending s)
    (hthrew : s.send = .threw ex) : (∃ s', x.senders j = .sending s' ∧ s'.send = .threw ex) ∨
      ∃ ev, l = .io j ev ∧ ex.isNotYetReady = false ∧ ¬ IoEvent.Smooth id ev := by
  rcases sender_step hs j with heq | hst
  · exact .inl ⟨s, heq.symm.trans hj, hthrew⟩
  · rw [hj] at hst
    generalize ha : x.senders j = a at hst
    cases hst with
    | take hsel => exact absurd hthrew TunnelFrameStream.sendLoop_ne_threw
    | recheckTake hre => exact absurd hthrew TunnelFrameStream.sendLoop_ne_threw
    | io hal hsend =>
      obtain ⟨n, io, -, ⟨k, -, -, -, rfl, -⟩ | ⟨io', rfl, -⟩ | ⟨ex', rfl, -, -, hnot, hno⟩⟩ :=
        TunnelFrameStream.sendStep_cases hsend
      · exact absurd hthrew TunnelFrameStream.sendLoop_ne_threw
      · cases hthrew
      · cases hthrew
        exact .inr ⟨_, rfl, hnot, hno⟩

theorem Uncaught.step (h : x.Uncaught) (hs : SocketStep client x l x') : x'.Uncaught := by
  intro j s ex hj hthrew
  rcases threw_step hs hj hthrew with ⟨s', hj', hthrew'⟩ | ⟨_, _, hnot, _⟩
  · exact h j s' ex hj' hthrew'
  · exact hnot

theorem reachable_uncaught (h : (sockets S K client).Reachable x) : x.Uncaught := by
  refine h.invariant (I := Uncaught) ?_ ?_
  · intro y hy i s ex hi
    cases hy
    cases hi
  · intro y l y' _ hI hs
    exact hI.step hs.2

/-- A step of the sockets leaves a thread's failure as it was, or is the end of
its `send` that threw. -/
theorem failed_step (h : x.Uncaught) (hs : SocketStep client x l x') (hl : ¬ l.OfCaller) (j : S) :
    (((x'.senders j).Failed ↔ (x.senders j).Failed) ∧ (x'.SendFailed j ↔ x.SendFailed j)) ∨
    ((x'.senders j).Failed ∧ x'.SendFailed j) := by
  cases hs with
  | call hi => exact absurd trivial hl
  | notYetReady hi hsel =>
    have hready := (SessionsMap.select_notYetReady hsel).2
    refine .inl ⟨failed_setSender (by rw [hi]; exact id) (fun hf => ?_) j, Iff.rfl⟩
    rw [Sender.Failed, hready] at hf
    cases hf
  | selectCrash hi hsel => exact .inl ⟨Iff.rfl, Iff.rfl⟩
  | take hi hsel => exact .inl ⟨failed_setSender (x := { x with map := _ }) (by rw [hi]; exact id) id j, Iff.rfl⟩
  | wait hi hsel => exact .inl ⟨failed_setSender (x := { x with map := _ }) (by rw [hi]; exact id) id j, Iff.rfl⟩
  | recheckTake hi hre =>
    exact .inl ⟨failed_setSender (x := { x with map := _ }) (by rw [hi]; exact id) id j, Iff.rfl⟩
  | recheckWait hi hre => exact .inl ⟨failed_setSender (by rw [hi]; exact id) id j, Iff.rfl⟩
  | io hi hal hst =>
    exact .inl ⟨failed_setSender (x := x.put _ _) (by rw [put_senders, hi]; exact id) id j, Iff.rfl⟩
  | @complete i s res map wake hi hout hc hwk =>
    rw [failed_notify, @sendFailed_record _ _ x _ j _ s.st ⟨i, s.buf.bytes, s.out, res.isOk⟩
      (by rw [notify_sends]; rfl)]
    have hidle : ¬ (x.senders i).Failed := by rw [hi]; exact id
    cases res with
    | ok u =>
      exact .inl ⟨failed_setSender (x := { x with map }) hidle id j, or_iff_left fun h => nomatch h.2⟩
    | error ex =>
      by_cases hij : j = i
      · subst hij
        have hthrew : s.send = .threw ex := by
          cases hsend : s.send <;> rw [hsend] at hout <;> cases hout
          rfl
        refine .inr ⟨?_, .inr ⟨rfl, rfl⟩⟩
        rw [setSender_self]
        exact h j s ex hi hthrew
      · refine .inl ⟨by rw [setSender_ne hij]; rfl, or_iff_left fun h => hij h.1.symm⟩
  | leave hi => exact absurd trivial hl
  | _ => exact .inl ⟨Iff.rfl, Iff.rfl⟩

end

end SocketState

namespace SendingStack

open SocketState

variable {S K : Type} {x x' : SendingStack S K} {i j : S}

/-- The thread's hand-over fails, from the end of its `send` on, or has failed. -/
def Failed (x : SendingStack S K) (i : S) : Prop :=
  (x.sockets.senders i).Failed ∨ (∃ c, x.calls i = some c ∧ c.Failed) ∨ (x.threads i).loop.Failed

theorem Failed.congr (hs : (x'.sockets.senders i).Failed ↔ (x.sockets.senders i).Failed)
    (hc : x'.calls i = x.calls i) (ht : x'.threads i = x.threads i) : x'.Failed i ↔ x.Failed i := by
  rw [Failed, Failed, hs, hc, ht]

variable [DecidableEq S] [DecidableEq K] {fds : S → FileDescriptor} {mtu : Nat} {client : Option SessionId}
  {l : StackLabel S K}

/-- A failure is there exactly when a `send` has thrown. -/
theorem failed_iff_step (hI : x.Inv) (hu : x.sockets.Uncaught) (hs : StackStep fds mtu client x l x')
    (h : ∀ i, x.Failed i ↔ x.sockets.SendFailed i) (j : S) : x'.Failed j ↔ x'.sockets.SendFailed j := by
  cases hs with
  | @loop i ev t ho hst =>
    refine Iff.trans ?_ (h j)
    by_cases hij : j = i
    · subst hij
      obtain ⟨ds, hh, -⟩ := hI.carries j
      obtain ⟨hloop, ht⟩ := TunnelThread.step_not_failed hh ho hst
      rw [Failed, Failed, setThread_self, setThread_calls, setThread_sockets]
      simp only [hloop, ht]
    · exact Failed.congr Iff.rfl rfl (setThread_ne hij)
  | @invoke i buf hl hc =>
    refine Iff.trans ?_ (h j)
    by_cases hij : j = i
    · subst hij
      have hno : ¬ (Invocation.invoke x.pipes [] .tunnel).2.Failed := id
      simp [Failed, hc, hno]
    · exact Failed.congr Iff.rfl (setCall_ne hij) rfl
  | @pipe i c pipes c' hc hst =>
    refine Iff.trans ?_ (h j)
    by_cases hij : j = i
    · subst hij
      simp [Failed, hc, Invocation.step_failed hst]
    · exact Failed.congr Iff.rfl (setCall_ne hij) rfl
  | pipeAborts hc hst => exact h j
  | @enter i inside buf sockets hc hl hst =>
    obtain ⟨hi, rfl⟩ := hst.call_eq
    have hf : ({ x with sockets := x.sockets.setSender i (.entered buf) } : SendingStack S K).Failed j ↔ x.Failed j :=
      Failed.congr (failed_setSender (by rw [hi]; exact id) id j) rfl rfl
    exact hf.trans (h j)
  | @leave i inside buf res sockets hc hi hst =>
    obtain rfl := hst.leave_eq
    refine Iff.trans ?_ (h j)
    by_cases hij : j = i
    · subst hij
      have hloop : ¬ (x.threads j).loop.Failed := by
        obtain ⟨buf', hl⟩ := (hI.linked j).invoking hc
        rw [hl]
        exact id
      have hres : (Invocation.up inside res).Failed ↔ (Sender.returned (K := K) buf res).Failed := by
        cases res <;> exact Iff.rfl
      have hidle : ¬ (Sender.idle : Sender K).Failed := id
      have hinvoking : ¬ (TunnelLoop.invoking buf).Failed := id
      have hdown : ¬ (Invocation.down inside (some .socket)).Failed := id
      rw [Failed, Failed, setCall_self, setCall_threads, setThread_self, setCall_sockets, setThread_sockets,
        setSender_self, hi, hc]
      simp only [Option.some.injEq, exists_eq_left', hidle, hinvoking, hdown, hres, hloop, false_or, or_false]
    · refine Failed.congr ?_ (setCall_ne hij) (setThread_ne hij)
      show ((x.sockets.setSender i .idle).senders j).Failed ↔ _
      rw [SocketState.setSender_ne hij]
  | @outcome i buf res t hc hl hst =>
    refine Iff.trans ?_ (h j)
    by_cases hij : j = i
    · subst hij
      have hidle := (hI.linked j).idle_outside (by simp [hc])
      have hsender : ¬ (x.sockets.senders j).Failed := by rw [hidle]; exact id
      have hinvoking : ¬ (TunnelLoop.invoking buf).Failed := id
      have hloop := TunnelThread.outcome_failed hst
      rw [Failed, Failed, setCall_self, setCall_threads, setThread_self, setCall_sockets, setThread_sockets, hc, hl]
      simp only [hsender, hinvoking, hloop, reduceCtorEq, false_and, exists_false, Option.some.injEq, exists_eq_left',
        false_or, or_false]
    · exact Failed.congr Iff.rfl (setCall_ne hij) (setThread_ne hij)
  | @socket l sockets hl hst =>
    rcases failed_step hu hst hl j with ⟨h₁, h₂⟩ | ⟨h₁, h₂⟩
    · have hf : ({ x with sockets } : SendingStack S K).Failed j ↔ x.Failed j := Failed.congr h₁ rfl rfl
      exact (hf.trans (h j)).trans h₂.symm
    · exact iff_of_true (.inl h₁) h₂
  | interrupt => exact h j

theorem reachable_failed_iff (h : (sendingStack K fds mtu client).Reachable x) (i : S) :
    x.Failed i ↔ x.sockets.SendFailed i := by
  refine h.invariant (I := fun x => ∀ i, x.Failed i ↔ x.sockets.SendFailed i) ?_ ?_ i
  · intro y hy j
    obtain ⟨pipes, -, rfl⟩ := hy
    refine iff_of_false ?_ fun ⟨k, r, hr, _⟩ => nomatch hr
    intro hf
    rcases hf with hf | ⟨c, hc, -⟩ | hf
    · exact hf
    · cases hc
    · exact hf
  · intro y l y' hr hI hs j
    exact failed_iff_step (reachable_inv hr) (reachable_uncaught (maps_sockets.reachable hr)) hs.2 hI j

/-- Why a thread of a run has ended. -/
theorem ended_reason {tr : List (Machine.Transition (SendingStack S K) (StackLabel S K))}
    (h : (sendingStack K fds mtu client).Run tr x) {why : Ended} (hw : (x.threads i).loop = .ended why) :
    (why = .interrupted ∧ x.interrupted = true) ∨
    (∃ ex, why = .tunnelFd ex ∧ ∃ t ∈ tr, ∃ ev, t.label = .loop i ev ∧ ¬ ev.Smooth) ∨
    (∃ c, why = .abort c) ∨ ∃ ex, why = .handOver ex := by
  induction h with
  | init hy =>
    obtain ⟨pipes, -, rfl⟩ := hy
    cases hw
  | @step tr y l y' hr hs ih =>
    -- An earlier reason stays: nothing clears the flag or takes a step back.
    have hkeep : (y.threads i).loop = .ended why → (y.interrupted = true → y'.interrupted = true) →
        (why = .interrupted ∧ y'.interrupted = true) ∨
        (∃ ex, why = .tunnelFd ex ∧ ∃ t ∈ tr ++ [⟨y, l, y'⟩], ∃ ev, t.label = .loop i ev ∧ ¬ ev.Smooth) ∨
        (∃ c, why = .abort c) ∨ ∃ ex, why = .handOver ex := by
      intro hw hint
      rcases ih hw with ⟨rfl, h⟩ | ⟨ex, rfl, t, ht, h⟩ | h | h
      · exact .inl ⟨rfl, hint h⟩
      · exact .inr (.inl ⟨ex, rfl, t, List.mem_append_left _ ht, h⟩)
      · exact .inr (.inr (.inl h))
      · exact .inr (.inr (.inr h))
    obtain ⟨-, hs⟩ := hs
    cases hs with
    | @loop j ev t ho hst =>
      by_cases hij : i = j
      · subst hij
        rw [setThread_self] at hw
        obtain ⟨ds, hh, -⟩ := (reachable_inv hr.reachable).carries i
        have hh := hh.resolve_left fun he => by rw [TunnelThread.step_ended he] at hst; cases hst
        rcases TunnelThread.step_holds hst ho hh with ⟨why', hw', hc⟩ | ⟨h₁, -⟩ |
          ⟨-, h₁, -⟩ | ⟨d, -, -, -, ⟨h₁, -⟩ | ⟨h₁, -⟩⟩
        · rw [hw] at hw'
          cases hw'
          rcases hc with ⟨rfl, h⟩ | ⟨ex, rfl, h⟩ | h
          · exact .inl ⟨rfl, h⟩
          · exact .inr (.inl ⟨ex, rfl, _, List.mem_append_right _ (List.mem_singleton_self _), ev, rfl, h⟩)
          · exact .inr (.inr (.inl h))
        all_goals exact absurd ⟨why, hw⟩ h₁.not_ended
      · rw [setThread_ne hij] at hw
        exact hkeep hw id
    | invoke hl hc => exact hkeep hw id
    | pipe hc hst => exact hkeep hw id
    | pipeAborts hc hst => exact hkeep hw id
    | enter hc hl hst => exact hkeep hw id
    | @leave j inside buf res sockets hc hi hst =>
      by_cases hij : i = j
      · subst hij
        rw [setCall_threads, setThread_self] at hw
        cases hw
      · rw [setCall_threads, setThread_ne hij] at hw
        exact hkeep hw id
    | @outcome j buf res t hc hl hst =>
      by_cases hij : i = j
      · subst hij
        rw [setCall_threads, setThread_self] at hw
        obtain ⟨-, -, ⟨-, ht⟩ | ⟨ex, -, ⟨-, ht⟩ | ⟨-, ht⟩⟩⟩ := TunnelThread.step_outcome hst
        · rw [ht] at hw
          cases hw
        · rw [ht] at hw
          cases hw
        · rw [ht] at hw
          cases hw
          exact .inr (.inr (.inr ⟨ex, rfl⟩))
      · rw [setCall_threads, setThread_ne hij] at hw
        exact hkeep hw id
    | socket hl hst => exact hkeep hw id
    | interrupt => exact hkeep hw fun _ => rfl

/-- Some step of the run failed an assertion of the thread's loop. -/
def Asserted (tr : List (Machine.Transition (SendingStack S K) (StackLabel S K))) (i : S) : Prop :=
  ∃ t ∈ tr, ∃ ev, t.label = .loop i ev ∧ (t.pre.threads i).asserts t.pre.interrupted ev = true

theorem aborted_iff {tr : List (Machine.Transition (SendingStack S K) (StackLabel S K))}
    (h : (sendingStack K fds mtu client).Run tr x) (i : S) :
    (∃ c, (x.threads i).loop = .ended (.abort c)) ↔ Asserted tr i := by
  induction h with
  | init hy =>
    obtain ⟨pipes, -, rfl⟩ := hy
    exact ⟨fun ⟨_, hc⟩ => (by cases hc), fun ⟨_, ht, _⟩ => absurd ht List.not_mem_nil⟩
  | @step tr y l y' hr hs ih =>
    obtain ⟨-, hs⟩ := hs
    have hlast : Asserted (tr ++ [⟨y, l, y'⟩]) i ↔
        Asserted tr i ∨ ∃ ev, l = .loop i ev ∧ (y.threads i).asserts y.interrupted ev = true := by
      simp only [Asserted, List.mem_append, List.mem_singleton, or_and_right, exists_or, exists_eq_left]
    -- A step that is none of the thread's own and does not end it by an assertion.
    have other : (∀ ev, l ≠ .loop i ev) → ((∃ c, (y'.threads i).loop = .ended (.abort c)) ↔
        ∃ c, (y.threads i).loop = .ended (.abort c)) →
        ((∃ c, (y'.threads i).loop = .ended (.abort c)) ↔ Asserted (tr ++ [⟨y, l, y'⟩]) i) := by
      intro hl hloop
      rw [hlast, hloop, ih]
      exact ⟨.inl, fun h => h.resolve_right fun ⟨ev, he, _⟩ => hl ev he⟩
    have moved : ∀ {t : TunnelThread}, (∃ b, (y.threads i).loop = .invoking b) → y'.threads i = t →
        (∀ c, t.loop ≠ .ended (.abort c)) → ((∃ c, (y'.threads i).loop = .ended (.abort c)) ↔
          ∃ c, (y.threads i).loop = .ended (.abort c)) := by
      rintro t ⟨b, hb⟩ ht hno
      rw [ht, hb]
      exact ⟨fun ⟨c, hc⟩ => absurd hc (hno c), fun ⟨_, hc⟩ => (by cases hc)⟩
    cases hs with
    | @loop j ev t ho hst =>
      by_cases hij : i = j
      · subst hij
        have hrun : ¬ ∃ c, (y.threads i).loop = .ended (.abort c) := by
          rintro ⟨c, hc⟩
          rw [TunnelThread.step_ended ⟨_, hc⟩] at hst
          cases hst
        rw [hlast, ← ih, setThread_self, TunnelThread.step_aborts_iff hst ho]
        refine ⟨fun h => .inr ⟨ev, rfl, h⟩, fun h => ?_⟩
        obtain ⟨ev', he, h⟩ := h.resolve_left hrun
        cases he
        exact h
      · exact other (fun _ he => hij (by cases he; rfl)) (by rw [setThread_ne hij])
    | @leave j inside buf res sockets hc hi hst =>
      refine other (fun _ he => nomatch he) ?_
      by_cases hij : i = j
      · subst hij
        refine moved (((reachable_inv hr.reachable).linked i).invoking hc)
          (by rw [setCall_threads, setThread_self]) fun c hl => ?_
        cases hl
      · rw [setCall_threads, setThread_ne hij]
    | @outcome j buf res t hc hloop hst =>
      refine other (fun _ he => nomatch he) ?_
      by_cases hij : i = j
      · subst hij
        refine moved ⟨buf, hloop⟩ (by rw [setCall_threads, setThread_self]) fun c hl => ?_
        obtain ⟨-, -, ⟨-, ht⟩ | ⟨ex, -, ⟨-, ht⟩ | ⟨-, ht⟩⟩⟩ := TunnelThread.step_outcome hst <;>
          rw [ht] at hl <;> cases hl
      · rw [setCall_threads, setThread_ne hij]
    | _ => exact other (fun _ he => nomatch he) Iff.rfl

end SendingStack

/-- What the tunnel promises for a thread of its loop: the loop ends only when
it is interrupted or an operation on its own descriptor fails; and a frame whose
`send` failed goes out whole on another stream, if the session has one. -/
structure Survives {S K : Type} (tr : List (Machine.Transition (SendingStack S K) (StackLabel S K)))
    (x : SendingStack S K) (i : S) : Prop where
  ends : ∀ why, (x.threads i).loop = .ended why →
    (why = .interrupted ∧ x.interrupted = true) ∨
    ∃ ex, why = .tunnelFd ex ∧ ∃ t ∈ tr, ∃ ev, t.label = .loop i ev ∧ ¬ ev.Smooth
  handedOn : ∀ k, ∀ r ∈ x.sockets.sends k, r.sender = i → r.ok = false →
    (∃ s ∈ x.sockets.map.sessions, ∃ k' ∈ s.streams, k' ≠ k) →
    ∃ k', k' ≠ k ∧ ∃ r' ∈ x.sockets.sends k', r'.sender = i ∧ r'.ok = true ∧
      r'.frame.drop sizeofTunnelFrameHeader = r.frame.drop sizeofTunnelFrameHeader

/-- **A tunnel thread survives exactly the hand-overs whose sends return**, and
its own assertions. In every run, a thread that is in no hand-over has kept what
the tunnel promises exactly when no `send` of its hand-overs has thrown and no
assertion of its loop has failed. -/
theorem tunnel_survives_iff {S K : Type} [DecidableEq S] [DecidableEq K] {fds : S → FileDescriptor} {mtu : Nat}
    {client : Option SessionId} {tr : List (Machine.Transition (SendingStack S K) (StackLabel S K))}
    {x : SendingStack S K} (h : (sendingStack K fds mtu client).Run tr x) {i : S} (hi : x.calls i = none) :
    Survives tr x i ↔ ¬ x.sockets.SendFailed i ∧ ¬ SendingStack.Asserted tr i := by
  have hidle := ((SendingStack.reachable_inv h.reachable).linked i).idle_outside (by simp [hi])
  have hfailed : (x.threads i).loop.Failed ↔ x.sockets.SendFailed i := by
    rw [← SendingStack.reachable_failed_iff h.reachable i, SendingStack.Failed, hidle, hi]
    simp [Sender.Failed]
  rw [← hfailed, ← SendingStack.aborted_iff h i]
  constructor
  · intro hs
    refine ⟨fun hf => ?_, fun ⟨c, hc⟩ => ?_⟩
    · cases hl : (x.threads i).loop with
      | ended why =>
        rw [hl] at hf
        rcases hs.ends why hl with ⟨rfl, -⟩ | ⟨ex, rfl, -⟩ <;> exact hf
      | _ => rw [hl] at hf; exact hf
    · rcases hs.ends _ hc with ⟨he, -⟩ | ⟨ex, he, -⟩ <;> cases he
  · rintro ⟨hno, hab⟩
    refine ⟨fun why hw => ?_, fun k r hr hri hok => ?_⟩
    · rcases SendingStack.ended_reason h hw with h' | h' | ⟨c, rfl⟩ | ⟨ex, rfl⟩
      · exact .inl h'
      · exact .inr h'
      · exact absurd ⟨c, hw⟩ hab
      · exact absurd (by rw [hw]; trivial) hno
    · exact absurd (hfailed.2 ⟨k, r, hr, hri, hok⟩) hno

/-- A thread whose `poll` failed has kept the promise. -/
theorem tunnel_survives_iff_poll : ∃ tr x, (sendingStack Unit (fun _ : Unit => ⟨"tun", 3⟩) 1500 none).Run tr x ∧
    (x.threads ()).Ended ∧ Survives tr x () := by
  obtain ⟨pipes, hp, -⟩ := TunnelFramePipe.attached_chain
  have halive : ∀ y : SendingStack Unit Unit, y.sockets.crash = none → y.aborted = none →
      (∀ c, (y.threads ()).loop ≠ .ended (.abort c)) → y.Alive := fun y h₁ h₂ h₃ => ⟨h₁, h₂, fun _ => h₃⟩
  have hrun := Machine.Run.init (M := sendingStack Unit (fun _ : Unit => ⟨"tun", 3⟩) 1500 none) ⟨pipes, hp, rfl⟩
  have hrun := hrun.step (l := .loop () .tau) ⟨halive _ rfl rfl (fun _ h => nomatch h), .loop trivial rfl⟩
  have hrun := hrun.step (l := .loop () .tau) ⟨halive _ rfl rfl (fun _ h => nomatch h), .loop trivial rfl⟩
  have hrun := hrun.step (l := .loop () (.polled (.error EINTR)))
    ⟨halive _ rfl rfl (fun _ h => nomatch h), .loop trivial rfl⟩
  refine ⟨_, _, hrun, ⟨_, rfl⟩, (tunnel_survives_iff hrun rfl).2 ⟨fun ⟨k, r, hr, _⟩ => (nomatch hr), fun ha => ?_⟩⟩
  obtain ⟨c, hc⟩ := (SendingStack.aborted_iff hrun ()).2 ha
  cases hc

/-- The first stream fails after a byte, with the second one free: the thread
ends, and the second stream gets nothing. -/
theorem tunnel_stopped : ∃ tr x s, (sendingStack Bool (fun _ : Unit => ⟨"tun", 3⟩) 1500 none).Run tr x ∧
    x.calls () = none ∧ (∃ ex, (x.threads ()).loop = .ended (.handOver ex)) ∧ x.interrupted = false ∧
    x.sockets.map.sessions = [s] ∧ true ∈ s.streams ∧ (x.sockets.map.trackers true).inUse = false ∧
    x.sockets.sends true = [] ∧ ¬ Survives tr x () := by
  obtain ⟨tr, hy, htr⟩ := run_twoStreams Unit ⟨List.replicate 16 7, rfl⟩
  have hl : ∀ t ∈ tr, ¬ t.label.OfCaller := by
    intro t ht
    obtain ⟨k, (⟨_, he⟩ | ⟨_, _, he⟩ | ⟨_, he⟩) | he⟩ := htr t ht <;> (rw [he]; exact id)
  obtain ⟨y, s, heq, hc, hi, hsends, hsess, hst, hfree⟩ : ∃ y s, y = twoStreams Unit ⟨List.replicate 16 7, rfl⟩ ∧
      y.crash = none ∧ y.senders () = .idle ∧ y.sends = (fun _ => []) ∧ y.map.sessions = [s] ∧
      s.streams = [false, true] ∧ ∀ k, (y.map.trackers k).inUse = false ∧ 0 ≤ (y.map.trackers k).stream.fd.fd :=
    ⟨_, _, rfl, rfl, rfl, rfl, rfl, rfl, fun k => ⟨rfl, by cases k <;> decide⟩⟩
  rw [← heq] at hy
  have halive : ∀ (z : SendingStack Unit Bool) {b}, z.sockets.crash = none → z.aborted = none →
      (z.threads ()).loop = .invoking b → z.Alive :=
        fun z _ h h' hl => ⟨h, h', fun _ c hc => by rw [hl] at hc; cases hc⟩
  obtain ⟨_, x₂, buf, h₃, -, -, hc₂, hl₂, hsize, ha₂, hint₂⟩ := SendingStack.run_entered hy hl hc hi
  -- Its send puts a byte on the first stream and is interrupted by a signal.
  obtain ⟨y₁, y₂, y₃, y₄, ex, hs₁, hs₂, hs₃, hs₄, hy₁, hy₂, hy₃, hy₄, hsenders, hex, hsends₄, hsess₄, -, -, hother⟩ :=
    SocketState.failingSend none (x := y.setSender () (.entered buf)) SocketState.setSender_self
      (SessionsMap.select_first hsess hst (hfree false).1) (by show 1 < buf.size; omega) (hfree false).2
      (fun ⟨_, _, _, _, _, hw⟩ => by rw [SocketState.setSender_self] at hw; cases hw)
  have h₄ := h₃.step (l := .socket (.select ())) ⟨halive _ hc ha₂ hl₂, .socket id hs₁⟩
  have h₄ := h₄.step (l := .socket (.io () _)) ⟨halive _ (hy₁.trans hc) ha₂ hl₂, .socket id hs₂⟩
  have h₄ := h₄.step (l := .socket (.io () _)) ⟨halive _ (hy₂.trans hc) ha₂ hl₂, .socket id hs₃⟩
  have h₄ := h₄.step (l := .socket (.complete () none)) ⟨halive _ (hy₃.trans hc) ha₂ hl₂, .socket id hs₄⟩
  -- The exception goes up the pipes and ends the thread.
  have hi₄ := congrFun hsenders ()
  rw [Function.update_self] at hi₄
  have h₅ := h₄.step (l := .leave ()) ⟨halive _ (hy₄.trans hc) ha₂ hl₂,
    .leave (x := { x₂ with sockets := y₄ }) hc₂ hi₄ (.leave hi₄)⟩
  obtain ⟨x₆, h₆, hb₆, hc₆⟩ := SendingStack.reachable_up (i := ()) h₅.reachable
    (halive _ (hy₄.trans hc) ha₂ (congrArg TunnelThread.loop SendingStack.setThread_self)) SendingStack.setCall_self
  have hl₆ : (x₆.threads ()).loop =
      .invoking (TunnelFrameWriter.setSequenceNumberOnClosedBuffer buf s.nextSeqNum) := by
    rw [hb₆.threads]
    exact congrArg TunnelThread.loop SendingStack.setThread_self
  have hstep : (x₆.threads ()).step ⟨"tun", 3⟩ 1500 x₆.interrupted
      (.outcome (TunnelFrameWriter.setSequenceNumberOnClosedBuffer buf s.nextSeqNum) (.error ex)) =
      some { x₆.threads () with loop := .ended (.handOver ex) } := by
    simp only [TunnelThread.step, hl₆, hex]
    rfl
  have h₇ := h₆.step (l := .outcome ())
    ⟨halive _ (by rw [hb₆.sockets]; exact hy₄.trans hc) (hb₆.aborted.trans ha₂) hl₆, .outcome hc₆ hl₆ hstep⟩
  have hk₆ : x₆.sockets = y₄.setSender () .idle := hb₆.sockets
  obtain ⟨tr', h₇⟩ := h₇
  have hended :
      ((((x₆.setThread () { x₆.threads () with loop := .ended (.handOver ex) }).setCall () none).threads ()).loop) =
      .ended (.handOver ex) := congrArg TunnelThread.loop SendingStack.setThread_self
  refine ⟨tr', _, { s with nextSeqNum := s.nextSeqNum + 1 }, h₇, SendingStack.setCall_self, ⟨ex, hended⟩,
    hb₆.interrupted.trans hint₂, ?_, by simp [hst], ?_, ?_, fun hsv => ?_⟩
  · show x₆.sockets.map.sessions = _
    rw [hk₆]
    exact hsess₄
  · show (x₆.sockets.map.trackers true).inUse = false
    rw [hk₆]
    exact (congrArg StreamTracker.inUse (hother true (by decide)).2).trans (hfree true).1
  · show x₆.sockets.sends true = []
    rw [hk₆]
    exact (hother true (by decide)).1.trans (congrFun hsends true)
  · rcases hsv.ends _ hended with ⟨h, -⟩ | ⟨_, h, -⟩ <;> cases h

end RuralPipe
