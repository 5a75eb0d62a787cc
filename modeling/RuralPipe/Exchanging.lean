/-
The initial exchange, one system call at a time, and between honest sides.

`exchange` is `initialTunnelFrameExchange` cut at its calls on the stream
(`run_exchange`), and `Exchanging` is where a task stands in it. Given the bytes
of the other side's initial frame and of what follows it, the exchange takes no
byte past that frame, does not fail, and ends with the other's identifier and
the client's session (`Stands.step`).
-/
import RuralPipe.InitialExchange
import RuralPipe.StreamTransfer

namespace RuralPipe

open Bytes TunnelFrameStream

/-- What an exchange has yet to do: its calls on the stream, and its end. -/
inductive Exchange
  | send (frame : TunnelFrameBuffer) (next : Exchange)
  | receive (next : TunnelFrameBuffer → Exchange)
  | ended (res : Except Failure InitialExchangeResult)

namespace Exchange

/-- With a stream whose calls end as `io` says. -/
def run (io : ExchangeIo) : Exchange → Except Failure InitialExchangeResult
  | .send frame next =>
    match io.send frame with
    | .error e => .error e
    | .ok () => next.run io
  | .receive next =>
    match io.receive with
    | .error e => .error e
    | .ok buf => (next buf).run io
  | .ended res => res

/-- The initial frame is written and sent. -/
def sendInit (sessionId : SessionId) (identifier : String) (next : Exchange) : Exchange :=
  match initFrame sessionId identifier with
  | .error e => .ended (.error e)
  | .ok frame => .send frame next

/-- The frame received is read. -/
def received (message : String) (next : TunnelFrameReader → Exchange) (buf : TunnelFrameBuffer) : Exchange :=
  match initReader { send := fun _ => .ok (), receive := .ok buf } message with
  | .error e => .ended (.error e)
  | .ok reader => next reader

def result (reader : TunnelFrameReader) : InitialExchangeResult :=
  { identifier := cString reader.data reader.dataOffset, sessionId := reader.header.sessionId }

end Exchange

open Exchange in
/-- `initialTunnelFrameExchange` up to its first call on the stream. -/
def exchange : Option SessionId → Exchange
  | some sessionId =>
    sendInit sessionId "RuralPipeClient" <|
      .receive <| received "Client received invalid initial frame response" fun reader => .ended (.ok (result reader))
  | none =>
    .receive <| received "Server received invalid initial frame" fun reader =>
      sendInit reader.header.sessionId "RuralPipeServer" (.ended (.ok (result reader)))

namespace Exchange

theorem run_sendInit (io : ExchangeIo) (sessionId : SessionId) (identifier : String) (next : Exchange) :
    (sendInit sessionId identifier next).run io =
      initFrame sessionId identifier >>= fun frame => io.send frame >>= fun _ => next.run io := by
  unfold sendInit
  cases initFrame sessionId identifier with
  | error e => rfl
  | ok frame =>
    simp only [run, ok_bind]
    cases io.send frame <;> rfl

theorem run_received (io : ExchangeIo) (message : String) (next : TunnelFrameReader → Exchange) :
    run io (.receive (received message next)) = initReader io message >>= fun reader => (next reader).run io := by
  simp only [run]
  unfold initReader received
  cases hio : io.receive with
  | error e => rfl
  | ok buf =>
    simp only [initReader, ok_bind]
    cases TunnelFrameReader.new buf with
    | error e => rfl
    | ok r =>
      simp only [ok_bind]
      cases r.next.1 with
      | error e => rfl
      | ok found => cases found <;> rfl

end Exchange

/-- The exchange and its calls are the source's function. -/
theorem run_exchange (client : Option SessionId) (io : ExchangeIo) :
    (exchange client).run io = initialTunnelFrameExchange client io := by
  cases client with
  | some sessionId =>
    simp only [exchange, Exchange.run_sendInit, Exchange.run_received]
    rfl
  | none =>
    simp only [exchange, Exchange.run_received, Exchange.run_sendInit]
    rfl

/-! ## System calls -/

/-- Where a task stands in its exchange: between two calls, in `send` or in
`receive`. -/
inductive Exchanging
  | before (e : Exchange)
  | sending (frame : TunnelFrameBuffer) (send : Send) (next : Exchange)
  | receiving (receive : Receive) (next : TunnelFrameBuffer → Exchange)

/-- What moves it on: nothing but itself, or a system call of one of the two. -/
inductive ExchangeEvent
  | tau
  | write (ev : IoEvent Nat)
  | read (ev : IoEvent (List UInt8))

/-- The bytes an exchange takes off its stream. -/
def ExchangeEvent.bytes : ExchangeEvent → List UInt8
  | .read ev => ev.bytes
  | _ => []

@[simp] theorem ExchangeEvent.bytes_tau : ExchangeEvent.tau.bytes = [] := rfl
@[simp] theorem ExchangeEvent.bytes_write (ev : IoEvent Nat) : (ExchangeEvent.write ev).bytes = [] := rfl
@[simp] theorem ExchangeEvent.bytes_read (ev : IoEvent (List UInt8)) : (ExchangeEvent.read ev).bytes = ev.bytes := rfl

/-- No system call fails. -/
def ExchangeEvent.Smooth : ExchangeEvent → Prop
  | .tau => True
  | .write ev => ev.Smooth id
  | .read ev => ev.Smooth List.length

/-- One step on the stream `s`: the stream after it, where it leads, and the
bytes put on the stream. -/
def Exchanging.step (s : TunnelFrameStream) :
    Exchanging → ExchangeEvent → Option (TunnelFrameStream × Exchanging × List UInt8)
  | .before (.send frame next), .tau => some (s, .sending frame (TunnelFrameStream.send frame) next, [])
  | .before (.receive next), .tau => some (s, .receiving s.receive next, [])
  | .sending _ .returned next, .tau => some (s, .before next, [])
  | .sending _ (.threw ex) _, .tau => some (s, .before (.ended (.error (.throw ex))), [])
  | .receiving (.returned buf) next, .tau => some (s, .before (next buf), [])
  | .receiving (.failed e) _, .tau => some (s, .before (.ended (.error e)), [])
  | .sending frame w next, .write ev =>
    match s.sendStep frame w ev with
    | none => none
    | some (w, out) => some (s, .sending frame w next, out)
  | .receiving r next, .read ev =>
    match s.receiveStep r ev with
    | none => none
    | some (s, r) => some (s, .receiving r next, [])
  | _, _ => none

namespace Exchanging

/-- The steps there are. -/
inductive Taken (s : TunnelFrameStream) : Exchanging → ExchangeEvent → TunnelFrameStream →
    Exchanging → List UInt8 → Prop
  | sends {frame next} : Taken s (.before (.send frame next)) .tau s
    (.sending frame (TunnelFrameStream.send frame) next) []
  | sent {frame next} : Taken s (.sending frame .returned next) .tau s (.before next) []
  | sendThrows {frame ex next} :
      Taken s (.sending frame (.threw ex) next) .tau s (.before (.ended (.error (.throw ex)))) []
  | write {frame w w' next ev out} : s.sendStep frame w ev = some (w', out) →
      Taken s (.sending frame w next) (.write ev) s (.sending frame w' next) out
  | receives {next} : Taken s (.before (.receive next)) .tau s (.receiving s.receive next) []
  | received {buf next} : Taken s (.receiving (.returned buf) next) .tau s (.before (next buf)) []
  | receiveFails {e next} : Taken s (.receiving (.failed e) next) .tau s (.before (.ended (.error e))) []
  | read {r r' next ev s'} : s.receiveStep r ev = some (s', r') →
      Taken s (.receiving r next) (.read ev) s' (.receiving r' next) []

theorem step_taken {s s' : TunnelFrameStream} {e e' : Exchanging} {ev : ExchangeEvent} {out : List UInt8}
    (h : e.step s ev = some (s', e', out)) : Taken s e ev s' e' out := by
  cases e with
  | before e =>
    cases e <;> cases ev <;> cases h
    · exact .sends
    · exact .receives
  | sending frame w next =>
    cases ev with
    | tau =>
      cases w <;> cases h
      · exact .sent
      · exact .sendThrows
    | read ev => cases w <;> cases h
    | write ev =>
      simp only [step] at h
      cases hw : s.sendStep frame w ev with
      | none => rw [hw] at h; cases h
      | some p =>
        rw [hw] at h
        cases h
        exact .write hw
  | receiving r next =>
    cases ev with
    | tau =>
      cases r <;> cases h
      · exact .received
      · exact .receiveFails
    | write ev => cases r <;> cases h
    | read ev =>
      have h : (match s.receiveStep r ev with
          | none => none
          | some (s, r) => some (s, Exchanging.receiving r next, [])) = some (s', e', out) := by
        cases r <;> exact h
      cases hr : s.receiveStep r ev with
      | none => rw [hr] at h; cases h
      | some p =>
        rw [hr] at h
        cases h
        exact .read hr

end Exchanging

/-! ## Honest sides -/

inductive Side
  | client
  | server
  deriving DecidableEq

namespace Side

def other : Side → Side
  | client => server
  | server => client

/-- The name in its initial frame. -/
def identifier : Side → String
  | client => "RuralPipeClient"
  | server => "RuralPipeServer"

/-- `_clientSessionId`: the client generates the session. -/
def clientSessionId (c : SessionId) : Side → Option SessionId
  | client => some c
  | server => none

/-- The initial frame a side sends in the session `c`. -/
def frame (s : Side) (c : SessionId) : TunnelFrameBuffer :=
  match initFrame c s.identifier with
  | .error _ => ⟨fun _ => 0, 0⟩
  | .ok frame => frame

/-- What a side's exchange in the session `c` ends with. -/
def result (s : Side) (c : SessionId) : InitialExchangeResult :=
  { identifier := chars s.other.identifier, sessionId := c }

@[simp] theorem other_other (s : Side) : s.other.other = s := by cases s <;> rfl

theorem other_ne (s : Side) : s.other ≠ s := by cases s <;> simp [other]

variable (s : Side) (c : SessionId)

theorem frame_ok : initFrame c s.identifier = .ok (s.frame c) ∧ (s.frame c).Closed [chars s.identifier ++ [0]] ∧
    (TunnelFrameHeader.cast (s.frame c).data).sessionId = c ∧
    (TunnelFrameHeader.cast (s.frame c).data).seqNum = kInitFrameSeqNum := by
  obtain ⟨buf, hok, h⟩ := initFrame_ok c s.identifier (by cases s <;> rfl)
  have he : s.frame c = buf := by rw [frame, hok]
  rw [he]
  exact ⟨hok, h⟩

theorem frame_closed : (s.frame c).Closed [chars s.identifier ++ [0]] := (s.frame_ok c).2.1

theorem frame_size : (s.frame c).size = 176 := by
  rw [(s.frame_closed c).size_eq]
  cases s <;> rfl

theorem frame_length : (s.frame c).bytes.length = 176 := by rw [TunnelFrameBuffer.bytes_length, frame_size]

end Side

/-- The string written is the string read. -/
theorem cString_eq {m : Mem} {off n : Nat} {cs : List UInt8} (h : load m off n = cs ++ [0])
    (hn : n ≤ kTunnelFrameMaxSize)
    (hcs : ∀ b ∈ cs, b ≠ 0) : cString m off = cs := by
  rw [cString, load_split n hn, h, List.append_assoc, List.takeWhile_append_of_pos (by simpa using hcs)]
  simp

/-- A side reads off the other's initial frame what that one wrote. -/
theorem initReader_frame {buf : TunnelFrameBuffer} {s : Side} {c : SessionId} (h : buf.bytes = (s.frame c).bytes)
    (message : String) : ∃ reader, initReader { send := fun _ => .ok (), receive := .ok buf } message = .ok reader ∧
      reader.header.sessionId = c ∧ Exchange.result reader = s.other.result c := by
  have hcl := (s.frame_closed c).of_bytes h
  obtain ⟨r, hnew, hdata, -, hread, -⟩ := hcl.read
  obtain ⟨hcall, hsize, hdatagram⟩ := hread 0 _ rfl
  have hfst : r.next.1 = .ok true := hcall
  have hbuf : r.next.2.data = buf.data := by rw [TunnelFrameReader.next_snd, TunnelFrameReader.advance_data, hdata]
  have hid : r.next.2.header.sessionId = c := by
    rw [TunnelFrameReader.header, hbuf, (s.frame_closed c).cast_of_bytes h]
    exact (s.frame_ok c).2.2.1
  have hle : (r.after 1).size ≤ kTunnelFrameMaxSize := by
    rw [hsize]
    cases s <;> decide
  refine ⟨r.next.2, ?_, hid, ?_⟩
  · simp only [initReader, ok_bind, hnew, hfst]
    rfl
  · have hall : (chars s.identifier).all (fun b => b != 0) = true := by cases s <;> rfl
    have hname : cString r.next.2.data r.next.2.dataOffset = chars s.identifier :=
      cString_eq hdatagram hle fun b hb => bne_iff_ne.1 (List.all_eq_true.1 hall b hb)
    rw [Exchange.result, Side.result, Side.other_other, hid, hname]

namespace Exchange

/-- What is left of a side's exchange that has put the bytes `put` on the stream
and taken `given` off it. -/
inductive Left (s : Side) (c : SessionId) : List UInt8 → List UInt8 → Exchange → Prop
  | send {given next} : Left s c (s.frame c).bytes given next → Left s c [] given (.send (s.frame c) next)
  | receive {put next} : (∀ buf : TunnelFrameBuffer, buf.bytes = (s.other.frame c).bytes →
      Left s c put (s.other.frame c).bytes (next buf)) → Left s c put [] (.receive next)
  | ended : Left s c (s.frame c).bytes (s.other.frame c).bytes (.ended (.ok (s.result c)))

variable {s : Side} {c : SessionId}

theorem sendInit_ok (next : Exchange) : sendInit c s.identifier next = .send (s.frame c) next := by
  rw [sendInit, (s.frame_ok c).1]

theorem received_ok {buf : TunnelFrameBuffer} (h : buf.bytes = (s.other.frame c).bytes) (message : String)
    (next : TunnelFrameReader → Exchange) :
    ∃ reader, received message next buf = next reader ∧ reader.header.sessionId = c ∧ result reader = s.result c := by
  obtain ⟨reader, hok, hid, hres⟩ := initReader_frame h message
  rw [Side.other_other] at hres
  exact ⟨reader, by rw [received, hok], hid, hres⟩

/-- All of it is left at first. -/
theorem exchange_left (s : Side) (c : SessionId) : Left s c [] [] (exchange (s.clientSessionId c)) := by
  cases s with
  | client =>
    rw [Side.clientSessionId, exchange, show "RuralPipeClient" = Side.client.identifier from rfl, sendInit_ok]
    refine .send (.receive fun buf hbuf => ?_)
    obtain ⟨reader, hrec, -, hres⟩ := received_ok hbuf "Client received invalid initial frame response"
      fun reader => .ended (.ok (result reader))
    rw [hrec, hres]
    exact .ended
  | server =>
    rw [Side.clientSessionId, exchange]
    refine .receive fun buf hbuf => ?_
    obtain ⟨reader, hrec, hid, hres⟩ := received_ok hbuf "Server received invalid initial frame" fun reader =>
      sendInit reader.header.sessionId "RuralPipeServer" (.ended (.ok (result reader)))
    rw [hrec, hid, hres, show "RuralPipeServer" = Side.server.identifier from rfl, sendInit_ok]
    exact .send .ended

end Exchange

open Exchange

/-- The exchange of honest sides succeeds, with the other's name and the
client's session. -/
theorem exchange_honest {s : Side} {c : SessionId} {buf : TunnelFrameBuffer} (h : buf.bytes = (s.other.frame c).bytes) :
    initialTunnelFrameExchange (s.clientSessionId c) { send := fun _ => .ok (), receive := .ok buf } =
      .ok (s.result c) := by
  have run_left : ∀ {put given e}, Left s c put given e →
      e.run { send := fun _ => .ok (), receive := .ok buf } = .ok (s.result c) := by
    intro put given e he
    induction he with
    | send _ ih => exact ih
    | receive _ ih => exact ih buf h
    | ended => rfl
  rw [← run_exchange]
  exact run_left (exchange_left s c)

namespace Exchanging

/-- Where a side stands, given the bytes `given` of the other's initial frame,
with the bytes `put` of its own on the stream. -/
inductive Stands (s : Side) (c : SessionId) (m : Mem) : List UInt8 → List UInt8 → Exchanging → Prop
  | before {put given e} : Left s c put given e → Stands s c m put given (.before e)
  | sending {put given w next} : put ++ w.rest (s.frame c) = (s.frame c).bytes → w.Inside (s.frame c) →
      Left s c (s.frame c).bytes given next → Stands s c m put given (.sending (s.frame c) w next)
  | receiving {put given r next} : r.At m given → given <+: (s.other.frame c).bytes →
      (∀ buf : TunnelFrameBuffer, buf.bytes = (s.other.frame c).bytes →
        Left s c put (s.other.frame c).bytes (next buf)) → Stands s c m put given (.receiving r next)

variable {s : Side} {c : SessionId} {m : Mem} {put given : List UInt8} {e : Exchanging}

/-- What is on the stream is the start of the side's initial frame. -/
theorem Stands.put_prefix (h : Stands s c m put given e) : put <+: (s.frame c).bytes := by
  have left : ∀ {put given e}, Left s c put given e → put <+: (s.frame c).bytes := by
    intro put given e he
    induction he with
    | send _ => exact List.nil_prefix
    | receive _ ih => exact ih _ rfl
    | ended => exact List.prefix_rfl
  cases h with
  | before hl => exact left hl
  | sending hput _ _ => exact ⟨_, hput⟩
  | receiving _ _ hl => exact left (hl _ rfl)

/-- What is taken off it is the start of the other's. -/
theorem Stands.given_prefix (h : Stands s c m put given e) : given <+: (s.other.frame c).bytes := by
  have left : ∀ {put given e}, Left s c put given e → given <+: (s.other.frame c).bytes := by
    intro put given e he
    induction he with
    | send _ ih => exact ih
    | receive _ => exact List.nil_prefix
    | ended => exact List.prefix_rfl
  cases h with
  | before hl => exact left hl
  | sending _ _ hl => exact left hl
  | receiving _ hpre _ => exact hpre

/-- At its end it returns what it was to return. -/
theorem Stands.ended {res : Except Failure InitialExchangeResult} (h : Stands s c m put given (.before (.ended res))) :
    res = .ok (s.result c) ∧ put = (s.frame c).bytes ∧ given = (s.other.frame c).bytes := by
  cases h with
  | before hl =>
    cases hl
    exact ⟨rfl, rfl, rfl⟩

/-- An exchange goes on as it stands, as long as no system call fails and the
bytes it gets are those of the other's initial frame and of what follows it. -/
theorem Stands.step {fd : FileDescriptor} {ev : ExchangeEvent} {s' : TunnelFrameStream} {e' : Exchanging}
    {out : List UInt8} (h : Stands s c m put given e) (hs : e.step ⟨fd, m⟩ ev = some (s', e', out)) (hsm : ev.Smooth)
    (hin : ∃ more after, given ++ ev.bytes ++ more = (s.other.frame c).bytes ++ after) :
    Stands s c s'.buffer (put ++ out) (given ++ ev.bytes) e' := by
  obtain ⟨more, after, hin⟩ := hin
  have hbuf := s.other.frame_closed c
  cases step_taken hs with
  | sends =>
    cases h with
    | before hl =>
      cases hl with
      | send hl =>
        have hrest : (TunnelFrameStream.send (s.frame c)).rest (s.frame c) = (s.frame c).bytes := by
          rw [TunnelFrameStream.send, Send.rest_loop, List.drop_zero]
        rw [ExchangeEvent.bytes_tau, List.append_nil, List.append_nil]
        exact .sending hrest Send.inside_loop hl
  | sent =>
    cases h with
    | sending hput hw hl =>
      have hput : put ++ [] = (s.frame c).bytes := hput
      rw [List.append_nil] at hput
      rw [ExchangeEvent.bytes_tau, List.append_nil, List.append_nil, hput]
      exact .before hl
  | sendThrows =>
    cases h with
    | sending hput hw hl => exact hw.elim
  | write hst =>
    cases h with
    | sending hput hw hl =>
      obtain ⟨hrest, hin', -⟩ := Send.rest_step hst hsm hw
      rw [ExchangeEvent.bytes_write, List.append_nil]
      exact .sending (by rw [List.append_assoc, ← hrest, hput]) hin' hl
  | receives =>
    cases h with
    | before hl =>
      cases hl with
      | receive hl =>
        rw [ExchangeEvent.bytes_tau, List.append_nil, List.append_nil]
        exact .receiving (Receive.At.start _) List.nil_prefix hl
  | received =>
    cases h with
    | receiving hat hpre hl =>
      rw [ExchangeEvent.bytes_tau, List.append_nil] at hin
      obtain ⟨-, -, hret, -⟩ := hat.frame hbuf hin
      obtain ⟨hbytes, rfl⟩ := hret _ rfl
      rw [ExchangeEvent.bytes_tau, List.append_nil, List.append_nil]
      exact .before (hl _ hbytes)
  | receiveFails =>
    cases h with
    | receiving hat hpre hl =>
      rw [ExchangeEvent.bytes_tau, List.append_nil] at hin
      obtain ⟨-, hfail, -⟩ := hat.frame hbuf hin
      exact absurd rfl (hfail _)
  | read hst =>
    cases h with
    | receiving hat hpre hl =>
      rw [List.append_nil, ExchangeEvent.bytes_read]
      rcases receiveStep_cases hat hst with ⟨n, -, -, -, -, hat'⟩ | ⟨rfl, hat', -, hno⟩ | ⟨ex, -, -, -, -, hbad⟩
      · exact .receiving hat' (hat'.frame hbuf hin).1 hl
      · rw [hno, List.append_nil]
        exact .receiving hat' hpre hl
      · exact absurd hsm hbad

end Exchanging

/-! ## Who goes first -/

namespace Exchange

/-- Nothing is left to send. -/
def Sent : Exchange → Prop
  | .send _ _ => False
  | .receive next => ∀ buf, (next buf).Sent
  | .ended _ => True

/-- The frame goes out before any is received. -/
def SendsFirst : Exchange → Prop
  | .send _ next => next.Sent
  | .receive next => ∀ buf, (next buf).Sent
  | .ended _ => True

theorem Sent.sendsFirst {e : Exchange} (h : e.Sent) : e.SendsFirst := by
  cases e with
  | send frame next => exact h.elim
  | receive next => exact h
  | ended res => trivial

theorem Left.put_of_sent {s : Side} {c : SessionId} {put given : List UInt8} {e : Exchange} (h : Left s c put given e)
    (hs : e.Sent) : put = (s.frame c).bytes := by
  induction h with
  | send _ _ => exact hs.elim
  | receive _ ih => exact ih (s.other.frame c) rfl (hs _)
  | ended => rfl

/-- A client's does. -/
theorem exchange_sendsFirst (sessionId : SessionId) : (exchange (some sessionId)).SendsFirst := by
  have received : ∀ (message : String) buf,
      (received message (fun reader => .ended (.ok (result reader))) buf).Sent := by
    intro message buf
    unfold Exchange.received
    split <;> trivial
  rw [exchange, sendInit]
  split
  · trivial
  · exact fun buf => received _ buf

end Exchange

namespace Exchanging

def SendsFirst : Exchanging → Prop
  | .before e => e.SendsFirst
  | .sending _ _ next => next.Sent
  | .receiving _ next => ∀ buf, (next buf).Sent

theorem SendsFirst.step {s s' : TunnelFrameStream} {e e' : Exchanging} {ev : ExchangeEvent} {out : List UInt8}
    (h : e.SendsFirst) (hs : e.step s ev = some (s', e', out)) : e'.SendsFirst := by
  cases step_taken hs with
  | sends => exact h
  | sent => exact Exchange.Sent.sendsFirst h
  | sendThrows => trivial
  | write _ => exact h
  | receives => exact h
  | received => exact (h _).sendsFirst
  | receiveFails => trivial
  | read _ => exact h

/-- So the frame is out once its side receives. -/
theorem Stands.put_of_sendsFirst {s : Side} {c : SessionId} {m : Mem} {put given : List UInt8} {r : Receive}
    {next : TunnelFrameBuffer → Exchange} (h : Stands s c m put given (.receiving r next))
    (hf : (Exchanging.receiving r next).SendsFirst) : put = (s.frame c).bytes := by
  cases h with
  | receiving hat hpre hl => exact (hl (s.other.frame c) rfl).put_of_sent (hf _)

end Exchanging

/-! ## Progress -/

/-- Not a poll, nor a call that would have blocked. -/
def ExchangeEvent.progress : ExchangeEvent → Bool
  | .tau => true
  | .write (.call (.ok _)) => true
  | .read (.call (.ok _)) => true
  | _ => false

namespace Exchanging

/-- The calls begun or to come, counting a beginning and an end, once `put` bytes
are on the stream and `given` bytes off it. -/
def calls (put given : Nat) : Exchanging → Nat
  | .before _ => (if put = 0 then 2 else 0) + if given = 0 then 2 else 0
  | .sending _ _ _ => 1 + if given = 0 then 2 else 0
  | .receiving _ _ => 1 + if put = 0 then 2 else 0

/-- What is left to do, in calls and bytes. -/
def left (s : Side) (c : SessionId) (put given : Nat) (e : Exchanging) : Nat :=
  e.calls put given + ((s.frame c).size - put) + ((s.other.frame c).size - given)

section
variable {s : Side} {c : SessionId} {m : Mem} {put given : List UInt8} {e : Exchanging}

/-- Every step but a poll and a call that would have blocked does some of it. -/
theorem Stands.left_step {fd : FileDescriptor} {ev : ExchangeEvent} {s' : TunnelFrameStream} {e' : Exchanging}
    {out : List UInt8} (h : Stands s c m put given e) (hs : e.step ⟨fd, m⟩ ev = some (s', e', out)) (hsm : ev.Smooth)
    (hin : ∃ more after, given ++ ev.bytes ++ more = (s.other.frame c).bytes ++ after) :
    e'.left s c (put ++ out).length (given ++ ev.bytes).length + (if ev.progress then 1 else 0) ≤
      e.left s c put.length given.length := by
  have h' := h.step hs hsm hin
  have hput := h'.put_prefix.length_le
  have hgiven := h'.given_prefix.length_le
  have hframe := s.frame_size c
  have hother := s.other.frame_size c
  rw [Side.frame_length, List.length_append] at hput hgiven
  obtain ⟨more, after, hin⟩ := hin
  cases step_taken hs with
  | sends =>
    cases h with
    | before hl =>
      cases hl with
      | send hl =>
        simp only [left, calls, ExchangeEvent.progress, ExchangeEvent.bytes_tau,
          List.append_nil, List.length_nil, if_true]
        omega
  | sent =>
    cases h with
    | sending hp hw hl =>
      have hp : put ++ [] = (s.frame c).bytes := hp
      have hlen := congrArg List.length hp
      rw [Side.frame_length, List.append_nil] at hlen
      simp only [left, calls, ExchangeEvent.progress, ExchangeEvent.bytes_tau, List.append_nil, hlen, Nat.reduceEqDiff,
        if_true, if_false]
      omega
  | sendThrows =>
    cases h with
    | sending hp hw hl => exact hw.elim
  | @write frame w w' next ev out hst =>
    cases h with
    | sending hp hw hl =>
      obtain ⟨-, -, hout⟩ := Send.rest_step hst hsm hw
      have hone : (if (ExchangeEvent.write ev).progress then 1 else 0) ≤ out.length := by
        rcases ev with (_ | k) | _
        · exact Nat.zero_le _
        · exact hout ⟨k, rfl⟩
        · exact Nat.zero_le _
      simp only [left, calls, ExchangeEvent.bytes_write, List.append_nil, List.length_append]
      omega
  | receives =>
    cases h with
    | before hl =>
      cases hl with
      | receive hl =>
        simp only [left, calls, ExchangeEvent.progress, ExchangeEvent.bytes_tau,
          List.append_nil, List.length_nil, if_true]
        omega
  | received =>
    cases h with
    | receiving hat hpre hl =>
      rw [ExchangeEvent.bytes_tau, List.append_nil] at hin
      obtain ⟨-, -, hret, -⟩ := hat.frame (s.other.frame_closed c) hin
      have hlen := congrArg List.length (hret _ rfl).2
      rw [Side.frame_length] at hlen
      simp only [left, calls, ExchangeEvent.progress, ExchangeEvent.bytes_tau, List.append_nil, hlen, Nat.reduceEqDiff,
        if_true, if_false]
      omega
  | receiveFails =>
    cases h with
    | receiving hat hpre hl =>
      rw [ExchangeEvent.bytes_tau, List.append_nil] at hin
      obtain ⟨-, hfail, -⟩ := hat.frame (s.other.frame_closed c) hin
      exact absurd rfl (hfail _)
  | @read r r' next ev s' hst =>
    have hone : (if (ExchangeEvent.read ev).progress then 1 else 0) ≤ ev.bytes.length := by
      rcases ev with (_ | bs) | _
      · exact Nat.zero_le _
      · exact hsm
      · exact Nat.zero_le _
    rw [ExchangeEvent.bytes_read] at hgiven
    simp only [left, calls, ExchangeEvent.bytes_read, List.append_nil, List.length_append]
    omega

/-- An exchange that is not over goes on, perhaps after its poll: by itself, or
with the next byte it is given. -/
theorem Stands.goesOn (h : Stands s c m put given e) (fd : FileDescriptor)
    (hin : ∃ more after, given ++ more = (s.other.frame c).bytes ++ after) :
    e = .before (.ended (.ok (s.result c))) ∨
    (∃ e₁, (e₁ = e ∨ e.step ⟨fd, m⟩ (.write (.poll (.ok 1))) = some (⟨fd, m⟩, e₁, [])) ∧
      ∃ ev s' e' out, ev.Smooth ∧ ev.progress = true ∧ ev.bytes = [] ∧ e₁.step ⟨fd, m⟩ ev = some (s', e', out)) ∨
    ((∃ r next, e = .receiving r next) ∧ given ≠ (s.other.frame c).bytes ∧
      ∀ b, ∃ e₁, (e₁ = e ∨ e.step ⟨fd, m⟩ (.read (.poll (.ok 1))) = some (⟨fd, m⟩, e₁, [])) ∧
        ∃ s' e', e₁.step ⟨fd, m⟩ (.read (.call (.ok [b]))) = some (s', e', [])) := by
  obtain ⟨more, after, hin⟩ := hin
  cases h with
  | before hl =>
    cases hl with
    | send hl => exact .inr (.inl ⟨_, .inl rfl, .tau, _, _, _, trivial, rfl, rfl, rfl⟩)
    | receive hl => exact .inr (.inl ⟨_, .inl rfl, .tau, _, _, _, trivial, rfl, rfl, rfl⟩)
    | ended => exact .inl rfl
  | @sending w next hput hw hl =>
    cases w with
    | returned => exact .inr (.inl ⟨_, .inl rfl, .tau, _, _, _, trivial, rfl, rfl, rfl⟩)
    | threw ex => exact hw.elim
    | writing n io =>
      have hlt : n < (s.frame c).size := hw
      have hcall : (Exchanging.sending (s.frame c) (.writing n .call) next).step ⟨fd, m⟩ (.write (.call (.ok 1))) =
          some (⟨fd, m⟩, .sending (s.frame c) (sendLoop (s.frame c) (n + 1)) next, load (s.frame c).data n 1) := by
        simp only [Exchanging.step, sendStep, FileDescriptor.writeStep]
        rw [FileDescriptor.retryStep_call (by decide) (by simp only [id]; omega)]
      refine .inr (.inl ⟨.sending (s.frame c) (.writing n .call) next, ?_, _, _, _, _,
        show ExchangeEvent.Smooth (.write (.call (.ok 1))) from Nat.one_pos, rfl, rfl, hcall⟩)
      cases io with
      | call => exact .inl rfl
      | poll => exact .inr rfl
  | @receiving r next hat hpre hl =>
    obtain ⟨-, hfail, -, hwhole⟩ := hat.frame (s.other.frame_closed c) hin
    by_cases hret : ∃ res, r = .returned res
    · obtain ⟨res, rfl⟩ := hret
      exact .inr (.inl ⟨_, .inl rfl, .tau, _, _, _, trivial, rfl, rfl, rfl⟩)
    · refine .inr (.inr ⟨⟨r, next, rfl⟩, fun hg => hret (hwhole hg), fun b => ?_⟩)
      obtain ⟨off, n, ht⟩ : ∃ off n, receiveTarget r = some (off, n) := by
        cases r with
        | header n io => exact ⟨_, _, rfl⟩
        | body n t io => exact ⟨_, _, rfl⟩
        | returned res => exact absurd ⟨res, rfl⟩ hret
        | failed e => exact absurd rfl (hfail e)
      -- The exchange steps as its call of `receive` does.
      have lift : ∀ {r : Receive} {ev s' r'}, receiveStep ⟨fd, m⟩ r ev = some (s', r') →
          (Exchanging.receiving r next).step ⟨fd, m⟩ (.read ev) = some (s', .receiving r' next, []) := by
        intro r ev s' r' hst
        simp only [Exchanging.step, hst]
      obtain ⟨r₁, hr₁, s', r', hst⟩ := receive_goesOn (s := ⟨fd, m⟩) ht (hat.room ht).2.1 b
      refine ⟨.receiving r₁ next, ?_, s', .receiving r' next, lift hst⟩
      rcases hr₁ with rfl | hpoll
      · exact .inl rfl
      · exact .inr (lift hpoll)

end

end Exchanging

end RuralPipe
