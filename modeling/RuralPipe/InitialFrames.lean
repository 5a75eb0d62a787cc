/-
Which frames the initial exchange takes for an initial frame.

An initial frame has the first sequence number and one datagram, an
`InitTunnelFrame` with a zero in its identifier (`Initial`). The exchange asks no
more of the frame it receives than that it has a body (`exchange_given`), and
`receive` aborts on a header that asks for less than itself. So the exchange is
right about the initial frames, about the other frames without a body, and where
its own frame cannot be sent before that (`initial_exchange_iff`). A task whose
exchange throws ends there, and its stream is in no session from then on
(`never_registered`).
-/
import Mathlib.Data.List.TakeWhile
import RuralPipe.Exchanging
import RuralPipe.FrameGrammar
import RuralPipe.Membership
import RuralPipe.Receiving

namespace RuralPipe

open Bytes SocketState TunnelFrameStream

/-- An initial frame, of the datagram `d`: sixteen bytes, a zero among them. -/
structure TunnelFrameBuffer.Initial (buf : TunnelFrameBuffer) (d : List UInt8) : Prop where
  seqNum : (TunnelFrameHeader.cast buf.data).seqNum = kInitFrameSeqNum
  parses : buf.Parses [d]
  length : d.length = 16
  terminated : 0 ∈ d

def identifierOf (d : List UInt8) : List UInt8 := d.takeWhile (· ≠ 0)

def Receive.outcome : Receive → Option (Except Failure TunnelFrameBuffer)
  | .returned buf => some (.ok buf)
  | .failed e => some (.error e)
  | _ => none

/-- The bytes of a frame, as its sender had them. -/
def frameOf (given : List UInt8) : TunnelFrameBuffer := ⟨store (fun _ => 0) 0 given, given.length⟩

/-- A stream whose `receive` ends so, and whose `send` returns or throws. -/
def ExchangeIo.given (send : TunnelFrameBuffer → Except Exception Unit) (res : Except Failure TunnelFrameBuffer) :
    ExchangeIo where
  send frame := (send frame).mapError .throw
  receive := res

/-- The initial frame the side itself sends. -/
def ownFrame (client : Option SessionId) (buf : TunnelFrameBuffer) : TunnelFrameBuffer :=
  match client with
  | some sessionId => Side.client.frame sessionId
  | none => Side.server.frame (TunnelFrameHeader.cast buf.data).sessionId

/-- Whatever the run, a task with this exchange ended with it, and is in no
session since. -/
def NeverRegistered (S K : Type) [DecidableEq S] [DecidableEq K] (client : Option SessionId) (io : ExchangeIo) : Prop :=
  ∀ l₁ t l₂ x k, (sockets S K client).Run (l₁ ++ t :: l₂) x → t.label = .exchange k io →
    x.tasks k = .done ∧ ∀ s ∈ x.map.sessions, k ∉ s.streams

/-- The exchange, whose `receive` of the frame `given` ends with `res`, takes
initial frames only, for what they say. -/
structure InitialOnly (S K : Type) [DecidableEq S] [DecidableEq K] (client : Option SessionId)
    (send : TunnelFrameBuffer → Except Exception Unit) (given : List UInt8) (res : Except Failure TunnelFrameBuffer) :
    Prop where
  accepts : ∀ ier, initialTunnelFrameExchange client (.given send res) = .ok ier →
    ∃ d, (frameOf given).Initial d ∧ ier.identifier = identifierOf d
  refuses : (¬ ∃ d, (frameOf given).Initial d) →
    (∃ ex, initialTunnelFrameExchange client (.given send res) = .error (.throw ex)) ∧
      NeverRegistered S K client (.given send res)

/-! ## What the exchange does -/

theorem TunnelFrameBuffer.Initial.cString_eq {buf : TunnelFrameBuffer} {d : List UInt8} (h : buf.Initial d) :
    cString buf.data (sizeofTunnelFrameHeader + sizeofTunnelFrameDatagramSeparator) = identifierOf d := by
  have hsz := sizes
  have hsize := h.parses.size_eq
  have hbody := h.parses.body
  have hlen := h.length
  rw [body_singleton, item_length] at hsize
  have hload : load buf.data (sizeofTunnelFrameHeader + sizeofTunnelFrameDatagramSeparator) 16 = d := by
    have hdrop := congrArg (·.drop 2) hbody
    simp only [body_singleton, load_drop] at hdrop
    rw [show buf.size - sizeofTunnelFrameHeader - 2 = 16 by omega] at hdrop
    exact hdrop.trans (List.drop_left' (leBytes_length 2 _))
  rw [cString, load_split 16 (by decide), hload, List.takeWhile_append, if_neg, identifierOf]
  intro hall
  have htake : d.takeWhile (· ≠ 0) = d := List.IsPrefix.eq_of_length (List.takeWhile_prefix _) hall
  have hzero := List.takeWhile_eq_self_iff.1 htake 0 h.terminated
  simp at hzero

section
variable (client : Option SessionId) (send : TunnelFrameBuffer → Except Exception Unit) {buf : TunnelFrameBuffer}
  {hdr : TunnelFrameHeader} (hcheck : TunnelFrameHeaderInfo.check buf = .ok hdr) (hsize : buf.size = hdr.size)
include hcheck hsize

theorem initReader_given (message : String) (h : sizeofTunnelFrameHeader < buf.size) :
    ∃ reader, initReader (.given send (.ok buf)) message = .ok reader ∧ reader.data = buf.data ∧
      reader.dataOffset = sizeofTunnelFrameHeader + sizeofTunnelFrameDatagramSeparator := by
  have hnew : TunnelFrameReader.new buf = .ok { data := buf.data, stop := hdr.size, current := 0 } := by
    rw [TunnelFrameReader.new, hcheck]
  generalize hr : ({ data := buf.data, stop := hdr.size, current := 0 } : TunnelFrameReader) = r at hnew
  have hcur : r.next.2.current = sizeofTunnelFrameHeader := by
    rw [TunnelFrameReader.next_snd]
    exact TunnelFrameReader.advance_start (by rw [← hr])
  have hfst : r.next.1 = .ok true := by
    rw [TunnelFrameReader.next_fst, ← TunnelFrameReader.next_snd, hcur]
    have hstop : r.stop = buf.size := by rw [← hr, hsize]
    rw [if_neg (by omega), hstop]
    simpa using h
  refine ⟨r.next.2, ?_, by rw [TunnelFrameReader.next_snd, TunnelFrameReader.advance_data, ← hr], ?_⟩
  · simp only [initReader, ExchangeIo.given, ok_bind, hnew, hfst]
    rfl
  · rw [TunnelFrameReader.dataOffset, hcur]

theorem initReader_refused (message : String) (h : buf.size ≤ sizeofTunnelFrameHeader) :
    ∃ ex, initReader (.given send (.ok buf)) message = .error (.throw ex) := by
  have hnew : TunnelFrameReader.new buf = .ok { data := buf.data, stop := hdr.size, current := 0 } := by
    rw [TunnelFrameReader.new, hcheck]
  have hstart : (TunnelFrameReader.mk buf.data hdr.size 0).advance.current = sizeofTunnelFrameHeader :=
    TunnelFrameReader.advance_start rfl
  simp only [initReader, ExchangeIo.given, ok_bind, hnew, TunnelFrameReader.next_fst, hstart]
  rcases Nat.lt_or_eq_of_le h with hlt | heq
  · rw [if_pos (by omega)]
    exact ⟨_, rfl⟩
  · rw [if_neg (by omega), hsize.symm.trans heq]
    exact ⟨⟨.exception, message⟩, by simp; rfl⟩

/-- **What the exchange does with a frame.** With a body it is taken, if the own
frame can be sent; without one it is refused. -/
theorem exchange_given :
    (sizeofTunnelFrameHeader < buf.size ∧ send (ownFrame client buf) = .ok () ∧
      initialTunnelFrameExchange client (.given send (.ok buf)) = .ok
        { identifier := cString buf.data (sizeofTunnelFrameHeader + sizeofTunnelFrameDatagramSeparator),
          sessionId := (TunnelFrameHeader.cast buf.data).sessionId }) ∨
    ((buf.size ≤ sizeofTunnelFrameHeader ∨ ∃ ex, send (ownFrame client buf) = .error ex) ∧
      ∃ ex, initialTunnelFrameExchange client (.given send (.ok buf)) = .error (.throw ex)) := by
  cases client with
  | some sessionId =>
    have hown : initFrame sessionId "RuralPipeClient" = .ok (Side.client.frame sessionId) :=
      (Side.client.frame_ok sessionId).1
    have hrun : initialTunnelFrameExchange (some sessionId) (.given send (.ok buf)) =
        (send (Side.client.frame sessionId)).mapError .throw >>= fun _ =>
          initReader (.given send (.ok buf)) "Client received invalid initial frame response" >>= fun reader =>
            .ok (Exchange.result reader) := by
      simp only [initialTunnelFrameExchange, hown, ok_bind]
      rfl
    rw [hrun]
    cases hs : send (Side.client.frame sessionId) with
    | error ex => exact .inr ⟨.inr ⟨ex, hs⟩, ex, rfl⟩
    | ok u =>
      rcases Nat.lt_or_ge sizeofTunnelFrameHeader buf.size with hlt | hge
      · obtain ⟨reader, hr, hdata, hoff⟩ :=
          initReader_given send hcheck hsize "Client received invalid initial frame response" hlt
        refine .inl ⟨hlt, hs, ?_⟩
        rw [hr, ← hdata, ← hoff]
        rfl
      · obtain ⟨ex, hr⟩ :=
          initReader_refused send hcheck hsize "Client received invalid initial frame response" hge
        refine .inr ⟨.inl hge, ex, ?_⟩
        rw [hr]
        rfl
  | none =>
    have hrun : initialTunnelFrameExchange none (.given send (.ok buf)) =
        initReader (.given send (.ok buf)) "Server received invalid initial frame" >>= fun reader =>
          initFrame reader.header.sessionId "RuralPipeServer" >>= fun frame =>
            (send frame).mapError .throw >>= fun _ => .ok (Exchange.result reader) := rfl
    rw [hrun]
    rcases Nat.lt_or_ge sizeofTunnelFrameHeader buf.size with hlt | hge
    · obtain ⟨reader, hr, hdata, hoff⟩ :=
        initReader_given send hcheck hsize "Server received invalid initial frame" hlt
      have hid : reader.header.sessionId = (TunnelFrameHeader.cast buf.data).sessionId := by
        rw [TunnelFrameReader.header, hdata]
      have hown : initFrame (TunnelFrameHeader.cast buf.data).sessionId "RuralPipeServer" =
          .ok (ownFrame none buf) := (Side.server.frame_ok _).1
      rw [hr, ok_bind, hid, hown, ok_bind]
      cases hs : send (ownFrame none buf) with
      | error ex => exact .inr ⟨.inr ⟨ex, rfl⟩, ex, rfl⟩
      | ok u =>
        refine .inl ⟨hlt, rfl, ?_⟩
        rw [← hdata, ← hoff]
        rfl
    · obtain ⟨ex, hr⟩ := initReader_refused send hcheck hsize "Server received invalid initial frame" hge
      refine .inr ⟨.inl hge, ex, ?_⟩
      rw [hr]
      rfl

end

/-! ## The task -/

theorem done_step {S K : Type} [DecidableEq S] [DecidableEq K] {client : Option SessionId} {x x' : SocketState S K}
    {l : SocketLabel S K} {k : K} (hs : SocketStep client x l x') (h : x.tasks k = .done) : x'.tasks k = .done := by
  rcases task_step hs k with ⟨-, heq⟩ | ⟨-, ht⟩
  · rw [heq, h]
  · rw [h] at ht
    generalize x'.tasks k = t' at ht
    cases ht

theorem never_registered {S K : Type} [DecidableEq S] [DecidableEq K] {client : Option SessionId} {io : ExchangeIo}
    {ex : Exception} (h : initialTunnelFrameExchange client io = .error (.throw ex)) :
    NeverRegistered S K client io := by
  intro l₁ t l₂ x k hrun hl
  have hdone : x.tasks k = .done := by
    have hpost : t.post.tasks k = .done := by
      obtain ⟨-, -, hs⟩ := hrun.before
      rw [hl] at hs
      generalize t.post = y at hs
      cases hs with
      | exchange hk hex =>
        rw [h] at hex
        cases hex
      | exchangeThrows hk hex => exact setTask_self
      | exchangeAborts hk hex =>
        rw [h] at hex
        cases hex
    exact (hrun.since (I := fun x => x.tasks k = .done) (C := fun _ => True)
      (fun _ _ _ _ hI _ (hs : (sockets S K client).step _ _ _) => done_step hs.2 hI) hpost (fun _ _ => trivial)).1
  refine ⟨hdone, fun s hs hk => ?_⟩
  have hreg := ((reachable_table hrun.reachable).exact.listed s hs k).1 hk
  rw [hdone] at hreg
  cases hreg

/-! ## What `receive` makes of a frame -/

theorem frameOf_bytes (given : List UInt8) : (frameOf given).bytes = given := load_store_self (fun _ => 0) 0 given

theorem TunnelFrameBuffer.Initial.of_bytes {buf buf' : TunnelFrameBuffer} {d : List UInt8} (h : buf.Initial d)
    (hb : buf'.bytes = buf.bytes) : buf'.Initial d := by
  have hsz := sizes
  have hle := h.parses.header
  obtain ⟨hsize, hdata⟩ := TunnelFrameBuffer.data_of_bytes hb
  refine ⟨?_, ⟨hsize ▸ hle, ?_, h.parses.small⟩, h.length, h.terminated⟩
  · rw [cast_congr fun i hi => hdata i (by omega)]
    exact h.seqNum
  · rw [hsize, load_congr fun i _ hi => hdata i (by omega)]
    exact h.parses.body

theorem Receiving.at_run {s : TunnelFrameStream} {tr : List (Machine.Transition Receiving (IoEvent (List UInt8)))}
    {x : Receiving} (h : (receiving s).Run tr x) (hsm : ∀ t ∈ tr, t.label.Smooth List.length) :
    x.receive.At x.stream.buffer x.given := by
  refine (h.guarded (I := fun x => x.receive.At x.stream.buffer x.given)
    (C := fun t => t.label.Smooth List.length) ?_ ?_ hsm).1
  · rintro y rfl
    exact Receive.At.start s
  · rintro y ev y' - hat hev ⟨s', r', hst, rfl⟩
    rcases receiveStep_cases hat hst with ⟨n, -, -, -, rfl, hat'⟩ | ⟨rfl, hat', -, hnil⟩ | ⟨ex, -, -, -, -, hno⟩
    · exact hat'
    · simpa [hnil] using hat'
    · exact absurd hev hno

/-- At its end a call has returned the bytes given, if their header passes the
check, or aborted on a header that asks for less than itself. -/
theorem Receive.At.ended {m : Mem} {given : List UInt8} {r : Receive} {res : Except Failure TunnelFrameBuffer} {n : Nat}
    (h : r.At m given) (hr : r.outcome = some res) (hc : checkedSize (frameOf given).data = some n) :
    (sizeofTunnelFrameHeaderInfo ≤ n ∧ ∃ buf : TunnelFrameBuffer, res = .ok buf ∧ buf.bytes = given ∧
      TunnelFrameHeaderInfo.check buf = .ok (.cast buf.data) ∧ buf.size = (TunnelFrameHeader.cast buf.data).size ∧
      buf.size = n) ∨
    n < sizeofTunnelFrameHeaderInfo ∧ given.length = sizeofTunnelFrameHeaderInfo ∧ ∃ c, res = .error (.abort c) := by
  have hsz := sizes
  have hge : sizeofTunnelFrameHeaderInfo ≤ given.length := by
    by_contra hlt
    have hs := h.stands
    rw [receiveHeader_short (by omega)] at hs
    cases r <;> simp_all [Receive.atCall, Receive.outcome]
  have hm : checkedSize m = some n := by
    rw [← hc]
    exact checkedSize_congr fun i hi =>
      (TunnelFrameBuffer.data_of_bytes ((show (TunnelFrameBuffer.mk m given.length).bytes = given from h.bytes).trans
        (frameOf_bytes given).symm)).2 i (show i < given.length by omega)
  cases r with
  | header k io => cases hr
  | body k t io => cases hr
  | returned buf =>
    cases hr
    obtain ⟨rfl, hc'⟩ := h.returned
    obtain rfl : n = given.length := Option.some_inj.1 (hm.symm.trans hc')
    obtain ⟨hcheck, hsize⟩ := (checkedSize_eq_some_iff hge).1 hm
    exact .inl ⟨hge, _, rfl, h.bytes, hcheck, hsize.symm, rfl⟩
  | failed e =>
    cases hr
    have hs := h.stands
    rw [receiveHeader_checked hge hm, receiveBody] at hs
    split at hs
    · cases hs
    · split at hs
      · cases hs
      · cases hs
        obtain ⟨hlen, t, ht, hlt⟩ := h.aborted
        rw [hm] at ht
        cases ht
        exact .inr ⟨hlt, hlen, _, rfl⟩

/-- An exchange whose `receive` aborts does so too, unless it fails to send
first. -/
theorem exchange_aborted (client : Option SessionId) (send : TunnelFrameBuffer → Except Exception Unit) (c : String)
    (buf : TunnelFrameBuffer) :
    ((client ≠ none ∧ ∃ ex, send (ownFrame client buf) = .error ex) ∧
      ∃ ex, initialTunnelFrameExchange client (.given send (.error (.abort c))) = .error (.throw ex)) ∨
    (¬ (client ≠ none ∧ ∃ ex, send (ownFrame client buf) = .error ex)) ∧
      initialTunnelFrameExchange client (.given send (.error (.abort c))) = .error (.abort c) := by
  cases client with
  | none => exact .inr ⟨fun h => h.1 rfl, rfl⟩
  | some sessionId =>
    have hown : initFrame sessionId "RuralPipeClient" = .ok (Side.client.frame sessionId) :=
      (Side.client.frame_ok sessionId).1
    have hrun : initialTunnelFrameExchange (some sessionId) (.given send (.error (.abort c))) =
        (send (Side.client.frame sessionId)).mapError .throw >>= fun _ => .error (.abort c) := by
      simp only [initialTunnelFrameExchange, hown, ok_bind]
      rfl
    rw [hrun]
    cases hs : send (Side.client.frame sessionId) with
    | error ex => exact .inl ⟨⟨by simp, ex, hs⟩, ex, rfl⟩
    | ok u =>
      refine .inr ⟨?_, rfl⟩
      rintro ⟨-, ex, he⟩
      cases hs.symm.trans he

theorem ownFrame_of_bytes (client : Option SessionId) {buf buf' : TunnelFrameBuffer} (hb : buf'.bytes = buf.bytes)
    (hlt : sizeofTunnelFrameHeader < buf.size) : ownFrame client buf' = ownFrame client buf := by
  have hsz := sizes
  cases client with
  | some sessionId => rfl
  | none =>
    have hdata := (TunnelFrameBuffer.data_of_bytes hb).2
    rw [ownFrame, ownFrame, cast_congr fun i hi => hdata i (by omega)]

/-- **The exchange is right about a frame that passes the check when that is an
initial frame, when it asks for a header at least and has no body, or when the
own frame cannot be sent**, by a server after such a frame only; and about no
other frame, in whatever pieces it comes. -/
theorem initial_exchange_iff (S K : Type) [DecidableEq S] [DecidableEq K] (client : Option SessionId)
    (send : TunnelFrameBuffer → Except Exception Unit) {s : TunnelFrameStream}
    {tr : List (Machine.Transition Receiving (IoEvent (List UInt8)))} {x : Receiving}
    (h : (receiving s).Run tr x) (hsm : ∀ t ∈ tr, t.label.Smooth List.length)
    {res : Except Failure TunnelFrameBuffer} (hres : x.receive.outcome = some res)
    {n : Nat} (hcheck : checkedSize (frameOf x.given).data = some n) :
    InitialOnly S K client send x.given res ↔
      (∃ d, (frameOf x.given).Initial d) ∨ (sizeofTunnelFrameHeaderInfo ≤ n ∧ n ≤ sizeofTunnelFrameHeader) ∨
        (∃ ex, send (ownFrame client (frameOf x.given)) = .error ex) ∧
          (client ≠ none ∨ sizeofTunnelFrameHeaderInfo ≤ n) := by
  have hsz := sizes
  -- An exchange that throws is right, but for an initial frame that it should have taken.
  have throws : ∀ {ex}, initialTunnelFrameExchange client (.given send res) = .error (.throw ex) →
      InitialOnly S K client send x.given res := by
    intro ex hex
    refine ⟨fun ier hier => ?_, fun _ => ⟨⟨ex, hex⟩, never_registered hex⟩⟩
    rw [hex] at hier
    cases hier
  rcases (Receiving.at_run h hsm).ended hres hcheck with ⟨hge, buf, rfl, hbytes, hok, hsize, rfl⟩ | ⟨hlt, hlen, c, rfl⟩
  · have hb : buf.bytes = (frameOf x.given).bytes := hbytes.trans (frameOf_bytes _).symm
    have hown : sizeofTunnelFrameHeader < buf.size →
        ownFrame client (frameOf x.given) = ownFrame client buf := ownFrame_of_bytes client hb.symm
    rcases exchange_given client send hok hsize with ⟨hlt, hsent, hex⟩ | ⟨hwhy, ex, hex⟩
    · constructor
      · intro hi
        obtain ⟨d, hd, -⟩ := hi.accepts _ hex
        exact .inl ⟨d, hd⟩
      · rintro (⟨d, hd⟩ | ⟨-, hle⟩ | ⟨⟨ex, he⟩, -⟩)
        · refine ⟨fun ier hier => ⟨d, hd, ?_⟩, fun hno => absurd ⟨d, hd⟩ hno⟩
          rw [hex] at hier
          rw [← Except.ok.inj hier, (hd.of_bytes hb).cString_eq]
        · omega
        · rw [hown hlt, hsent] at he
          cases he
    · refine ⟨fun _ => ?_, fun _ => throws hex⟩
      rcases Nat.lt_or_ge sizeofTunnelFrameHeader buf.size with hlt | hle
      · obtain ⟨ex', he⟩ := hwhy.resolve_left (by omega)
        exact .inr (.inr ⟨⟨ex', by rw [hown hlt, he]⟩, .inr hge⟩)
      · exact .inr (.inl ⟨hge, hle⟩)
  · rcases exchange_aborted client send c (frameOf x.given) with ⟨⟨hc, hsend⟩, ex, hex⟩ | ⟨hno, hex⟩
    · exact ⟨fun _ => .inr (.inr ⟨hsend, .inl hc⟩), fun _ => throws hex⟩
    · have hshort : ¬ ∃ d, (frameOf x.given).Initial d := by
        rintro ⟨d, hd⟩
        have := hd.parses.header
        rw [show (frameOf x.given).size = x.given.length from rfl] at this
        omega
      constructor
      · intro hi
        obtain ⟨⟨ex, he⟩, -⟩ := hi.refuses hshort
        rw [hex] at he
        cases he
      · rintro (hd | ⟨hge, -⟩ | ⟨hsend, hc | hge⟩)
        · exact absurd hd hshort
        · omega
        · exact absurd ⟨hc, hsend⟩ hno
        · omega

/-- A frame comes in two reads, its first six bytes and the others. -/
theorem run_received (s : TunnelFrameStream) {given : List UInt8} (hlt : sizeofTunnelFrameHeaderInfo < given.length)
    (hc : checkedSize (frameOf given).data = some given.length) :
    ∃ tr x buf, (receiving s).Run tr x ∧ (∀ t ∈ tr, t.label.Smooth List.length) ∧ x.given = given ∧
      x.receive.outcome = some (.ok buf) ∧ buf.bytes = given := by
  obtain ⟨m₁, m₂, hfirst, hsecond, hbytes⟩ := receive_whole s (frameOf given) hlt hc
  have hrun := Machine.Run.step (M := receiving s) (.init rfl) ⟨_, _, hfirst, rfl⟩
  have hrun := hrun.step ⟨_, _, hsecond, rfl⟩
  have hpos := sizes
  refine ⟨_, _, _, hrun, ?_, ?_, rfl, hbytes.trans (frameOf_bytes given)⟩
  · simp only [List.nil_append, List.cons_append, List.forall_mem_cons, List.not_mem_nil, false_implies,
      implies_true, and_true, frameOf_bytes]
    exact ⟨show 0 < (given.take _).length by simp; omega, show 0 < (given.drop _).length by simp; omega⟩
  · exact (List.take_append_drop ..).trans (frameOf_bytes given)

/-- The initial frame of an honest client, in two reads of the server. -/
theorem initial_exchange_client : ∃ s tr x res d, (receiving s).Run tr x ∧ x.receive.outcome = some res ∧
    (frameOf x.given).Initial d ∧ identifierOf d = chars Side.client.identifier ∧
    InitialOnly Unit Unit none (fun _ => .ok ()) x.given res := by
  obtain ⟨-, hcl, -, hseq⟩ := Side.client.frame_ok ⟨List.replicate 16 5, rfl⟩
  generalize Side.client.frame ⟨List.replicate 16 5, rfl⟩ = buf at hcl hseq
  have hinit : buf.Initial (chars Side.client.identifier ++ [0]) := by
    refine ⟨hseq, ⟨hcl.header_le, ?_, fun d hd => hcl.small d hd⟩, rfl, by simp⟩
    rw [hcl.size_eq, Nat.add_sub_cancel_left]
    exact hcl.body
  have hcheck := (hcl.of_bytes (frameOf_bytes buf.bytes)).checkedSize
  have hlt : sizeofTunnelFrameHeaderInfo < buf.bytes.length := by
    have hsz := sizes
    have hle := hcl.header_le
    rw [TunnelFrameBuffer.bytes_length]
    omega
  obtain ⟨tr, x, buf', hrun, hsm, hgiven, hres, -⟩ := run_received ⟨⟨"socket", 3⟩, fun _ => 0⟩ hlt hcheck
  rw [← hgiven] at hcheck
  have hinit' := hinit.of_bytes (frameOf_bytes buf.bytes)
  rw [← hgiven] at hinit'
  exact ⟨_, tr, x, _, _, hrun, hres, hinit', by decide,
    (initial_exchange_iff Unit Unit none _ hrun hsm hres hcheck).2 (.inl ⟨_, hinit'⟩)⟩

/-- A frame of three bytes with another sequence number. -/
def threeBytes : List UInt8 := kMagic ++ [1] ++ leBytes 2 163 ++ List.replicate 152 0xEE ++ item [1, 2, 3]

/-- Both sides take it. -/
theorem threeBytes_taken : ∃ tr x res, (receiving ⟨⟨"socket", 3⟩, fun _ => 0⟩).Run tr x ∧
    (∀ t ∈ tr, t.label.Smooth List.length) ∧ x.receive.outcome = some res ∧ x.given = threeBytes ∧
    checkedSize (frameOf threeBytes).data = some 163 ∧
    ¬ InitialOnly Unit Unit (some ⟨List.replicate 16 5, rfl⟩) (fun _ => .ok ()) x.given res ∧
    ¬ InitialOnly Unit Unit none (fun _ => .ok ()) x.given res := by
  have hlength : threeBytes.length = 163 := by decide +kernel
  have hcheck : checkedSize (frameOf threeBytes).data = some 163 := by decide +kernel
  have hcheck' := hcheck
  obtain ⟨tr, x, buf, hrun, hsm, hgiven, hres, hbytes⟩ :=
    run_received ⟨⟨"socket", 3⟩, fun _ => 0⟩ (by rw [hlength]; decide) (hcheck.trans (congrArg some hlength.symm))
  have hsize : buf.size = 163 := by
    rw [← TunnelFrameBuffer.bytes_length, hbytes, hlength]
  have hb : (frameOf threeBytes).bytes = buf.bytes := (frameOf_bytes _).trans hbytes.symm
  have hdata : ∀ i, i < 6 → (frameOf threeBytes).data i = buf.data i := fun i hi =>
    (TunnelFrameBuffer.data_of_bytes hb).2 i (by omega)
  rw [checkedSize_congr hdata] at hcheck
  obtain ⟨hok, hfield⟩ := (checkedSize_eq_some_iff (n := buf.size) (by rw [hsize]; decide)).1 hcheck
  have taken : ∀ client, ¬ InitialOnly Unit Unit client (fun _ => .ok ()) x.given (.ok buf) := by
    intro client h
    rcases exchange_given client (fun _ => .ok ()) hok (hsize.trans hfield.symm) with
      ⟨-, -, hex⟩ | ⟨hle | ⟨ex, he⟩, -⟩
    · obtain ⟨d, hd, -⟩ := h.accepts _ hex
      have hlen := hd.parses.size_eq
      rw [show (frameOf x.given).size = x.given.length from rfl, hgiven, hlength, body_singleton, item_length,
        hd.length] at hlen
      exact absurd hlen (by decide)
    · rw [hsize] at hle
      exact absurd hle (by decide)
    · cases he
  exact ⟨tr, x, _, hrun, hsm, hres, hgiven, hcheck', taken _, taken _⟩

end RuralPipe
