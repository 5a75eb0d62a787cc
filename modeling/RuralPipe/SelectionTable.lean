/-
The table `its` of the selection in `onTunnelFrameFromPrev`.

The loop stores the streams it finds busy, up to the first free one
(`selectionLoop_eq`), and reads element zero when it found none. The table is
requested with as many bytes as there are streams, not as many elements, so what
is stored lies inside it only while the busy streams before the first free one
take no more bytes than that (`table_fits_iff`).
-/
import RuralPipe.SessionTable

namespace RuralPipe

variable {K : Type}

/-- The selection loop from index `i` on: the stream it returns, and the
elements it has stored, each with its index. -/
def selectionLoop (inUse : K → Bool) (i : Nat) : List K → Option K × List (K × Nat)
  | [] => (none, [])
  | it :: streams =>
    if !inUse it then (some it, [])
    else
      let rest := selectionLoop inUse (i + 1) streams
      (rest.1, (it, i) :: rest.2)

/-- The loop stops at the first free stream and stores those before it. -/
theorem selectionLoop_eq (inUse : K → Bool) (i : Nat) (streams : List K) :
    selectionLoop inUse i streams = (streams.find? fun k => !inUse k, (streams.takeWhile inUse).zipIdx i) := by
  induction streams generalizing i with
  | nil => rfl
  | cons k streams ih =>
    rw [selectionLoop]
    cases hk : inUse k with
    | false => simp [hk]
    | true => simp [hk, ih]

namespace SessionsMap

variable [DecidableEq K]

/-- The loop over a session's streams. -/
def selection (m : SessionsMap K) (session : Session K) : Option K × List (K × Nat) :=
  selectionLoop (fun k => (m.trackers k).inUse) 0 session.streams

/-- `alloca(session.streams.size())`. -/
def tableBytes (session : Session K) : Nat := session.streams.length

/-- The streams that the loop passes over. -/
def busyFirst (m : SessionsMap K) (session : Session K) : List K :=
  session.streams.takeWhile fun k => (m.trackers k).inUse

/-- With elements of `w` bytes, every element stored lies inside the table, and
element zero, which a sender that found no stream waits for, is one of them. -/
structure TableFits (w : Nat) (m : SessionsMap K) (session : Session K) : Prop where
  inside : ∀ st i, (st, i) ∈ (m.selection session).2 → (i + 1) * w ≤ tableBytes session
  stored : (m.selection session).1 = none → ∃ st, (st, 0) ∈ (m.selection session).2 ∧
    (m.sessions = [session] → ∀ buf, ∃ m' buf', m.select buf = .wait m' session.obj buf' st)

/-- **The table is large enough for a session with streams exactly when the busy
ones before its first free one take no more bytes than it has streams.** -/
theorem table_fits_iff (w : Nat) (m : SessionsMap K) {session : Session K} (h : session.streams ≠ []) :
    TableFits w m session ↔ (m.busyFirst session).length * w ≤ session.streams.length := by
  have hsel : (m.selection session).2 = (m.busyFirst session).zipIdx := by
    rw [selection, selectionLoop_eq, busyFirst]
  constructor
  · intro hfits
    rcases Nat.eq_zero_or_pos (m.busyFirst session).length with hz | hpos
    · rw [hz, Nat.zero_mul]
      exact Nat.zero_le _
    · -- The last element stored.
      have hlt : (m.busyFirst session).length - 1 < (m.busyFirst session).length := by omega
      have hlast := hfits.inside ((m.busyFirst session)[(m.busyFirst session).length - 1])
        ((m.busyFirst session).length - 1) (by rw [hsel, List.mk_mem_zipIdx_iff_getElem?, List.getElem?_eq_getElem hlt])
      rwa [Nat.sub_add_cancel hpos] at hlast
  · intro hle
    refine ⟨fun st i hi => ?_, fun hnone => ?_⟩
    · rw [hsel] at hi
      have hlt : i < (m.busyFirst session).length := by
        have := List.snd_lt_of_mem_zipIdx hi
        omega
      exact Nat.le_trans (Nat.mul_le_mul_right w hlt) hle
    · have hfind : session.streams.find? (fun k => !(m.trackers k).inUse) = none := by
        rwa [selection, selectionLoop_eq] at hnone
      obtain ⟨st, streams, hst⟩ := List.exists_cons_of_ne_nil h
      have hbusy : (m.trackers st).inUse = true := by
        have := List.find?_eq_none.1 hfind st (by rw [hst]; exact List.mem_cons_self)
        simpa using this
      rw [hst] at hfind
      refine ⟨st, ?_, fun hs buf => ?_⟩
      · rw [hsel, List.mk_mem_zipIdx_iff_getElem?, busyFirst, hst, List.takeWhile_cons, if_pos hbusy]
        rfl
      · simp only [select, hs, hfind, hst]
        exact ⟨_, _, rfl⟩

/-- A session of `n` streams, the first `busy` of them in use. -/
def busySession (n busy : Nat) : SessionsMap Nat × Session Nat :=
  let session : Session Nat :=
    { obj := 0, sessionId := ⟨List.replicate 16 0, rfl⟩, nextSeqNum := 1, streams := List.range n }
  ({ sessions := [session], created := 1,
     trackers := fun k =>
       { stream := ⟨⟨"", 7⟩, fun _ => 0⟩, inUse := k < busy, bytesSending := 0, bytesSent := 0 } }, session)

/-- Eight streams, one of them busy, and elements of eight bytes. -/
theorem table_fits_eight : TableFits 8 (busySession 8 1).1 (busySession 8 1).2 :=
  (table_fits_iff 8 (busySession 8 1).1 (by decide)).2 (by decide)

/-- One busy stream: the table has one byte, and the element stored takes eight. -/
theorem table_overrun_one : ((⟨0, 0⟩ : Nat × Nat) ∈ ((busySession 1 1).1.selection (busySession 1 1).2).2) ∧
    tableBytes (busySession 1 1).2 = 1 ∧ ¬ TableFits 8 (busySession 1 1).1 (busySession 1 1).2 := by
  have hmem : ((0, 0) : Nat × Nat) ∈ ((busySession 1 1).1.selection (busySession 1 1).2).2 := by decide
  refine ⟨hmem, rfl, fun h => ?_⟩
  exact absurd (h.inside 0 0 hmem) (by decide)

end SessionsMap

end RuralPipe
