/-
Which frames the receiving side takes: the header check, and the reader's walk
over a body.

The check looks at one of the three magic bytes (`passes_iff`), so it is exact
on the buffers whose other two are right or that it refuses anyway
(`check_exact_iff`). The reader's walk is exact: it ends without an exception
on the concatenations of items and on nothing else (`reader_grammar`), although
it finds the end one step late. A call that returns true moves the cursor by a
separator at least, which bounds the walk (`Ends.bound`), and a cursor past the
end stays there (`call_throws_again`).
-/
import RuralPipe.Exposure

namespace RuralPipe

open Bytes

/-! ## The header -/

namespace TunnelFrameBuffer

/-- A valid header: its magic is `RPI`, its version one, and its size within
the maximum. -/
structure ValidHeader (buf : TunnelFrameBuffer) : Prop where
  whole : sizeofTunnelFrameHeaderInfo ≤ buf.size
  magic : load buf.data 0 3 = kMagic
  version : (buf.data 3).toNat % 4 = kVersion
  size_max : ofLe (load buf.data 4 2) ≤ kTunnelFrameMaxSize

/-- The check returns. -/
def Passes (buf : TunnelFrameBuffer) : Prop := ∃ hdr, TunnelFrameHeaderInfo.check buf = .ok hdr

/-- One of the three magic bytes is another one. -/
def OtherMagic (buf : TunnelFrameBuffer) : Prop := ∃ i < 3, some (buf.data i) ≠ kMagic[i]?

/-- The check takes the valid headers and no others, so what a writer closed
passes, and nothing does with another magic. -/
structure CheckExact (buf : TunnelFrameBuffer) : Prop where
  exact : buf.Passes ↔ buf.ValidHeader
  fromWriter : buf.FromWriter → buf.Passes
  otherMagic : buf.OtherMagic → ¬ buf.Passes

variable {buf : TunnelFrameBuffer}

theorem load_magic (m : Mem) : load m 0 3 = [m 0, m 1, m 2] := rfl

/-- Of the magic the check looks at the first byte. -/
theorem passes_iff : buf.Passes ↔ sizeofTunnelFrameHeaderInfo ≤ buf.size ∧ buf.data 0 = 'R'.toUInt8 ∧
    (buf.data 3).toNat % 4 = kVersion ∧ ofLe (load buf.data 4 2) ≤ kTunnelFrameMaxSize := by
  have hfirst : memcmp (TunnelFrameHeader.cast buf.data).magic kMagic memcmpSize = false ↔
      buf.data 0 = 'R'.toUInt8 := by
    have htake : kMagic.take memcmpSize = ['R'.toUInt8] := rfl
    simp only [memcmp, TunnelFrameHeader.cast, load_magic, htake]
    simp [memcmpSize, kMagic]
  constructor
  · intro h
    obtain ⟨hdr, h⟩ := h
    obtain ⟨rfl, hsize, hmagic, hversion, hmax⟩ := check_eq_ok_iff.1 h
    exact ⟨hsize, hfirst.1 hmagic, hversion, hmax⟩
  · intro h
    obtain ⟨hsize, hmagic, hversion, hmax⟩ := h
    exact ⟨_, check_eq_ok_iff.2 ⟨rfl, hsize, hfirst.2 hmagic, hversion, hmax⟩⟩

theorem magic_iff : load buf.data 0 3 = kMagic ↔
    buf.data 0 = 'R'.toUInt8 ∧ buf.data 1 = 'P'.toUInt8 ∧ buf.data 2 = 'I'.toUInt8 := by
  rw [load_magic]
  simp [kMagic]

theorem otherMagic_iff : buf.OtherMagic ↔ load buf.data 0 3 ≠ kMagic := by
  rw [Ne, magic_iff]
  constructor
  · intro hex hall
    obtain ⟨i, hi, hne⟩ := hex
    obtain ⟨h₀, h₁, h₂⟩ := hall
    obtain rfl | rfl | rfl : i = 0 ∨ i = 1 ∨ i = 2 := by omega
    · exact hne (by rw [h₀]; rfl)
    · exact hne (by rw [h₁]; rfl)
    · exact hne (by rw [h₂]; rfl)
  · intro h
    by_contra hno
    have heq : ∀ i < 3, some (buf.data i) = kMagic[i]? := fun i hi => by
      by_contra hne
      exact hno ⟨i, hi, hne⟩
    exact h ⟨Option.some_inj.1 (heq 0 (by omega)), Option.some_inj.1 (heq 1 (by omega)),
      Option.some_inj.1 (heq 2 (by omega))⟩

/-- **The header check is exact on a buffer when its second and third bytes
are `P` and `I`, or when one of the other tests refuses it**, and on no other
buffer. -/
theorem check_exact_iff (buf : TunnelFrameBuffer) : buf.CheckExact ↔
    (buf.data 1 = 'P'.toUInt8 ∧ buf.data 2 = 'I'.toUInt8) ∨ buf.size < sizeofTunnelFrameHeaderInfo ∨
      buf.data 0 ≠ 'R'.toUInt8 ∨ (buf.data 3).toNat % 4 ≠ kVersion ∨
      kTunnelFrameMaxSize < ofLe (load buf.data 4 2) := by
  constructor
  · intro h
    by_contra hno
    simp only [not_or, Nat.not_lt, not_not] at hno
    obtain ⟨hrest, hsize, hfirst, hversion, hmax⟩ := hno
    have hpass := passes_iff.2 ⟨hsize, hfirst, hversion, hmax⟩
    exact hrest (magic_iff.1 (h.exact.1 hpass).magic).2
  · intro h
    have hvalid : buf.Passes → buf.ValidHeader := by
      intro hp
      obtain ⟨hsize, hfirst, hversion, hmax⟩ := passes_iff.1 hp
      rcases h with hrest | h | h | h | h
      · exact ⟨hsize, magic_iff.2 ⟨hfirst, hrest⟩, hversion, hmax⟩
      · omega
      · exact absurd hfirst h
      · exact absurd hversion h
      · omega
    refine ⟨⟨hvalid, fun hv => passes_iff.2 ⟨hv.whole, (magic_iff.1 hv.magic).1, hv.version, hv.size_max⟩⟩,
      fun hw => ?_, fun ho hp => otherMagic_iff.1 ho (hvalid hp).magic⟩
    obtain ⟨ds, hc⟩ := hw.closed
    exact ⟨_, hc.check⟩

/-- A header of version one and size 158 with the magic `RXX`. -/
def withMagicRXX : TunnelFrameBuffer :=
  ⟨store (fun _ => 0) 0 (['R'.toUInt8, 'X'.toUInt8, 'X'.toUInt8, 1] ++ leBytes 2 158), 158⟩

/-- It passes. -/
theorem withMagicRXX_not_exact : ¬ withMagicRXX.CheckExact := by
  intro h
  have hpass : withMagicRXX.Passes := passes_iff.2 ⟨by decide, by decide, by decide, by decide⟩
  exact absurd (h.exact.1 hpass).magic (by decide)

end TunnelFrameBuffer

/-! ## The body -/

/-- A whole item is the item of what follows its separator. -/
theorem item_of_whole {f : List UInt8} (h : items.Whole f) :
    f = item (f.drop 2) ∧ (f.drop 2).length < 65536 := by
  obtain ⟨hlen, hsize⟩ := h
  have hlen : 2 ≤ f.length := hlen
  have hsize : 2 + ofLe (f.take 2) = f.length := hsize
  have htake : (f.take 2).length = 2 := by rw [List.length_take]; omega
  have hsep : leBytes 2 (f.drop 2).length = f.take 2 := by
    have hofLe : (f.drop 2).length = ofLe (f.take 2) := by rw [List.length_drop]; omega
    have hbytes := leBytes_ofLe (f.take 2)
    rwa [htake, ← hofLe] at hbytes
  refine ⟨by rw [item, hsep, List.take_append_drop], ?_⟩
  have hread := ofLe_leBytes 2 (f.drop 2).length
  rw [hsep] at hread
  rw [List.length_drop] at hread ⊢
  omega

/-- A frame with a whole header whose body is the items of the datagrams `ds`. -/
structure TunnelFrameBuffer.Parses (buf : TunnelFrameBuffer) (ds : List (List UInt8)) : Prop where
  header : sizeofTunnelFrameHeader ≤ buf.size
  body : load buf.data sizeofTunnelFrameHeader (buf.size - sizeofTunnelFrameHeader) = body ds
  small : ∀ d ∈ ds, d.length < 65536

namespace TunnelFrameBuffer

variable {buf : TunnelFrameBuffer} {ds es : List (List UInt8)}

/-- A body is the items of one list of datagrams only. -/
theorem Parses.unique (h : buf.Parses ds) (h' : buf.Parses es) : es = ds := by
  rw [← datagrams_body h.small, ← datagrams_body h'.small, ← h.body, ← h'.body]

theorem Parses.size_eq (h : buf.Parses ds) : buf.size = sizeofTunnelFrameHeader + (RuralPipe.body ds).length := by
  have hlen := congrArg List.length h.body
  have hle := h.header
  rw [load_length] at hlen
  omega

theorem parses_iff_joined : (∃ ds, buf.Parses ds) ↔ sizeofTunnelFrameHeader ≤ buf.size ∧
    items.Joined (load buf.data sizeofTunnelFrameHeader (buf.size - sizeofTunnelFrameHeader)) := by
  constructor
  · intro h
    obtain ⟨ds, h⟩ := h
    refine ⟨h.header, ds.map item, fun f hf => ?_, h.body⟩
    obtain ⟨d, hd, rfl⟩ := List.mem_map.1 hf
    exact item_whole (h.small d hd)
  · intro h
    obtain ⟨hle, fs, hw, hfs⟩ := h
    have hitems : (fs.map (·.drop 2)).map item = fs := by
      rw [List.map_map]
      exact (List.map_congr_left fun f hf => (item_of_whole (hw f hf)).1.symm).trans (List.map_id fs)
    refine ⟨fs.map (·.drop 2), hle, by rw [RuralPipe.body, hitems, hfs], fun d hd => ?_⟩
    obtain ⟨f, hf, rfl⟩ := List.mem_map.1 hd
    exact (item_of_whole (hw f hf)).2

/-- A fresh writer with enough room gives the frame's body back. -/
theorem Parses.rewrite (h : buf.Parses ds) {room : TunnelFrameBuffer} (hmin : kTunnelFrameMinSize ≤ room.size)
    (hmax : room.size ≤ kTunnelFrameMaxSize) (hroom : buf.size ≤ room.size) :
    ∃ w w', TunnelFrameWriter.new room = .ok w ∧ WriterOp.runAll w (ds.map .append) = .ok w' ∧
      w'.close.buffer.size = buf.size ∧
      load w'.close.buffer.data sizeofTunnelFrameHeader (buf.size - sizeofTunnelFrameHeader) =
        load buf.data sizeofTunnelFrameHeader (buf.size - sizeofTunnelFrameHeader) := by
  obtain ⟨w, hnew, hw, hstop, -⟩ := TunnelFrameWriter.new_holds room hmin hmax
  have happ : WriterOp.appended (ds.map .append) = ds := by
    clear h
    induction ds with
    | nil => rfl
    | cons d ds ih => rw [List.map_cons, WriterOp.appended, ih]
  have hsize := h.size_eq
  have hcur := hw.current
  rw [body_nil, List.length_nil] at hcur
  obtain ⟨w', hrun, hh, -⟩ := WriterOp.runAll_ok (ds.map .append) hw (by rw [happ]; omega)
  rw [happ, List.nil_append] at hh
  have hclosed := hh.close
  have hlen : buf.size - sizeofTunnelFrameHeader = (RuralPipe.body ds).length := by omega
  refine ⟨w, w', hnew, hrun, by rw [hclosed.size_eq, hsize], ?_⟩
  rw [h.body, hlen]
  exact hclosed.body

end TunnelFrameBuffer

/-! ## The walk -/

namespace TunnelFrameReader

def badlyFormatted : Failure := .throw ⟨.exception, "Badly formatted frame"⟩

/-- The walk over the frame ends with the call `k`: all before it returned
true. -/
structure Ends (r : TunnelFrameReader) (k : Nat) : Prop where
  before : ∀ j < k, r.call j = .ok true
  last : r.call k ≠ .ok true

variable {r : TunnelFrameReader} {k j : Nat}

theorem call_throws_iff : r.call k = .error badlyFormatted ↔ r.stop < (r.after (k + 1)).current := by
  rw [call, next_fst, ← after_succ, after_stop]
  split
  · simpa [badlyFormatted]
  · constructor
    · intro h; cases h
    · intro h; omega

theorem call_cases (r : TunnelFrameReader) (k : Nat) :
    r.call k = .ok true ∨ r.call k = .ok false ∨ r.call k = .error badlyFormatted := by
  rw [call_true_iff, call_false_iff, call_throws_iff]
  omega

section
variable (h₀ : r.current = 0)
include h₀

/-- A cursor at the end or past it stays where it is. -/
theorem after_stays (h : r.stop ≤ (r.after (k + 1)).current) (hj : k ≤ j) : r.after (j + 1) = r.after (k + 1) := by
  have hsz := sizes
  obtain ⟨n, rfl⟩ := Nat.exists_eq_add_of_le hj
  induction n with
  | zero => rfl
  | succ n ih =>
    have hge := header_le_after h₀ (k + n)
    have hstay := ih (Nat.le_add_right k n)
    rw [← Nat.add_assoc k n 1, after_succ, advance_end (by omega) (by rw [after_stop, hstay]; exact h), hstay]

theorem call_throws_again (h : r.call k = .error badlyFormatted) (hj : k ≤ j) : r.call j = .error badlyFormatted := by
  have hlt := call_throws_iff.1 h
  rw [call_throws_iff, after_stays h₀ (Nat.le_of_lt hlt) hj]
  exact hlt

theorem call_false_again (h : r.call k = .ok false) (hj : k ≤ j) : r.call j = .ok false := by
  have heq := call_false_iff.1 h
  rw [call_false_iff, after_stays h₀ (Nat.le_of_eq heq.symm) hj]
  exact heq

/-- Every call that returned true moved the cursor past a separator. -/
theorem after_ge (h : ∀ j < k, r.call j = .ok true) : sizeofTunnelFrameHeader + 2 * k ≤ (r.after (k + 1)).current := by
  have hsz := sizes
  induction k with
  | zero =>
    rw [after_succ]
    exact Nat.le_of_eq (advance_start h₀).symm
  | succ k ih =>
    have hge := ih fun j hj => h j (Nat.lt_succ_of_lt hj)
    have hin := call_true_iff.1 (h k (Nat.lt_succ_self k))
    rw [after_succ, advance_inside (by omega) (by rw [after_stop]; exact hin)]
    omega

/-- So the walk is short. -/
theorem Ends.bound (h : r.Ends k) : k + 1 ≤ (r.stop - sizeofTunnelFrameHeader) / 2 + 2 := by
  cases k with
  | zero => omega
  | succ k =>
    have hge := after_ge h₀ fun j hj => h.before j (Nat.lt_succ_of_lt hj)
    have hin := call_true_iff.1 (h.before k (Nat.lt_succ_self k))
    omega

theorem exists_ends : ∃ k, r.Ends k := by
  by_contra hno
  have htrue : ∀ k, r.call k = .ok true := by
    intro k
    induction k using Nat.strongRecOn with
    | ind k ih =>
      by_contra hk
      exact hno ⟨k, ih, hk⟩
  have hge := after_ge h₀ (k := r.stop) fun j _ => htrue j
  have hin := call_true_iff.1 (htrue r.stop)
  omega

/-- A walk that ends without an exception saw nothing outside its frame. -/
theorem contained_of_ends {buf : TunnelFrameBuffer} (hsize : buf.size = r.stop) (h : r.Ends k)
    (hf : r.call k = .ok false) : Contained buf r := by
  have hsz := sizes
  intro j hj
  have hjk : j < k := by
    by_contra hle
    rw [call_false_again h₀ hf (Nat.le_of_not_lt hle)] at hj
    cases hj
  have hin := call_true_iff.1 hj
  have hge := header_le_after h₀ j
  have hnext : (r.after (j + 1 + 1)).current = (r.after (j + 1)).current + (2 + (r.after (j + 1)).size) := by
    rw [after_succ]
    exact advance_inside (by omega) (by rw [after_stop]; exact hin)
  have hle : (r.after (j + 1 + 1)).current ≤ r.stop := by
    by_contra hgt
    have hthrows := call_throws_iff.2 (Nat.lt_of_not_le hgt)
    rcases Nat.lt_or_eq_of_le (Nat.succ_le_of_lt hjk) with hlt | heq
    · rw [h.before (j + 1) hlt] at hthrows
      cases hthrows
    · rw [show j + 1 = k from heq, hf] at hthrows
      cases hthrows
  rw [dataOffset, hsize, Nat.min_self]
  omega

end

end TunnelFrameReader

open TunnelFrameReader

/-- A walk that ends without an exception went over the items of datagrams. -/
theorem parses_of_ends {buf : TunnelFrameBuffer} {r : TunnelFrameReader} {k : Nat} (hnew : new buf = .ok r)
    (hsize : buf.size = r.stop) (h : r.Ends k) (hf : r.call k = .ok false) : ∃ ds, buf.Parses ds := by
  obtain ⟨hr, -⟩ := new_eq_ok hnew
  have h₀ : r.current = 0 := by rw [hr]
  have hge := header_le_after h₀ k
  have hat := call_false_iff.1 hf
  refine TunnelFrameBuffer.parses_iff_joined.2 ⟨by omega, ?_⟩
  rcases (contained_iff hnew).1 (contained_of_ends h₀ hsize h hf) with hle | ⟨-, hj⟩
  · have hz : buf.size - sizeofTunnelFrameHeader = 0 := by omega
    rw [hz, load_zero]
    exact .nil
  · rwa [hsize]

/-- The walk over the items of datagrams yields these. -/
theorem TunnelFrameBuffer.Parses.yields {buf : TunnelFrameBuffer} {ds : List (List UInt8)} {r : TunnelFrameReader}
    (h : buf.Parses ds) (hnew : new buf = .ok r) (hsize : buf.size = r.stop) :
    (∀ k d, ds[k]? = some d →
      r.call k = .ok true ∧ (r.after (k + 1)).size = d.length ∧ (r.after (k + 1)).datagram = d) ∧
    ∀ k, ds.length ≤ k → r.call k = .ok false := by
  obtain ⟨hr, -⟩ := new_eq_ok hnew
  have h₀ : r.current = 0 := by rw [hr]
  have hdata : r.data = buf.data := by rw [hr]
  have hw : ∀ f ∈ ds.map item, items.Whole f := by
    intro f hf
    obtain ⟨d, hd, rfl⟩ := List.mem_map.1 hf
    exact item_whole (h.small d hd)
  have hlen := h.size_eq
  have hbody : load r.data sizeofTunnelFrameHeader (RuralPipe.body ds).length = RuralPipe.body ds := by
    have hb := h.body
    rwa [show buf.size - sizeofTunnelFrameHeader = (RuralPipe.body ds).length by omega, ← hdata] at hb
  refine ⟨fun k d hd => ?_, fun k hk => ?_⟩
  · have hf : (ds.map item)[k]? = some (item d) := by rw [List.getElem?_map, hd]; rfl
    obtain ⟨ht, hs, hg, -⟩ := call_item hw h₀ hbody (hsize.symm.trans hlen) hf
    rw [item_length] at hs
    exact ⟨ht, by omega, hg.trans (List.drop_left' (leBytes_length 2 _))⟩
  · exact (call_end hw h₀ hbody (hsize.symm.trans hlen) (by simpa using hk)).2

/-- **The reader accepts exactly the frame grammar.** Over a buffer that the
constructor takes and that is as long as its header says, whatever follows it in
memory: calling `next` until it returns false ends without an exception exactly
when the body is the items of some datagrams. There is then one such list; it is
what the calls yield, every call after it returns false, and a fresh writer gives
the same body for it. Otherwise some call throws, and so does every later one.
The walk ends within the calls that the frame's length allows. -/
theorem reader_grammar {buf : TunnelFrameBuffer} {r : TunnelFrameReader} (hnew : new buf = .ok r)
    (hsize : buf.size = r.header.size) :
    ((∃ k, (∀ j < k, r.call j = .ok true) ∧ r.call k = .ok false) ↔ ∃ ds, buf.Parses ds) ∧
    (∀ ds, buf.Parses ds →
      (∀ es, buf.Parses es → es = ds) ∧
      (∀ k d, ds[k]? = some d →
        r.call k = .ok true ∧ (r.after (k + 1)).size = d.length ∧ (r.after (k + 1)).datagram = d) ∧
      (∀ k, ds.length ≤ k → r.call k = .ok false) ∧
      ∀ room : TunnelFrameBuffer, kTunnelFrameMinSize ≤ room.size → room.size ≤ kTunnelFrameMaxSize →
        buf.size ≤ room.size →
        ∃ w w', TunnelFrameWriter.new room = .ok w ∧ WriterOp.runAll w (ds.map .append) = .ok w' ∧
          w'.close.buffer.size = buf.size ∧
          load w'.close.buffer.data sizeofTunnelFrameHeader (buf.size - sizeofTunnelFrameHeader) =
            load buf.data sizeofTunnelFrameHeader (buf.size - sizeofTunnelFrameHeader)) ∧
    ((¬ ∃ ds, buf.Parses ds) →
      ∃ k, (∀ j < k, r.call j = .ok true) ∧
        ∀ j, k ≤ j → r.call j = .error (.throw ⟨.exception, "Badly formatted frame"⟩)) ∧
    ∃ k, k + 1 ≤ (buf.size - sizeofTunnelFrameHeader) / 2 + 2 ∧ (∀ j < k, r.call j = .ok true) ∧
      r.call k ≠ .ok true := by
  obtain ⟨hr, -⟩ := new_eq_ok hnew
  have h₀ : r.current = 0 := by rw [hr]
  have hstop : buf.size = r.stop := by rw [hsize, hr]; rfl
  obtain ⟨k, hends⟩ := exists_ends h₀
  refine ⟨⟨?_, ?_⟩, fun ds hp => ?_, fun hno => ?_, k, ?_, hends.before, hends.last⟩
  · intro h
    obtain ⟨k', hbefore, hf⟩ := h
    exact parses_of_ends hnew hstop ⟨hbefore, by rw [hf]; simp⟩ hf
  · intro h
    obtain ⟨ds, hp⟩ := h
    obtain ⟨hyields, hend⟩ := hp.yields hnew hstop
    exact ⟨ds.length, fun j hj => (hyields j _ (List.getElem?_eq_getElem hj)).1, hend _ (Nat.le_refl _)⟩
  · obtain ⟨hyields, hend⟩ := hp.yields hnew hstop
    exact ⟨fun es hes => hp.unique hes, hyields, hend, fun room hmin hmax hroom => hp.rewrite hmin hmax hroom⟩
  · rcases call_cases r k with ht | hf | hthrows
    · exact absurd ht hends.last
    · exact absurd (parses_of_ends hnew hstop hends hf) hno
    · exact ⟨k, hends.before, fun j hj => call_throws_again h₀ hthrows hj⟩
  · rw [hstop]
    exact hends.bound h₀

/-- A frame of two datagrams, one of them empty. -/
theorem reader_grammar_two : ∃ buf r, TunnelFrameReader.new buf = .ok r ∧ r.call 0 = .ok true ∧ r.call 1 = .ok true ∧
    (r.after 1).datagram = [7] ∧ (r.after 2).datagram = [] ∧ r.call 2 = .ok false := by
  let buf : TunnelFrameBuffer :=
    ⟨store (store (fun _ => 0xEE) 0 (kMagic ++ [1] ++ leBytes 2 163)) 158 (body [[7], []]), 163⟩
  have hnew : TunnelFrameReader.new buf = .ok ⟨buf.data, (TunnelFrameHeader.cast buf.data).size, 0⟩ := rfl
  obtain ⟨-, hall, -⟩ := reader_grammar hnew rfl
  have hp : buf.Parses [[7], []] := ⟨by decide, by decide +kernel, by decide⟩
  obtain ⟨-, hyields, hend, -⟩ := hall _ hp
  exact ⟨buf, _, hnew, (hyields 0 [7] rfl).1, (hyields 1 [] rfl).1, (hyields 0 [7] rfl).2.2, (hyields 1 [] rfl).2.2,
    hend 2 (Nat.le_refl 2)⟩

end RuralPipe
