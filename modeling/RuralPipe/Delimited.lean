/-
Self-delimiting frames: sequences whose first `hdr` symbols tell how long
they are.

A concatenation of such frames splits in one way only, whatever follows it
short of another frame (`chunks_flatten`), and a proper prefix of a frame is
never taken for one (`chunks_prefix`). So a reader that first takes a header
and then what the header asks for finds the boundaries the writer put.
-/
import Mathlib.Data.List.Basic

/-- A frame's first `hdr` symbols tell its size, header included. -/
structure Delimited (α : Type*) where
  hdr : Nat
  size : List α → Nat
  hdr_pos : 0 < hdr

namespace Delimited

/-- `f` is as long as its header says. -/
def Whole {α : Type*} (d : Delimited α) (f : List α) : Prop :=
  d.hdr ≤ f.length ∧ d.size (f.take d.hdr) = f.length

/-- Takes whole frames off the front of `bs`, at most `n` of them: the frames
and what is left. -/
def chunksN {α : Type*} (d : Delimited α) : Nat → List α → List (List α) × List α
  | 0, bs => ([], bs)
  | n + 1, bs =>
    let k := d.size (bs.take d.hdr)
    if d.hdr ≤ k ∧ k ≤ bs.length then
      let rest := d.chunksN n (bs.drop k)
      (bs.take k :: rest.1, rest.2)
    else ([], bs)

/-- Takes whole frames off the front of `bs` for as long as there is one. -/
def chunks {α : Type*} (d : Delimited α) (bs : List α) : List (List α) × List α := d.chunksN bs.length bs

/-- `bs` is a concatenation of whole frames. -/
def Joined {α : Type*} (d : Delimited α) (bs : List α) : Prop :=
  ∃ fs : List (List α), (∀ f ∈ fs, d.Whole f) ∧ bs = fs.flatten

/-- A concatenation, around its `k`-th part. -/
theorem flatten_at {α : Type*} {fs : List (List α)} {k : Nat} {f : List α} (h : fs[k]? = some f) :
    fs.flatten = (fs.take k).flatten ++ f ++ (fs.drop (k + 1)).flatten := by
  obtain ⟨hk, rfl⟩ := List.getElem?_eq_some_iff.1 h
  calc fs.flatten = (fs.take k ++ fs[k] :: fs.drop (k + 1)).flatten := by
        rw [← List.drop_eq_getElem_cons hk, List.take_append_drop]
    _ = (fs.take k).flatten ++ fs[k] ++ (fs.drop (k + 1)).flatten := by
        rw [List.flatten_append, List.flatten_cons, List.append_assoc]

variable {α : Type*} {d : Delimited α}

theorem Whole.pos {f : List α} (h : d.Whole f) : 0 < f.length := Nat.lt_of_lt_of_le d.hdr_pos h.1

/-- More fuel than symbols changes nothing. -/
theorem chunksN_eq : ∀ {n m : Nat} {bs : List α}, bs.length ≤ n → bs.length ≤ m →
    d.chunksN n bs = d.chunksN m bs
  | 0, 0, _, _, _ => rfl
  | 0, m + 1, bs, hn, _ => by
    have := d.hdr_pos
    have hno : ¬ (d.hdr ≤ d.size (bs.take d.hdr) ∧ d.size (bs.take d.hdr) ≤ bs.length) := by omega
    simp [chunksN, hno]
  | n + 1, 0, bs, _, hm => by
    have := d.hdr_pos
    have hno : ¬ (d.hdr ≤ d.size (bs.take d.hdr) ∧ d.size (bs.take d.hdr) ≤ bs.length) := by omega
    simp [chunksN, hno]
  | n + 1, m + 1, bs, hn, hm => by
    have := d.hdr_pos
    simp only [chunksN]
    split
    · rename_i hk
      have hl : (bs.drop (d.size (bs.take d.hdr))).length = bs.length - d.size (bs.take d.hdr) :=
        List.length_drop
      rw [chunksN_eq (n := n) (m := m) (by omega) (by omega)]
    · rfl

/-- A whole frame at the front is the first chunk. -/
theorem chunks_append {f : List α} (h : d.Whole f) (bs : List α) :
    d.chunks (f ++ bs) = (f :: (d.chunks bs).1, (d.chunks bs).2) := by
  have hpos := h.pos
  obtain ⟨k, hk⟩ : ∃ k, (f ++ bs).length = k + 1 := ⟨(f ++ bs).length - 1, by simp; omega⟩
  have hsize : d.size ((f ++ bs).take d.hdr) = f.length := by
    rw [List.take_append_of_le_length h.1, h.2]
  have hfits : d.hdr ≤ f.length ∧ f.length ≤ (f ++ bs).length := ⟨h.1, by simp⟩
  rw [chunks, hk, chunksN]
  simp only [hsize, if_pos hfits, List.take_left, List.drop_left]
  rw [chunksN_eq (n := k) (m := bs.length) (by simp at hk; omega) (Nat.le_refl _)]
  rfl

/-- Whole frames at the front are the first chunks. -/
theorem chunks_flatten {fs : List (List α)} (h : ∀ f ∈ fs, d.Whole f) (bs : List α) :
    d.chunks (fs.flatten ++ bs) = (fs ++ (d.chunks bs).1, (d.chunks bs).2) := by
  induction fs with
  | nil => rfl
  | cons f fs ih =>
    rw [List.flatten_cons, List.append_assoc, chunks_append (h f (by simp)),
      ih fun g hg => h g (by simp [hg])]
    rfl

@[simp] theorem chunks_nil : d.chunks ([] : List α) = ([], []) := rfl

theorem chunksN_join : ∀ (n : Nat) (bs : List α),
    bs = (d.chunksN n bs).1.flatten ++ (d.chunksN n bs).2 ∧ ∀ f ∈ (d.chunksN n bs).1, d.Whole f
  | 0, bs => by simp [chunksN]
  | n + 1, bs => by
    simp only [chunksN]
    split
    · rename_i hk
      obtain ⟨hj, hw⟩ := chunksN_join n (bs.drop (d.size (bs.take d.hdr)))
      refine ⟨?_, ?_⟩
      · rw [List.flatten_cons, List.append_assoc, ← hj, List.take_append_drop]
      · intro f hf
        rcases List.mem_cons.1 hf with rfl | hf
        · refine ⟨by simp only [List.length_take]; omega, ?_⟩
          rw [List.take_take, Nat.min_eq_left hk.1, List.length_take, Nat.min_eq_left hk.2]
        · exact hw f hf
    · simp

/-- The chunks and what is left make up the sequence. -/
theorem chunks_join (bs : List α) : bs = (d.chunks bs).1.flatten ++ (d.chunks bs).2 :=
  (chunksN_join _ bs).1

theorem chunks_whole {bs f : List α} (h : f ∈ (d.chunks bs).1) : d.Whole f := (chunksN_join _ bs).2 f h

/-- Two concatenations begin with the same frames. -/
theorem flatten_prefix {fs gs : List (List α)} (hf : ∀ f ∈ fs, d.Whole f) (hg : ∀ g ∈ gs, d.Whole g) {rest : List α}
    (h : fs.flatten ++ rest = gs.flatten) : ∃ gs', gs = fs ++ gs' ∧ rest = gs'.flatten := by
  have hfs := chunks_flatten hf rest
  have hgs := chunks_flatten hg []
  rw [List.append_nil, chunks_nil, List.append_nil, ← h, hfs] at hgs
  obtain ⟨hfst, hsnd⟩ := Prod.mk.inj hgs
  have hrest := chunks_join (d := d) rest
  rw [hsnd, List.append_nil] at hrest
  exact ⟨(d.chunks rest).1, hfst.symm, hrest⟩

/-- The beginning of a frame is no frame. -/
theorem chunks_prefix {f bs : List α} (h : d.Whole f) (hp : bs <+: f) (hne : bs ≠ f) : d.chunks bs = ([], bs) := by
  have hjoin := chunks_join (d := d) bs
  have hnil : (d.chunks bs).1 = [] := by
    obtain ⟨more, hmore⟩ := hp
    have hf : (d.chunks bs).1.flatten ++ ((d.chunks bs).2 ++ more) = [f].flatten := by
      rw [← List.append_assoc, ← hjoin, hmore]
      simp
    obtain ⟨gs, hgs, -⟩ := flatten_prefix (fun _ hg => chunks_whole hg) (by simpa using h) hf
    rcases List.append_eq_singleton_iff.1 hgs.symm with ⟨h₁, -⟩ | ⟨h₁, -⟩
    · exact h₁
    · -- It would be all of the frame.
      rw [h₁] at hjoin
      have hlen := congrArg List.length hjoin
      have hlen' := congrArg List.length hmore
      simp only [List.flatten_singleton, List.length_append] at hlen hlen'
      have hmore' : more = [] := List.eq_nil_of_length_eq_zero (by omega)
      exact absurd (by rw [← hmore, hmore', List.append_nil]) hne
  rw [hnil, List.flatten_nil, List.nil_append] at hjoin
  exact Prod.ext hnil hjoin.symm

/-- A sequence is a concatenation of whole frames exactly when the split
leaves nothing. -/
theorem joined_iff {bs : List α} : d.Joined bs ↔ (d.chunks bs).2 = [] := by
  constructor
  · rintro ⟨fs, hw, rfl⟩
    have := chunks_flatten hw []
    rw [List.append_nil] at this
    rw [this]
    rfl
  · intro h
    refine ⟨(d.chunks bs).1, fun f hf => chunks_whole hf, ?_⟩
    have := chunks_join (d := d) bs
    rwa [h, List.append_nil] at this

instance (bs : List α) [DecidableEq α] : Decidable (d.Joined bs) := decidable_of_iff _ joined_iff.symm

theorem Joined.nil : d.Joined ([] : List α) := ⟨[], by simp, rfl⟩

theorem Joined.append_whole {f bs : List α} (hf : d.Whole f) (h : d.Joined bs) : d.Joined (f ++ bs) := by
  obtain ⟨fs, hw, rfl⟩ := h
  exact ⟨f :: fs, by simpa using ⟨hf, hw⟩, by simp⟩

end Delimited
