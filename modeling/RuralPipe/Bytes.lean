/-
Byte memory and little-endian numbers.

A `Mem` is the memory from a pointer on, with no end: what a program may
touch of it is said by the program. `load` reads a range, `store` overwrites
one. A load of a range just stored gives the stored bytes back, and a load of
a range apart from it does not see the store.
-/
import Mathlib.Algebra.Group.Nat.Defs
import Mathlib.Data.List.Basic

namespace Bytes

/-- The memory from a pointer on. -/
abbrev Mem := Nat → UInt8

/-- The `n` bytes at `off`. -/
def load (m : Mem) (off n : Nat) : List UInt8 := (List.range n).map fun i => m (off + i)

/-- The memory with `bs` written at `off`. -/
def store (m : Mem) (off : Nat) (bs : List UInt8) : Mem := fun i =>
  if off ≤ i then (bs[i - off]?).getD (m i) else m i

@[simp] theorem load_length (m : Mem) (off n : Nat) : (load m off n).length = n := by simp [load]

@[simp] theorem load_zero (m : Mem) (off : Nat) : load m off 0 = [] := rfl

theorem load_getElem {m : Mem} {off n i : Nat} (h : i < (load m off n).length) :
    (load m off n)[i] = m (off + i) := by simp [load]

theorem load_congr {m m' : Mem} {off n : Nat} (h : ∀ i, off ≤ i → i < off + n → m i = m' i) :
    load m off n = load m' off n := by
  refine List.ext_getElem (by simp) fun i h₁ h₂ => ?_
  rw [load_getElem, load_getElem]
  rw [load_length] at h₁
  exact h _ (by omega) (by omega)

/-- A range is its first `a` bytes, then the rest. -/
theorem load_add (m : Mem) (off a b : Nat) : load m off (a + b) = load m off a ++ load m (off + a) b := by
  simp only [load, List.range_add, List.map_append, List.map_map, Nat.add_assoc]
  rfl

theorem load_split {m : Mem} {off n : Nat} (a : Nat) (h : a ≤ n) :
    load m off n = load m off a ++ load m (off + a) (n - a) := by
  rw [← load_add, Nat.add_sub_cancel' h]

theorem load_take (m : Mem) (off n k : Nat) : (load m off n).take k = load m off (min k n) := by
  rcases Nat.le_total k n with h | h
  · rw [Nat.min_eq_left h, load_split k h, List.take_append_of_le_length (by simp), List.take_of_length_le (by simp)]
  · rw [Nat.min_eq_right h, List.take_of_length_le (by simpa using h)]

theorem load_drop (m : Mem) (off n k : Nat) : (load m off n).drop k = load m (off + k) (n - k) := by
  rcases Nat.le_total k n with h | h
  · rw [load_split k h, List.drop_append, load_length, List.drop_of_length_le (by simp)]
    simp
  · rw [List.drop_of_length_le (by simpa using h), Nat.sub_eq_zero_of_le h, load_zero]

/-- A part of a loaded range is loaded from where it lies. -/
theorem load_mid {m : Mem} {off : Nat} {l₁ l₂ l₃ : List UInt8}
    (h : load m off (l₁ ++ l₂ ++ l₃).length = l₁ ++ l₂ ++ l₃) : load m (off + l₁.length) l₂.length = l₂ := by
  have h₁ := congrArg (·.take (l₁ ++ l₂).length) h
  have h₂ := congrArg (·.drop l₁.length) h₁
  simp only [List.take_left, List.drop_left] at h₂
  rw [load_take, load_drop] at h₂
  have hl : min (l₁ ++ l₂).length (l₁ ++ l₂ ++ l₃).length - l₁.length = l₂.length := by
    simp only [List.length_append]; omega
  rwa [hl] at h₂

/-- Past the bytes written, and before them, the memory is as it was. -/
theorem store_out {m : Mem} {off : Nat} {bs : List UInt8} {i : Nat} (h : i < off ∨ off + bs.length ≤ i) :
    store m off bs i = m i := by
  unfold store
  split
  · rw [List.getElem?_eq_none (by omega)]; rfl
  · rfl

theorem store_in {m : Mem} {off : Nat} {bs : List UInt8} {i : Nat} (h : i < bs.length) :
    store m off bs (off + i) = bs[i] := by
  unfold store
  rw [if_pos (Nat.le_add_right off i), Nat.add_sub_cancel_left, List.getElem?_eq_getElem h]
  rfl

@[simp] theorem store_nil (m : Mem) (off : Nat) : store m off [] = m :=
  funext fun i => store_out (by simp; omega)

theorem load_store_self (m : Mem) (off : Nat) (bs : List UInt8) :
    load (store m off bs) off bs.length = bs := by
  refine List.ext_getElem (by simp) fun i h₁ h₂ => ?_
  rw [load_getElem, store_in h₂]

/-- A load apart from a store does not see it. -/
theorem load_store_disjoint {m : Mem} {off n at' : Nat} {bs : List UInt8}
    (h : at' + n ≤ off ∨ off + bs.length ≤ at') : load (store m off bs) at' n = load m at' n :=
  load_congr fun _ _ _ => store_out (by omega)

/-! ## Little-endian numbers -/

/-- The low `k` bytes of `n`, the lowest first. -/
def leBytes : Nat → Nat → List UInt8
  | 0, _ => []
  | k + 1, n => UInt8.ofNat n :: leBytes k (n / 256)

/-- The number whose little-endian bytes are `bs`. -/
def ofLe : List UInt8 → Nat
  | [] => 0
  | b :: bs => b.toNat + 256 * ofLe bs

@[simp] theorem leBytes_length (k n : Nat) : (leBytes k n).length = k := by
  induction k generalizing n <;> simp [leBytes, *]

theorem ofLe_leBytes (k n : Nat) : ofLe (leBytes k n) = n % 256 ^ k := by
  induction k generalizing n with
  | zero => simp [leBytes, ofLe, Nat.mod_one]
  | succ k ih =>
    rw [leBytes, ofLe, ih, Nat.pow_succ, Nat.mul_comm (256 ^ k), Nat.mod_mul]
    simp

/-- A number that fits in `k` bytes is read back as it was written. -/
theorem ofLe_leBytes_of_lt {k n : Nat} (h : n < 256 ^ k) : ofLe (leBytes k n) = n := by
  rw [ofLe_leBytes, Nat.mod_eq_of_lt h]

/-- Bytes are the number they stand for, written in as many bytes. -/
theorem leBytes_ofLe (bs : List UInt8) : leBytes bs.length (ofLe bs) = bs := by
  induction bs with
  | nil => rfl
  | cons b bs ih =>
    have hb := b.toNat_lt
    have hdiv : (b.toNat + 256 * ofLe bs) / 256 = ofLe bs := by omega
    have hmod : UInt8.ofNat (b.toNat + 256 * ofLe bs) = b := by
      apply UInt8.toNat_inj.1
      rw [UInt8.toNat_ofNat']
      omega
    rw [List.length_cons, ofLe, leBytes, hdiv, hmod, ih]

end Bytes
