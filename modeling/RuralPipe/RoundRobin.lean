/-
Taking turns: a counter from one on, modulo the number of participants.

Whoever takes the turns, after any number of them no two participants differ by
more than one (`turns_balanced`).
-/
import Mathlib.Data.Int.CardIntervalMod

/-- The first `n` turns among `q` participants. -/
def turns (q n : Nat) : List Nat := (List.range n).map fun k => (k + 1) % q

theorem turns_succ (q n : Nat) : turns q (n + 1) = turns q n ++ [(n + 1) % q] := by
  rw [turns, List.range_succ, List.map_append]
  rfl

@[simp] theorem turns_length (q n : Nat) : (turns q n).length = n := by simp [turns]

theorem turns_lt {q n i : Nat} (hq : 0 < q) (h : i ∈ turns q n) : i < q := by
  obtain ⟨k, -, rfl⟩ := List.mem_map.1 h
  exact Nat.mod_lt _ hq

/-- A participant's turns are the numbers of one residue. -/
theorem count_turns {q i : Nat} (hi : i < q) (n : Nat) :
    (turns q n).count i = n.count (· ≡ i + (q - 1) [MOD q]) := by
  induction n with
  | zero => rfl
  | succ n ih =>
    have hturn : (n + 1) % q = i ↔ n ≡ i + (q - 1) [MOD q] := by
      constructor
      · intro h
        have hmod : n + 1 ≡ i [MOD q] := by rw [Nat.ModEq, h, Nat.mod_eq_of_lt hi]
        have hadd := hmod.add_right (q - 1)
        rw [show n + 1 + (q - 1) = n + q by omega] at hadd
        exact (Nat.ModEq.symm (by simp [Nat.ModEq])).trans hadd
      · intro h
        have hadd := h.add_right 1
        rw [show i + (q - 1) + 1 = i + q by omega] at hadd
        rw [hadd, Nat.add_mod_right, Nat.mod_eq_of_lt hi]
    rw [turns_succ, List.count_append, List.count_singleton, Nat.count_succ, ih]
    simp only [beq_iff_eq, hturn]

/-- No two participants' turns differ by more than one. -/
theorem turns_balanced {q i j : Nat} (hi : i < q) (hj : j < q) (n : Nat) :
    (turns q n).count i ≤ (turns q n).count j + 1 := by
  have hq : 0 < q := by omega
  rw [count_turns hi, count_turns hj, Nat.count_modEq_card n hq, Nat.count_modEq_card n hq]
  split <;> split <;> omega
