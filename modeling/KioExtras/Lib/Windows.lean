import Mathlib

/-!
A window that moves along a sequence, and the sum of what is in it with weights that rise to the
middle and fall again. The weighted sum of the next window is known from the plain sums of the two
halves.

A ring of cells holds the window when each value stands in the cell of its index modulo the number
of cells.
-/

namespace KioExtras.Lib.Windows

open Finset

section sums

variable {M : Type*} [AddCommMonoid M] (r : ℕ) (b : ℕ → M) (x : ℕ)

/-- The older half of the window from `x` on, with the middle. -/
def older : M := ∑ i ∈ range (r + 1), b (x + i)

/-- The newer half, without the middle. -/
def newer : M := ∑ i ∈ range r, b (x + r + 1 + i)

def weightedOlder : M := ∑ i ∈ range (r + 1), (i + 1) • b (x + i)

def weightedNewer : M := ∑ i ∈ range r, (r - i) • b (x + r + 1 + i)

def weighted : M := weightedOlder r b x + weightedNewer r b x

lemma older_succ : older r b (x + 1) + b x = older r b x + b (x + r + 1) := by
  have hfirst := sum_range_succ' (fun i => b (x + i)) (r + 1)
  have hlast := sum_range_succ (fun i => b (x + i)) (r + 1)
  rw [hlast] at hfirst
  rw [older, older, Nat.add_assoc x r 1, hfirst]
  congr 1
  apply sum_congr rfl
  intro i _
  rw [Nat.add_assoc, Nat.add_comm 1 i]

lemma newer_succ : newer r b (x + 1) + b (x + r + 1) = newer r b x + b (x + 2 * r + 1) := by
  have hfirst := sum_range_succ' (fun i => b (x + r + 1 + i)) r
  have hlast := sum_range_succ (fun i => b (x + r + 1 + i)) r
  rw [hlast] at hfirst
  have hend : x + 2 * r + 1 = x + r + 1 + r := by omega
  rw [newer, newer, hend, hfirst]
  congr 1
  apply sum_congr rfl
  intro i _
  congr 1
  omega

lemma weightedOlder_succ :
    weightedOlder r b (x + 1) + older r b x = weightedOlder r b x + (r + 1) • b (x + r + 1) := by
  -- the weights of the next window, with those of the window there is
  have hfirst := sum_range_succ' (fun i => i • b (x + i)) (r + 1)
  have hlast := sum_range_succ (fun i => i • b (x + i)) (r + 1)
  have hnext : weightedOlder r b (x + 1) = ∑ i ∈ range (r + 1), (i + 1) • b (x + (i + 1)) := by
    apply sum_congr rfl
    intro i _
    rw [Nat.add_assoc, Nat.add_comm 1 i]
  have hmore : weightedOlder r b x = ∑ i ∈ range (r + 1), i • b (x + i) + older r b x := by
    rw [weightedOlder, older, ← sum_add_distrib]
    apply sum_congr rfl
    intro i _
    rw [succ_nsmul]
  rw [hlast, zero_nsmul, add_zero, ← hnext] at hfirst
  rw [← hfirst, hmore, Nat.add_assoc x r 1, add_right_comm]

lemma weightedNewer_succ :
    weightedNewer r b (x + 1) + (r + 1) • b (x + r + 1) =
      weightedNewer r b x + (newer r b x + b (x + 2 * r + 1)) := by
  have hfirst := sum_range_succ' (fun i => (r + 1 - i) • b (x + r + 1 + i)) r
  have hlast := sum_range_succ (fun i => (r + 1 - i) • b (x + r + 1 + i)) r
  have hnext : weightedNewer r b (x + 1) =
      ∑ i ∈ range r, (r + 1 - (i + 1)) • b (x + r + 1 + (i + 1)) := by
    apply sum_congr rfl
    intro i _
    rw [Nat.add_sub_add_right]
    congr 2
    omega
  have hmore : ∑ i ∈ range r, (r + 1 - i) • b (x + r + 1 + i) =
      weightedNewer r b x + newer r b x := by
    rw [weightedNewer, newer, ← sum_add_distrib]
    apply sum_congr rfl
    intro i hi
    have hle : i ≤ r := Nat.le_of_lt (mem_range.mp hi)
    rw [Nat.succ_sub hle, succ_nsmul]
  have hend : x + 2 * r + 1 = x + r + 1 + r := by omega
  rw [hlast, hmore, Nat.add_sub_cancel_left, one_nsmul, ← hnext] at hfirst
  rw [hend, ← add_assoc, hfirst, Nat.sub_zero, Nat.add_zero]

/-- The window moves by one: the older half is taken away, and the newer one is added with the
value that comes in. -/
lemma weighted_succ : weighted r b (x + 1) + older r b x =
    weighted r b x + (newer r b x + b (x + 2 * r + 1)) := by
  have holder := weightedOlder_succ r b x
  have hnewer := weightedNewer_succ r b x
  calc weighted r b (x + 1) + older r b x
      = weightedOlder r b (x + 1) + older r b x + weightedNewer r b (x + 1) := add_right_comm _ _ _
    _ = weightedOlder r b x + (weightedNewer r b (x + 1) + (r + 1) • b (x + r + 1)) := by
        rw [holder, add_assoc, add_comm (weightedNewer r b (x + 1))]
    _ = weighted r b x + (newer r b x + b (x + 2 * r + 1)) := by
        rw [hnewer, ← add_assoc]
        rfl

lemma weighted_congr {c : ℕ → M} (h : ∀ i, x ≤ i → i ≤ x + 2 * r → b i = c i) :
    weighted r b x = weighted r c x := by
  unfold weighted weightedOlder weightedNewer
  congr 1
  · apply sum_congr rfl
    intro i hi
    have hlt := mem_range.mp hi
    rw [h (x + i) (by omega) (by omega)]
  · apply sum_congr rfl
    intro i hi
    have hlt := mem_range.mp hi
    rw [h (x + r + 1 + i) (by omega) (by omega)]

end sums

/-! ### Bounds -/

section bounds

variable {r : ℕ} {b : ℕ → ℕ} {m x : ℕ}

lemma older_le_weighted : older r b x ≤ weighted r b x := by
  have holder : older r b x ≤ weightedOlder r b x := by
    apply sum_le_sum
    intro i _
    rw [smul_eq_mul]
    exact Nat.le_mul_of_pos_left _ (Nat.succ_pos i)
  exact Nat.le_add_right_of_le holder

lemma le_older : b x ≤ older r b x :=
  single_le_sum (f := fun i => b (x + i)) (fun _ _ => Nat.zero_le _)
    (mem_range.mpr (Nat.succ_pos r))

lemma newer_le (h : ∀ i, b i ≤ m) : newer r b x ≤ r * m := by
  calc newer r b x ≤ ∑ _i ∈ range r, m := sum_le_sum fun i _ => h _
    _ = r * m := by rw [sum_const, card_range, smul_eq_mul]

lemma older_le (h : ∀ i, b i ≤ m) : older r b x ≤ (r + 1) * m := by
  calc older r b x ≤ ∑ _i ∈ range (r + 1), m := sum_le_sum fun i _ => h _
    _ = (r + 1) * m := by rw [sum_const, card_range, smul_eq_mul]

lemma weights (r : ℕ) :
    ∑ i ∈ range (r + 1), (i + 1) + ∑ i ∈ range r, (r - i) = (r + 1) * (r + 1) := by
  induction r with
  | zero => rfl
  | succ r ih =>
    have hnewer : ∑ i ∈ range (r + 1), (r + 1 - i) = ∑ i ∈ range r, (r - i) + (r + 1) := by
      rw [sum_range_succ']
      simp
    rw [sum_range_succ, hnewer]
    calc ∑ i ∈ range (r + 1), (i + 1) + (r + 1 + 1) + (∑ i ∈ range r, (r - i) + (r + 1))
        = ∑ i ∈ range (r + 1), (i + 1) + ∑ i ∈ range r, (r - i) + (2 * r + 3) := by omega
      _ = (r + 1 + 1) * (r + 1 + 1) := by
          rw [ih]
          ring

lemma weighted_le (h : ∀ i, b i ≤ m) : weighted r b x ≤ (r + 1) * (r + 1) * m := by
  rw [← weights r, Nat.add_mul, sum_mul, sum_mul]
  apply Nat.add_le_add
  · exact sum_le_sum fun i _ => Nat.mul_le_mul_left _ (h _)
  · exact sum_le_sum fun i _ => Nat.mul_le_mul_left _ (h _)

end bounds

/-! ### The ring of cells -/

section ring

variable {α : Type*} {n : ℕ} {cells : List α} {b : ℕ → α} {x : ℕ}

/-- The `n` cells hold the values from `x` on. -/
structure Holds (n : ℕ) (cells : List α) (b : ℕ → α) (x : ℕ) : Prop where
  length : cells.length = n
  value : ∀ i, x ≤ i → i < x + n → cells[i % n]? = some (b i)

lemma Holds.push (h : Holds n cells b x) (hn : 0 < n) :
    Holds n (cells.set (x % n) (b (x + n))) b (x + 1) where
  length := by rw [List.length_set, h.length]
  value := by
    intro i hle hlt
    rcases Nat.lt_or_ge i (x + n) with hold | hnew
    · have hne : x % n ≠ i % n := by
        intro heq
        have hmod := (Nat.modEq_iff_dvd' (show x ≤ i by omega)).mp heq
        have hge := Nat.le_of_dvd (by omega) hmod
        omega
      rw [List.getElem?_set_ne hne]
      exact h.value i (by omega) hold
    · obtain rfl : i = x + n := by omega
      have hlt' : x % n < cells.length := by
        rw [h.length]
        exact Nat.mod_lt x hn
      rw [Nat.add_mod_right, List.getElem?_set_self hlt']

end ring

end KioExtras.Lib.Windows
