import Mathlib.Data.List.Basic
import Mathlib.Tactic.Common

/-!
The elements of a list that are of a kind, in pages of one size, and how much of the list has to be
gone through for some of them.
-/

namespace KioExtras.Lib.Pages

variable {α : Type*} {size : ℕ}

/-- The number of pages; the last one need not be full. -/
def count (size n : ℕ) : ℕ := (n + size - 1) / size

def page (size k : ℕ) (l : List α) : List α := (l.drop (size * k)).take size

lemma count_pos (hsize : 0 < size) {n : ℕ} (hn : 0 < n) : 0 < count size n :=
  Nat.div_pos (by omega) hsize

lemma lt_count_iff (hsize : 0 < size) {k n : ℕ} : k < count size n ↔ size * k < n := by
  unfold count
  rw [Nat.lt_iff_add_one_le, Nat.le_div_iff_mul_le hsize, Nat.add_mul, Nat.one_mul, Nat.mul_comm]
  omega

lemma page_ne_nil (hsize : 0 < size) {k : ℕ} {l : List α} (h : size * k < l.length) :
    page size k l ≠ [] := by
  apply List.ne_nil_of_length_pos
  rw [page, List.length_take, List.length_drop]
  omega

/-- The beginning of a list up to the `k`-th element of a kind, or all of the list. -/
def upTo (p : α → Bool) : ℕ → List α → List α
  | 0, _ => []
  | _ + 1, [] => []
  | k + 1, a :: l => a :: upTo p (if p a then k else k + 1) l

section upTo

variable {p : α → Bool}

lemma upTo_begins (k : ℕ) (l : List α) : upTo p k l <+: l := by
  induction l generalizing k with
  | nil => cases k <;> simp [upTo]
  | cons a l ih =>
    cases k with
    | zero => simp [upTo]
    | succ k =>
      rw [upTo]
      exact (List.prefix_cons_inj a).mpr (ih _)

lemma countP_upTo (k : ℕ) (l : List α) : (upTo p k l).countP p = min k (l.countP p) := by
  induction l generalizing k with
  | nil => cases k <;> simp [upTo]
  | cons a l ih =>
    cases k with
    | zero => simp [upTo]
    | succ k =>
      rw [upTo, List.countP_cons, List.countP_cons, ih]
      split <;> omega

lemma upTo_eq_self {k : ℕ} {l : List α} (h : l.countP p < k) : upTo p k l = l := by
  induction l generalizing k with
  | nil => cases k <;> simp [upTo]
  | cons a l ih =>
    cases k with
    | zero => omega
    | succ k =>
      rw [List.countP_cons] at h
      rw [upTo, ih]
      split at h <;> rename_i ha <;> simp only [ha, if_true, if_false, Bool.false_eq_true] <;> omega

lemma countP_le_of_upTo {k : ℕ} {l : List α} (h : upTo p k l = l) : l.countP p ≤ k := by
  have hcount := countP_upTo (p := p) k l
  rw [h] at hcount
  omega

end upTo

end KioExtras.Lib.Pages
