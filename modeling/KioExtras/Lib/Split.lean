import Mathlib.Data.List.Basic
import Mathlib.Tactic.Common

/-!
Lists that are split at a separator.
-/

namespace KioExtras.Lib.Split

variable {α : Type*} [DecidableEq α] {sep : α}

lemma splitOn_cons (a : α) (l : List α) : (a :: l).splitOn sep =
    if a = sep then [] :: l.splitOn sep else (l.splitOn sep).modifyHead (a :: ·) := by
  rw [List.splitOn_cons_eq_if_modifyHead]
  simp only [beq_iff_eq]

lemma splitOn_append {a : List α} (h : sep ∉ a) (b : List α) :
    (a ++ b).splitOn sep = (b.splitOn sep).modifyHead (a ++ ·) := by
  induction a with
  | nil =>
    obtain ⟨part, parts, hparts⟩ := List.exists_cons_of_ne_nil (List.splitOn_ne_nil sep b)
    rw [List.nil_append, hparts]
    rfl
  | cons c a ih =>
    rw [List.mem_cons, not_or] at h
    rw [List.cons_append, splitOn_cons, if_neg fun heq => h.1 heq.symm, ih h.2]
    cases b.splitOn sep <;> rfl

/-- **What stands for the elements** one by one stands for the parts, where the separator stands for
itself and nothing else has it. -/
theorem splitOn_flatMap {f : α → List α} (hsep : f sep = [sep])
    (hother : ∀ a, a ≠ sep → sep ∉ f a) (l : List α) :
    (l.flatMap f).splitOn sep = (l.splitOn sep).map fun part => part.flatMap f := by
  induction l with
  | nil => rfl
  | cons a l ih =>
    obtain ⟨part, parts, hparts⟩ := List.exists_cons_of_ne_nil (List.splitOn_ne_nil sep l)
    rw [List.flatMap_cons, splitOn_cons, hparts]
    by_cases ha : a = sep
    · rw [if_pos ha, ha, hsep, List.singleton_append, splitOn_cons, if_pos rfl, ih, hparts]
      rfl
    · rw [if_neg ha, splitOn_append (hother a ha), ih, hparts]
      rfl

lemma exists_mem_splitOn {a : α} {l : List α} :
    (∃ part ∈ l.splitOn sep, a ∈ part) ↔ a ∈ l ∧ a ≠ sep := by
  induction l with
  | nil => simp [List.splitOn_nil]
  | cons c l ih =>
    obtain ⟨part, parts, hparts⟩ := List.exists_cons_of_ne_nil (List.splitOn_ne_nil sep l)
    rw [splitOn_cons, List.mem_cons, or_and_right, ← ih, hparts]
    split_ifs with hc
    · rw [List.exists_mem_cons_iff]
      refine or_congr_left (iff_of_false List.not_mem_nil ?_)
      rintro ⟨rfl, hne⟩
      exact hne hc
    · rw [List.modifyHead_cons, List.exists_mem_cons_iff, List.exists_mem_cons_iff, List.mem_cons,
        or_assoc]
      refine or_congr_left ⟨fun heq => ⟨heq, heq ▸ hc⟩, And.left⟩

lemma notMem_splitOn {part l : List α} (h : part ∈ l.splitOn sep) : sep ∉ part :=
  fun hsep => (exists_mem_splitOn.mp ⟨part, h, hsep⟩).2 rfl

end KioExtras.Lib.Split
