import Mathlib.Data.List.Nodup
import Mathlib.Tactic.Common

/-!
Keeping of a list only the items whose key has not been seen before.
-/

namespace KioExtras.Lib.Firsts

variable {α κ : Type*} [DecidableEq κ] (key : α → κ)

/-- The items of a list with a key that is neither in `seen` nor the key of an earlier item. -/
def firsts : List κ → List α → List α
  | _, [] => []
  | seen, a :: as =>
    if key a ∈ seen then firsts seen as else a :: firsts (seen ++ [key a]) as

/-- The scan can be interrupted: what it has seen are the keys it started with and those of the
items it has kept. -/
lemma firsts_append (seen : List κ) (as bs : List α) :
    firsts key seen (as ++ bs) =
      firsts key seen as ++ firsts key (seen ++ (firsts key seen as).map key) bs := by
  induction as generalizing seen with
  | nil => simp [firsts]
  | cons a as ih =>
    by_cases ha : key a ∈ seen
    · simp only [List.cons_append, firsts, ha, if_true]
      exact ih seen
    · simp only [List.cons_append, firsts, ha, if_false, List.map_cons]
      rw [ih]
      simp

lemma firsts_concat (as : List α) (a : α) :
    firsts key [] (as ++ [a]) =
      if key a ∈ (firsts key [] as).map key then firsts key [] as else firsts key [] as ++ [a] := by
  rw [firsts_append]
  by_cases ha : key a ∈ (firsts key [] as).map key
  · simp [firsts, ha]
  · simp [firsts, ha]

lemma firsts_sublist (seen : List κ) (as : List α) : (firsts key seen as).Sublist as := by
  induction as generalizing seen with
  | nil => exact List.Sublist.refl []
  | cons a as ih =>
    by_cases ha : key a ∈ seen
    · simp only [firsts, ha, if_true]
      exact (ih seen).cons a
    · simp only [firsts, ha, if_false]
      exact (ih _).cons_cons a

variable {a : α} {as : List α} {seen : List κ}

lemma key_notMem_of_mem_firsts (h : a ∈ firsts key seen as) : key a ∉ seen := by
  induction as generalizing seen with
  | nil => simp [firsts] at h
  | cons b as ih =>
    by_cases hb : key b ∈ seen
    · simp only [firsts, hb, if_true] at h
      exact ih h
    · simp only [firsts, hb, if_false, List.mem_cons] at h
      rcases h with rfl | h
      · exact hb
      · have hnot := ih h
        simp only [List.mem_append, not_or] at hnot
        exact hnot.1

theorem firsts_nodup (seen : List κ) (as : List α) : ((firsts key seen as).map key).Nodup := by
  induction as generalizing seen with
  | nil => simp [firsts]
  | cons a as ih =>
    by_cases ha : key a ∈ seen
    · simp only [firsts, ha, if_true]
      exact ih seen
    · simp only [firsts, ha, if_false, List.map_cons, List.nodup_cons]
      refine ⟨?_, ih _⟩
      intro hmem
      obtain ⟨b, hb, hkey⟩ := List.mem_map.mp hmem
      have hnot := key_notMem_of_mem_firsts key hb
      simp [hkey] at hnot

theorem mem_firsts (h : a ∈ as) : key a ∈ seen ∨ ∃ b ∈ firsts key seen as, key b = key a := by
  induction as generalizing seen with
  | nil => simp at h
  | cons b as ih =>
    by_cases hb : key b ∈ seen
    · simp only [firsts, hb, if_true]
      rcases List.mem_cons.mp h with rfl | h
      · exact Or.inl hb
      · exact ih h
    · simp only [firsts, hb, if_false]
      rcases List.mem_cons.mp h with rfl | h
      · exact Or.inr ⟨a, by simp, rfl⟩
      · have hrest : key a ∈ seen ++ [key b] ∨
            ∃ c ∈ firsts key (seen ++ [key b]) as, key c = key a := ih h
        rcases hrest with hseen | ⟨c, hc, hkey⟩
        · rcases List.mem_append.mp hseen with hseen | hseen
          · exact Or.inl hseen
          · exact Or.inr ⟨b, by simp, by simpa [eq_comm] using hseen⟩
        · exact Or.inr ⟨c, List.mem_cons_of_mem _ hc, hkey⟩

omit [DecidableEq κ] in
lemma eq_of_count_key [BEq κ] [LawfulBEq κ] {b : α} (hcount : (as.map key).count (key a) = 1)
    (ha : a ∈ as) (hb : b ∈ as) (hkey : key b = key a) : b = a := by
  rw [List.count_eq_countP, List.countP_map, List.countP_eq_length_filter] at hcount
  obtain ⟨c, hc⟩ := List.length_eq_one_iff.mp hcount
  have hmem {d : α} (hd : d ∈ as) (hkd : key d = key a) : d = c := by
    have hfilter : d ∈ as.filter ((fun x => x == key a) ∘ key) := by
      simp [hd, hkd]
    rw [hc] at hfilter
    exact List.mem_singleton.mp hfilter
  rw [hmem hb hkey, hmem ha rfl]

theorem mem_firsts_of_count [BEq κ] [LawfulBEq κ] (ha : a ∈ as)
    (hcount : (as.map key).count (key a) = 1) : a ∈ firsts key [] as := by
  have hkept : key a ∈ ([] : List κ) ∨ ∃ b ∈ firsts key [] as, key b = key a :=
    mem_firsts key ha
  rcases hkept with hseen | ⟨b, hb, hkey⟩
  · simp at hseen
  · have hbs := (firsts_sublist key [] as).subset hb
    rwa [← eq_of_count_key key hcount ha hbs hkey]

end KioExtras.Lib.Firsts
