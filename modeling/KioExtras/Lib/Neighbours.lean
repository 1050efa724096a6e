import Mathlib.Data.List.Destutter
import Mathlib.Data.List.Sort

/-!
Sorted lists from which all but one of equal neighbours are taken out.

The order may be one in which different elements stand beside each other in either way. Then the
elements that are left differ from each other in every sorted list only if no element that is there
twice has such a partner.
-/

namespace KioExtras.Lib.Neighbours

open List

variable {α : Type*} {le : α → α → Prop}

section

variable [DecidableRel le]

/-- A sorted list, but for the order in which equals stand. -/
def sort (le : α → α → Prop) [DecidableRel le] (l : List α) : List α :=
  l.mergeSort fun a b => decide (le a b)

lemma sort_perm (l : List α) : sort le l ~ l := mergeSort_perm l _

lemma sort_pairwise (total : ∀ a b, le a b ∨ le b a)
    (trans : ∀ a b c, le a b → le b c → le a c) (l : List α) : (sort le l).Pairwise le := by
  have hsorted : (sort le l).Pairwise fun a b => decide (le a b) = true :=
    pairwise_mergeSort
      (fun a b c hab hbc => by simpa using trans a b c (by simpa using hab) (by simpa using hbc))
      (fun a b => by simpa using total a b) l
  exact hsorted.imp fun h => by simpa using h

end

variable [DecidableEq α]

/-- No element that is there twice stands on one level with another one. -/
def Unmixed (le : α → α → Prop) (l : List α) : Prop :=
  ∀ a ∈ l, ∀ b ∈ l, a ≠ b → le a b → le b a → l.count a ≤ 1

variable {l m p q : List α} {a b : α}

lemma Unmixed.sublist (h : Unmixed le m) (hl : l <+ m) : Unmixed le l :=
  fun a ha b hb hne hab hba =>
    Nat.le_trans (hl.count_le a) (h a (hl.subset ha) b (hl.subset hb) hne hab hba)

lemma Unmixed.perm (h : Unmixed le m) (hl : l ~ m) : Unmixed le l :=
  fun a ha b hb hne hab hba =>
    hl.count_eq a ▸ h a (hl.subset ha) b (hl.subset hb) hne hab hba

lemma destutter'_nodup {last : α} (hsorted : (last :: l).Pairwise le) (h : Unmixed le (last :: l)) :
    (l.destutter' (· ≠ ·) last).Nodup := by
  induction l generalizing last with
  | nil => simp
  | cons y l ih =>
    by_cases hy : last = y
    · subst hy
      rw [destutter'_cons_neg _ (not_not.mpr rfl)]
      exact ih hsorted.tail (h.sublist (sublist_cons_self _ _))
    · rw [destutter'_cons_pos _ hy, nodup_cons]
      refine ⟨fun hmem => ?_, ih hsorted.tail (h.sublist (sublist_cons_self _ _))⟩
      have hl : last ∈ l := by
        have hmem' := (destutter'_sublist l (· ≠ ·) y).subset hmem
        rcases mem_cons.mp hmem' with heq | hl
        · exact absurd heq hy
        · exact hl
      obtain ⟨hfirst, hrest⟩ := pairwise_cons.mp hsorted
      obtain ⟨hsecond, -⟩ := pairwise_cons.mp hrest
      have hcount := h last mem_cons_self y (mem_cons_of_mem _ mem_cons_self) hy
        (hfirst y mem_cons_self) (hsecond last hl)
      have htwice : 0 < l.count last := count_pos_iff.mpr hl
      rw [count_cons_self, count_cons_of_ne (Ne.symm hy)] at hcount
      omega

lemma destutter_nodup (hsorted : l.Pairwise le) (h : Unmixed le l) :
    (l.destutter (· ≠ ·)).Nodup := by
  cases l with
  | nil => simp
  | cons a l => exact destutter'_nodup hsorted h

lemma mem_destutter {x : α} : x ∈ l.destutter (· ≠ ·) ↔ x ∈ l := by
  refine ⟨fun h => (destutter_sublist _ l).subset h, fun h => ?_⟩
  cases l with
  | nil => exact h
  | cons a l =>
    induction l generalizing a with
    | nil => exact h
    | cons y l ih =>
      rw [destutter_cons_cons]
      by_cases hy : a = y
      · subst hy
        rw [if_neg (not_not.mpr rfl)]
        exact ih a (by simpa using h)
      · rw [if_pos hy]
        rcases mem_cons.mp h with rfl | h
        · exact mem_cons_self
        · exact mem_cons_of_mem _ (ih y h)

lemma between_left (hab : a ≠ b) {last : α} (hlast : last ≠ a) (hp : a ∉ p) :
    [a, b, a] <+ (p ++ a :: b :: a :: q).destutter' (· ≠ ·) last := by
  induction p generalizing last with
  | nil =>
    rw [nil_append, destutter'_cons_pos _ hlast, destutter'_cons_pos _ hab,
      destutter'_cons_pos _ hab.symm]
    refine Sublist.cons _ (Sublist.cons_cons _ (Sublist.cons_cons _ ?_))
    rw [singleton_sublist]
    exact mem_destutter' _ _ _
  | cons y p ih =>
    obtain ⟨hy, hrest⟩ := not_or.mp (mem_cons.not.mp hp)
    rw [cons_append]
    by_cases heq : last = y
    · subst heq
      rw [destutter'_cons_neg _ (not_not.mpr rfl)]
      exact ih hlast hrest
    · rw [destutter'_cons_pos _ heq]
      exact Sublist.cons _ (ih (Ne.symm hy) hrest)

lemma between_not_nodup (hab : a ≠ b) (hp : a ∉ p) :
    ¬ ((p ++ a :: b :: a :: q).destutter (· ≠ ·)).Nodup := by
  have hsub : [a, b, a] <+ (p ++ a :: b :: a :: q).destutter (· ≠ ·) := by
    cases p with
    | nil =>
      rw [nil_append, destutter_cons', destutter'_cons_pos _ hab, destutter'_cons_pos _ hab.symm]
      refine Sublist.cons_cons _ (Sublist.cons_cons _ ?_)
      rw [singleton_sublist]
      exact mem_destutter' _ _ _
    | cons y p =>
      obtain ⟨hy, hrest⟩ := not_or.mp (mem_cons.not.mp hp)
      rw [cons_append, destutter_cons']
      exact between_left hab (Ne.symm hy) hrest
  intro h
  have hnodup := h.sublist hsub
  simp at hnodup

lemma perm_of_mixed (hb : b ∈ l) (hne : a ≠ b) (hcount : 1 < l.count a) :
    ∃ rest, l ~ a :: b :: a :: rest := by
  have ha : a ∈ l := count_pos_iff.mp (by omega)
  have hb' : b ∈ l.erase a := (mem_erase_of_ne hne.symm).mpr hb
  have ha' : a ∈ (l.erase a).erase b := by
    rw [mem_erase_of_ne hne, ← count_pos_iff, count_erase_self]
    omega
  refine ⟨((l.erase a).erase b).erase a, ?_⟩
  calc l ~ a :: l.erase a := perm_cons_erase ha
    _ ~ a :: b :: (l.erase a).erase b := (perm_cons_erase hb').cons a
    _ ~ a :: b :: a :: ((l.erase a).erase b).erase a := ((perm_cons_erase ha').cons b).cons a

/-- **Exactly the unmixed lists** have, in every order in which they are sorted, no element left
twice. -/
theorem nodup_iff_unmixed [DecidableRel le] (total : ∀ a b, le a b ∨ le b a)
    (trans : ∀ a b c, le a b → le b c → le a c) (l : List α) :
    (∀ m : List α, m ~ l → m.Pairwise le → (m.destutter (· ≠ ·)).Nodup) ↔ Unmixed le l := by
  constructor
  · intro hall a ha b hb hne hab hba
    by_contra hcount
    obtain ⟨rest, hrest⟩ := perm_of_mixed hb hne (Nat.lt_of_not_le hcount)
    -- what does not stand behind `a` comes first
    have hfirst : ∀ x ∈ sort le (rest.filter fun x => ¬ le a x), ¬ le a x := by
      intro x hx
      have hmem := (sort_perm _).subset hx
      simpa using (mem_filter.mp hmem).2
    have hlast : ∀ x ∈ sort le (rest.filter fun x => le a x), le a x := by
      intro x hx
      have hmem := (sort_perm _).subset hx
      simpa using (mem_filter.mp hmem).2
    have hself : le a a := (total a a).elim id id
    have hperm : sort le (rest.filter fun x => ¬ le a x) ++
        a :: b :: a :: sort le (rest.filter fun x => le a x) ~ l := by
      have hsplit : (rest.filter fun x => ¬ le a x) ++ (rest.filter fun x => le a x) ~ rest := by
        have h := filter_append_perm (fun x => decide (le a x)) rest
        refine perm_append_comm.trans ?_
        simpa using h
      calc _ ~ (rest.filter fun x => ¬ le a x) ++
              a :: b :: a :: (rest.filter fun x => le a x) :=
            (sort_perm _).append ((((sort_perm _).cons a).cons b).cons a)
        _ ~ a :: b :: a :: ((rest.filter fun x => ¬ le a x) ++ rest.filter fun x => le a x) :=
            perm_middle.trans ((perm_middle.trans (perm_middle.cons b)).cons a)
        _ ~ a :: b :: a :: rest := ((hsplit.cons a).cons b).cons a
        _ ~ l := hrest.symm
    have hsorted : (sort le (rest.filter fun x => ¬ le a x) ++
        a :: b :: a :: sort le (rest.filter fun x => le a x)).Pairwise le := by
      have hfront : ∀ x ∈ sort le (rest.filter fun x => ¬ le a x), le x a := fun x hx =>
        (total a x).resolve_left (hfirst x hx)
      refine pairwise_append.mpr ⟨sort_pairwise total trans _, ?_, ?_⟩
      · rw [pairwise_cons, pairwise_cons, pairwise_cons]
        refine ⟨?_, ?_, hlast, sort_pairwise total trans _⟩
        · intro x hx
          simp only [mem_cons] at hx
          rcases hx with rfl | rfl | hx
          · exact hab
          · exact hself
          · exact hlast x hx
        · intro x hx
          rcases mem_cons.mp hx with rfl | hx
          · exact hba
          · exact trans b a x hba (hlast x hx)
      · intro x hx y hy
        simp only [mem_cons] at hy
        rcases hy with rfl | rfl | rfl | hy
        · exact hfront x hx
        · exact trans x a y (hfront x hx) hab
        · exact hfront x hx
        · exact trans x a y (hfront x hx) (hlast y hy)
    exact between_not_nodup hne (fun hmem => hfirst a hmem hself) (hall _ hperm hsorted)
  · intro h m hm hsorted
    exact destutter_nodup hsorted (h.perm hm)

end KioExtras.Lib.Neighbours
