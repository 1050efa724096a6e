import Mathlib.Data.List.Infix
import Mathlib.Tactic.Common

/-!
What is made of pieces, when only a part of each piece arrives.
-/

namespace KioExtras.Lib.Pieces

variable {α β : Type*} {f g : α → List β}

lemma length_flatMap_le (hfg : ∀ a, f a <+: g a) (l : List α) :
    (l.flatMap f).length ≤ (l.flatMap g).length := by
  induction l with
  | nil => rfl
  | cons a l ih =>
    have := (hfg a).length_le
    simp only [List.flatMap_cons, List.length_append]
    omega

/-- **Parts of the pieces** make up the whole only if they are the pieces. -/
theorem flatMap_prefix_iff (hfg : ∀ a, f a <+: g a) (l : List α) :
    l.flatMap f = l.flatMap g ↔ ∀ a ∈ l, f a = g a := by
  induction l with
  | nil => simp
  | cons a l ih =>
    rw [List.flatMap_cons, List.flatMap_cons, List.forall_mem_cons]
    constructor
    · intro heq
      have hlength := congrArg List.length heq
      rw [List.length_append, List.length_append] at hlength
      have hhead := (hfg a).length_le
      have htail := length_flatMap_le hfg l
      have ha : f a = g a := (hfg a).eq_of_length (by omega)
      rw [ha] at heq
      exact ⟨ha, ih.mp (List.append_cancel_left heq)⟩
    · rintro ⟨ha, hl⟩
      rw [ha, ih.mpr hl]

end KioExtras.Lib.Pieces
