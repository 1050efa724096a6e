import Mathlib.Computability.RegularExpressions

/-!
Searching a text for a regular expression and replacing what is found.
-/

namespace KioExtras.Lib.Patterns

open RegularExpression

variable {α : Type*}

/-! ### Searching -/

/-- Somewhere in the text is a match. -/
def Found (r : RegularExpression α) (text : List α) : Prop :=
  ∃ part, part <:+: text ∧ part ∈ r.matches'

/-- One element of a class. -/
def oneOf (cs : List α) : RegularExpression α := cs.foldr (fun c r => char c + r) 0

lemma mem_oneOf {cs : List α} {text : List α} :
    text ∈ (oneOf cs).matches' ↔ ∃ c ∈ cs, text = [c] := by
  induction cs with
  | nil => simp [oneOf, Language.notMem_zero]
  | cons c cs ih =>
    have hcons : text ∈ (oneOf (c :: cs)).matches' ↔ text = [c] ∨ text ∈ (oneOf cs).matches' :=
      Language.mem_add _ _ _
    rw [hcons, ih]
    simp

/-- `r+` -/
def more (r : RegularExpression α) : RegularExpression α := r * r.star

lemma mem_more_oneOf {cs : List α} {text : List α} :
    text ∈ (more (oneOf cs)).matches' ↔ text ≠ [] ∧ ∀ c ∈ text, c ∈ cs := by
  have hmore : text ∈ (more (oneOf cs)).matches' ↔
      ∃ a ∈ (oneOf cs).matches', ∃ b ∈ KStar.kstar (oneOf cs).matches', a ++ b = text :=
    Language.mem_mul
  rw [hmore]
  constructor
  · rintro ⟨a, ha, b, hb, rfl⟩
    obtain ⟨c, hc, rfl⟩ := mem_oneOf.mp ha
    obtain ⟨pieces, rfl, hpieces⟩ := Language.mem_kstar.mp hb
    refine ⟨by simp, fun d hd => ?_⟩
    rcases List.mem_cons.mp hd with rfl | hd
    · exact hc
    · obtain ⟨piece, hpiece, hd⟩ := List.mem_flatten.mp hd
      obtain ⟨e, he, rfl⟩ := mem_oneOf.mp (hpieces piece hpiece)
      rwa [List.mem_singleton.mp hd]
  · rintro ⟨hne, hall⟩
    obtain ⟨c, rest, rfl⟩ := List.exists_cons_of_ne_nil hne
    refine ⟨[c], mem_oneOf.mpr ⟨c, hall c List.mem_cons_self, rfl⟩, rest, ?_, rfl⟩
    refine Language.mem_kstar.mpr ⟨rest.map fun d => [d],
      (List.flatMap_singleton' rest).symm, fun piece hpiece => ?_⟩
    obtain ⟨d, hd, rfl⟩ := List.mem_map.mp hpiece
    exact mem_oneOf.mpr ⟨d, hall d (List.mem_cons_of_mem _ hd), rfl⟩

/-! ### Replacing -/

/-- Replaces what is matched, from the front on; `matched` is how much of a text is a match at its
beginning. The first argument counts what a match has left to skip. -/
def replace (matched : List α → ℕ) (after : List α) : ℕ → List α → List α
  | _, [] => []
  | skip + 1, _ :: text => replace matched after skip text
  | 0, c :: text =>
    match matched (c :: text) with
    | 0 => c :: replace matched after 0 text
    | n + 1 => after ++ replace matched after n text

section

variable {matched : List α → ℕ} {after text : List α} {c : α}

@[simp] lemma replace_skip (skip : ℕ) :
    replace matched after (skip + 1) (c :: text) = replace matched after skip text := rfl

lemma replace_keep (h : matched (c :: text) = 0) :
    replace matched after 0 (c :: text) = c :: replace matched after 0 text := by
  rw [replace, h]

lemma replace_match {n : ℕ} (h : matched (c :: text) = n + 1) :
    replace matched after 0 (c :: text) = after ++ replace matched after n text := by
  rw [replace, h]

end

end KioExtras.Lib.Patterns
