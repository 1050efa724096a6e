import Mathlib.Data.List.Count
import Mathlib.Tactic.Common

/-!
Handles that are opened, used and closed, over any type of handles. The calls stand in a list, the
latest first.
-/

namespace KioExtras.Lib.Handles

inductive Call (H : Type*)
  | opens (h : H)
  | uses (h : H)
  | closes (h : H)
  deriving DecidableEq

variable {H : Type*} {calls : List (Call H)} {h : H}

/-- No handle is used or closed after it was closed, and only handles that were opened are
closed. -/
def Orderly : List (Call H) → Prop
  | [] => True
  | .opens _ :: earlier => Orderly earlier
  | .uses h :: earlier => .closes h ∉ earlier ∧ Orderly earlier
  | .closes h :: earlier => .closes h ∉ earlier ∧ .opens h ∈ earlier ∧ Orderly earlier

/-- Every handle that was opened is closed once and not used after that. -/
structure ClosedOnce (calls : List (Call H)) : Prop where
  orderly : Orderly calls
  closed : ∀ h, .opens h ∈ calls → .closes h ∈ calls

lemma Orderly.count_le_one [DecidableEq H] (ho : Orderly calls) (h : H) :
    calls.count (.closes h) ≤ 1 := by
  induction calls with
  | nil => simp
  | cons c calls ih =>
    cases c with
    | opens h' => simpa using ih ho
    | uses h' => simpa using ih ho.2
    | closes h' =>
      by_cases heq : h' = h
      · subst heq
        have hzero := List.count_eq_zero_of_not_mem ho.1
        rw [List.count_cons_self]
        omega
      · have hne : (Call.closes h') ≠ .closes h := by simpa using heq
        rw [List.count_cons_of_ne hne]
        exact ih ho.2.2

theorem ClosedOnce.count_eq_one [DecidableEq H] (ho : ClosedOnce calls) (h : H)
    (hopens : .opens h ∈ calls) : calls.count (.closes h) = 1 := by
  have hle := ho.orderly.count_le_one h
  have hpos := List.count_pos_iff.mpr (ho.closed h hopens)
  omega

lemma Orderly.opens_of_closes (ho : Orderly calls) (hmem : .closes h ∈ calls) :
    .opens h ∈ calls := by
  induction calls with
  | nil => exact absurd hmem List.not_mem_nil
  | cons c calls ih =>
    cases c with
    | opens h' => exact List.mem_cons_of_mem _ (ih ho (by simpa using hmem))
    | uses h' => exact List.mem_cons_of_mem _ (ih ho.2 (by simpa using hmem))
    | closes h' =>
      rcases List.mem_cons.mp hmem with heq | hmem
      · obtain rfl : h = h' := by simpa using heq
        exact List.mem_cons_of_mem _ ho.2.1
      · exact List.mem_cons_of_mem _ (ih ho.2.2 hmem)

lemma orderly_of_not_closes (hno : ∀ h, .closes h ∉ calls) : Orderly calls := by
  induction calls with
  | nil => trivial
  | cons c calls ih =>
    have hrest : ∀ h, .closes h ∉ calls := fun h hmem => hno h (List.mem_cons_of_mem _ hmem)
    cases c with
    | opens h => exact ih hrest
    | uses h => exact ⟨hrest h, ih hrest⟩
    | closes h => exact absurd List.mem_cons_self (hno h)

lemma not_orderly_closes (hbad : .closes h ∈ calls ∨ .opens h ∉ calls) :
    ¬ Orderly (.closes h :: calls) := by
  rintro ⟨hclosed, hopened, _⟩
  rcases hbad with hmem | hnot
  · exact hclosed hmem
  · exact hnot hopened

end KioExtras.Lib.Handles
