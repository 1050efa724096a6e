import Mathlib.Data.List.Basic
import Mathlib.Tactic.Common

/-!
Trees given by parents: an object knows the object that it lies in and its name there. The path of
an object, and what a change of some objects does to the paths of the others.
-/

namespace KioExtras.Lib.Tree

variable {ι ν : Type*} (node : ι → Option (ι × ν)) (root : ι)

/-- The object is at the path. -/
inductive At : ι → List ν → Prop
  | root : At root []
  | child {i j : ι} {n : ν} {p : List ν} : node i = some (j, n) → At j p → At i (p ++ [n])

/-- The object is `r` or lies below it, not more than `k` levels deep. -/
def inside [DecidableEq ι] (r : ι) : ℕ → ι → Bool
  | 0, i => i = r
  | k + 1, i => i = r || (node i).any fun parent => inside r k parent.1

variable {node root} {node' : ι → Option (ι × ν)}

variable {i r : ι} {p pr : List ν}

theorem At.unique (hroot : node root = none) {q : List ν} (hp : At node root i p)
    (hq : At node root i q) : p = q := by
  induction hp generalizing q with
  | root =>
    cases hq with
    | root => rfl
    | child hnode _ => simp [hroot] at hnode
  | child hnode _ ih =>
    cases hq with
    | root => simp [hroot] at hnode
    | child hnode' hq' =>
      obtain ⟨rfl, rfl⟩ := Prod.mk.inj (Option.some.inj (hnode.symm.trans hnode'))
      rw [ih hq']

lemma At.parent (hroot : node root = none) {j : ι} {n : ν} (hnode : node i = some (j, n))
    (h : At node root i p) : ∃ q, At node root j q ∧ p = q ++ [n] := by
  cases h with
  | root => simp [hroot] at hnode
  | child hnode' hq =>
    obtain ⟨rfl, rfl⟩ := Prod.mk.inj (Option.some.inj (hnode.symm.trans hnode'))
    exact ⟨_, hq, rfl⟩

/-- **Frame rule**: a path stays when the objects on it stay as they are. -/
theorem At.frame (h : At node root i p)
    (hsame : ∀ j q parent, q <+: p → At node root j q → node j = some parent →
      node' j = node j) : At node' root i p := by
  induction h with
  | root => exact At.root
  | child hnode hp ih =>
    have hparent := ih fun j q parent hq => hsame j q parent (hq.trans (List.prefix_append _ _))
    have heq := hsame _ _ _ List.prefix_rfl (At.child hnode hp) hnode
    exact At.child (heq.trans hnode) hparent

/-- A change of one object leaves the paths that do not go through it. -/
theorem At.frame_ne (hroot : node root = none) (h : At node root i p) (hr : At node root r pr)
    (hpre : ¬ pr <+: p) (hsame : ∀ j, j ≠ r → node' j = node j) : At node' root i p := by
  apply h.frame
  intro j q parent hq hj _
  apply hsame
  rintro rfl
  rw [hr.unique hroot hj] at hpre
  exact hpre hq

/-- What is removed does not leave anything below it behind. -/
theorem At.frame_removed {gone : ι → Prop} (hi : ¬ gone i)
    (hclosed : ∀ j parent, node j = some parent → gone parent.1 → gone j)
    (hsame : ∀ j, ¬ gone j → node' j = node j) (h : At node root i p) : At node' root i p := by
  induction h with
  | root => exact At.root
  | child hnode hp ih =>
    exact At.child ((hsame _ hi).trans hnode) (ih fun hgone => hi (hclosed _ _ hnode hgone))

/-- An object inside another is at a path that begins with the path of the other. -/
theorem prefix_of_inside [DecidableEq ι] (hroot : node root = none) {k : ℕ}
    (hin : inside node r k i = true) (hr : At node root r pr) (h : At node root i p) :
    pr <+: p := by
  induction k generalizing i p with
  | zero =>
    obtain rfl : i = r := by simpa [inside] using hin
    exact hr.unique hroot h ▸ List.prefix_refl _
  | succ k ih =>
    simp only [inside, Bool.or_eq_true, decide_eq_true_eq] at hin
    rcases hin with rfl | hin
    · exact hr.unique hroot h ▸ List.prefix_refl _
    · cases h with
      | root => simp [hroot] at hin
      | child hnode hp =>
        rw [hnode, Option.any_some] at hin
        exact (ih hin hp).trans (List.prefix_append _ _)

end KioExtras.Lib.Tree
