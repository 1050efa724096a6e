import KioExtras.Lib.Directories

/-!
Symbolic links in directories: where a path leads, when every link that a directory is named
through is followed. A tree that has less in it leads to nothing new.
-/

namespace KioExtras.Lib.Links

open Directories

variable {ν τ D : Type*}

inductive Step (ν : Type*)
  | here
  | up
  | name (n : ν)
  deriving DecidableEq

/-- What is no directory: a file, or a link with a text for a target. -/
inductive Leaf (τ D : Type*)
  | file (data : D)
  | link (target : τ)
  deriving DecidableEq

structure Reading (ν τ : Type*) where
  absolute : τ → Bool
  steps : τ → List (Step ν)

def Reading.start (reading : Reading ν τ) (dir : List ν) (path : τ) : List ν :=
  if reading.absolute path then [] else dir

section follow

variable (reading : Reading ν τ) (t : Tree ν (Leaf τ D))

/-- The directory that some steps lead to; so many of them are taken at most, those of the links
included. -/
def follow : ℕ → List ν → List (Step ν) → Option (List ν)
  | _, dir, [] => some dir
  | 0, _, _ :: _ => none
  | budget + 1, dir, .here :: rest => follow budget dir rest
  | budget + 1, dir, .up :: rest => follow budget dir.dropLast rest
  | budget + 1, dir, .name n :: rest =>
    match t.objects (dir ++ [n]) with
    | some .dir => follow budget (dir ++ [n]) rest
    | some (.file (.link target)) =>
      follow budget (reading.start dir target) (reading.steps target ++ rest)
    | some (.file (.file _)) | none => none

/-- The place that a path names in a tree, which need not have anything there: its last name is not
followed if it is that of a link. -/
def place (budget : ℕ) (dir : List ν) (path : τ) : Option (List ν) :=
  match (reading.steps path).getLast? with
  | some (.name n) =>
    (follow reading t budget (reading.start dir path) (reading.steps path).dropLast).map (· ++ [n])
  | some .here | some .up | none =>
    follow reading t budget (reading.start dir path) (reading.steps path)

end follow

section mono

variable {reading : Reading ν τ} {s t : Tree ν (Leaf τ D)}

/-- Whatever is in the one tree is in the other. -/
def Within (s t : Tree ν (Leaf τ D)) : Prop :=
  ∀ p, s.objects p ≠ none → t.objects p = s.objects p

variable {p : List ν} {budget : ℕ}

lemma Within.of_removed [DecidableEq ν] (h : t.Removed p s) : Within s t := by
  intro q hq
  rw [h.objects] at hq ⊢
  by_cases hqp : q = p
  · rw [hqp, Function.update_self] at hq
    exact absurd rfl hq
  · rw [Function.update_of_ne hqp]

lemma follow_within (h : Within s t) {dir : List ν} {path : List (Step ν)}
    (hfollow : follow reading s budget dir path = some p) :
    follow reading t budget dir path = some p := by
  induction budget generalizing dir path with
  | zero =>
    cases path with
    | nil => exact hfollow
    | cons step rest => exact nomatch hfollow
  | succ budget ih =>
    cases path with
    | nil => exact hfollow
    | cons step rest =>
      cases step with
      | here => exact ih hfollow
      | up => exact ih hfollow
      | name n =>
        simp only [follow] at hfollow ⊢
        cases hobject : s.objects (dir ++ [n]) with
        | none =>
          rw [hobject] at hfollow
          exact nomatch hfollow
        | some object =>
          have hsome : s.objects (dir ++ [n]) ≠ none := by simp [hobject]
          rw [h _ hsome, hobject]
          rw [hobject] at hfollow
          rcases object with _ | data | target
          · exact ih hfollow
          · exact nomatch hfollow
          · exact ih hfollow

lemma place_within (h : Within s t) {dir : List ν} {path : τ}
    (hplace : place reading s budget dir path = some p) :
    place reading t budget dir path = some p := by
  unfold place at hplace ⊢
  split at hplace
  · rename_i n hlast
    obtain ⟨q, hq, rfl⟩ := Option.map_eq_some_iff.mp hplace
    rw [follow_within h hq]
    rfl
  all_goals exact follow_within h hplace

end mono

end KioExtras.Lib.Links
