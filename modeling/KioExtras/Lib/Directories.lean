import Mathlib.Data.List.Infix
import Mathlib.Logic.Function.Basic
import Mathlib.Tactic.Common

/-!
Files in directories: objects at paths, each of them in a directory. Files are written and removed
in place; what is moved takes along all that lies below it.
-/

namespace KioExtras.Lib.Directories

variable {ν D : Type*}

inductive Object (D : Type*)
  | dir
  | file (data : D)
  deriving DecidableEq

def Object.data : Object D → Option D
  | .dir => none
  | .file data => some data

/-- Objects at paths. Above an object there are directories only. -/
structure Tree (ν D : Type*) where
  objects : List ν → Option (Object D)
  root : objects [] = some .dir
  closed : ∀ p n, objects (p ++ [n]) ≠ none → objects p = some .dir

namespace Tree

variable {t : Tree ν D} {p q : List ν}

@[ext] lemma ext {s t : Tree ν D} (h : ∀ p, s.objects p = t.objects p) : s = t := by
  cases s
  cases t
  congr
  exact funext h

/-- Nothing but the root. -/
def empty : Tree ν D where
  objects p := if p.isEmpty then some .dir else none
  root := rfl
  closed p n h := by simp at h

def file? (t : Tree ν D) (p : List ν) : Option D := (t.objects p).bind Object.data

lemma file?_eq_some {data : D} : t.file? p = some data ↔ t.objects p = some (.file data) := by
  unfold file?
  rcases t.objects p with _ | _ | d <;> simp [Object.data]

lemma above (t : Tree ν D) (h : t.objects (p ++ q) ≠ none) (hq : q ≠ []) :
    t.objects p = some .dir := by
  induction q using List.reverseRecOn with
  | nil => exact absurd rfl hq
  | append_singleton q n ih =>
    rw [← List.append_assoc] at h
    have hdir := t.closed (p ++ q) n h
    cases q with
    | nil => simpa using hdir
    | cons m q => exact ih (by simp [hdir]) (List.cons_ne_nil m q)

lemma below_file {data : D} (h : t.objects p = some (.file data)) (hq : q ≠ []) :
    t.objects (p ++ q) = none := by
  by_contra hne
  have hdir := t.above hne hq
  simp [h] at hdir

lemma ne_nil {data : D} (h : t.objects p = some (.file data)) : p ≠ [] := by
  rintro rfl
  simp [t.root] at h

/-- A file can be at a path: there is a directory above it, and it is not a directory itself. -/
structure Fits (t : Tree ν D) (p : List ν) : Prop where
  ne_nil : p ≠ []
  parent : t.objects p.dropLast = some .dir
  not_dir : t.objects p ≠ some .dir

instance [DecidableEq ν] [DecidableEq D] (t : Tree ν D) (p : List ν) : Decidable (t.Fits p) :=
  decidable_of_iff (p ≠ [] ∧ t.objects p.dropLast = some .dir ∧ t.objects p ≠ some .dir)
    ⟨fun h => ⟨h.1, h.2.1, h.2.2⟩, fun h => ⟨h.ne_nil, h.parent, h.not_dir⟩⟩

lemma fits_of_file {data : D} (h : t.objects p = some (.file data)) : t.Fits p where
  ne_nil := ne_nil h
  parent := by
    apply t.above (q := [p.getLast (ne_nil h)])
    · rw [List.dropLast_append_getLast]
      simp [h]
    · exact List.cons_ne_nil _ _
  not_dir := by simp [h]

lemma Fits.below (h : t.Fits p) (hq : q ≠ []) : t.objects (p ++ q) = none := by
  by_contra hne
  exact h.not_dir (t.above hne hq)

lemma Fits.not_below_file {data : D} (hq : t.Fits q) (h : t.objects p = some (.file data))
    (hne : p ≠ q) : ¬ p <+: q := by
  rintro ⟨r, rfl⟩
  obtain ⟨n, hlast⟩ : ∃ n, r.dropLast ++ [n] = r :=
    ⟨_, List.dropLast_append_getLast (by rintro rfl; simp at hne)⟩
  have hparent := hq.parent
  rw [← hlast, ← List.append_assoc, List.dropLast_concat] at hparent
  by_cases hnil : r.dropLast = []
  · simp [hnil, h] at hparent
  · simp [below_file h hnil] at hparent

section operations

variable [DecidableEq ν]

def room (p q : List ν) (data : D) (hp : p ≠ []) (hpq : p = q ∨ ¬ p <+: q) : Tree ν D where
  objects r := if r = p then some (.file data)
    else if (r <+: p ∧ r ≠ p) ∨ (r <+: q ∧ r ≠ q) ∨ r = [] then some .dir
    else none
  root := by simp [hp.symm]
  closed := by
    intro r n h
    have habove : (r <+: p ∧ r ≠ p) ∨ (r <+: q ∧ r ≠ q) := by
      have hlt : ∀ {s : List ν}, r ++ [n] <+: s → r <+: s ∧ r ≠ s := by
        intro s hs
        refine ⟨(List.prefix_append r [n]).trans hs, ?_⟩
        rintro rfl
        have hlength := hs.length_le
        rw [List.length_append, List.length_singleton] at hlength
        omega
      split_ifs at h with hself hdir
      · exact Or.inl (hlt (hself ▸ List.prefix_rfl))
      · rcases hdir with hdir | hdir | hdir
        · exact Or.inl (hlt hdir.1)
        · exact Or.inr (hlt hdir.1)
        · simp at hdir
      · simp at h
    have hne : r ≠ p := by
      rintro rfl
      rcases habove with h | ⟨hq, hnot⟩
      · exact h.2 rfl
      · exact hpq.elim hnot fun hn => hn hq
    rw [if_neg hne, if_pos]
    rcases habove with h | h
    · exact Or.inl h
    · exact Or.inr (Or.inl h)

lemma room_file {p q : List ν} {data : D} (hp : p ≠ []) (hpq : p = q ∨ ¬ p <+: q) :
    (room p q data hp hpq).objects p = some (.file data) :=
  if_pos rfl

lemma room_fits {p q : List ν} {data : D} (hp : p ≠ []) (hpq : p = q ∨ ¬ p <+: q) (hq : q ≠ [])
    (hqp : p = q ∨ ¬ q <+: p) : (room p q data hp hpq).Fits q := by
  by_cases heq : p = q
  · subst heq
    exact fits_of_file (room_file hp hpq)
  · have hlast : q.dropLast ≠ q := by
      intro h
      have hlength := congrArg List.length h
      rw [List.length_dropLast] at hlength
      have := List.length_pos_iff.mpr hq
      omega
    have hbelow : q.dropLast ≠ p := by
      rintro rfl
      exact (hpq.resolve_left heq) (List.dropLast_prefix q)
    refine ⟨hq, ?_, ?_⟩
    · exact (if_neg hbelow).trans (if_pos (Or.inr (Or.inl ⟨List.dropLast_prefix q, hlast⟩)))
    · unfold room
      dsimp only
      rw [if_neg (Ne.symm heq), if_neg]
      · simp
      · rintro (h | h | h)
        · exact (hqp.resolve_left heq) h.1
        · exact h.2 rfl
        · exact hq h

/-- The tree with another object, or none, at a place for a file. -/
def set (t : Tree ν D) {p : List ν} (h : t.Fits p) (data : Option D) : Tree ν D where
  objects := Function.update t.objects p (data.map .file)
  root := by
    rw [Function.update_of_ne h.ne_nil.symm]
    exact t.root
  closed := by
    intro q n hne
    have hdir : t.objects q = some .dir := by
      by_cases heq : q ++ [n] = p
      · have hparent := h.parent
        rwa [← heq, List.dropLast_concat] at hparent
      · rw [Function.update_of_ne heq] at hne
        exact t.closed q n hne
    rw [Function.update_of_ne]
    · exact hdir
    · rintro rfl
      exact h.not_dir hdir

@[simp] lemma objects_set (t : Tree ν D) {p : List ν} (h : t.Fits p) (data : Option D) :
    (t.set h data).objects = Function.update t.objects p (data.map .file) := rfl

end operations

/-- What moving from one path to another does: all that is at or below the one is then at or below
the other, in place of what was there. The root is not moved, and a directory is neither moved
into itself nor replaced while there is something in it. -/
structure Moved (t : Tree ν D) (p q : List ν) (t' : Tree ν D) : Prop where
  ne_nil : p ≠ []
  source : t.objects p ≠ none
  apart : p ≠ q → ¬ p <+: q
  replaced : p ≠ q → ∀ r, r ≠ [] → t.objects (q ++ r) = none
  there : ∀ r, t'.objects (q ++ r) = t.objects (p ++ r)
  gone : ∀ r, ¬ q <+: r → p <+: r → t'.objects r = none
  others : ∀ r, ¬ q <+: r → ¬ p <+: r → t'.objects r = t.objects r

lemma Moved.left {t' : Tree ν D} (h : t.Moved p q t') (hne : p ≠ q) (r : List ν) :
    t'.objects (p ++ r) = none := by
  apply h.gone
  · intro hqr
    rcases List.prefix_or_prefix_of_prefix hqr (List.prefix_append p r) with hqp | hpq
    · obtain ⟨s, rfl⟩ := hqp
      refine h.source (h.replaced hne s ?_)
      rintro rfl
      simp at hne
    · exact h.apart hne hpq
  · exact List.prefix_append p r

structure Removed [DecidableEq ν] (t : Tree ν D) (p : List ν) (t' : Tree ν D) : Prop where
  source : t.objects p ≠ none
  objects : t'.objects = Function.update t.objects p none

lemma Moved.of_removed [DecidableEq ν] {s t' : Tree ν D} (hs : t.Removed q s) (h : s.Moved p q t') :
    p ≠ q ∧ ∀ r, t'.objects (q ++ r) = t.objects (p ++ r) := by
  have hne : p ≠ q := by
    rintro rfl
    apply h.source
    rw [hs.objects, Function.update_self]
  refine ⟨hne, fun r => ?_⟩
  rw [h.there, hs.objects, Function.update_of_ne]
  intro hq
  exact h.apart hne (hq ▸ List.prefix_append p r)

end Tree

end KioExtras.Lib.Directories
