import Mathlib.Algebra.GroupWithZero.Nat
import Mathlib.Data.List.Basic
import Mathlib.Tactic.Common

/-!
Runs of a system given by a partial step function.

A label says which of the things that may happen next does happen: which thread moves, what
a call returns. A run is the list of the labels taken. The rules below are the only
inductions over runs the other modules need: an invariant, a bound on the length by a
measure, and the image of a run under a map that forgets part of the state.
-/

namespace KioExtras.Lib.Run

variable {σ Λ : Type*} (step : σ → Λ → Option σ)

/-- The state after the labels, or `none` when one of them was not enabled. -/
def run (s : σ) : List Λ → Option σ
  | [] => some s
  | l :: ls => (step s l).bind fun t => run t ls

@[simp] lemma run_nil (s : σ) : run step s [] = some s := rfl

@[simp] lemma run_cons (s : σ) (l : Λ) (ls : List Λ) :
    run step s (l :: ls) = (step s l).bind fun t => run step t ls := rfl

lemma run_append (s : σ) (ls ms : List Λ) :
    run step s (ls ++ ms) = (run step s ls).bind fun t => run step t ms := by
  induction ls generalizing s with
  | nil => simp
  | cons l ls ih =>
    cases h : step s l with
    | none => simp [h]
    | some t => simp [h, ih]

variable {l : Λ} {ls : List Λ} {s t : σ} {P : σ → Λ → Prop} {I : σ → Prop}

lemma run_cons_some {u : σ} (h : run step s (l :: ls) = some u) :
    ∃ t, step s l = some t ∧ run step t ls = some u := by
  simpa [Option.bind_eq_some_iff] using h

/-- The states a system can be in after some run. -/
def Reaches (s t : σ) : Prop := ∃ ls, run step s ls = some t

def CanStep (s : σ) : Prop := ∃ l, (step s l).isSome

variable {step}

/-- Every step of the run, with the state it is taken in, satisfies `P`. -/
def AllSteps (step : σ → Λ → Option σ) (P : σ → Λ → Prop) : σ → List Λ → Prop
  | _, [] => True
  | s, l :: ls => P s l ∧ ∀ t, step s l = some t → AllSteps step P t ls

lemma allSteps_of_labels {P : Λ → Prop} (h : ∀ l ∈ ls, P l) : AllSteps step (fun _ => P) s ls := by
  induction ls generalizing s with
  | nil => trivial
  | cons l ls ih =>
    exact ⟨h l (by simp), fun t _ => ih fun m hm => h m (by simp [hm])⟩

lemma allSteps_append {ms : List Λ} (hP : AllSteps step P s (ls ++ ms))
    (h : run step s ls = some t) : AllSteps step P s ls ∧ AllSteps step P t ms := by
  induction ls generalizing s with
  | nil =>
    obtain rfl := Option.some.inj h
    exact ⟨trivial, hP⟩
  | cons l ls ih =>
    obtain ⟨u, hu, hrest⟩ := run_cons_some step h
    obtain ⟨hfirst, hlast⟩ := ih (hP.2 u hu) hrest
    refine ⟨⟨hP.1, fun v hv => ?_⟩, hlast⟩
    obtain rfl : u = v := by simpa [hu] using hv
    exact hfirst

lemma allSteps_of_forall (h : ∀ s l, P s l) (s : σ) (ls : List Λ) : AllSteps step P s ls := by
  induction ls generalizing s with
  | nil => trivial
  | cons l ls ih => exact ⟨h s l, fun t _ => ih t⟩

lemma allSteps_cons (h : step s l = some t) (hP : P s l) (hrest : AllSteps step P t ls) :
    AllSteps step P s (l :: ls) := by
  refine ⟨hP, fun u hu => ?_⟩
  obtain rfl : t = u := by simpa [h] using hu
  exact hrest

/-- Two properties of steps that agree where an invariant holds agree along a run whose steps keep
the invariant. -/
theorem allSteps_congr {Q R : σ → Λ → Prop} (hstep : ∀ s l t, I s → P s l → step s l = some t → I t)
    (hiff : ∀ s l, I s → P s l → (Q s l ↔ R s l)) (hP : AllSteps step P s ls) (hs : I s) :
    AllSteps step Q s ls ↔ AllSteps step R s ls := by
  induction ls generalizing s with
  | nil => exact Iff.rfl
  | cons l ls ih =>
    have hrest : ∀ t, step s l = some t → (AllSteps step Q t ls ↔ AllSteps step R t ls) :=
      fun t ht => ih (hP.2 t ht) (hstep s l t hs hP.1 ht)
    exact and_congr (hiff s l hs hP.1) (forall_congr' fun t => imp_congr_right (hrest t))

/-- Along a run with decidable steps it is decided what the steps satisfy. -/
instance decidableAllSteps {P : σ → Λ → Prop} [∀ s l, Decidable (P s l)] :
    ∀ s ls, Decidable (AllSteps step P s ls)
  | _, [] => .isTrue trivial
  | s, l :: ls =>
    match h : step s l with
    | none => decidable_of_iff (P s l) ⟨fun hP => ⟨hP, by simp [h]⟩, And.left⟩
    | some t =>
      have : Decidable (AllSteps step P t ls) := decidableAllSteps t ls
      decidable_of_iff (P s l ∧ AllSteps step P t ls)
        ⟨fun hP => allSteps_cons h hP.1 hP.2, fun hP => ⟨hP.1, hP.2 t h⟩⟩

/-- **Invariant rule**: what one step preserves, a run preserves. The step may use what holds
of all steps of the run. -/
theorem run_inv (hstep : ∀ s l t, I s → P s l → step s l = some t → I t) (hP : AllSteps step P s ls)
    (hs : I s) (h : run step s ls = some t) : I t := by
  induction ls generalizing s with
  | nil => simp only [run_nil, Option.some.injEq] at h; exact h ▸ hs
  | cons l ls ih =>
    obtain ⟨u, hu, hrest⟩ := run_cons_some step h
    exact ih (hP.2 u hu) (hstep s l u hs hP.1 hu) hrest

/-- **Progress rule**: where every step that satisfies `P` is enabled and preserves the
invariant, so is every run of such steps. -/
theorem run_progress (hstep : ∀ s l, I s → P s l → ∃ t, step s l = some t ∧ I t)
    (hP : AllSteps step P s ls) (hs : I s) : ∃ t, run step s ls = some t ∧ I t := by
  induction ls generalizing s with
  | nil => exact ⟨s, rfl, hs⟩
  | cons l ls ih =>
    obtain ⟨t, ht, hi⟩ := hstep s l hs hP.1
    obtain ⟨u, hu, hlast⟩ := ih (hP.2 t ht) hi
    exact ⟨u, by rw [run_cons, ht]; exact hu, hlast⟩

/-- **Exactness rule**: where a step that satisfies `P` preserves an invariant with `Good`, and any
other step leads to a state that is not good, all states of a run are good if and only if all its
steps satisfy `P`. -/
theorem prefixes_iff {Good : σ → Prop} (hgood : ∀ s, I s → Good s)
    (hstep : ∀ s l t, I s → P s l → step s l = some t → I t)
    (hbad : ∀ s l, I s → ¬ P s l → ∃ t, step s l = some t ∧ ¬ Good t) (hs : I s) (ls : List Λ) :
    (∀ ms t, ms <+: ls → run step s ms = some t → Good t) ↔ AllSteps step P s ls := by
  induction ls generalizing s with
  | nil =>
    refine ⟨fun _ => trivial, fun _ ms t hms ht => ?_⟩
    obtain rfl := List.prefix_nil.mp hms
    obtain rfl := Option.some.inj ht
    exact hgood s hs
  | cons l ls ih =>
    constructor
    · intro hall
      have hl : P s l := by
        by_contra hnot
        obtain ⟨t, ht, hnot⟩ := hbad s l hs hnot
        exact hnot (hall [l] t (by simp) (by simp [ht]))
      refine ⟨hl, fun t ht => (ih (hstep s l t hs hl ht)).mp fun ms u hms hu => ?_⟩
      exact hall (l :: ms) u (List.cons_prefix_cons.mpr ⟨rfl, hms⟩) (by simpa [ht] using hu)
    · rintro ⟨hl, hrest⟩ ms u hms hu
      cases ms with
      | nil =>
        obtain rfl := Option.some.inj hu
        exact hgood s hs
      | cons m ms =>
        obtain ⟨rfl, hms'⟩ := List.cons_prefix_cons.mp hms
        obtain ⟨t, ht, hu'⟩ := run_cons_some step hu
        exact (ih (hstep s m t hs hl ht)).mpr (hrest t ht) ms u hms' hu'

/-- The invariant rule for the reachable states. -/
theorem Reaches.inv (hstep : ∀ s l t, I s → step s l = some t → I t) (hs : I s)
    (h : Reaches step s t) : I t := by
  obtain ⟨ls, hls⟩ := h
  exact run_inv (P := fun _ _ => True) (fun s l t hi _ => hstep s l t hi)
    (allSteps_of_labels (P := fun _ => True) (by simp)) hs hls

/-- **Termination rule**: if a step with label `l` lowers a measure, or raises it by less than
its cost `c l`, the measure at the start and the costs bound the length of the run. -/
theorem run_length_le (μ : σ → ℕ) (c : Λ → ℕ)
    (hstep : ∀ s l t, I s → step s l = some t → I t ∧ μ t < μ s + c l) (hs : I s)
    (h : run step s ls = some t) : ls.length + μ t ≤ μ s + (ls.map c).sum := by
  induction ls generalizing s with
  | nil => simp only [run_nil, Option.some.injEq] at h; simp [h]
  | cons l ls ih =>
    obtain ⟨u, hu, hrest⟩ := run_cons_some step h
    obtain ⟨hi, hlt⟩ := hstep s l u hs hu
    have hle := ih hi hrest
    simp only [List.length_cons, List.map_cons, List.sum_cons]
    omega

/-- **Termination rule under a condition**: where every step that satisfies `P` lowers a measure,
a run of such steps is no longer than the measure at its start. -/
theorem run_length_le_of (μ : σ → ℕ)
    (hstep : ∀ s l t, I s → P s l → step s l = some t → I t ∧ μ t < μ s) (hP : AllSteps step P s ls)
    (hs : I s) (h : run step s ls = some t) : ls.length + μ t ≤ μ s := by
  induction ls generalizing s with
  | nil =>
    obtain rfl := Option.some.inj h
    simp
  | cons l ls ih =>
    obtain ⟨u, hu, hrest⟩ := run_cons_some step h
    obtain ⟨hi, hlt⟩ := hstep s l u hs hP.1 hu
    have hle := ih (hP.2 u hu) hi hrest
    rw [List.length_cons]
    omega

end KioExtras.Lib.Run
