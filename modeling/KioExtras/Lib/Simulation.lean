import KioExtras.Lib.Run

/-!
A partial system beside a total specification.

The system may fail where the specification goes on. Where the two are related, a condition on the
specification says which steps fail. The rules below carry that to runs.
-/

namespace KioExtras.Lib.Run

variable {σ τ Λ : Type*} {step : σ → Λ → Option σ} {next : τ → Λ → τ}

/-- Every step of the specification, with the state it is taken in, satisfies `P`. -/
def AllNext (next : τ → Λ → τ) (P : τ → Λ → Prop) : τ → List Λ → Prop
  | _, [] => True
  | a, l :: ls => P a l ∧ AllNext next P (next a l) ls

variable {P : τ → Λ → Prop} {R : σ → τ → Prop} {a : τ} {s : σ} {ls : List Λ}

/-- **Exact simulation**: where a step that satisfies `P` is taken by both sides and keeps them
related, and any other step fails, a run ends related if all its steps satisfy `P`, and fails
otherwise. -/
theorem run_simulates_iff (hgood : ∀ s a l, R s a → P a l → ∃ t, step s l = some t ∧ R t (next a l))
    (hbad : ∀ s a l, R s a → ¬ P a l → step s l = none) (hR : R s a) (ls : List Λ) :
    (∃ t, run step s ls = some t ∧ R t (ls.foldl next a)) ↔ AllNext next P a ls := by
  induction ls generalizing s a with
  | nil => exact ⟨fun _ => trivial, fun _ => ⟨s, rfl, hR⟩⟩
  | cons l ls ih =>
    by_cases hl : P a l
    · obtain ⟨u, hu, hRu⟩ := hgood s a l hR hl
      simp only [run_cons, hu, Option.bind_some, List.foldl_cons, AllNext, hl, true_and]
      exact ih hRu
    · have hnone := hbad s a l hR hl
      simp [AllNext, hl, hnone]

/-- **Simulation**: a run whose steps all satisfy `P` goes through and ends related. -/
theorem run_simulates (hgood : ∀ s a l, R s a → P a l → ∃ t, step s l = some t ∧ R t (next a l))
    (hR : R s a) (h : AllNext next P a ls) :
    ∃ t, run step s ls = some t ∧ R t (ls.foldl next a) := by
  induction ls generalizing s a with
  | nil => exact ⟨s, rfl, hR⟩
  | cons l ls ih =>
    obtain ⟨u, hu, hRu⟩ := hgood s a l hR h.1
    obtain ⟨t, ht, hlast⟩ := ih hRu h.2
    exact ⟨t, by rw [run_cons, hu]; exact ht, hlast⟩

theorem run_related (hgood : ∀ s a l, R s a → P a l → ∃ t, step s l = some t ∧ R t (next a l))
    (hbad : ∀ s a l, R s a → ¬ P a l → step s l = none) {t : σ} (hR : R s a)
    (h : run step s ls = some t) : R t (ls.foldl next a) := by
  induction ls generalizing s a with
  | nil => exact Option.some.inj h ▸ hR
  | cons l ls ih =>
    obtain ⟨u, hu, hrest⟩ := run_cons_some step h
    by_cases hl : P a l
    · obtain ⟨v, hv, hRv⟩ := hgood s a l hR hl
      obtain rfl : u = v := Option.some.inj (hu.symm.trans hv)
      exact ih hRv hrest
    · rw [hbad s a l hR hl] at hu
      exact absurd hu (by simp)

/-- **Exact progress**: where a step that satisfies `P` keeps the invariant, and any other step
fails, a run goes through if and only if all its steps satisfy `P`. -/
theorem run_progress_iff {I : σ → Prop} {P : σ → Λ → Prop}
    (hgood : ∀ s l, I s → P s l → ∃ t, step s l = some t ∧ I t)
    (hbad : ∀ s l, I s → ¬ P s l → step s l = none) (hs : I s) (ls : List Λ) :
    (∃ t, run step s ls = some t ∧ I t) ↔ AllSteps step P s ls := by
  induction ls generalizing s with
  | nil => exact ⟨fun _ => trivial, fun _ => ⟨s, rfl, hs⟩⟩
  | cons l ls ih =>
    by_cases hl : P s l
    · obtain ⟨u, hu, hi⟩ := hgood s l hs hl
      simp only [run_cons, hu, Option.bind_some, AllSteps, hl, true_and, Option.some.injEq,
        forall_eq']
      exact ih hi
    · have hnone := hbad s l hs hl
      simp [AllSteps, hl, hnone]

end KioExtras.Lib.Run
