import KioExtras.Man.Expression
import Mathlib.Algebra.Ring.Int.Defs

/-!
Which fractions an expression reads, and that a long one divides by zero.

The denominator of a fraction is a power of ten that is kept as an `int`: behind 32 digits it is 0.
-/

namespace KioExtras.Man.Expression

/-! ### What is read -/

/-- The lengths of the fractions that were read, and where reading went on from. -/
abbrev Reads := List ℕ × Option (Text × Globals)

def Reads.andThen (r : Reads) (f : Text → Globals → Reads) : Reads :=
  match r.2 with
  | none => r
  | some (c, g) => (r.1 ++ (f c g).1, (f c g).2)

variable (c : Text)

def behindNumber : Text := skipAlpha (fraction (c.dropWhile Char.isDigit)).2

/-- The digits behind the point of a number. -/
def fractionDigits : Text := (fraction (c.dropWhile Char.isDigit)).1

section

variable (env : Env) (inner : Text → Globals → Reads) (numLoop : ℕ)

/-- The numbers up to the end of an expression. It makes a difference for `-=` whether an operator
waits for its operand. -/
def loopReads : ℕ → Bool → Text → Globals → Reads
  | 0, _, _, _ => ([], none)
  | _ + 1, _, [], g => ([], some ([], g))
  | fuel + 1, waits, x :: c, g =>
    if ends numLoop x = true then ([], some (skipClose (x :: c), g))
    else if x = '(' then (inner c g).andThen (loopReads fuel false)
    else if x = '.' ∨ x.isDigit = true then
      Reads.andThen ([(fractionDigits (x :: c)).length], some (behindNumber (x :: c), g)) fun c g =>
        if c.head? = some '.' then ([], some (c, g)) else loopReads fuel false c g
    else if x = '\\' then
      let (n, g) := env.scan_escape c g
      loopReads fuel false (skipAlpha (c.drop n)) g
    else if x = '-' ∧ waits = true then loopReads fuel true c g
    else if isOperator x = true then loopReads fuel true (operator x c).2 g
    else loopReads fuel waits c g

end

variable (env : Env)

def stringsReads (x : Char) (c : Text) (g : Globals) : Reads :=
  match strings env x c g with
  | .ok (_, c, g) => ([], some (c, g))
  | .error _ => ([], none)

def expressionReads (env : Env) : ℕ → ℕ → Text → Globals → Reads
  | 0, _, _, _ => ([], none)
  | _ + 1, _, [], _ => ([], none)
  | fuel + 1, numLoop, x :: c, g =>
    let skipping := { g with skip_escape := true }
    Reads.andThen
      (if x = '!' then expressionReads env fuel 0 c skipping
      else if x = 'n' ∨ x = 't' then ([], some (c, skipping))
      else if startsString x c = true then stringsReads env x c skipping
      else loopReads env (expressionReads env fuel (numLoop + 1)) numLoop (fuel + 1) true (x :: c)
        skipping)
      fun c g' => ([], some (c, { g' with skip_escape := g.skip_escape }))

def evaluateReads (c : Text) (g : Globals) : Reads :=
  expressionReads env (c.length + 1) 0 c g

/-! ### The denominator -/

lemma wrap_mul_wrap (a b : ℤ) : wrap (wrap a * b) = wrap (a * b) := by
  rw [wrap, wrap, wrap, Int.bmod_mul_bmod]

lemma denumerator_eq (digits : Text) : denumerator digits = wrap (10 ^ digits.length) := by
  have hfold : ∀ (ds : Text) (n : ℤ),
      ds.foldl (fun denum _ => wrap (denum * 10)) (wrap n) = wrap (n * 10 ^ ds.length) := by
    intro ds
    induction ds with
    | nil => intro n; simp
    | cons d ds ih =>
      intro n
      rw [List.foldl_cons, wrap_mul_wrap, ih, List.length_cons]
      congr 1
      rw [Int.pow_succ', Int.mul_assoc]
  have hone : wrap 1 = 1 := by decide
  have h := hfold digits 1
  rw [hone, Int.one_mul] at h
  exact h

lemma power_ne_zero : ∀ n < 32, wrap (10 ^ n) ≠ 0 := by decide

lemma denumerator_eq_zero (digits : Text) : denumerator digits = 0 ↔ 32 ≤ digits.length := by
  rw [denumerator_eq]
  constructor
  · intro h
    by_contra hlt
    exact power_ne_zero _ (by omega) h
  · intro h
    obtain ⟨k, hk⟩ : ∃ k, digits.length = 32 + k := ⟨digits.length - 32, by omega⟩
    have hdvd : (2 ^ 32 : ℤ) ∣ 10 ^ digits.length := by
      refine ⟨5 ^ 32 * 10 ^ k, ?_⟩
      rw [hk, Int.pow_add, ← Int.mul_assoc]
      rfl
    exact Int.bmod_eq_zero_of_dvd hdvd

/-! ### Reading and evaluating -/

variable {α : Type} {fuel n : ℕ}

/-- The evaluation divides by zero if one of the fractions is long, and goes on from where reading
did otherwise. -/
def Follows (x : Except Trap (α × Text × Globals)) (r : Reads) : Prop :=
  if ∀ n ∈ r.1, n < 32 then
    match r.2 with
    | some (c, g) => ∃ v, x = .ok (v, c, g)
    | none => ∃ t, x = .error t ∧ t ≠ .divisionByZero
  else x = .error .divisionByZero

section

variable {α β : Type} {x : Except Trap (α × Text × Globals)} {r : Reads}

lemma follows_ok {v : α} {c : Text} {g : Globals} : Follows (.ok (v, c, g)) ([], some (c, g)) := by
  rw [Follows, if_pos (by simp)]
  exact ⟨v, rfl⟩

lemma follows_error {t : Trap} (h : t ≠ .divisionByZero) :
    Follows (α := α) (.error t) ([], none) := by
  rw [Follows, if_pos (by simp)]
  exact ⟨t, rfl, h⟩

lemma Follows.bind (h : Follows x r) {f : α × Text × Globals → Except Trap (β × Text × Globals)}
    {k : Text → Globals → Reads} (hf : ∀ v c g, Follows (f (v, c, g)) (k c g)) :
    Follows (x >>= f) (r.andThen k) := by
  obtain ⟨ns, rest⟩ := r
  by_cases hshort : ∀ n ∈ ns, n < 32
  · cases rest with
    | none =>
      rw [Follows, if_pos hshort] at h
      obtain ⟨t, rfl, ht⟩ := h
      rw [Follows, Reads.andThen, if_pos hshort]
      exact ⟨t, rfl, ht⟩
    | some rest =>
      obtain ⟨c, g⟩ := rest
      rw [Follows, if_pos hshort] at h
      obtain ⟨v, rfl⟩ := h
      have hnext := hf v c g
      have hall : (∀ n ∈ ns ++ (k c g).1, n < 32) ↔ ∀ n ∈ (k c g).1, n < 32 := by
        simp only [List.mem_append]
        exact ⟨fun h n hn => h n (Or.inr hn), fun h n hn => hn.elim (hshort n) (h n)⟩
      simp only [Follows, Reads.andThen, hall]
      exact hnext
  · have hx : x = .error .divisionByZero := by
      rwa [Follows, if_neg hshort] at h
    subst hx
    have hlong : ¬ ∀ n ∈ (Reads.andThen (ns, rest) k).1, n < 32 := by
      intro hall
      apply hshort
      intro n hn
      apply hall n
      cases rest with
      | none => exact hn
      | some rest => exact List.mem_append_left _ hn
    rw [Follows, if_neg hlong]
    rfl

lemma Follows.map (h : Follows x r) {f : α × Text × Globals → β × Text × Globals}
    {k : Text → Globals → Text × Globals} (hf : ∀ v c g, (f (v, c, g)).2 = k c g) :
    Follows (Except.map f x) (r.andThen fun c g => ([], some (k c g))) := by
  have hbind : Except.map f x = x >>= fun p => .ok (f p) := by
    cases x <;> rfl
  rw [hbind]
  refine h.bind fun v c g => ?_
  rw [← hf v c g]
  exact follows_ok (v := (f (v, c, g)).1)

end

lemma andThen_keep (r : Reads) : r.andThen (fun c g => ([], some (c, g))) = r := by
  obtain ⟨ns, rest⟩ := r
  cases rest with
  | none => rfl
  | some rest => simp [Reads.andThen]

lemma divide_ok {a b : ℤ} (h : b ≠ 0) : divide a b = .ok (wrap (a.tdiv b)) := if_neg h

lemma scaled_ok {denum : ℤ} (h : denum ≠ 0) (value2 num : ℤ) (c : Text) :
    ∃ v n, scaled value2 num denum c = .ok (v, n, skipAlpha c) := by
  cases c with
  | nil => exact ⟨value2, num, rfl⟩
  | cons x c =>
    rw [scaled, skipAlpha]
    split_ifs
    · rw [divide_ok h]
      exact ⟨_, _, rfl⟩
    · exact ⟨_, _, rfl⟩
    · exact ⟨_, _, rfl⟩

lemma scaled_zero (value2 num : ℤ) (c : Text) :
    scaled value2 num 0 c = .error .divisionByZero ∨ ∃ r, scaled value2 num 0 c = .ok r := by
  cases c with
  | nil => exact Or.inr ⟨_, rfl⟩
  | cons x c =>
    rw [scaled]
    split_ifs
    · exact Or.inl rfl
    · exact Or.inr ⟨_, rfl⟩
    · exact Or.inr ⟨_, rfl⟩

lemma number_reads (sign : ℤ) (c : Text) :
    if (fractionDigits c).length < 32 then
      ∃ v, number sign c =
        .ok (v, decide ((behindNumber c).head? = some '.'), behindNumber c)
    else number sign c = .error .divisionByZero := by
  have hzero := denumerator_eq_zero (fractionDigits c)
  unfold fractionDigits at hzero ⊢
  unfold behindNumber
  simp only [number]
  generalize fraction (c.dropWhile Char.isDigit) = digits at hzero ⊢
  split_ifs with hshort
  · have hne : denumerator digits.1 ≠ 0 := fun h => by
      have hlong := hzero.mp h
      omega
    obtain ⟨v, n, hscaled⟩ :=
      scaled_ok hne (toInt (c.takeWhile Char.isDigit)) (toInt digits.1) digits.2
    simp only [bind, Except.bind, hscaled, divide_ok hne]
    exact ⟨_, rfl⟩
  · rw [hzero.mpr (by omega)]
    have hdivide : ∀ a, divide a 0 = .error .divisionByZero := fun a => if_pos rfl
    rcases scaled_zero (toInt (c.takeWhile Char.isDigit)) (toInt digits.1) digits.2 with
      hscaled | ⟨r, hscaled⟩
    · simp only [bind, Except.bind, hscaled]
    · simp only [bind, Except.bind, hscaled, hdivide]

lemma forward_cases (n : ℕ) (c : Text) :
    forward n c = .error .outside ∨ ∃ d, forward n c = .ok d ∧ d.length ≤ c.length := by
  unfold forward
  split_ifs
  · exact Or.inr ⟨_, rfl, (List.drop_suffix n c).length_le⟩
  · exact Or.inl rfl

lemma untilSeparator_cases (x : Char) (c : Text) :
    untilSeparator x c = .error .outside ∨
      ∃ h d, untilSeparator x c = .ok (h, d) ∧ d.length ≤ c.length := by
  unfold untilSeparator
  split_ifs
  · exact Or.inl rfl
  · exact Or.inr ⟨_, _, rfl, (List.dropWhile_suffix _).length_le⟩

lemma strings_cases (x : Char) (c : Text) (g : Globals) :
    strings env x c g = .error .outside ∨
      ∃ v d g', strings env x c g = .ok (v, d, g') ∧ d.length ≤ c.length := by
  unfold strings
  generalize (if x = '\\' then 3 else 0) = more
  simp only [bind, Except.bind]
  rcases forward_cases more c with h1 | ⟨c1, h1, hle1⟩
  · exact Or.inl (by simp only [h1])
  rcases untilSeparator_cases x c1 with h2 | ⟨st1, c2, h2, hle2⟩
  · exact Or.inl (by simp only [h1, h2])
  rcases forward_cases (1 + more) c2 with h3 | ⟨c3, h3, hle3⟩
  · exact Or.inl (by simp only [h1, h2, h3])
  rcases untilSeparator_cases x c3 with h4 | ⟨st2, c4, h4, hle4⟩
  · exact Or.inl (by simp only [h1, h2, h3, h4])
  rcases forward_cases (1 + more) c4 with h5 | ⟨c5, h5, hle5⟩
  · exact Or.inl (by simp only [h1, h2, h3, h4, h5])
  refine Or.inr ⟨_, c5, _, by simp only [h1, h2, h3, h4, h5]; rfl, ?_⟩
  omega

lemma strings_reads (x : Char) (c : Text) (g : Globals) :
    Follows (strings env x c g) (stringsReads env x c g) := by
  unfold stringsReads
  rcases strings_cases env x c g with h | ⟨v, d, g', h, -⟩
  · rw [h]
    exact follows_error (by decide)
  · rw [h]
    exact follows_ok

section

variable {env : Env} {inner : Text → Globals → Result} {innerReads : Text → Globals → Reads}
  {numLoop : ℕ}

lemma loop_reads (hinner : ∀ c g, Follows (inner c g) (innerReads c g)) (fuel : ℕ)
    (s : Accumulator) (c : Text) (g : Globals) :
    Follows (loop env inner numLoop fuel s c g)
      (loopReads env innerReads numLoop fuel (decide (s.oper ≠ 0)) c g) := by
  have hoper : ∀ x c, isOperator x = true → decide ((operator x c).1 ≠ 0) = true := by
    intro x c hx
    have hpos : 0 < x.toNat := by
      simp only [isOperator, List.mem_cons, List.not_mem_nil, or_false, decide_eq_true_eq] at hx
      rcases hx with rfl | rfl | rfl | rfl | rfl | rfl | rfl | rfl | rfl | rfl <;> decide
    have hle : x.toNat ≤ (operator x c).1 := by
      unfold operator
      split
      · exact Nat.le_add_right _ _
      · exact Nat.le_refl _
    exact decide_eq_true (by omega)
  induction fuel generalizing s c g with
  | zero => exact follows_error (by decide)
  | succ fuel ih =>
    cases c with
    | nil => exact follows_ok
    | cons x c =>
      have hnext : ∀ (v : ℤ) c g, Follows (loop env inner numLoop fuel (s.operand v) c g)
          (loopReads env innerReads numLoop fuel false c g) :=
        fun v c g => ih (s.operand v) c g
      rw [loop, loopReads]
      by_cases hends : ends numLoop x = true
      · rw [if_pos hends, if_pos hends]
        exact follows_ok
      rw [if_neg hends, if_neg hends]
      by_cases hopen : x = '('
      · rw [if_pos hopen, if_pos hopen]
        exact (hinner c g).bind fun v c g => hnext _ c g
      rw [if_neg hopen, if_neg hopen]
      by_cases hnumber : x = '.' ∨ x.isDigit = true
      · rw [if_pos hnumber, if_pos hnumber]
        have hread := number_reads s.sign (x :: c)
        split_ifs at hread with hshort
        · obtain ⟨v, hv⟩ := hread
          rw [hv]
          have hstart : Follows (.ok (v, behindNumber (x :: c), g))
              ([(fractionDigits (x :: c)).length], some (behindNumber (x :: c), g)) := by
            rw [Follows, if_pos (by simpa using hshort)]
            exact ⟨v, rfl⟩
          have hlast := hstart.bind (f := fun p =>
              if p.2.1.head? = some '.' then .ok (s.value, p.2.1, p.2.2)
              else loop env inner numLoop fuel (s.operand p.1) p.2.1 p.2.2)
            (k := fun c g => if c.head? = some '.' then ([], some (c, g))
              else loopReads env innerReads numLoop fuel false c g) fun v c g => by
              dsimp only
              split_ifs
              · exact follows_ok
              · exact hnext v c g
          simpa only [bind, Except.bind, decide_eq_true_eq] using hlast
        · rw [hread]
          have hlong : ¬ ∀ n ∈ (Reads.andThen ([(fractionDigits (x :: c)).length],
              some (behindNumber (x :: c), g)) fun c g => if c.head? = some '.'
                then ([], some (c, g)) else loopReads env innerReads numLoop fuel false c g).1,
              n < 32 :=
            fun hall => hshort (hall _ (by simp [Reads.andThen]))
          rw [Follows, if_neg hlong]
          rfl
      rw [if_neg hnumber, if_neg hnumber]
      by_cases hescape : x = '\\'
      · rw [if_pos hescape, if_pos hescape]
        exact hnext _ _ _
      rw [if_neg hescape, if_neg hescape]
      by_cases hminus : x = '-' ∧ s.oper ≠ 0
      · rw [if_pos hminus, if_pos ⟨hminus.1, decide_eq_true hminus.2⟩]
        have h := ih { s with sign := -1 } c g
        rwa [decide_eq_true hminus.2] at h
      rw [if_neg hminus,
        if_neg (show ¬ (x = '-' ∧ decide (s.oper ≠ 0) = true) by simpa using hminus)]
      by_cases hop : isOperator x = true
      · rw [if_pos hop, if_pos hop]
        have h := ih { s with oper := (operator x c).1 } (operator x c).2 g
        rwa [hoper x c hop] at h
      · rw [if_neg hop, if_neg hop]
        exact ih s c g

end

lemma scan_expression_reads (fuel numLoop : ℕ) (c : Text) (g : Globals) :
    Follows (scan_expression env fuel numLoop c g) (expressionReads env fuel numLoop c g) := by
  induction fuel generalizing numLoop c g with
  | zero => exact follows_error (by decide)
  | succ fuel ih =>
    cases c with
    | nil => exact follows_error (by decide)
    | cons x c =>
      rw [scan_expression, expressionReads]
      refine Follows.map ?_ fun v c g => rfl
      by_cases hnot : x = '!'
      · rw [if_pos hnot, if_pos hnot]
        have h := (ih 0 c { g with skip_escape := true }).map
          (f := fun r => (truth (r.1 = 0), r.2)) (k := fun c g => (c, g)) fun v c g => rfl
        rwa [andThen_keep] at h
      rw [if_neg hnot, if_neg hnot]
      by_cases hn : x = 'n'
      · rw [if_pos hn, if_pos (Or.inl hn)]
        exact follows_ok
      by_cases ht : x = 't'
      · rw [if_neg hn, if_pos ht, if_pos (Or.inr ht)]
        exact follows_ok
      rw [if_neg hn, if_neg ht, if_neg (show ¬ (x = 'n' ∨ x = 't') by simp [hn, ht])]
      by_cases hstring : startsString x c = true
      · rw [if_pos hstring, if_pos hstring]
        exact strings_reads env x c _
      · rw [if_neg hstring, if_neg hstring]
        exact loop_reads (fun c g => ih (numLoop + 1) c g) (fuel + 1) begin_ (x :: c) _

/-- An expression divides by zero if it reads a fraction of 32 digits or more, and only then. -/
theorem evaluate_division_iff (env : Env) (c : Text) (g : Globals) :
    evaluate env c g ≠ .error .divisionByZero ↔ ∀ n ∈ (evaluateReads env c g).1, n < 32 := by
  have h := scan_expression_reads env (c.length + 1) 0 c g
  unfold evaluate evaluateReads
  generalize scan_expression env (c.length + 1) 0 c g = x at h ⊢
  generalize expressionReads env (c.length + 1) 0 c g = r at h ⊢
  unfold Follows at h
  split_ifs at h with hshort
  · refine ⟨fun _ => hshort, fun _ hx => ?_⟩
    subst hx
    split at h
    · obtain ⟨v, hv⟩ := h
      cases hv
    · obtain ⟨t, ht, hne⟩ := h
      exact hne (Except.error.inj ht).symm
  · exact ⟨fun hne => absurd h hne, fun hall => absurd hall hshort⟩

/-! ### The number of turns -/

/-- The evaluation ends, and gives back no more text than it got. -/
def Ends (x : Except Trap (α × Text × Globals)) (n : ℕ) : Prop :=
  match x with
  | .ok (_, c, _) => c.length ≤ n
  | .error t => t ≠ .unfinished

lemma Ends.mono {x : Except Trap (α × Text × Globals)} {m : ℕ} (h : Ends x m) (hle : m ≤ n) :
    Ends x n := by
  unfold Ends at h ⊢
  split at h
  · exact Nat.le_trans h hle
  · exact h

lemma skipAlpha_length : (skipAlpha c).length ≤ c.length := by
  unfold skipAlpha
  split
  · exact Nat.le_refl _
  · split_ifs
    · exact Nat.le_succ _
    · exact Nat.le_refl _

lemma skipClose_length : (skipClose c).length ≤ c.length := by
  unfold skipClose
  split
  · exact Nat.le_succ _
  · exact Nat.le_refl _

lemma operator_length (x : Char) (c : Text) : (operator x c).2.length ≤ c.length := by
  unfold operator
  split
  · exact Nat.le_succ _
  · exact Nat.le_refl _

lemma fraction_length : (fraction c).2.length ≤ c.length := by
  unfold fraction
  split
  · split_ifs
    · refine Nat.le_trans (List.dropWhile_suffix _).length_le (Nat.le_succ _)
    · exact Nat.le_refl _
  · exact Nat.le_refl _

lemma behindNumber_length (x : Char) (c : Text) (hx : x = '.' ∨ x.isDigit = true)
    (hpoint : (behindNumber (x :: c)).head? ≠ some '.') :
    (behindNumber (x :: c)).length ≤ c.length := by
  unfold behindNumber at hpoint ⊢
  cases hdigit : x.isDigit with
  | true =>
    rw [List.dropWhile_cons_of_pos hdigit]
    exact Nat.le_trans (skipAlpha_length _) (Nat.le_trans (fraction_length _)
      (List.dropWhile_suffix _).length_le)
  | false =>
    obtain rfl : x = '.' := hx.resolve_right (by simp [hdigit])
    rw [List.dropWhile_cons_of_neg (by simp [hdigit])] at hpoint ⊢
    match c with
    | [] => exact absurd (by decide) hpoint
    | y :: c =>
      unfold fraction at hpoint ⊢
      by_cases hy : y.isDigit = true
      · simp only [hy, if_true] at hpoint ⊢
        exact Nat.le_trans (skipAlpha_length _) (List.dropWhile_suffix _).length_le
      · simp only [hy] at hpoint
        exact absurd rfl hpoint

lemma strings_ends (x : Char) (c : Text) (g : Globals) : Ends (strings env x c g) c.length := by
  rcases strings_cases env x c g with h | ⟨v, d, g', h, hle⟩
  · rw [h]
    exact Trap.noConfusion
  · rw [h]
    exact hle

lemma loop_ends {env : Env} {inner : Text → Globals → Result} {numLoop : ℕ}
    (hinner : ∀ c g, c.length < n → Ends (inner c g) c.length) {c : Text} (hfuel : c.length < fuel)
    (hn : c.length ≤ n) (s : Accumulator) (g : Globals) :
    Ends (loop env inner numLoop fuel s c g) c.length := by
  induction fuel generalizing s c g with
  | zero => exact absurd hfuel (Nat.not_lt_zero _)
  | succ fuel ih =>
    cases c with
    | nil => exact Nat.le_refl 0
    | cons x c =>
      rw [List.length_cons] at hfuel hn ⊢
      -- the loop goes on with a shorter text
      have hnext : ∀ (s : Accumulator) (d : Text) (g : Globals), d.length ≤ c.length →
          Ends (loop env inner numLoop fuel s d g) (c.length + 1) := fun s d g hd =>
        (ih (by omega) (by omega) s g).mono (by omega)
      rw [loop]
      split_ifs with hends hopen hnumber hescape hminus hop
      · exact skipClose_length (x :: c)
      · have h := hinner c g (by omega)
        cases hc : inner c g with
        | error t =>
          rw [hc] at h
          exact h
        | ok r =>
          rw [hc] at h
          exact hnext _ _ _ h
      · have h := number_reads s.sign (x :: c)
        split_ifs at h
        · obtain ⟨v, hv⟩ := h
          rw [hv]
          simp only [bind, Except.bind, decide_eq_true_eq]
          split_ifs with hlast
          · refine Nat.le_trans (skipAlpha_length _) (Nat.le_trans (fraction_length _) ?_)
            exact (List.dropWhile_suffix _).length_le
          · exact hnext _ _ _ (behindNumber_length x c hnumber hlast)
        · rw [h]
          exact Trap.noConfusion
      · refine hnext _ _ _ (Nat.le_trans (skipAlpha_length _) ?_)
        exact (List.drop_suffix _ c).length_le
      · exact hnext _ _ _ (Nat.le_refl _)
      · exact hnext _ _ _ (operator_length x c)
      · exact hnext _ _ _ (Nat.le_refl _)

lemma ends_map {β : Type} {x : Except Trap (α × Text × Globals)} (h : Ends x n)
    {f : α × Text × Globals → β × Text × Globals} (hf : ∀ r, (f r).2.1 = r.2.1) :
    Ends (Except.map f x) n := by
  cases x with
  | error t => exact h
  | ok r =>
    change (f r).2.1.length ≤ n
    rw [hf r]
    exact h

lemma scan_expression_ends {c : Text} (hfuel : c.length < fuel) (numLoop : ℕ) (g : Globals) :
    Ends (scan_expression env fuel numLoop c g) c.length := by
  induction fuel generalizing numLoop c g with
  | zero => exact absurd hfuel (Nat.not_lt_zero _)
  | succ fuel ih =>
    cases c with
    | nil => exact Trap.noConfusion
    | cons x c =>
      rw [List.length_cons] at hfuel ⊢
      rw [scan_expression]
      refine ends_map ?_ fun r => rfl
      split_ifs
      · exact ends_map ((ih (by omega) 0 _).mono (Nat.le_succ _)) fun r => rfl
      · exact Nat.le_succ _
      · exact Nat.le_succ _
      · exact (strings_ends env x c _).mono (Nat.le_succ _)
      · exact loop_ends (n := c.length + 1) (c := x :: c)
          (fun d g hd => ih (by omega) (numLoop + 1) g) (by simpa using hfuel) (Nat.le_refl _)
          begin_ _

lemma evaluate_ends (c : Text) (g : Globals) : evaluate env c g ≠ .error .unfinished := by
  have h := scan_expression_ends env (Nat.lt_succ_self c.length) 0 g
  intro hx
  unfold evaluate at hx
  rw [hx] at h
  exact h rfl

end KioExtras.Man.Expression
