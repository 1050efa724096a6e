import KioExtras.Man.Bounds
import KioExtras.Man.Fractions
import Mathlib.Algebra.Ring.Int.Parity

/-!
Expressions of integers, signs, brackets and operators, and what they are worth from left to right.
-/

namespace KioExtras.Man.Expression

/-! ### Expressions -/

inductive Op
  | add | sub | mul | div | mod | lt | gt | le | ge | eq | eqq | and | or
  deriving DecidableEq

def Op.text : Op → Text
  | add => ['+']
  | sub => ['-']
  | mul => ['*']
  | div => ['/']
  | mod => ['%']
  | lt => ['<']
  | gt => ['>']
  | le => ['<', '=']
  | ge => ['>', '=']
  | eq => ['=']
  | eqq => ['=', '=']
  | and => ['&']
  | or => [':']

def int (n : ℤ) : Option ℤ := if -2 ^ 31 ≤ n ∧ n < 2 ^ 31 then some n else none

/-- What troff makes of two operands; what is positive is true. -/
def Op.troff : Op → ℤ → ℤ → Option ℤ
  | add, a, b => int (a + b)
  | sub, a, b => int (a - b)
  | mul, a, b => int (a * b)
  | div, a, b => if b = 0 then none else int (a.tdiv b)
  | mod, a, b => if b = 0 then none else int (a.tmod b)
  | lt, a, b => some (truth (a < b))
  | gt, a, b => some (truth (a > b))
  | le, a, b => some (truth (a ≤ b))
  | ge, a, b => some (truth (a ≥ b))
  | eq, a, b => some (truth (a = b))
  | eqq, a, b => some (truth (a = b))
  | and, a, b => some (truth (0 < a ∧ 0 < b))
  | or, a, b => some (truth (0 < a ∨ 0 < b))

mutual

/-- An operand; numbers of blanks stand for the blanks behind a sign and inside of brackets. -/
inductive Term
  | num (digits : Text)
  | neg (blanks : ℕ) (t : Term)
  | paren (before : ℕ) (e : Expr) (after : ℕ)

/-- Operands in a row, with the blanks around each operator. -/
inductive Expr
  | term (t : Term)
  | op (l : Expr) (before : ℕ) (o : Op) (after : ℕ) (r : Term)

end

def blanks (n : ℕ) : Text := List.replicate n ' '

mutual

def Term.text : Term → Text
  | .num digits => digits
  | .neg n t => '-' :: (blanks n ++ t.text)
  | .paren before e after => '(' :: (blanks before ++ e.text ++ blanks after ++ [')'])

def Expr.text : Expr → Text
  | .term t => t.text
  | .op l before o after r => l.text ++ blanks before ++ o.text ++ blanks after ++ r.text

end

mutual

/-- Numbers have digits, and no blanks stand outside of brackets. -/
def Term.Wf (inside : Bool) : Term → Prop
  | .num digits => digits ≠ [] ∧ ∀ d ∈ digits, d.isDigit = true
  | .neg n t => (inside = false → n = 0) ∧ t.Wf inside
  | .paren _ e _ => e.Wf true

def Expr.Wf (inside : Bool) : Expr → Prop
  | .term t => t.Wf inside
  | .op l before _ after r =>
    (inside = false → before = 0 ∧ after = 0) ∧ l.Wf inside ∧ r.Wf inside

end

mutual

/-- The value from left to right, as long as nothing overflows and no divisor is 0. -/
def Term.eval : Term → Option ℤ
  | .num digits => int (decimal digits)
  | .neg _ t => t.eval.bind fun v => int (-v)
  | .paren _ e _ => e.eval

def Expr.eval : Expr → Option ℤ
  | .term t => t.eval
  | .op l _ o _ r => l.eval.bind fun a => r.eval.bind fun b => o.troff a b

end

/-! ### What the converter takes them for -/

/-- The operator as `oper` keeps it. -/
def Op.code : Op → ℕ
  | add => '+'.toNat
  | sub => '-'.toNat
  | mul => '*'.toNat
  | div => '/'.toNat
  | mod => '%'.toNat
  | lt => '<'.toNat
  | gt => '>'.toNat
  | le => '<'.toNat + 16
  | ge => '>'.toNat + 16
  | eq => '='.toNat
  | eqq => '='.toNat + 16
  | and => '&'.toNat
  | or => ':'.toNat

def Term.sign : Term → ℤ
  | .neg _ _ => -1
  | _ => 1

mutual

/-- The value behind the signs, of which one counts. -/
def Term.size : Term → ℤ
  | .num digits => toInt digits
  | .neg _ t => t.size
  | .paren _ e _ => e.meaning

def Expr.meaning : Expr → ℤ
  | .term t => wrap (t.sign * t.size)
  | .op l _ o _ r => apply o.code l.meaning (wrap (r.sign * r.size))

end

def Term.meaning (t : Term) : ℤ := wrap (t.sign * t.size)

/-! ### Digits -/

variable {n v : ℤ} {c : Text} {x : Char}

lemma wrap_of_int (h : -2 ^ 31 ≤ n ∧ n < 2 ^ 31) : wrap n = n :=
  Int.bmod_eq_of_le (by simpa using h.1) (by simpa using h.2)

lemma int_eq_some (h : int n = some v) : n = v ∧ wrap v = v := by
  unfold int at h
  split_ifs at h with hrange
  obtain rfl := Option.some.inj h
  exact ⟨rfl, wrap_of_int hrange⟩

lemma wrap_wrap (n : ℤ) : wrap (wrap n) = wrap n := Int.bmod_bmod

lemma wrap_add_wrap (a b : ℤ) : wrap (wrap a + b) = wrap (a + b) := by
  rw [wrap, wrap, wrap, Int.bmod_add_bmod]

lemma wrap_digit (n k : ℕ) : wrap (wrap n * 10 + k) = wrap ((10 * n + k : ℕ) : ℤ) := by
  have hcast : ((10 * n + k : ℕ) : ℤ) = n * 10 + k := by omega
  have hinner := wrap_add_wrap (wrap n * 10) k
  rw [wrap_mul_wrap] at hinner
  rw [hcast, ← hinner, wrap_add_wrap]

lemma foldl_digits (ds : Text) (n : ℕ) :
    ds.foldl (fun n ch => wrap (n * 10 + (ch.toNat - 48 : ℕ))) (wrap n) =
      wrap (ds.foldl (fun n c => 10 * n + (c.toNat - 48)) n : ℕ) := by
  induction ds generalizing n with
  | nil => rw [List.foldl_nil, List.foldl_nil]
  | cons d ds ih =>
    have hstep : wrap (wrap n * 10 + (d.toNat - 48 : ℕ)) =
        wrap ((10 * n + (d.toNat - 48) : ℕ) : ℤ) := wrap_digit n (d.toNat - 48)
    rw [List.foldl_cons, List.foldl_cons, hstep, ih]

lemma toInt_eq (digits : Text) : toInt digits = wrap (decimal digits) := by
  have hzero : wrap ((0 : ℕ) : ℤ) = 0 := by decide
  have h := foldl_digits digits 0
  rw [hzero] at h
  rw [toInt, decimal, h]

/-! ### Reading -/

/-- What may follow an expression. -/
def Closed (rest : Text) : Prop := ∀ x ∈ rest.head?, ends 0 x = true

/-- What may follow a number. -/
def NoDigit (rest : Text) : Prop :=
  ∀ x ∈ rest.head?, x.isDigit = false ∧ x.isAlpha = false ∧ x ≠ '.'

def Starts (c : Text) : Prop := ∃ x d, c = x :: d ∧ (x.isDigit = true ∨ x = '-' ∨ x = '(')

lemma closed_nil : Closed [] := fun _ hx => absurd hx (by simp)

lemma noDigit_cons (h : x.isDigit = false ∧ x.isAlpha = false ∧ x ≠ '.') : NoDigit (x :: c) := by
  intro y hy
  obtain rfl : x = y := Option.some.inj hy
  exact h

lemma noDigit_blanks (h : NoDigit c) (n : ℕ) : NoDigit (blanks n ++ c) := by
  cases n with
  | zero => exact h
  | succ n => exact noDigit_cons (by decide)

lemma noDigit_op (o : Op) (c : Text) : NoDigit (o.text ++ c) := by
  cases o <;> exact noDigit_cons (by decide)

lemma noDigit_closed {rest : Text} (h : Closed rest) : NoDigit rest := by
  intro x hx
  have hends := h x hx
  simp only [ends, isSpace, Bool.or_eq_true, Bool.and_eq_true, decide_eq_true_eq] at hends
  rcases hends with ⟨rfl | hspace, -⟩ | rfl
  · decide
  · have hcases : x.toNat = 9 ∨ x.toNat = 10 ∨ x.toNat = 11 ∨ x.toNat = 12 ∨ x.toNat = 13 := by
      omega
    have heq : x = Char.ofNat x.toNat := (Char.ofNat_toNat x).symm
    rcases hcases with h | h | h | h | h <;>
      · rw [h] at heq
        subst heq
        decide
  · decide

lemma Starts.append (h : Starts c) (d : Text) : Starts (c ++ d) := by
  obtain ⟨x, e, rfl, hx⟩ := h
  exact ⟨x, e ++ d, rfl, hx⟩

lemma term_starts (t : Term) {inside : Bool} (h : t.Wf inside) : Starts t.text := by
  cases t with
  | num digits =>
    obtain ⟨hne, hdigits⟩ := h
    obtain ⟨x, c, rfl⟩ := List.exists_cons_of_ne_nil hne
    exact ⟨x, c, rfl, Or.inl (hdigits x List.mem_cons_self)⟩
  | neg n t => exact ⟨'-', _, rfl, Or.inr (Or.inl rfl)⟩
  | paren before e after => exact ⟨'(', _, rfl, Or.inr (Or.inr rfl)⟩

lemma expr_starts (e : Expr) {inside : Bool} (h : e.Wf inside) : Starts e.text := by
  induction e using Expr.rec (motive_1 := fun _ => True) with
  | term t => exact term_starts t h
  | op l before o after r ih =>
    obtain ⟨-, hl, -⟩ := h
    have hstart := ih hl
    simp only [Expr.text, List.append_assoc]
    exact hstart.append _
  | _ => trivial

lemma number_digits {digits rest : Text}
    (hdigits : ∀ d ∈ digits, d.isDigit = true) (hrest : NoDigit rest) (sign : ℤ) :
    number sign (digits ++ rest) = .ok (wrap (sign * toInt digits), false, rest) := by
  have hhead : ∀ x ∈ rest.head?, ¬ x.isDigit = true := fun x hx => by simp [(hrest x hx).1]
  have htake : (digits ++ rest).takeWhile Char.isDigit = digits := by
    rw [List.takeWhile_append_of_pos hdigits]
    cases rest with
    | nil => simp
    | cons x rest => simp [(hrest x rfl).1]
  have hdrop : (digits ++ rest).dropWhile Char.isDigit = rest := by
    rw [List.dropWhile_append_of_pos hdigits]
    cases rest with
    | nil => rfl
    | cons x rest => simp [(hrest x rfl).1]
  have hfraction : fraction rest = ([], rest) := by
    unfold fraction
    split
    · exact absurd rfl (hrest '.' rfl).2.2
    · rfl
  have hscaled : ∀ v n d, scaled v n d rest = .ok (v, n, rest) := by
    intro v n d
    cases rest with
    | nil => rfl
    | cons x rest => simp [scaled, (hrest x rfl).2.1]
  have hlast : decide (rest.head? = some '.') = false := by
    cases rest with
    | nil => rfl
    | cons x rest => simpa using (hrest x rfl).2.2
  have hdivide : divide (wrap (toInt [] + (denumerator []).tdiv 2)) (denumerator []) = .ok 0 := by
    decide
  have hvalue : wrap (toInt digits + 0) = toInt digits := by
    rw [Int.add_zero, toInt_eq, wrap_wrap]
  simp only [number, htake, hdrop, hfraction, hscaled, bind, Except.bind, hdivide, hvalue, hlast]

section

variable {env : Env} {inner : Text → Globals → Result} {numLoop : ℕ} {s : Accumulator} {g : Globals}

/-- From one point of a text the loop gets to another, with time enough for what is left. -/
def Gets (env : Env) (inner : Text → Globals → Result) (numLoop : ℕ) (g : Globals)
    (s : Accumulator) (c : Text) (s' : Accumulator) (c' : Text) : Prop :=
  c'.length ≤ c.length ∧ ∀ fuel, c.length < fuel → ∃ fuel', c'.length < fuel' ∧
    loop env inner numLoop fuel s c g = loop env inner numLoop fuel' s' c' g

lemma Gets.refl (c : Text) : Gets env inner numLoop g s c s c :=
  ⟨Nat.le_refl _, fun fuel h => ⟨fuel, h, rfl⟩⟩

variable {c' : Text} {s' : Accumulator}

lemma Gets.trans {s'' : Accumulator} {c c'' : Text} (h : Gets env inner numLoop g s c s' c')
    (h' : Gets env inner numLoop g s' c' s'' c'') : Gets env inner numLoop g s c s'' c'' := by
  refine ⟨Nat.le_trans h'.1 h.1, fun fuel hfuel => ?_⟩
  obtain ⟨m, hm, heq⟩ := h.2 fuel hfuel
  obtain ⟨n, hn, heq'⟩ := h'.2 m hm
  exact ⟨n, hn, heq.trans heq'⟩

lemma Gets.turn {x : Char} {c : Text} (hle : c'.length ≤ c.length)
    (h : ∀ fuel, loop env inner numLoop (fuel + 1) s (x :: c) g =
      loop env inner numLoop fuel s' c' g) : Gets env inner numLoop g s (x :: c) s' c' := by
  refine ⟨Nat.le_trans hle (Nat.le_succ _), fun fuel hfuel => ?_⟩
  rw [List.length_cons] at hfuel
  obtain ⟨m, rfl⟩ : ∃ m, fuel = m + 1 := ⟨fuel - 1, by omega⟩
  exact ⟨m, by omega, h m⟩

lemma gets_blanks {n : ℕ} (h : numLoop = 0 → n = 0) (c : Text) :
    Gets env inner numLoop g s (blanks n ++ c) s c := by
  induction n with
  | zero => exact .refl c
  | succ n ih =>
    have hloop : numLoop ≠ 0 := fun hzero => absurd (h hzero) (Nat.succ_ne_zero n)
    have hends : ends numLoop ' ' = false := by simp [ends, hloop]
    refine Gets.trans (.turn (Nat.le_refl _) fun fuel => ?_) (ih fun hzero => absurd hzero hloop)
    rw [loop, if_neg (by simp [hends])]
    rfl

lemma gets_operator {x : Char} (hx : isOperator x = true) (hs : x = '-' → s.oper = 0) (c : Text) :
    Gets env inner numLoop g s (x :: c) { s with oper := (operator x c).1 } (operator x c).2 := by
  refine .turn (operator_length x c) fun fuel => ?_
  have hmem : x ∈ ['-', '>', '<', '+', '/', '*', '%', '&', '=', ':'] := by
    simpa [isOperator] using hx
  have hother : isSpace x = false ∧ x ≠ ')' ∧ x ≠ '(' ∧ ¬ (x = '.' ∨ x.isDigit = true) ∧
      x ≠ '\\' := by
    simp only [List.mem_cons, List.not_mem_nil, or_false] at hmem
    rcases hmem with rfl | rfl | rfl | rfl | rfl | rfl | rfl | rfl | rfl | rfl <;> decide
  obtain ⟨hspace, hclose, hopen, hdigit, hescape⟩ := hother
  rw [loop, if_neg (by simp [ends, hspace, hclose]), if_neg hopen, if_neg hdigit, if_neg hescape,
    if_neg fun h => h.2 (hs h.1), if_pos hx]

lemma gets_one {x : Char} (hx : isOperator x = true) (hs : x = '-' → s.oper = 0) {c : Text}
    (hc : c.head? ≠ some '=') :
    Gets env inner numLoop g s (x :: c) { s with oper := x.toNat } c := by
  have hone : operator x c = (x.toNat, c) := by
    unfold operator
    split
    · exact absurd rfl hc
    · rfl
  have h : Gets env inner numLoop g s _ _ _ := gets_operator hx hs c
  rwa [hone] at h

lemma gets_op (o : Op) (hs : s.oper = 0) {c : Text} (hc : c.head? ≠ some '=') :
    Gets env inner numLoop g s (o.text ++ c) { s with oper := o.code } c := by
  cases o with
  | le => exact gets_operator (x := '<') (by decide) (fun _ => hs) ('=' :: c)
  | ge => exact gets_operator (x := '>') (by decide) (fun _ => hs) ('=' :: c)
  | eqq => exact gets_operator (x := '=') (by decide) (fun _ => hs) ('=' :: c)
  | add | sub | mul | div | mod | lt | gt | eq | and | or =>
    exact gets_one (by decide) (fun _ => hs) hc

lemma gets_digits {digits rest : Text} (hne : digits ≠ [])
    (hdigits : ∀ d ∈ digits, d.isDigit = true) (hrest : NoDigit rest) :
    Gets env inner numLoop g s (digits ++ rest)
      (s.operand (wrap (s.sign * toInt digits))) rest := by
  have hnumber := number_digits hdigits hrest s.sign
  obtain ⟨x, ds, rfl⟩ := List.exists_cons_of_ne_nil hne
  have hx := hdigits x List.mem_cons_self
  have hends : ¬ ends numLoop x = true := by
    intro h
    have hsep : isSpace x = true ∨ x = ')' := by
      simp only [ends, Bool.or_eq_true, Bool.and_eq_true, decide_eq_true_eq] at h
      exact h.imp_left And.left
    rcases hsep with hspace | rfl
    · have hno := @noDigit_closed [x] (fun y hy => by
        obtain rfl := Option.some.inj hy
        simp [ends, hspace])
      simp [(hno x rfl).1] at hx
    · exact absurd hx (by decide)
  have hopen : x ≠ '(' := by
    rintro rfl
    exact absurd hx (by decide)
  refine .turn (by simp) fun fuel => ?_
  change loop env inner numLoop (fuel + 1) s (x :: (ds ++ rest)) g = _
  rw [loop, if_neg hends, if_neg hopen, if_pos (Or.inr hx), ← List.cons_append, hnumber]
  rfl

lemma gets_minus (hs : s.oper ≠ 0) (c : Text) :
    Gets env inner numLoop g s ('-' :: c) { s with sign := -1 } c := by
  refine .turn (Nat.le_refl _) fun fuel => ?_
  rw [loop, if_neg (by simp [ends, isSpace]), if_neg (by decide), if_neg (by decide),
    if_neg (by decide), if_pos ⟨rfl, hs⟩]

lemma gets_paren {v : ℤ} {c rest : Text} (hle : rest.length ≤ c.length)
    (h : inner c g = .ok (v, rest, g)) :
    Gets env inner numLoop g s ('(' :: c) (s.operand (wrap (s.sign * v))) rest := by
  refine .turn hle fun fuel => ?_
  rw [loop, if_neg (by simp [ends, isSpace]), if_pos rfl, h]
  rfl

end

/-- The character begins neither a negation, a condition nor a comparison of strings. -/
structure Plain (x : Char) : Prop where
  not : x ≠ '!'
  nroff : x ≠ 'n'
  troff : x ≠ 't'
  string (c : Text) : startsString x c = false

lemma plain_of_not_digit {x : Char} (hx : x ∈ ['-', '(', ' ', '+']) : Plain x := by
  simp only [List.mem_cons, List.not_mem_nil, or_false] at hx
  rcases hx with rfl | rfl | rfl | rfl <;>
    exact ⟨by decide, by decide, by decide, fun c => rfl⟩

lemma plain_of_digit (h : x.isDigit = true) : Plain x := by
  have hrange : 48 ≤ x.toNat ∧ x.toNat ≤ 57 := by
    simpa [Char.isDigit, UInt32.le_iff_toNat_le] using h
  have hne : ∀ y : Char, y.toNat < 48 ∨ 57 < y.toNat → x ≠ y := by
    rintro y hy rfl
    omega
  refine ⟨hne _ (by decide), hne _ (by decide), hne _ (by decide), fun c => ?_⟩
  have hquote := hne '\'' (by decide)
  have hdouble := hne '"' (by decide)
  have hback := hne '\\' (by decide)
  simp only [startsString, hquote, hdouble, hback, decide_false, Bool.false_and, Bool.or_false,
    Bool.false_or, Bool.or_eq_false_iff, decide_eq_false_iff_not]
  omega

lemma plain_of_starts (h : x.isDigit = true ∨ x = '-' ∨ x = '(') : Plain x := by
  rcases h with hdigit | rfl | rfl
  · exact plain_of_digit hdigit
  · exact plain_of_not_digit (by decide)
  · exact plain_of_not_digit (by decide)

lemma scan_of_gets {env : Env} {n numLoop : ℕ} {g : Globals} {v : ℤ} {x : Char} {c rest : Text}
    (hx : Plain x) (hfuel : (x :: c).length ≤ n)
    (h : Gets env (scan_expression env n (numLoop + 1)) numLoop { g with skip_escape := true }
      begin_ (x :: c) ⟨v, 1, 0⟩ rest)
    (hrest : ∀ y ∈ rest.head?, ends numLoop y = true) :
    scan_expression env (n + 1) numLoop (x :: c) g = .ok (v, skipClose rest, g) := by
  obtain ⟨fuel, hlt, heq⟩ := h.2 (n + 1) (Nat.lt_succ_of_le hfuel)
  obtain ⟨m, rfl⟩ : ∃ m, fuel = m + 1 := ⟨fuel - 1, by omega⟩
  have hlast : loop env (scan_expression env n (numLoop + 1)) numLoop (m + 1) ⟨v, 1, 0⟩ rest
      { g with skip_escape := true } = .ok (v, skipClose rest, { g with skip_escape := true }) := by
    cases rest with
    | nil => rfl
    | cons y rest => rw [loop, if_pos (hrest y rfl)]
  rw [scan_expression, if_neg hx.not, if_neg hx.nroff, if_neg hx.troff,
    if_neg (by simp [hx.string]), heq, hlast]
  rfl

def Term.signFrom (σ : ℤ) : Term → ℤ
  | .neg _ _ => -1
  | _ => σ

lemma signFrom_minus (t : Term) : t.signFrom (-1) = -1 := by cases t <;> rfl

lemma signFrom_one (t : Term) : t.signFrom 1 = t.sign := by cases t <;> rfl

lemma starts_noEquals {c : Text} (h : Starts c) (n : ℕ) : (blanks n ++ c).head? ≠ some '=' := by
  obtain ⟨x, d, rfl, hx⟩ := h
  cases n with
  | zero =>
    rintro heq
    obtain rfl : x = '=' := Option.some.inj heq
    revert hx
    decide
  | succ n => exact fun heq => absurd (Option.some.inj heq) (by decide)

lemma op_code_ne_zero (o : Op) : o.code ≠ 0 := by cases o <;> decide

mutual

lemma term_gets (env : Env) (g : Globals) : ∀ (t : Term) (n numLoop : ℕ) (inside : Bool)
    (s : Accumulator) (rest : Text), (numLoop = 0 → inside = false) → t.Wf inside → s.oper ≠ 0 →
    NoDigit rest → (t.text ++ rest).length ≤ n →
    Gets env (scan_expression env n (numLoop + 1)) numLoop g s (t.text ++ rest)
      (s.operand (wrap (t.signFrom s.sign * t.size))) rest
  | .num digits, n, numLoop, inside, s, rest, _, hwf, _, hrest, _ => by
    exact gets_digits hwf.1 hwf.2 hrest
  | .neg b t, n, numLoop, inside, s, rest, hin, hwf, hs, hrest, hlen => by
    have htext : (Term.neg b t).text ++ rest = '-' :: (blanks b ++ (t.text ++ rest)) := by
      simp [Term.text]
    have hshort : (t.text ++ rest).length ≤ n := by
      rw [htext, List.length_cons, List.length_append] at hlen
      omega
    have hterm := term_gets env g t n numLoop inside { s with sign := -1 } rest hin hwf.2 hs hrest
      hshort
    rw [signFrom_minus] at hterm
    rw [htext]
    exact ((gets_minus hs _).trans (gets_blanks (fun h => hwf.1 (hin h)) _)).trans hterm
  | .paren before e after, n, numLoop, inside, s, rest, _, hwf, _, _, hlen => by
    have htext : (Term.paren before e after).text ++ rest =
        '(' :: (blanks before ++ (e.text ++ (blanks after ++ ')' :: rest))) := by
      simp [Term.text]
    rw [htext] at hlen ⊢
    simp only [List.length_cons, List.length_append] at hlen
    obtain ⟨m, rfl⟩ : ∃ m, n = m + 1 := ⟨n - 1, by omega⟩
    have hclose : NoDigit (blanks after ++ ')' :: rest) :=
      noDigit_blanks (noDigit_cons (by decide)) after
    -- the expression in the brackets
    have hexpr := expr_gets env { g with skip_escape := true } e m (numLoop + 1) true begin_
      (blanks after ++ ')' :: rest) (fun h => absurd h (Nat.succ_ne_zero _)) hwf rfl rfl hclose
      (by simp only [List.length_append, List.length_cons]; omega)
    have hall := ((gets_blanks (n := before) (fun h => absurd h (Nat.succ_ne_zero numLoop))
      (e.text ++ (blanks after ++ ')' :: rest))).trans hexpr).trans
      (gets_blanks (n := after) (fun h => absurd h (Nat.succ_ne_zero numLoop)) (')' :: rest))
    have hstart : ∃ x c, blanks before ++ (e.text ++ (blanks after ++ ')' :: rest)) = x :: c ∧
        Plain x := by
      cases before with
      | zero =>
        obtain ⟨x, c, hx, hstart⟩ := (expr_starts e hwf).append (blanks after ++ ')' :: rest)
        exact ⟨x, c, hx, plain_of_starts hstart⟩
      | succ k => exact ⟨' ', _, rfl, plain_of_not_digit (by decide)⟩
    obtain ⟨x, c, hc, hx⟩ := hstart
    have hlenc := congrArg List.length hc
    simp only [List.length_append, List.length_cons] at hlenc
    rw [hc] at hall ⊢
    have hscan := scan_of_gets hx (by rw [List.length_cons]; omega) hall (fun y hy => by
      obtain rfl := Option.some.inj hy
      simp [ends])
    refine gets_paren ?_ hscan
    rw [List.length_cons]
    omega

lemma expr_gets (env : Env) (g : Globals) : ∀ (e : Expr) (n numLoop : ℕ) (inside : Bool)
    (s : Accumulator) (rest : Text), (numLoop = 0 → inside = false) → e.Wf inside →
    s.oper = 'c'.toNat → s.sign = 1 → NoDigit rest → (e.text ++ rest).length ≤ n →
    Gets env (scan_expression env n (numLoop + 1)) numLoop g s (e.text ++ rest)
      ⟨e.meaning, 1, 0⟩ rest
  | .term t, n, numLoop, inside, s, rest, hin, hwf, hs, hsign, hrest, hlen => by
    have hne : s.oper ≠ 0 := by
      rw [hs]
      decide
    have hterm := term_gets env g t n numLoop inside s rest hin hwf hne hrest hlen
    have hvalue : s.operand (wrap (t.signFrom s.sign * t.size)) =
        ⟨(Expr.term t).meaning, 1, 0⟩ := by
      rw [hsign, signFrom_one, Accumulator.operand, hs, Expr.meaning]
      rfl
    rwa [hvalue] at hterm
  | .op l before o after r, n, numLoop, inside, s, rest, hin, hwf, hs, hsign, hrest, hlen => by
    obtain ⟨htight, hl, hr⟩ := hwf
    have htext : (Expr.op l before o after r).text ++ rest =
        l.text ++ (blanks before ++ (o.text ++ (blanks after ++ (r.text ++ rest)))) := by
      simp [Expr.text]
    rw [htext] at hlen ⊢
    simp only [List.length_append] at hlen
    have hleft := expr_gets env g l n numLoop inside s
      (blanks before ++ (o.text ++ (blanks after ++ (r.text ++ rest)))) hin hl hs hsign
      (noDigit_blanks (noDigit_op o _) before) (by simp only [List.length_append]; omega)
    have hright := term_gets env g r n numLoop inside ⟨l.meaning, 1, o.code⟩ rest hin hr
      (op_code_ne_zero o) hrest (by simp only [List.length_append]; omega)
    have hop : Gets env (scan_expression env n (numLoop + 1)) numLoop g ⟨l.meaning, 1, 0⟩
        (o.text ++ (blanks after ++ (r.text ++ rest))) ⟨l.meaning, 1, o.code⟩
        (blanks after ++ (r.text ++ rest)) :=
      gets_op o rfl (starts_noEquals ((term_starts r hr).append rest) after)
    have hvalue : Accumulator.operand ⟨l.meaning, 1, o.code⟩ (wrap (r.signFrom 1 * r.size)) =
        ⟨(Expr.op l before o after r).meaning, 1, 0⟩ := by
      rw [signFrom_one, Accumulator.operand, Expr.meaning]
    rw [hvalue] at hright
    exact (((hleft.trans (gets_blanks (fun h => (htight (hin h)).1) _)).trans hop).trans
      (gets_blanks (fun h => (htight (hin h)).2) _)).trans hright

end

/-- An expression is worth what the converter takes it for. -/
theorem evaluate_meaning (env : Env) (g : Globals) {e : Expr} (he : e.Wf false) {rest : Text}
    (hrest : Closed rest) :
    evaluate env (e.text ++ rest) g = .ok (e.meaning, skipClose rest, g) := by
  obtain ⟨x, c, hc, hx⟩ := (expr_starts e he).append rest
  have hgets := expr_gets env { g with skip_escape := true } e (e.text ++ rest).length 0 false
    begin_ rest (fun _ => rfl) he rfl rfl (noDigit_closed hrest) (Nat.le_refl _)
  rw [evaluate]
  rw [hc] at hgets ⊢
  exact scan_of_gets (plain_of_starts hx) (Nat.le_refl _) hgets hrest

/-! ### Where that is the value -/

def Term.signs : Term → ℕ
  | .neg _ t => t.signs + 1
  | _ => 0

/-- One sign has the effect of all of them. -/
def Term.Signed (t : Term) : Prop := t.signs = 0 ∨ t.signs % 2 = 1 ∨ t.eval = some 0

/-- No operand that is neither positive nor 0 decides. -/
def Op.AgreesOn : Op → ℤ → ℤ → Prop
  | .and, a, b => a ≠ 0 ∧ b ≠ 0 → 0 < a ∧ 0 < b
  | .or, a, b => a ≠ 0 ∨ b ≠ 0 → 0 < a ∨ 0 < b
  | _, _, _ => True

mutual

/-- What is in brackets is plain. -/
def Term.Inside : Term → Prop
  | .num _ => True
  | .neg _ t => t.Inside
  | .paren _ e _ => e.Plain

/-- No even number of signs stands in a row, other than before a 0, and no negative operand decides
about `&` or `:`. -/
def Expr.Plain : Expr → Prop
  | .term t => t.Inside ∧ t.Signed
  | .op l _ o _ r =>
    l.Plain ∧ (r.Inside ∧ r.Signed) ∧ ∀ a ∈ l.eval, ∀ b ∈ r.eval, o.AgreesOn a b

end

lemma wrap_truth (b : Bool) : wrap (truth b) = truth b := by cases b <;> decide

lemma apply_troff {o : Op} {a b : ℤ} (h : o.troff a b = some v) (hagrees : o.AgreesOn a b) :
    apply o.code a b = v ∧ wrap v = v := by
  have hwrapped : ∀ {n : ℤ}, int n = some v → wrap n = v ∧ wrap v = v := by
    intro n hn
    obtain ⟨rfl, hv⟩ := int_eq_some hn
    exact ⟨hv, hv⟩
  have htruth : ∀ {p : Bool}, some (truth p) = some v → truth p = v ∧ wrap v = v := by
    intro p hp
    obtain rfl := Option.some.inj hp
    exact ⟨rfl, wrap_truth p⟩
  cases o with
  | add | sub | mul => exact hwrapped h
  | div =>
    simp only [Op.troff] at h
    split_ifs at h with hb
    have hvalue : apply Op.div.code a b = wrap (a.tdiv b) := if_pos hb
    rw [hvalue]
    exact hwrapped h
  | mod =>
    simp only [Op.troff] at h
    split_ifs at h with hb
    have hvalue : apply Op.mod.code a b = wrap (a.tmod b) := if_pos hb
    rw [hvalue]
    exact hwrapped h
  | lt | gt | le | ge | eq | eqq => exact htruth h
  | and =>
    have hiff : (a ≠ 0 ∧ b ≠ 0) ↔ (0 < a ∧ 0 < b) := ⟨hagrees, fun hpos => by omega⟩
    have hvalue : apply Op.and.code a b = truth (a ≠ 0 ∧ b ≠ 0) := rfl
    rw [hvalue, decide_eq_decide.mpr hiff]
    exact htruth h
  | or =>
    have hiff : (a ≠ 0 ∨ b ≠ 0) ↔ (0 < a ∨ 0 < b) := ⟨hagrees, fun hpos => by omega⟩
    have hvalue : apply Op.or.code a b = truth (a ≠ 0 ∨ b ≠ 0) := rfl
    rw [hvalue, decide_eq_decide.mpr hiff]
    exact htruth h

lemma term_meaning {t : Term} (hsigned : t.Signed) (hv : t.eval = some v)
    (hsize : v = (-1) ^ t.signs * t.size) (hwrap : wrap v = v) : wrap (t.sign * t.size) = v := by
  have hsign : t.sign = if t.signs = 0 then 1 else -1 := by cases t <;> rfl
  rcases hsigned with hnone | hodd | hzero
  · rw [hnone, Int.pow_zero] at hsize
    rw [hsign, if_pos hnone, ← hsize, hwrap]
  · have hpow : (-1 : ℤ) ^ t.signs = -1 := Odd.neg_one_pow (Nat.odd_iff.mpr hodd)
    rw [hpow] at hsize
    rw [hsign, if_neg (by omega), ← hsize, hwrap]
  · obtain rfl : v = 0 := Option.some.inj (hv.symm.trans hzero)
    have hsize0 : t.size = 0 := by
      rcases Int.mul_eq_zero.mp hsize.symm with hpow | h
      · exact absurd hpow (pow_ne_zero _ (by decide))
      · exact h
    rw [hsize0, Int.mul_zero]
    exact hwrap

lemma digits_size {digits : Text} (hv : int (decimal digits) = some v) :
    toInt digits = v ∧ wrap v = v := by
  obtain ⟨heq, hwrap⟩ := int_eq_some hv
  rw [toInt_eq, heq]
  exact ⟨hwrap, hwrap⟩

/-- All signs count in the value. -/
structure Term.Sized (t : Term) (v : ℤ) : Prop where
  size : v = (-1) ^ t.signs * t.size
  wrapped : wrap v = v

structure Expr.Means (e : Expr) (v : ℤ) : Prop where
  meaning : e.meaning = v
  wrapped : wrap v = v

mutual

lemma term_size : ∀ (t : Term) (v : ℤ), t.Inside → t.eval = some v → t.Sized v
  | .num digits => by
    intro v _ hv
    rw [Term.eval] at hv
    obtain ⟨hsize, hwrap⟩ := @digits_size _ digits hv
    refine ⟨?_, hwrap⟩
    have hsigns : (Term.num digits).signs = 0 := rfl
    rw [hsigns, Int.pow_zero, Int.one_mul]
    exact hsize.symm
  | .neg b t => by
    intro v hin hv
    obtain ⟨u, hu, hneg⟩ := Option.bind_eq_some_iff.mp hv
    obtain ⟨rfl, hwrap⟩ := int_eq_some hneg
    have hsize := (term_size t u hin hu).size
    refine ⟨?_, hwrap⟩
    rw [Term.signs, Term.size, Int.pow_succ, Int.mul_neg, Int.mul_one, Int.neg_mul, ← hsize]
  | .paren before e after => by
    intro v hin hv
    obtain ⟨hmeaning, hwrap⟩ := expr_meaning e v hin hv
    refine ⟨?_, hwrap⟩
    have hsigns : (Term.paren before e after).signs = 0 := rfl
    rw [hsigns, Int.pow_zero, Int.one_mul]
    exact hmeaning.symm

lemma expr_meaning : ∀ (e : Expr) (v : ℤ), e.Plain → e.eval = some v → e.Means v
  | .term t => by
    intro v hplain hv
    obtain ⟨hsize, hwrap⟩ := term_size t v hplain.1 hv
    exact ⟨term_meaning hplain.2 hv hsize hwrap, hwrap⟩
  | .op l before o after r => by
    intro v hplain hv
    obtain ⟨hl, hr, hagrees⟩ := hplain
    obtain ⟨a, ha, hrest⟩ := Option.bind_eq_some_iff.mp hv
    obtain ⟨b, hb, htroff⟩ := Option.bind_eq_some_iff.mp hrest
    have hleft := (expr_meaning l a hl ha).meaning
    obtain ⟨hsize, hwrap⟩ := term_size r b hr.1 hb
    have hright := term_meaning hr.2 hb hsize hwrap
    obtain ⟨happly, hlast⟩ := apply_troff htroff (hagrees a ha b hb)
    refine ⟨?_, hlast⟩
    rw [Expr.meaning, hleft, hright]
    exact happly

end

/-- **Expressions**: the evaluation always ends; it divides by zero if it reads a fraction of 32
digits or more, and only then; and it gives an expression its value from left to right if and only
if that is what the converter takes it for, which it is where the expression is plain. -/
theorem evaluate_correct_iff (env : Env) (g : Globals) :
    (∀ c, evaluate env c g ≠ .error .unfinished ∧
      (evaluate env c g ≠ .error .divisionByZero ↔ ∀ n ∈ (evaluateReads env c g).1, n < 32)) ∧
    ∀ e : Expr, e.Wf false → ∀ v ∈ e.eval, ∀ rest, Closed rest →
      (evaluate env (e.text ++ rest) g = .ok (v, skipClose rest, g) ↔ e.meaning = v) ∧
      (e.Plain → evaluate env (e.text ++ rest) g = .ok (v, skipClose rest, g)) := by
  refine ⟨fun c => ⟨evaluate_ends env c g, evaluate_division_iff env c g⟩, ?_⟩
  intro e he v hv rest hrest
  rw [evaluate_meaning env g he hrest]
  constructor
  · constructor
    · intro h
      exact congrArg Prod.fst (Except.ok.inj h)
    · rintro rfl
      rfl
  · intro hplain
    rw [(expr_meaning e v hplain hv).meaning]

/-- Takes nothing behind an escape character, and a string as it is. -/
def literally : Env := ⟨fun _ g => (0, g), fun h g => (some h, g)⟩

/-- A fraction of 32 digits, and two signs in a row. -/
theorem fraction_and_signs :
    (¬ ∀ c, evaluate literally c initialGlobals ≠ .error .divisionByZero) ∧
    ¬ ∀ e : Expr, e.Wf false → ∀ v ∈ e.eval, ∀ rest, Closed rest →
      evaluate literally (e.text ++ rest) initialGlobals =
        .ok (v, skipClose rest, initialGlobals) := by
  constructor
  · intro h
    have hshort := (evaluate_division_iff literally _ initialGlobals).mp
      (h ('.' :: List.replicate 32 '0')) 32 List.mem_cons_self
    exact Nat.lt_irrefl 32 hshort
  · intro h
    have hsigns : (Expr.term (.neg 0 (.neg 0 (.num ['2'])))).Wf false := by
      refine ⟨fun _ => rfl, fun _ => rfl, List.cons_ne_nil _ _, ?_⟩
      intro d hd
      obtain rfl := List.mem_singleton.mp hd
      rfl
    have hvalue := h _ hsigns 2 (by decide) [] closed_nil
    rw [evaluate_meaning literally initialGlobals hsigns closed_nil] at hvalue
    have hminus := congrArg Prod.fst (Except.ok.inj hvalue)
    revert hminus
    decide

end KioExtras.Man.Expression
