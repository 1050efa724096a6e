import KioExtras.Fish.Command
import Mathlib.Algebra.Ring.Int.Defs
import Mathlib.Tactic.Common

/-!
The operations of `QString` that the parser of the responses uses, and numbers written in
decimal.
-/

namespace KioExtras.Fish.Text

def indexOf (c : Char) (start : ℕ) (s : Text) : Option ℕ :=
  ((s.drop start).findIdx? (· = c)).map (· + start)

/-- What follows the last slash, or the text from `start` on where there is none. -/
def afterLastSlash (start : ℕ) (s : Text) : Text :=
  if '/' ∈ s then (s.reverse.takeWhile (· ≠ '/')).reverse else s.drop start

def mid (pos n : ℕ) (s : Text) : Text := (s.drop pos).take n

def right (n : ℕ) (s : Text) : Text := s.drop (s.length - n)

def startsWith (p s : Text) : Bool := p.isPrefixOf s

/-- `s[i]`; behind the end it is undefined, and taken to be 0 here. -/
def at' (i : ℕ) (s : Text) : Char := s.getD i (Char.ofNat 0)

/-- A character of two UTF-16 units in two characters: they have the low bytes of the units and
stand for nothing else. -/
def twoUnits (c : Char) : Text :=
  [Char.ofNat (0xe000 + (c.toNat - 0x10000) / 1024),
    Char.ofNat (0xe400 + (c.toNat - 0x10000) % 1024)]

/-- The text with its first `n` UTF-16 units one by one. -/
def units : ℕ → Text → Text
  | 0, s => s
  | _ + 1, [] => []
  | 1, c :: s => if c.toNat < 0x10000 then c :: s else twoUnits c ++ s
  | n + 2, c :: s =>
    if c.toNat < 0x10000 then c :: units (n + 1) s else twoUnits c ++ units n s

variable {n width : ℕ} {s : Text} {c : Char}

lemma units_eq_nil : units n s = [] ↔ s = [] := by
  fun_cases units n s <;> simp [twoUnits]

lemma units_cons (h : c.toNat < 0x10000) (s : Text) : units (n + 1) (c :: s) = c :: units n s := by
  cases n with
  | zero => exact if_pos h
  | succ n => exact if_pos h

lemma units_append {p : Text} (h : ∀ c ∈ p, c.toNat < 0x10000) (s : Text) :
    units p.length (p ++ s) = p ++ s := by
  induction p with
  | nil => rfl
  | cons c p ih =>
    obtain ⟨hc, hp⟩ := List.forall_mem_cons.mp h
    rw [List.length_cons, List.cons_append, units_cons hc, ih hp]

def contains (p : Text) : Text → Bool
  | [] => p.isEmpty
  | c :: s => startsWith p (c :: s) || contains p s

/-- `QChar::isSpace`. -/
def isSpace (c : Char) : Bool :=
  (9 ≤ c.toNat && c.toNat ≤ 13) || (0x2000 ≤ c.toNat && c.toNat ≤ 0x200a) ||
    [0x20, 0x85, 0xa0, 0x1680, 0x2028, 0x2029, 0x202f, 0x205f, 0x3000].contains c.toNat

def trimmed (s : Text) : Text := ((s.dropWhile isSpace).reverse.dropWhile isSpace).reverse

lemma forall_mem_of_all {p : Char → Prop} [DecidablePred p]
    (h : s.all (fun c => decide (p c)) = true) : ∀ c ∈ s, p c :=
  fun c hc => of_decide_eq_true (List.all_eq_true.mp h c hc)

def digitValue (c : Char) : ℕ := c.toNat - '0'.toNat

def decimal (s : Text) : ℕ := s.foldl (fun n c => 10 * n + digitValue c) 0

/-- The number of nonempty digits. -/
def toNat? (s : Text) : Option ℕ :=
  if s ≠ [] ∧ s.all Char.isDigit then some (decimal s) else none

def toNumber (bits : ℕ) (s : Text) : Option ℤ :=
  let n : Option ℤ :=
    match trimmed s with
    | '-' :: digits => (toNat? digits).map fun n => -(n : ℤ)
    | '+' :: digits => (toNat? digits).map fun n => (n : ℤ)
    | digits => (toNat? digits).map fun n => (n : ℤ)
  n.filter fun n => decide (-2 ^ (bits - 1) ≤ n ∧ n < 2 ^ (bits - 1))

/-- The number, and whether it is one; without it the value is 0. -/
def toLongLong (s : Text) : Option ℤ := toNumber 64 s

def toInt (s : Text) : Option ℤ := toNumber 32 s

def number (base n : ℕ) : Text := (Nat.toDigits base n)

/-! ### Numbers that were printed -/

/-- A number with zeros in front. -/
def padded (width n : ℕ) : Text :=
  List.replicate (width - (number 10 n).length) '0' ++ number 10 n

lemma number_digits (h : c ∈ number 10 n) : c.isDigit = true :=
  Nat.isDigit_of_mem_toDigits (by decide) (by decide) h

lemma padded_digits (h : c ∈ padded width n) : c.isDigit = true := by
  rcases List.mem_append.mp h with hzero | hnum
  · rw [List.eq_of_mem_replicate hzero]
    decide
  · exact number_digits hnum

lemma padded_ne_nil (width n : ℕ) : padded width n ≠ [] := by
  unfold padded number
  exact List.append_ne_nil_of_right_ne_nil _ Nat.toDigits_ne_nil

lemma decimal_padded (width n : ℕ) : decimal (padded width n) = n := by
  have hfold : decimal (padded width n) = Nat.ofDigitChars 10 (padded width n) 0 := rfl
  rw [hfold, padded, Nat.ofDigitChars_append, Nat.ofDigitChars_replicate_zero, Nat.mul_zero]
  exact Nat.ofDigitChars_ten_toDigits

lemma toNat?_padded (width n : ℕ) : toNat? (padded width n) = some n := by
  have hall : (padded width n).all Char.isDigit = true :=
    List.all_eq_true.mpr fun c hc => padded_digits hc
  simp [toNat?, padded_ne_nil, hall, decimal_padded]

lemma digit_plain (h : c.isDigit = true) :
    48 ≤ c.toNat ∧ c.toNat ≤ 57 ∧ isSpace c = false ∧ c ≠ '-' ∧ c ≠ '+' ∧ c ≠ ' ' := by
  have hrange : 48 ≤ c.toNat ∧ c.toNat ≤ 57 := by
    simp only [Char.isDigit, Bool.and_eq_true, decide_eq_true_eq] at h
    exact h
  obtain ⟨hlo, hhi⟩ := hrange
  refine ⟨hlo, hhi, ?_, ?_, ?_, ?_⟩
  · simp [isSpace]
    omega
  · rintro rfl
    simp at hlo
  · rintro rfl
    simp at hlo
  · rintro rfl
    simp at hlo

lemma trimmed_plain (hfirst : ∀ c ∈ s.head?, isSpace c = false)
    (hlast : ∀ c ∈ s.getLast?, isSpace c = false) : trimmed s = s := by
  have hdrop : ∀ t : Text, (∀ c ∈ t.head?, isSpace c = false) → t.dropWhile isSpace = t := by
    intro t ht
    cases t with
    | nil => rfl
    | cons c t => simp [ht c (by simp)]
  unfold trimmed
  rw [hdrop s hfirst, hdrop s.reverse (by simpa using hlast), List.reverse_reverse]

lemma toNumber_padded {bits : ℕ} (h : (n : ℤ) < 2 ^ (bits - 1)) :
    toNumber bits (padded width n) = some (n : ℤ) := by
  have hplain : ∀ c ∈ padded width n, isSpace c = false := fun c hc =>
    (digit_plain (padded_digits hc)).2.2.1
  have htrim : trimmed (padded width n) = padded width n :=
    trimmed_plain (fun c hc => hplain c (List.mem_of_mem_head? hc))
      (fun c hc => hplain c (List.mem_of_getLast? hc))
  have hsign : ∀ c ∈ padded width n, c ≠ '-' ∧ c ≠ '+' := fun c hc =>
    ⟨(digit_plain (padded_digits hc)).2.2.2.1, (digit_plain (padded_digits hc)).2.2.2.2.1⟩
  have hnat := toNat?_padded width n
  have hlow : -(2 : ℤ) ^ (bits - 1) ≤ n := by
    have hpow : (0 : ℤ) ≤ 2 ^ (bits - 1) := by exact_mod_cast Nat.zero_le (2 ^ (bits - 1))
    omega
  unfold toNumber
  rw [htrim]
  cases hp : padded width n with
  | nil => exact absurd hp (padded_ne_nil width n)
  | cons c rest =>
    rw [hp] at hsign hnat
    obtain ⟨hminus, hplus⟩ := hsign c (by simp)
    dsimp only
    split
    · rename_i heq
      exact absurd (List.cons.inj heq).1 hminus
    · rename_i heq
      exact absurd (List.cons.inj heq).1 hplus
    · rw [hnat]
      simp [Option.filter, hlow, h]

lemma blank_notMem_padded (width n : ℕ) : ' ' ∉ padded width n := fun h =>
  (digit_plain (padded_digits h)).2.2.2.2.2 rfl

/-! ### Texts that were put together -/

lemma indexOf_split (p : Text) {a : Text} (h : c ∉ a) (b : Text) :
    indexOf c p.length (p ++ (a ++ c :: b)) = some (p.length + a.length) := by
  have hfind : (a ++ c :: b).findIdx? (· = c) = some a.length := by
    induction a with
    | nil => simp [List.findIdx?_cons]
    | cons d a ih =>
      simp only [List.mem_cons, not_or] at h
      have hd : d ≠ c := fun heq => h.1 heq.symm
      simp [List.findIdx?_cons, hd, ih h.2]
  unfold indexOf
  rw [List.drop_left, hfind, Option.map_some, Nat.add_comm]

lemma mid_split (p a b : Text) : mid p.length a.length (p ++ (a ++ b)) = a := by
  simp [mid]

lemma startsWith_append (p s : Text) : startsWith p (p ++ s) = true := by
  simp [startsWith]

end KioExtras.Fish.Text
