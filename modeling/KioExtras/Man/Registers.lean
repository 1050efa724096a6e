import KioExtras.Lib.Simulation
import KioExtras.Man.LeftToRight

/-!
Number registers: the requests that set, remove, rename and copy them, and the escape that reads
them, beside the registers that troff has.

A request is given with the text behind its name and the blanks there, and gives back where the
text goes on.
-/

namespace KioExtras.Man.Registers

open KioExtras.Lib.Run KioExtras.Reading KioExtras.Man.Expression

/-! ### Requests -/

def is_identifier_char (c : Char) : Bool :=
  ('!'.toNat ≤ c.toNat && c.toNat ≤ '['.toNat) || (']'.toNat ≤ c.toNat && c.toNat ≤ '~'.toNat)

variable (c : Text)

/-- A name, and what follows. -/
def scan_identifier : Text × Text :=
  (c.takeWhile is_identifier_char, c.dropWhile is_identifier_char)

/-- What is left behind the line, and how many braces more were opened in it. -/
def tillNewline : ℤ → Text → ℤ × Text
  | lvl, [] => (lvl, [])
  | lvl, '\\' :: y :: c =>
    tillNewline (if y = '}' then lvl - 1 else if y = '{' then lvl + 1 else lvl) c
  | lvl, x :: c => if x = '\n' ∧ lvl ≤ 0 then (lvl, c) else tillNewline lvl c

def skip_till_newline (g : Globals) : Text × Globals :=
  let (lvl, c) := tillNewline 0 c
  if lvl < 0 ∧ g.newline_for_fun ≠ 0 then
    (c, { g with newline_for_fun := (g.newline_for_fun + lvl).toNat })
  else (c, g)

def isBlank (x : Char) : Bool := x = ' ' || x = '\t'

def insert (name : Text) (d : NumberDefinition) (g : Globals) : Globals :=
  { g with s_numberDefinitionMap := Function.update g.s_numberDefinitionMap name (some d) }

def remove (name : Text) (g : Globals) : Globals :=
  { g with s_numberDefinitionMap := Function.update g.s_numberDefinitionMap name none }

/-- The end of `.nr` -/
def define (name : Text) (sign value increment : ℤ) (g : Globals) : Globals :=
  match g.s_numberDefinitionMap name with
  | none => insert name ⟨if sign < 1 then wrap (-value) else value, increment⟩ g
  | some d =>
    let value :=
      if sign > 0 then wrap (d.m_value + value)
      else if sign < 0 then wrap (d.m_value + wrap (-value))
      else value
    insert name ⟨value, increment⟩ g

/-- A request gives back the text behind its line. -/
abbrev Request := Text → Globals → Except Trap (Text × Globals)

def signOf : Text → ℤ
  | '+' :: _ => 1
  | '-' :: _ => -1
  | _ => 0

variable (env : Env)

/-- `if (*c && *c != '\n')` -/
def incrementAt (c : Text) (g : Globals) : Result :=
  if c = [] ∨ c.head? = some '\n' then .ok (0, c, g) else evaluate env (c.dropWhile isBlank) g

def nr : Request := fun c g =>
  let (name, c) := scan_identifier c
  if name = [] then .ok (c, g)
  else do
    let c := c.dropWhile isBlank
    let sign := signOf c
    let (value, c, g) ← evaluate env c g
    let (increment, c, g) ← incrementAt env c g
    let (c, g) := skip_till_newline c g
    .ok (c, define name sign value increment g)

def rr : Request := fun c g =>
  let (name, c) := scan_identifier c
  if name = [] then .ok (c, g)
  else
    let (c, g) := skip_till_newline c g
    .ok (c, remove name g)

/-- `while (*c && isspace(*c) && *c != '\n')` -/
def skipSpace : Text := c.dropWhile fun x => isSpace x && x ≠ '\n'

def rnn : Request := fun c g =>
  let (name, c) := scan_identifier c
  if name = [] then .ok (c, g)
  else
    let (name2, c) := scan_identifier (skipSpace c)
    if name2 = [] then .ok (c, g)
    else
      let (c, g) := skip_till_newline c g
      match g.s_numberDefinitionMap name with
      | none => .ok (c, g)
      | some d => .ok (c, insert name2 d (remove name g))

/-- The destination comes first. -/
def aln : Request := fun c g =>
  let (name, c) := scan_identifier c
  if name = [] then .ok (c, g)
  else
    let (name2, c) := scan_identifier (skipSpace c)
    if name2 = [] then .ok (c, g)
    else
      let (c, g) := skip_till_newline c g
      if name = name2 then .ok (c, g)
      else
        match g.s_numberDefinitionMap name2 with
        | none => .ok (c, g)
        | some d => .ok (c, insert name d g)

/-! ### What stands on the page -/

structure Name where
  text : Text
  ne : text ≠ []
  identifier : ∀ x ∈ text, is_identifier_char x = true

/-- A decimal integer. -/
structure Digits where
  text : Text
  ne : text ≠ []
  digits : ∀ d ∈ text, d.isDigit = true
  small : decimal text < 2 ^ 31

inductive Sign
  | none
  | plus
  | minus
  deriving DecidableEq

def Sign.text : Sign → Text
  | none => []
  | plus => ['+']
  | minus => ['-']

def Sign.times : Sign → ℤ
  | none => 0
  | plus => 1
  | minus => -1

structure Increment where
  before : ℕ
  sign : Sign
  digits : Digits

def Increment.value (i : Increment) : ℤ :=
  if i.sign = .minus then -decimal i.digits.text else decimal i.digits.text

def Increment.text (i : Increment) : Text :=
  blanks (i.before + 1) ++ i.sign.text ++ i.digits.text

/-- `.nr` with the blanks before its arguments and at its end. -/
structure Line where
  name : Name
  before : ℕ
  sign : Sign
  value : Digits
  increment : Option Increment
  after : ℕ

def Line.text (l : Line) : Text :=
  l.name.text ++ blanks (l.before + 1) ++ l.sign.text ++ l.value.text ++
    (l.increment.map Increment.text).getD [] ++ blanks l.after

/-- How a name is written in an escape. -/
inductive Form
  | one
  | two
  | long

/-- `\n` with a name. -/
structure Read where
  sign : Sign
  name : Name
  form : Form
  fits : match form with
    | .one => ∃ x, name.text = [x] ∧ x ∉ ['+', '-', '[', '(']
    | .two => name.text.length = 2
    | .long => ']' ∉ name.text

def Read.text (r : Read) : Text :=
  r.sign.text ++ match r.form with
    | .one => r.name.text
    | .two => '(' :: r.name.text
    | .long => '[' :: (r.name.text ++ [']'])

inductive Label
  | nr (l : Line)
  | rr (name : Name)
  | rnn (name name2 : Name)
  | aln (name name2 : Name)
  | read (r : Read)

/-! ### Runs -/

/-- The variables, and the values that were read. -/
structure State where
  globals : Globals
  values : List ℤ

/-- A request is followed by the end of its line and the rest of the page. -/
def request (x : Except Trap (Text × Globals)) (s : State) : Option State :=
  match x with
  | .ok (_, g) => some { s with globals := g }
  | .error _ => none

def twoNames (name name2 : Name) : Text := name.text ++ ' ' :: name2.text

/-- A request or a read, and what follows it on the page. -/
def step (s : State) : Label × Text → Option State
  | (.nr l, page) => request (Registers.nr env (l.text ++ '\n' :: page) s.globals) s
  | (.rr name, page) => request (Registers.rr (name.text ++ '\n' :: page) s.globals) s
  | (.rnn name name2, page) =>
    request (Registers.rnn (twoNames name name2 ++ '\n' :: page) s.globals) s
  | (.aln name name2, page) =>
    request (Registers.aln (twoNames name name2 ++ '\n' :: page) s.globals) s
  | (.read r, page) =>
    let text := r.text ++ page
    match scan_number_register text (text.length + 1) 0 s.globals with
    | .ok ((_, value), g) => some ⟨g, s.values ++ [value]⟩
    | .error _ => none

/-! ### The registers of troff -/

structure Register where
  value : ℤ
  increment : ℤ

/-- The registers by their names, and the values that were read. -/
structure Troff where
  registers : Text → Option Register
  values : List ℤ

namespace Troff

variable (t : Troff)

def valueOf (name : Text) : ℤ := ((t.registers name).map Register.value).getD 0

def incrementOf (name : Text) : ℤ :=
  ((t.registers name).map Register.increment).getD 0

def set (name : Text) (r : Option Register) : Troff :=
  { t with registers := Function.update t.registers name r }

/-- Without a sign the value is set, otherwise it is added or subtracted; the increment stays where
none is given. -/
def nr (l : Line) : Troff :=
  let n : ℤ := decimal l.value.text
  let old := t.valueOf l.name.text
  t.set l.name.text <| some
    { value := match l.sign with
        | .none => n
        | .plus => wrap (old + n)
        | .minus => wrap (old - n)
      increment := (l.increment.map Increment.value).getD (t.incrementOf l.name.text) }

/-- The increment is added or subtracted first. -/
def read (r : Read) : Troff :=
  match t.registers r.name.text with
  | none => { t with values := t.values ++ [0] }
  | some d =>
    let value := wrap (d.value + r.sign.times * d.increment)
    let t := t.set r.name.text (some { d with value := value })
    { t with values := t.values ++ [value] }

def next : Label → Troff
  | .nr l => t.nr l
  | .rr name => t.set name.text none
  | .rnn name name2 =>
    match t.registers name.text with
    | none => t
    | some d => (t.set name.text none).set name2.text (some d)
  | .aln name name2 =>
    match t.registers name2.text with
    | none => t
    | some d => t.set name.text (some d)
  | .read r => t.read r

end Troff

/-- The name is not one of a register that cannot be written. -/
def Writable (name : Name) : Prop := name.text.head? ≠ some '.'

instance (name : Name) : Decidable (Writable name) := inferInstanceAs (Decidable (_ ≠ _))

/-- Where the converter does what troff does. -/
def Fits (t : Troff) : Label → Prop
  | .nr l =>
    Writable l.name ∧
    (match l.sign with
      | .none => (t.registers l.name.text).isSome ∨ decimal l.value.text = 0
      | .plus => True
      | .minus => decimal l.value.text = 0) ∧
    (match l.increment with
      | none => l.after = 0 ∧ t.incrementOf l.name.text = 0
      | some _ => True)
  | .rr name => Writable name
  | .rnn name name2 => Writable name ∧ Writable name2
  | .aln name name2 => Writable name ∧ Writable name2
  | .read r =>
    Writable r.name ∧ r.name.text.head? ≠ some '+' ∧ r.name.text.head? ≠ some '-'

/-! ### Reading the requests -/

lemma decimal_wrap (d : Digits) : toInt d.text = decimal d.text := by
  have hsmall := d.small
  rw [toInt_eq]
  exact wrap_of_int (by omega)

variable {x : Char} {g g' : Globals} {t : Troff} {s : State}

lemma identifier_append (name : Name) (hx : is_identifier_char x = false) (c : Text) :
    scan_identifier (name.text ++ x :: c) = (name.text, x :: c) := by
  rw [scan_identifier, List.takeWhile_append_of_pos name.identifier,
    List.dropWhile_append_of_pos name.identifier]
  simp [hx]

lemma blanks_succ (n : ℕ) : blanks (n + 1) = ' ' :: blanks n := rfl

lemma dropBlanks {n : ℕ} {c : Text} (hc : ∀ x ∈ c.head?, isBlank x = false) :
    (blanks n ++ c).dropWhile isBlank = c := by
  induction n with
  | zero =>
    cases c with
    | nil => rfl
    | cons x c => simp [blanks, hc x rfl]
  | succ n ih => simpa [blanks_succ, isBlank] using ih

/-- A request goes on behind a blank or at the end of the line. -/
structure GoesOn (rest : Text) : Prop where
  closed : Closed rest
  open_ : skipClose rest = rest

lemma goesOn_blank : GoesOn (' ' :: c) := by
  refine ⟨fun x hx => ?_, rfl⟩
  obtain rfl := Option.some.inj hx
  rfl

lemma goesOn_newline : GoesOn ('\n' :: c) := by
  refine ⟨fun x hx => ?_, rfl⟩
  obtain rfl := Option.some.inj hx
  rfl

lemma goesOn_blanks (n : ℕ) (c : Text) : GoesOn (blanks n ++ '\n' :: c) := by
  cases n with
  | zero => exact goesOn_newline c
  | succ n => exact goesOn_blank _

section

variable (env : Env) (g : Globals) (d : Digits) {rest : Text}

lemma evaluate_digits (h : GoesOn rest) :
    evaluate env (d.text ++ rest) g = .ok ((decimal d.text : ℤ), rest, g) := by
  have he : (Expr.term (.num d.text)).Wf false := ⟨d.ne, d.digits⟩
  have hvalue := evaluate_meaning env g he h.closed
  have hmeaning : (Expr.term (.num d.text)).meaning = decimal d.text := by
    change wrap (1 * toInt d.text) = _
    have hsmall := d.small
    rw [Int.one_mul, decimal_wrap]
    exact wrap_of_int (by omega)
  rwa [hmeaning, h.open_] at hvalue

lemma evaluate_minus (h : GoesOn rest) :
    evaluate env ('-' :: (d.text ++ rest)) g = .ok (-(decimal d.text : ℤ), rest, g) := by
  have he : (Expr.term (.neg 0 (.num d.text))).Wf false := ⟨fun _ => rfl, d.ne, d.digits⟩
  have hvalue := evaluate_meaning env g he h.closed
  have hmeaning : (Expr.term (.neg 0 (.num d.text))).meaning = -decimal d.text := by
    change wrap (-1 * toInt d.text) = _
    have hsmall := d.small
    rw [Int.neg_mul, Int.one_mul, decimal_wrap]
    exact wrap_of_int (by omega)
  rwa [hmeaning, h.open_] at hvalue

lemma apply_plus (a b : ℤ) : apply '+'.toNat a b = wrap (a + b) := by
  rw [apply, if_neg (by decide), if_neg (by decide), if_pos rfl]

lemma evaluate_plus (h : GoesOn rest) :
    evaluate env ('+' :: (d.text ++ rest)) g = .ok ((decimal d.text : ℤ), rest, g) := by
  have hdigit : (d.text ++ rest).head? ≠ some '=' := by
    obtain ⟨x, c, hx⟩ := List.exists_cons_of_ne_nil d.ne
    have hxd := d.digits x (by simp [hx])
    rw [hx]
    intro heq
    obtain rfl : x = '=' := Option.some.inj heq
    exact absurd hxd (by decide)
  have hgets : Gets env (scan_expression env ('+' :: (d.text ++ rest)).length 1) 0
      { g with skip_escape := true } begin_ ('+' :: (d.text ++ rest))
      ⟨(decimal d.text : ℤ), 1, 0⟩ rest := by
    have hop : Gets env (scan_expression env ('+' :: (d.text ++ rest)).length 1) 0
        { g with skip_escape := true } begin_ ('+' :: (d.text ++ rest)) ⟨0, 1, '+'.toNat⟩
        (d.text ++ rest) := gets_one (by decide) (fun heq => absurd heq (by decide)) hdigit
    have hnumber : Gets env (scan_expression env ('+' :: (d.text ++ rest)).length 1) 0
        { g with skip_escape := true } ⟨0, 1, '+'.toNat⟩ (d.text ++ rest) _ rest :=
      gets_digits d.ne d.digits (noDigit_closed h.closed)
    have hvalue : Accumulator.operand ⟨0, 1, '+'.toNat⟩ (wrap (1 * toInt d.text)) =
        ⟨(decimal d.text : ℤ), 1, 0⟩ := by
      have hsmall := d.small
      have hwrap : wrap (decimal d.text : ℤ) = decimal d.text := wrap_of_int (by omega)
      rw [Int.one_mul, decimal_wrap, hwrap, Accumulator.operand, apply_plus, Int.zero_add, hwrap]
    rw [← hvalue]
    exact hop.trans hnumber
  have hscan := scan_of_gets (plain_of_not_digit (by decide)) (Nat.le_refl _) hgets h.closed
  rwa [h.open_] at hscan

lemma evaluate_signed (sign : Sign) (h : GoesOn rest) :
    evaluate env (sign.text ++ (d.text ++ rest)) g =
      .ok ((if sign = .minus then -(decimal d.text : ℤ) else decimal d.text), rest, g) := by
  cases sign with
  | none => exact evaluate_digits env g d h
  | plus => exact evaluate_plus env g d h
  | minus => exact evaluate_minus env g d h

end

lemma signOf_digits (sign : Sign) (d : Digits) (rest : Text) :
    signOf (sign.text ++ (d.text ++ rest)) = sign.times := by
  cases sign with
  | plus => rfl
  | minus => rfl
  | none =>
    obtain ⟨x, c, hx⟩ := List.exists_cons_of_ne_nil d.ne
    have hxd := d.digits x (by simp [hx])
    change signOf (d.text ++ rest) = 0
    rw [hx, List.cons_append]
    unfold signOf
    split
    · next heq => exact absurd ((List.cons.inj heq).1 ▸ hxd) (by decide)
    · next heq => exact absurd ((List.cons.inj heq).1 ▸ hxd) (by decide)
    · rfl

lemma skip_registers (g : Globals) :
    (skip_till_newline c g).2.s_numberDefinitionMap = g.s_numberDefinitionMap := by
  unfold skip_till_newline
  dsimp only
  split_ifs <;> rfl

lemma digit_not_blank {d : Char} (hd : d.isDigit = true) : isBlank d = false := by
  rw [isBlank, Bool.or_eq_false_iff, decide_eq_false_iff_not, decide_eq_false_iff_not]
  constructor <;>
    · rintro rfl
      exact absurd hd (by decide)

lemma argument_head (sign : Sign) (d : Digits) (rest : Text) :
    ∀ x ∈ (sign.text ++ (d.text ++ rest)).head?, isBlank x = false := by
  intro x hx
  cases sign with
  | plus => obtain rfl := Option.some.inj hx; rfl
  | minus => obtain rfl := Option.some.inj hx; rfl
  | none =>
    obtain ⟨y, c, hy⟩ := List.exists_cons_of_ne_nil d.ne
    have hyd := d.digits y (by simp [hy])
    change x ∈ (d.text ++ rest).head? at hx
    rw [hy] at hx
    obtain rfl := Option.some.inj hx
    exact digit_not_blank hyd

lemma nr_line (g : Globals) (l : Line) (page : Text) (h : l.increment = none → l.after = 0) :
    ∃ c g', nr env (l.text ++ '\n' :: page) g =
        .ok (c, define l.name.text l.sign.times
          (if l.sign = .minus then -(decimal l.value.text : ℤ) else decimal l.value.text)
          ((l.increment.map Increment.value).getD 0) g') ∧
      g'.s_numberDefinitionMap = g.s_numberDefinitionMap := by
  obtain ⟨name, before, sign, value, increment, after⟩ := l
  -- the text behind the value
  obtain ⟨rest, hrest⟩ : ∃ rest, rest =
      (increment.map Increment.text).getD [] ++ (blanks after ++ '\n' :: page) := ⟨_, rfl⟩
  have htext : Line.text ⟨name, before, sign, value, increment, after⟩ ++ '\n' :: page =
      name.text ++ ' ' :: (blanks before ++ (sign.text ++ (value.text ++ rest))) := by
    simp [Line.text, blanks_succ, hrest]
  have hgoes : GoesOn rest := by
    rw [hrest]
    cases increment with
    | none => exact goesOn_blanks after page
    | some i => exact goesOn_blank _
  have hskip : (' ' :: (blanks before ++ (sign.text ++ (value.text ++ rest)))).dropWhile isBlank =
      sign.text ++ (value.text ++ rest) := by
    have hdrop := dropBlanks (n := before + 1) (argument_head sign value rest)
    rwa [blanks_succ] at hdrop
  have hvalue := evaluate_signed env g value sign hgoes
  have hincrement : ∃ c, incrementAt env rest g =
      .ok ((increment.map Increment.value).getD 0, c, g) := by
    unfold incrementAt
    cases increment with
    | none =>
      have hafter : after = 0 := h rfl
      rw [hafter] at hrest
      exact ⟨rest, by rw [if_pos (Or.inr (by rw [hrest]; rfl))]; rfl⟩
    | some i =>
      have hi : rest = blanks (i.before + 1) ++
          (i.sign.text ++ (i.digits.text ++ (blanks after ++ '\n' :: page))) := by
        rw [hrest]
        simp [Increment.text, List.append_assoc]
      have hne : ¬ (rest = [] ∨ rest.head? = some '\n') := by
        rw [hi, blanks_succ]
        simp
      refine ⟨blanks after ++ '\n' :: page, ?_⟩
      rw [if_neg hne, hi, dropBlanks (argument_head i.sign i.digits _),
        evaluate_signed env g i.digits i.sign (goesOn_blanks after page)]
      rfl
  obtain ⟨c, hc⟩ := hincrement
  refine ⟨(skip_till_newline c g).1, (skip_till_newline c g).2, ?_, skip_registers c g⟩
  have hblank : is_identifier_char ' ' = false := by decide
  rw [htext, nr, identifier_append name hblank]
  dsimp only
  rw [if_neg name.ne, hskip, hvalue, signOf_digits]
  simp only [bind, Except.bind, hc]

/-! ### Reading a register -/

section

variable {text : Text} {c : ℕ}

lemma upTo_name {name rest : Text} {x : Char} {final : Char → Bool} (seen : Text)
    (hname : ∀ y ∈ name, y ≠ NUL ∧ final y = false) (hx : final x = true)
    (hat : At text c (name ++ x :: rest)) {fuel : ℕ} (hfuel : name.length < fuel) :
    (upTo text final fuel c seen : Scan Globals (ℕ × Text)) =
        pure (c + name.length, seen ++ name) ∧ At text (c + name.length) (x :: rest) := by
  induction name generalizing fuel c seen with
  | nil =>
    obtain ⟨fuel, rfl⟩ : ∃ n, fuel = n + 1 := ⟨fuel - 1, by omega⟩
    refine ⟨?_, hat⟩
    rw [upTo, charAt_cons hat, pure_bind, if_pos (Or.inr hx)]
    simp
  | cons y name ih =>
    obtain ⟨fuel, rfl⟩ : ∃ n, fuel = n + 1 := ⟨fuel - 1, by omega⟩
    obtain ⟨hnul, hfinal⟩ := hname y List.mem_cons_self
    obtain ⟨hrun, hlast⟩ := ih (seen ++ [y]) (fun z hz => hname z (List.mem_cons_of_mem y hz))
      hat.tail (by simpa using hfuel)
    have hlen : c + (y :: name).length = c + 1 + name.length := by
      rw [List.length_cons]
      omega
    rw [hlen]
    refine ⟨?_, hlast⟩
    rw [upTo, charAt_cons hat, pure_bind, if_neg (by simp [hnul, hfinal]), hrun]
    simp

lemma signAt_sign {rest : Text} (sign : Sign) (hat : At text c (sign.text ++ rest))
    (hrest : sign = .none → rest.head? ≠ some '+' ∧ rest.head? ≠ some '-' ∧ rest ≠ []) :
    (signAt text c 0 : Scan Globals (ℕ × ℤ)) = pure (c + sign.text.length, sign.times) ∧
      At text (c + sign.text.length) rest := by
  cases sign with
  | plus =>
    refine ⟨?_, hat.tail⟩
    rw [signAt, charAt_cons hat, pure_bind, if_pos rfl]
    rfl
  | minus =>
    refine ⟨?_, hat.tail⟩
    rw [signAt, charAt_cons hat, pure_bind, if_neg (by decide), if_pos rfl]
    rfl
  | none =>
    obtain ⟨hplus, hminus, hne⟩ := hrest rfl
    obtain ⟨x, d, rfl⟩ := List.exists_cons_of_ne_nil hne
    refine ⟨?_, hat⟩
    rw [signAt, charAt_cons hat, pure_bind, if_neg (by simpa using hplus),
      if_neg (by simpa using hminus)]
    rfl

lemma signAt_none {rest : Text} {x : Char} (hat : At text c (x :: rest))
    (hx : x ≠ '+' ∧ x ≠ '-') (sign : ℤ) :
    (signAt text c sign : Scan Globals (ℕ × ℤ)) = pure (c, sign) := by
  rw [signAt, charAt_cons hat, pure_bind, if_neg hx.1, if_neg hx.2]

end

lemma identifier_final {name : Text} (h : ∀ x ∈ name, is_identifier_char x = true)
    (hclose : ']' ∉ name) : ∀ y ∈ name, y ≠ NUL ∧ (y = ']' || y = '\n') = false := by
  intro y hy
  have hident := h y hy
  refine ⟨?_, ?_⟩
  · rintro rfl
    exact absurd hident (by decide)
  · rw [Bool.or_eq_false_iff, decide_eq_false_iff_not, decide_eq_false_iff_not]
    refine ⟨?_, ?_⟩
    · rintro rfl
      exact hclose hy
    · rintro rfl
      exact absurd hident (by decide)

/-- The value of a register, and where the text goes on. -/
def valueAt (c : ℕ) (name : Text) (sign : ℤ) : Scan Globals (ℕ × ℤ) := do
  let value ← modifyGet (getNumberRegisterValue name sign)
  pure (c, value)

section

variable {text page : Text} {c : ℕ} (fuel : ℕ) (sign : Sign)

lemma read_one {x : Char} (hx : x ∉ ['+', '-', '[', '('])
    (hat : At text c (sign.text ++ x :: page)) :
    ∃ c', scan_number_register text fuel c = valueAt c' [x] sign.times := by
  simp only [List.mem_cons, List.not_mem_nil, or_false, not_or] at hx
  obtain ⟨hplus, hminus, hlong, htwo⟩ := hx
  obtain ⟨hsign, hname⟩ := signAt_sign sign hat
    fun _ => ⟨by simpa using hplus, by simpa using hminus, List.cons_ne_nil _ _⟩
  refine ⟨c + sign.text.length + 1, ?_⟩
  rw [scan_number_register, hsign, pure_bind]
  dsimp only
  rw [charAt_cons hname, pure_bind, if_neg hlong, if_neg htwo]
  simp only [leave_at hname.tail]
  rfl

lemma read_two {x y : Char} (hx : x ≠ '+' ∧ x ≠ '-')
    (hat : At text c (sign.text ++ '(' :: x :: y :: page)) :
    ∃ c', scan_number_register text fuel c = valueAt c' [x, y] sign.times := by
  obtain ⟨hsign, hopen⟩ := signAt_sign sign hat
    fun _ => ⟨by simp, by simp, List.cons_ne_nil _ _⟩
  refine ⟨c + sign.text.length + 1 + 2, ?_⟩
  rw [scan_number_register, hsign, pure_bind]
  dsimp only
  rw [charAt_cons hopen, pure_bind, if_neg (by decide), if_pos rfl,
    signAt_none hopen.tail hx, pure_bind]
  dsimp only
  rw [charAt_cons hopen.tail, pure_bind, charAt_cons hopen.tail.tail, pure_bind]
  simp only [leave_at hopen.tail.tail.tail]
  rfl

lemma read_long {name : Text} (hfinal : ∀ y ∈ name, y ≠ NUL ∧ (y = ']' || y = '\n') = false)
    (hne : name ≠ []) (hhead : name.head? ≠ some '+' ∧ name.head? ≠ some '-')
    (hfuel : name.length < fuel) (hat : At text c (sign.text ++ '[' :: (name ++ ']' :: page))) :
    ∃ c', scan_number_register text fuel c = valueAt c' name sign.times := by
  obtain ⟨hsign, hopen⟩ := signAt_sign sign hat
    fun _ => ⟨by simp, by simp, List.cons_ne_nil _ _⟩
  have hnone : (signAt text (c + sign.text.length + 1) sign.times : Scan Globals (ℕ × ℤ)) =
      pure (c + sign.text.length + 1, sign.times) := by
    obtain ⟨x, d, rfl⟩ := List.exists_cons_of_ne_nil hne
    have hx : x ≠ '+' ∧ x ≠ '-' := ⟨by simpa using hhead.1, by simpa using hhead.2⟩
    exact signAt_none hopen.tail hx sign.times
  obtain ⟨hrun, hclose⟩ := upTo_name [] hfinal (x := ']') rfl hopen.tail hfuel
  refine ⟨c + sign.text.length + 1 + name.length + 1, ?_⟩
  rw [scan_number_register, hsign, pure_bind]
  dsimp only
  rw [charAt_cons hopen, pure_bind, if_pos rfl, hnone, pure_bind]
  dsimp only
  rw [hrun, pure_bind]
  dsimp only
  rw [charAt_cons hclose, pure_bind, if_neg (by decide), List.nil_append]
  simp only [leave_at hclose.tail]
  rfl

end

lemma read_register (r : Read) (page : Text)
    (h : r.name.text.head? ≠ some '+' ∧ r.name.text.head? ≠ some '-') :
    ∃ c, scan_number_register (r.text ++ page) ((r.text ++ page).length + 1) 0 =
      valueAt c r.name.text r.sign.times := by
  have hfits := r.fits
  cases hform : r.form with
  | one =>
    rw [hform] at hfits
    obtain ⟨x, hx, hplain⟩ := hfits
    have htext : r.text ++ page = r.sign.text ++ x :: page := by simp [Read.text, hform, hx]
    rw [hx]
    exact read_one _ r.sign hplain ⟨Nat.zero_le _, htext⟩
  | two =>
    rw [hform] at hfits
    obtain ⟨x, y, hx⟩ := List.length_eq_two.mp hfits
    have htext : r.text ++ page = r.sign.text ++ '(' :: x :: y :: page := by
      simp [Read.text, hform, hx]
    rw [hx] at h ⊢
    exact read_two _ r.sign ⟨by simpa using h.1, by simpa using h.2⟩ ⟨Nat.zero_le _, htext⟩
  | long =>
    rw [hform] at hfits
    have htext : r.text ++ page = r.sign.text ++ '[' :: (r.name.text ++ ']' :: page) := by
      simp [Read.text, hform]
    have hlen : r.name.text.length < (r.text ++ page).length + 1 := by
      rw [htext]
      simp only [List.length_append, List.length_cons]
      omega
    exact read_long _ r.sign (identifier_final r.name.identifier hfits) r.name.ne h hlen
      ⟨Nat.zero_le _, htext⟩

/-! ### Removing, renaming and copying -/

lemma newline_not_identifier : is_identifier_char '\n' = false := by decide

lemma space_not_identifier : is_identifier_char ' ' = false := by decide

lemma identifier_not_space (h : is_identifier_char x = true) : isSpace x = false := by
  rw [isSpace, Bool.or_eq_false_iff, Bool.and_eq_false_iff, decide_eq_false_iff_not,
    decide_eq_false_iff_not, decide_eq_false_iff_not]
  have hge : 33 ≤ x.toNat := by
    rw [is_identifier_char, Bool.or_eq_true, Bool.and_eq_true, Bool.and_eq_true,
      decide_eq_true_eq, decide_eq_true_eq, decide_eq_true_eq, decide_eq_true_eq] at h
    have hlow : '!'.toNat = 33 := rfl
    have hhigh : ']'.toNat = 93 := rfl
    omega
  refine ⟨?_, Or.inr (by omega)⟩
  rintro rfl
  exact absurd hge (by decide)

lemma second_name (name : Name) (page : Text) :
    scan_identifier (skipSpace (' ' :: (name.text ++ '\n' :: page))) =
      (name.text, '\n' :: page) := by
  have hskip : skipSpace (' ' :: (name.text ++ '\n' :: page)) = name.text ++ '\n' :: page := by
    obtain ⟨x, c, hx⟩ := List.exists_cons_of_ne_nil name.ne
    have hspace := identifier_not_space (name.identifier x (by simp [hx]))
    rw [skipSpace, List.dropWhile_cons_of_pos (by decide), hx, List.cons_append,
      List.dropWhile_cons_of_neg (by simp [hspace])]
  rw [hskip, identifier_append name newline_not_identifier]

section

variable (g : Globals) (page : Text)

lemma rr_line (name : Name) :
    ∃ c g', rr (name.text ++ '\n' :: page) g = .ok (c, remove name.text g') ∧
      g'.s_numberDefinitionMap = g.s_numberDefinitionMap := by
  refine ⟨(skip_till_newline ('\n' :: page) g).1, _, ?_, skip_registers ('\n' :: page) g⟩
  rw [rr, identifier_append name newline_not_identifier]
  dsimp only
  rw [if_neg name.ne]

lemma twoNames_append (name name2 : Name) :
    twoNames name name2 ++ '\n' :: page = name.text ++ ' ' :: (name2.text ++ '\n' :: page) := by
  rw [twoNames, List.append_assoc, List.cons_append]

lemma rnn_line (name name2 : Name) :
    ∃ c g', rnn (twoNames name name2 ++ '\n' :: page) g =
        .ok (c, match g.s_numberDefinitionMap name.text with
          | none => g'
          | some d => insert name2.text d (remove name.text g')) ∧
      g'.s_numberDefinitionMap = g.s_numberDefinitionMap := by
  have hskip := skip_registers ('\n' :: page) g
  refine ⟨(skip_till_newline ('\n' :: page) g).1, _, ?_, hskip⟩
  rw [twoNames_append, rnn, identifier_append name space_not_identifier]
  dsimp only
  rw [if_neg name.ne, second_name]
  dsimp only
  rw [if_neg name2.ne, hskip]
  cases g.s_numberDefinitionMap name.text <;> rfl

lemma aln_line (name name2 : Name) :
    ∃ c g', aln (twoNames name name2 ++ '\n' :: page) g =
        .ok (c, if name.text = name2.text then g' else
          match g.s_numberDefinitionMap name2.text with
          | none => g'
          | some d => insert name.text d g') ∧
      g'.s_numberDefinitionMap = g.s_numberDefinitionMap := by
  have hskip := skip_registers ('\n' :: page) g
  refine ⟨(skip_till_newline ('\n' :: page) g).1, _, ?_, hskip⟩
  rw [twoNames_append, aln, identifier_append name space_not_identifier]
  dsimp only
  rw [if_neg name.ne, second_name]
  dsimp only
  rw [if_neg name2.ne, hskip]
  split_ifs
  · rfl
  · cases g.s_numberDefinitionMap name2.text <;> rfl

end

/-! ### Beside troff -/

lemma insert_map (h : g'.s_numberDefinitionMap = g.s_numberDefinitionMap) (name : Text)
    (d : NumberDefinition) :
    (insert name d g').s_numberDefinitionMap =
      Function.update g.s_numberDefinitionMap name (some d) := by
  rw [insert, h]

lemma remove_map (h : g'.s_numberDefinitionMap = g.s_numberDefinitionMap) (name : Text) :
    (remove name g').s_numberDefinitionMap = Function.update g.s_numberDefinitionMap name none := by
  rw [remove, h]

def toRegister (d : NumberDefinition) : Register := ⟨d.m_value, d.m_increment⟩

/-- The registers that can be written and what was read are those of troff. -/
structure Agrees (s : State) (t : Troff) : Prop where
  registers : ∀ name : Text, name.head? ≠ some '.' →
    (s.globals.s_numberDefinitionMap name).map toRegister = t.registers name
  values : s.values = t.values

namespace Agrees

variable {s : State} {t : Troff} (h : Agrees s t) {g : Globals}

include h

lemma set {name : Text} {d : Option NumberDefinition}
    (hg : g.s_numberDefinitionMap = Function.update s.globals.s_numberDefinitionMap name d) :
    Agrees { s with globals := g } (t.set name (d.map toRegister)) := by
  refine ⟨fun other hother => ?_, h.values⟩
  have hold := h.registers other hother
  change (g.s_numberDefinitionMap other).map _ = Function.update t.registers name _ other
  rw [hg]
  by_cases heq : other = name
  · subst heq
    rw [Function.update_self, Function.update_self]
  · rwa [Function.update_of_ne heq, Function.update_of_ne heq]

lemma keep (hg : g.s_numberDefinitionMap = s.globals.s_numberDefinitionMap) :
    Agrees { s with globals := g } t := by
  refine ⟨fun name hname => ?_, h.values⟩
  change (g.s_numberDefinitionMap name).map _ = _
  rw [hg]
  exact h.registers name hname

lemma read (v : ℤ) :
    Agrees { s with values := s.values ++ [v] } { t with values := t.values ++ [v] } :=
  ⟨h.registers, by rw [h.values]⟩

end Agrees

lemma define_nr {l : Line} (h : (g.s_numberDefinitionMap l.name.text).map toRegister =
      t.registers l.name.text) (hfits : Fits t (.nr l)) :
    ∃ d, define l.name.text l.sign.times
        (if l.sign = .minus then -(decimal l.value.text : ℤ) else decimal l.value.text)
        ((l.increment.map Increment.value).getD 0) g = insert l.name.text d g ∧
      t.nr l = t.set l.name.text (some (toRegister d)) := by
  obtain ⟨-, hvalue, hincrement⟩ := hfits
  have hsmall := l.value.small
  have hwrap : wrap (decimal l.value.text : ℤ) = decimal l.value.text := wrap_of_int (by omega)
  -- the increment
  have hinc : (l.increment.map Increment.value).getD (t.incrementOf l.name.text) =
      (l.increment.map Increment.value).getD 0 := by
    cases hi : l.increment with
    | some i => rfl
    | none =>
      rw [hi] at hincrement
      exact hincrement.2
  unfold define Troff.nr
  rw [hinc, Troff.valueOf, ← h]
  rw [← h] at hvalue
  cases hold : g.s_numberDefinitionMap l.name.text with
  | none =>
    rw [hold] at hvalue
    refine ⟨_, rfl, ?_⟩
    cases hs : l.sign with
    | none =>
      rw [hs] at hvalue
      have hzero : decimal l.value.text = 0 := hvalue.resolve_left (by simp)
      rw [hzero]
      rfl
    | plus => simp [toRegister, Sign.times, hwrap]
    | minus =>
      rw [hs] at hvalue
      have hzero : decimal l.value.text = 0 := hvalue
      rw [hzero]
      rfl
  | some d =>
    refine ⟨_, rfl, ?_⟩
    cases hs : l.sign with
    | none => rfl
    | plus => rfl
    | minus =>
      rw [hs] at hvalue
      have hzero : decimal l.value.text = 0 := hvalue
      rw [hzero]
      simp [toRegister, Sign.times, wrap]

lemma read_agrees (h : Agrees s t) {r : Read} (hname : Writable r.name) :
    Agrees ⟨(getNumberRegisterValue r.name.text r.sign.times s.globals).2,
      s.values ++ [(getNumberRegisterValue r.name.text r.sign.times s.globals).1]⟩ (t.read r) := by
  unfold getNumberRegisterValue Troff.read
  rw [if_neg hname, ← h.registers _ hname]
  cases hold : s.globals.s_numberDefinitionMap r.name.text with
  | none => exact h.read 0
  | some d =>
    exact (h.set (d := some { d with m_value := wrap (d.m_value + r.sign.times * d.m_increment) })
      rfl).read _

/-- **One request or read** where the converter does what troff does. -/
lemma step_agrees (h : Agrees s t) {l : Label} (hfits : Fits t l) (page : Text) :
    ∃ s', step env s (l, page) = some s' ∧ Agrees s' (t.next l) := by
  cases l with
  | nr l =>
    have hafter : l.increment = none → l.after = 0 := by
      intro hi
      have hincrement := hfits.2.2
      rw [hi] at hincrement
      exact hincrement.1
    obtain ⟨c, g, hrun, hg⟩ := nr_line env s.globals l page hafter
    obtain ⟨d, hdefine, hnext⟩ := define_nr (g := g) (by
      rw [hg]
      exact h.registers _ hfits.1) hfits
    rw [hdefine] at hrun
    refine ⟨{ s with globals := insert l.name.text d g }, by rw [step, hrun]; rfl, ?_⟩
    rw [Troff.next, hnext]
    exact h.set (insert_map hg l.name.text d)
  | rr name =>
    obtain ⟨c, g, hrun, hg⟩ := rr_line s.globals page name
    refine ⟨{ s with globals := remove name.text g }, by rw [step, hrun]; rfl, ?_⟩
    exact h.set (remove_map hg name.text)
  | rnn name name2 =>
    obtain ⟨c, g, hrun, hg⟩ := rnn_line s.globals page name name2
    refine ⟨_, by rw [step, hrun]; rfl, ?_⟩
    rw [Troff.next, ← h.registers _ hfits.1]
    cases hold : s.globals.s_numberDefinitionMap name.text with
    | none => exact h.keep hg
    | some d =>
      have hremoved : Agrees { s with globals := remove name.text g } (t.set name.text none) :=
        h.set (remove_map hg name.text)
      exact hremoved.set (insert_map rfl name2.text d)
  | aln name name2 =>
    obtain ⟨c, g, hrun, hg⟩ := aln_line s.globals page name name2
    refine ⟨_, by rw [step, hrun]; rfl, ?_⟩
    have hold := h.registers _ hfits.2
    rw [Troff.next, ← hold]
    split_ifs with hsame
    · -- the register is its own copy
      cases hd : s.globals.s_numberDefinitionMap name2.text with
      | none => exact h.keep hg
      | some d =>
        have hkept : s.globals.s_numberDefinitionMap =
            Function.update s.globals.s_numberDefinitionMap name.text (some d) := by
          rw [hsame, ← hd, Function.update_eq_self]
        exact (h.set hkept).keep hg
    · cases s.globals.s_numberDefinitionMap name2.text with
      | none => exact h.keep hg
      | some d => exact h.set (insert_map hg name.text d)
  | read r =>
    obtain ⟨c, hread⟩ := read_register r page hfits.2
    refine ⟨_, by rw [step, hread]; rfl, read_agrees h hfits.1⟩

/-- The registers of the variables, before anything is read. -/
def Troff.ofGlobals (g : Globals) : Troff :=
  ⟨fun name => (g.s_numberDefinitionMap name).map toRegister, []⟩

/-- **The number registers are those of troff**, and what is read of them, in every run of requests
and reads that each do what troff does: no unsigned `.nr` of an undefined register but with 0, no
`-N` but with 0, and no increment left out where there was one. -/
theorem registers_troff (env : Env) (g : Globals) (ls : List (Label × Text))
    (h : AllNext (fun t l => Troff.next t l.1) (fun t l => Fits t l.1) (Troff.ofGlobals g) ls) :
    ∃ s, run (step env) ⟨g, []⟩ ls = some s ∧
      Agrees s (ls.foldl (fun t l => t.next l.1) (Troff.ofGlobals g)) := by
  refine run_simulates (fun s t l hR hfits => ?_) ⟨fun _ _ => rfl, rfl⟩ h
  exact step_agrees env hR hfits l.2

def letterX : Name := ⟨['x'], by simp, by simp [is_identifier_char]⟩

def five : Digits := ⟨['5'], by simp, by simp, by decide⟩

def readX (sign : Sign) : Label := .read ⟨sign, letterX, .one, 'x', rfl, by decide⟩

/-- `.nr x +5 5`, which is read with both signs, removed and read once more. -/
def plusFive : List (Label × Text) :=
  [(.nr ⟨letterX, 0, .plus, five, some ⟨0, .none, five⟩, 0⟩, []), (readX .plus, []),
    (readX .minus, ['.']), (.rr letterX, []), (readX .plus, [])]

theorem plus_then_read :
    ∃ s, run (step literally) ⟨initialGlobals, []⟩ plusFive = some s ∧ s.values = [10, 5, 0] := by
  have hfits : AllNext (fun t l => Troff.next t l.1) (fun t l => Fits t l.1)
      (Troff.ofGlobals initialGlobals) plusFive := by
    refine ⟨?_, ?_, ?_, ?_, ?_, trivial⟩
    · exact ⟨by decide, trivial, trivial⟩
    · exact ⟨by decide, by decide, by decide⟩
    · exact ⟨by decide, by decide, by decide⟩
    · exact (by decide : Writable letterX)
    · exact ⟨by decide, by decide, by decide⟩
  obtain ⟨s, hs, hagrees⟩ := registers_troff literally initialGlobals plusFive hfits
  exact ⟨s, hs, hagrees.values.trans (by decide)⟩

/-- `.nr x 5` sets an undefined register to -5. -/
theorem undefined_register_negated :
    ¬ ∀ (g : Globals) (ls : List (Label × Text)),
      ∃ s, run (step literally) ⟨g, []⟩ ls = some s ∧
        Agrees s (ls.foldl (fun t l => t.next l.1) (Troff.ofGlobals g)) := by
  intro h
  obtain ⟨s, hs, hagrees⟩ :=
    h initialGlobals [(.nr ⟨letterX, 0, .none, five, none, 0⟩, []), (readX .none, [])]
  have hcode : (run (step literally) ⟨initialGlobals, []⟩
      [(.nr ⟨letterX, 0, .none, five, none, 0⟩, []), (readX .none, [])]).map State.values =
        some [-5] := by decide
  rw [hs] at hcode
  have htroff := hagrees.values.symm.trans (Option.some.inj hcode)
  exact absurd htroff (by decide)

end KioExtras.Man.Registers
