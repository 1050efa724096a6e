import KioExtras.Man.Converter

/-!
Numeric expressions: `scan_expression`, with what it reads of the text.

The escapes, and the conversion of the strings of a comparison, are taken from an environment. The
number of turns of the loop and of calls inside of each other is bounded by a number that the text
never needs up.
-/

namespace KioExtras.Man.Expression

/-- What ends an evaluation before its time. -/
inductive Trap
  | divisionByZero
  | outside
  | unfinished
  deriving DecidableEq

/-- How much of the text an escape takes, the text of a string that is compared, and the
variables after each. -/
structure Env where
  scan_escape : Text → Globals → ℕ × Globals
  scan_troff : Text → Globals → Option Text × Globals

abbrev Result := Except Trap (ℤ × Text × Globals)

/-! ### Numbers -/

def divide (a b : ℤ) : Except Trap ℤ :=
  if b = 0 then .error .divisionByZero else .ok (wrap (a.tdiv b))

def toInt (digits : Text) : ℤ :=
  digits.foldl (fun n ch => wrap (n * 10 + (ch.toNat - 48 : ℕ))) 0

def denumerator (digits : Text) : ℤ := digits.foldl (fun denum _ => wrap (denum * 10)) 1

/-- The digits behind the point, and what follows. -/
def fraction : Text → Text × Text
  | '.' :: x :: c =>
    if x.isDigit = true then ((x :: c).takeWhile Char.isDigit, (x :: c).dropWhile Char.isDigit)
    else ([], '.' :: x :: c)
  | c => ([], c)

/-- The scale indicator; an inch has ten points. -/
def scaled (value2 num denum : ℤ) : Text → Except Trap (ℤ × ℤ × Text)
  | [] => .ok (value2, num, [])
  | x :: c =>
    if x.isAlpha = true then
      if x = 'i' then do
        let tenths ← divide (wrap (num * 10 + denum.tdiv 2)) denum
        .ok (wrap (value2 * 10 + tenths), 0, c)
      else .ok (value2, num, c)
    else .ok (value2, num, x :: c)

/-- A number with its sign; whether it ends the expression; and the rest. -/
def number (sign : ℤ) (c : Text) : Except Trap (ℤ × Bool × Text) := do
  let digits := fraction (c.dropWhile Char.isDigit)
  let denum := denumerator digits.1
  let (value2, num, c) ← scaled (toInt (c.takeWhile Char.isDigit)) (toInt digits.1) denum digits.2
  let rounded ← divide (wrap (num + denum.tdiv 2)) denum
  .ok (wrap (sign * wrap (value2 + rounded)), decide (c.head? = some '.'), c)

/-! ### Operators -/

def truth (b : Bool) : ℤ := if b then 1 else 0

/-- `switch (oper)`. A character with `=` behind it has 16 added. -/
def apply (oper : ℕ) (value value2 : ℤ) : ℤ :=
  if oper = 'c'.toNat then value2
  else if oper = '-'.toNat then wrap (value - value2)
  else if oper = '+'.toNat then wrap (value + value2)
  else if oper = '*'.toNat then wrap (value * value2)
  else if oper = '/'.toNat then if value2 ≠ 0 then wrap (value.tdiv value2) else value
  else if oper = '%'.toNat then if value2 ≠ 0 then wrap (value.tmod value2) else value
  else if oper = '<'.toNat then truth (value < value2)
  else if oper = '>'.toNat then truth (value > value2)
  else if oper = '>'.toNat + 16 then truth (value ≥ value2)
  else if oper = '<'.toNat + 16 then truth (value ≤ value2)
  else if oper = '='.toNat ∨ oper = '='.toNat + 16 then truth (value = value2)
  else if oper = '&'.toNat then truth (value ≠ 0 ∧ value2 ≠ 0)
  else if oper = ':'.toNat then truth (value ≠ 0 ∨ value2 ≠ 0)
  else value

def isOperator (x : Char) : Bool := x ∈ ['-', '>', '<', '+', '/', '*', '%', '&', '=', ':']

/-- What the turns of the loop hand on. -/
structure Accumulator where
  value : ℤ
  sign : ℤ
  oper : ℕ

/-- `if (opex > 0)` -/
def Accumulator.operand (s : Accumulator) (value2 : ℤ) : Accumulator :=
  ⟨apply s.oper s.value value2, 1, 0⟩

def operator (x : Char) (c : Text) : ℕ × Text :=
  match c with
  | '=' :: c => (x.toNat + 16, c)
  | c => (x.toNat, c)

/-- `if (isalpha(*c)) c++` -/
def skipAlpha : Text → Text
  | [] => []
  | x :: c => if x.isAlpha = true then c else x :: c

/-! ### The loop -/

/-- Where the loop ends. Blanks are read inside of parentheses. -/
def ends (numLoop : ℕ) (x : Char) : Bool := (isSpace x && numLoop == 0) || x = ')'

/-- `if (*c == ')') c++` -/
def skipClose : Text → Text
  | ')' :: c => c
  | c => c

section

variable (env : Env) (inner : Text → Globals → Result) (numLoop : ℕ)

def loop : ℕ → Accumulator → Text → Globals → Result
  | 0, _, _, _ => .error .unfinished
  | _ + 1, s, [], g => .ok (s.value, [], g)
  | fuel + 1, s, x :: c, g =>
    if ends numLoop x = true then .ok (s.value, skipClose (x :: c), g)
    else if x = '(' then do
      let (value2, c, g) ← inner c g
      loop fuel (s.operand (wrap (s.sign * value2))) c g
    else if x = '.' ∨ x.isDigit = true then do
      let (value2, last, c) ← number s.sign (x :: c)
      if last = true then .ok (s.value, c, g) else loop fuel (s.operand value2) c g
    else if x = '\\' then
      let (n, g) := env.scan_escape c g
      loop fuel (s.operand (wrap (g.intresult * s.sign))) (skipAlpha (c.drop n)) g
    else if x = '-' ∧ s.oper ≠ 0 then loop fuel { s with sign := -1 } c g
    else if isOperator x = true then
      loop fuel { s with oper := (operator x c).1 } (operator x c).2 g
    else loop fuel s c g

end

/-! ### Comparing strings -/

/-- A comparison of strings begins with its separator, which may be `\(xx`. -/
def startsString (x : Char) (c : Text) : Bool :=
  x = '\'' || x = '"' || x.toNat < 32 || 128 ≤ x.toNat || (x = '\\' && c.head? = some '(')

def forward (n : ℕ) (c : Text) : Except Trap Text :=
  if n ≤ c.length then .ok (c.drop n) else .error .outside

def untilSeparator (x : Char) (c : Text) : Except Trap (Text × Text) :=
  if c.dropWhile (· ≠ x) = [] then .error .outside
  else .ok (c.takeWhile (· ≠ x), c.dropWhile (· ≠ x))

def strings (env : Env) (x : Char) (c : Text) (g : Globals) : Result := do
  let more := if x = '\\' then 3 else 0
  let c ← forward more c
  let (h, c) ← untilSeparator x c
  let (st1, g) := env.scan_troff h g
  let c ← forward (1 + more) c
  let (h, c) ← untilSeparator x c
  let (st2, g) := env.scan_troff h g
  let c ← forward (1 + more) c
  .ok (truth (st1 = st2), c, g)

/-! ### `scan_expression` -/

/-- `skip_escape` is set while an expression is evaluated. -/
def restored (old : Bool) (r : ℤ × Text × Globals) : ℤ × Text × Globals :=
  (r.1, r.2.1, { r.2.2 with skip_escape := old })

def begin_ : Accumulator := ⟨0, 1, 'c'.toNat⟩

def scan_expression (env : Env) : ℕ → ℕ → Text → Globals → Result
  | 0, _, _, _ => .error .unfinished
  | _ + 1, _, [], _ => .error .outside
  | fuel + 1, numLoop, x :: c, g =>
    let skipping := { g with skip_escape := true }
    Except.map (restored g.skip_escape) <|
      if x = '!' then
        Except.map (fun r => (truth (r.1 = 0), r.2)) (scan_expression env fuel 0 c skipping)
      else if x = 'n' then .ok (g.s_nroff, c, skipping)
      else if x = 't' then .ok (wrap (1 - g.s_nroff), c, skipping)
      else if startsString x c = true then strings env x c skipping
      else
        loop env (scan_expression env fuel (numLoop + 1)) numLoop (fuel + 1) begin_ (x :: c)
          skipping

/-- The call from a request. -/
def evaluate (env : Env) (c : Text) (g : Globals) : Result :=
  scan_expression env (c.length + 1) 0 c g

end KioExtras.Man.Expression
