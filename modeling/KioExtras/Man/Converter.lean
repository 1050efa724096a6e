import KioExtras.Lib.Reading
import Mathlib.Algebra.GroupWithZero.Nat
import Mathlib.Data.Int.Notation
import Mathlib.Logic.Function.Basic

/-!
The variables of the converter from man pages to HTML, and what it does with them apart from
reading a page: fonts, sizes, strings and number registers.

A character stands for a byte.
-/

namespace KioExtras.Man

abbrev Text := List Char

/-! ### `QByteArray` -/

def number (n : ℤ) : Text :=
  if n < 0 then '-' :: Nat.toDigits 10 n.natAbs else Nat.toDigits 10 n.natAbs

def isSpace (c : Char) : Bool := c = ' ' || (9 ≤ c.toNat && c.toNat ≤ 13)

def decimal (digits : Text) : ℕ := digits.foldl (fun n c => 10 * n + (c.toNat - 48)) 0

/-- `QByteArray::toUInt`: spaces and a sign may stand in front, and nothing may follow. -/
def toUInt (s : Text) : Option ℕ :=
  let digits := match s.dropWhile isSpace with
    | '+' :: digits => digits
    | digits => digits
  if digits ≠ [] ∧ digits.all Char.isDigit = true ∧ decimal digits < 2 ^ 32 then
    some (decimal digits)
  else none

/-- A result of `int`. -/
def wrap (n : ℤ) : ℤ := n.bmod (2 ^ 32)

/-! ### The variables -/

structure StringDefinition where
  m_length : ℕ
  m_output : Text

structure NumberDefinition where
  m_value : ℤ
  m_increment : ℤ

/-- The variables that escapes read and set. The version is a constant of the build. -/
structure Globals where
  escapesym : Char
  single_escape : Bool
  skip_escape : Bool
  output_possible : Bool
  no_newline_output : ℕ
  newline_for_fun : ℕ
  intresult : ℤ
  curpos : ℕ
  current_font : Text
  current_size : ℤ
  s_nroff : ℤ
  s_characterDefinitionMap : Text → Option StringDefinition
  s_stringDefinitionMap : Text → Option StringDefinition
  s_numberDefinitionMap : Text → Option NumberDefinition
  s_argumentList : List Text
  s_dollarZero : Text
  KDE_VERSION_STRING : Text

/-! ### Fonts and sizes -/

def fontMarkup (name : Text) : Option Text :=
  match String.ofList name with
  | "P" | "R" => some []
  | "I" => some "<span style=\"font-style:italic\">".toList
  | "B" => some "<span style=\"font-weight:bold\">".toList
  | "L" => some "<span style=\"font-family:monospace\">".toList
  | "BI" => some "<span style=\"font-style:italic;font-weight:bold\">".toList
  | "CR" | "CW" => some "<span style=\"font-family:monospace\">".toList
  | "CI" => some "<span style=\"font-family:monospace;font-style:italic\">".toList
  | "CB" => some "<span style=\"font-family:monospace;font-weight:bold\">".toList
  | "TR" => some "<span style=\"font-family:serif\">".toList
  | "TI" => some "<span style=\"font-family:serif;font-style:italic\">".toList
  | "TB" => some "<span style=\"font-family:serif;font-weight:bold\">".toList
  | "HR" => some "<span style=\"font-family:sans-serif\">".toList
  | "HI" => some "<span style=\"font-family:sans-serif;font-style:italic\">".toList
  | "HB" => some "<span style=\"font-family:sans-serif;font-weight:bold\">".toList
  | "CBI" =>
    some "<span style=\"font-family:monospace;font-style:italic;font-weight:bold\">".toList
  | "TBI" => some "<span style=\"font-family:serif;font-style:italic;font-weight:bold\">".toList
  | "HBI" =>
    some "<span style=\"font-family:sans-serif;font-style:italic;font-weight:bold\">".toList
  | _ => none

/-- Every font but `R` is a span, and the span of the font before is closed. -/
def set_font (name : Text) (g : Globals) : Text × Globals :=
  let closing := if g.current_font ≠ ['R'] ∧ g.current_font ≠ ['P'] ∧ g.current_font ≠ [] then
    "</span>".toList else []
  match fontMarkup name with
  | some markup => (closing ++ markup, { g with current_font := name })
  | none => (closing, { g with current_font := ['R'] })

/-- The size that is asked for: a digit is a size, and anything else but 0 a change of it. -/
def newSize (nr current_size : ℤ) : ℤ :=
  if 48 ≤ nr ∧ nr ≤ 57 then nr - 48
  else if nr = 0 then 0
  else max (-9) (min 9 (current_size + nr))

def change_to_size (nr : ℤ) (g : Globals) : Text × Globals :=
  let nr := newSize nr g.current_size
  if nr = g.current_size then ([], g)
  else
    let font := g.current_font
    let (closing, g) := set_font ['R'] g
    let closed := if g.current_size ≠ 0 then "</span>".toList else []
    let opening := if nr ≠ 0 then
      "<span style=\"font-size:".toList ++ number (100 + nr) ++ "%\">".toList else []
    let (markup, g) := set_font font { g with current_size := nr }
    (closing ++ closed ++ opening ++ markup, g)

/-! ### Strings, registers and arguments -/

def versionPart (version : Text) (i : ℕ) : ℕ :=
  let part := (version.splitOn '.').getD i []
  if part.all Char.isDigit then decimal part else 0

def read_only_number_register (name : Text) (g : Globals) : ℤ :=
  let part := versionPart g.KDE_VERSION_STRING
  match String.ofList name with
  | ".$" => g.s_argumentList.length
  | ".g" => 0
  | ".s" => g.current_size
  | ".P" => 0
  | ".A" => g.s_nroff
  | ".KDE_VERSION_MAJOR" => part 0
  | ".KDE_VERSION_MINOR" => part 1
  | ".KDE_VERSION_RELEASE" => part 2
  | ".KDE_VERSION" => ((part 0 <<< 16 ||| part 1 <<< 8 ||| part 2 : ℕ) : ℤ)
  | ".T" => 0
  | _ => 0

/-- A register is read, and steps in the direction of the sign. -/
def getNumberRegisterValue (name : Text) (sign : ℤ) (g : Globals) : ℤ × Globals :=
  if name.head? = some '.' then (read_only_number_register name g, g)
  else
    match g.s_numberDefinitionMap name with
    | none => (0, g)
    | some d =>
      let value := wrap (d.m_value + sign * d.m_increment)
      (value, { g with
        s_numberDefinitionMap := Function.update g.s_numberDefinitionMap name
          (some { d with m_value := value }) })

/-- The output of a named character; one that is not defined is empty. -/
def characterOutput (name : Text) (g : Globals) : Text :=
  ((g.s_characterDefinitionMap name).map StringDefinition.m_output).getD []

/-- The output of a string, or else the value of the register of that name. -/
def stringOutput (name : Text) (g : Globals) : Text × Globals :=
  match g.s_stringDefinitionMap name with
  | some d => (d.m_output, g)
  | none =>
    let (value, g) := getNumberRegisterValue name 0 g
    (number value, g)

/-- The font of a name, where a number stands for one of five. -/
def fontOf (name : Text) : Text :=
  match toUInt name with
  | some n => (["R", "I", "B", "BI", "CR"].getD n "R").toList
  | none => if name = [] then ['R'] else name

/-- An argument of the macro; the first is number 1. -/
def argument (argno : ℤ) (g : Globals) : Text :=
  if 0 < argno then g.s_argumentList.getD (argno - 1).toNat [] else []

def allArguments (quote : Bool) (g : Globals) : Text :=
  let marks : Text := if quote then ['"'] else []
  List.intercalate [' '] (g.s_argumentList.map fun param => marks ++ param ++ marks)

/-! ### What escapes leave as it is -/

/-- The variables that decide where an escape ends. -/
def Globals.symbols (g : Globals) : Char × Bool := (g.escapesym, g.single_escape)

@[simp] lemma set_font_symbols (name : Text) (g : Globals) :
    (set_font name g).2.symbols = g.symbols := by
  unfold set_font
  cases fontMarkup name <;> rfl

@[simp] lemma change_to_size_symbols (nr : ℤ) (g : Globals) :
    (change_to_size nr g).2.symbols = g.symbols := by
  unfold change_to_size
  dsimp only
  split_ifs
  · rfl
  all_goals
    rw [set_font_symbols]
    exact set_font_symbols ['R'] g

@[simp] lemma getNumberRegisterValue_symbols (name : Text) (sign : ℤ) (g : Globals) :
    (getNumberRegisterValue name sign g).2.symbols = g.symbols := by
  unfold getNumberRegisterValue
  split_ifs
  · rfl
  · cases g.s_numberDefinitionMap name <;> rfl

@[simp] lemma stringOutput_symbols (name : Text) (g : Globals) :
    (stringOutput name g).2.symbols = g.symbols := by
  unfold stringOutput
  cases g.s_stringDefinitionMap name with
  | some d => rfl
  | none => exact getNumberRegisterValue_symbols name 0 g

end KioExtras.Man
