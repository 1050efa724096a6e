import KioExtras.Man.Converter

/-!
The escapes of a man page: `scan_escape_direct` and the scanners that it calls.

The functions call each other through the escape inside of a name, a size or a delimited argument;
here they get the scanner for it as an argument. The number of calls and of turns in a loop is
bounded by a number that the text never needs up.
-/

namespace KioExtras.Man

open Reading

variable (text : Text)

/-! ### Names -/

/-- A name of two characters behind `(`; in place of them an escape gives the whole name. -/
def twoCharacters (escape : ℕ → Scan Globals (ℕ × Text)) (c : ℕ) : Scan Globals (ℕ × Text) := do
  let x ← charAt text (c + 1)
  let g ← get
  if x = g.escapesym then escape (c + 2)
  else
    let y ← charAt text (c + 2)
    pure (c + 3, [x, y])

/-- The loop over a long name. What an escape gives is cut at the character that ends the name. -/
def longNameLoop (escape : ℕ → Scan Globals (ℕ × Text)) (close : Char) :
    ℕ → ℕ → Text → Scan Globals (ℕ × Text)
  | 0, _, _ => stop .unfinished
  | fuel + 1, c, name => do
    let x ← charAt text c
    if x = NUL ∨ x = close ∨ x = '\n' then pure (c, name)
    else
      let g ← get
      if x = g.escapesym then
        let (c, cstr) ← escape (c + 1)
        longNameLoop escape close fuel c (name ++ cstr.takeWhile (· ≠ close))
      else longNameLoop escape close fuel (c + 1) (name ++ [x])

/-- A long name, without a result when the line or the text ends in it. -/
def longName (escape : ℕ → Scan Globals (ℕ × Text)) (close : Char) (fuel c : ℕ) :
    Scan Globals (ℕ × Option Text) := do
  let (c, name) ← longNameLoop text escape close fuel c []
  let x ← charAt text c
  if x = NUL ∨ x = '\n' then pure (c, none) else pure (c + 1, some name)

def scan_named_character (escape : ℕ → Scan Globals (ℕ × Text)) (fuel c : ℕ) :
    Scan Globals (ℕ × Text) := do
  let x ← charAt text c
  if x = '(' then
    let (c, name) ← twoCharacters text escape c
    let g ← get
    leave text c (characterOutput name g)
  else if x = '[' then
    let (c, name) ← longName text escape ']' fuel (c + 1)
    let g ← get
    leave text c ((name.map fun name => characterOutput name g).getD [])
  else
    let quoted ← if x = 'C' then pure true else do
      let y ← charAt text (c + 1)
      pure (y == '\'')
    if quoted then
      let (c, name) ← longName text escape '\'' fuel (c + 2)
      let g ← get
      leave text c ((name.map fun name => characterOutput name g).getD [])
    else
      let g ← get
      leave text c (characterOutput [] g)

def scan_named_string (escape : ℕ → Scan Globals (ℕ × Text)) (fuel c : ℕ) :
    Scan Globals (ℕ × Text) := do
  let x ← charAt text c
  if x = '(' then
    let (c, name) ← twoCharacters text escape c
    let output ← modifyGet (stringOutput name)
    leave text c output
  else if x = '[' then
    let (c, name) ← longName text escape ']' fuel (c + 1)
    match name with
    | none => leave text c []
    | some name =>
      let output ← modifyGet (stringOutput name)
      leave text c output
  else
    let output ← modifyGet (stringOutput [x])
    leave text (c + 1) output

/-- The font of a name is set, unless escapes are skipped. -/
def setNamedFont (name : Text) (g : Globals) : Text × Globals :=
  if g.skip_escape then ([], g) else set_font (fontOf name) g

def scan_named_font (escape : ℕ → Scan Globals (ℕ × Text)) (fuel c : ℕ) :
    Scan Globals (ℕ × Text) := do
  let x ← charAt text c
  if x = '(' then
    let (c, name) ← twoCharacters text escape c
    let markup ← modifyGet (setNamedFont name)
    leave text c markup
  else if x = '[' then
    let (c, name) ← longName text escape ']' fuel (c + 1)
    match name with
    | none => leave text c []
    | some name =>
      let markup ← modifyGet (setNamedFont name)
      leave text c markup
  else if x = NUL then
    -- `\f` alone
    let markup ← modifyGet (setNamedFont [])
    leave text c markup
  else
    let markup ← modifyGet (setNamedFont [x])
    leave text (c + 1) markup

/-! ### Arguments, registers and codes -/

def argumentNumber : ℕ → ℕ → ℤ → Scan Globals (ℕ × ℤ)
  | 0, _, _ => stop .unfinished
  | fuel + 1, c, argno => do
    let x ← charAt text c
    if x.isDigit then argumentNumber fuel (c + 1) (wrap (argno * 10 + (x.toNat - 48 : ℕ)))
    else pure (c, argno)

def scan_dollar_parameter (fuel c : ℕ) : Scan Globals (ℕ × Text) := do
  let x ← charAt text c
  let g ← get
  if x = '0' then leave text (c + 1) g.s_dollarZero
  else if x.isDigit then leave text (c + 1) (argument (x.toNat - 48 : ℕ) g)
  else if x = '(' then
    let y ← charAt text (c + 1)
    if y = NUL then leave text (c + 1) []
    else
      let z ← charAt text (c + 2)
      if z = NUL then leave text (c + 2) []
      else if y.isDigit ∧ z.isDigit then leave text (c + 3) (argument (decimal [y, z]) g)
      else leave text (c + 3) []
  else if x = '[' then
    let (c, argno) ← argumentNumber text fuel (c + 1) 0
    let y ← charAt text c
    if y ≠ ']' then leave text c [] else leave text (c + 1) (argument argno g)
  else if x = '*' then leave text (c + 1) (allArguments false g)
  else if x = '@' then leave text (c + 1) (allArguments true g)
  else leave text c []

def signAt (c : ℕ) (sign : ℤ) : Scan Globals (ℕ × ℤ) := do
  let x ← charAt text c
  if x = '+' then pure (c + 1, 1) else if x = '-' then pure (c + 1, -1) else pure (c, sign)

def scan_number_register (fuel c : ℕ) : Scan Globals (ℕ × ℤ) := do
  let (c, sign) ← signAt text c 0
  let x ← charAt text c
  if x = '[' then
    let (c, sign) ← signAt text (c + 1) sign
    let (c, name) ← upTo text (fun x => x = ']' || x = '\n') fuel c []
    let y ← charAt text c
    if y = NUL ∨ y = '\n' then leave text c 0
    else
      let value ← modifyGet (getNumberRegisterValue name sign)
      leave text (c + 1) value
  else if x = '(' then
    let (c, sign) ← signAt text (c + 1) sign
    let y ← charAt text c
    let z ← charAt text (c + 1)
    let value ← modifyGet (getNumberRegisterValue [y, z] sign)
    leave text (c + 2) value
  else
    let value ← modifyGet (getNumberRegisterValue [x] sign)
    leave text (c + 1) value

/-- At most so many characters of a name, on one line. -/
def fewCharacters : ℕ → ℕ → Text → Scan Globals (ℕ × Text)
  | i, c, name => do
    let x ← charAt text c
    if x = NUL ∨ x = '\n' then pure (c, name)
    else match i with
      | 0 => pure (c, name)
      | i + 1 => fewCharacters i (c + 1) (name ++ [x])

def scan_name (fuel c : ℕ) : Scan Globals (ℕ × Text) := do
  let x ← charAt text c
  if x = '(' then
    let (c, name) ← fewCharacters text 2 (c + 1) []
    leave text c name
  else if x = '[' then
    let (c, name) ← upTo text (fun x => x = ']' || x = '\n') fuel (c + 1) []
    leave text c name
  else leave text c [x]

/-- A tab goes to the next column that 8 divides. -/
def tabbed (curpos : ℕ) : ℕ := (curpos + 8) &&& 0xfff8

def scan_number_code (fuel c : ℕ) : Scan Globals (ℕ × Text) := do
  let x ← charAt text c
  if x ≠ '\'' then leave text c []
  else
    let (c, digits) ← upTo text (fun x => x = '\n' || x = '\'') fuel (c + 1) []
    let result := (toUInt digits).getD 0
    if result < 32 ∨ 65535 < result then leave text c []
    else if result = 9 then
      modify fun g => { g with curpos := tabbed g.curpos }
      leave text c ['\t']
    else
      modify fun g => { g with curpos := g.curpos + 1 }
      leave text (c + 1) ("&#".toList ++ number result ++ [';'])

/-! ### Escapes -/

/-- The end of most escapes: `if (cplusplus && *c) c++`. -/
def plusplus (c : ℕ) (cstr : Text) : Scan Globals (ℕ × Text) := do
  let x ← charAt text c
  if x = NUL then leave text c cstr else leave text (c + 1) cstr

/-- An escape that is one character. What has no other meaning stands for itself. -/
def oneCharacter (x : Char) (g : Globals) : Text × Globals :=
  let advanced := { g with curpos := g.curpos + 1 }
  match x with
  | 'e' => ([g.escapesym], advanced)
  | '0' => ("&#8199;".toList, advanced)
  | '~' | ' ' => ("&nbsp;".toList, advanced)
  | '|' | '^' => ("&#8239;".toList, advanced)
  | ':' | ',' => ([], g)
  | '/' => ("&#8201;".toList, advanced)
  | '!' | '%' | 'a' | 'd' | 'r' | 'u' | '\n' | '&' | ')' => ([], g)
  | 'c' => ([], { g with no_newline_output := 1 })
  | '{' => ([], { g with newline_for_fun := g.newline_for_fun + 1 })
  | '}' => ([], { g with newline_for_fun := g.newline_for_fun - 1 })
  | 'p' => ("<BR>\n".toList, { g with curpos := 0 })
  | 't' => (['\t'], { g with curpos := tabbed g.curpos })
  | '<' => ("&lt;".toList, advanced)
  | '>' => ("&gt;".toList, advanced)
  | '\'' => ("&acute;".toList, advanced)
  | x => ([x], advanced)

/-- The digits of a size: two at most, and one behind a sign or when it is above 3. -/
def sizeDigits (j : ℤ) : ℕ → ℕ → ℤ → Scan Globals (ℕ × ℤ)
  | 0, _, _ => stop .unfinished
  | fuel + 1, c, i => do
    let x ← charAt text c
    if x.isDigit ∧ (i = 0 ∨ (j = 0 ∧ i < 4)) then
      sizeDigits j fuel (c + 1) (i * 10 + (x.toNat - 48 : ℕ))
    else pure (c, i)

/-- The size changes, unless escapes are skipped. -/
def setSize (i j : ℤ) (cstr : Text) (g : Globals) : Text × Globals :=
  let nr := if j = 0 then (if i = 0 then 0 else i - 10) else i * j
  if g.skip_escape then (cstr, g) else change_to_size nr g

/-- The end of `\s`: `c--`, and then the end of most escapes. -/
def sized (c : ℕ) (i j : ℤ) (cstr : Text) : Scan Globals (ℕ × Text) := do
  let cstr ← modifyGet (setSize i j cstr)
  let c ← back c
  plusplus text c cstr

/-- `\s` -/
def scanSize (escape : ℕ → Scan Globals (ℕ × Text)) (fuel c : ℕ) : Scan Globals (ℕ × Text) := do
  let (c, j) ← signAt text c 0
  let x ← charAt text c
  if x = '0' then sized text (c + 1) 0 j []
  else if x = '\\' then
    let (c, cstr) ← escape (c + 1)
    let g ← get
    sized text c g.intresult (if j = 0 then 1 else j) cstr
  else
    let (c, i) ← sizeDigits text j fuel c 0
    sized text c i j []

/-- The loop over a delimited argument, with the number of its turns and the last escape in it. -/
def delimitedLoop (escape : ℕ → Scan Globals (ℕ × Text)) (i : Char) :
    ℕ → ℕ → ℕ × Text → Scan Globals (ℕ × ℕ × Text)
  | 0, _, _ => stop .unfinished
  | fuel + 1, c, (j, cstr) => do
    let x ← charAt text c
    if x = i then pure (c, j, cstr)
    else
      let g ← get
      if x = g.escapesym then
        let (c, cstr) ← escape (c + 1)
        delimitedLoop escape i fuel c (j + 1, cstr)
      else delimitedLoop escape i fuel (c + 1) (j + 1, cstr)

/-- An argument between delimiters is skipped without output. -/
def delimited (escape : ℕ → Scan Globals (ℕ × Text)) (cstr : Text) (fuel c : ℕ) :
    Scan Globals (ℕ × ℕ × Text) := do
  let i ← charAt text c
  let g ← get
  modify fun g => { g with output_possible := false, skip_escape := true }
  let (c, j, cstr) ← delimitedLoop text escape i fuel (c + 1) (0, cstr)
  modify fun g' =>
    { g' with output_possible := g.output_possible, skip_escape := g.skip_escape }
  pure (c, j, cstr)

def scan_escape_direct : ℕ → ℕ → Scan Globals (ℕ × Text)
  | 0, _ => stop .unfinished
  | fuel + 1, c => do
    modify fun g => { g with intresult := 0 }
    let x ← charAt text c
    match x with
    | '"' =>
      let (c, _) ← upTo text (· = '\n') fuel (c + 1) []
      leave text c []
    | '$' => scan_dollar_parameter text fuel (c + 1)
    | 'z' =>
      let y ← charAt text (c + 1)
      if y = '\\' then
        let (c, cstr) ← scan_escape_direct fuel (c + 2)
        let c ← back c
        plusplus text c cstr
      else plusplus text (c + 1) [y]
    | 'k' =>
      let (c, _) ← scan_name text fuel (c + 1)
      plusplus text c []
    | '(' | '[' | 'C' => scan_named_character text (scan_escape_direct fuel) fuel c
    | '*' => scan_named_string text (scan_escape_direct fuel) fuel (c + 1)
    | 'f' => scan_named_font text (scan_escape_direct fuel) fuel (c + 1)
    | 'F' =>
      let (c, name) ← scan_name text fuel (c + 1)
      let font := if name = ['C'] then ['C', 'R'] else if name = ['T'] then ['T', 'R']
        else if name = ['H'] then ['H', 'R'] else name
      let cstr ← modifyGet (set_font font)
      plusplus text c cstr
    | 'm' =>
      let (c, name) ← scan_name text fuel (c + 1)
      plusplus text c (if name = [] then "</span>".toList
        else "<span style='color:".toList ++ name ++ "'>".toList)
    | 's' => scanSize text (scan_escape_direct fuel) fuel (c + 1)
    | 'n' =>
      let (c, value) ← scan_number_register text fuel (c + 1)
      modify fun g => { g with intresult := value }
      pure (c, [])
    | 'w' =>
      let (c, j, cstr) ← delimited text (scan_escape_direct fuel) [] fuel (c + 1)
      modify fun g => { g with intresult := j }
      plusplus text c cstr
    | 'l' =>
      modify fun g => { g with curpos := 0 }
      let (c, _, cstr) ← delimited text (scan_escape_direct fuel) "<HR>".toList fuel (c + 1)
      plusplus text c cstr
    | 'b' | 'v' | 'x' | 'o' | 'L' | 'h' =>
      let (c, _, cstr) ← delimited text (scan_escape_direct fuel) [] fuel (c + 1)
      plusplus text c cstr
    | '\\' =>
      let g ← get
      if g.single_escape then
        let c ← back c
        plusplus text c []
      else plusplus text c ['\\']
    | 'N' => scan_number_code text fuel (c + 1)
    | x =>
      let cstr ← modifyGet (oneCharacter x)
      plusplus text c cstr

end KioExtras.Man
