import KioExtras.Man.Bounds
import KioExtras.Man.Expression

/-!
Tables: `scan_format`, `next_row` and `scan_table`.

The rows of a table are a list with a current row, of which the rows before it and behind it are
reached. What the converter makes of the text of a cell, and how many characters it takes, is taken
from an environment, and so is the evaluation of a width. The options of the table are given.
-/

namespace KioExtras.Man.Tables

/-! ### Rows -/

structure TABLEITEM where
  size : ℤ
  align : Char
  valign : Char
  colspan : ℕ
  rowspan : ℕ
  font : Char
  vleft : ℕ
  vright : ℕ
  space : ℤ
  width : ℤ
  contents : Option Text
  deriving DecidableEq

/-- No letter. -/
def NUL : Char := Char.ofNat 0

def TABLEITEM.init : TABLEITEM :=
  { size := 0, align := NUL, valign := NUL, colspan := 1, rowspan := 1, font := NUL, vleft := 0
    vright := 0, space := 0, width := 0, contents := none }

variable (item : TABLEITEM)

def TABLEITEM.copyLayout : TABLEITEM := { item with contents := none }

abbrev TABLEROW := List TABLEITEM

def copyLayout (row : TABLEROW) : TABLEROW := row.map TABLEITEM.copyLayout

/-- The rows of a table around the current one; those before it from the nearest on. -/
structure Rows where
  prev : List TABLEROW
  cur : TABLEROW
  next : List TABLEROW

namespace Rows

def all (rows : Rows) : List TABLEROW := rows.prev.reverse ++ rows.cur :: rows.next

/-- The row after the current one, or after that one where it is the last; a copy is appended
behind the last row. -/
def next_row (rows : Rows) : Rows :=
  match rows.next with
  | [] => ⟨rows.cur :: rows.prev, copyLayout rows.cur, []⟩
  | [tr] => ⟨tr :: rows.cur :: rows.prev, copyLayout tr, []⟩
  | tr :: tr' :: next => ⟨rows.cur :: rows.prev, tr, tr' :: next⟩

def appended (rows : Rows) : Rows :=
  { rows with next := rows.next_row.all.drop (rows.prev.length + 1) }

def change (rows : Rows) (curfield : ℕ) (f : TABLEITEM → TABLEITEM) : Rows :=
  { rows with cur := rows.cur.modify curfield f }

end Rows

def forwardcur (row : TABLEROW) (curfield : ℕ) : ℕ :=
  curfield + 1 + ((row.drop (curfield + 1)).takeWhile fun item => item.align = 'S').length

/-! ### The format -/

/-- What the scan of the format has read: the lines before, from the nearest on, the items before
and the current one. -/
structure Format where
  rows : List TABLEROW
  items : List TABLEITEM
  curfield : TABLEITEM

namespace Format

def start : Format := ⟨[], [], .init⟩

def row (s : Format) : TABLEROW := s.items ++ [s.curfield]

/-- The first line and the ones behind it. -/
def layout (s : Format) : List TABLEROW := s.rows.reverse ++ [s.row]

def align (x : Char) (s : Format) : Format :=
  if s.curfield.align ≠ NUL then
    { s with items := s.row, curfield := { TABLEITEM.init with align := x.toUpper } }
  else { s with curfield := { s.curfield with align := x.toUpper } }

def setFont (x : Char) (s : Format) : Format :=
  { s with curfield := { s.curfield with font := x.toUpper } }

def line (s : Format) : Format := { s with rows := s.row :: s.rows, items := [], curfield := .init }

end Format

variable (c : Text)

def sizeSign : ℤ × Text :=
  let (j, c) := match c with
    | '+' :: c => (1, c)
    | c => (0, c)
  match c with
  | '-' :: c => (-1, c)
  | c => (j, c)

/-- `p`, with its number. -/
def pointSize : ℤ × Text :=
  let (j, c) := sizeSign c
  let i := Expression.toInt (c.takeWhile Char.isDigit)
  (if j ≠ 0 then wrap (i * j) else j - 10, c.dropWhile Char.isDigit)

/-- `if (!isspace(*c) && *c != '.') c++`, where the terminator is not passed. -/
def secondLetter : Text → Option Text
  | [] => none
  | z :: c => some (if isSpace z = false ∧ z ≠ '.' then c else z :: c)

/-- The converter, and what an expression needs of it. It is given what is there already, and gives
the text that it makes and the number of characters it takes. -/
structure Env where
  expression : Expression.Env
  scan_troff : (c : Text) → (san : Bool) → (result : Option Text) → Globals →
    (Text × ℕ) × Globals

variable (env : Env)

def formatStep (x : Char) (c : Text) (s : Format) (g : Globals) :
    Option (Text × Format × Globals) :=
  if x.toUpper ∈ ['C', 'N', 'R', 'A', 'L', 'S', '^', '_'] then some (c, s.align x, g)
  else if x.toUpper ∈ ['I', 'B'] then some (c, s.setFont x, g)
  else if x.toUpper = 'F' then
    match c with
    | [] => none
    | y :: c => (secondLetter c).map fun c => (c, s.setFont y, g)
  else if x.toUpper = 'T' then
    some (c, { s with curfield := { s.curfield with valign := 't' } }, g)
  else if x.toUpper = 'P' then
    let (size, c) := pointSize c
    some (c, { s with curfield := { s.curfield with size } }, g)
  else if x.toUpper ∈ ['V', 'W'] then
    match c with
    | [] => none
    | _ :: c =>
      match Expression.evaluate env.expression c g with
      | .ok (width, c, g) => some (c, { s with curfield := { s.curfield with width } }, g)
      | .error _ => none
  else if x = '|' then
    let curfield :=
      if s.curfield.align ≠ NUL then { s.curfield with vleft := s.curfield.vleft + 1 }
      else { s.curfield with vright := s.curfield.vright + 1 }
    some (c, { s with curfield }, g)
  else if x.isDigit = true then
    let space := Expression.toInt ((x :: c).takeWhile Char.isDigit)
    some (c.dropWhile Char.isDigit, { s with curfield := { s.curfield with space } }, g)
  else if x = ',' ∨ x = '\n' then some (c, s.line, g)
  else some (c, s, g)

def behindLine : Text → Option Text
  | [] => none
  | '\n' :: c => some c
  | _ :: c => behindLine c

def formatLoop (env : Env) : ℕ → Text → Format → Globals → Option (Text × Format × Globals)
  | 0, _, _, _ => none
  | _ + 1, [], s, g => some ([], s, g)
  | fuel + 1, x :: c, s, g =>
    if x = '.' then (behindLine (x :: c)).map fun c => (c, s, g)
    else
      match formatStep env x c s g with
      | some (c, s, g) => formatLoop env fuel c s g
      | none => none

def scan_format (c : Text) (g : Globals) : Option (Text × List TABLEROW × Globals) :=
  (formatLoop env (c.length + 1) c .start g).map fun r => (r.1, r.2.1.layout, r.2.2)

def maxcol (layout : List TABLEROW) : ℕ := (layout.map List.length).foldl max 0

def Rows.ofLayout : List TABLEROW → Option Rows
  | [] => none
  | row :: rows => some ⟨[], row, rows⟩

/-! ### The data -/

/-- What the turns of the loop hand on; `before` is the character in front of the text. -/
structure State where
  rows : Rows
  curfield : ℕ
  before : Char
  text : Text
  g : Globals

namespace State

def advance (n : ℕ) (s : State) : State :=
  { s with text := s.text.drop n, before := ((s.text.take n).getLast?).getD s.before }

/-- `if (currow->has(curfield))`: the item changes, and the next one that is none of a span is the
current one. -/
def fill (f : TABLEITEM → TABLEITEM) (s : State) : State :=
  if s.curfield < s.rows.cur.length then
    let rows := s.rows.change s.curfield f
    { s with rows, curfield := forwardcur rows.cur s.curfield }
  else s

/-- `if (c[-1] == '\n')` -/
def endLine (s : State) : State :=
  if s.before = '\n' then { s with rows := s.rows.next_row, curfield := 0 } else s

end State

/-- The text of a cell, and what is left from its end on. A backslash takes the separator or the end
of the line into the cell. -/
def cellEnd (itemsep : Char) : Char → Text → Text × Text
  | _, [] => ([], [])
  | before, x :: c =>
    if (x = itemsep ∨ x = '\n') ∧ before ≠ '\\' then ([], x :: c)
    else (x :: (cellEnd itemsep x c).1, (cellEnd itemsep x c).2)

/-- The text of a block up to the end of its last line, and what is left behind `T}`. -/
def blockEnd : Text → Option (Text × Text)
  | '\n' :: 'T' :: '}' :: c => some (['\n'], c)
  | [] => none
  | x :: c => (blockEnd c).map fun r => (x :: r.1, r.2)

def itemreset : Text := "\\fR\\s0".toList

section

variable (env : Env) (itemsep : Char)

/-- The converter, and then the font and the size are reset. -/
def contents (c : Text) (san : Bool) (g : Globals) : (Text × ℕ) × Globals :=
  let ((text, n), g) := env.scan_troff c san none g
  let ((text, _), g) := env.scan_troff itemreset false (some text) g
  ((text, n), g)

variable (x : Char)

/-- A line with nothing but a rule is a row of its own before the current one. -/
def ruleLine (columns : ℕ) (s : State) : State :=
  let row := [{ TABLEITEM.init with align := x, colspan := columns }]
  { s with rows := { s.rows with prev := row :: s.rows.prev }, curfield := 0 }.advance 2

def ruleCell (s : State) : State :=
  ((s.fill fun item => { item with align := x }).advance 2).endLine

def block (s : State) : Option State := do
  let (text, rest) ← blockEnd (s.text.drop 2)
  let ((text', _), g) := contents env text false s.g
  if rest = [] then none
  else
    let s := { s with g }.fill fun item => { item with contents := some text' }
    some (s.advance (s.text.length - rest.length + 1)).endLine

/-- `.T&` -/
def newFormat (s : State) : Option State := do
  let c ← behindLine s.text
  let (c, layout, g) ← scan_format env c s.g
  let rows ← Rows.ofLayout layout
  let rows := { rows with prev := s.rows.prev }
  some { rows := rows.appended, curfield := 0, before := '\n', text := c, g }

/-- Any other cell. The separator is a newline while the converter reads it. -/
def cell (s : State) : State :=
  let (text, rest) := cellEnd itemsep s.before s.text
  if rest ≠ [] ∧ (text = ['\\', '_'] ∨ text = ['\\', '^']) then
    ((s.fill fun item => { item with align := text.getLastD NUL }).advance 3).endLine
  else
    let ending : Text := if rest = [] then [] else ['\n']
    let ((contents, n), g) := contents env (text ++ ending ++ rest.tail) true s.g
    (({ s with g }.fill fun item => { item with contents := some contents }).advance n).endLine

/-- A turn of the loop; `true` where the table ends. -/
def turn (columns : ℕ) (s : State) : Option (Bool × State) :=
  let second := s.text[1]?
  match s.text with
  | [] => some (false, s)
  | x :: _ =>
    if (x = '_' ∨ x = '=') ∧ (second = some itemsep ∨ second = some '\n') then
      if s.before = '\n' ∧ second = some '\n' then some (false, ruleLine x columns s)
      else some (false, ruleCell x s)
    else if x = 'T' ∧ second = some '{' then (block env s).map fun s => (false, s)
    else if x = '.' ∧ second = some 'T' ∧ s.text[2]? = some '&' ∧ s.before = '\n' then
      (newFormat env s).map fun s => (false, s)
    else if x = '.' ∧ second = some 'T' ∧ s.text[2]? = some 'E' ∧ s.before = '\n' then
      (behindLine s.text).map fun c => (true, { s with text := c, before := '\n' })
    else if x = '.' ∧ s.before = '\n' ∧ second.any Char.isDigit = false then
      (behindLine s.text).map fun c => (false, { s with text := c, before := '\n' })
    else some (false, cell env itemsep s)

/-- The rows that are left where the loop ends. At the end of the table the current row is removed,
and those behind it. -/
def dataLoop (columns : ℕ) : ℕ → State → Option (List TABLEROW × State)
  | 0, _ => none
  | fuel + 1, s =>
    if s.text = [] then some (s.rows.all, s)
    else
      match turn env itemsep columns s with
      | none => none
      | some (true, s) => if s.rows.prev = [] then none else some (s.rows.prev.reverse, s)
      | some (false, s) => dataLoop columns fuel s

end

/-! ### Spans -/

/-- What the loop over the columns hands on: both rows, and the item that a span belongs to. -/
structure Spans where
  currow : TABLEROW
  prev : TABLEROW
  ti2 : Option ℕ

def spanColumn (s : Spans) (ti : ℕ) : Spans :=
  match s.currow[ti]? with
  | none => s
  | some item =>
    if item.align = 'S' then
      match s.ti2 with
      | none => s
      | some ti2 =>
        let above := (s.prev[ti]?.map TABLEITEM.rowspan).getD 0
        { s with currow := s.currow.modify ti2 fun item =>
            { item with colspan := item.colspan + 1, rowspan := max item.rowspan above } }
    else
      let prev := if item.align = '^' then
          s.prev.modify ti fun above => { above with rowspan := item.rowspan + 1 }
        else s.prev
      match s.ti2 with
      | none => { s with prev, ti2 := some ti }
      | some ti2 => { s with prev, ti2 := some (forwardcur s.currow ti2) }

def spanRow (currow prev : TABLEROW) : Spans :=
  (List.range prev.length).foldl spanColumn ⟨currow, prev, none⟩

/-- The loop from the last row on. -/
def spansFrom : TABLEROW → List TABLEROW → List TABLEROW
  | currow, [] => [currow]
  | currow, prev :: rows =>
    let s := spanRow currow prev
    s.currow :: spansFrom s.prev rows

def spans (rows : List TABLEROW) : List TABLEROW :=
  match rows.reverse with
  | [] => []
  | row :: rows => (spansFrom row rows).reverse

/-! ### The output -/

/-- The spans and columns have no cell of their own. -/
def TABLEITEM.shown : Bool := item.align ≠ 'S' && item.align ≠ '^'

def attributes : Text :=
  (if item.align = 'N' ∨ item.align = 'R' then " ALIGN=right".toList
    else if item.align = 'C' then " ALIGN=center".toList else []) ++
  (if item.valign = NUL ∧ item.rowspan > 1 then " VALIGN=center".toList else []) ++
  (if item.colspan > 1 then " COLSPAN=".toList ++ Man.number item.colspan else []) ++
  if item.rowspan > 1 then " ROWSPAN=".toList ++ Man.number item.rowspan else []

def markup (needed : Bool) (f : Globals → Text × Globals) (g : Globals) : Text × Globals :=
  if needed = true then f g else ([], g)

def cellHtml (columns j : ℕ) (item : TABLEITEM) (g : Globals) : Text × Globals :=
  let space := if item.align = 'N' then item.space + 4 else item.space
  let (size, g) := markup (item.size ≠ 0) (change_to_size item.size) g
  let (font, g) := markup (item.font ≠ NUL) (set_font (Man.number item.font.toNat)) g
  let text := if item.align = '=' then "<HR><HR>".toList
    else if item.align = '_' then "<HR>".toList else item.contents.getD []
  let (font', g) := markup (item.font ≠ NUL) (set_font ['R']) g
  let (size', g) := markup (item.size ≠ 0) (change_to_size 0) g
  ("<TD style='padding-right:10px; padding-left:10px;'".toList ++ attributes item ++ ['>'] ++
    size ++ font ++ text ++ (List.replicate space.toNat "&nbsp;".toList).flatten ++ font' ++
    size' ++ (if j ≥ columns ∧ item.align > '@' ∧ item.align ≠ '_' then "<BR>".toList else []) ++
    "</TD>".toList, g)

def cellsHtml (columns : ℕ) : ℕ → TABLEROW → Globals → Text × Globals
  | _, [], g => ([], g)
  | j, item :: row, g =>
    if item.shown = true then
      let (text, g) := cellHtml columns (j + item.colspan) item g
      let (texts, g) := cellsHtml columns (j + item.colspan) row g
      (text ++ texts, g)
    else cellsHtml columns j row g

def rowsHtml (columns : ℕ) : List TABLEROW → Globals → List Text × Globals
  | [], g => ([], g)
  | row :: rows, g =>
    let (cells, g) := cellsHtml columns 0 row g
    let (texts, g) := rowsHtml columns rows g
    (("<TR VALIGN=top>".toList ++ cells ++ "</TR>\n".toList) :: texts, g)

/-- What is made of a table: its rows, their text, and what is left. -/
structure Table where
  rows : List TABLEROW
  html : List Text
  rest : Text

/-- From the format on. -/
def scan_table (itemsep : Char) (c : Text) (g : Globals) : Option Table := do
  let (c, layout, g) ← scan_format env c g
  let columns := maxcol layout
  let rows ← Rows.ofLayout layout
  let (rows, s) ← dataLoop env itemsep columns (c.length + 1) ⟨rows.next_row, 0, '\n', c, g⟩
  let rows := spans rows
  some ⟨rows, (rowsHtml columns rows s.g).1, s.text⟩

/-! ### What is to hold -/

/-- The columns of a format line but those of spans, each with the number of these behind it. -/
def columnsOf : TABLEROW → List (TABLEITEM × ℕ)
  | [] => []
  | item :: row =>
    if item.align = 'S' then columnsOf row
    else (item, (row.takeWhile fun item => item.align = 'S').length) :: columnsOf row

/-- The cells of a row are aligned, set and spanned as the line of the format says. -/
def LaidOut (line row : TABLEROW) : Prop :=
  List.Forall₂ (fun (column : TABLEITEM × ℕ) item =>
      item.align = column.1.align ∧ item.font = column.1.font ∧ item.size = column.1.size ∧
        item.colspan = 1 + column.2)
    ((columnsOf line).filter fun column => column.1.shown) (row.filter TABLEITEM.shown)

/-- There is a row for each line of the data, laid out by the line of the format, and by its last
one for all lines behind. -/
structure AsTbl (layout : List TABLEROW) (n : ℕ) (table : Table) : Prop where
  count : table.html.length = n
  laidOut : ∀ i row, table.rows[i]? = some row →
    ∃ line, layout[min i (layout.length - 1)]? = some line ∧ LaidOut line row

/-! ### Lines of data -/

section

variable (env : Env) (itemsep : Char)

/-- The text begins with a cell, which the converter reads to its end; `x` ends it. -/
structure Cell (before : Char) (t text : Text) (x : Char) (rest : Text) : Prop where
  ends : cellEnd itemsep before t = (text, x :: rest)
  noRule : ¬ ((t.head? = some '_' ∨ t.head? = some '=') ∧
    (t[1]? = some itemsep ∨ t[1]? = some '\n'))
  noBlock : ¬ (t.head? = some 'T' ∧ t[1]? = some '{')
  noRequest : before = '\n' → t.head? = some '.' → t[1]?.any Char.isDigit = true
  read : ∀ g, (contents env (text ++ '\n' :: rest) true g).1.2 = text.length + 1

/-- The rest of a line, and the text behind the line. A rule may stand in a column. -/
inductive Line : Char → Text → Text → Prop
  | last {before c text r} (h : Cell env itemsep before c text '\n' r) : Line before c r
  | more {before c text rest r} (h : Cell env itemsep before c text itemsep rest)
    (hsep : itemsep ≠ '\n') (hrest : Line itemsep rest r) : Line before c r
  | lastRule {before x r} (hx : x = '_' ∨ x = '=') (hbefore : before ≠ '\n') :
    Line before (x :: '\n' :: r) r
  | rule {before x rest r} (hx : x = '_' ∨ x = '=') (hsep : itemsep ≠ '\n')
    (hrest : Line itemsep rest r) : Line before (x :: itemsep :: rest) r

/-- So many lines of data, and the end of the table; requests may stand between them. -/
inductive Data : ℕ → Text → Prop
  | done {c rest} (h : behindLine ('.' :: 'T' :: 'E' :: c) = some rest) :
    Data 0 ('.' :: 'T' :: 'E' :: c)
  | request {n t r} (hdigit : t.head?.any Char.isDigit = false)
    (htable : ¬ (t.head? = some 'T' ∧ (t[1]? = some '&' ∨ t[1]? = some 'E')))
    (h : behindLine ('.' :: t) = some r) (hrest : Data n r) : Data n ('.' :: t)
  | line {n c r} (h : Line env itemsep '\n' c r) (hrest : Data n r) : Data (n + 1) c

end

/-! ### Where the rows are -/

/-- After so many calls of `next_row` from the first of `k` rows. The row before the last one of the
format is followed by the first copy of the last one. -/
def Stands (k m : ℕ) (rows : Rows) : Prop :=
  if k = 1 ∨ m + 2 ≤ k then rows.prev.length = m ∧ rows.next.length = k - 1 - m
  else rows.prev.length = m + 1 ∧ rows.next.length = 0

variable {k m : ℕ} {s : State}

lemma stands_next_row {rows : Rows} (hk : 0 < k) (h : Stands k m rows) :
    Stands k (m + 1) rows.next_row := by
  unfold Stands at h ⊢
  obtain ⟨prev, cur, next⟩ := rows
  dsimp only at h
  cases next with
  | nil =>
    rw [List.length_nil] at h
    dsimp only [Rows.next_row, List.length]
    split_ifs at h ⊢ <;> omega
  | cons tr next =>
    cases next with
    | nil =>
      rw [List.length_singleton] at h
      dsimp only [Rows.next_row, List.length]
      split_ifs at h ⊢ <;> obtain ⟨hprev, hnext⟩ := h <;> first | omega | contradiction
    | cons tr' next =>
      rw [List.length_cons, List.length_cons] at h
      dsimp only [Rows.next_row, List.length]
      split_ifs at h ⊢ <;> obtain ⟨hprev, hnext⟩ := h <;> first | omega | contradiction

lemma stands_first {layout : List TABLEROW} {rows : Rows} (h : Rows.ofLayout layout = some rows) :
    Stands layout.length 0 rows := by
  cases layout with
  | nil => exact absurd h (by simp [Rows.ofLayout])
  | cons row layout =>
    obtain rfl := Option.some.inj h
    unfold Stands
    dsimp only [List.length]
    split_ifs <;> omega

/-- The rows before and behind are as many. -/
structure Alike (s s' : State) : Prop where
  prev : s'.rows.prev.length = s.rows.prev.length
  next : s'.rows.next.length = s.rows.next.length

lemma Alike.stands {s' : State} (h : Alike s s') (hs : Stands k m s.rows) : Stands k m s'.rows := by
  unfold Stands at hs ⊢
  rw [h.prev, h.next]
  exact hs

variable (f : TABLEITEM → TABLEITEM)

lemma fill_alike (s : State) : Alike s (s.fill f) := by
  unfold State.fill
  split_ifs <;> exact ⟨rfl, rfl⟩

lemma fill_text (s : State) :
    (s.fill f).text = s.text ∧ (s.fill f).before = s.before := by
  unfold State.fill
  split_ifs <;> exact ⟨rfl, rfl⟩

/-- Behind a cell, the line goes on or is over. -/
def Passed (k m : ℕ) (x : Char) (rest : Text) (s : State) : Prop :=
  s.text = rest ∧ s.before = x ∧ Stands k (if x = '\n' then m + 1 else m) s.rows

lemma passed_of_advance {n : ℕ} {x : Char} {c text rest : Text} (hk : 0 < k)
    (hs : Stands k m s.rows) (hc : s.text = c) (htext : c = text ++ x :: rest)
    (hn : n = text.length + 1) : Passed k m x rest (s.advance n).endLine := by
  have hsplit : c = (text ++ [x]) ++ rest := by rw [htext, List.append_assoc, List.singleton_append]
  have hlen : n = (text ++ [x]).length := by rw [hn, List.length_append, List.length_singleton]
  have hrest : (s.advance n).text = rest := by
    change s.text.drop n = rest
    rw [hc, hsplit, hlen, List.drop_left]
  have hbefore : (s.advance n).before = x := by
    change ((s.text.take n).getLast?).getD s.before = x
    rw [hc, hsplit, hlen, List.take_left, List.getLast?_append]
    rfl
  by_cases hx : x = '\n'
  · have hline : (s.advance n).endLine =
        { s.advance n with rows := (s.advance n).rows.next_row, curfield := 0 } :=
      if_pos (hbefore.trans hx)
    rw [hline]
    refine ⟨hrest, hbefore, ?_⟩
    rw [if_pos hx]
    exact stands_next_row hk hs
  · have hline : (s.advance n).endLine = s.advance n := if_neg (hbefore.trans_ne hx)
    rw [hline]
    refine ⟨hrest, hbefore, ?_⟩
    rw [if_neg hx]
    exact hs

lemma cellEnd_append (itemsep before : Char) (c : Text) :
    (cellEnd itemsep before c).1 ++ (cellEnd itemsep before c).2 = c := by
  induction c generalizing before with
  | nil => rfl
  | cons x c ih =>
    rw [cellEnd]
    split_ifs
    · rfl
    · rw [List.cons_append, ih]

section

variable {env : Env} {itemsep : Char}

variable {k m : ℕ} {s : State} {x : Char}

variable {c r : Text} {y : Char} {fuel : ℕ}

lemma cell_passed {before : Char} {text rest : Text} (hk : 0 < k)
    (h : Cell env itemsep before c text x rest) (htext : s.text = c) (hbefore : s.before = before)
    (hs : Stands k m s.rows) : Passed k m x rest (cell env itemsep s) := by
  have hsplit : c = text ++ x :: rest := by
    have happend := cellEnd_append itemsep before c
    rw [h.ends] at happend
    exact happend.symm
  have hends : cellEnd itemsep s.before s.text = (text, x :: rest) := by
    rw [htext, hbefore]
    exact h.ends
  by_cases hrule : text = ['\\', '_'] ∨ text = ['\\', '^']
  · let f := fun item : TABLEITEM => { item with align := text.getLastD NUL }
    have hcell : cell env itemsep s = ((s.fill f).advance 3).endLine := by
      unfold cell
      rw [hends]
      exact if_pos ⟨List.cons_ne_nil x rest, hrule⟩
    have hlen : text.length = 2 := by
      rcases hrule with heq | heq <;> rw [heq] <;> rfl
    rw [hcell]
    exact passed_of_advance hk ((fill_alike f s).stands hs) ((fill_text f s).1.trans htext) hsplit
      (by omega)
  · let r := contents env (text ++ '\n' :: rest) true s.g
    let f := fun item : TABLEITEM => { item with contents := some r.1.1 }
    have hcell : cell env itemsep s = (({ s with g := r.2 }.fill f).advance r.1.2).endLine := by
      unfold cell
      rw [hends]
      dsimp only
      rw [if_neg (fun h => hrule h.2), if_neg (List.cons_ne_nil x rest), List.tail_cons,
        List.append_assoc, List.singleton_append]
    rw [hcell]
    exact passed_of_advance hk ((fill_alike f _).stands hs) ((fill_text f _).1.trans htext) hsplit
      (h.read s.g)

lemma ruleCell_passed {rest : Text} (hk : 0 < k) (htext : s.text = y :: x :: rest)
    (hs : Stands k m s.rows) : Passed k m x rest (ruleCell y s) := by
  have hfill := fill_text (fun item => { item with align := y }) s
  exact passed_of_advance hk ((fill_alike _ s).stands hs) (hfill.1.trans htext)
    (List.singleton_append).symm rfl

lemma turn_cell {columns : ℕ} {before : Char} {t text rest : Text}
    (h : Cell env itemsep before t text x rest) (htext : s.text = t) (hbefore : s.before = before) :
    turn env itemsep columns s = some (false, cell env itemsep s) := by
  cases t with
  | nil => exact absurd h.ends (by simp [cellEnd])
  | cons y t =>
    have hrule := h.noRule
    have hblock := h.noBlock
    have hrequest := h.noRequest
    rw [List.head?_cons] at hrule hblock hrequest
    unfold turn
    rw [htext, hbefore]
    dsimp only
    rw [if_neg (by simpa using hrule), if_neg (by simpa using hblock)]
    have hdigit : ∀ z : Char, y = '.' → before = '\n' → (y :: t)[1]? = some z →
        z.isDigit = true := by
      intro z hy hn hz
      have hany := hrequest hn (by rw [hy])
      rwa [hz] at hany
    rw [if_neg, if_neg, if_neg]
    · rintro ⟨hy, hn, hno⟩
      rw [hrequest hn (by rw [hy])] at hno
      exact Bool.false_ne_true hno.symm
    · rintro ⟨hy, hsecond, -, hn⟩
      exact absurd (hdigit 'T' hy hn hsecond) (by decide)
    · rintro ⟨hy, hsecond, -, hn⟩
      exact absurd (hdigit 'T' hy hn hsecond) (by decide)

lemma turn_rule {columns : ℕ} {rest : Text} (htext : s.text = y :: x :: rest)
    (hy : y = '_' ∨ y = '=') (hx : x = itemsep ∨ x = '\n')
    (hbefore : ¬ (s.before = '\n' ∧ x = '\n')) :
    turn env itemsep columns s = some (false, ruleCell y s) := by
  unfold turn
  rw [htext]
  dsimp only
  rw [if_pos ⟨hy, by simpa using hx⟩, if_neg (by simpa using hbefore)]

lemma dataLoop_turn {columns : ℕ} {s' : State} (hne : s.text ≠ [])
    (h : turn env itemsep columns s = some (false, s')) :
    dataLoop env itemsep columns (fuel + 1) s = dataLoop env itemsep columns fuel s' := by
  rw [dataLoop, if_neg hne, h]

lemma Cell.length {before : Char} {text rest : Text} (h : Cell env itemsep before c text x rest) :
    rest.length + 1 ≤ c.length := by
  have happend := congrArg List.length (cellEnd_append itemsep before c)
  rw [h.ends] at happend
  rw [List.length_append, List.length_cons] at happend
  omega

/-- A line takes a call of `next_row`, and no more turns than it has characters. -/
lemma line_run (columns : ℕ) {before : Char} (hk : 0 < k) (h : Line env itemsep before c r)
    (htext : s.text = c) (hbefore : s.before = before) (hs : Stands k m s.rows) :
    ∃ j s', (∀ fuel, dataLoop env itemsep columns (fuel + j) s =
        dataLoop env itemsep columns fuel s') ∧ s'.text = r ∧ s'.before = '\n' ∧
      Stands k (m + 1) s'.rows ∧ r.length + j ≤ c.length := by
  have hne : ∀ {x : Char} {c rest : Text}, c = x :: rest → c ≠ [] := by
    rintro x c rest rfl
    exact List.cons_ne_nil x rest
  induction h generalizing s with
  | @last before c text r hcell =>
    have hlen := hcell.length
    obtain ⟨hrest, hnext, hstands⟩ := cell_passed hk hcell htext hbefore hs
    rw [if_pos rfl] at hstands
    refine ⟨1, _, fun fuel => dataLoop_turn ?_ (turn_cell hcell htext hbefore), hrest, hnext,
      hstands, hlen⟩
    rw [htext, Ne, ← List.length_eq_zero_iff]
    omega
  | @more before c text rest r hcell hsep _ ih =>
    have hlen := hcell.length
    obtain ⟨hrest, hnext, hstands⟩ := cell_passed hk hcell htext hbefore hs
    rw [if_neg hsep] at hstands
    obtain ⟨j, s', hrun, htext', hbefore', hstands', hlen'⟩ := ih hrest hnext hstands
    refine ⟨j + 1, s', fun fuel => ?_, htext', hbefore', hstands', by omega⟩
    rw [← Nat.add_assoc, dataLoop_turn ?_ (turn_cell hcell htext hbefore)]
    · exact hrun fuel
    · rw [htext, Ne, ← List.length_eq_zero_iff]
      omega
  | @lastRule before x r hx hno =>
    obtain ⟨hrest, hnext, hstands⟩ := ruleCell_passed hk htext hs
    rw [if_pos rfl] at hstands
    refine ⟨1, _, fun fuel => dataLoop_turn (hne htext)
      (turn_rule htext hx (Or.inr rfl) fun hline => hno (hbefore ▸ hline.1)), hrest, hnext, hstands,
      ?_⟩
    rw [List.length_cons, List.length_cons]
    omega
  | @rule before x rest r hx hsep _ ih =>
    obtain ⟨hrest, hnext, hstands⟩ := ruleCell_passed hk htext hs
    rw [if_neg hsep] at hstands
    obtain ⟨j, s', hrun, htext', hbefore', hstands', hlen'⟩ := ih hrest hnext hstands
    refine ⟨j + 1, s', fun fuel => ?_, htext', hbefore', hstands', ?_⟩
    · rw [← Nat.add_assoc, dataLoop_turn (hne htext)
        (turn_rule htext hx (Or.inl rfl) fun hline => hsep hline.2)]
      exact hrun fuel
    · rw [List.length_cons, List.length_cons]
      omega

lemma behindLine_length (h : behindLine c = some r) : r.length < c.length := by
  induction c with
  | nil => exact absurd h (by simp [behindLine])
  | cons x c ih =>
    rw [List.length_cons]
    by_cases hx : x = '\n'
    · subst hx
      obtain rfl : c = r := Option.some.inj h
      omega
    · have hstep : behindLine (x :: c) = behindLine c := by
        rw [behindLine]
        exact fun heq => hx heq
      have hrest := ih (hstep ▸ h)
      omega

/-- The number of rows before the current one. -/
def place (k m : ℕ) : ℕ := if k = 1 ∨ m + 2 ≤ k then m else m + 1

lemma Stands.prev {rows : Rows} (h : Stands k m rows) : rows.prev.length = place k m := by
  unfold Stands at h
  unfold place
  split_ifs at h ⊢
  · exact h.1
  · exact h.1

lemma data_run (columns : ℕ) {n : ℕ} (hk : 0 < k) (hm : 0 < m) (h : Data env itemsep n c)
    (htext : s.text = c) (hbefore : s.before = '\n') (hs : Stands k m s.rows)
    (hfuel : c.length < fuel) :
    ∃ rows s', dataLoop env itemsep columns fuel s = some (rows, s') ∧
      rows.length = place k (m + n) := by
  obtain ⟨fuel, rfl⟩ : ∃ f, fuel = f + 1 := ⟨fuel - 1, by omega⟩
  induction h generalizing s m fuel with
  | @done c rest h =>
    have hturn : turn env itemsep columns s =
        some (true, { s with text := rest, before := '\n' }) := by
      unfold turn
      rw [htext, hbefore, h]
      rfl
    have hprev := hs.prev
    have hpos : 0 < place k m := by
      unfold place
      split_ifs <;> omega
    have hne : s.rows.prev ≠ [] := by
      rw [Ne, ← List.length_eq_zero_iff]
      omega
    refine ⟨s.rows.prev.reverse, { s with text := rest, before := '\n' }, ?_, ?_⟩
    · rw [dataLoop, if_neg (by simp [htext]), hturn]
      exact if_neg hne
    · rw [List.length_reverse, hprev, Nat.add_zero]
  | @request n t r hdigit htable h _ ih =>
    have hturn : turn env itemsep columns s =
        some (false, { s with text := r, before := '\n' }) := by
      unfold turn
      rw [htext, hbefore, h]
      dsimp only
      have hfirst : ('.' :: t)[1]? = t.head? := by cases t <;> rfl
      have hsecond : ('.' :: t)[2]? = t[1]? := rfl
      rw [hfirst, hsecond]
      have hformat : ¬ (('.' : Char) = '.' ∧ t.head? = some 'T' ∧ t[1]? = some '&' ∧
          ('\n' : Char) = '\n') := fun ⟨_, hT, hsign, _⟩ => htable ⟨hT, Or.inl hsign⟩
      have hend : ¬ (('.' : Char) = '.' ∧ t.head? = some 'T' ∧ t[1]? = some 'E' ∧
          ('\n' : Char) = '\n') := fun ⟨_, hT, hsign, _⟩ => htable ⟨hT, Or.inr hsign⟩
      rw [if_neg (fun h => absurd h.1 (by decide)), if_neg (fun h => absurd h.1 (by decide)),
        if_neg hformat, if_neg hend, if_pos ⟨rfl, rfl, hdigit⟩]
      rfl
    have hlen := behindLine_length h
    obtain ⟨fuel, rfl⟩ : ∃ f, fuel = f + 1 := ⟨fuel - 1, by rw [List.length_cons] at hfuel; omega⟩
    obtain ⟨rows, s', hrun, hcount⟩ := ih hm (s := { s with text := r, before := '\n' }) rfl rfl hs
      fuel (by omega)
    refine ⟨rows, s', ?_, hcount⟩
    rw [dataLoop_turn (by simp [htext]) hturn]
    exact hrun
  | @line n c r hline _ ih =>
    obtain ⟨j, s', hrun, htext', hbefore', hs', hlen⟩ :=
      line_run columns hk hline htext hbefore hs
    obtain ⟨rows, s'', hrun', hcount⟩ :=
      ih (Nat.succ_pos m) htext' hbefore' hs' (fuel - j) (by omega)
    refine ⟨rows, s'', ?_, ?_⟩
    · have hsplit : fuel + 1 = fuel - j + 1 + j := by omega
      rw [hsplit, hrun]
      exact hrun'
    · rw [hcount, Nat.succ_add_eq_add_succ]

end

/-! ### The rows that are put out -/

lemma spansFrom_length (row : TABLEROW) (rows : List TABLEROW) :
    (spansFrom row rows).length = rows.length + 1 := by
  induction rows generalizing row with
  | nil => rfl
  | cons prev rows ih =>
    rw [spansFrom, List.length_cons, List.length_cons, ih]

lemma spans_length (rows : List TABLEROW) : (spans rows).length = rows.length := by
  have hlen : rows.reverse.length = rows.length := List.length_reverse
  unfold spans
  cases h : rows.reverse with
  | nil =>
    rw [h] at hlen
    exact hlen
  | cons row rest =>
    rw [h] at hlen
    dsimp only
    rw [List.length_reverse, spansFrom_length, ← hlen, List.length_cons]

lemma rowsHtml_length (columns : ℕ) (rows : List TABLEROW) (g : Globals) :
    (rowsHtml columns rows g).1.length = rows.length := by
  induction rows generalizing g with
  | nil => rfl
  | cons row rows ih =>
    rw [rowsHtml, List.length_cons, List.length_cons]
    exact congrArg (· + 1) (ih _)

section

variable {env : Env} {itemsep : Char} {c data : Text} {layout : List TABLEROW} {g g' : Globals}
  {n : ℕ}

lemma layout_ne (h : scan_format env c g = some (data, layout, g')) : layout ≠ [] := by
  obtain ⟨r, -, hr⟩ := Option.map_eq_some_iff.mp h
  have hlayout : r.2.1.layout = layout := congrArg (fun r => r.2.1) hr
  rw [← hlayout]
  simp [Format.layout]

/-- The table has a row for each call of `next_row` and one more behind the last line of the
format. -/
lemma scan_table_length (hformat : scan_format env c g = some (data, layout, g'))
    (hdata : Data env itemsep n data) :
    ∃ table, scan_table env itemsep c g = some table ∧
      table.html.length = place layout.length (n + 1) := by
  have hk : 0 < layout.length := List.length_pos_iff.mpr (layout_ne hformat)
  obtain ⟨rows, hrows⟩ : ∃ rows, Rows.ofLayout layout = some rows := by
    cases layout with
    | nil => exact absurd rfl (layout_ne hformat)
    | cons row layout => exact ⟨_, rfl⟩
  have hs : Stands layout.length 1 rows.next_row := stands_next_row hk (stands_first hrows)
  obtain ⟨rows', s, hrun, hcount⟩ := data_run (maxcol layout) hk Nat.one_pos hdata
    (s := ⟨rows.next_row, 0, '\n', data, g'⟩) rfl rfl hs (Nat.lt_succ_self _)
  have htable : scan_table env itemsep c g =
      some ⟨spans rows', (rowsHtml (maxcol layout) (spans rows') s.g).1, s.text⟩ := by
    unfold scan_table
    rw [hformat, Option.bind_eq_bind, Option.bind_some]
    dsimp only
    rw [hrows, Option.bind_eq_bind, Option.bind_some, hrun]
    rfl
  refine ⟨_, htable, ?_⟩
  rw [rowsHtml_length, spans_length, hcount, Nat.add_comm]

/-- **No table has a row for each line of its data**: `scan_table` puts out a row more, or two. -/
theorem scan_table_rows (hformat : scan_format env c g = some (data, layout, g'))
    (hdata : Data env itemsep n data) :
    ∃ table, scan_table env itemsep c g = some table ∧ ¬ AsTbl layout n table := by
  obtain ⟨table, htable, hlen⟩ := scan_table_length hformat hdata
  refine ⟨table, htable, fun h => ?_⟩
  have hcount := h.count
  rw [hlen] at hcount
  unfold place at hcount
  split_ifs at hcount <;> omega

end

/-- A converter that takes the text up to the end of the line as it is. -/
def lineEnv : Env where
  expression := ⟨fun _ g => (0, g), fun _ g => (none, g)⟩
  scan_troff c san result g :=
    if san = true then
      ((result.getD [] ++ c.takeWhile (· ≠ '\n'), (c.takeWhile (· ≠ '\n')).length + 1), g)
    else ((result.getD [] ++ c, c.length), g)

def leftItem : TABLEITEM := { TABLEITEM.init with align := 'L' }

def twoCells : Text := "a\tb\n.TE\n".toList

lemma twoCells_format : scan_format lineEnv ("l l.\n".toList ++ twoCells) initialGlobals =
    some (twoCells, [[leftItem, leftItem]], initialGlobals) := rfl

lemma twoCells_data : Data lineEnv '\t' 1 twoCells := by
  have hend : Data lineEnv '\t' 0 ".TE\n".toList := by
    apply Data.done
    exact (rfl : behindLine ".TE\n".toList = some [])
  have hfirst : Cell lineEnv '\t' '\n' twoCells ['a'] '\t' "b\n.TE\n".toList :=
    ⟨rfl, by decide, by decide, by decide, fun _ => rfl⟩
  have hsecond : Cell lineEnv '\t' '\t' "b\n.TE\n".toList ['b'] '\n' ".TE\n".toList :=
    ⟨rfl, by decide, by decide, by decide, fun _ => rfl⟩
  exact Data.line (Line.more hfirst (by decide) (Line.last hsecond)) hend

theorem twoCells_rows :
    ∃ table, scan_table lineEnv '\t' ("l l.\n".toList ++ twoCells) initialGlobals = some table ∧
      ¬ AsTbl [[leftItem, leftItem]] 1 table :=
  scan_table_rows twoCells_format twoCells_data

/-- A table with one line of data has two rows, and the first one is empty. -/
theorem empty_row_first :
    ¬ ∀ (env : Env) (itemsep : Char) (c data : Text) (layout : List TABLEROW) (g g' : Globals)
      (n : ℕ), scan_format env c g = some (data, layout, g') → Data env itemsep n data →
      ∃ table, scan_table env itemsep c g = some table ∧ AsTbl layout n table := by
  intro hall
  obtain ⟨table, htable, has⟩ := hall _ '\t' _ _ _ _ _ _ twoCells_format twoCells_data
  obtain ⟨table', htable', hlen⟩ := scan_table_length twoCells_format twoCells_data
  obtain rfl : table = table' := Option.some.inj (htable.symm.trans htable')
  have hcount := has.count
  rw [hlen] at hcount
  exact absurd hcount (by decide)

end KioExtras.Man.Tables
