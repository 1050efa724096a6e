import Mathlib.Data.List.Basic
import Mathlib.Data.List.SplitBy
import Mathlib.Tactic.Common

/-!
A part of SQL: `SELECT column FROM table WHERE condition`, where a condition is comparisons joined
with `AND` and `OR`, read from the text of the query. A text literal ends at a quote that is not
doubled. A name in double quotes that is no column is a text.
-/

namespace KioExtras.Lib.Sql

abbrev Text := List Char

inductive Token
  | word (name : Text)
  | text (value : Text)
  | quoted (value : Text)
  | equals
  deriving DecidableEq

/-! ### Tokens -/

/-- Where in a token the reader is, with what it has read of it. -/
inductive Mode
  | between
  | word (read : Text)
  | text (read : Text)
  /-- after a quote in a text, which is its end if no other follows -/
  | textEnd (read : Text)
  | quoted (read : Text)
  | quotedEnd (read : Text)
  deriving DecidableEq

def isWordChar (c : Char) : Bool := c.isAlphanum || c = '_'

def begins (c : Char) : Option (List Token × Mode) :=
  if c = ' ' then some ([], .between)
  else if c = '\'' then some ([], .text [])
  else if c = '"' then some ([], .quoted [])
  else if c = '=' then some ([.equals], .between)
  else if isWordChar c then some ([], .word [c])
  else none

def after (token : Token) (c : Char) : Option (List Token × Mode) :=
  (begins c).map fun (tokens, mode) => (token :: tokens, mode)

def next : Mode → Char → Option (List Token × Mode)
  | .between, c => begins c
  | .word read, c => if isWordChar c then some ([], .word (read ++ [c])) else after (.word read) c
  | .text read, c =>
    if c = '\'' then some ([], .textEnd read)
    else if c = '\x00' then none
    else some ([], .text (read ++ [c]))
  | .textEnd read, c =>
    if c = '\'' then some ([], .text (read ++ [c])) else after (.text read) c
  | .quoted read, c =>
    if c = '"' then some ([], .quotedEnd read)
    else if c = '\x00' then none
    else some ([], .quoted (read ++ [c]))
  | .quotedEnd read, c =>
    if c = '"' then some ([], .quoted (read ++ [c])) else after (.quoted read) c

def atEnd : Mode → Option (List Token)
  | .between => some []
  | .word read => some [.word read]
  | .text _ => none
  | .textEnd read => some [.text read]
  | .quoted _ => none
  | .quotedEnd read => some [.quoted read]

def advance (mode : Mode) : Text → Option (List Token × Mode)
  | [] => some ([], mode)
  | c :: rest =>
    (next mode c).bind fun (tokens, mode) =>
      (advance mode rest).map fun (others, mode) => (tokens ++ others, mode)

def tokenize (query : Text) : Option (List Token) :=
  (advance .between query).bind fun (tokens, mode) => (atEnd mode).map fun last => tokens ++ last

lemma advance_append (mode : Mode) (xs ys : Text) :
    advance mode (xs ++ ys) = (advance mode xs).bind fun (tokens, mode) =>
      (advance mode ys).map fun (others, mode) => (tokens ++ others, mode) := by
  induction xs generalizing mode with
  | nil =>
    change advance mode ys = (advance mode ys).map fun (others, mode) => ([] ++ others, mode)
    cases advance mode ys <;> rfl
  | cons c xs ih =>
    rw [List.cons_append, advance, advance]
    cases next mode c with
    | none => rfl
    | some step =>
      obtain ⟨tokens, mode'⟩ := step
      change (advance mode' (xs ++ ys)).map _ = ((advance mode' xs).map _).bind _
      rw [ih]
      cases advance mode' xs with
      | none => rfl
      | some way =>
        obtain ⟨others, mode''⟩ := way
        change ((advance mode'' ys).map _).map _ = (advance mode'' ys).map _
        cases advance mode'' ys with
        | none => rfl
        | some last => simp [List.append_assoc]

lemma advance_trans {mode mode' mode'' : Mode} {xs ys : Text} {tokens others : List Token}
    (hxs : advance mode xs = some (tokens, mode'))
    (hys : advance mode' ys = some (others, mode'')) :
    advance mode (xs ++ ys) = some (tokens ++ others, mode'') := by
  rw [advance_append, hxs]
  change (advance mode' ys).map _ = _
  rw [hys]
  rfl

/-- **A text without quotes is read as it is.** -/
lemma advance_text {value : Text} (hquote : '\'' ∉ value) (hzero : '\x00' ∉ value) (read : Text) :
    advance (.text read) value = some ([], .text (read ++ value)) := by
  induction value generalizing read with
  | nil => simp [advance]
  | cons c rest ih =>
    have hrest := List.not_mem_of_not_mem_cons hquote
    have hrest' := List.not_mem_of_not_mem_cons hzero
    have hnext : next (.text read) c = some ([], .text (read ++ [c])) := by
      change (if c = '\'' then some ([], Mode.textEnd read)
        else if c = '\x00' then none else some ([], .text (read ++ [c]))) = _
      rw [if_neg (List.ne_of_not_mem_cons hquote).symm, if_neg (List.ne_of_not_mem_cons hzero).symm]
    rw [advance, hnext]
    change (advance (.text (read ++ [c])) rest).map _ = _
    rw [ih hrest hrest', List.append_assoc]
    rfl

/-! ### Conditions -/

abbrev Row := Text → Text

structure Table where
  name : Text
  columns : List Text
  rows : List Row

section conditions

variable (columns : List Text) (row : Row)

def operand : Token → Option Text
  | .word name => if columns.contains name then some (row name) else none
  | .text value => some value
  | .quoted value => some (if columns.contains value then row value else value)
  | .equals => none

def comparison : List Token → Option Bool
  | [left, .equals, right] =>
    (operand columns row left).bind fun a => (operand columns row right).map fun b => a = b
  | _ => none

/-- All parts are read, and `join` makes one value of theirs. -/
def joined (part : List Token → Option Bool) (join : List Bool → Bool)
    (parts : List (List Token)) : Option Bool :=
  (parts.mapM part).map join

def conjunction (tokens : List Token) : Option Bool :=
  joined (comparison columns row) (fun values => values.all id)
    (tokens.splitOn (.word "AND".toList))

def condition (tokens : List Token) : Option Bool :=
  joined (conjunction columns row) (fun values => values.any id)
    (tokens.splitOn (.word "OR".toList))

/-- The values of a column in the rows for which the condition holds. -/
def selectRows (column : Text) (tokens : List Token) : List Row → Option (List Text)
  | [] => some []
  | row :: rows =>
    (condition columns row tokens).bind fun holds =>
      (selectRows column tokens rows).map fun values =>
        if holds then row column :: values else values

end conditions

/-- `none`: a query that is not of this part of SQL, or is an error. -/
def select (table : Table) (query : Text) : Option (List Text) :=
  match tokenize query with
  | some (.word select :: .word column :: .word fromWord :: .word name :: .word whereWord ::
      tokens) =>
    if select = "SELECT".toList ∧ fromWord = "FROM".toList ∧ whereWord = "WHERE".toList ∧
        name = table.name ∧ table.columns.contains column then
      selectRows table.columns column tokens table.rows
    else none
  | _ => none

lemma selectRows_filter {columns : List Text} (column : Text) {tokens : List Token}
    {holds : Row → Bool} (h : ∀ row, condition columns row tokens = some (holds row))
    (rows : List Row) :
    selectRows columns column tokens rows =
      some ((rows.filter holds).map fun row => row column) := by
  induction rows with
  | nil => rfl
  | cons row rows ih =>
    rw [selectRows, h row, ih]
    change some (if holds row then row column :: _ else _) = _
    cases hrow : holds row with
    | false => simp [hrow]
    | true => simp [hrow]

end KioExtras.Lib.Sql
