import KioExtras.Man.Escapes

/-!
On which texts an escape is read without leaving them.

`Escape` is the grammar of the escapes that are complete: two characters behind `(`, a delimiter
and the same delimiter again, a name where one is needed, and so on for each escape inside of
another. On a text that begins with a complete escape the scanners read up to the terminator at
most and return a position that is not behind it; on all others a run reads outside of the text or
returns a position behind its end.
-/

namespace KioExtras.Man

open Reading

/-! ### Complete escapes -/

/-- The characters behind the escape character that begin something longer, and those that are
treated apart. -/
def longForms : List Char :=
  ['"', '$', 'z', 'k', '(', '[', 'C', '*', 'f', 'F', 'm', 's', 'n', 'w', 'l', 'b', 'v', 'x', 'o',
    'L', 'h', '\\', 'N']

def afterSign : Text → Text
  | '+' :: t => t
  | '-' :: t => t
  | t => t

/-- Digits are passed, as many as a size has. -/
def afterDigits (signed : Bool) : Text → Text
  | x :: y :: t =>
    if x.isDigit then
      (if y.isDigit ∧ signed = false ∧ x.toNat - 48 < 4 then t else y :: t)
    else x :: y :: t
  | [x] => if x.isDigit then [] else [x]
  | [] => []

def afterParameter : Text → Text
  | [] => []
  | '(' :: _ :: _ :: t => t
  | '(' :: _ => []
  | '[' :: t =>
    match t.dropWhile Char.isDigit with
    | ']' :: t => t
    | t => t
  | x :: t => if x.isDigit ∨ x = '*' ∨ x = '@' then t else x :: t

/-- A name without escapes is passed, up to its last character. -/
def afterName : Text → Text
  | '(' :: '\n' :: t => '\n' :: t
  | '(' :: _ :: '\n' :: t => '\n' :: t
  | '(' :: _ :: _ :: t => t
  | '(' :: _ => []
  | '[' :: t => t.dropWhile fun x => !(x = ']' || x = '\n')
  | t => t

/-- The character that closes a long name is passed, the end of a line is not. -/
def afterLongName : Text → Text
  | [] => []
  | '\n' :: t => '\n' :: t
  | _ :: t => t

/-- A register is named: by some text in brackets, two characters or one. -/
inductive Register : Text → Text → Prop
  | long {t u} (h : afterSign t = '[' :: u) :
    Register t (afterLongName ((afterSign u).dropWhile fun x => !(x = ']' || x = '\n')))
  | two {t u x y r} (h : afterSign t = '(' :: u) (hu : afterSign u = x :: y :: r) : Register t r
  | one {t x r} (h : afterSign t = x :: r) (hx : x ≠ '[' ∧ x ≠ '(') : Register t r

/-- The number between quotes is that of a character. -/
def IsCode (digits : Text) : Prop := 32 ≤ (toUInt digits).getD 0 ∧ (toUInt digits).getD 0 ≤ 65535

instance (digits : Text) : Decidable (IsCode digits) := by
  unfold IsCode
  infer_instance

/-- The number of a character between quotes; in place of the closing one a line may end. -/
inductive Code : Text → Text → Prop
  | none {t} (h : t.head? ≠ some '\'') : Code t t
  | outside {t} (h : ¬ IsCode (t.takeWhile fun x => !(x = '\n' || x = '\''))) :
    Code ('\'' :: t) (t.dropWhile fun x => !(x = '\n' || x = '\''))
  | code {t x r} (h : IsCode (t.takeWhile fun x => !(x = '\n' || x = '\'')))
    (hr : t.dropWhile (fun x => !(x = '\n' || x = '\'')) = x :: r) : Code ('\'' :: t) r

variable (esc : Char) (single : Bool)

mutual

/-- The text begins with a complete escape, and the rest stands behind it. -/
inductive Escape : Text → Text → Prop
  | nothing : Escape [] []
  | plain {x t} (hx : x ∉ longForms) : Escape (x :: t) t
  | backslash {t} (hs : single = false) : Escape ('\\' :: t) t
  | again {t} (hs : single = true) : Escape ('\\' :: t) ('\\' :: t)
  | comment {t} : Escape ('"' :: t) (t.dropWhile fun x => !(x = '\n'))
  | parameter {t} : Escape ('$' :: t) (afterParameter t)
  | zero {t} (h : t.head? ≠ some '\\') : Escape ('z' :: t) t.tail
  | zeroEscape {t r} (h : Escape t r) : Escape ('z' :: '\\' :: t) r
  | name {x t} (hx : x = 'k' ∨ x = 'F' ∨ x = 'm') : Escape (x :: t) (afterName t).tail
  | character {x t r} (hx : x = '(' ∨ x = '[' ∨ x = 'C') (h : Character (x :: t) r) :
    Escape (x :: t) r
  | string {t r} (h : NamedString t r) : Escape ('*' :: t) r
  | font {t r} (h : Font t r) : Escape ('f' :: t) r
  | zeroSize {t r} (h : afterSign t = '0' :: r) : Escape ('s' :: t) r
  | sizeEscape {t u r} (h : afterSign t = '\\' :: u) (hu : Escape u r) : Escape ('s' :: t) r
  | size {t} (h : (afterSign t).head? ≠ some '0' ∧ (afterSign t).head? ≠ some '\\') :
    Escape ('s' :: t) (afterDigits (decide (afterSign t ≠ t)) (afterSign t))
  | register {t r} (h : Register t r) : Escape ('n' :: t) r
  | delimited {x d t r} (hx : x ∈ ['w', 'l', 'b', 'v', 'x', 'o', 'L', 'h'])
    (h : Delimited d t r) : Escape (x :: d :: t) r
  | code {t r} (h : Code t r) : Escape ('N' :: t) r

inductive Character : Text → Text → Prop
  | two {t r} (h : TwoCharacters t r) : Character ('(' :: t) r
  | long {t r} (h : Inside ']' t r) : Character ('[' :: t) (afterLongName r)
  | quoted {x y t r} (hx : x = 'C' ∨ (x ≠ '(' ∧ x ≠ '[' ∧ y = '\'')) (h : Inside '\'' t r) :
    Character (x :: y :: t) (afterLongName r)
  | nothing {x t} (hx : x ≠ '(' ∧ x ≠ '[' ∧ x ≠ 'C') (h : t.head? ≠ some '\'') :
    Character (x :: t) (x :: t)

inductive NamedString : Text → Text → Prop
  | two {t r} (h : TwoCharacters t r) : NamedString ('(' :: t) r
  | long {t r} (h : Inside ']' t r) : NamedString ('[' :: t) (afterLongName r)
  | one {x t} (hx : x ≠ '(' ∧ x ≠ '[') : NamedString (x :: t) t

inductive Font : Text → Text → Prop
  | two {t r} (h : TwoCharacters t r) : Font ('(' :: t) r
  | long {t r} (h : Inside ']' t r) : Font ('[' :: t) (afterLongName r)
  | one {x t} (hx : x ≠ '(' ∧ x ≠ '[') : Font (x :: t) t
  | nothing : Font [] []

inductive TwoCharacters : Text → Text → Prop
  | escape {t r} (h : Escape t r) : TwoCharacters (esc :: t) r
  | two {x y t} (hx : x ≠ esc) : TwoCharacters (x :: y :: t) t

/-- The inside of a long name, up to what ends it. -/
inductive Inside : Char → Text → Text → Prop
  | nothing {close} : Inside close [] []
  | final {close x t} (hx : x = close ∨ x = '\n') : Inside close (x :: t) (x :: t)
  | escape {close t r s} (hx : ¬ (esc = close ∨ esc = '\n')) (h : Escape t r)
    (hr : Inside close r s) : Inside close (esc :: t) s
  | char {close x t r} (hx : ¬ (x = close ∨ x = '\n')) (hesc : x ≠ esc)
    (h : Inside close t r) : Inside close (x :: t) r

/-- What stands before a delimiter, and the delimiter. -/
inductive Delimited : Char → Text → Text → Prop
  | final {d t} : Delimited d (d :: t) t
  | escape {d t r s} (hx : esc ≠ d) (h : Escape t r) (hr : Delimited d r s) :
    Delimited d (esc :: t) s
  | char {d x t r} (hx : x ≠ d) (hesc : x ≠ esc) (h : Delimited d t r) : Delimited d (x :: t) r

end

/-! ### What is behind an escape is not longer -/

lemma afterSign_length (t : Text) : (afterSign t).length ≤ t.length := by
  unfold afterSign
  split <;> simp

lemma afterDigits_length (signed : Bool) (t : Text) :
    (afterDigits signed t).length ≤ t.length := by
  unfold afterDigits
  split
  · split_ifs <;> simp only [List.length_cons] <;> omega
  · split_ifs <;> simp
  · simp

lemma afterLongName_length (t : Text) : (afterLongName t).length ≤ t.length := by
  unfold afterLongName
  split <;> simp

lemma afterParameter_length (t : Text) : (afterParameter t).length ≤ t.length := by
  unfold afterParameter
  split
  · simp
  · simp
    omega
  · simp
  · next t =>
    have hle := (List.dropWhile_suffix (p := Char.isDigit) (l := t)).length_le
    split
    · next u heq =>
      rw [heq, List.length_cons] at hle
      rw [List.length_cons]
      omega
    · rw [List.length_cons]
      omega
  · split_ifs <;> simp

lemma afterName_length (t : Text) : (afterName t).length ≤ t.length := by
  unfold afterName
  split
  · simp
  · simp
  · simp
    omega
  · simp
  · next t =>
    have hle := (List.dropWhile_suffix (p := fun x => !(x = ']' || x = '\n')) (l := t)).length_le
    rw [List.length_cons]
    omega
  · simp

lemma Register.length_le {t r : Text} (h : Register t r) : r.length ≤ t.length := by
  have hsign := afterSign_length t
  cases h with
  | @long u heq =>
    have hdrop := (List.dropWhile_suffix (p := fun x => !(x = ']' || x = '\n'))
      (l := afterSign u)).length_le
    have hlong := afterLongName_length
      ((afterSign u).dropWhile fun x => !(x = ']' || x = '\n'))
    have hu := afterSign_length u
    rw [heq, List.length_cons] at hsign
    omega
  | @two u x y r heq hu =>
    have hle := afterSign_length u
    rw [heq, List.length_cons] at hsign
    rw [hu, List.length_cons, List.length_cons] at hle
    omega
  | one heq hx =>
    rw [heq, List.length_cons] at hsign
    omega

lemma Code.length_le {t r : Text} (h : Code t r) : r.length ≤ t.length := by
  cases h with
  | none h => exact Nat.le_refl _
  | @outside t h =>
    have hle := (List.dropWhile_suffix (p := fun x => !(x = '\n' || x = '\'')) (l := t)).length_le
    rw [List.length_cons]
    omega
  | @code t x r h hr =>
    have hle := (List.dropWhile_suffix (p := fun x => !(x = '\n' || x = '\'')) (l := t)).length_le
    rw [hr, List.length_cons] at hle
    rw [List.length_cons]
    omega

section

variable {esc : Char} {single : Bool}

mutual

lemma Escape.length_le {t r : Text} (h : Escape esc single t r) : r.length ≤ t.length := by
  cases h with
  | nothing => exact Nat.le_refl _
  | plain hx => simp
  | backslash hs => simp
  | again hs => exact Nat.le_refl _
  | @comment t =>
    have hle := (List.dropWhile_suffix (p := fun x => !(x = '\n')) (l := t)).length_le
    rw [List.length_cons]
    omega
  | @parameter t =>
    have hle := afterParameter_length t
    rw [List.length_cons]
    omega
  | zero h =>
    rw [List.length_tail, List.length_cons]
    omega
  | zeroEscape h =>
    have hle := h.length_le
    simp
    omega
  | @name x t hx =>
    have hle := afterName_length t
    simp
    omega
  | character hx h => exact h.length_le
  | string h =>
    have hle := h.length_le
    simp
    omega
  | font h =>
    have hle := h.length_le
    simp
    omega
  | @zeroSize t r h =>
    have hle := afterSign_length t
    rw [h] at hle
    simp at hle ⊢
    omega
  | @sizeEscape t u r h hu =>
    have hle := afterSign_length t
    rw [h, List.length_cons] at hle
    have hless : u.length < t.length + 1 := by omega
    have hle' := hu.length_le
    rw [List.length_cons]
    omega
  | @size t h =>
    have hle := afterSign_length t
    have hle' := afterDigits_length (decide (afterSign t ≠ t)) (afterSign t)
    rw [List.length_cons]
    omega
  | register h =>
    have hle := h.length_le
    simp
    omega
  | delimited hx h =>
    have hle := h.length_le
    simp
    omega
  | code h =>
    have hle := h.length_le
    simp
    omega
termination_by 2 * t.length + 1

lemma Character.length_le {t r : Text} (h : Character esc single t r) :
    r.length ≤ t.length := by
  cases h with
  | two h =>
    have hle := h.length_le
    simp
    omega
  | @long t r h =>
    have hle := h.length_le
    have hle' := afterLongName_length r
    simp
    omega
  | @quoted x y t r hx h =>
    have hle := h.length_le
    have hle' := afterLongName_length r
    simp
    omega
  | nothing hx h => exact Nat.le_refl _
termination_by 2 * t.length

lemma NamedString.length_le {t r : Text} (h : NamedString esc single t r) :
    r.length ≤ t.length := by
  cases h with
  | two h =>
    have hle := h.length_le
    simp
    omega
  | @long t r h =>
    have hle := h.length_le
    have hle' := afterLongName_length r
    simp
    omega
  | one hx => simp
termination_by 2 * t.length

lemma Font.length_le {t r : Text} (h : Font esc single t r) : r.length ≤ t.length := by
  cases h with
  | two h =>
    have hle := h.length_le
    simp
    omega
  | @long t r h =>
    have hle := h.length_le
    have hle' := afterLongName_length r
    simp
    omega
  | one hx => simp
  | nothing => exact Nat.le_refl _
termination_by 2 * t.length

lemma TwoCharacters.length_le {t r : Text} (h : TwoCharacters esc single t r) :
    r.length ≤ t.length := by
  cases h with
  | escape h =>
    have hle := h.length_le
    simp
    omega
  | two hx =>
    simp
    omega
termination_by 2 * t.length

lemma Inside.length_le {close : Char} {t r : Text} (h : Inside esc single close t r) :
    r.length ≤ t.length := by
  cases h with
  | nothing => exact Nat.le_refl _
  | final hx => exact Nat.le_refl _
  | escape hx h hr =>
    have hle := h.length_le
    have hle' := hr.length_le
    simp
    omega
  | char hx hesc h =>
    have hle := h.length_le
    simp
    omega
termination_by 2 * t.length

lemma Delimited.length_le {d : Char} {t r : Text} (h : Delimited esc single d t r) :
    r.length < t.length := by
  cases h with
  | final => simp
  | escape hx h hr =>
    have hle := h.length_le
    have hle' := hr.length_le
    simp
    omega
  | char hx hesc h =>
    have hle := h.length_le
    simp
    omega
termination_by 2 * t.length

end

end

end KioExtras.Man
