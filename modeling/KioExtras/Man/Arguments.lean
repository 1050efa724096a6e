import KioExtras.Man.Converter

/-!
The arguments of a request: `getArguments` with its list of pointers, beside the rules of roff.

A line is the text from the first argument up to the terminator. A pointer is a position in it.
-/

namespace KioExtras.Man.Arguments

/-! ### `getArguments` -/

structure Scan where
  args : List Text
  argPointers : List ℕ
  arg : Text
  inString : Bool
  inArgument : Bool

/-- The arguments, the pointers, and where scanning continues. -/
abbrev Result := List Text × List ℕ × ℕ

namespace Scan

variable (s : Scan)

/-- `if (!inArgument)` -/
def argument (c : ℕ) : Scan :=
  if s.inArgument = true then s
  else { s with inArgument := true, argPointers := s.argPointers ++ [c] }

/-- `arg += ...`, with the pointer where the argument is not yet found. -/
def add (text : Text) (c : ℕ) : Scan := { s with arg := s.arg ++ text }.argument c

/-- `args.append(arg)` at the end of a quoted argument. -/
def endString : Scan :=
  { s with args := s.args ++ [s.arg], arg := [], inString := false, inArgument := false }

/-- `if (inArgument)` -/
def endArgument : Scan :=
  if s.inArgument = true then
    { s with args := s.args ++ [s.arg], arg := [], inArgument := false }
  else s

/-- What follows the loop. -/
def finish (c : ℕ) : Result :=
  (if s.inArgument = true then s.args ++ [s.arg] else s.args, s.argPointers, c)

end Scan

variable (c : ℕ)

/-- `if (*c) c++` -/
def stepOver : Text → ℕ
  | [] => c
  | _ :: _ => c + 1

def skipLine (t : Text) : ℕ :=
  stepOver (c + (t.takeWhile (· ≠ '\n')).length) (t.dropWhile (· ≠ '\n'))

section

variable (escapesym : Char)

def loop : Scan → ℕ → Text → Result
  | s, c, [] => s.finish c
  | s, c, x :: t =>
    if x = '\n' then s.finish (c + 1)
    else if x = '"' then
      if s.inString = false then loop { s with inString := true } (c + 1) t
      else
        match t with
        | '"' :: t => loop { s with arg := s.arg ++ ['"'] } (c + 2) t
        | t => loop s.endString (c + 1) t
    else if x = ' ' then
      if s.inString = true then loop (s.add [' '] c) (c + 1) t
      else loop s.endArgument (c + 1) t
    else if x = escapesym then
      match t with
      | ' ' :: t => loop (s.add [x, ' '] (c + 1)) (c + 2) t
      | '\n' :: t => loop s (c + 2) t
      | '"' :: t => s.endArgument.finish (skipLine (c + 2) t)
      | t => loop (s.add [x] c) (c + 1) t
    else loop (s.add [x] c) (c + 1) t

def getArguments (c : Text) : Result := loop escapesym ⟨[], [], [], false, false⟩ 0 c

end

/-! ### The rules of roff -/

structure Argument where
  start : ℕ
  text : Text

/-- Between two arguments, or in one, which may be quoted. -/
inductive Place
  | between
  | within (quoted : Bool) (a : Argument)

namespace Place

/-- Text is read. An argument without any begins there. -/
def put (text : Text) (p : ℕ) : Place → Place
  | between => within false ⟨p, text⟩
  | within quoted a =>
    within quoted (if a.text = [] then ⟨p, text⟩ else { a with text := a.text ++ text })

def close : Place → List Argument
  | between => []
  | within _ a => [a]

end Place

abbrev Reading := List Argument × ℕ

def Reading.first (l : List Argument) (r : Reading) : Reading := (l ++ r.1, r.2)

section

variable (escapesym : Char)

/-- Blanks separate arguments. A quote in front of one opens it and the next quote closes it, where
two in a row stand for one; any other quote is a character. The escape character is read with what
follows it: a newline continues the line, a quote begins a comment, and the rest is kept. -/
def roff : Place → ℕ → Text → Reading
  | m, p, [] => (m.close, p)
  | m, p, x :: t =>
    if x = '\n' then (m.close, p + 1)
    else if x = '"' then
      match m with
      | .between => roff (.within true ⟨p + 1, []⟩) (p + 1) t
      | .within false a => roff (Place.put ['"'] p (.within false a)) (p + 1) t
      | .within true a =>
        match t with
        | '"' :: t => roff (Place.put ['"'] p (.within true a)) (p + 2) t
        | t => Reading.first [a] (roff .between (p + 1) t)
    else if x = ' ' then
      match m with
      | .between => roff .between (p + 1) t
      | .within false a => Reading.first [a] (roff .between (p + 1) t)
      | .within true a => roff (Place.put [' '] p (.within true a)) (p + 1) t
    else if x = escapesym then
      match t with
      | [] => ((m.put [x] p).close, p + 1)
      | y :: t =>
        if y = '\n' then roff m (p + 2) t
        else if y = '"' then (m.close, skipLine (p + 2) t)
        else roff (m.put [x, y] p) (p + 2) t
    else roff (m.put [x] p) (p + 1) t

end

def Reading.result (r : Reading) : Result :=
  (r.1.map Argument.text, r.1.map Argument.start, r.2)

/-! ### Where they agree -/

/-- Where the text stands: between arguments, in one without quotes, behind the quote that opens
one, and further in a quoted one. -/
inductive Spot
  | between
  | word
  | opened
  | quoted
  deriving DecidableEq

/-- Behind a character of an argument. -/
def Spot.put : Spot → Spot
  | between => word
  | word => word
  | opened => quoted
  | quoted => quoted

def Place.spot : Place → Spot
  | between => .between
  | within false _ => .word
  | within true a => if a.text = [] then .opened else .quoted

def Escaped (s : Spot) (t : Text) : Prop :=
  t.head? ≠ some '\n' ∧ t.head? ≠ some '"' ∧ (t.head? = some ' ' → s = .quoted)

/-- There is no quote in an argument that has none around it, no argument is empty or begins with
a quote or an escaped blank, and behind an escape character that is escaped is no quote, no
newline and, but in quotes, no blank. -/
def Fits (escapesym : Char) : Spot → Text → Prop
  | s, [] => s ≠ .opened
  | s, x :: t =>
    if x = '\n' then s ≠ .opened
    else if x = '"' then
      match s with
      | .between => Fits escapesym .opened t
      | .word => False
      | .opened => False
      | .quoted =>
        match t with
        | '"' :: t => Fits escapesym .quoted t
        | t => Fits escapesym .between t
    else if x = ' ' then
      match s with
      | .between => Fits escapesym .between t
      | .word => Fits escapesym .between t
      | .opened => Fits escapesym .quoted t
      | .quoted => Fits escapesym .quoted t
    else if x = escapesym then
      match t with
      | [] => True
      | y :: t =>
        if y = '\n' then Fits escapesym s t
        else if y = '"' then s ≠ .opened
        else
          (y = ' ' → s = .word ∨ s = .quoted) ∧ (y = escapesym → Escaped s.put t) ∧
            Fits escapesym s.put t
    else Fits escapesym s.put t

/-! ### What a turn does -/

section

variable {escapesym : Char} {s : Scan} {c : ℕ} {x : Char} {t : Text}

/-- One turn. -/
alias loop_turn := loop.eq_def

lemma loop_newline : loop escapesym s c ('\n' :: t) = s.finish (c + 1) := by
  rw [loop_turn]
  dsimp only
  rw [if_pos rfl]

lemma loop_open (h : s.inString = false) :
    loop escapesym s c ('"' :: t) = loop escapesym { s with inString := true } (c + 1) t := by
  rw [loop_turn]
  dsimp only
  rw [if_neg (by decide), if_pos rfl, if_pos h]

lemma loop_doubled (h : s.inString = true) :
    loop escapesym s c ('"' :: '"' :: t) =
      loop escapesym { s with arg := s.arg ++ ['"'] } (c + 2) t := by
  rw [loop_turn]
  dsimp only
  rw [if_neg (by decide), if_pos rfl, if_neg (by simp [h])]
  rfl

lemma loop_close (h : s.inString = true) (ht : t.head? ≠ some '"') :
    loop escapesym s c ('"' :: t) = loop escapesym s.endString (c + 1) t := by
  rw [loop_turn]
  dsimp only
  rw [if_neg (by decide), if_pos rfl, if_neg (by simp [h])]
  split
  · simp at ht
  · rfl

lemma loop_blank_quoted (h : s.inString = true) :
    loop escapesym s c (' ' :: t) = loop escapesym (s.add [' '] c) (c + 1) t := by
  rw [loop_turn]
  dsimp only
  rw [if_neg (by decide), if_neg (by decide), if_pos rfl, if_pos h]

lemma loop_blank (h : s.inString = false) :
    loop escapesym s c (' ' :: t) = loop escapesym s.endArgument (c + 1) t := by
  rw [loop_turn]
  dsimp only
  rw [if_neg (by decide), if_neg (by decide), if_pos rfl, if_neg (by simp [h])]

/-- A character that is no newline, quote or blank. -/
def Ordinary (x : Char) : Prop := x ≠ '\n' ∧ x ≠ '"' ∧ x ≠ ' '

section

variable (hx : Ordinary x)

include hx

lemma loop_escaped_blank (he : x = escapesym) :
    loop escapesym s c (x :: ' ' :: t) = loop escapesym (s.add [x, ' '] (c + 1)) (c + 2) t := by
  rw [loop_turn]
  dsimp only
  rw [if_neg hx.1, if_neg hx.2.1, if_neg hx.2.2, if_pos he]
  rfl

lemma loop_continued (he : x = escapesym) :
    loop escapesym s c (x :: '\n' :: t) = loop escapesym s (c + 2) t := by
  rw [loop_turn]
  dsimp only
  rw [if_neg hx.1, if_neg hx.2.1, if_neg hx.2.2, if_pos he]
  rfl

lemma loop_comment (he : x = escapesym) :
    loop escapesym s c (x :: '"' :: t) = s.endArgument.finish (skipLine (c + 2) t) := by
  rw [loop_turn]
  dsimp only
  rw [if_neg hx.1, if_neg hx.2.1, if_neg hx.2.2, if_pos he]
  rfl

lemma loop_char (he : x = escapesym → ∀ y ∈ t.head?, Ordinary y) :
    loop escapesym s c (x :: t) = loop escapesym (s.add [x] c) (c + 1) t := by
  rw [loop_turn]
  dsimp only
  rw [if_neg hx.1, if_neg hx.2.1, if_neg hx.2.2]
  split_ifs with heq
  · have hhead := he heq
    split
    · exact absurd rfl (hhead ' ' rfl).2.2
    · exact absurd rfl (hhead '\n' rfl).1
    · exact absurd rfl (hhead '"' rfl).2.1
    · rfl
  · rfl

end

/-- What stands at the front of a text, as the loop tells it apart. -/
inductive Here (escapesym : Char) : Text → Prop
  | done : Here escapesym []
  | newline (t : Text) : Here escapesym ('\n' :: t)
  | doubled (t : Text) : Here escapesym ('"' :: '"' :: t)
  | quote (t : Text) (ht : t.head? ≠ some '"') : Here escapesym ('"' :: t)
  | blank (t : Text) : Here escapesym (' ' :: t)
  | escapedBlank (t : Text) (h : Ordinary escapesym) : Here escapesym (escapesym :: ' ' :: t)
  | continued (t : Text) (h : Ordinary escapesym) : Here escapesym (escapesym :: '\n' :: t)
  | comment (t : Text) (h : Ordinary escapesym) : Here escapesym (escapesym :: '"' :: t)
  | char (x : Char) (t : Text) (h : Ordinary x)
    (he : x = escapesym → ∀ y ∈ t.head?, Ordinary y) : Here escapesym (x :: t)

lemma two_shorter (x y : Char) (t : Text) : t.length < (x :: y :: t).length :=
  Nat.lt_succ_of_lt (Nat.lt_succ_self _)

lemma here (escapesym : Char) (t : Text) : Here escapesym t := by
  cases t with
  | nil => exact .done
  | cons x t =>
    by_cases hnewline : x = '\n'
    · exact hnewline ▸ .newline t
    by_cases hquote : x = '"'
    · subst hquote
      by_cases ht : t.head? = some '"'
      · obtain ⟨u, rfl⟩ := List.head?_eq_some_iff.mp ht
        exact .doubled u
      · exact .quote t ht
    by_cases hblank : x = ' '
    · exact hblank ▸ .blank t
    have hx : Ordinary x := ⟨hnewline, hquote, hblank⟩
    by_cases he : x = escapesym
    · subst he
      cases t with
      | nil => exact .char x [] hx fun _ y hy => absurd hy (by simp)
      | cons y t =>
        by_cases hy : Ordinary y
        · refine .char x (y :: t) hx fun _ z hz => ?_
          obtain rfl := Option.some.inj hz
          exact hy
        · unfold Ordinary at hy
          rw [not_and_or, not_and_or, not_not, not_not, not_not] at hy
          obtain rfl | rfl | rfl := hy
          · exact .continued t hx
          · exact .comment t hx
          · exact .escapedBlank t hx
    · exact .char x t hx fun heq => absurd heq he

end

/-! ### What is found stays -/

/-- From `s` at `c` on, arguments and pointers are only added; an open argument only grows, and no
pointer goes back. -/
structure Reaches (s : Scan) (c : ℕ) (r : Result) : Prop where
  args : s.args <+: r.1
  open_ : s.inArgument = true → ∃ b u, r.1 = s.args ++ b :: u ∧ s.arg <+: b
  pointers : ∃ v, r.2.1 = s.argPointers ++ v ∧ ∀ q ∈ v, c ≤ q
  stop : c ≤ r.2.2

lemma reaches_finish (s : Scan) {c c' : ℕ} (h : c ≤ c') : Reaches s c (s.finish c') := by
  unfold Scan.finish
  refine ⟨?_, fun hopen => ?_, ⟨[], by simp⟩, h⟩
  · dsimp only
    split_ifs
    · exact List.prefix_append _ _
    · exact List.prefix_rfl
  · rw [if_pos hopen]
    exact ⟨s.arg, [], rfl, List.prefix_rfl⟩

namespace Reaches

variable {s : Scan} {c c' : ℕ} {r : Result}

lemma of_add {text : Text} {p : ℕ} (hp : c ≤ p) (hle : c ≤ c') (h : Reaches (s.add text p) c' r) :
    Reaches s c r := by
  obtain ⟨hargs, hopen, ⟨v, hv, hle'⟩, hstop⟩ := h
  unfold Scan.add Scan.argument at hargs hopen hv
  split_ifs at hargs hopen hv with hin
  · refine ⟨hargs, fun _ => ?_, ⟨v, hv, fun q hq => Nat.le_trans hle (hle' q hq)⟩,
      Nat.le_trans hle hstop⟩
    obtain ⟨b, u, hb, hpre⟩ := hopen hin
    exact ⟨b, u, hb, (List.prefix_append _ _).trans hpre⟩
  · refine ⟨hargs, fun h => absurd h hin, ⟨p :: v, by simpa using hv, ?_⟩, Nat.le_trans hle hstop⟩
    intro q hq
    rcases List.mem_cons.mp hq with rfl | hq
    · exact hp
    · exact Nat.le_trans hle (hle' q hq)

lemma of_quote {text : Text} (hle : c ≤ c') (h : Reaches { s with arg := s.arg ++ text } c' r) :
    Reaches s c r := by
  obtain ⟨hargs, hopen, ⟨v, hv, hle'⟩, hstop⟩ := h
  refine ⟨hargs, fun hin => ?_, ⟨v, hv, fun q hq => Nat.le_trans hle (hle' q hq)⟩,
    Nat.le_trans hle hstop⟩
  obtain ⟨b, u, hb, hpre⟩ := hopen hin
  exact ⟨b, u, hb, (List.prefix_append _ _).trans hpre⟩

lemma of_endString (hle : c ≤ c') (h : Reaches s.endString c' r) : Reaches s c r := by
  obtain ⟨hargs, -, ⟨v, hv, hle'⟩, hstop⟩ := h
  refine ⟨(List.prefix_append _ _).trans hargs, fun _ => ?_,
    ⟨v, hv, fun q hq => Nat.le_trans hle (hle' q hq)⟩, Nat.le_trans hle hstop⟩
  obtain ⟨u, hu⟩ := hargs
  exact ⟨s.arg, u, by rw [← hu]; simp [Scan.endString], List.prefix_rfl⟩

lemma of_endArgument (hle : c ≤ c') (h : Reaches s.endArgument c' r) : Reaches s c r := by
  unfold Scan.endArgument at h
  split_ifs at h with hin
  · obtain ⟨hargs, -, ⟨v, hv, hle'⟩, hstop⟩ := h
    refine ⟨(List.prefix_append _ _).trans hargs, fun _ => ?_,
      ⟨v, hv, fun q hq => Nat.le_trans hle (hle' q hq)⟩, Nat.le_trans hle hstop⟩
    obtain ⟨u, hu⟩ := hargs
    exact ⟨s.arg, u, by rw [← hu]; simp, List.prefix_rfl⟩
  · obtain ⟨hargs, hopen, ⟨v, hv, hle'⟩, hstop⟩ := h
    exact ⟨hargs, hopen, ⟨v, hv, fun q hq => Nat.le_trans hle (hle' q hq)⟩,
      Nat.le_trans hle hstop⟩

lemma of_same {b : Bool} (hle : c ≤ c') (h : Reaches { s with inString := b } c' r) :
    Reaches s c r := by
  obtain ⟨hargs, hopen, ⟨v, hv, hle'⟩, hstop⟩ := h
  exact ⟨hargs, hopen, ⟨v, hv, fun q hq => Nat.le_trans hle (hle' q hq)⟩, Nat.le_trans hle hstop⟩

end Reaches

lemma endArgument_finish (s : Scan) (c : ℕ) : s.endArgument.finish c = s.finish c := by
  unfold Scan.endArgument Scan.finish
  split_ifs <;> simp_all

lemma stepOver_ge (t : Text) : c ≤ stepOver c t := by
  cases t with
  | nil => exact Nat.le_refl c
  | cons x t => exact Nat.le_succ c

lemma skipLine_ge (t : Text) : c ≤ skipLine c t :=
  Nat.le_trans (Nat.le_add_right _ _) (stepOver_ge _ _)

/-- **Nothing is taken back.** -/
lemma loop_reaches (escapesym : Char) (s : Scan) (c : ℕ) (t : Text) :
    Reaches s c (loop escapesym s c t) := by
  induction hn : t.length using Nat.strongRecOn generalizing s c t with
  | ind n ih =>
    subst hn
    cases here escapesym t with
    | done => exact reaches_finish s (Nat.le_refl c)
    | newline t =>
      rw [loop_newline]
      exact reaches_finish s (Nat.le_succ c)
    | doubled t =>
      cases hs : s.inString with
      | true =>
        rw [loop_doubled hs]
        exact .of_quote (by omega) (ih t.length (two_shorter _ _ _) _ (c + 2) t rfl)
      | false =>
        rw [loop_open hs]
        exact .of_same (by omega) (ih _ (by simp) _ (c + 1) ('"' :: t) rfl)
    | quote t ht =>
      cases hs : s.inString with
      | true =>
        rw [loop_close hs ht]
        exact .of_endString (by omega) (ih t.length (by simp) _ (c + 1) t rfl)
      | false =>
        rw [loop_open hs]
        exact .of_same (by omega) (ih t.length (by simp) _ (c + 1) t rfl)
    | blank t =>
      cases hs : s.inString with
      | true =>
        rw [loop_blank_quoted hs]
        exact .of_add (Nat.le_refl c) (by omega) (ih t.length (by simp) _ (c + 1) t rfl)
      | false =>
        rw [loop_blank hs]
        exact .of_endArgument (by omega) (ih t.length (by simp) _ (c + 1) t rfl)
    | escapedBlank t h =>
      rw [loop_escaped_blank h rfl]
      exact .of_add (Nat.le_succ c) (by omega) (ih t.length (two_shorter _ _ _) _ (c + 2) t rfl)
    | continued t h =>
      rw [loop_continued h rfl]
      exact .of_same (by omega) (ih t.length (two_shorter _ _ _) s (c + 2) t rfl)
    | comment t h =>
      rw [loop_comment h rfl, endArgument_finish]
      exact reaches_finish s (Nat.le_trans (by omega) (skipLine_ge (c + 2) t))
    | char x t h he =>
      rw [loop_char h he]
      exact .of_add (Nat.le_refl c) (by omega) (ih t.length (by simp) _ (c + 1) t rfl)

lemma loop_stop (escapesym : Char) (s : Scan) (c : ℕ) {t : Text} (ht : t ≠ []) :
    c < (loop escapesym s c t).2.2 := by
  cases here escapesym t with
  | done => exact absurd rfl ht
  | newline t =>
    rw [loop_newline]
    exact Nat.lt_succ_self c
  | doubled t =>
    cases hs : s.inString with
    | true =>
      rw [loop_doubled hs]
      exact Nat.lt_of_lt_of_le (by omega) (loop_reaches escapesym _ (c + 2) t).stop
    | false =>
      rw [loop_open hs]
      exact (loop_reaches escapesym _ (c + 1) _).stop
  | quote t hquote =>
    cases hs : s.inString with
    | true =>
      rw [loop_close hs hquote]
      exact (loop_reaches escapesym _ (c + 1) t).stop
    | false =>
      rw [loop_open hs]
      exact (loop_reaches escapesym _ (c + 1) t).stop
  | blank t =>
    cases hs : s.inString with
    | true =>
      rw [loop_blank_quoted hs]
      exact (loop_reaches escapesym _ (c + 1) t).stop
    | false =>
      rw [loop_blank hs]
      exact (loop_reaches escapesym _ (c + 1) t).stop
  | escapedBlank t h =>
    rw [loop_escaped_blank h rfl]
    exact Nat.lt_of_lt_of_le (by omega) (loop_reaches escapesym _ (c + 2) t).stop
  | continued t h =>
    rw [loop_continued h rfl]
    exact Nat.lt_of_lt_of_le (by omega) (loop_reaches escapesym s (c + 2) t).stop
  | comment t h =>
    rw [loop_comment h rfl, endArgument_finish]
    exact Nat.lt_of_lt_of_le (by omega) (skipLine_ge (c + 2) t)
  | char x t h he =>
    rw [loop_char h he]
    exact (loop_reaches escapesym _ (c + 1) t).stop

/-! ### What roff reads -/

section

variable {escapesym : Char} {m : Place} {a : Argument} {p : ℕ} {x : Char} {t : Text}

alias roff_turn := roff.eq_def

lemma roff_newline : roff escapesym m p ('\n' :: t) = (m.close, p + 1) := by
  rw [roff_turn]
  dsimp only
  rw [if_pos rfl]

lemma roff_open :
    roff escapesym .between p ('"' :: t) = roff escapesym (.within true ⟨p + 1, []⟩) (p + 1) t := by
  rw [roff_turn]
  dsimp only
  rw [if_neg (by decide), if_pos rfl]

lemma roff_quote :
    roff escapesym (.within false a) p ('"' :: t) =
      roff escapesym (Place.put ['"'] p (.within false a)) (p + 1) t := by
  rw [roff_turn]
  dsimp only
  rw [if_neg (by decide), if_pos rfl]

lemma roff_doubled :
    roff escapesym (.within true a) p ('"' :: '"' :: t) =
      roff escapesym (Place.put ['"'] p (.within true a)) (p + 2) t := by
  rw [roff_turn]
  dsimp only
  rw [if_neg (by decide), if_pos rfl]
  rfl

lemma roff_close (ht : t.head? ≠ some '"') :
    roff escapesym (.within true a) p ('"' :: t) =
      Reading.first [a] (roff escapesym .between (p + 1) t) := by
  rw [roff_turn]
  dsimp only
  rw [if_neg (by decide), if_pos rfl]
  split
  · simp at ht
  · rfl

lemma roff_blank :
    roff escapesym m p (' ' :: t) = match m with
      | .within true a => roff escapesym (Place.put [' '] p (.within true a)) (p + 1) t
      | m => Reading.first m.close (roff escapesym .between (p + 1) t) := by
  rw [roff_turn]
  dsimp only
  rw [if_neg (by decide), if_neg (by decide), if_pos rfl]
  cases m with
  | between => rfl
  | within quoted a => cases quoted <;> rfl

section

variable (hx : Ordinary x)

include hx

lemma roff_last (he : x = escapesym) : roff escapesym m p [x] = ((m.put [x] p).close, p + 1) := by
  rw [roff_turn]
  dsimp only
  rw [if_neg hx.1, if_neg hx.2.1, if_neg hx.2.2, if_pos he]

lemma roff_continued (he : x = escapesym) :
    roff escapesym m p (x :: '\n' :: t) = roff escapesym m (p + 2) t := by
  rw [roff_turn]
  dsimp only
  rw [if_neg hx.1, if_neg hx.2.1, if_neg hx.2.2, if_pos he, if_pos rfl]

lemma roff_comment (he : x = escapesym) :
    roff escapesym m p (x :: '"' :: t) = (m.close, skipLine (p + 2) t) := by
  rw [roff_turn]
  dsimp only
  rw [if_neg hx.1, if_neg hx.2.1, if_neg hx.2.2, if_pos he, if_neg (by decide), if_pos rfl]

lemma roff_pair (he : x = escapesym) {y : Char} (hnewline : y ≠ '\n') (hquote : y ≠ '"') :
    roff escapesym m p (x :: y :: t) = roff escapesym (m.put [x, y] p) (p + 2) t := by
  rw [roff_turn]
  dsimp only
  rw [if_neg hx.1, if_neg hx.2.1, if_neg hx.2.2, if_pos he, if_neg hnewline, if_neg hquote]

lemma roff_char (he : x ≠ escapesym) :
    roff escapesym m p (x :: t) = roff escapesym (m.put [x] p) (p + 1) t := by
  rw [roff_turn]
  dsimp only
  rw [if_neg hx.1, if_neg hx.2.1, if_neg hx.2.2, if_neg he]

end

lemma put_more {quoted : Bool} (ha : a.text ≠ []) (text : Text) :
    Place.put text p (.within quoted a) = .within quoted { a with text := a.text ++ text } := by
  rw [Place.put, if_neg ha]

end

lemma roff_first (escapesym : Char) {quoted : Bool} {a : Argument} (ha : a.text ≠ []) (p : ℕ)
    (t : Text) : ∃ b u, (roff escapesym (.within quoted a) p t).1 = b :: u ∧
      b.start = a.start ∧ a.text <+: b.text := by
  have hself : ∃ b u, ([a] : List Argument) = b :: u ∧ b.start = a.start ∧ a.text <+: b.text :=
    ⟨a, [], rfl, rfl, List.prefix_rfl⟩
  induction hn : t.length using Nat.strongRecOn generalizing a p t with
  | ind n ih =>
    subst hn
    -- a text that is added
    have hput : ∀ (text : Text) (p' : ℕ) (u : Text), u.length < t.length →
        ∃ b v, (roff escapesym (Place.put text p (.within quoted a)) p' u).1 = b :: v ∧
          b.start = a.start ∧ a.text <+: b.text := by
      intro text p' u hu
      rw [put_more ha]
      obtain ⟨b, v, hv, hstart, hpre⟩ := ih u.length hu (a := { a with text := a.text ++ text })
        (by simp [ha]) p' u ⟨_, [], rfl, rfl, List.prefix_rfl⟩ rfl
      exact ⟨b, v, hv, hstart, (List.prefix_append _ _).trans hpre⟩
    cases here escapesym t with
    | done => exact hself
    | newline t =>
      rw [roff_newline]
      exact hself
    | doubled t =>
      cases quoted with
      | false =>
        rw [roff_quote]
        exact hput _ _ _ (by simp)
      | true =>
        rw [roff_doubled]
        exact hput _ _ _ (two_shorter _ _ _)
    | quote t ht =>
      cases quoted with
      | false =>
        rw [roff_quote]
        exact hput _ _ _ (by simp)
      | true =>
        rw [roff_close ht]
        exact ⟨a, _, rfl, rfl, List.prefix_rfl⟩
    | blank t =>
      rw [roff_blank]
      cases quoted with
      | false => exact ⟨a, _, rfl, rfl, List.prefix_rfl⟩
      | true => exact hput _ _ _ (by simp)
    | escapedBlank t h =>
      rw [roff_pair h rfl (by decide) (by decide)]
      exact hput _ _ _ (two_shorter _ _ _)
    | continued t h =>
      rw [roff_continued h rfl]
      exact ih t.length (two_shorter _ _ _) ha _ t hself rfl
    | comment t h =>
      rw [roff_comment h rfl]
      exact hself
    | char x t h he =>
      by_cases heq : x = escapesym
      · cases t with
        | nil =>
          rw [roff_last h heq, put_more ha]
          exact ⟨_, [], rfl, rfl, List.prefix_append _ _⟩
        | cons y t =>
          have hy := he heq y rfl
          rw [roff_pair h heq hy.1 hy.2.1]
          exact hput _ _ _ (two_shorter _ _ _)
      · rw [roff_char h heq]
        exact hput _ _ _ (by simp)

/-! ### The variables of the loop at a place -/

namespace Place

def text : Place → Text
  | between => []
  | within _ a => a.text

/-- Behind `done`. -/
def scan (done : List Argument) : Place → Scan
  | between => ⟨done.map Argument.text, done.map Argument.start, [], false, false⟩
  | within quoted a =>
    ⟨done.map Argument.text,
      done.map Argument.start ++ (if a.text = [] then [] else [a.start]), a.text, quoted,
      decide (a.text ≠ [])⟩

/-- An argument without quotes has some text, and none begins behind the position. -/
def Proper (p : ℕ) : Place → Prop
  | between => True
  | within quoted a => (quoted = false → a.text ≠ []) ∧ a.start ≤ p

end Place

section

variable {m : Place} {p : ℕ} {done : List Argument}

lemma put_text (m : Place) (text : Text) (p : ℕ) : (m.put text p).text = m.text ++ text := by
  cases m with
  | between => rfl
  | within quoted a =>
    by_cases ha : a.text = []
    · simp [Place.put, Place.text, ha]
    · simp [put_more ha, Place.text]

lemma scan_arg (m : Place) (done : List Argument) : (m.scan done).arg = m.text := by
  cases m <;> rfl

lemma scan_args (m : Place) (done : List Argument) :
    (m.scan done).args = done.map Argument.text := by
  cases m <;> rfl

variable (s : Scan)

lemma add_args (text : Text) (c : ℕ) : (s.add text c).args = s.args := by
  unfold Scan.add Scan.argument
  split_ifs <;> rfl

lemma add_arg (text : Text) (c : ℕ) : (s.add text c).arg = s.arg ++ text := by
  unfold Scan.add Scan.argument
  split_ifs <;> rfl

lemma add_inArgument (text : Text) (c : ℕ) : (s.add text c).inArgument = true := by
  unfold Scan.add Scan.argument
  split_ifs with h
  · exact h
  · rfl

lemma add_add (text text' : Text) (c c' : ℕ) :
    (s.add text c).add text' c' = s.add (text ++ text') c := by
  have hin := add_inArgument s text c
  unfold Scan.add Scan.argument at hin ⊢
  split_ifs at hin ⊢ with h <;> simp_all

lemma scan_add (hm : m.Proper p) {text : Text} (htext : text ≠ []) (c : ℕ) :
    (m.scan done).add text c = (m.put text c).scan done := by
  cases m with
  | between => simp [Place.scan, Place.put, Scan.add, Scan.argument, htext]
  | within quoted a =>
    by_cases ha : a.text = []
    · simp [Place.scan, Place.put, Scan.add, Scan.argument, ha, htext]
    · simp [Place.scan, Place.put, Scan.add, Scan.argument, ha]

lemma proper_put (hm : m.Proper p) {text : Text} (htext : text ≠ []) {p' : ℕ} (hle : p ≤ p') :
    (m.put text p).Proper p' := by
  cases m with
  | between => exact ⟨fun _ => htext, hle⟩
  | within quoted a =>
    by_cases ha : a.text = []
    · rw [Place.put, if_pos ha]
      exact ⟨fun _ => htext, hle⟩
    · rw [put_more ha]
      exact ⟨fun _ => by simp [ha], Nat.le_trans hm.2 hle⟩

lemma proper_mono (hm : m.Proper p) {p' : ℕ} (hle : p ≤ p') : m.Proper p' := by
  cases m with
  | between => trivial
  | within quoted a => exact ⟨hm.1, Nat.le_trans hm.2 hle⟩

lemma spot_put (m : Place) {text : Text} (htext : text ≠ []) (c : ℕ) :
    (m.put text c).spot = m.spot.put := by
  cases m with
  | between => rfl
  | within quoted a =>
    cases quoted with
    | false => rfl
    | true =>
      by_cases ha : a.text = []
      · simp [Place.put, Place.spot, Spot.put, ha, htext]
      · simp [Place.put, Place.spot, Spot.put, ha]

lemma first_result (done : List Argument) (r : Reading) :
    (Reading.first done r).result =
      (done.map Argument.text ++ r.1.map Argument.text,
        done.map Argument.start ++ r.1.map Argument.start, r.2) := by
  simp [Reading.first, Reading.result]

lemma first_first (done l : List Argument) (r : Reading) :
    Reading.first done (Reading.first l r) = Reading.first (done ++ l) r := by
  simp [Reading.first]

lemma finish_iff (hm : m.Proper p) (c : ℕ) :
    (m.scan done).finish c = (Reading.first done (m.close, c)).result ↔ m.spot ≠ .opened := by
  rw [first_result]
  cases m with
  | between => simp [Place.scan, Place.close, Place.spot, Scan.finish]
  | within quoted a =>
    by_cases ha : a.text = []
    · cases quoted with
      | false => exact absurd ha (hm.1 rfl)
      | true => simp [Place.scan, Place.close, Place.spot, Scan.finish, ha]
    · cases quoted <;> simp [Place.scan, Place.close, Place.spot, Scan.finish, ha]

lemma end_argument (hm : m.Proper p) (hspot : m.spot = .between ∨ m.spot = .word) :
    (m.scan done).endArgument = Place.between.scan (done ++ m.close) := by
  cases m with
  | between => simp [Place.scan, Place.close, Scan.endArgument]
  | within quoted a =>
    cases quoted with
    | false =>
      have ha := hm.1 rfl
      simp [Place.scan, Place.close, Scan.endArgument, ha]
    | true =>
      by_cases ha : a.text = [] <;> simp [Place.spot, ha] at hspot

lemma end_string {a : Argument} (ha : a.text ≠ []) :
    ((Place.within true a).scan done).endString = Place.between.scan (done ++ [a]) := by
  simp [Place.scan, Scan.endString, ha]

end

/-! ### Where they part -/

section

variable {escapesym : Char} {done : List Argument} {s : Scan} {c : ℕ} {r : Result} {l : Reading}
  {b : Argument} {u : List Argument}

lemma pointer_differs (hs : s.argPointers = done.map Argument.start) (hr : Reaches s c r)
    (hl : l.1 = b :: u) (hb : b.start < c) : r ≠ (Reading.first done l).result := by
  intro heq
  obtain ⟨v, hv, hle⟩ := hr.pointers
  rw [heq, first_result, hl, hs] at hv
  have hcons := List.append_cancel_left hv
  have hback := hle b.start (hcons ▸ List.mem_cons_self)
  omega

lemma text_differs (hs : s.args = done.map Argument.text) {text : Text} {v : List Text}
    (hr : r.1 = s.args ++ text :: v) (hl : l.1 = b :: u) (hb : text ≠ b.text) :
    r ≠ (Reading.first done l).result := by
  intro heq
  rw [heq, first_result, hl, hs] at hr
  have hcons := List.append_cancel_left hr
  exact hb (List.cons.inj hcons).1.symm

lemma not_longer {text : Text} {x : Char} {v : Text} : ¬ text ++ x :: v <+: text := by
  intro h
  have hlen := h.length_le
  rw [List.length_append, List.length_cons] at hlen
  omega

lemma prefix_next {text v w z : Text} {x y : Char} (h : text ++ x :: v <+: z)
    (h' : text ++ y :: w <+: z) : x = y := by
  have hx := h.getElem (i := text.length) (by simp)
  have hy := h'.getElem (i := text.length) (by simp)
  simpa using hx.trans hy.symm

lemma quotes_append (text : Text) (k : ℕ) :
    text ++ List.replicate (k + 1) '"' ++ ['"'] ++ ['"'] =
      text ++ ['"'] ++ List.replicate (k + 1 + 1) '"' := by
  have hone : ['"'] = List.replicate 1 '"' := rfl
  rw [hone, List.append_assoc, List.append_assoc, List.append_assoc,
    List.replicate_append_replicate, List.replicate_append_replicate,
    List.replicate_append_replicate]
  congr 2
  omega

lemma string_differs (hs : s.args = done.map Argument.text) (hstring : s.inString = true)
    (hargument : s.inArgument = true) (k start : ℕ) (t : Text) :
    loop escapesym s c t ≠ (Reading.first done (roff escapesym
      (.within false ⟨start, s.arg ++ List.replicate (k + 1) '"'⟩) c t)).result := by
  induction hn : t.length using Nat.strongRecOn generalizing s c t k with
  | ind n ih =>
    subst hn
    have hne : s.arg ++ List.replicate (k + 1) '"' ≠ [] := by simp
    obtain ⟨b, u, hb, -, hpre⟩ := @roff_first escapesym false
      ⟨start, s.arg ++ List.replicate (k + 1) '"'⟩ hne c t
    rw [List.replicate_succ] at hpre
    -- the argument ends here
    have hends : ∀ r : Result, s.args ++ [s.arg] <+: r.1 → r ≠ (Reading.first done (roff escapesym
        (.within false ⟨start, s.arg ++ List.replicate (k + 1) '"'⟩) c t)).result := by
      rintro r ⟨v, hv⟩
      have hlast : r.1 = s.args ++ s.arg :: v := by simp [← hv]
      refine text_differs hs hlast hb ?_
      intro heq
      exact not_longer (heq ▸ hpre)
    -- or goes on with another character
    have hgoes : ∀ (text : Text) (p c' : ℕ) (t' : Text), text.head? ≠ some '"' → text ≠ [] →
        loop escapesym (s.add text p) c' t' ≠ (Reading.first done (roff escapesym
          (.within false ⟨start, s.arg ++ List.replicate (k + 1) '"'⟩) c t)).result := by
      intro text p c' t' htext hne'
      obtain ⟨y, w, rfl⟩ := List.exists_cons_of_ne_nil hne'
      obtain ⟨b', v, hv, hpre'⟩ := (loop_reaches escapesym (s.add (y :: w) p) c' t').open_
        (add_inArgument s (y :: w) p)
      rw [add_args] at hv
      rw [add_arg] at hpre'
      refine text_differs hs hv hb ?_
      rintro rfl
      exact htext (by rw [prefix_next hpre hpre', List.head?_cons])
    have hfinish : ∀ c', s.args ++ [s.arg] <+: (s.finish c').1 := by
      intro c'
      have hlast : (s.finish c').1 = s.args ++ [s.arg] := if_pos hargument
      exact ⟨[], by rw [hlast, List.append_nil]⟩
    cases here escapesym t with
    | done => exact hends _ (hfinish c)
    | newline t =>
      rw [loop_newline]
      exact hends _ (hfinish (c + 1))
    | doubled t =>
      rw [loop_doubled hstring, roff_quote, put_more hne, roff_quote, put_more (by simp)]
      have hmore := ih t.length (two_shorter _ _ _) (s := { s with arg := s.arg ++ ['"'] })
        (c := c + 2) hs hstring hargument (k + 1) t rfl
      dsimp only at hmore ⊢
      rwa [quotes_append]
    | quote t ht =>
      rw [loop_close hstring ht]
      exact hends _ (loop_reaches escapesym s.endString (c + 1) t).args
    | blank t =>
      rw [loop_blank_quoted hstring]
      exact hgoes _ _ _ _ (by decide) (by simp)
    | escapedBlank t h =>
      rw [loop_escaped_blank h rfl]
      exact hgoes _ _ _ _ (by simpa using h.2.1) (by simp)
    | continued t h =>
      rw [loop_continued h rfl, roff_continued h rfl]
      exact ih t.length (two_shorter _ _ _) hs hstring hargument k t rfl
    | comment t h =>
      rw [loop_comment h rfl, endArgument_finish]
      exact hends _ (hfinish _)
    | char x t h he =>
      rw [loop_char h he]
      exact hgoes _ _ _ _ (by simpa using h.2.1) (by simp)

end

/-! ### The condition, at what stands there -/

section

variable {escapesym : Char} {s : Spot} {x : Char} {t : Text}

alias fits_turn := Fits.eq_def

lemma fits_newline : Fits escapesym s ('\n' :: t) ↔ s ≠ .opened := by
  rw [fits_turn]
  dsimp only
  rw [if_pos rfl]

lemma fits_open : Fits escapesym .between ('"' :: t) ↔ Fits escapesym .opened t := by
  rw [fits_turn]
  dsimp only
  rw [if_neg (by decide), if_pos rfl]

lemma fits_quote (hs : s = .word ∨ s = .opened) : ¬ Fits escapesym s ('"' :: t) := by
  rw [fits_turn]
  dsimp only
  rw [if_neg (by decide), if_pos rfl]
  obtain rfl | rfl := hs <;> exact id

lemma fits_doubled : Fits escapesym .quoted ('"' :: '"' :: t) ↔ Fits escapesym .quoted t := by
  rw [fits_turn]
  dsimp only
  rw [if_neg (by decide), if_pos rfl]
  rfl

lemma fits_close (ht : t.head? ≠ some '"') :
    Fits escapesym .quoted ('"' :: t) ↔ Fits escapesym .between t := by
  rw [fits_turn]
  dsimp only
  rw [if_neg (by decide), if_pos rfl]
  split
  · simp at ht
  · rfl

lemma fits_blank (hs : s = .between ∨ s = .word) :
    Fits escapesym s (' ' :: t) ↔ Fits escapesym .between t := by
  rw [fits_turn]
  dsimp only
  rw [if_neg (by decide), if_neg (by decide), if_pos rfl]
  obtain rfl | rfl := hs <;> rfl

lemma fits_blank_quoted (hs : s = .opened ∨ s = .quoted) :
    Fits escapesym s (' ' :: t) ↔ Fits escapesym .quoted t := by
  rw [fits_turn]
  dsimp only
  rw [if_neg (by decide), if_neg (by decide), if_pos rfl]
  obtain rfl | rfl := hs <;> rfl

section

variable (hx : Ordinary x)

include hx

lemma fits_last (he : x = escapesym) : Fits escapesym s [x] := by
  rw [fits_turn]
  dsimp only
  rw [if_neg hx.1, if_neg hx.2.1, if_neg hx.2.2, if_pos he]
  trivial

lemma fits_continued (he : x = escapesym) :
    Fits escapesym s (x :: '\n' :: t) ↔ Fits escapesym s t := by
  rw [fits_turn]
  dsimp only
  rw [if_neg hx.1, if_neg hx.2.1, if_neg hx.2.2, if_pos he]
  exact Iff.of_eq (if_pos rfl)

lemma fits_comment (he : x = escapesym) : Fits escapesym s (x :: '"' :: t) ↔ s ≠ .opened := by
  rw [fits_turn]
  dsimp only
  rw [if_neg hx.1, if_neg hx.2.1, if_neg hx.2.2, if_pos he]
  exact Iff.of_eq ((if_neg (by decide)).trans (if_pos rfl))

lemma fits_pair (he : x = escapesym) {y : Char} (hnewline : y ≠ '\n') (hquote : y ≠ '"') :
    Fits escapesym s (x :: y :: t) ↔ (y = ' ' → s = .word ∨ s = .quoted) ∧
      (y = escapesym → Escaped s.put t) ∧ Fits escapesym s.put t := by
  rw [fits_turn]
  dsimp only
  rw [if_neg hx.1, if_neg hx.2.1, if_neg hx.2.2, if_pos he]
  exact Iff.of_eq ((if_neg hnewline).trans (if_neg hquote))

lemma fits_char (he : x ≠ escapesym) : Fits escapesym s (x :: t) ↔ Fits escapesym s.put t := by
  rw [fits_turn]
  dsimp only
  rw [if_neg hx.1, if_neg hx.2.1, if_neg hx.2.2, if_neg he]

end

end

/-! ### The arguments and pointers of a line -/

section

variable {escapesym : Char} {m : Place} {p : ℕ} {done : List Argument} {t : Text}

lemma open_string (done : List Argument) (c : ℕ) :
    { Place.between.scan done with inString := true } =
      (Place.within true ⟨c, []⟩).scan done := by
  simp [Place.scan]

lemma loop_escaped (h : Ordinary escapesym) (hm : m.Proper p) (ht : Escaped m.spot.put t) :
    loop escapesym (m.scan done) p (escapesym :: escapesym :: t) =
      loop escapesym ((m.put [escapesym, escapesym] p).scan done) (p + 2) t := by
  have hadd : ∀ text : Text, ((m.scan done).add [escapesym] p).add text (p + 1) =
      (m.put (escapesym :: text) p).scan done := fun text => by
    rw [add_add, scan_add hm (by simp)]
    rfl
  have hnext : ∀ y ∈ (escapesym :: t).head?, Ordinary y := by
    intro y hy
    obtain rfl := Option.some.inj hy
    exact h
  rw [loop_char h (fun _ => hnext)]
  by_cases hplain : ∀ y ∈ t.head?, Ordinary y
  · rw [loop_char h (fun _ => hplain), hadd]
  · -- a blank in quotes
    obtain ⟨hnewline, hquote, hblank⟩ := ht
    push Not at hplain
    obtain ⟨y, hy, hyo⟩ := hplain
    obtain ⟨u, rfl⟩ := List.head?_eq_some_iff.mp hy
    have hspace : y = ' ' := by
      by_contra hne
      exact hyo ⟨by simpa using hnewline, by simpa using hquote, hne⟩
    subst hspace
    have hspot := hblank rfl
    have hstring : ((m.put [escapesym, escapesym] p).scan done).inString = true := by
      rw [← spot_put m (List.cons_ne_nil escapesym [escapesym]) p] at hspot
      cases hput : m.put [escapesym, escapesym] p with
      | between => simp [hput, Place.spot] at hspot
      | within quoted a =>
        cases quoted with
        | false => simp [hput, Place.spot] at hspot
        | true => rfl
    rw [loop_escaped_blank h rfl, loop_blank_quoted hstring]
    congr 1
    rw [← hadd, add_add, add_add, add_add]
    rfl

lemma put_within (m : Place) (text : Text) (c : ℕ) :
    ∃ quoted a, m.put text c = .within quoted a ∧ a.text = m.text ++ text := by
  have htext := put_text m text c
  cases m with
  | between => exact ⟨false, _, rfl, htext⟩
  | within quoted a => exact ⟨quoted, _, rfl, htext⟩

lemma escaped_differs (h : Ordinary escapesym) (ht : ¬ Escaped m.spot.put t) :
    loop escapesym (m.scan done) p (escapesym :: escapesym :: t) ≠
      (Reading.first done (roff escapesym m p (escapesym :: escapesym :: t))).result := by
  have hnext : ∀ y ∈ (escapesym :: t).head?, Ordinary y := by
    intro y hy
    obtain rfl := Option.some.inj hy
    exact h
  obtain ⟨quoted, a, hput, ha⟩ := put_within m [escapesym, escapesym] p
  have hne : a.text ≠ [] := by simp [ha]
  have hin := add_inArgument (m.scan done) [escapesym] p
  have hargs : ((m.scan done).add [escapesym] p).args = done.map Argument.text := by
    rw [add_args, scan_args]
  have harg : ((m.scan done).add [escapesym] p).arg = m.text ++ [escapesym] := by
    rw [add_arg, scan_arg]
  -- the argument ends without the second escape character
  have hends : ∀ c, ((m.scan done).add [escapesym] p).finish c ≠
      (Reading.first done (roff escapesym (.within quoted a) (p + 2) t)).result := by
    intro c
    obtain ⟨b, u, hb, -, hpre⟩ := @roff_first escapesym quoted a hne (p + 2) t
    have hlast : (((m.scan done).add [escapesym] p).finish c).1 =
        ((m.scan done).add [escapesym] p).args ++ [m.text ++ [escapesym]] := by
      rw [Scan.finish, if_pos hin, harg]
    refine text_differs hargs hlast hb ?_
    intro heq
    rw [ha, ← heq] at hpre
    have hlen := hpre.length_le
    simp at hlen
  rw [loop_char h (fun _ => hnext), roff_pair h rfl h.1 h.2.1, hput]
  cases t with
  | nil => exact absurd ⟨by simp, by simp, by simp⟩ ht
  | cons y u =>
    by_cases hnewline : y = '\n'
    · subst hnewline
      rw [loop_continued h rfl]
      cases u with
      | nil => exact hends _
      | cons z u =>
        rw [roff_newline]
        intro heq
        have hstop := loop_stop escapesym ((m.scan done).add [escapesym] p) (p + 1 + 2)
          (List.cons_ne_nil z u)
        rw [heq] at hstop
        exact Nat.lt_irrefl _ hstop
    by_cases hquote : y = '"'
    · subst hquote
      rw [loop_comment h rfl, endArgument_finish]
      exact hends _
    · -- a blank outside of quotes
      have hblank : y = ' ' ∧ m.spot.put ≠ .quoted := by
        by_contra hno
        exact ht ⟨by simpa using hnewline, by simpa using hquote, fun hy => by
          by_contra hspot
          exact hno ⟨by simpa using hy, hspot⟩⟩
      obtain ⟨rfl, hspot⟩ := hblank
      have hword : quoted = false := by
        rw [← spot_put m (List.cons_ne_nil escapesym [escapesym]) p, hput] at hspot
        cases quoted with
        | false => rfl
        | true => simp [Place.spot, hne] at hspot
      subst hword
      rw [loop_escaped_blank h rfl, roff_blank]
      obtain ⟨b, v, hv, hpre⟩ := (loop_reaches escapesym
        (((m.scan done).add [escapesym] p).add [escapesym, ' '] (p + 1 + 1)) (p + 1 + 2) u).open_
        (add_inArgument _ _ _)
      rw [add_args] at hv
      rw [add_arg, harg] at hpre
      refine text_differs (b := a) hargs hv rfl ?_
      rintro rfl
      rw [ha] at hpre
      have hlen := hpre.length_le
      simp at hlen

lemma quote_differs {a : Argument} (hm : (Place.within false a).Proper p) (t : Text) :
    loop escapesym { (Place.within false a).scan done with inString := true } (p + 1) t ≠
      (Reading.first done (roff escapesym (.within false a) p ('"' :: t))).result := by
  have ha := hm.1 rfl
  rw [roff_quote, put_more ha]
  exact string_differs (s := { (Place.within false a).scan done with inString := true }) rfl rfl
    (decide_eq_true ha) 0 a.start t

lemma opened_differs {a : Argument} (hm : (Place.within true a).Proper p) (ha : a.text = [])
    (t : Text) :
    loop escapesym ((Place.within true a).scan done) p ('"' :: t) ≠
      (Reading.first done (roff escapesym (.within true a) p ('"' :: t))).result := by
  have hpointers : ((Place.within true a).scan done).argPointers = done.map Argument.start := by
    simp [Place.scan, ha]
  by_cases ht : t.head? = some '"'
  · obtain ⟨u, rfl⟩ := List.head?_eq_some_iff.mp ht
    rw [loop_doubled rfl, roff_doubled, Place.put, if_pos ha]
    obtain ⟨b, v, hb, hstart, -⟩ := @roff_first escapesym true ⟨p, ['"']⟩
      (List.cons_ne_nil _ _) (p + 2) u
    have hreaches := Reaches.of_quote (Nat.le_refl (p + 2)) (loop_reaches escapesym
      { (Place.within true a).scan done with
        arg := ((Place.within true a).scan done).arg ++ ['"'] } (p + 2) u)
    refine pointer_differs hpointers hreaches hb ?_
    rw [hstart]
    change p < p + 2
    omega
  · rw [loop_close rfl ht, roff_close ht]
    have hreaches := Reaches.of_endString (Nat.le_refl (p + 1)) (loop_reaches escapesym
      ((Place.within true a).scan done).endString (p + 1) t)
    exact pointer_differs hpointers hreaches rfl (Nat.lt_succ_of_le hm.2)

lemma string_iff (m : Place) (done : List Argument) :
    (m.scan done).inString = true ↔ ¬ (m.spot = .between ∨ m.spot = .word) := by
  cases m with
  | between => simp [Place.scan, Place.spot]
  | within quoted a =>
    cases quoted with
    | false => simp [Place.scan, Place.spot]
    | true => by_cases ha : a.text = [] <;> simp [Place.scan, Place.spot, ha]

lemma put_pointer (hm : m.Proper p) (hin : m.spot = .word ∨ m.spot = .quoted) {text : Text}
    (c c' : ℕ) : m.put text c = m.put text c' := by
  cases m with
  | between => simp [Place.spot] at hin
  | within quoted a =>
    have ha : a.text ≠ [] := by
      cases quoted with
      | false => exact hm.1 rfl
      | true =>
        intro ha
        simp [Place.spot, ha] at hin
    rw [put_more ha, put_more ha]

lemma blank_differs (hin : ¬ (m.spot = .word ∨ m.spot = .quoted)) (t : Text) :
    loop escapesym ((m.scan done).add [escapesym, ' '] (p + 1)) (p + 2) t ≠
      (Reading.first done (roff escapesym (m.put [escapesym, ' '] p) (p + 2) t)).result := by
  have hreaches : Reaches (m.scan done) (p + 1)
      (loop escapesym ((m.scan done).add [escapesym, ' '] (p + 1)) (p + 2) t) :=
    .of_add (Nat.le_refl (p + 1)) (Nat.le_succ (p + 1)) (loop_reaches escapesym _ (p + 2) t)
  have hfirst : (m.scan done).argPointers = done.map Argument.start ∧
      ∃ quoted, m.put [escapesym, ' '] p = .within quoted ⟨p, [escapesym, ' ']⟩ := by
    cases m with
    | between => exact ⟨rfl, false, rfl⟩
    | within quoted a =>
      have ha : a.text = [] := by
        by_contra ha
        cases quoted <;> simp [Place.spot, ha] at hin
      exact ⟨by simp [Place.scan, ha], quoted, by rw [Place.put, if_pos ha]⟩
  obtain ⟨hpointers, quoted, hput⟩ := hfirst
  obtain ⟨b, v, hb, hstart, -⟩ := @roff_first escapesym quoted
    ⟨p, [escapesym, ' ']⟩ (List.cons_ne_nil _ _) (p + 2) t
  rw [hput]
  refine pointer_differs hpointers hreaches hb ?_
  rw [hstart]
  exact Nat.lt_succ_self p

lemma agree_quote (hm : m.Proper p)
    (ih : ∀ n < ('"' :: t).length, ∀ {m : Place} {p : ℕ} {done : List Argument} {u : Text},
      m.Proper p → u.length = n →
        (loop escapesym (m.scan done) p u = (Reading.first done (roff escapesym m p u)).result ↔
          Fits escapesym m.spot u)) :
    loop escapesym (m.scan done) p ('"' :: t) =
        (Reading.first done (roff escapesym m p ('"' :: t))).result ↔
      Fits escapesym m.spot ('"' :: t) := by
  cases m with
  | between =>
    rw [loop_open rfl, open_string done (p + 1), roff_open]
    refine (ih t.length (by simp) ?_ rfl).trans fits_open.symm
    exact ⟨nofun, Nat.le_refl _⟩
  | within quoted a =>
    cases quoted with
    | false =>
      refine iff_of_false ?_ (fits_quote (Or.inl rfl))
      rw [loop_open rfl]
      exact quote_differs hm t
    | true =>
      by_cases ha : a.text = []
      · have hspot : (Place.within true a).spot = .opened := if_pos ha
        rw [hspot]
        exact iff_of_false (opened_differs hm ha t) (fits_quote (Or.inr rfl))
      · have hspot : (Place.within true a).spot = .quoted := if_neg ha
        rw [hspot]
        by_cases ht : t.head? = some '"'
        · obtain ⟨u, rfl⟩ := List.head?_eq_some_iff.mp ht
          have hscan : { (Place.within true a).scan done with
              arg := ((Place.within true a).scan done).arg ++ ['"'] } =
                (Place.put ['"'] p (.within true a)).scan done := by
            rw [put_more ha]
            simp [Place.scan, ha]
          rw [loop_doubled rfl, hscan, roff_doubled, fits_doubled]
          have hnext := spot_put (.within true a) (List.cons_ne_nil '"' []) p
          rw [hspot] at hnext
          rw [← show Spot.put .quoted = .quoted from rfl, ← hnext]
          exact ih u.length (two_shorter _ _ _) (proper_put hm (by simp) (by omega)) rfl
        · rw [loop_close rfl ht, end_string ha, roff_close ht, first_first, fits_close ht]
          exact ih t.length (by simp) (show Place.Proper (p + 1) .between from trivial) rfl

/-- **Arguments and pointers** are those of roff from a place on if and only if the text fits
there. -/
lemma agree_iff (hm : m.Proper p) :
    loop escapesym (m.scan done) p t = (Reading.first done (roff escapesym m p t)).result ↔
      Fits escapesym m.spot t := by
  induction hn : t.length using Nat.strongRecOn generalizing m p done t with
  | ind n ih =>
    subst hn
    -- some text is added to the argument
    have hput : ∀ (text : Text) (c : ℕ) (u : Text), text ≠ [] → p ≤ c → u.length < t.length →
        (loop escapesym ((m.put text p).scan done) c u =
          (Reading.first done (roff escapesym (m.put text p) c u)).result ↔
            Fits escapesym m.spot.put u) := by
      intro text c u htext hc hu
      rw [← spot_put m htext p]
      exact ih u.length hu (proper_put hm htext hc) rfl
    cases here escapesym t with
    | done => exact finish_iff hm p
    | newline t =>
      rw [loop_newline, roff_newline, fits_newline]
      exact finish_iff hm (p + 1)
    | doubled t => exact agree_quote hm ih
    | quote t ht => exact agree_quote hm ih
    | blank t =>
      by_cases hquoted : m.spot = .between ∨ m.spot = .word
      · have hs : (m.scan done).inString = false := by
          rw [← Bool.not_eq_true, string_iff, not_not]
          exact hquoted
        have hroff : roff escapesym m p (' ' :: t) =
            Reading.first m.close (roff escapesym .between (p + 1) t) := by
          rw [roff_blank]
          split
          · next a => by_cases ha : a.text = [] <;> simp [Place.spot, ha] at hquoted
          · rfl
        rw [loop_blank hs, end_argument hm hquoted, hroff, first_first, fits_blank hquoted]
        exact ih t.length (by simp) (show Place.Proper (p + 1) .between from trivial) rfl
      · have hs := (string_iff m done).mpr hquoted
        have hspot : m.spot = .opened ∨ m.spot = .quoted := by
          cases hm' : m.spot <;> simp_all
        have hroff : roff escapesym m p (' ' :: t) =
            roff escapesym (m.put [' '] p) (p + 1) t := by
          rw [roff_blank]
          split
          · rfl
          · next hno =>
            cases m with
            | between => simp [Place.spot] at hspot
            | within quoted a =>
              cases quoted with
              | false => simp [Place.spot] at hspot
              | true => exact absurd rfl (hno a)
        have hnext : m.spot.put = .quoted := by
          obtain h | h := hspot <;> rw [h] <;> rfl
        rw [loop_blank_quoted hs, scan_add hm (by simp), hroff, fits_blank_quoted hspot, ← hnext]
        exact hput _ _ _ (by simp) (by omega) (by simp)
    | escapedBlank t h =>
      have hother : ' ' ≠ escapesym := fun heq => h.2.2 heq.symm
      rw [loop_escaped_blank h rfl, roff_pair h rfl (by decide) (by decide),
        fits_pair h rfl (by decide) (by decide)]
      by_cases hin : m.spot = .word ∨ m.spot = .quoted
      · rw [scan_add hm (by simp), put_pointer hm hin (p + 1) p,
          hput [escapesym, ' '] (p + 2) t (by simp) (by omega) (two_shorter _ _ _)]
        exact ⟨fun hfits => ⟨fun _ => hin, fun heq => absurd heq hother, hfits⟩, fun hfits =>
          hfits.2.2⟩
      · exact iff_of_false (blank_differs hin t) fun hfits => hin (hfits.1 rfl)
    | continued t h =>
      rw [loop_continued h rfl, roff_continued h rfl, fits_continued h rfl]
      exact ih t.length (two_shorter _ _ _) (proper_mono hm (by omega)) rfl
    | comment t h =>
      rw [loop_comment h rfl, endArgument_finish, roff_comment h rfl, fits_comment h rfl]
      exact finish_iff hm _
    | char x t h he =>
      by_cases heq : x = escapesym
      · subst heq
        cases t with
        | nil =>
          have hopened : (m.put [x] p).spot ≠ .opened := by
            rw [spot_put m (by simp) p]
            cases m.spot <;> decide
          rw [loop_char h he, scan_add hm (by simp), roff_last h rfl]
          have hfinish := (@finish_iff _ _ done
            (proper_put hm (List.cons_ne_nil x []) (Nat.le_refl p)) (p + 1)).mpr hopened
          exact iff_of_true hfinish (fits_last h rfl)
        | cons y t =>
          have hy := he rfl y rfl
          have hmore := hput [x, y] (p + 2) t (by simp) (by omega) (two_shorter _ _ _)
          have hspace : y = ' ' → m.spot = .word ∨ m.spot = .quoted := fun heq => absurd heq hy.2.2
          by_cases heq : y = x
          · subst heq
            by_cases ht : Escaped m.spot.put t
            · rw [loop_escaped h hm ht, roff_pair h rfl hy.1 hy.2.1, hmore,
                fits_pair h rfl hy.1 hy.2.1]
              exact ⟨fun hfits => ⟨hspace, fun _ => ht, hfits⟩, fun hfits => hfits.2.2⟩
            · refine iff_of_false (escaped_differs h ht) ?_
              rw [fits_pair h rfl hy.1 hy.2.1]
              exact fun hfits => ht (hfits.2.1 rfl)
          · rw [loop_char h he, loop_char hy (fun heq' => absurd heq' heq), add_add,
              scan_add hm (by simp), roff_pair h rfl hy.1 hy.2.1, fits_pair h rfl hy.1 hy.2.1]
            refine hmore.trans ?_
            exact ⟨fun hfits => ⟨hspace, fun heq' => absurd heq' heq, hfits⟩, fun hfits =>
              hfits.2.2⟩
      · rw [loop_char h he, roff_char h heq, fits_char h heq, scan_add hm (by simp)]
        exact hput _ _ _ (by simp) (by omega) (by simp)

end

/-- **`getArguments` follows the rules of roff** on a line, with a pointer to the first character of
each argument and the end of the line, if and only if the line fits. -/
theorem getArguments_iff (escapesym : Char) (c : Text) :
    getArguments escapesym c = (roff escapesym .between 0 c).result ↔
      Fits escapesym .between c := by
  have hbegin : Place.between.Proper 0 := trivial
  exact @agree_iff _ _ 0 [] c hbegin

/-- An empty argument has no pointer. -/
theorem empty_argument_without_pointer :
    ¬ ∀ (escapesym : Char) (c : Text),
      getArguments escapesym c = (roff escapesym .between 0 c).result := by
  intro h
  have hpointers := congrArg (fun r => r.2.1.length) (h '\\' ['"', '"', ' ', 'a'])
  exact absurd hpointers (by decide)

end KioExtras.Man.Arguments
