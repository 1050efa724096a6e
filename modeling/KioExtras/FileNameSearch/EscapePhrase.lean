import KioExtras.Lib.Patterns
import Mathlib.Data.List.Sublists
import Mathlib.Data.List.TakeWhile

/-!
How a phrase becomes a regular expression: `escapePhrase`, and what PCRE reads in its text.

Whitespace in the phrase stands for any other, but an underscore in the phrase stands for
whitespace only.
-/

namespace KioExtras.FileNameSearch.EscapePhrase

open KioExtras.Lib.Patterns RegularExpression

abbrev Text := List Char

/-! ### Making the text -/

/-- What `\s` matches. -/
def spaces : List Char := [' ', '\t', '\n', '\x0b', '\x0c', '\x0d']

variable (c : Char)

def isSpace : Bool := decide (c ∈ spaces)

def isSeparator : Bool := isSpace c || decide (c = '_')

/-- `(\s|_)+` -/
def separators (text : Text) : ℕ := (text.takeWhile isSeparator).length

/-- `\\ ` -/
def escapedSpace (text : Text) : ℕ := if ['\\', ' '].isPrefixOf text then 2 else 0

def escapeChar : Text :=
  if c = '\x00' then ['\\', '0']
  else if c.isAlphanum || decide (c = '_') then [c]
  else ['\\', c]

variable (str : Text)

def escape : Text := str.flatMap escapeChar

def escapePhrase (regex : Text) : Text :=
  let escapedRegex := replace separators [' '] 0 regex
  let escapedRegex := escape escapedRegex
  replace escapedSpace ['\\', 's', '+'] 0 escapedRegex

/-! ### Reading the text -/

def isOctal : Bool := decide ('0' ≤ c) && decide (c ≤ '7')

def octalDigits (text : Text) : Text := (text.take 2).takeWhile isOctal

def octalChar (digits : Text) : Char :=
  Char.ofNat (digits.foldl (fun n d => 8 * n + (d.toNat - '0'.toNat)) 0)

inductive Token
  | atom (r : RegularExpression Char)
  | plus

/-- What PCRE has a use for, apart from a backslash and a plus. -/
def metacharacters : List Char := ['^', '$', '.', '[', '|', '(', ')', '?', '*', '{']

/-- The beginning of a pattern; `none` where it is no pattern or one with more in it than classes
and repetitions. The first argument counts what is left of the token before. -/
def tokens : ℕ → Text → Option (List Token)
  | _, [] => some []
  | skip + 1, _ :: text => tokens skip text
  | 0, c :: text =>
    if c = '\\' then
      match text with
      | [] => none
      | d :: after =>
        if d = 's' then (tokens 1 text).map (.atom (oneOf spaces) :: ·)
        else if d = '0' then
          (tokens (1 + (octalDigits after).length) text).map
            (.atom (char (octalChar (octalDigits after))) :: ·)
        else if d.isAlphanum then none
        else (tokens 1 text).map (.atom (char d) :: ·)
    else if c = '+' then (tokens 0 text).map (.plus :: ·)
    else if c ∈ metacharacters then none
    else (tokens 0 text).map (.atom (char c) :: ·)

/-- A plus repeats what is before it, and nothing else is repeated. -/
def sequence : List Token → Option (RegularExpression Char)
  | [] => some 1
  | .plus :: _ => none
  | .atom r :: .plus :: rest => (sequence rest).map (more r * ·)
  | .atom r :: rest => (sequence rest).map (r * ·)

def pattern (text : Text) : Option (RegularExpression Char) := (tokens 0 text).bind sequence

/-! ### What is searched for -/

/-- A text with one mark for each run of whitespace and underscores. -/
def marks : Text → List (Option Char)
  | [] => []
  | c :: text =>
    if isSeparator c then
      if text.head?.any isSeparator then marks text else none :: marks text
    else some c :: marks text

/-- What a search for the phrase `s` finds: each text with the phrase in it, and no text but those
that have the phrase with other runs of whitespace and underscores. -/
structure Searches (s : Text) (r : RegularExpression Char) : Prop where
  complete : ∀ text, s <:+: text → Found r text
  sound : ∀ text, Found r text → ∃ part, part <:+: text ∧ marks part = marks s

def expression : List (Option Char) → RegularExpression Char
  | [] => 1
  | none :: ms => more (oneOf spaces) * expression ms
  | some c :: ms => char c * expression ms

section expression

variable {ms : List (Option Char)} {c : Char} {text : Text}

lemma mem_expression_nil : text ∈ (expression []).matches' ↔ text = [] := Language.mem_one text

lemma mem_expression_none : text ∈ (expression (none :: ms)).matches' ↔
    ∃ run rest, run ≠ [] ∧ (∀ c ∈ run, isSpace c = true) ∧ rest ∈ (expression ms).matches' ∧
      text = run ++ rest := by
  have hmul : text ∈ (expression (none :: ms)).matches' ↔
      ∃ a ∈ (more (oneOf spaces)).matches', ∃ b ∈ (expression ms).matches', a ++ b = text :=
    Language.mem_mul
  rw [hmul]
  constructor
  · rintro ⟨run, hrun, rest, hrest, rfl⟩
    obtain ⟨hne, hall⟩ := mem_more_oneOf.mp hrun
    exact ⟨run, rest, hne, fun c hc => decide_eq_true (hall c hc), hrest, rfl⟩
  · rintro ⟨run, rest, hne, hall, hrest, rfl⟩
    exact ⟨run, mem_more_oneOf.mpr ⟨hne, fun c hc => of_decide_eq_true (hall c hc)⟩, rest, hrest,
      rfl⟩

lemma mem_expression_some : text ∈ (expression (some c :: ms)).matches' ↔
    ∃ rest ∈ (expression ms).matches', text = c :: rest := by
  have hmul : text ∈ (expression (some c :: ms)).matches' ↔
      ∃ a ∈ (char c).matches', ∃ b ∈ (expression ms).matches', a ++ b = text :=
    Language.mem_mul
  rw [hmul]
  constructor
  · rintro ⟨a, rfl, rest, hrest, rfl⟩
    exact ⟨rest, hrest, rfl⟩
  · rintro ⟨rest, hrest, rfl⟩
    exact ⟨[c], rfl, rest, hrest, rfl⟩

end expression

/-! ### The two replacements -/

variable (s : Text)

/-- The phrase behind the first replacement. -/
def spaced : Text := (marks s).map fun m => m.getD ' '

lemma marks_separator {c : Char} {text : Text} (hc : isSeparator c = true) :
    marks (c :: text) = none :: marks (text.dropWhile isSeparator) := by
  induction text generalizing c with
  | nil => simp [marks, hc]
  | cons d text ih =>
    rw [marks, if_pos hc]
    by_cases hd : isSeparator d = true
    · rw [if_pos (by simpa using hd), ih hd, List.dropWhile_cons_of_pos hd]
    · rw [if_neg (by simpa using hd), List.dropWhile_cons_of_neg hd]

lemma marks_literal {c : Char} {text : Text} (hc : isSeparator c ≠ true) :
    marks (c :: text) = some c :: marks text := by
  rw [marks, if_neg hc]

lemma replace_separators_run :
    replace separators [' '] 0 s = spaced s ∧
      replace separators [' '] (s.takeWhile isSeparator).length s =
        spaced (s.dropWhile isSeparator) := by
  induction s with
  | nil => exact ⟨rfl, rfl⟩
  | cons c s ih =>
    by_cases hc : isSeparator c = true
    · refine ⟨?_, ?_⟩
      · have hmatch : separators (c :: s) = (s.takeWhile isSeparator).length + 1 := by
          rw [separators, List.takeWhile_cons_of_pos hc, List.length_cons]
        rw [replace_match hmatch, ih.2, spaced, spaced, marks_separator hc]
        rfl
      · rw [List.takeWhile_cons_of_pos hc, List.length_cons, replace_skip, ih.2,
          List.dropWhile_cons_of_pos hc]
    · have hkeep : replace separators [' '] 0 (c :: s) = spaced (c :: s) := by
        have hmatch : separators (c :: s) = 0 := by
          rw [separators, List.takeWhile_cons_of_neg hc, List.length_nil]
        rw [replace_keep hmatch, ih.1, spaced, spaced, marks_literal hc]
        rfl
      refine ⟨hkeep, ?_⟩
      rwa [List.takeWhile_cons_of_neg hc, List.length_nil, List.dropWhile_cons_of_neg hc]

def rewritten : Text := if c = ' ' then ['\\', 's', '+'] else escapeChar c

lemma escapeChar_head : ∃ d rest, escapeChar c = d :: rest ∧ d ≠ ' ' := by
  unfold escapeChar
  split_ifs with hnul hword
  · exact ⟨_, _, rfl, by decide⟩
  · refine ⟨_, _, rfl, ?_⟩
    rintro rfl
    revert hword
    decide
  · exact ⟨_, _, rfl, by decide⟩

lemma rewritten_ne_nil : rewritten c ≠ [] := by
  obtain ⟨d, rest, hd, -⟩ := escapeChar_head c
  unfold rewritten
  split_ifs
  · exact List.cons_ne_nil _ _
  · rw [hd]
    exact List.cons_ne_nil _ _

lemma escape_head : (escape str).head? ≠ some ' ' := by
  cases str with
  | nil => simp [escape]
  | cons c str =>
    obtain ⟨d, rest, hd, hne⟩ := escapeChar_head c
    rw [escape, List.flatMap_cons, hd]
    simpa using hne

lemma escapedSpace_none {c : Char} {text : Text} (h : c ≠ '\\' ∨ text.head? ≠ some ' ') :
    escapedSpace (c :: text) = 0 := by
  rw [escapedSpace, if_neg]
  intro hstart
  obtain ⟨rest, hrest⟩ := List.isPrefixOf_iff_prefix.mp hstart
  obtain ⟨rfl, rfl⟩ := List.cons.inj hrest
  rcases h with h | h
  · exact h rfl
  · exact h rfl

/-- **The second replacement** takes the escaped spaces and leaves all other escapes alone. -/
lemma replace_escape :
    replace escapedSpace ['\\', 's', '+'] 0 (escape str) = str.flatMap rewritten := by
  induction str with
  | nil => rfl
  | cons c str ih =>
    have hescape : escape (c :: str) = escapeChar c ++ escape str := List.flatMap_cons ..
    rw [hescape, List.flatMap_cons, ← ih, rewritten]
    by_cases hspace : c = ' '
    · rw [if_pos hspace, hspace]
      rfl
    rw [if_neg hspace, escapeChar]
    split_ifs with hnul hword
    · rw [List.cons_append, replace_keep (escapedSpace_none (Or.inr (by simp))),
        List.cons_append, replace_keep (escapedSpace_none (Or.inl (by decide)))]
      rfl
    · have hslash : c ≠ '\\' := by
        rintro rfl
        revert hword
        decide
      rw [List.singleton_append, replace_keep (escapedSpace_none (Or.inl hslash))]
      rfl
    · rw [List.cons_append, replace_keep (escapedSpace_none (Or.inr (by simpa using hspace))),
        List.singleton_append, replace_keep (escapedSpace_none (Or.inr (escape_head str)))]
      rfl

lemma escapePhrase_eq : escapePhrase s = (spaced s).flatMap rewritten := by
  rw [escapePhrase, (replace_separators_run s).1, replace_escape]

example : escapePhrase "a\\ b__c".toList = "a\\\\\\s+b\\s+c".toList := by decide

/-! ### Reading it back -/

/-- What is read where the spaced phrase is `str`: one mark for a character, but a null character
takes the octal digits behind it along. -/
def meant : ℕ → Text → List (Option Char)
  | _, [] => []
  | skip + 1, _ :: str => meant skip str
  | 0, c :: str =>
    if c = ' ' then none :: meant 0 str
    else if c = '\x00' then
      some (octalChar (octalDigits str)) :: meant (octalDigits str).length str
    else some c :: meant 0 str

def markTokens : Option Char → List Token
  | none => [.atom (oneOf spaces), .plus]
  | some c => [.atom (char c)]

lemma sequence_marks (ms : List (Option Char)) :
    sequence (ms.flatMap markTokens) = some (expression ms) := by
  induction ms with
  | nil => rfl
  | cons m ms ih =>
    cases m with
    | none =>
      rw [List.flatMap_cons, markTokens, List.cons_append, List.singleton_append, sequence, ih]
      rfl
    | some c =>
      have hplus : ∀ rest, ms.flatMap markTokens ≠ .plus :: rest := by
        intro rest h
        rw [h, sequence] at ih
        cases ih
      rw [List.flatMap_cons, markTokens, List.singleton_append, sequence, ih]
      · rfl
      · exact hplus

lemma word_of_octal {c : Char} (hc : isOctal c = true) : c.isAlphanum = true := by
  rw [isOctal, Bool.and_eq_true, decide_eq_true_eq, decide_eq_true_eq] at hc
  have hdigit : c.isDigit = true := by
    rw [Char.isDigit, Bool.and_eq_true, decide_eq_true_eq, decide_eq_true_eq]
    have hseven : c.val.toNat ≤ '7'.val.toNat := UInt32.le_iff_toNat_le.mp hc.2
    exact ⟨hc.1, UInt32.le_iff_toNat_le.mpr (hseven.trans (by decide))⟩
  rw [Char.isAlphanum, hdigit, Bool.or_true]

lemma rewritten_octal {c : Char} (hc : isOctal c = true) : rewritten c = [c] := by
  have hspace : c ≠ ' ' := by
    rintro rfl
    revert hc
    decide
  have hnul : c ≠ '\x00' := by
    rintro rfl
    revert hc
    decide
  rw [rewritten, if_neg hspace, escapeChar, if_neg hnul, if_pos (by simp [word_of_octal hc])]

lemma rewritten_other {c : Char} (hc : isOctal c ≠ true) :
    ∃ d rest, rewritten c = d :: rest ∧ isOctal d ≠ true := by
  unfold rewritten escapeChar
  split_ifs
  · exact ⟨_, _, rfl, by decide⟩
  · exact ⟨_, _, rfl, by decide⟩
  · exact ⟨_, _, rfl, hc⟩
  · exact ⟨_, _, rfl, by decide⟩

lemma takeWhile_rewritten (n : ℕ) (str : Text) :
    ((str.flatMap rewritten).take n).takeWhile isOctal = (str.take n).takeWhile isOctal := by
  induction n generalizing str with
  | zero => simp
  | succ n ih =>
    cases str with
    | nil => rfl
    | cons c str =>
      rw [List.flatMap_cons, List.take_succ_cons]
      by_cases hc : isOctal c = true
      · rw [rewritten_octal hc, List.singleton_append, List.take_succ_cons,
          List.takeWhile_cons_of_pos hc, List.takeWhile_cons_of_pos hc, ih]
      · obtain ⟨d, rest, hd, hother⟩ := rewritten_other hc
        rw [hd, List.cons_append, List.take_succ_cons, List.takeWhile_cons_of_neg hc,
          List.takeWhile_cons_of_neg hother]

lemma octalDigits_rewritten :
    octalDigits (str.flatMap rewritten) = octalDigits str := takeWhile_rewritten 2 str

lemma octalDigits_starts : octalDigits str <+: str :=
  (List.takeWhile_prefix _).trans (List.take_prefix _ _)

lemma octal_of_take {str : Text} : ∀ c ∈ str.take (octalDigits str).length, isOctal c = true := by
  rw [← List.prefix_iff_eq_take.mp (octalDigits_starts str)]
  exact fun c hc => List.mem_takeWhile_imp hc

/-- A character that is neither a letter nor a digit nor an underscore. -/
structure Special (c : Char) : Prop where
  letter : c ≠ 's'
  digit : c ≠ '0'
  word : c.isAlphanum = false

lemma tokens_word {c : Char} {text : Text} (hc : c.isAlphanum = true ∨ c = '_') :
    tokens 0 (c :: text) = (tokens 0 text).map (.atom (char c) :: ·) := by
  have hother : ∀ d : Char, (d.isAlphanum || decide (d = '_')) = false → c ≠ d := by
    rintro d hd rfl
    rw [Bool.or_eq_false_iff, decide_eq_false_iff_not] at hd
    rcases hc with hc | hc
    · exact absurd (hd.1.symm.trans hc) (by decide)
    · exact hd.2 hc
  have hmeta : c ∉ metacharacters := by
    intro hmem
    have hall : metacharacters.all (fun d => !(d.isAlphanum || decide (d = '_'))) = true := rfl
    exact hother c (by simpa using List.all_eq_true.mp hall c hmem) rfl
  rw [tokens.eq_def]
  dsimp only
  rw [if_neg (hother '\\' (by decide)), if_neg (hother '+' (by decide)), if_neg hmeta]

lemma tokens_special {c : Char} {text : Text} (hc : Special c) :
    tokens 0 ('\\' :: c :: text) = (tokens 0 text).map (.atom (char c) :: ·) := by
  rw [tokens, if_pos rfl, if_neg hc.letter, if_neg hc.digit, if_neg (by simp [hc.word]), tokens]

lemma tokens_null {text : Text} :
    tokens 0 ('\\' :: '0' :: text) = (tokens (octalDigits text).length text).map
      (.atom (char (octalChar (octalDigits text))) :: ·) := by
  rw [tokens, if_pos rfl, if_neg (by decide), if_pos rfl, Nat.add_comm, tokens]

lemma tokens_rewritten {skip : ℕ} {str : Text} (h : ∀ c ∈ str.take skip, isOctal c = true) :
    tokens skip (str.flatMap rewritten) = some ((meant skip str).flatMap markTokens) := by
  induction str generalizing skip with
  | nil => cases skip <;> rfl
  | cons c str ih =>
    rw [List.flatMap_cons]
    cases skip with
    | succ skip =>
      rw [rewritten_octal (h c (by simp)), List.singleton_append, tokens, meant]
      exact ih fun d hd => h d (by rw [List.take_succ_cons]; exact List.mem_cons_of_mem _ hd)
    | zero =>
      have hrest : tokens 0 (str.flatMap rewritten) = some ((meant 0 str).flatMap markTokens) :=
        ih (by simp)
      rw [meant]
      by_cases hspace : c = ' '
      · rw [if_pos hspace, rewritten, if_pos hspace, List.flatMap_cons]
        have hmore : tokens 0 (['\\', 's', '+'] ++ str.flatMap rewritten) =
            ((tokens 0 (str.flatMap rewritten)).map (.plus :: ·)).map
              (.atom (oneOf spaces) :: ·) := rfl
        rw [hmore, hrest]
        rfl
      rw [if_neg hspace, rewritten, if_neg hspace, escapeChar]
      by_cases hnul : c = '\x00'
      · rw [if_pos hnul, if_pos hnul]
        have hnull : ['\\', '0'] ++ str.flatMap rewritten = '\\' :: '0' :: str.flatMap rewritten :=
          rfl
        rw [hnull, tokens_null, octalDigits_rewritten, ih octal_of_take, List.flatMap_cons]
        rfl
      rw [if_neg hnul, if_neg hnul, List.flatMap_cons]
      split_ifs with hword
      · rw [List.singleton_append, tokens_word (by simpa using hword), hrest]
        rfl
      · have hspecial : Special c := by
          rw [Bool.or_eq_true, not_or, Bool.not_eq_true] at hword
          refine ⟨?_, ?_, hword.1⟩
          · rintro rfl
            exact absurd hword.1 (by decide)
          · rintro rfl
            exact absurd hword.1 (by decide)
        have hslash : ['\\', c] ++ str.flatMap rewritten = '\\' :: c :: str.flatMap rewritten := rfl
        rw [hslash, tokens_special hspecial, hrest]
        rfl

lemma pattern_escapePhrase : pattern (escapePhrase s) = some (expression (meant 0 (spaced s))) := by
  rw [pattern, escapePhrase_eq, tokens_rewritten (by simp), Option.bind_some, sequence_marks]

/-! ### Null characters -/

lemma octalDigits_other {c : Char} {text : Text} (hc : isOctal c ≠ true) :
    octalDigits (c :: text) = [] := by
  rw [octalDigits, List.take_succ_cons, List.takeWhile_cons_of_neg hc]

lemma octalDigits_ne_nil {c : Char} {text : Text} (hc : isOctal c = true) :
    octalDigits (c :: text) ≠ [] := by
  rw [octalDigits, List.take_succ_cons, List.takeWhile_cons_of_pos hc]
  exact List.cons_ne_nil _ _

/-- No null character is in front of an octal digit. -/
def NullsApart : Prop := ∀ d, isOctal d = true → ¬['\x00', d] <:+: s

lemma NullsApart.tail {c : Char} {s : Text} (h : NullsApart (c :: s)) : NullsApart s :=
  fun d hd hinside => h d hd (List.infix_cons hinside)

lemma spaced_separator {c : Char} {s : Text} (hc : isSeparator c = true) :
    spaced (c :: s) = ' ' :: spaced (s.dropWhile isSeparator) := by
  rw [spaced, marks_separator hc]
  rfl

lemma spaced_literal {c : Char} {s : Text} (hc : isSeparator c ≠ true) :
    spaced (c :: s) = c :: spaced s := by
  rw [spaced, marks_literal hc]
  rfl

lemma octalDigits_apart {s : Text} (h : NullsApart ('\x00' :: s)) :
    octalDigits (spaced s) = [] := by
  cases s with
  | nil => rfl
  | cons d s =>
    by_cases hd : isSeparator d = true
    · rw [spaced_separator hd]
      exact octalDigits_other (by decide)
    · rw [spaced_literal hd]
      refine octalDigits_other fun hoctal => h d hoctal ?_
      exact ⟨[], s, rfl⟩

lemma meant_spaced {s : Text} (h : NullsApart s) : meant 0 (spaced s) = marks s := by
  induction s with
  | nil => rfl
  | cons c s ih =>
    by_cases hc : isSeparator c = true
    · by_cases hnext : s.head?.any isSeparator = true
      · have hsame : marks (c :: s) = marks s := by rw [marks, if_pos hc, if_pos hnext]
        rw [spaced, hsame]
        exact ih h.tail
      · have hmark : marks (c :: s) = none :: marks s := by rw [marks, if_pos hc, if_neg hnext]
        have hspaced : spaced (c :: s) = ' ' :: spaced s := by
          rw [spaced, hmark]
          rfl
        rw [hspaced, hmark, meant, if_pos rfl, ih h.tail]
    · have hspace : c ≠ ' ' := by
        rintro rfl
        exact hc (by decide)
      rw [spaced_literal hc, marks_literal hc, meant, if_neg hspace]
      by_cases hnul : c = '\x00'
      · subst hnul
        rw [if_pos rfl, octalDigits_apart h, List.length_nil, ih h.tail]
        rfl
      · rw [if_neg hnul, ih h.tail]

lemma length_meant {skip : ℕ} {str : Text} (h : skip ≤ str.length) :
    (meant skip str).length + skip ≤ str.length := by
  induction str generalizing skip with
  | nil => simpa [meant] using h
  | cons c str ih =>
    cases skip with
    | succ skip =>
      have hskip := ih (by simpa using h)
      rw [meant, List.length_cons]
      omega
    | zero =>
      have hzero : (meant 0 str).length + 0 ≤ str.length := ih (Nat.zero_le _)
      have hdigits := ih (octalDigits_starts str).length_le
      rw [meant]
      split_ifs
      · rw [List.length_cons, List.length_cons]
        omega
      · rw [List.length_cons, List.length_cons]
        omega
      · rw [List.length_cons, List.length_cons]
        omega

lemma length_meant_lt {str : Text} {d : Char} (hd : isOctal d = true)
    (h : ['\x00', d] <:+: str) : (meant 0 str).length < str.length := by
  induction str with
  | nil => exact absurd h (by simp)
  | cons c str ih =>
    have hzero := length_meant (Nat.zero_le str.length)
    have hdigits := length_meant (octalDigits_starts str).length_le
    by_cases hempty : octalDigits str = [] ∨ c ≠ '\x00'
    · have hinside : ['\x00', d] <:+: str := by
        rcases List.infix_cons_iff.mp h with hstart | hinside
        · obtain ⟨rest, hrest⟩ := hstart
          obtain ⟨rfl, rfl⟩ := List.cons.inj hrest
          exact absurd hempty (by simpa using octalDigits_ne_nil hd)
        · exact hinside
      have hlt := ih hinside
      rw [meant]
      split_ifs with hspace hnul
      · rw [List.length_cons, List.length_cons]
        omega
      · have hnone := hempty.resolve_right (by simpa using hnul)
        rw [hnone, List.length_cons, List.length_cons, List.length_nil]
        omega
      · rw [List.length_cons, List.length_cons]
        omega
    · rw [not_or, not_not] at hempty
      have hpos := List.length_pos_of_ne_nil hempty.1
      rw [meant, if_neg (by rw [hempty.2]; decide), if_pos hempty.2, List.length_cons,
        List.length_cons]
      omega

/-! ### What the marks tell -/

section marks

variable {s t : Text}

lemma marks_append_literal (s : Text) {c : Char} {t : Text} (hc : isSeparator c ≠ true) :
    marks (s ++ c :: t) = marks s ++ marks (c :: t) := by
  induction s with
  | nil => rfl
  | cons x s ih =>
    have hhead : (s ++ c :: t).head?.any isSeparator = s.head?.any isSeparator := by
      cases s with
      | nil => simpa using hc
      | cons y s => rfl
    rw [List.cons_append, marks, marks, hhead, ih]
    split_ifs <;> rfl

lemma length_marks_le (s : Text) : (marks s).length ≤ s.length := by
  induction s with
  | nil => exact le_rfl
  | cons c s ih =>
    rw [marks, List.length_cons]
    split_ifs
    · omega
    · rw [List.length_cons]
      omega
    · rw [List.length_cons]
      omega

lemma marks_head (s : Text) : (marks s).head? = some none ↔ s.head?.any isSeparator = true := by
  cases s with
  | nil => simp [marks]
  | cons c s =>
    by_cases hc : isSeparator c = true
    · simp [marks_separator hc, hc]
    · simp [marks_literal hc, hc]

lemma marks_ne_nil (hs : s ≠ []) : marks s ≠ [] := by
  obtain ⟨c, s, rfl⟩ := List.exists_cons_of_ne_nil hs
  by_cases hc : isSeparator c = true
  · rw [marks_separator hc]
    exact List.cons_ne_nil _ _
  · rw [marks_literal hc]
    exact List.cons_ne_nil _ _

lemma marks_getLast (s : Text) :
    (marks s).getLast? = some none ↔ s.getLast?.any isSeparator = true := by
  induction s with
  | nil => simp [marks]
  | cons c s ih =>
    by_cases hs : s = []
    · subst hs
      by_cases hc : isSeparator c = true
      · simp [marks, hc]
      · simp [marks, hc]
    · have hlast : (marks (c :: s)).getLast? = (marks s).getLast? := by
        obtain ⟨m, ms, hms⟩ := List.exists_cons_of_ne_nil (marks_ne_nil hs)
        rw [marks, hms]
        split_ifs
        · rfl
        · exact List.getLast?_cons_cons
        · exact List.getLast?_cons_cons
      obtain ⟨d, t, rfl⟩ := List.exists_cons_of_ne_nil hs
      rw [hlast, ih, List.getLast?_cons_cons]

lemma marks_literals (s : Text) : (marks s).filterMap id = s.filter fun c => !isSeparator c := by
  induction s with
  | nil => rfl
  | cons c s ih =>
    rw [marks]
    split_ifs with hc hnext
    · rw [ih, List.filter_cons_of_neg (by simp [hc])]
    · rw [List.filterMap_cons_none rfl, ih, List.filter_cons_of_neg (by simp [hc])]
    · have hsome : (some c :: marks s).filterMap id = c :: (marks s).filterMap id := rfl
      rw [hsome, ih, List.filter_cons_of_pos (by simpa using hc)]

lemma marks_before (hs : ∀ c ∈ s, isSeparator c = true)
    (ht : s ≠ [] → t.head?.any isSeparator = true) : marks (s ++ t) = marks t := by
  induction s with
  | nil => rfl
  | cons c s ih =>
    have hhead : (s ++ t).head?.any isSeparator = true := by
      cases s with
      | nil => exact ht (List.cons_ne_nil _ _)
      | cons d s => exact hs d (by simp)
    rw [List.cons_append, marks, if_pos (hs c List.mem_cons_self), if_pos hhead]
    exact ih (fun d hd => hs d (List.mem_cons_of_mem _ hd)) fun _ => ht (List.cons_ne_nil _ _)

lemma marks_behind (ht : ∀ c ∈ t, isSeparator c = true)
    (hs : t ≠ [] → s.getLast?.any isSeparator = true) : marks (s ++ t) = marks s := by
  induction s with
  | nil =>
    cases t with
    | nil => rfl
    | cons c t => exact absurd (hs (List.cons_ne_nil _ _)) (by simp)
  | cons c s ih =>
    cases s with
    | nil =>
      by_cases hc : isSeparator c = true
      · rw [List.singleton_append, marks_separator hc, marks_separator hc,
          List.dropWhile_eq_nil_iff.mpr ht]
        rfl
      · cases t with
        | nil => rfl
        | cons d t => exact absurd (hs (List.cons_ne_nil _ _)) (by simpa using hc)
    | cons d s =>
      have hsame := ih fun hne => by simpa using hs hne
      rw [List.cons_append, marks, hsame, marks]
      rfl

lemma marks_run (hs : ∀ c ∈ s, isSeparator c = true) (hne : s ≠ [])
    (ht : t.head?.any isSeparator ≠ true) : marks (s ++ t) = none :: marks t := by
  obtain ⟨c, s, rfl⟩ := List.exists_cons_of_ne_nil hne
  have hdrop : (s ++ t).dropWhile isSeparator = t := by
    rw [List.dropWhile_append_of_pos fun d hd => hs d (List.mem_cons_of_mem _ hd)]
    cases t with
    | nil => rfl
    | cons d t => exact List.dropWhile_cons_of_neg (by simpa using ht)
  rw [List.cons_append, marks_separator (hs c List.mem_cons_self), hdrop]

end marks

/-! ### What the expression finds -/

section found

variable {s text : Text}

lemma separator_of_space {c : Char} (hc : isSpace c = true) : isSeparator c = true := by
  rw [isSeparator, hc, Bool.true_or]

lemma space_of_separator {c : Char} (hc : isSeparator c = true) (hne : c ≠ '_') :
    isSpace c = true := by
  rw [isSeparator, Bool.or_eq_true, decide_eq_true_eq] at hc
  exact hc.resolve_right hne

lemma marks_of_mem (h : text ∈ (expression (marks s)).matches') :
    marks text = marks s ∧ '_' ∉ text := by
  induction s generalizing text with
  | nil =>
    rw [marks, mem_expression_nil] at h
    rw [h]
    exact ⟨rfl, List.not_mem_nil⟩
  | cons c s ih =>
    rw [marks] at h ⊢
    split_ifs at h ⊢ with hc hnext
    · exact ih h
    · obtain ⟨run, rest, hne, hrun, hrest, rfl⟩ := mem_expression_none.mp h
      obtain ⟨hmarks, hunderscore⟩ := ih hrest
      have hhead : rest.head?.any isSeparator ≠ true := by
        rwa [Ne, ← marks_head, hmarks, marks_head]
      refine ⟨?_, fun hmem => ?_⟩
      · rw [marks_run (fun d hd => separator_of_space (hrun d hd)) hne hhead, hmarks]
      · rcases List.mem_append.mp hmem with hmem | hmem
        · exact absurd (hrun _ hmem) (by decide)
        · exact hunderscore hmem
    · obtain ⟨rest, hrest, rfl⟩ := mem_expression_some.mp h
      obtain ⟨hmarks, hunderscore⟩ := ih hrest
      refine ⟨by rw [marks_literal hc, hmarks], fun hmem => ?_⟩
      rcases List.mem_cons.mp hmem with rfl | hmem
      · exact hc (by decide)
      · exact hunderscore hmem

lemma mem_of_marks (h : '_' ∉ text) : text ∈ (expression (marks text)).matches' := by
  induction text with
  | nil => exact mem_expression_nil.mpr rfl
  | cons c text ih =>
    have hrest := ih fun hmem => h (List.mem_cons_of_mem _ hmem)
    have hne : c ≠ '_' := fun heq => h (heq ▸ List.mem_cons_self)
    rw [marks]
    split_ifs with hc hnext
    · obtain ⟨d, text, rfl⟩ : ∃ d rest, text = d :: rest := by
        cases text with
        | nil => exact absurd hnext (by simp)
        | cons d text => exact ⟨d, text, rfl⟩
      have hd : isSeparator d = true := by simpa using hnext
      have hmarks : marks (d :: text) = none :: marks (text.dropWhile isSeparator) :=
        marks_separator hd
      rw [hmarks] at hrest ⊢
      obtain ⟨run, rest, -, hrun, hmem, htext⟩ := mem_expression_none.mp hrest
      refine mem_expression_none.mpr ⟨c :: run, rest, List.cons_ne_nil _ _, ?_, hmem, ?_⟩
      · rintro x hx
        rcases List.mem_cons.mp hx with rfl | hx
        · exact space_of_separator hc hne
        · exact hrun x hx
      · rw [htext]
        rfl
    · refine mem_expression_none.mpr ⟨[c], text, List.cons_ne_nil _ _, ?_, hrest, rfl⟩
      rintro x hx
      rw [List.mem_singleton.mp hx]
      exact space_of_separator hc hne
    · exact mem_expression_some.mpr ⟨text, hrest, rfl⟩

lemma sample_mem (ms : List (Option Char)) :
    ms.map (fun m => m.getD ' ') ∈ (expression ms).matches' := by
  induction ms with
  | nil => exact mem_expression_nil.mpr rfl
  | cons m ms ih =>
    cases m with
    | none =>
      refine mem_expression_none.mpr ⟨[' '], _, List.cons_ne_nil _ _, ?_, ih, rfl⟩
      rintro x hx
      rw [List.mem_singleton.mp hx]
      decide
    | some c => exact mem_expression_some.mpr ⟨_, ih, rfl⟩

end found

/-- Each underscore of the phrase is either before whitespace at its beginning or behind whitespace
at its end, with nothing but whitespace and underscores further out. -/
def UnderscoresOutside : Prop :=
  ∃ before core behind, s = before ++ core ++ behind ∧ '_' ∉ core ∧
    (∀ c ∈ before, isSeparator c = true) ∧ (∀ c ∈ behind, isSeparator c = true) ∧
    (before ≠ [] → core.head?.any isSpace = true) ∧
    (behind ≠ [] → core.getLast?.any isSpace = true)

section

variable {s : Text}

lemma marks_core (h : UnderscoresOutside s) :
    ∃ core, core <:+: s ∧ core ∈ (expression (marks s)).matches' := by
  obtain ⟨before, core, behind, rfl, hunderscore, hbefore, hbehind, hhead, hlast⟩ := h
  refine ⟨core, ⟨before, behind, rfl⟩, ?_⟩
  have hany : ∀ {o : Option Char}, o.any isSpace = true → o.any isSeparator = true := by
    intro o ho
    cases o with
    | none => exact ho
    | some c => exact separator_of_space ho
  have hmarks : marks (before ++ core ++ behind) = marks core := by
    rw [List.append_assoc, marks_before hbefore, marks_behind hbehind]
    · exact fun hne => hany (hlast hne)
    · intro hne
      have hcore := hhead hne
      cases core with
      | nil => exact absurd hcore (by simp)
      | cons c core => exact hany hcore
  rw [hmarks]
  exact mem_of_marks hunderscore

lemma outside_of_core {core : Text} (hinside : core <:+: s)
    (hcore : core ∈ (expression (marks s)).matches') : UnderscoresOutside s := by
  obtain ⟨hmarks, hunderscore⟩ := marks_of_mem hcore
  obtain ⟨before, behind, rfl⟩ := hinside
  have hliterals := congrArg (List.filterMap id) hmarks
  rw [marks_literals, marks_literals, List.filter_append, List.filter_append] at hliterals
  have hlength := congrArg List.length hliterals
  rw [List.length_append, List.length_append] at hlength
  have hnone : ∀ {part : Text}, (part.filter fun c => !isSeparator c).length = 0 →
      ∀ c ∈ part, isSeparator c = true := by
    intro part hpart c hc
    have hnil := List.filter_eq_nil_iff.mp (List.length_eq_zero_iff.mp hpart) c hc
    simpa using hnil
  have hbefore : ∀ c ∈ before, isSeparator c = true := hnone (by omega)
  have hbehind : ∀ c ∈ behind, isSeparator c = true := hnone (by omega)
  have hspace : ∀ {o : Option Char}, (∀ c ∈ o, c ∈ core) → o.any isSeparator = true →
      o.any isSpace = true := by
    intro o hmem ho
    cases o with
    | none => exact ho
    | some c =>
      refine space_of_separator ho ?_
      rintro rfl
      exact hunderscore (hmem _ rfl)
  refine ⟨before, core, behind, rfl, hunderscore, hbefore, hbehind, fun hne => ?_, fun hne => ?_⟩
  · refine hspace (fun c hc => List.mem_of_mem_head? hc) ?_
    rw [← marks_head, hmarks, marks_head]
    obtain ⟨c, rest, rfl⟩ := List.exists_cons_of_ne_nil hne
    exact hbefore c List.mem_cons_self
  · refine hspace (fun c hc => List.mem_of_getLast? hc) ?_
    rw [← marks_getLast, hmarks, marks_getLast]
    obtain ⟨init, c, rfl⟩ := (List.eq_nil_or_concat' behind).resolve_left hne
    rw [← List.append_assoc, List.getLast?_append, List.getLast?_singleton]
    exact hbehind c (by simp)

lemma apart_of_sound (h : ∀ text, Found (expression (meant 0 (spaced s))) text →
    ∃ part, part <:+: text ∧ marks part = marks s) : NullsApart s := by
  intro d hd hinside
  have hspaced : ['\x00', d] <:+: spaced s := by
    obtain ⟨before, behind, rfl⟩ := hinside
    have hliteral : isSeparator d ≠ true := by
      intro hsep
      rw [isSeparator, Bool.or_eq_true, isSpace, decide_eq_true_eq, decide_eq_true_eq] at hsep
      have hall : ('_' :: spaces).all (fun c => !isOctal c) = true := rfl
      have hfalse := List.all_eq_true.mp hall d (List.mem_cons.mpr hsep.symm)
      rw [hd] at hfalse
      cases hfalse
    have hmarks : marks (before ++ ['\x00', d] ++ behind) =
        marks before ++ some '\x00' :: some d :: marks behind := by
      have hnul : isSeparator '\x00' ≠ true := by decide
      rw [List.append_assoc, List.cons_append, List.singleton_append,
        marks_append_literal before hnul, marks_literal hnul, marks_literal hliteral]
    refine ⟨spaced before, spaced behind, ?_⟩
    rw [spaced, spaced, spaced, hmarks, List.map_append, List.append_assoc]
    rfl
  obtain ⟨part, hpart, hmarks⟩ := h _ ⟨_, List.infix_refl _, sample_mem _⟩
  have hlt := length_meant_lt hd hspaced
  have hle := hpart.length_le
  have hmarksle := length_marks_le part
  rw [hmarks] at hmarksle
  rw [List.length_map] at hle
  have hspacedlen : (spaced s).length = (marks s).length := List.length_map _
  omega

end

/-- **The search for a phrase** is right just if no underscore is inside it and no digit behind a
null character. -/
theorem escapePhrase_searches_iff (s : Text) :
    (∃ r, pattern (escapePhrase s) = some r ∧ Searches s r) ↔
      UnderscoresOutside s ∧ NullsApart s := by
  rw [pattern_escapePhrase]
  constructor
  · rintro ⟨r, hr, hsearch⟩
    obtain rfl := Option.some.inj hr
    have hapart := apart_of_sound hsearch.sound
    obtain ⟨core, hinside, hcore⟩ := hsearch.complete s (List.infix_refl s)
    rw [meant_spaced hapart] at hcore
    exact ⟨outside_of_core hinside hcore, hapart⟩
  · rintro ⟨houtside, hapart⟩
    refine ⟨_, rfl, ?_, ?_⟩
    · intro text htext
      obtain ⟨core, hinside, hcore⟩ := marks_core houtside
      rw [meant_spaced hapart]
      exact ⟨core, hinside.trans htext, hcore⟩
    · rintro text ⟨part, hpart, hmem⟩
      rw [meant_spaced hapart] at hmem
      exact ⟨part, hpart, (marks_of_mem hmem).1⟩

/-- An underscore between two words is not found in the text it has been copied from. -/
theorem underscore_not_found :
    ¬∃ r, pattern (escapePhrase ['a', '_', 'b']) = some r ∧ Searches ['a', '_', 'b'] r := by
  rintro ⟨r, hr, hsearch⟩
  rw [pattern_escapePhrase] at hr
  obtain rfl := Option.some.inj hr
  obtain ⟨part, hinside, hmem⟩ := hsearch.complete _ (List.infix_refl _)
  obtain ⟨hmarks, hunderscore⟩ := marks_of_mem (s := ['a', '_', 'b']) hmem
  have hall : ∀ part ∈ ['a', '_', 'b'].sublists, marks part = marks ['a', '_', 'b'] →
      '_' ∈ part := by decide
  exact hunderscore (hall part (List.mem_sublists.mpr hinside.sublist) hmarks)

end KioExtras.FileNameSearch.EscapePhrase
