import KioExtras.FileNameSearch.EscapePhrase

/-!
Searching for a list of words: `escapeApostrophes` tells apostrophes from quotes, `splitWordList`
makes the terms of what it leaves, and a file is found that has all of them.
-/

namespace KioExtras.FileNameSearch.WordList

open KioExtras.FileNameSearch.EscapePhrase (Text escapePhrase)

variable (c : Char)

/-- `QChar::isSpace` -/
def isSpace : Bool :=
  (9 ≤ c.toNat && c.toNat ≤ 13) || (0x2000 ≤ c.toNat && c.toNat ≤ 0x200a) ||
    [0x20, 0x85, 0xa0, 0x1680, 0x2028, 0x2029, 0x202f, 0x205f, 0x3000].contains c.toNat

def isSeparator : Bool := isSpace c || decide (c = '_')

/-! ### Apostrophes -/

structure Scan where
  escaped : Bool
  seenSpace : Bool
  seenApostrophe : Bool
  countSingleQuotes : ℕ
  escapedPattern : Text

namespace Scan

variable (s : Scan)

def isEvenNumberOfQuotes : Bool := s.countSingleQuotes % 2 = 0

def append (text : Text) : Scan := { s with escapedPattern := s.escapedPattern ++ text }

def treatQuoteAsQuote (c : Char) : Scan :=
  let s := if s.seenApostrophe then
    { s.append ['\''] with
      countSingleQuotes := s.countSingleQuotes + 1
      seenApostrophe := false }
    else s
  s.append [c]

def treatQuoteAsApostrophe (c : Char) : Scan :=
  let s := if s.seenApostrophe then { s.append ['\\', '\''] with seenApostrophe := false } else s
  s.append [c]

def step (c : Char) : Scan :=
  if s.escaped then
    { s.append [c] with
      escaped := false
      seenSpace := isSeparator c
      seenApostrophe := false }
  else if c = '\\' then { s.treatQuoteAsApostrophe c with escaped := true }
  else if c = '\'' then
    if !s.seenSpace && !s.seenApostrophe then { s with seenApostrophe := true }
    else { s.append ['\''] with countSingleQuotes := s.countSingleQuotes + 1 }
  else if isSeparator c then
    { if s.isEvenNumberOfQuotes then s.treatQuoteAsApostrophe c else s.treatQuoteAsQuote c with
      seenSpace := true }
  else { s.treatQuoteAsApostrophe c with seenSpace := false }

def finish : Text :=
  if s.seenApostrophe then
    s.escapedPattern ++ if s.isEvenNumberOfQuotes then ['\\', '\''] else ['\'']
  else s.escapedPattern

end Scan

def escapeApostrophes (pattern : Text) : Text :=
  (pattern.foldl Scan.step ⟨false, true, false, 0, []⟩).finish

/-! ### Terms -/

structure Split where
  inSingleQuotes : Bool
  inDoubleQuotes : Bool
  escaped : Bool
  splitTerm : Text
  wordList : List Text

namespace Split

def addTerm (s : Split) (term : Text) : Split :=
  if term ≠ [] then { s with wordList := s.wordList ++ [term], splitTerm := [] } else s

/-- The loop over the escaped pattern. What is done to a phrase before it becomes a term is a
parameter. -/
def step (escape : Text → Text) (s : Split) (c : Char) : Split :=
  if s.escaped then { s with splitTerm := s.splitTerm ++ [c], escaped := false }
  else if c = '\\' then { s with escaped := true }
  else if c = '\'' ∧ s.inDoubleQuotes = false then
    let s := if s.inSingleQuotes then s.addTerm (escape s.splitTerm) else s
    { s with inSingleQuotes := !s.inSingleQuotes }
  else if c = '"' ∧ s.inSingleQuotes = false then
    let s := if s.inDoubleQuotes then s.addTerm (escape s.splitTerm) else s
    { s with inDoubleQuotes := !s.inDoubleQuotes }
  else if isSpace c = true ∧ s.inSingleQuotes = false ∧ s.inDoubleQuotes = false then
    if s.splitTerm ≠ [] then
      { s with splitTerm := escape s.splitTerm }.addTerm (escape s.splitTerm)
    else s
  else { s with splitTerm := s.splitTerm ++ [c] }

def finish (escape : Text → Text) (s : Split) : List Text :=
  (if s.splitTerm ≠ [] then s.addTerm (escape s.splitTerm) else s).wordList

end Split

def terms (escape : Text → Text) (escapedPattern : Text) : List Text :=
  (escapedPattern.foldl (Split.step escape) ⟨false, false, false, [], []⟩).finish escape

def splitWordList (pattern : Text) : List Text := terms escapePhrase (escapeApostrophes pattern)

def phrases (pattern : Text) : List Text := terms id (escapeApostrophes pattern)

/-! ### What a pattern says -/

/-- Where a character stands. -/
inductive Quotes
  | outside
  | single
  | double
  deriving DecidableEq

variable (q : Quotes)

def Quotes.turn (mark : Quotes) : Quotes := if q = mark then .outside else mark

/-- Behind a single quote no word goes on. -/
def Ends (rest : Text) : Prop := ∀ c ∈ rest.head?, isSeparator c = true ∨ c = '\''

/-- How a pattern is read: what is in front of it, a separator or none, and what is kept of it,
which is all but the whitespace outside quotes, the quotes and the escapes. An apostrophe inside a
word is no quote, one at the beginning of a word is one. -/
inductive Reads : Quotes → Bool → Text → Text → Prop
  | nil {q b} : Reads q b [] []
  | backslash {q b} : Reads q b ['\\'] []
  | escape {q b c rest kept} : Reads q (isSeparator c) rest kept →
      Reads q b ('\\' :: c :: rest) (c :: kept)
  | singleQuote {q b rest kept} : q ≠ .double → b = true ∨ Ends rest →
      Reads (q.turn .single) b rest kept → Reads q b ('\'' :: rest) kept
  | apostrophe {q b rest kept} : b = false ∨ q = .double → Reads q b rest kept →
      Reads q b ('\'' :: rest) ('\'' :: kept)
  | doubleQuote {q b rest kept} : q ≠ .single → Reads (q.turn .double) false rest kept →
      Reads q b ('"' :: rest) kept
  | space {b c rest kept} : isSpace c = true → Reads .outside true rest kept →
      Reads .outside b (c :: rest) kept
  | plain {q b c rest kept} : c ≠ '\\' → c ≠ '\'' → (c = '"' → q = .single) →
      (isSpace c = true → q ≠ .outside) → Reads q (isSeparator c) rest kept →
      Reads q b (c :: rest) (c :: kept)

/-- There are no double quotes and no backslashes, and a single quote is behind a character that
may be in a word. -/
def Unquoted : Bool → Text → Bool
  | _, [] => true
  | inWord, c :: rest =>
    c ≠ '"' && c ≠ '\\' && (c ≠ '\'' || inWord) && Unquoted (!isSeparator c && c ≠ '\'') rest

def words (pattern : Text) : List Text := (pattern.splitOnP isSpace).filter (· ≠ [])

/-! ### The escaped pattern -/

section behind

/-- A scan whose text has begun before. -/
def Scan.behind (text : Text) (s : Scan) : Scan :=
  { s with escapedPattern := text ++ s.escapedPattern }

variable (text : Text) (s : Scan) (c : Char)

@[simp] lemma behind_escaped : (s.behind text).escaped = s.escaped := rfl
@[simp] lemma behind_seenSpace : (s.behind text).seenSpace = s.seenSpace := rfl
@[simp] lemma behind_seenApostrophe : (s.behind text).seenApostrophe = s.seenApostrophe := rfl
@[simp] lemma behind_isEvenNumberOfQuotes :
    (s.behind text).isEvenNumberOfQuotes = s.isEvenNumberOfQuotes := rfl

@[simp] lemma append_behind (more : Text) :
    (s.behind text).append more = (s.append more).behind text := by
  simp [Scan.append, Scan.behind]

@[simp] lemma treatQuoteAsQuote_behind :
    (s.behind text).treatQuoteAsQuote c = (s.treatQuoteAsQuote c).behind text := by
  unfold Scan.treatQuoteAsQuote
  rw [behind_seenApostrophe]
  split_ifs
  · simp [Scan.append, Scan.behind]
  · exact append_behind text s [c]

@[simp] lemma treatQuoteAsApostrophe_behind :
    (s.behind text).treatQuoteAsApostrophe c = (s.treatQuoteAsApostrophe c).behind text := by
  unfold Scan.treatQuoteAsApostrophe
  rw [behind_seenApostrophe]
  split_ifs
  · simp [Scan.append, Scan.behind]
  · exact append_behind text s [c]

lemma step_behind : (s.behind text).step c = (s.step c).behind text := by
  unfold Scan.step
  rw [behind_escaped, behind_seenSpace, behind_seenApostrophe, behind_isEvenNumberOfQuotes,
    append_behind, append_behind, treatQuoteAsQuote_behind, treatQuoteAsApostrophe_behind]
  split_ifs <;> rfl

lemma finish_behind : (s.behind text).finish = text ++ s.finish := by
  unfold Scan.finish
  rw [behind_seenApostrophe, behind_isEvenNumberOfQuotes]
  split_ifs
  · exact List.append_assoc ..
  · exact List.append_assoc ..
  · rfl

end behind

/-- What the scan adds for the rest of a pattern. -/
def emitted (escaped seenSpace seenApostrophe : Bool) (n : ℕ) (pattern : Text) : Text :=
  (pattern.foldl Scan.step ⟨escaped, seenSpace, seenApostrophe, n, []⟩).finish

lemma foldl_behind (text pattern : Text) (s : Scan) :
    (pattern.foldl Scan.step (s.behind text)).finish =
      text ++ (pattern.foldl Scan.step s).finish := by
  induction pattern generalizing s with
  | nil => exact finish_behind text s
  | cons c pattern ih => rw [List.foldl_cons, step_behind, ih, List.foldl_cons]

lemma emitted_cons {escaped seenSpace seenApostrophe : Bool} {n : ℕ} {c : Char} {pattern : Text}
    {t : Scan} (h : Scan.step ⟨escaped, seenSpace, seenApostrophe, n, []⟩ c = t) :
    emitted escaped seenSpace seenApostrophe n (c :: pattern) = t.escapedPattern ++
      emitted t.escaped t.seenSpace t.seenApostrophe t.countSingleQuotes pattern := by
  have ht : Scan.behind t.escapedPattern
      ⟨t.escaped, t.seenSpace, t.seenApostrophe, t.countSingleQuotes, []⟩ = t := by
    simp [Scan.behind]
  have hrun := foldl_behind t.escapedPattern pattern
    ⟨t.escaped, t.seenSpace, t.seenApostrophe, t.countSingleQuotes, []⟩
  rw [ht] at hrun
  rw [emitted, List.foldl_cons, h]
  exact hrun

section emitted

variable {seenSpace seenApostrophe : Bool} {n : ℕ} {c : Char} {pattern : Text}

def putOff (seenApostrophe asQuote : Bool) : Text :=
  if seenApostrophe then if asQuote then ['\''] else ['\\', '\''] else []

lemma emitted_escaped : emitted true seenSpace false n (c :: pattern) =
    c :: emitted false (isSeparator c) false n pattern :=
  emitted_cons rfl

lemma emitted_backslash : emitted false seenSpace seenApostrophe n ('\\' :: pattern) =
    putOff seenApostrophe false ++ '\\' :: emitted true seenSpace false n pattern := by
  cases seenApostrophe <;> exact emitted_cons rfl

lemma emitted_apostrophe : emitted false false false n ('\'' :: pattern) =
    emitted false false true n pattern :=
  emitted_cons rfl

lemma emitted_quote (h : seenSpace = true ∨ seenApostrophe = true) :
    emitted false seenSpace seenApostrophe n ('\'' :: pattern) =
      '\'' :: emitted false seenSpace seenApostrophe (n + 1) pattern := by
  refine emitted_cons (t := ⟨false, seenSpace, seenApostrophe, n + 1, ['\'']⟩) ?_
  rcases h with rfl | rfl <;> simp [Scan.step, Scan.append]

lemma emitted_other (hslash : c ≠ '\\') (hquote : c ≠ '\'') : ∃ asQuote n',
    (asQuote = true → isSeparator c = true ∧ n % 2 = 1) ∧ (asQuote = false → n' = n) ∧
      emitted false seenSpace seenApostrophe n (c :: pattern) =
        putOff seenApostrophe asQuote ++ c :: emitted false (isSeparator c) false n' pattern := by
  have hemitted : ∀ {asQuote n'}, Scan.step ⟨false, seenSpace, seenApostrophe, n, []⟩ c =
      ⟨false, isSeparator c, false, n', putOff seenApostrophe asQuote ++ [c]⟩ →
      emitted false seenSpace seenApostrophe n (c :: pattern) =
        putOff seenApostrophe asQuote ++ c :: emitted false (isSeparator c) false n' pattern := by
    intro asQuote n' h
    rw [emitted_cons h, List.append_assoc]
    rfl
  by_cases hsep : isSeparator c = true
  · by_cases heven : n % 2 = 0
    · refine ⟨false, n, by simp, fun _ => rfl, hemitted ?_⟩
      cases seenApostrophe <;>
        simp [Scan.step, Scan.isEvenNumberOfQuotes, Scan.treatQuoteAsApostrophe, Scan.append,
          putOff, hslash, hquote, hsep, heven]
    · refine ⟨true, if seenApostrophe then n + 1 else n, fun _ => ⟨hsep, by omega⟩, by simp,
        hemitted ?_⟩
      cases seenApostrophe <;>
        simp [Scan.step, Scan.isEvenNumberOfQuotes, Scan.treatQuoteAsQuote, Scan.append,
          putOff, hslash, hquote, hsep, heven]
  · refine ⟨false, n, by simp, fun _ => rfl, hemitted ?_⟩
    cases seenApostrophe <;>
      simp [Scan.step, Scan.treatQuoteAsApostrophe, Scan.append, putOff, hslash, hquote, hsep]

lemma emitted_even (hslash : c ≠ '\\') (hquote : c ≠ '\'') :
    emitted false seenSpace seenApostrophe 0 (c :: pattern) =
      putOff seenApostrophe false ++ c :: emitted false (isSeparator c) false 0 pattern := by
  obtain ⟨asQuote, n', hasQuote, hn, hemitted⟩ := emitted_other (n := 0) hslash hquote
  obtain rfl : asQuote = false := by
    by_contra hne
    have hodd := (hasQuote (Bool.of_not_eq_false hne)).2
    omega
  rw [hemitted, hn rfl]

lemma emitted_nil : ∃ asQuote, (asQuote = true → n % 2 = 1) ∧
    emitted false seenSpace seenApostrophe n [] = putOff seenApostrophe asQuote := by
  by_cases heven : n % 2 = 0
  · refine ⟨false, by simp, ?_⟩
    cases seenApostrophe <;> simp [emitted, Scan.finish, Scan.isEvenNumberOfQuotes, putOff, heven]
  · refine ⟨true, fun _ => by omega, ?_⟩
    cases seenApostrophe <;> simp [emitted, Scan.finish, Scan.isEvenNumberOfQuotes, putOff, heven]

end emitted

/-! ### What the terms are made of -/

/-- What an unescaped character does to the quotes, and what is kept of it. -/
def taken (c : Char) : Quotes × Text :=
  if c = '\'' ∧ q ≠ .double then (q.turn .single, [])
  else if c = '"' ∧ q ≠ .single then (q.turn .double, [])
  else if isSpace c = true ∧ q = .outside then (q, [])
  else (q, [c])

/-- What is kept of an escaped pattern. -/
def contents : Quotes → Bool → Text → Text
  | _, _, [] => []
  | q, true, c :: text => c :: contents q false text
  | q, false, c :: text =>
    if c = '\\' then contents q true text
    else (taken q c).2 ++ contents (taken q c).1 false text

/-- The loop over the escaped pattern is inside these quotes. -/
structure InQuotes (s : Split) (q : Quotes) : Prop where
  single : s.inSingleQuotes = decide (q = .single)
  double : s.inDoubleQuotes = decide (q = .double)

/-- All that has been kept so far. -/
def Split.total (s : Split) : Text := s.wordList.flatten ++ s.splitTerm

section split

variable {s : Split} {q : Quotes} {c : Char} {text : Text}

lemma addTerm_total (s : Split) : (s.addTerm s.splitTerm).total = s.total := by
  unfold Split.addTerm
  split_ifs with hterm
  · simp [Split.total]
  · rfl

/-- A term ends. -/
def Split.close (s : Split) (ends : Bool) : Split :=
  if ends then s.addTerm s.splitTerm else s

lemma close_keeps (s : Split) (ends : Bool) :
    (s.close ends).inSingleQuotes = s.inSingleQuotes ∧
      (s.close ends).inDoubleQuotes = s.inDoubleQuotes ∧ (s.close ends).escaped = s.escaped ∧
      (s.close ends).total = s.total := by
  cases ends with
  | false => exact ⟨rfl, rfl, rfl, rfl⟩
  | true =>
    have hclose : s.close true = s.addTerm s.splitTerm := rfl
    have htotal := addTerm_total s
    rw [hclose]
    unfold Split.addTerm at htotal ⊢
    split_ifs at htotal ⊢
    · exact ⟨rfl, rfl, rfl, htotal⟩
    · exact ⟨rfl, rfl, rfl, rfl⟩

lemma step_taken (hquotes : InQuotes s q) (hescaped : s.escaped = false) (hc : c ≠ '\\') :
    InQuotes (s.step id c) (taken q c).1 ∧ (s.step id c).escaped = false ∧
      (s.step id c).total = s.total ++ (taken q c).2 := by
  unfold Split.step taken
  rw [if_neg (ne_true_of_eq_false hescaped), if_neg hc]
  have hsingle : s.inSingleQuotes = false ↔ q ≠ .single := by rw [hquotes.single]; simp
  have hdouble : s.inDoubleQuotes = false ↔ q ≠ .double := by rw [hquotes.double]; simp
  by_cases hquote : c = '\'' ∧ q ≠ .double
  · obtain ⟨hs, hd, he, ht⟩ := close_keeps s s.inSingleQuotes
    rw [if_pos hquote, if_pos ⟨hquote.1, hdouble.mpr hquote.2⟩]
    refine ⟨⟨(congrArg (!·) (hs.trans hquotes.single)).trans ?_,
      hd.trans (hquotes.double.trans ?_)⟩, he.trans hescaped,
      ht.trans (List.append_nil _).symm⟩
    · cases q <;> simp [Quotes.turn]
    · have hq := hquote.2
      cases q <;> simp_all [Quotes.turn]
  rw [if_neg hquote, if_neg (by rwa [hdouble])]
  by_cases hquote : c = '"' ∧ q ≠ .single
  · obtain ⟨hs, hd, he, ht⟩ := close_keeps s s.inDoubleQuotes
    rw [if_pos hquote, if_pos ⟨hquote.1, hsingle.mpr hquote.2⟩]
    refine ⟨⟨hs.trans (hquotes.single.trans ?_),
      (congrArg (!·) (hd.trans hquotes.double)).trans ?_⟩, he.trans hescaped,
      ht.trans (List.append_nil _).symm⟩
    · have hq := hquote.2
      cases q <;> simp_all [Quotes.turn]
    · cases q <;> simp [Quotes.turn]
  rw [if_neg hquote, if_neg (by rwa [hsingle])]
  have houtside : s.inSingleQuotes = false ∧ s.inDoubleQuotes = false ↔ q = .outside := by
    rw [hsingle, hdouble]
    cases q <;> simp
  by_cases hspace : isSpace c = true ∧ q = .outside
  · rw [if_pos hspace, if_pos ⟨hspace.1, houtside.mpr hspace.2⟩]
    obtain ⟨hs, hd, he, ht⟩ := close_keeps s true
    split_ifs with hterm
    · exact ⟨⟨hs.trans hquotes.single, hd.trans hquotes.double⟩, he.trans hescaped,
        ht.trans (List.append_nil _).symm⟩
    · exact ⟨hquotes, hescaped, (List.append_nil _).symm⟩
  · rw [if_neg hspace, if_neg (by rwa [houtside])]
    exact ⟨⟨hquotes.single, hquotes.double⟩, hescaped, by simp [Split.total]⟩

/-- **The terms** have what is kept, in the order in which it is read. -/
lemma foldl_contents (hquotes : InQuotes s q) :
    ((text.foldl (Split.step id) s).finish id).flatten = s.total ++ contents q s.escaped text := by
  induction text generalizing s q with
  | nil =>
    have hfinish : s.finish id =
        (if s.splitTerm ≠ [] then s.addTerm s.splitTerm else s).wordList := rfl
    rw [List.foldl_nil, hfinish]
    split_ifs with hterm
    · simp [contents, Split.addTerm, hterm, Split.total]
    · rw [not_not] at hterm
      simp [contents, hterm, Split.total]
  | cons c text ih =>
    rw [List.foldl_cons]
    cases hescaped : s.escaped with
    | true =>
      have hstep : s.step id c = { s with splitTerm := s.splitTerm ++ [c], escaped := false } := by
        rw [Split.step, if_pos hescaped]
      have hnext : InQuotes (s.step id c) q := by
        rw [hstep]
        exact ⟨hquotes.single, hquotes.double⟩
      rw [ih hnext, hstep, contents]
      simp [Split.total]
    | false =>
      rw [contents]
      by_cases hc : c = '\\'
      · have hstep : s.step id c = { s with escaped := true } := by
          rw [Split.step, hescaped, if_neg Bool.false_ne_true, if_pos hc]
        have hnext : InQuotes (s.step id c) q := by
          rw [hstep]
          exact ⟨hquotes.single, hquotes.double⟩
        rw [if_pos hc, ih hnext, hstep]
        rfl
      · obtain ⟨hnext, he, ht⟩ := step_taken hquotes hescaped hc
        rw [if_neg hc, ih hnext, he, ht, List.append_assoc]

lemma phrases_flatten (pattern : Text) :
    (phrases pattern).flatten = contents .outside false (escapeApostrophes pattern) :=
  foldl_contents ⟨rfl, rfl⟩

end split

/-! ### A pattern and what is kept of it -/

section reads

variable {q : Quotes} {b : Bool} {c : Char} {rest kept : Text}

lemma reads_taken (hslash : c ≠ '\\') (hquote : c ≠ '\'')
    (h : Reads (taken q c).1 (isSeparator c) rest kept) :
    Reads q b (c :: rest) ((taken q c).2 ++ kept) := by
  unfold taken at h ⊢
  rw [if_neg fun hs => hquote hs.1] at h ⊢
  by_cases hdouble : c = '"' ∧ q ≠ .single
  · rw [if_pos hdouble] at h ⊢
    obtain ⟨rfl, hq⟩ := hdouble
    exact .doubleQuote hq h
  rw [if_neg hdouble] at h ⊢
  by_cases hspace : isSpace c = true ∧ q = .outside
  · rw [if_pos hspace] at h ⊢
    obtain ⟨hc, rfl⟩ := hspace
    have hsep : isSeparator c = true := by rw [isSeparator, hc, Bool.true_or]
    rw [hsep] at h
    exact .space hc h
  rw [if_neg hspace] at h ⊢
  refine .plain hslash hquote (fun hc => ?_) (fun hc hq => hspace ⟨hc, hq⟩) h
  by_contra hq
  exact hdouble ⟨hc, hq⟩

lemma contents_other {text : Text} (hc : c ≠ '\\') : contents q false (c :: text) =
    (taken q c).2 ++ contents (taken q c).1 false text := by
  rw [contents, if_neg hc]

lemma reads_quote {text : Text} (hb : b = true ∨ Ends rest)
    (h : ∀ q, Reads q b rest (contents q false text)) :
    Reads q b ('\'' :: rest) (contents q false ('\'' :: text)) := by
  rw [contents_other (by decide)]
  by_cases hq : q = .double
  · have htaken : taken q '\'' = (q, ['\'']) := by
      rw [hq]
      decide
    rw [htaken]
    exact .apostrophe (Or.inr hq) (h q)
  · have htaken : taken q '\'' = (q.turn .single, []) := by rw [taken, if_pos ⟨rfl, hq⟩]
    rw [htaken]
    exact .singleQuote hq hb (h _)

lemma reads_putOff {asQuote : Bool} {text : Text} (hends : asQuote = true → Ends rest)
    (h : ∀ q, Reads q false rest (contents q false text)) :
    Reads q false ('\'' :: rest) (contents q false (putOff true asQuote ++ text)) := by
  cases asQuote with
  | false => exact .apostrophe (Or.inl rfl) (h q)
  | true => exact reads_quote (Or.inr (hends rfl)) h

end reads

/-- What a scan keeps of a pattern: at any character, behind a single quote that has been put off,
and behind a backslash. -/
structure Kept (pattern : Text) : Prop where
  here : ∀ q n seenSpace, Reads q seenSpace pattern
    (contents q false (emitted false seenSpace false n pattern))
  behindQuote : ∀ q n, Reads q false ('\'' :: pattern)
    (contents q false (emitted false false true n pattern))
  behindBackslash : ∀ q n seenSpace, Reads q seenSpace ('\\' :: pattern)
    (contents q true (emitted true seenSpace false n pattern))

lemma kept_nil : Kept [] where
  here q n seenSpace := .nil
  behindQuote q n := by
    have hnil : ∃ asQuote, (asQuote = true → n % 2 = 1) ∧
        emitted false false true n [] = putOff true asQuote := emitted_nil
    obtain ⟨asQuote, -, hemitted⟩ := hnil
    rw [hemitted, ← List.append_nil (putOff true asQuote)]
    refine reads_putOff (fun _ c hc => ?_) fun q => .nil
    cases hc
  behindBackslash q n seenSpace := .backslash

lemma Kept.cons {pattern : Text} (ih : Kept pattern) (c : Char) : Kept (c :: pattern) where
  here q n seenSpace := by
    by_cases hslash : c = '\\'
    · rw [hslash, emitted_backslash]
      exact ih.behindBackslash q n seenSpace
    by_cases hquote : c = '\''
    · rw [hquote]
      cases seenSpace with
      | false =>
        rw [emitted_apostrophe]
        exact ih.behindQuote q n
      | true =>
        rw [emitted_quote (Or.inl rfl)]
        exact reads_quote (Or.inl rfl) fun q => ih.here q (n + 1) true
    · obtain ⟨asQuote, n', -, -, hemitted⟩ := emitted_other hslash hquote
      rw [hemitted]
      have hother := ih.here (taken q c).1 n' (isSeparator c)
      exact contents_other hslash ▸ reads_taken hslash hquote hother
  behindQuote q n := by
    by_cases hslash : c = '\\'
    · rw [hslash, emitted_backslash]
      exact reads_putOff nofun fun q => ih.behindBackslash q n false
    by_cases hquote : c = '\''
    · rw [hquote, emitted_quote (Or.inr rfl)]
      refine reads_quote (Or.inr fun d hd => Or.inr ?_) fun q => ih.behindQuote q (n + 1)
      exact (Option.some.inj hd).symm
    · obtain ⟨asQuote, n', hasQuote, -, hemitted⟩ := emitted_other hslash hquote
      rw [hemitted]
      refine reads_putOff (fun h d hd => Or.inl ?_) fun q => ?_
      · rw [← Option.some.inj hd]
        exact (hasQuote h).1
      · rw [contents_other hslash]
        exact reads_taken hslash hquote (ih.here _ n' _)
  behindBackslash q n seenSpace := by
    rw [emitted_escaped, contents]
    exact .escape (ih.here q n _)

lemma kept (pattern : Text) : Kept pattern := by
  induction pattern with
  | nil => exact kept_nil
  | cons c pattern ih => exact ih.cons c

/-- **Nothing is lost**: the phrases have what is kept of the pattern. -/
lemma reads_phrases (pattern : Text) : Reads .outside true pattern (phrases pattern).flatten := by
  rw [phrases_flatten]
  exact (kept pattern).here .outside 0 true

/-! ### The terms are phrases -/

section mapTerms

variable {escape : Text → Text} (hescape : ∀ text, escape text = [] ↔ text = [])

/-- The loop with terms made of the phrases. -/
def Split.mapTerms (escape : Text → Text) (s : Split) : Split :=
  { s with wordList := s.wordList.map escape }

include hescape

variable (s : Split)

lemma addTerm_mapTerms (term : Text) :
    (s.mapTerms escape).addTerm (escape term) = (s.addTerm term).mapTerms escape := by
  unfold Split.addTerm
  by_cases hterm : term = []
  · rw [if_neg (by simpa [hescape] using hterm), if_neg (by simpa using hterm)]
  · rw [if_pos (by simpa [hescape] using hterm), if_pos hterm]
    simp [Split.mapTerms]

lemma step_mapTerms (c : Char) :
    (s.mapTerms escape).step escape c = (s.step id c).mapTerms escape := by
  have hadd := addTerm_mapTerms hescape s s.splitTerm
  have hfields : (s.mapTerms escape).escaped = s.escaped ∧
      (s.mapTerms escape).inSingleQuotes = s.inSingleQuotes ∧
      (s.mapTerms escape).inDoubleQuotes = s.inDoubleQuotes ∧
      (s.mapTerms escape).splitTerm = s.splitTerm := ⟨rfl, rfl, rfl, rfl⟩
  obtain ⟨he, hs, hd, ht⟩ := hfields
  unfold Split.step
  rw [he, hs, hd, ht]
  dsimp only [id]
  split_ifs with hescaped hslash hsingle hopen hdouble hopen hspace hterm
  · rfl
  · rfl
  · rw [hadd]
    rfl
  · rfl
  · rw [hadd]
    rfl
  · rfl
  · have hne : escape s.splitTerm ≠ [] := fun h => hterm ((hescape _).mp h)
    unfold Split.addTerm
    rw [if_pos hne, if_pos hterm]
    simp [Split.mapTerms]
  · rfl
  · rfl

lemma finish_mapTerms :
    (s.mapTerms escape).finish escape = (s.finish id).map escape := by
  have ht : (s.mapTerms escape).splitTerm = s.splitTerm := rfl
  unfold Split.finish
  rw [ht, addTerm_mapTerms hescape]
  split_ifs
  · rfl
  · rfl

lemma terms_map (text : Text) : terms escape text = (terms id text).map escape := by
  have hrun : ∀ s : Split, text.foldl (Split.step escape) (s.mapTerms escape) =
      (text.foldl (Split.step id) s).mapTerms escape := by
    induction text with
    | nil => exact fun s => rfl
    | cons c text ih =>
      intro s
      rw [List.foldl_cons, step_mapTerms hescape, ih, List.foldl_cons]
  have hterms := hrun ⟨false, false, false, [], []⟩
  rw [terms, terms, ← finish_mapTerms hescape, ← hterms]
  rfl

end mapTerms

lemma escapePhrase_eq_nil (text : Text) : escapePhrase text = [] ↔ text = [] := by
  rw [EscapePhrase.escapePhrase_eq]
  constructor
  · intro h
    cases text with
    | nil => rfl
    | cons c text =>
      obtain ⟨m, ms, hmarks⟩ :=
        List.exists_cons_of_ne_nil (EscapePhrase.marks_ne_nil (List.cons_ne_nil c text))
      rw [EscapePhrase.spaced, hmarks, List.map_cons, List.flatMap_cons] at h
      exact absurd (List.append_eq_nil_iff.mp h).1 (EscapePhrase.rewritten_ne_nil _)
  · rintro rfl
    rfl

/-! ### Words -/

/-- What stands for a character of a word in the escaped pattern. -/
def wordChar : Text := if c = '\'' then ['\\', '\''] else [c]

lemma emitted_unquoted (pattern : Text) :
    (∀ inWord seenSpace, Unquoted inWord pattern = true → (inWord = true → seenSpace = false) →
      emitted false seenSpace false 0 pattern = pattern.flatMap wordChar) ∧
    (Unquoted false pattern = true →
      emitted false false true 0 pattern = ['\\', '\''] ++ pattern.flatMap wordChar) := by
  induction pattern with
  | nil => exact ⟨fun _ _ _ _ => rfl, fun _ => rfl⟩
  | cons c pattern ih =>
    obtain ⟨ihHere, ihBehind⟩ := ih
    refine ⟨fun inWord seenSpace h hspace => ?_, fun h => ?_⟩
    · rw [Unquoted, Bool.and_eq_true, Bool.and_eq_true, Bool.and_eq_true] at h
      obtain ⟨⟨⟨hdouble, hslash⟩, hword⟩, hrest⟩ := h
      by_cases hquote : c = '\''
      · subst hquote
        obtain rfl := hspace (by simpa using hword)
        rw [emitted_apostrophe, ihBehind (by simpa using hrest)]
        rfl
      · rw [emitted_even (by simpa using hslash) hquote, ihHere _ _ hrest (by simp +contextual),
          List.flatMap_cons, wordChar, if_neg hquote]
        rfl
    · rw [Unquoted, Bool.and_eq_true, Bool.and_eq_true, Bool.and_eq_true] at h
      obtain ⟨⟨⟨hdouble, hslash⟩, hword⟩, hrest⟩ := h
      have hquote : c ≠ '\'' := by simpa using hword
      rw [emitted_even (by simpa using hslash) hquote, ihHere _ _ hrest (by simp +contextual),
        List.flatMap_cons, wordChar, if_neg hquote]
      rfl

lemma escapeApostrophes_unquoted {pattern : Text} (h : Unquoted false pattern = true) :
    escapeApostrophes pattern = pattern.flatMap wordChar :=
  (emitted_unquoted pattern).1 false true h nofun

lemma words_space {term : Text} {c : Char} {rest : Text} (hterm : ∀ x ∈ term, isSpace x = false)
    (hc : isSpace c = true) :
    words (term ++ c :: rest) = (if term ≠ [] then [term] else []) ++ words rest := by
  rw [words, List.splitOnP_append_cons_of_forall_mem hterm c hc, List.filter_cons, words]
  split_ifs with h1 h2 h2
  · rfl
  · exact absurd h1 (by simpa using h2)
  · exact absurd h2 (by simpa using h1)
  · rfl

lemma foldl_words {pattern : Text} {inWord : Bool} (h : Unquoted inWord pattern = true)
    {term : Text} (hterm : ∀ x ∈ term, isSpace x = false) (wordList : List Text) :
    ((pattern.flatMap wordChar).foldl (Split.step id) ⟨false, false, false, term, wordList⟩).finish
      id = wordList ++ words (term ++ pattern) := by
  induction pattern generalizing inWord term wordList with
  | nil =>
    have hwords : words (term ++ []) = if term ≠ [] then [term] else [] := by
      rw [List.append_nil, words, List.splitOnP_eq_singleton hterm, List.filter_singleton]
      simp
    rw [hwords]
    by_cases hne : term = []
    · simp [Split.finish, hne]
    · simp [Split.finish, Split.addTerm, hne]
  | cons c pattern ih =>
    rw [Unquoted, Bool.and_eq_true, Bool.and_eq_true, Bool.and_eq_true] at h
    obtain ⟨⟨⟨hdouble, hslash⟩, -⟩, hrest⟩ := h
    have happend : term ++ c :: pattern = (term ++ [c]) ++ pattern := by simp
    have hgrow : isSpace c = false → ∀ x ∈ term ++ [c], isSpace x = false := by
      intro hc x hx
      rcases List.mem_append.mp hx with hx | hx
      · exact hterm x hx
      · rwa [List.mem_singleton.mp hx]
    rw [List.flatMap_cons, List.foldl_append, wordChar]
    by_cases hquote : c = '\''
    · rw [if_pos hquote, happend, ← ih hrest (hgrow (by rw [hquote]; decide)), hquote]
      rfl
    · rw [if_neg hquote]
      have hslash' : c ≠ '\\' := by simpa using hslash
      have hdouble' : c ≠ '"' := by simpa using hdouble
      by_cases hspace : isSpace c = true
      · have hstep : Split.step id ⟨false, false, false, term, wordList⟩ c =
            ⟨false, false, false, [], wordList ++ if term ≠ [] then [term] else []⟩ := by
          by_cases hne : term = []
          · simp [Split.step, hslash', hquote, hdouble', hspace, hne]
          · simp [Split.step, Split.addTerm, hslash', hquote, hdouble', hspace, hne]
        rw [List.foldl_cons, List.foldl_nil, hstep, ih hrest (by simp), words_space hterm hspace,
          List.append_assoc, List.nil_append]
      · have hstep : Split.step id ⟨false, false, false, term, wordList⟩ c =
            ⟨false, false, false, term ++ [c], wordList⟩ := by
          simp [Split.step, hslash', hquote, hdouble', hspace]
        rw [happend, ← ih hrest (hgrow (by simpa using hspace)), List.foldl_cons, List.foldl_nil,
          hstep]

lemma phrases_unquoted {pattern : Text} (h : Unquoted false pattern = true) :
    phrases pattern = words pattern := by
  rw [phrases, escapeApostrophes_unquoted h]
  exact foldl_words h (by simp) []

/-! ### Matching -/

/-- `QHash<QRegularExpression, int>`, in the order in which it is gone through. -/
abbrev RegexHash := List (Text × ℕ)

/-- What the terms of a search are put into: each once, and none found so far. -/
structure HashOf (termList : List Text) (regexHash : RegexHash) : Prop where
  nodup : (regexHash.map Prod.fst).Nodup
  mem : ∀ term, term ∈ regexHash.map Prod.fst ↔ term ∈ termList
  count : ∀ entry ∈ regexHash, entry.2 = 0

/-- The entry of a file that is looked at. `inherits` tells whether it is a plain text, `lines` is
what reading it gives, if it can be read. -/
structure UDSEntry where
  UDS_NAME : Text
  localPath : Option Text
  inherits : Bool
  lines : Option (List Text)

section matching

variable (hasMatch : Text → Text → Bool)

/-- The loop over the expressions, for one text: whether all of them have been found by now. -/
def scanText (text : Text) : RegexHash → Bool × RegexHash
  | [] => (true, [])
  | (regex, count) :: rest =>
    let (matchedEverything, rest) := scanText text rest
    if count = 0 then
      if hasMatch regex text then (matchedEverything, (regex, count + 1) :: rest)
      else (false, (regex, count) :: rest)
    else (matchedEverything, (regex, count) :: rest)

def filenameContainsPattern (entry : UDSEntry) (regexHash : RegexHash) : Bool × RegexHash :=
  scanText hasMatch entry.UDS_NAME regexHash

/-- The loop over the lines. Each is searched together with the one before it. -/
def fileContainsPattern (line : Text) (matchedEverything : Bool) : List Text → RegexHash → Bool
  | [], _ => matchedEverything
  | line2 :: lines, regexHash =>
    let (matchedEverything, regexHash) := scanText hasMatch (line ++ line2) regexHash
    if matchedEverything then true
    else fileContainsPattern (line2 ++ ['\n']) matchedEverything lines regexHash

def contentContainsPattern (entry : UDSEntry) (regexHash : RegexHash) : Bool :=
  match entry.lines with
  | none => false
  | some lines => fileContainsPattern hasMatch [] false lines regexHash

/-- The paths that are not searched. -/
def systemDirs : List Text := ["/dev/".toList, "/proc/".toList, "/sys/".toList]

variable (SearchContent : Bool)

def matchEntry (entry : UDSEntry) (regexHash : RegexHash) : Bool :=
  let (matchedEverything, regexHash) := filenameContainsPattern hasMatch entry regexHash
  if SearchContent && !matchedEverything then
    if entry.localPath.any fun path => systemDirs.any (·.isPrefixOf path) then false
    else if entry.inherits then contentContainsPattern hasMatch entry regexHash
    else matchedEverything
  else matchedEverything

def windows (line : Text) : List Text → List Text
  | [] => []
  | line2 :: lines => (line ++ line2) :: windows (line2 ++ ['\n']) lines

def contentTexts (entry : UDSEntry) : List Text :=
  if SearchContent && !(entry.localPath.any fun path => systemDirs.any (·.isPrefixOf path)) &&
    entry.inherits then windows [] (entry.lines.getD []) else []

/-- A term is found in the name of a file or in its content. -/
def Hit (entry : UDSEntry) (term : Text) : Prop :=
  ∃ text ∈ entry.UDS_NAME :: contentTexts SearchContent entry, hasMatch term text = true

/-- The counts tell which expressions have been found in the texts so far. -/
def Counted (texts : List Text) (regexHash : RegexHash) : Prop :=
  ∀ entry ∈ regexHash, entry.2 ≠ 0 ↔ ∃ text ∈ texts, hasMatch entry.1 text = true

variable {hasMatch : Text → Text → Bool} {regexHash : RegexHash} {text : Text} {texts : List Text}

lemma mem_scanText {entry : Text × ℕ} : entry ∈ (scanText hasMatch text regexHash).2 ↔
    ∃ n, (entry.1, n) ∈ regexHash ∧
      entry.2 = if n = 0 ∧ hasMatch entry.1 text = true then n + 1 else n := by
  induction regexHash with
  | nil => simp [scanText]
  | cons first rest ih =>
    obtain ⟨regex, count⟩ := first
    obtain ⟨e, m⟩ := entry
    have hhead : (e, m) ∈ (scanText hasMatch text ((regex, count) :: rest)).2 ↔
        (e = regex ∧ m = if count = 0 ∧ hasMatch regex text = true then count + 1 else count) ∨
          (e, m) ∈ (scanText hasMatch text rest).2 := by
      rw [scanText]
      dsimp only
      split_ifs <;> simp_all
    rw [hhead, ih]
    constructor
    · rintro (⟨rfl, hm⟩ | ⟨n, hn, hm⟩)
      · exact ⟨count, List.mem_cons_self, hm⟩
      · exact ⟨n, List.mem_cons_of_mem _ hn, hm⟩
    · rintro ⟨n, hn, hm⟩
      rcases List.mem_cons.mp hn with heq | hn
      · obtain ⟨rfl, rfl⟩ := Prod.mk.inj heq
        exact Or.inl ⟨rfl, hm⟩
      · exact Or.inr ⟨n, hn, hm⟩

lemma scanText_fst : (scanText hasMatch text regexHash).1 = true ↔
    ∀ entry ∈ (scanText hasMatch text regexHash).2, entry.2 ≠ 0 := by
  induction regexHash with
  | nil => simp [scanText]
  | cons first rest ih =>
    obtain ⟨regex, count⟩ := first
    rw [scanText]
    dsimp only
    split_ifs with hcount hmatch
    · simp [ih]
    · simp [hcount]
    · simp [ih, hcount]

lemma scanText_counted (h : Counted hasMatch texts regexHash) :
    Counted hasMatch (texts ++ [text]) (scanText hasMatch text regexHash).2 := by
  rintro ⟨regex, m⟩ hmem
  obtain ⟨n, hn, hm⟩ := mem_scanText.mp hmem
  have hcount := h _ hn
  dsimp only at hm hcount ⊢
  rw [hm]
  by_cases hmatch : hasMatch regex text = true
  · have hfound : ∃ t ∈ texts ++ [text], hasMatch regex t = true := ⟨text, by simp, hmatch⟩
    refine iff_of_true ?_ hfound
    split_ifs with hzero
    · omega
    · exact fun hn0 => hzero ⟨hn0, hmatch⟩
  · rw [if_neg fun hzero => hmatch hzero.2, hcount]
    simp [hmatch]

lemma scanText_forall {p : Text → Prop} :
    (∀ entry ∈ (scanText hasMatch text regexHash).2, p entry.1) ↔
      ∀ entry ∈ regexHash, p entry.1 := by
  constructor
  · rintro h ⟨regex, n⟩ hentry
    exact h (regex, if n = 0 ∧ hasMatch regex text = true then n + 1 else n)
      (mem_scanText.mpr ⟨n, hentry, rfl⟩)
  · intro h entry hentry
    obtain ⟨n, hn, -⟩ := mem_scanText.mp hentry
    exact h (entry.1, n) hn

lemma scanText_iff (h : Counted hasMatch texts regexHash) :
    (scanText hasMatch text regexHash).1 = true ↔
      ∀ entry ∈ regexHash, ∃ t ∈ texts ++ [text], hasMatch entry.1 t = true := by
  rw [scanText_fst]
  exact (forall₂_congr (scanText_counted h)).trans
    (scanText_forall (p := fun term => ∃ t ∈ texts ++ [text], hasMatch term t = true))

lemma fileContainsPattern_iff {line : Text} {matchedEverything : Bool} {lines : List Text}
    (h : Counted hasMatch texts regexHash)
    (hmatched : matchedEverything = true ↔ ∀ entry ∈ regexHash, entry.2 ≠ 0) :
    fileContainsPattern hasMatch line matchedEverything lines regexHash = true ↔
      ∀ entry ∈ regexHash, ∃ text ∈ texts ++ windows line lines, hasMatch entry.1 text = true := by
  induction lines generalizing line matchedEverything regexHash texts with
  | nil =>
    rw [fileContainsPattern, hmatched, windows, List.append_nil]
    exact forall₂_congr h
  | cons line2 lines ih =>
    have happend : texts ++ windows line (line2 :: lines) =
        (texts ++ [line ++ line2]) ++ windows (line2 ++ ['\n']) lines := by
      rw [windows, List.append_assoc, List.singleton_append]
    rw [fileContainsPattern, happend]
    dsimp only
    split_ifs with hfound
    · refine iff_of_true rfl fun entry hentry => ?_
      obtain ⟨t, ht, hmatch⟩ := (scanText_iff h).mp hfound entry hentry
      exact ⟨t, List.mem_append_left _ ht, hmatch⟩
    · rw [ih (scanText_counted h) scanText_fst]
      exact scanText_forall (p := fun term => ∃ t ∈ _, hasMatch term t = true)

lemma contentContainsPattern_iff {entry : UDSEntry} (h : Counted hasMatch texts regexHash)
    (hnone : ¬∀ e ∈ regexHash, e.2 ≠ 0) :
    contentContainsPattern hasMatch entry regexHash = true ↔ ∀ e ∈ regexHash,
      ∃ text ∈ texts ++ windows [] (entry.lines.getD []), hasMatch e.1 text = true := by
  have hmatched : false = true ↔ ∀ e ∈ regexHash, e.2 ≠ 0 := iff_of_false Bool.false_ne_true hnone
  have hlines : fileContainsPattern hasMatch [] false (entry.lines.getD []) regexHash = true ↔
      ∀ e ∈ regexHash, ∃ text ∈ texts ++ windows [] (entry.lines.getD []),
        hasMatch e.1 text = true := fileContainsPattern_iff h hmatched
  rw [← hlines, contentContainsPattern]
  cases entry.lines with
  | none => rfl
  | some lines => rfl

lemma matchEntry_iff {termList : List Text} (hhash : HashOf termList regexHash)
    (SearchContent : Bool) (entry : UDSEntry) :
    matchEntry hasMatch SearchContent entry regexHash = true ↔
      ∀ term ∈ termList, Hit hasMatch SearchContent entry term := by
  have hterms : (∀ term ∈ termList, Hit hasMatch SearchContent entry term) ↔
      ∀ e ∈ regexHash, Hit hasMatch SearchContent entry e.1 := by
    constructor
    · exact fun h e he => h e.1 ((hhash.mem e.1).mp (List.mem_map_of_mem he))
    · intro h term hterm
      obtain ⟨e, he, rfl⟩ := List.mem_map.mp ((hhash.mem term).mpr hterm)
      exact h e he
  have hcounted : Counted hasMatch [] regexHash := fun e he =>
    iff_of_false (fun hne => hne (hhash.count e he)) (by simp)
  have hname : (scanText hasMatch entry.UDS_NAME regexHash).1 = true ↔
      ∀ e ∈ regexHash, ∃ t ∈ [entry.UDS_NAME], hasMatch e.1 t = true := scanText_iff hcounted
  have hfirst : Counted hasMatch [entry.UDS_NAME]
      (scanText hasMatch entry.UDS_NAME regexHash).2 := scanText_counted hcounted
  rw [hterms, matchEntry, filenameContainsPattern]
  dsimp only
  unfold Hit contentTexts
  generalize (entry.localPath.any fun path => systemDirs.any (·.isPrefixOf path)) = guarded
  cases hfound : (scanText hasMatch entry.UDS_NAME regexHash).1 with
  | true =>
    rw [Bool.not_true, Bool.and_false, if_neg Bool.false_ne_true]
    refine iff_of_true rfl fun e he => ?_
    obtain ⟨t, ht, hmatch⟩ := hname.mp hfound e he
    exact ⟨t, List.mem_cons.mpr (Or.inl (List.mem_singleton.mp ht)), hmatch⟩
  | false =>
    have hnot := ne_true_of_eq_false hfound
    by_cases hsearched : (SearchContent && !guarded && entry.inherits) = true
    · rw [if_pos hsearched]
      rw [Bool.and_eq_true, Bool.and_eq_true, Bool.not_eq_true'] at hsearched
      obtain ⟨⟨rfl, rfl⟩, hinherits⟩ := hsearched
      rw [if_pos (by rfl), if_neg Bool.false_ne_true, if_pos hinherits,
        contentContainsPattern_iff hfirst (by rwa [← scanText_fst])]
      exact scanText_forall (p := fun term => ∃ t ∈ _, hasMatch term t = true)
    · rw [if_neg hsearched, ← hname]
      refine iff_of_false (fun h => hsearched ?_) hnot
      cases SearchContent <;> cases guarded <;> cases hinherits : entry.inherits <;> simp_all

end matching

/-- **A list of words.** The terms are phrases, which together are what is kept of the pattern;
without quotes they are the words; and a file is found just if every term is, in its name or in its
content. -/
theorem splitWordList_reads (pattern : Text) (hasMatch : Text → Text → Bool) :
    splitWordList pattern = (phrases pattern).map escapePhrase ∧
      Reads .outside true pattern (phrases pattern).flatten ∧
      (Unquoted false pattern = true → phrases pattern = words pattern) ∧
      ∀ regexHash, HashOf (splitWordList pattern) regexHash → ∀ SearchContent entry,
        (matchEntry hasMatch SearchContent entry regexHash = true ↔
          ∀ term ∈ splitWordList pattern, Hit hasMatch SearchContent entry term) :=
  ⟨terms_map escapePhrase_eq_nil _, reads_phrases pattern, phrases_unquoted,
    fun _ hhash SearchContent entry => matchEntry_iff hhash SearchContent entry⟩

/-- Two words, one with an apostrophe. -/
theorem words_with_apostrophe :
    phrases "it's a".toList = words "it's a".toList ∧
      words "it's a".toList = ["it's".toList, "a".toList] :=
  ⟨(splitWordList_reads "it's a".toList fun _ _ => true).2.2.1 (by decide), by decide⟩

/-- An underscore is none of the characters of the terms. -/
theorem underscore_not_in_terms :
    splitWordList ['a', '_', 'b'] = ["a\\s+b".toList] ∧
      '_' ∉ (splitWordList ['a', '_', 'b']).flatten := by decide

end KioExtras.FileNameSearch.WordList
