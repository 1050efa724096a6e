import KioExtras.Man.Converter
import Mathlib.Data.List.TakeWhile

/-!
The links of a line: `add_links`.

The memory is what stands from the cursor on, and every pointer is its distance from the cursor; no
character in front of the cursor is read. Where a zero is written into the line and taken back, the
text in front of it is put out. The terminator of the line is a character like any other, and behind
it stands whatever the buffer held before. A run ends before its time where it reads behind the
memory.
-/

namespace KioExtras.Man.Links

open KioExtras.Reading (NUL)

/-! ### The output -/

/-- What is put out: text of the line, or a link with its text; the one to a file has the text
without the blanks around it. -/
inductive Piece
  | text (characters : Text)
  | link (tag characters close : Text)
  | file (tag characters close : Text)

namespace Piece

def characters : Piece → Text
  | text characters => characters
  | link _ characters _ => characters
  | file _ characters _ => characters

end Piece

/-! ### Reading -/

/-- `strstr`: the distance of the first place, up to the terminator. -/
def strstr (pattern : Text) : Text → Option (Option ℕ)
  | [] => none
  | x :: rest =>
    if x = NUL then some none
    else if pattern <+: x :: rest then some (some 0)
    else (strstr pattern rest).map fun p => p.map (· + 1)

/-- The text from one place on with a zero at another one. -/
def slice (rest : Text) (i j : ℕ) : Text := ((rest.drop i).take (j - i)).takeWhile (· ≠ NUL)

def upToNul (rest : Text) : Option Text :=
  if NUL ∈ rest then some (rest.takeWhile (· ≠ NUL)) else none

/-- The loop back as long as the character in front is one of these, to the cursor at most. -/
def back (ok : Char → Bool) (rest : Text) : ℕ → ℕ
  | 0 => 0
  | g + 1 => if rest[g]?.any ok = true then back ok rest g else g + 1

/-- The loop over characters like these. -/
def forward (ok : Char → Bool) (rest : Text) (g : ℕ) : Option ℕ :=
  let h := g + ((rest.drop g).takeWhile fun x => x ≠ NUL && ok x).length
  if h < rest.length then some h else none

def trimmed (t : Text) : Text := ((t.dropWhile isSpace).reverse.dropWhile isSpace).reverse

/-! ### The tests -/

inductive Test
  | url
  | mailto
  | www
  | ftp
  | manpage
  | header
  deriving DecidableEq

namespace Test

def pattern : Test → Text
  | url => "://".toList
  | mailto => ['@']
  | www => "www.".toList
  | ftp => "ftp.".toList
  | manpage => ['(']
  | header => ".h&gt;".toList

/-- How far behind the cursor the search begins. -/
def ahead : Test → ℕ
  | www | ftp => 0
  | _ => 1

def all : List Test := [url, mailto, www, ftp, manpage, header]

end Test

def search (rest : Text) (k : Test) : Option (Option ℕ) :=
  (strstr k.pattern (rest.drop k.ahead)).map fun p => p.map (· + k.ahead)

/-- The results of all searches, if none of them reads behind the memory. -/
def collect (results : Test → Option (Option ℕ)) : Option (Test → Option ℕ) :=
  if Test.all.all (fun k => (results k).isSome) = true then some fun k => (results k).getD none
  else none

/-- The first candidate; of those in one place, the one that is tested first. -/
def nearest (idtest : Test → Option ℕ) : Option (Test × ℕ) :=
  Test.all.foldl (fun best k =>
    match idtest k, best with
    | none, best => best
    | some p, none => some (k, p)
    | some p, some (j, q) => if p < q then some (k, p) else some (j, q)) none

/-! ### A file, `<name.h>` -/

def includedirs : List Text :=
  ["/usr/include".toList, "/usr/include/sys".toList, "/usr/local/include".toList,
    "/opt/local/include".toList, "/usr/ccs".toList, "/usr/X11R6/include".toList,
    "/usr/openwin/include".toList, "/usr/include/g++".toList]

section

-- whether a file is readable
variable (access : Text → Bool) (rest : Text) (f : ℕ)

/-- The zero behind the name of a file is not taken back, but the cursor passes it. -/
def header : List Piece × ℕ :=
  let g := back (· ≠ ';') rest f
  let file := trimmed ((rest.drop g).take (f + 2 - g))
  let dir := if g ≠ 0 then includedirs.find? fun dir => access (dir ++ ['/'] ++ file) else none
  match dir with
  | some dir =>
    ([.text (slice rest 0 g),
      .file ("<A HREF=\"file:".toList ++ dir ++ ['/'] ++ file ++ "\">".toList) file "</A>".toList,
      .text "&gt;".toList], f + 6)
  | none => ([.text (slice rest 0 (f + 5))], f + 5)

/-! ### A page, `name(1)` -/

/-- The text in parentheses up to `g` is a section. -/
def isSection (g : ℕ) : Bool :=
  0 < f && g - f < 12 && rest[f - 1]?.any (fun x => x.isAlphanum || x = '>' || x = ';') &&
    rest[f + 1]?.any (fun x => (x.isDigit || x = 'n') && x ≠ '0') &&
    (g - f ≤ 2 || rest[f + 2]?.any Char.isAlpha) &&
    ((rest.drop (f + 2)).take (g - (f + 2))).all Char.isAlphanum

/-- The end of the name, where a space that is an entity may stand between; any other entity is
none. -/
def nameEnd : Option ℕ :=
  let h := f - 1
  if h > 5 ∧ (rest.drop (h - 5)).take 6 = "&nbsp;".toList then some (h - 6)
  else if h > 6 ∧ (rest.drop (h - 6)).take 7 = "&#8239;".toList then some (h - 7)
  else if rest[h]? = some ';' then none
  else some h

/-- `while (h != c && *h != '<') h--` -/
def tagStart : ℕ → ℕ
  | 0 => 0
  | h + 1 => if rest[h + 1]? = some '<' then h + 1 else tagStart h

/-- The tags behind the name are passed, each by the loop to its start and one character more. -/
def skipTags : ℕ → ℕ → ℕ
  | 0, h => h
  | fuel + 1, h =>
    if 0 < h ∧ rest[h]? = some '>' then skipTags fuel (tagStart rest h - 1) else h

variable (x : Char)

def isName : Bool := x.isAlphanum || x ∈ ['_', ':', '-', '.']

/-- The link to a page whose name ends at `h`, and where the text behind the link begins. -/
def pageLink (g h : ℕ) : Option (List Piece × ℕ) :=
  if rest[h]?.any Char.isAlphanum = true then
    let name := slice rest (back isName rest h) (h + 1)
    let number := (rest[f + 1]?).toList ++ (slice rest (f + 2) g).map Char.toLower
    some ([.text (slice rest 0 (back isName rest h)),
      .link ("<a href=\"man:/".toList ++ name ++ ['('] ++ number ++ ")\">".toList) name
        "</a>".toList], h + 1)
  else none

/-- The link in front of the parenthesis, where `g` is the distance to the closing one. -/
def pageAt (g : Option ℕ) : Option (List Piece × ℕ) := do
  let g ← g
  if isSection rest f (f + g) = true then
    let h ← nameEnd rest f
    pageLink rest f (f + g) (skipTags rest (h + 1) h)
  else none

/-- The pointer of the test is set to a place that is passed in any case. -/
def manpage : Option (List Piece × ℕ) := do
  let g ← strstr [')'] (rest.drop f)
  match pageAt rest f g with
  | some (pieces, e) => some (pieces ++ [.text (slice rest e f)], f)
  | none => some ([.text (slice rest 0 f)], f)

/-! ### A host, `www.name` and `ftp.name` -/

def isHost : Bool := x.isAlphanum || x ∈ ['_', '-', '+', '.', '/']

def host (scheme : Text) : Option (List Piece × ℕ) := do
  let g ← forward isHost rest f
  let g := if rest[g - 1]? = some '.' then g - 1 else g
  if g - f > 4 then
    let name := slice rest f g
    some ([.text (slice rest 0 f),
      .link ("<A HREF=\"".toList ++ scheme ++ "://".toList ++ name ++ "\">".toList) name
        "</A>".toList], g)
  else some ([.text (slice rest 0 (f + 3))], f + 3)

/-! ### A mail address -/

def isMailbox : Bool := x.isAlphanum || x ∈ ['_', '-', '+', '.', '%']

def isMailHost : Bool := x.isAlphanum || x ∈ ['_', '-', '+', '.']

def mailStart : ℕ :=
  let g := back isMailbox rest f
  if 7 ≤ g ∧ rest[g - 1]? = some ':' ∧ (rest.drop (g - 7)).take 7 = "mailto:".toList then g - 7
  else g

/-- The pointer of the test is set to a place that is passed in any case. -/
def mailto : Option (List Piece × ℕ) := do
  let g := mailStart rest f
  let h ← forward isMailHost rest (f + 1)
  let h := if rest[h]? = some '.' then h - 1 else h
  if h - f > 4 ∧ f - g > 1 then
    let address := slice rest g h
    some ([.text (slice rest 0 g),
      .link ("<A HREF=\"mailto:".toList ++ address ++ "\">".toList) address "</A>".toList], h)
  else some ([.text (slice rest 0 f)], f)

/-! ### A URL -/

def isProtocol : Bool := x.isAlpha && x.isLower

def isPath : Bool := !isSpace x && x ∉ ['<', '>', '"', '&']

/-- One of both protocols stands somewhere behind the cursor. -/
def hasProtocol : Option Bool := do
  let http ← strstr "http://".toList rest
  if http.isSome = true then some true else (strstr "ftp://".toList rest).map Option.isSome

/-- The lengths are those of a link from `g` to `h`, and its protocol is known. -/
def isLinked (g h : ℕ) : Option Bool :=
  if f - g > 2 ∧ f - g < 7 ∧ h - f > 3 then hasProtocol rest else some false

def url : Option (List Piece × ℕ) := do
  let g := back isProtocol rest f
  let h ← forward isPath rest (f + 3)
  let known ← isLinked rest f g h
  if known = true then
    let address := slice rest g h
    some ([.text (slice rest 0 g),
      .link ("<A HREF=\"".toList ++ address ++ "\">".toList) address "</A>".toList], h)
  else some ([.text (slice rest 0 (f + 1))], f + 1)

/-! ### The loop -/

/-- A turn for a candidate: what is put out, and how far the cursor moves. -/
def turn : Test → Option (List Piece × ℕ)
  | .url => url rest f
  | .mailto => mailto rest f
  | .www => host rest f "http".toList
  | .ftp => host rest f "ftp".toList
  | .manpage => manpage rest f
  | .header => some (header access rest f)

/-- A pointer after the cursor has moved; one that is passed is searched again. -/
def moved (m : ℕ) (idtest : Test → Option ℕ) (k : Test) : Option (Option ℕ) :=
  match idtest k with
  | some p => if p < m + k.ahead then search rest k else some (some (p - m))
  | none => some none

end

section

variable (access : Text → Bool)

def loop : ℕ → Text → (Test → Option ℕ) → Option (List Piece)
  | 0, _, _ => none
  | fuel + 1, rest, idtest =>
    match nearest idtest with
    | none => (upToNul rest).map fun t => [.text t]
    | some (k, f) => do
      let (pieces, m) ← turn access rest f k
      let idtest ← collect (moved (rest.drop m) m idtest)
      let out ← loop fuel (rest.drop m) idtest
      some (pieces ++ out)

def add_links (ignore_links : Bool) (c : Text) : Option (List Piece) :=
  if ignore_links = true then (upToNul c).map fun t => [.text t]
  else do
    let idtest ← collect (search c)
    loop access (c.length + 1) c idtest

end

/-! ### What is to hold -/

/-- With the tags removed, the text is put out, but for the blanks around the name of a file. -/
inductive Renders : List Piece → Text → Prop
  | nil : Renders [] []
  | text {out t} (u : Text) (h : Renders out t) : Renders (.text u :: out) (u ++ t)
  | link {out t} (tag u close : Text) (h : Renders out t) :
    Renders (.link tag u close :: out) (u ++ t)
  | file {out t} (tag u close : Text) (h : Renders out t) :
    Renders (.file tag (trimmed u) close :: out) (u ++ t)

lemma Renders.append {out out' : List Piece} {t t' : Text} (h : Renders out t)
    (h' : Renders out' t') : Renders (out ++ out') (t ++ t') := by
  induction h with
  | nil => exact h'
  | text u h ih => rw [List.append_assoc]; exact ih.text u
  | link tag u close h ih => rw [List.append_assoc]; exact ih.link tag u close
  | file tag u close h ih => rw [List.append_assoc]; exact ih.file tag u close

lemma Renders.only (t : Text) : Renders [.text t] t := by
  have hrenders := Renders.nil.text t
  rwa [List.append_nil] at hrenders

/-- The first place of a pattern in a text. -/
def occurrence (pattern : Text) : Text → Option ℕ
  | [] => none
  | x :: t => if pattern <+: x :: t then some 0 else (occurrence pattern t).map (· + 1)

/-- The first candidates in a text, whose cursor is at its begin. -/
def firsts (t : Text) (k : Test) : Option ℕ :=
  (occurrence k.pattern (t.drop k.ahead)).map (· + k.ahead)

section

variable (access : Text → Bool) (behind : Text)

/-- Where the text is cut next: behind the link that is made of the first candidate, or else at the
candidate. -/
def nextCut (t : Text) : Option ℕ := do
  let (k, f) ← nearest (firsts t)
  let (_, m) ← turn access (t ++ NUL :: behind) f k
  some m

/-- What is left of a text at the places inside of it where it is cut. -/
inductive Cut (text : Text) : Text → Prop
  | start : Cut text text
  | next {t m} (h : Cut text t) (hm : nextCut access behind t = some m) (hlt : m < t.length) :
    Cut text (t.drop m)

/-- The candidates that are looked for behind the terminator: all but hosts where the text is empty,
and else those that a link at the end of the text has taken up. -/
def Sought (text : Text) (k : Test) : Prop :=
  k.ahead = 1 ∧ (text = [] ∨ ∃ t, Cut access behind text t ∧
    nextCut access behind t = some t.length ∧ (firsts t k).isSome = true)

/-- None of those that are looked for stands behind the terminator. -/
def Clean (text : Text) : Prop :=
  ∀ k, Sought access behind text k → strstr k.pattern behind = some none

end

/-! ### Reading a text up to its terminator -/

lemma pattern_noNul (k : Test) : NUL ∉ k.pattern := by
  cases k <;> decide

lemma pattern_length (k : Test) : 0 < k.pattern.length := by
  cases k <;> decide

lemma ahead_le (k : Test) : k.ahead ≤ 1 := by
  cases k <;> decide

section

variable {t behind : Text}

lemma prefix_text {p : Text} (hp : NUL ∉ p) : p <+: t ++ NUL :: behind ↔ p <+: t := by
  induction t generalizing p with
  | nil =>
    cases p with
    | nil => simp
    | cons y p =>
      rw [List.nil_append, List.cons_prefix_cons]
      refine iff_of_false (fun h => hp (by simp [h.1])) (by simp)
  | cons x t ih =>
    cases p with
    | nil => simp
    | cons y p =>
      rw [List.cons_append, List.cons_prefix_cons, List.cons_prefix_cons,
        ih fun h => hp (List.mem_cons_of_mem y h)]

lemma strstr_text {p : Text} (hp : NUL ∉ p) (ht : NUL ∉ t) :
    strstr p (t ++ NUL :: behind) = some (occurrence p t) := by
  induction t with
  | nil => rfl
  | cons x t ih =>
    have hx : x ≠ NUL := fun h => ht (by simp [h])
    have hpref : p <+: x :: (t ++ NUL :: behind) ↔ p <+: x :: t := prefix_text (t := x :: t) hp
    rw [List.cons_append, strstr, if_neg hx, occurrence, ih fun h => ht (List.mem_cons_of_mem x h)]
    by_cases h : p <+: x :: t
    · rw [if_pos (hpref.mpr h), if_pos h]
    · rw [if_neg (hpref.not.mpr h), if_neg h]
      rfl

variable {g j : ℕ}

lemma slice_text {i : ℕ} (ht : NUL ∉ t) (hij : i ≤ j) (hj : j ≤ t.length) :
    slice (t ++ NUL :: behind) i j = (t.drop i).take (j - i) := by
  have hlen : j - i ≤ (t.drop i).length := by
    rw [List.length_drop]
    omega
  rw [slice, List.drop_append_of_le_length (by omega), List.take_append_of_le_length hlen]
  apply List.takeWhile_eq_self_iff.mpr
  intro x hx
  have hmem := List.mem_of_mem_drop (List.mem_of_mem_take hx)
  exact decide_eq_true fun heq => ht (heq ▸ hmem)

variable (ok : Char → Bool)

lemma takeWhile_text (ht : NUL ∉ t) :
    (t ++ NUL :: behind).takeWhile (fun x => x ≠ NUL && ok x) = t.takeWhile ok := by
  induction t with
  | nil => simp
  | cons x t ih =>
    have hx : x ≠ NUL := fun h => ht (by simp [h])
    rw [List.cons_append, List.takeWhile_cons, List.takeWhile_cons,
      ih fun h => ht (List.mem_cons_of_mem x h)]
    simp [hx]

variable (behind) in
lemma forward_text (ht : NUL ∉ t) (hg : g ≤ t.length) :
    forward ok (t ++ NUL :: behind) g = some (g + ((t.drop g).takeWhile ok).length) := by
  have hle := (List.takeWhile_prefix (l := t.drop g) ok).length_le
  rw [List.length_drop] at hle
  rw [forward, List.drop_append_of_le_length hg,
    takeWhile_text ok fun h => ht (List.mem_of_mem_drop h)]
  rw [if_pos]
  rw [List.length_append, List.length_cons]
  omega

lemma forward_le (hg : g ≤ t.length) :
    g + ((t.drop g).takeWhile ok).length ≤ t.length := by
  have hle := (List.takeWhile_prefix (l := t.drop g) ok).length_le
  rw [List.length_drop] at hle
  omega

lemma back_le (rest : Text) (g : ℕ) : back ok rest g ≤ g := by
  induction g with
  | zero => exact Nat.le_refl 0
  | succ g ih =>
    rw [back]
    split_ifs
    · omega
    · exact Nat.le_refl _

lemma forward_ge {ok : Char → Bool} {rest : Text} {h : ℕ} (hforward : forward ok rest g = some h) :
    g ≤ h := by
  unfold forward at hforward
  dsimp only at hforward
  split_ifs at hforward
  have heq := Option.some.inj hforward
  omega

lemma back_spec {ok : Char → Bool} {rest : Text} (h : back ok rest g < g) :
    rest[back ok rest g]?.any ok = true := by
  induction g with
  | zero => exact absurd h (Nat.lt_irrefl 0)
  | succ g ih =>
    rw [back] at h ⊢
    split_ifs at h ⊢ with hok
    · rcases Nat.lt_or_ge (back ok rest g) g with hlt | hge
      · exact ih hlt
      · have heq : back ok rest g = g := Nat.le_antisymm (back_le ok rest g) hge
        rw [heq]
        exact hok
    · exact absurd h (Nat.lt_irrefl _)

/-! ### A turn puts out what it passes -/

lemma take_add_slice {i : ℕ} (hij : i ≤ j) :
    t.take i ++ (t.drop i).take (j - i) = t.take j := by
  rw [← List.take_add, Nat.add_sub_cancel' hij]

lemma text_renders (ht : NUL ∉ t) (hj : j ≤ t.length) :
    Renders [.text (slice (t ++ NUL :: behind) 0 j)] (t.take j) := by
  rw [slice_text ht (Nat.zero_le j) hj, Nat.sub_zero, List.drop_zero]
  exact Renders.only (t.take j)

lemma link_renders {i : ℕ} (ht : NUL ∉ t) (hij : i ≤ j) (hj : j ≤ t.length) (tag close : Text) :
    Renders [.text (slice (t ++ NUL :: behind) 0 i),
      .link tag (slice (t ++ NUL :: behind) i j) close] (t.take j) := by
  rw [slice_text ht hij hj, ← take_add_slice hij]
  have h := Renders.nil.link tag ((t.drop i).take (j - i)) close
  rw [List.append_nil] at h
  exact (text_renders ht (Nat.le_trans hij hj)).append h

/-- A turn moves the cursor behind the candidate or to it, and not out of the text. -/
structure Passes (behind t : Text) (access : Text → Bool) (k : Test) (f : ℕ) (pieces : List Piece)
    (m : ℕ) : Prop where
  turn : turn access (t ++ NUL :: behind) f k = some (pieces, m)
  renders : Renders pieces (t.take m)
  inside : m ≤ t.length
  passes : f < m + k.ahead

variable {access : Text → Bool} {f : ℕ}

lemma passes_link {k : Test} {h : ℕ} {tag close : Text} (ht : NUL ∉ t)
    (hturn : turn access (t ++ NUL :: behind) f k =
      some ([.text (slice (t ++ NUL :: behind) 0 g),
        .link tag (slice (t ++ NUL :: behind) g h) close], h)) (hg : g ≤ h) (hh : h ≤ t.length)
    (hf : f < h + k.ahead) :
    ∃ pieces m, Passes behind t access k f pieces m :=
  ⟨_, h, hturn, link_renders ht hg hh tag close, hh, hf⟩

lemma passes_text {k : Test} {m : ℕ} (ht : NUL ∉ t)
    (hturn : turn access (t ++ NUL :: behind) f k =
      some ([.text (slice (t ++ NUL :: behind) 0 m)], m))
    (hm : m ≤ t.length) (hf : f < m + k.ahead) :
    ∃ pieces m, Passes behind t access k f pieces m :=
  ⟨_, m, hturn, text_renders ht hm, hm, hf⟩

variable (behind) in
lemma hasProtocol_text (ht : NUL ∉ t) : ∃ b, hasProtocol (t ++ NUL :: behind) = some b := by
  unfold hasProtocol
  rw [strstr_text (by decide) ht, strstr_text (by decide) ht, Option.bind_eq_bind,
    Option.bind_some]
  split_ifs
  · exact ⟨true, rfl⟩
  · exact ⟨_, rfl⟩

lemma url_passes (ht : NUL ∉ t) (hf : Test.url.pattern <+: t.drop f) :
    ∃ pieces m, Passes behind t access .url f pieces m := by
  have hthree : f + 3 ≤ t.length := by
    have hlen := hf.length_le
    rw [List.length_drop] at hlen
    change 3 ≤ _ at hlen
    omega
  have hback := back_le isProtocol (t ++ NUL :: behind) f
  have hforward := forward_le isPath hthree
  obtain ⟨b, hb⟩ := hasProtocol_text behind ht
  by_cases hcond : f - back isProtocol (t ++ NUL :: behind) f > 2 ∧
      f - back isProtocol (t ++ NUL :: behind) f < 7 ∧
        f + 3 + ((t.drop (f + 3)).takeWhile isPath).length - f > 3
  · cases b with
    | true =>
      apply passes_link ht
      · rw [turn, url, forward_text behind isPath ht hthree, Option.bind_eq_bind, Option.bind_some,
          isLinked, if_pos hcond, hb, Option.bind_eq_bind, Option.bind_some]
        exact if_pos rfl
      · omega
      · exact hforward
      · change f < _ + 1
        omega
    | false =>
      apply passes_text ht
      · rw [turn, url, forward_text behind isPath ht hthree, Option.bind_eq_bind, Option.bind_some,
          isLinked, if_pos hcond, hb, Option.bind_eq_bind, Option.bind_some]
        exact if_neg Bool.false_ne_true
      · omega
      · change f < f + 1 + 1
        omega
  · apply passes_text ht
    · rw [turn, url, forward_text behind isPath ht hthree, Option.bind_eq_bind, Option.bind_some,
        isLinked, if_neg hcond, Option.bind_eq_bind, Option.bind_some]
      exact if_neg Bool.false_ne_true
    · omega
    · change f < f + 1 + 1
      omega

lemma mailStart_le (rest : Text) (f : ℕ) : mailStart rest f ≤ f := by
  have hback := back_le isMailbox rest f
  unfold mailStart
  dsimp only
  split_ifs <;> omega

lemma mailto_passes (ht : NUL ∉ t) (hf : Test.mailto.pattern <+: t.drop f) :
    ∃ pieces m, Passes behind t access .mailto f pieces m := by
  have hone : f + 1 ≤ t.length := by
    have hlen := hf.length_le
    rw [List.length_drop] at hlen
    change 1 ≤ _ at hlen
    omega
  have hback := mailStart_le (t ++ NUL :: behind) f
  have hle := forward_le isMailHost hone
  have hforward := forward_text behind isMailHost ht hone
  generalize f + 1 + ((t.drop (f + 1)).takeWhile isMailHost).length = h at hle hforward
  have hdot : (if (t ++ NUL :: behind)[h]? = some '.' then h - 1 else h) ≤ t.length := by
    split_ifs <;> omega
  by_cases hcond : (if (t ++ NUL :: behind)[h]? = some '.' then h - 1 else h) - f > 4 ∧
      f - mailStart (t ++ NUL :: behind) f > 1
  · apply passes_link ht
    · rw [turn, mailto, hforward, Option.bind_eq_bind, Option.bind_some]
      exact if_pos hcond
    · omega
    · exact hdot
    · change f < _ + 1
      omega
  · apply passes_text ht
    · rw [turn, mailto, hforward, Option.bind_eq_bind, Option.bind_some]
      exact if_neg hcond
    · omega
    · exact Nat.lt_succ_self f

lemma host_passes (ht : NUL ∉ t) {k : Test} (scheme : Text) {p : Text} (hp : p <+: t.drop f)
    (hlen : p.length = 4) (hhost : ∀ x ∈ p, isHost x = true)
    (hturn : turn access (t ++ NUL :: behind) f k = host (t ++ NUL :: behind) f scheme) :
    ∃ pieces m, Passes behind t access k f pieces m := by
  have hfour : f + 4 ≤ t.length := by
    have hle := hp.length_le
    rw [List.length_drop] at hle
    omega
  have hg : f ≤ t.length := by omega
  have hle := forward_le isHost hg
  have hforward := forward_text behind isHost ht hg
  have hfar : 4 ≤ ((t.drop f).takeWhile isHost).length := by
    obtain ⟨u, hu⟩ := hp
    rw [← hu, List.takeWhile_append_of_pos hhost, List.length_append]
    omega
  have hfirst : f + 4 ≤ f + ((t.drop f).takeWhile isHost).length := Nat.add_le_add_left hfar f
  generalize f + ((t.drop f).takeWhile isHost).length = g at hle hforward hfirst
  have hdot : (if (t ++ NUL :: behind)[g - 1]? = some '.' then g - 1 else g) ≤ t.length := by
    split_ifs <;> omega
  by_cases hcond : (if (t ++ NUL :: behind)[g - 1]? = some '.' then g - 1 else g) - f > 4
  · apply passes_link ht
    · rw [hturn, host, hforward, Option.bind_eq_bind, Option.bind_some]
      exact if_pos hcond
    · omega
    · exact hdot
    · omega
  · apply passes_text ht
    · rw [hturn, host, hforward, Option.bind_eq_bind, Option.bind_some]
      exact if_neg hcond
    · omega
    · omega

lemma nameEnd_le {rest : Text} {h : ℕ} (hname : nameEnd rest f = some h) : h ≤ f - 1 := by
  unfold nameEnd at hname
  dsimp only at hname
  split_ifs at hname
  all_goals
    obtain rfl := Option.some.inj hname
    omega

lemma tagStart_le (rest : Text) (h : ℕ) : tagStart rest h ≤ h := by
  induction h with
  | zero => exact Nat.le_refl 0
  | succ h ih =>
    rw [tagStart]
    split_ifs
    · exact Nat.le_refl _
    · exact Nat.le_succ_of_le ih

lemma skipTags_le (rest : Text) (fuel h : ℕ) : skipTags rest fuel h ≤ h := by
  induction fuel generalizing h with
  | zero => exact Nat.le_refl h
  | succ fuel ih =>
    rw [skipTags]
    split_ifs
    · have hle := ih (tagStart rest h - 1)
      have hstart := tagStart_le rest h
      omega
    · exact Nat.le_refl h

lemma pageLink_renders (ht : NUL ∉ t) {h e : ℕ} {pieces : List Piece} (hh : h < t.length)
    (hlink : pageLink (t ++ NUL :: behind) f g h = some (pieces, e)) :
    e = h + 1 ∧ Renders pieces (t.take e) := by
  unfold pageLink at hlink
  split_ifs at hlink
  obtain ⟨rfl, rfl⟩ := Prod.mk.inj (Option.some.inj hlink)
  have hback := back_le isName (t ++ NUL :: behind) h
  exact ⟨rfl, link_renders ht (by omega) hh _ _⟩

lemma pageAt_renders (ht : NUL ∉ t) (hpos : 0 < f) (hlt : f < t.length) {g : Option ℕ} {e : ℕ}
    {pieces : List Piece} (hpage : pageAt (t ++ NUL :: behind) f g = some (pieces, e)) :
    e ≤ f ∧ Renders pieces (t.take e) := by
  obtain ⟨g, rfl, hsection⟩ := Option.bind_eq_some_iff.mp hpage
  split_ifs at hsection
  obtain ⟨h, hname, hlink⟩ := Option.bind_eq_some_iff.mp hsection
  have hend := nameEnd_le hname
  have htags := skipTags_le (t ++ NUL :: behind) (h + 1) h
  obtain ⟨rfl, hrenders⟩ := pageLink_renders ht (by omega) hlink
  exact ⟨by omega, hrenders⟩

lemma manpage_passes (ht : NUL ∉ t) (hpos : 0 < f) (hf : Test.manpage.pattern <+: t.drop f) :
    ∃ pieces m, Passes behind t access .manpage f pieces m := by
  have hlt : f < t.length := by
    have hlen := hf.length_le
    rw [List.length_drop] at hlen
    change 1 ≤ _ at hlen
    omega
  have hclose : strstr [')'] ((t ++ NUL :: behind).drop f) =
      some (occurrence [')'] (t.drop f)) := by
    rw [List.drop_append_of_le_length hlt.le]
    exact strstr_text (by decide) fun h => ht (List.mem_of_mem_drop h)
  cases hpage : pageAt (t ++ NUL :: behind) f (occurrence [')'] (t.drop f)) with
  | none =>
    apply passes_text ht
    · rw [turn, manpage, hclose, Option.bind_eq_bind, Option.bind_some, hpage]
    · exact hlt.le
    · exact Nat.lt_succ_self f
  | some r =>
    obtain ⟨pieces, e⟩ := r
    obtain ⟨he, hrenders⟩ := pageAt_renders ht hpos hlt hpage
    refine ⟨pieces ++ [.text (slice (t ++ NUL :: behind) e f)], f, ?_, ?_, hlt.le,
      Nat.lt_succ_self f⟩
    · rw [turn, manpage, hclose, Option.bind_eq_bind, Option.bind_some, hpage]
    · rw [slice_text ht he hlt.le, ← take_add_slice he]
      have htext := Renders.nil.text ((t.drop e).take (f - e))
      rw [List.append_nil] at htext
      exact hrenders.append htext

lemma header_passes (ht : NUL ∉ t) (hf : Test.header.pattern <+: t.drop f) :
    ∃ pieces m, Passes behind t access .header f pieces m := by
  have hlen : f + 6 ≤ t.length := by
    have hlen := hf.length_le
    rw [List.length_drop] at hlen
    change 6 ≤ _ at hlen
    omega
  have hback := back_le (· ≠ ';') (t ++ NUL :: behind) f
  have hturn : turn access (t ++ NUL :: behind) f .header =
    some (header access (t ++ NUL :: behind) f) := rfl
  unfold header at hturn
  generalize back (· ≠ ';') (t ++ NUL :: behind) f = g at hback hturn
  dsimp only at hturn
  split at hturn
  · next dir hdir =>
    refine ⟨_, f + 6, hturn, ?_, hlen, by change f < f + 6 + 1; omega⟩
    have hname : ((t ++ NUL :: behind).drop g).take (f + 2 - g) =
        (t.drop g).take (f + 2 - g) := by
      rw [List.drop_append_of_le_length (by omega), List.take_append_of_le_length]
      rw [List.length_drop]
      omega
    have hclose : (t.drop (f + 2)).take 4 = "&gt;".toList := by
      obtain ⟨v, hv⟩ := hf
      rw [← List.drop_drop, ← hv]
      rfl
    have hsplit : t.take (f + 6) =
        t.take g ++ ((t.drop g).take (f + 2 - g) ++ ("&gt;".toList ++ [])) := by
      have hsix : t.take (f + 2) ++ (t.drop (f + 2)).take (f + 6 - (f + 2)) = t.take (f + 6) :=
        take_add_slice (by omega)
      have htwo : t.take g ++ (t.drop g).take (f + 2 - g) = t.take (f + 2) :=
        take_add_slice (by omega)
      have hfour : f + 6 - (f + 2) = 4 := by omega
      rw [hfour, hclose] at hsix
      rw [← hsix, ← htwo, List.append_nil, List.append_assoc]
    rw [hname, hsplit]
    exact (text_renders ht (by omega)).append
      (((Renders.nil.text "&gt;".toList).file _ ((t.drop g).take (f + 2 - g)) _))
  · next hdir =>
    apply passes_text ht hturn
    · omega
    · change f < f + 5 + 1
      omega

variable (access behind) in
lemma turn_passes (ht : NUL ∉ t) (k : Test) (hpos : k.ahead ≤ f) (hf : k.pattern <+: t.drop f) :
    ∃ pieces m, Passes behind t access k f pieces m := by
  cases k with
  | url => exact url_passes ht hf
  | mailto => exact mailto_passes ht hf
  | www => exact host_passes ht "http".toList hf rfl (List.all_eq_true.mp rfl) rfl
  | ftp => exact host_passes ht "ftp".toList hf rfl (List.all_eq_true.mp rfl) rfl
  | manpage => exact manpage_passes ht hpos hf
  | header => exact header_passes ht hf

end

/-! ### The first candidates -/

lemma occurrence_spec {p t : Text} {i : ℕ} (h : occurrence p t = some i) : p <+: t.drop i := by
  induction t generalizing i with
  | nil => exact absurd h (by simp [occurrence])
  | cons x t ih =>
    rw [occurrence] at h
    split_ifs at h with hp
    · obtain rfl := Option.some.inj h
      exact hp
    · obtain ⟨j, hj, rfl⟩ := Option.map_eq_some_iff.mp h
      exact ih hj

lemma occurrence_none {p t : Text} (h : occurrence p t = none) (m : ℕ) :
    occurrence p (t.drop m) = none := by
  induction t generalizing m with
  | nil => simp [occurrence]
  | cons x t ih =>
    cases m with
    | zero => exact h
    | succ m =>
      rw [occurrence] at h
      split_ifs at h
      exact ih (Option.map_eq_none_iff.mp h) m

lemma occurrence_drop {p t : Text} {i m : ℕ} (h : occurrence p t = some i) (hm : m ≤ i) :
    occurrence p (t.drop m) = some (i - m) := by
  induction t generalizing i m with
  | nil => exact absurd h (by simp [occurrence])
  | cons x t ih =>
    cases m with
    | zero => exact h
    | succ m =>
      rw [occurrence] at h
      split_ifs at h
      · obtain rfl := Option.some.inj h
        exact absurd hm (Nat.not_succ_le_zero m)
      · obtain ⟨j, hj, rfl⟩ := Option.map_eq_some_iff.mp h
        rw [List.drop_succ_cons, ih hj (Nat.le_of_succ_le_succ hm), Nat.add_sub_add_right]

variable {k : Test}

lemma firsts_spec {t : Text} {p : ℕ} (h : firsts t k = some p) :
    k.ahead ≤ p ∧ k.pattern <+: t.drop p ∧ p < t.length := by
  obtain ⟨i, hi, rfl⟩ := Option.map_eq_some_iff.mp h
  have hspec := occurrence_spec hi
  rw [List.drop_drop, Nat.add_comm] at hspec
  refine ⟨Nat.le_add_left _ _, hspec, ?_⟩
  have hlen := hspec.length_le
  have hpos := pattern_length k
  rw [List.length_drop] at hlen
  omega

lemma firsts_drop {t : Text} {p m : ℕ} (h : firsts t k = some p) (hm : m + k.ahead ≤ p) :
    firsts (t.drop m) k = some (p - m) := by
  obtain ⟨i, hi, rfl⟩ := Option.map_eq_some_iff.mp h
  rw [firsts, List.drop_drop, Nat.add_comm, ← List.drop_drop, occurrence_drop hi (by omega)]
  rw [Option.map_some, Nat.sub_add_comm (by omega)]

lemma firsts_none {t : Text} (h : firsts t k = none) (m : ℕ) :
    firsts (t.drop m) k = none := by
  have hno := occurrence_none (Option.map_eq_none_iff.mp h) m
  rw [firsts, List.drop_drop, Nat.add_comm, ← List.drop_drop, hno]
  rfl

lemma search_text {t behind : Text} (ht : NUL ∉ t) (hk : k.ahead ≤ t.length) :
    search (t ++ NUL :: behind) k = some (firsts t k) := by
  rw [search, List.drop_append_of_le_length hk,
    strstr_text (pattern_noNul k) fun h => ht (List.mem_of_mem_drop h)]
  rfl

lemma search_behind (behind : Text) (k : Test) :
    search (NUL :: behind) k = if k.ahead = 0 then some none
      else (strstr k.pattern behind).map fun p => p.map (· + 1) := by
  cases k <;> rfl

lemma mem_all (k : Test) : k ∈ Test.all := by
  cases k <;> decide

lemma collect_eq_some {results : Test → Option (Option ℕ)} {idtest : Test → Option ℕ} :
    collect results = some idtest ↔ ∀ k, results k = some (idtest k) := by
  unfold collect
  constructor
  · intro h k
    split_ifs at h with hall
    obtain rfl := Option.some.inj h
    obtain ⟨p, hp⟩ := Option.isSome_iff_exists.mp (List.all_eq_true.mp hall k (mem_all k))
    dsimp only
    rw [hp]
    rfl
  · intro h
    have hall : Test.all.all (fun k => (results k).isSome) = true :=
      List.all_eq_true.mpr fun k _ => by rw [h k]; rfl
    rw [if_pos hall]
    congr 1
    funext k
    rw [h k]
    rfl

lemma nearest_foldl (idtest : Test → Option ℕ) (tests : List Test) (best : Option (Test × ℕ))
    (hbest : ∀ k f, best = some (k, f) → idtest k = some f) :
    let result := tests.foldl (fun best k =>
      match idtest k, best with
      | none, best => best
      | some p, none => some (k, p)
      | some p, some (j, q) => if p < q then some (k, p) else some (j, q)) best
    (∀ k f, result = some (k, f) → idtest k = some f) ∧
      (result = none → best = none ∧ ∀ k ∈ tests, idtest k = none) := by
  induction tests generalizing best with
  | nil => exact ⟨hbest, fun h => ⟨h, by simp⟩⟩
  | cons k tests ih =>
    rw [List.foldl_cons]
    cases hk : idtest k with
    | none =>
      obtain ⟨hsome, hnone⟩ := ih best hbest
      refine ⟨hsome, fun h => ⟨(hnone h).1, fun j hj => ?_⟩⟩
      rcases List.mem_cons.mp hj with rfl | hj
      · exact hk
      · exact (hnone h).2 j hj
    | some p =>
      cases best with
      | none =>
        obtain ⟨hsome, hnone⟩ := ih (some (k, p)) fun j f h => by
          obtain ⟨rfl, rfl⟩ := Prod.mk.inj (Option.some.inj h)
          exact hk
        exact ⟨hsome, fun h => absurd (hnone h).1 (by simp)⟩
      | some b =>
        obtain ⟨j, q⟩ := b
        by_cases hlt : p < q
        · obtain ⟨hsome, hnone⟩ := ih (some (k, p)) fun j f h => by
            obtain ⟨rfl, rfl⟩ := Prod.mk.inj (Option.some.inj h)
            exact hk
          dsimp only
          rw [if_pos hlt]
          exact ⟨hsome, fun h => absurd (hnone h).1 (by simp)⟩
        · obtain ⟨hsome, hnone⟩ := ih (some (j, q)) hbest
          dsimp only
          rw [if_neg hlt]
          exact ⟨hsome, fun h => absurd (hnone h).1 (by simp)⟩

lemma nearest_some {idtest : Test → Option ℕ} {f : ℕ} (h : nearest idtest = some (k, f)) :
    idtest k = some f :=
  (nearest_foldl idtest Test.all none (by simp)).1 k f h

lemma nearest_none {idtest : Test → Option ℕ} (h : nearest idtest = none) (k : Test) :
    idtest k = none :=
  ((nearest_foldl idtest Test.all none (by simp)).2 h).2 k (mem_all k)

section

variable {t behind : Text}

variable {fuel m : ℕ} {idtest : Test → Option ℕ} {out : List Piece} {u : Text} {x : Char}

variable (behind) in
lemma moved_firsts (ht : NUL ∉ t) (hm : m < t.length) (k : Test) :
    moved ((t ++ NUL :: behind).drop m) m (firsts t) k = some (firsts (t.drop m) k) := by
  unfold moved
  cases h : firsts t k with
  | none => exact congrArg some (firsts_none h m).symm
  | some p =>
    dsimp only
    split_ifs with hpassed
    · rw [List.drop_append_of_le_length hm.le]
      apply search_text fun h => ht (List.mem_of_mem_drop h)
      have hle := ahead_le k
      rw [List.length_drop]
      omega
    · rw [firsts_drop h (Nat.le_of_not_lt hpassed)]

lemma moved_end (k : Test) :
    moved (NUL :: behind) t.length (firsts t) k =
      if (firsts t k).isSome = true then search (NUL :: behind) k else some none := by
  unfold moved
  cases h : firsts t k with
  | none => rfl
  | some p =>
    obtain ⟨-, -, hlt⟩ := firsts_spec h
    exact if_pos (Nat.lt_of_lt_of_le hlt (Nat.le_add_right _ _))

/-! ### The run over the text -/

variable {access : Text → Bool}

lemma loop_turn {rest : Text} {idtest' : Test → Option ℕ} {k : Test} {f : ℕ} {pieces : List Piece}
    (hnear : nearest idtest = some (k, f)) (hturn : turn access rest f k = some (pieces, m))
    (hmoved : collect (moved (rest.drop m) m idtest) = some idtest') :
    loop access (fuel + 1) rest idtest =
      (loop access fuel (rest.drop m) idtest').map fun out => pieces ++ out := by
  rw [loop, hnear]
  dsimp only
  rw [hturn, Option.bind_eq_bind, Option.bind_some]
  dsimp only
  rw [hmoved, Option.bind_eq_bind, Option.bind_some, Option.bind_eq_bind, Option.map_eq_bind]
  rfl

variable (access behind) in
lemma nextCut_spec (ht : NUL ∉ t) {k : Test} {f : ℕ} (hnear : nearest (firsts t) = some (k, f)) :
    ∃ pieces m, Passes behind t access k f pieces m ∧ nextCut access behind t = some m := by
  obtain ⟨hahead, hpattern, -⟩ := firsts_spec (nearest_some hnear)
  obtain ⟨pieces, m, hpasses⟩ := turn_passes behind access ht k hahead hpattern
  refine ⟨pieces, m, hpasses, ?_⟩
  rw [nextCut, hnear, Option.bind_eq_bind, Option.bind_some]
  dsimp only
  rw [hpasses.turn]
  rfl

lemma Passes.pos {k : Test} {f : ℕ} {pieces : List Piece} (h : Passes behind t access k f pieces m)
    (hk : k.ahead ≤ f) : 0 < m := by
  have hlt := h.passes
  omega

lemma drop_text (hm : m ≤ t.length) :
    (t ++ NUL :: behind).drop m = t.drop m ++ NUL :: behind :=
  List.drop_append_of_le_length hm

lemma Cut.length_le {text : Text} (h : Cut access behind text t) : t.length ≤ text.length := by
  induction h with
  | start => exact Nat.le_refl _
  | next h hm hlt ih =>
    rw [List.length_drop]
    omega

lemma cut_reached {text : Text} (htext : NUL ∉ text) (hfuel : text.length < fuel)
    (h : Cut access behind text t) :
    ∃ pieces passed fuel', text = passed ++ t ∧ Renders pieces passed ∧ t.length < fuel' ∧
      loop access fuel (text ++ NUL :: behind) (firsts text) =
        (loop access fuel' (t ++ NUL :: behind) (firsts t)).map fun out => pieces ++ out := by
  induction h with
  | start =>
    refine ⟨[], [], fuel, rfl, .nil, hfuel, ?_⟩
    have hid : (fun out : List Piece => [] ++ out) = id := rfl
    rw [hid, Option.map_id]
    rfl
  | @next t m h hm hlt ih =>
    obtain ⟨pieces, passed, fuel', rfl, hrenders, hfuel', hloop⟩ := ih
    have ht : NUL ∉ t := fun hmem => htext (List.mem_append_right _ hmem)
    obtain ⟨fuel', rfl⟩ : ∃ n, fuel' = n + 1 := ⟨fuel' - 1, by omega⟩
    cases hnear : nearest (firsts t) with
    | none =>
      rw [nextCut, hnear] at hm
      exact absurd hm (by simp)
    | some r =>
      obtain ⟨k, f⟩ := r
      obtain ⟨pieces', m', hpasses, hcut⟩ := nextCut_spec behind access ht hnear
      obtain rfl : m' = m := Option.some.inj (hcut.symm.trans hm)
      have hpos := hpasses.pos (firsts_spec (nearest_some hnear)).1
      have hmoved := collect_eq_some.mpr (moved_firsts behind ht hlt)
      refine ⟨pieces ++ pieces', passed ++ t.take m', fuel', ?_,
        hrenders.append hpasses.renders, ?_, ?_⟩
      · rw [List.append_assoc, List.take_append_drop]
      · rw [List.length_drop]
        omega
      · rw [hloop, loop_turn hnear hpasses.turn hmoved, Option.map_map, drop_text hlt.le]
        congr 1
        funext out
        exact (List.append_assoc pieces pieces' out).symm

lemma loop_end {k : Test} {f : ℕ} {pieces : List Piece} (hnear : nearest (firsts t) = some (k, f))
    (hpasses : Passes behind t access k f pieces m) (hm : m = t.length)
    (hmoved : collect (moved (NUL :: behind) m (firsts t)) = some idtest) :
    loop access (fuel + 1) (t ++ NUL :: behind) (firsts t) =
      (loop access fuel (NUL :: behind) idtest).map fun out => pieces ++ out := by
  have hdrop : (t ++ NUL :: behind).drop m = NUL :: behind := by
    rw [hm, List.drop_left]
  rw [loop_turn hnear hpasses.turn (hdrop ▸ hmoved), hdrop]

lemma upToNul_text (ht : NUL ∉ t) : upToNul (t ++ NUL :: behind) = some t := by
  have hmem : NUL ∈ t ++ NUL :: behind := by simp
  have htake : (t ++ NUL :: behind).takeWhile (fun x => decide (x ≠ NUL)) = t := by
    have heq : (fun x : Char => decide (x ≠ NUL)) = fun x => decide (x ≠ NUL) && true :=
      funext fun x => (Bool.and_true _).symm
    rw [heq, takeWhile_text (fun _ => true) ht, List.takeWhile_eq_self_iff]
    exact fun _ _ => rfl
  rw [upToNul, if_pos hmem, htake]

lemma loop_rest (ht : NUL ∉ t) (hnear : nearest idtest = none) :
    loop access (fuel + 1) (t ++ NUL :: behind) idtest = some [.text t] := by
  rw [loop, hnear]
  dsimp only
  rw [upToNul_text ht]
  rfl

lemma search_clean {k : Test} (h : k.ahead = 1 → strstr k.pattern behind = some none) :
    search (NUL :: behind) k = some none := by
  rw [search_behind]
  split_ifs with hzero
  · rfl
  · have hle := ahead_le k
    rw [h (by omega)]
    rfl

lemma nearest_nothing : nearest (fun _ => none) = none := rfl

/-- From a place where it is cut, the text is put out if nothing stands behind the terminator that
is looked for. -/
lemma loop_renders {text : Text} (hclean : Clean access behind text) (hne : t ≠ [])
    (h : Cut access behind text t) (ht : NUL ∉ t) (hfuel : t.length < fuel) :
    ∃ out, loop access fuel (t ++ NUL :: behind) (firsts t) = some out ∧ Renders out t := by
  induction fuel generalizing t with
  | zero => exact absurd hfuel (Nat.not_lt_zero _)
  | succ fuel ih =>
    cases hnear : nearest (firsts t) with
    | none => exact ⟨_, loop_rest ht hnear, Renders.only t⟩
    | some r =>
      obtain ⟨k, f⟩ := r
      obtain ⟨pieces, m, hpasses, hcut⟩ := nextCut_spec behind access ht hnear
      have hpos := hpasses.pos (firsts_spec (nearest_some hnear)).1
      rcases Nat.lt_or_eq_of_le hpasses.inside with hlt | heq
      · have hmoved := collect_eq_some.mpr (moved_firsts behind ht hlt)
        obtain ⟨out, hloop, hrenders⟩ := ih (t := t.drop m)
          (by rw [Ne, List.drop_eq_nil_iff]; omega) (h.next hcut hlt)
          (fun hmem => ht (List.mem_of_mem_drop hmem)) (by rw [List.length_drop]; omega)
        refine ⟨pieces ++ out, ?_, ?_⟩
        · rw [loop_turn hnear hpasses.turn hmoved, drop_text hlt.le, hloop]
          rfl
        · have hboth := hpasses.renders.append hrenders
          rwa [List.take_append_drop] at hboth
      · -- the link ends the text
        have hnone : ∀ k, moved (NUL :: behind) m (firsts t) k = some none := by
          intro k
          rw [heq, moved_end]
          split_ifs with hsome
          · exact search_clean fun hk => hclean k ⟨hk, Or.inr ⟨t, h, heq ▸ hcut, hsome⟩⟩
          · rfl
        have hmoved : collect (moved (NUL :: behind) m (firsts t)) = some fun _ => none :=
          collect_eq_some.mpr hnone
        obtain ⟨fuel, rfl⟩ : ∃ n, fuel = n + 1 := ⟨fuel - 1, by omega⟩
        have hrest : loop access (fuel + 1) (NUL :: behind) (fun _ => none) = some [.text []] :=
          loop_rest List.not_mem_nil nearest_nothing
        refine ⟨pieces ++ [.text []], ?_, ?_⟩
        · rw [loop_end hnear hpasses heq hmoved, hrest]
          rfl
        · have hboth := hpasses.renders.append (Renders.nil.text [])
          rw [heq, List.take_length] at hboth
          rwa [List.append_nil, List.append_nil] at hboth

/-! ### What is found behind the terminator is put out -/

def characters (out : List Piece) : Text := out.flatMap Piece.characters

/-- The output has a character that is no blank. -/
def Visible (out : List Piece) : Prop := ∃ x ∈ characters out, isSpace x = false

lemma characters_append (out out' : List Piece) :
    characters (out ++ out') = characters out ++ characters out' := List.flatMap_append

lemma Visible.append_left {out' : List Piece} (h : Visible out) : Visible (out ++ out') := by
  obtain ⟨x, hx, hspace⟩ := h
  exact ⟨x, by rw [characters_append]; exact List.mem_append_left _ hx, hspace⟩

lemma Visible.append_right {out' : List Piece} (h : Visible out') :
    Visible (out ++ out') := by
  obtain ⟨x, hx, hspace⟩ := h
  exact ⟨x, by rw [characters_append]; exact List.mem_append_right _ hx, hspace⟩

lemma trimmed_filter (u : Text) :
    (trimmed u).filter (fun x => !isSpace x) = u.filter fun x => !isSpace x := by
  have hdrop : ∀ l : Text, (l.dropWhile isSpace).filter (fun x => !isSpace x) =
      l.filter fun x => !isSpace x := by
    intro l
    induction l with
    | nil => rfl
    | cons x l ih =>
      rw [List.dropWhile_cons, List.filter_cons]
      cases h : isSpace x with
      | true => simp [ih]
      | false => simp [h]
  rw [trimmed, List.filter_reverse, hdrop, List.filter_reverse, hdrop, List.reverse_reverse]

lemma renders_filter (h : Renders out t) :
    (characters out).filter (fun x => !isSpace x) = t.filter fun x => !isSpace x := by
  induction h with
  | nil => rfl
  | text u h ih =>
    rw [characters, List.flatMap_cons, List.filter_append, List.filter_append]
    exact congrArg _ ih
  | link tag u close h ih =>
    rw [characters, List.flatMap_cons, List.filter_append, List.filter_append]
    exact congrArg _ ih
  | file tag u close h ih =>
    rw [characters, List.flatMap_cons, List.filter_append, List.filter_append]
    exact congrArg₂ _ (trimmed_filter u) ih

lemma Renders.nothing_more {out' : List Piece} (h : Renders out t)
    (hall : Renders (out ++ out') t) : ¬ Visible out' := by
  rintro ⟨x, hx, hspace⟩
  have hall' := renders_filter hall
  rw [characters_append, List.filter_append, renders_filter h] at hall'
  have hnil := List.append_right_eq_self.mp hall'
  have hmem : x ∈ (characters out').filter fun x => !isSpace x :=
    List.mem_filter.mpr ⟨hx, by rw [hspace]; rfl⟩
  rw [hnil] at hmem
  exact absurd hmem List.not_mem_nil

structure Seen (x : Char) : Prop where
  ne : x ≠ NUL
  space : isSpace x = false

lemma slice_mem {rest : Text} {i j : ℕ} (hx : x ≠ NUL) (hi : rest.drop i = x :: u) (hij : i < j) :
    x ∈ slice rest i j := by
  obtain ⟨n, hn⟩ : ∃ n, j - i = n + 1 := ⟨j - i - 1, by omega⟩
  rw [slice, hi, hn, List.take_succ_cons, List.takeWhile_cons, if_pos (decide_eq_true hx)]
  exact List.mem_cons_self

lemma link_mem {rest : Text} {g h : ℕ} (hx : x ≠ NUL) (hrest : rest = x :: u) (hh : 0 < h)
    (tag close : Text) (more : List Piece) :
    x ∈ characters (.text (slice rest 0 g) :: .link tag (slice rest g h) close :: more) := by
  have hdrop : rest.drop 0 = x :: u := hrest
  rw [characters, List.flatMap_cons, List.flatMap_cons]
  rcases Nat.eq_zero_or_pos g with rfl | hg
  · exact List.mem_append_right _ (List.mem_append_left _ (slice_mem hx hdrop hh))
  · exact List.mem_append_left _ (slice_mem hx hdrop hg)

lemma text_mem {rest : Text} (hx : x ≠ NUL) (hrest : rest = x :: u) (hm : 0 < m)
    (more : List Piece) : x ∈ characters (.text (slice rest 0 m) :: more) := by
  rw [characters, List.flatMap_cons]
  exact List.mem_append_left _ (slice_mem hx (i := 0) hrest hm)

lemma turn_mem {rest : Text} {k : Test} {f : ℕ} {pieces : List Piece} (hx : x ≠ NUL)
    (hrest : rest = x :: u) (hf : k.ahead ≤ f) (hturn : turn access rest f k = some (pieces, m)) :
    x ∈ characters pieces := by
  have hhost : ∀ scheme, host rest f scheme = some (pieces, m) → x ∈ characters pieces := by
    intro scheme hhost
    obtain ⟨g, -, hg⟩ := Option.bind_eq_some_iff.mp hhost
    dsimp only at hg
    generalize (if rest[g - 1]? = some '.' then g - 1 else g) = g' at hg
    split_ifs at hg with hcond
    · obtain ⟨rfl, rfl⟩ := Prod.mk.inj (Option.some.inj hg)
      exact link_mem hx hrest (by omega) _ _ []
    · obtain ⟨rfl, rfl⟩ := Prod.mk.inj (Option.some.inj hg)
      exact text_mem hx hrest (by omega) []
  cases k with
  | url =>
    obtain ⟨h, hforward, hknown⟩ := Option.bind_eq_some_iff.mp hturn
    obtain ⟨b, -, hlink⟩ := Option.bind_eq_some_iff.mp hknown
    have hle : f + 3 ≤ h := forward_ge hforward
    split_ifs at hlink
    · obtain ⟨rfl, rfl⟩ := Prod.mk.inj (Option.some.inj hlink)
      exact link_mem hx hrest (by omega) _ _ []
    · obtain ⟨rfl, rfl⟩ := Prod.mk.inj (Option.some.inj hlink)
      exact text_mem hx hrest (by omega) []
  | mailto =>
    have hpos : 1 ≤ f := hf
    obtain ⟨h, hforward, hlink⟩ := Option.bind_eq_some_iff.mp hturn
    dsimp only at hlink
    generalize (if rest[h]? = some '.' then h - 1 else h) = h' at hlink
    split_ifs at hlink with hcond
    · obtain ⟨rfl, rfl⟩ := Prod.mk.inj (Option.some.inj hlink)
      exact link_mem hx hrest (by omega) _ _ []
    · obtain ⟨rfl, rfl⟩ := Prod.mk.inj (Option.some.inj hlink)
      exact text_mem hx hrest hpos []
  | www => exact hhost _ hturn
  | ftp => exact hhost _ hturn
  | manpage =>
    have hpos : 1 ≤ f := hf
    obtain ⟨g, -, hpage⟩ := Option.bind_eq_some_iff.mp hturn
    cases hat : pageAt rest f g with
    | none =>
      rw [hat] at hpage
      obtain ⟨rfl, rfl⟩ := Prod.mk.inj (Option.some.inj hpage)
      exact text_mem hx hrest hpos []
    | some r =>
      obtain ⟨pieces', e⟩ := r
      rw [hat] at hpage
      obtain ⟨rfl, rfl⟩ := Prod.mk.inj (Option.some.inj hpage)
      obtain ⟨g, rfl, hsection⟩ := Option.bind_eq_some_iff.mp hat
      split_ifs at hsection
      obtain ⟨h, -, hlink⟩ := Option.bind_eq_some_iff.mp hsection
      unfold pageLink at hlink
      split_ifs at hlink
      obtain ⟨rfl, rfl⟩ := Prod.mk.inj (Option.some.inj hlink)
      exact link_mem hx hrest (Nat.succ_pos _) _ _ _
  | header =>
    have hpieces := Option.some.inj hturn
    unfold header at hpieces
    dsimp only at hpieces
    split at hpieces
    · next dir hdir =>
      obtain ⟨rfl, rfl⟩ := Prod.mk.inj hpieces
      have hpos : back (· ≠ ';') rest f ≠ 0 := by
        intro hzero
        rw [if_neg (not_not.mpr hzero)] at hdir
        exact absurd hdir (by simp)
      exact text_mem hx hrest (Nat.pos_of_ne_zero hpos) _
    · obtain ⟨rfl, rfl⟩ := Prod.mk.inj hpieces
      exact text_mem hx hrest (by omega) []

lemma loop_some {rest : Text} {k : Test} {f : ℕ} (hnear : nearest idtest = some (k, f))
    (hloop : loop access (fuel + 1) rest idtest = some out) :
    ∃ pieces m idtest' out', turn access rest f k = some (pieces, m) ∧
      collect (moved (rest.drop m) m idtest) = some idtest' ∧
      loop access fuel (rest.drop m) idtest' = some out' ∧ out = pieces ++ out' := by
  rw [loop, hnear] at hloop
  obtain ⟨⟨pieces, m⟩, hturn, hrest⟩ := Option.bind_eq_some_iff.mp hloop
  obtain ⟨idtest', hmoved, hrest'⟩ := Option.bind_eq_some_iff.mp hrest
  obtain ⟨out', hout, heq⟩ := Option.bind_eq_some_iff.mp hrest'
  exact ⟨pieces, m, idtest', out', hturn, hmoved, hout, (Option.some.inj heq).symm⟩

/-- Every pointer stands as far behind the cursor as the search for it begins. -/
def Ahead (idtest : Test → Option ℕ) : Prop := ∀ k p, idtest k = some p → k.ahead ≤ p

lemma search_ahead {rest : Text} {k : Test} {p : ℕ} (h : search rest k = some (some p)) :
    k.ahead ≤ p := by
  obtain ⟨q, -, hq⟩ := Option.map_eq_some_iff.mp h
  obtain ⟨r, -, rfl⟩ := Option.map_eq_some_iff.mp hq
  exact Nat.le_add_left _ _

lemma Ahead.moved {rest : Text} {idtest' : Test → Option ℕ}
    (hmoved : collect (moved rest m idtest) = some idtest') : Ahead idtest' := by
  intro k p hp
  have hk := collect_eq_some.mp hmoved k
  rw [hp, Links.moved] at hk
  cases h : idtest k with
  | none =>
    rw [h] at hk
    exact absurd hk (by simp)
  | some q =>
    rw [h] at hk
    dsimp only at hk
    split_ifs at hk with hlt
    · exact search_ahead hk
    · have heq := Option.some.inj (Option.some.inj hk)
      omega

lemma loop_visible {rest : Text} (hx : Seen x) (hrest : rest = x :: u) (hahead : Ahead idtest)
    (hloop : loop access fuel rest idtest = some out) : Visible out := by
  cases fuel with
  | zero => exact absurd hloop (by simp [loop])
  | succ fuel =>
    cases hnear : nearest idtest with
    | none =>
      rw [loop, hnear] at hloop
      obtain ⟨t, ht, rfl⟩ := Option.map_eq_some_iff.mp hloop
      unfold upToNul at ht
      split_ifs at ht
      obtain rfl := Option.some.inj ht
      refine ⟨x, ?_, hx.space⟩
      rw [characters, List.flatMap_singleton, hrest, Piece.characters]
      rw [List.takeWhile_cons, if_pos (decide_eq_true hx.ne)]
      exact List.mem_cons_self
    | some r =>
      obtain ⟨k, f⟩ := r
      obtain ⟨pieces, m, idtest', out', hturn, -, -, rfl⟩ := loop_some hnear hloop
      have hmem := turn_mem hx.ne hrest (hahead k f (nearest_some hnear)) hturn
      exact Visible.append_left ⟨x, hmem, hx.space⟩

lemma Seen.of_le (h : 33 ≤ x.toNat) : Seen x := by
  constructor
  · rintro rfl
    exact absurd h (by decide)
  · unfold isSpace
    rw [Bool.or_eq_false_iff, Bool.and_eq_false_iff, decide_eq_false_iff_not,
      decide_eq_false_iff_not, decide_eq_false_iff_not]
    refine ⟨?_, Or.inr (by omega)⟩
    rintro rfl
    exact absurd h (by decide)

lemma Seen.of_alphanum (h : x.isAlphanum = true) : Seen x := by
  apply Seen.of_le
  delta Char.isAlphanum Char.isAlpha Char.isUpper Char.isLower Char.isDigit at h
  simp only [Bool.or_eq_true, Bool.and_eq_true, decide_eq_true_eq, ge_iff_le,
    UInt32.le_iff_toNat_le] at h
  have hval : x.toNat = x.val.toNat := rfl
  simp at h
  omega

lemma back_seen {ok : Char → Bool} {rest : Text} {f : ℕ} (hok : ∀ x, ok x = true → Seen x)
    (h : back ok rest f < f) : ∃ x u, Seen x ∧ rest.drop (back ok rest f) = x :: u := by
  have hspec := back_spec h
  cases hx : rest[back ok rest f]? with
  | none =>
    rw [hx] at hspec
    exact absurd hspec Bool.false_ne_true
  | some x =>
    rw [hx] at hspec
    obtain ⟨hlt, heq⟩ := List.getElem?_eq_some_iff.mp hx
    refine ⟨x, rest.drop (back ok rest f + 1), hok x hspec, ?_⟩
    rw [List.drop_eq_getElem_cons hlt, heq]

lemma link_visible {rest : Text} {i g h : ℕ} (hx : Seen x) (hg : rest.drop g = x :: u) (hlt : g < h)
    (tag close : Text) :
    Visible [.text (slice rest i g), .link tag (slice rest g h) close] := by
  refine ⟨x, ?_, hx.space⟩
  rw [characters, List.flatMap_cons, List.flatMap_singleton]
  exact List.mem_append_right _ (slice_mem hx.ne hg hlt)

lemma url_seen (h : isProtocol x = true) : Seen x := by
  rw [isProtocol, Bool.and_eq_true] at h
  apply Seen.of_alphanum
  exact Bool.or_eq_true_iff.mpr (Or.inl h.1)

lemma mailbox_seen (h : isMailbox x = true) : Seen x := by
  rw [isMailbox, Bool.or_eq_true, decide_eq_true_eq] at h
  rcases h with h | h
  · exact Seen.of_alphanum h
  · simp only [List.mem_cons, List.not_mem_nil, or_false] at h
    rcases h with rfl | rfl | rfl | rfl | rfl <;> exact Seen.of_le (by decide)

lemma mailStart_seen {rest : Text} {f : ℕ} (h : mailStart rest f < f) :
    ∃ x u, Seen x ∧ rest.drop (mailStart rest f) = x :: u := by
  unfold mailStart at h ⊢
  dsimp only at h ⊢
  split_ifs at h ⊢ with hpref
  · refine ⟨'m', (rest.drop (back isMailbox rest f - 7)).tail, Seen.of_le (by decide), ?_⟩
    cases hdrop : rest.drop (back isMailbox rest f - 7) with
    | nil =>
      rw [hdrop] at hpref
      exact absurd hpref.2.2 (by decide)
    | cons x u =>
      rw [hdrop] at hpref
      have hx : x = 'm' := (List.cons.inj hpref.2.2).1
      rw [hx, List.tail_cons]
  · exact back_seen (fun x => mailbox_seen) h

lemma candidate_visible {rest : Text} {k : Test} {f : ℕ} (hnear : nearest idtest = some (k, f))
    (hk : k.ahead = 1) (hpattern : k.pattern <+: rest.drop f)
    (hloop : loop access fuel rest idtest = some out) :
    Visible out := by
  obtain ⟨v, hv⟩ := hpattern
  cases fuel with
  | zero => exact absurd hloop (by simp [loop])
  | succ fuel =>
    obtain ⟨pieces, m, idtest', out', hturn, hmoved, hloop', rfl⟩ := loop_some hnear hloop
    -- the cursor stands at a character of the pattern
    have hlater : ∀ x u, Seen x → rest.drop m = x :: u → Visible (pieces ++ out') :=
      fun x u hx hdrop => (loop_visible hx hdrop (Ahead.moved hmoved) hloop').append_right
    cases k with
    | url =>
      obtain ⟨h, hforward, hknown⟩ := Option.bind_eq_some_iff.mp hturn
      obtain ⟨b, hlinked, hlink⟩ := Option.bind_eq_some_iff.mp hknown
      have hle : f + 3 ≤ h := forward_ge hforward
      split_ifs at hlink with hb
      · obtain ⟨rfl, rfl⟩ := Prod.mk.inj (Option.some.inj hlink)
        unfold isLinked at hlinked
        split_ifs at hlinked with hcond
        · have hback : back isProtocol rest f < f := by omega
          obtain ⟨x, u, hx, hdrop⟩ := back_seen (fun x => url_seen) hback
          change rest.drop (back isProtocol rest f) = x :: u at hdrop
          exact (link_visible hx hdrop (by omega) _ _).append_left
        · obtain rfl := Option.some.inj hlinked
          exact absurd hb Bool.false_ne_true
      · obtain ⟨rfl, rfl⟩ := Prod.mk.inj (Option.some.inj hlink)
        apply hlater '/' ('/' :: v) (Seen.of_le (by decide))
        rw [← List.drop_drop, ← hv]
        rfl
    | mailto =>
      obtain ⟨h, hforward, hlink⟩ := Option.bind_eq_some_iff.mp hturn
      dsimp only at hlink
      generalize (if rest[h]? = some '.' then h - 1 else h) = h' at hlink
      split_ifs at hlink with hcond
      · obtain ⟨rfl, rfl⟩ := Prod.mk.inj (Option.some.inj hlink)
        obtain ⟨x, u, hx, hdrop⟩ := mailStart_seen (by omega : mailStart rest f < f)
        exact (link_visible hx hdrop (by omega) _ _).append_left
      · obtain ⟨rfl, rfl⟩ := Prod.mk.inj (Option.some.inj hlink)
        exact hlater '@' v (Seen.of_le (by decide)) hv.symm
    | www => exact absurd hk (by decide)
    | ftp => exact absurd hk (by decide)
    | manpage =>
      obtain ⟨g, -, hpage⟩ := Option.bind_eq_some_iff.mp hturn
      have hm : m = f := by
        cases hat : pageAt rest f g with
        | none =>
          rw [hat] at hpage
          exact (Prod.mk.inj (Option.some.inj hpage)).2.symm
        | some r =>
          rw [hat] at hpage
          exact (Prod.mk.inj (Option.some.inj hpage)).2.symm
      exact hlater '(' v (Seen.of_le (by decide)) (hm ▸ hv.symm)
    | header =>
      have hpieces := Option.some.inj hturn
      unfold header at hpieces
      dsimp only at hpieces
      split at hpieces
      · obtain ⟨rfl, rfl⟩ := Prod.mk.inj hpieces
        apply Visible.append_left
        refine ⟨'&', ?_, by decide⟩
        simp [characters, Piece.characters]
      · obtain ⟨rfl, rfl⟩ := Prod.mk.inj hpieces
        apply hlater ';' v (Seen.of_le (by decide))
        rw [← List.drop_drop, ← hv]
        rfl

lemma strstr_spec {p l : Text} {i : ℕ} (h : strstr p l = some (some i)) : p <+: l.drop i := by
  induction l generalizing i with
  | nil => exact absurd h (by simp [strstr])
  | cons x l ih =>
    rw [strstr] at h
    split_ifs at h with hx hp
    · exact absurd h (by simp)
    · obtain rfl := Option.some.inj (Option.some.inj h)
      exact hp
    · obtain ⟨q, hq, hmap⟩ := Option.map_eq_some_iff.mp h
      obtain ⟨j, rfl, rfl⟩ := Option.map_eq_some_iff.mp hmap
      exact ih hq

lemma end_nothing {results : Test → Option (Option ℕ)}
    (hresults : ∀ k, results k = some none ∨ results k = search (NUL :: behind) k)
    (hcollect : collect results = some idtest)
    (hloop : loop access fuel (NUL :: behind) idtest = some out) (hout : ¬ Visible out) (k : Test) :
    results k = some none := by
  have heach := collect_eq_some.mp hcollect
  cases hnear : nearest idtest with
  | none => rw [heach k, nearest_none hnear k]
  | some r =>
    obtain ⟨j, f⟩ := r
    have hj := heach j
    rw [nearest_some hnear] at hj
    have hsearch : search (NUL :: behind) j = some (some f) := by
      rcases hresults j with h | h
      · exact absurd (h.symm.trans hj) (by simp)
      · exact h.symm.trans hj
    rw [search_behind] at hsearch
    split_ifs at hsearch with hahead
    · exact absurd hsearch (by simp)
    · obtain ⟨q, hq, hmap⟩ := Option.map_eq_some_iff.mp hsearch
      obtain ⟨i, rfl, rfl⟩ := Option.map_eq_some_iff.mp hmap
      have hone : j.ahead = 1 := by
        have hle := ahead_le j
        omega
      have hpattern : j.pattern <+: behind.drop i := strstr_spec hq
      have hvisible : Visible out := by
        apply candidate_visible hnear hone _ hloop
        rw [List.drop_succ_cons]
        exact hpattern
      exact absurd hvisible hout

lemma search_nothing {k : Test} (hk : k.ahead = 1) (h : search (NUL :: behind) k = some none) :
    strstr k.pattern behind = some none := by
  rw [search_behind, if_neg (by omega)] at h
  obtain ⟨q, hq, hmap⟩ := Option.map_eq_some_iff.mp h
  obtain rfl := Option.map_eq_none_iff.mp hmap
  exact hq

lemma cut_nothing {text : Text} (htext : NUL ∉ text) (hfuel : text.length < fuel)
    (hloop : loop access fuel (text ++ NUL :: behind) (firsts text) = some out)
    (hout : Renders out text) (h : Cut access behind text t)
    (hcut : nextCut access behind t = some t.length) (k : Test) :
    moved (NUL :: behind) t.length (firsts t) k = some none := by
  obtain ⟨pieces, passed, fuel', rfl, hrenders, hfuel', heq⟩ := cut_reached htext hfuel h
  have ht : NUL ∉ t := fun hmem => htext (List.mem_append_right _ hmem)
  obtain ⟨fuel', rfl⟩ : ∃ n, fuel' = n + 1 := ⟨fuel' - 1, by omega⟩
  rw [hloop] at heq
  obtain ⟨out', hloop', rfl⟩ := Option.map_eq_some_iff.mp heq.symm
  cases hnear : nearest (firsts t) with
  | none =>
    rw [nextCut, hnear] at hcut
    exact absurd hcut (by simp)
  | some r =>
    obtain ⟨j, f⟩ := r
    obtain ⟨link, m, hpasses, hcut'⟩ := nextCut_spec behind access ht hnear
    obtain rfl : m = t.length := Option.some.inj (hcut'.symm.trans hcut)
    obtain ⟨link', m', idtest, rest, hturn, hmoved, hrest, rfl⟩ := loop_some hnear hloop'
    obtain ⟨rfl, rfl⟩ := Prod.mk.inj (Option.some.inj (hpasses.turn.symm.trans hturn))
    rw [List.drop_left] at hmoved hrest
    have hall := hrenders.append hpasses.renders
    rw [List.take_length] at hall
    rw [← List.append_assoc] at hout
    refine end_nothing (fun k => ?_) hmoved hrest (hall.nothing_more hout) k
    rw [moved_end]
    split_ifs
    · exact Or.inr rfl
    · exact Or.inl rfl

lemma collect_text (ht : NUL ∉ t) (hne : t ≠ []) :
    collect (search (t ++ NUL :: behind)) = some (firsts t) := by
  apply collect_eq_some.mpr
  intro k
  apply search_text ht
  have hpos := List.length_pos_iff.mpr hne
  have hle := ahead_le k
  omega

lemma clean_of_renders {text : Text} (ht : NUL ∉ text)
    (hadd : add_links access false (text ++ NUL :: behind) = some out) (hout : Renders out text) :
    Clean access behind text := by
  obtain ⟨idtest, hcollect, hloop⟩ := Option.bind_eq_some_iff.mp hadd
  rintro k ⟨hk, rfl | ⟨t, hcut, hend, hsome⟩⟩
  · have hnothing := Renders.nil.nothing_more hout
    rw [List.nil_append] at hcollect hloop
    exact search_nothing hk (end_nothing (fun k => Or.inr rfl) hcollect hloop hnothing k)
  · have hne : text ≠ [] := by
      obtain ⟨p, hp⟩ := Option.isSome_iff_exists.mp hsome
      obtain ⟨-, -, hlt⟩ := firsts_spec hp
      have hle := hcut.length_le
      exact List.ne_nil_of_length_pos (by omega)
    rw [collect_text ht hne] at hcollect
    obtain rfl := Option.some.inj hcollect
    have hlen : text.length < (text ++ NUL :: behind).length + 1 := by
      rw [List.length_append]
      omega
    have hmoved := cut_nothing ht hlen hloop hout hcut hend k
    rw [moved_end, if_pos hsome] at hmoved
    exact search_nothing hk hmoved

/-- The line is put out with its links, and no more than it. -/
theorem add_links_iff (access : Text → Bool) (ignore_links : Bool) (text behind : Text)
    (ht : NUL ∉ text) :
    (∃ out, add_links access ignore_links (text ++ NUL :: behind) = some out ∧
      Renders out text) ↔ ignore_links = true ∨ Clean access behind text := by
  have hlen : text.length < (text ++ NUL :: behind).length + 1 := by
    rw [List.length_append]
    omega
  cases ignore_links with
  | true =>
    apply iff_of_true _ (Or.inl rfl)
    refine ⟨[.text text], ?_, Renders.only text⟩
    rw [add_links, if_pos rfl, upToNul_text ht]
    rfl
  | false =>
    constructor
    · rintro ⟨out, hadd, hout⟩
      exact Or.inr (clean_of_renders ht hadd hout)
    · rintro (hignore | hclean)
      · exact absurd hignore Bool.false_ne_true
      · rcases eq_or_ne text [] with rfl | hne
        · have hcollect : collect (search (NUL :: behind)) = some fun _ => none :=
            collect_eq_some.mpr fun k => search_clean fun hk => hclean k ⟨hk, Or.inl rfl⟩
          refine ⟨[.text []], ?_, Renders.only []⟩
          rw [add_links, if_neg Bool.false_ne_true, List.nil_append, hcollect,
            Option.bind_eq_bind, Option.bind_some]
          exact loop_rest List.not_mem_nil nearest_nothing
        · obtain ⟨out, hloop, hout⟩ := loop_renders hclean hne .start ht hlen
          refine ⟨out, ?_, hout⟩
          rw [add_links, if_neg Bool.false_ne_true, collect_text ht hne]
          exact hloop

theorem manual_reference_renders :
    ∃ out, add_links (fun _ => false) false ("see ls(1)\n".toList ++ [NUL, NUL]) = some out ∧
      Renders out "see ls(1)\n".toList := by
  apply (add_links_iff (fun _ => false) false "see ls(1)\n".toList [NUL] (by decide)).mpr
  refine Or.inr fun k _ => ?_
  cases k <;> rfl

/-! ### A link that ends a full line -/

lemma occurrence_blanks {p : Text} (hp : ∀ l, ¬ p <+: ' ' :: l) (n : ℕ) :
    occurrence p (List.replicate n ' ' ++ t) = (occurrence p t).map (· + n) := by
  induction n with
  | zero => simp
  | succ n ih =>
    rw [List.replicate_succ, List.cons_append, occurrence, if_neg (hp _), ih, Option.map_map]
    rfl

lemma firsts_blanks (k : Test) (n : ℕ) :
    firsts (List.replicate (n + 1) ' ' ++ t) k =
      (occurrence k.pattern t).map (· + (n + 1)) := by
  have hle := ahead_le k
  have hp : ∀ l, ¬ k.pattern <+: ' ' :: l := by
    intro l
    cases k <;> simp [Test.pattern, List.cons_prefix_cons]
  rw [firsts, List.drop_append_of_le_length (by rw [List.length_replicate]; omega),
    List.drop_replicate, occurrence_blanks hp, Option.map_map]
  congr 1
  funext p
  change p + (n + 1 - k.ahead) + k.ahead = p + (n + 1)
  omega

variable (n : ℕ)

def blanksAndUrl : Text := List.replicate (n + 1) ' ' ++ "ftp://a".toList

lemma blanksAndUrl_length : (blanksAndUrl n).length = n + 8 := by
  rw [blanksAndUrl, List.length_append, List.length_replicate]
  rfl

lemma blanksAndUrl_noNul : NUL ∉ blanksAndUrl n := by
  rw [blanksAndUrl, List.mem_append, List.mem_replicate]
  rintro (⟨-, h⟩ | h) <;> exact absurd h (by decide)

lemma blanksAndUrl_drop (i : ℕ) :
    (blanksAndUrl n).drop (n + 1 + i) = "ftp://a".toList.drop i := by
  rw [blanksAndUrl, ← List.drop_drop, List.drop_left' List.length_replicate]

lemma blanksAndUrl_get (i : ℕ) (hi : i < 7) :
    (blanksAndUrl n ++ NUL :: behind)[n + 1 + i]? = "ftp://a".toList[i]? := by
  rw [List.getElem?_append_left (by rw [blanksAndUrl_length]; omega), blanksAndUrl,
    List.getElem?_append_right (by simp), List.length_replicate, Nat.add_sub_cancel_left]

lemma blanksAndUrl_back :
    back isProtocol (blanksAndUrl n ++ NUL :: behind) (n + 1 + 3) = n + 1 := by
  have hblank : (blanksAndUrl n ++ NUL :: behind)[n]? = some ' ' := by
    rw [List.getElem?_append_left (by rw [blanksAndUrl_length]; omega), blanksAndUrl,
      List.getElem?_append_left (by simp)]
    exact List.getElem?_replicate_of_lt (Nat.lt_succ_self n)
  have hstop : back isProtocol (blanksAndUrl n ++ NUL :: behind) (n + 1) = n + 1 := by
    rw [back, hblank]
    exact if_neg (by decide)
  have hstep (i : ℕ) (hi : i < 7) (hok : "ftp://a".toList[i]?.any isProtocol = true) :
      back isProtocol (blanksAndUrl n ++ NUL :: behind) (n + 1 + (i + 1)) =
        back isProtocol (blanksAndUrl n ++ NUL :: behind) (n + 1 + i) := by
    rw [← Nat.add_assoc, back, blanksAndUrl_get n i hi, if_pos hok]
  rw [hstep 2 (by decide) rfl, hstep 1 (by decide) rfl, hstep 0 (by decide) rfl]
  exact hstop

lemma blanksAndUrl_protocol :
    hasProtocol (blanksAndUrl n ++ NUL :: behind) = some true := by
  have hhttp : ∀ l, ¬ "http://".toList <+: ' ' :: l := by simp [List.cons_prefix_cons]
  have hftp : ∀ l, ¬ "ftp://".toList <+: ' ' :: l := by simp [List.cons_prefix_cons]
  unfold hasProtocol
  rw [strstr_text (by decide) (blanksAndUrl_noNul n),
    strstr_text (by decide) (blanksAndUrl_noNul n), blanksAndUrl, occurrence_blanks hhttp,
    occurrence_blanks hftp]
  rfl

lemma blanksAndUrl_nearest :
    nearest (firsts (blanksAndUrl n)) = some (.url, n + 1 + 3) := by
  have hfirsts : firsts (blanksAndUrl n) = fun k =>
      (occurrence k.pattern "ftp://a".toList).map (· + (n + 1)) :=
    funext fun k => firsts_blanks k n
  rw [hfirsts, Nat.add_comm _ 3]
  rfl

lemma blanksAndUrl_cut :
    nextCut access behind (blanksAndUrl n) = some (blanksAndUrl n).length := by
  have hforward : forward isPath (blanksAndUrl n ++ NUL :: behind) (n + 1 + 3 + 3) =
      some (n + 8) := by
    rw [forward_text behind isPath (blanksAndUrl_noNul n) (by rw [blanksAndUrl_length]; omega),
      Nat.add_assoc (n + 1), blanksAndUrl_drop]
    rfl
  have hcond : n + 1 + 3 - (n + 1) > 2 ∧ n + 1 + 3 - (n + 1) < 7 ∧ n + 8 - (n + 1 + 3) > 3 := by
    omega
  have hlinked : isLinked (blanksAndUrl n ++ NUL :: behind) (n + 1 + 3) (n + 1) (n + 8) =
      some true := by
    rw [isLinked, if_pos hcond, blanksAndUrl_protocol]
  obtain ⟨pieces, hturn⟩ : ∃ pieces,
      url (blanksAndUrl n ++ NUL :: behind) (n + 1 + 3) = some (pieces, n + 8) := by
    rw [url, hforward, Option.bind_eq_bind, Option.bind_some, blanksAndUrl_back, hlinked,
      Option.bind_eq_bind, Option.bind_some, if_pos rfl]
    exact ⟨_, rfl⟩
  rw [nextCut, blanksAndUrl_nearest, Option.bind_eq_bind, Option.bind_some]
  dsimp only
  rw [turn, hturn, Option.bind_eq_bind, Option.bind_some, blanksAndUrl_length]

/-- Behind a full line, whose last characters are a URL, the searches read on. -/
theorem full_line_read_over :
    ¬ ∀ (access : Text → Bool) (ignore_links : Bool) (text behind : Text), NUL ∉ text →
      ∃ out, add_links access ignore_links (text ++ NUL :: behind) = some out ∧
        Renders out text := by
  intro hall
  obtain ⟨out, hadd, hout⟩ := hall (fun _ => false) false (blanksAndUrl 9992) []
    (blanksAndUrl_noNul 9992)
  have hsought : Sought (fun _ => false) [] (blanksAndUrl 9992) .url := by
    refine ⟨rfl, Or.inr ⟨_, .start, blanksAndUrl_cut 9992, ?_⟩⟩
    rw [blanksAndUrl, firsts_blanks]
    rfl
  have hfound := clean_of_renders (blanksAndUrl_noNul 9992) hadd hout .url hsought
  exact absurd hfound (by decide)

end

end KioExtras.Man.Links
