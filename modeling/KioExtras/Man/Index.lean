import KioExtras.Lib.Neighbours
import KioExtras.Lib.Utf8
import KioExtras.Man.Converter
import Mathlib.Data.List.Perm.Basic

/-!
The index of a section: `showIndex`, and the names that it and `stripExtension` take from the names
of files.

`showIndex` works on the bytes of the paths, where `lower` is how letters are told apart without
their case. What the list is sorted by leaves the order of equal elements open, so what is listed is
asked for in every order in which it is sorted.
-/

namespace KioExtras.Man.Index

open KioExtras.Lib.Neighbours KioExtras.Lib.Utf8

abbrev Bytes := List UInt8

/-! ### `stripExtension` -/

/-- The length of the suffix that a name has of those in a table. -/
def suffixLength {α : Type} [DecidableEq α] (table : List (List α)) (name : List α) : ℕ :=
  ((table.find? fun s => decide (s <:+ name)).map List.length).getD 0

/-- The suffixes of `stripCompression`, where the case does not matter in one. -/
def compressions : List Text :=
  [".gz".toList, ".Z".toList, ".z".toList, ".bz2".toList, ".bz".toList, ".lzma".toList,
    ".xz".toList, ".zst".toList, ".br".toList]

def stripCompression (name : Text) : Text :=
  let pos := name.length - suffixLength compressions name
  if pos > 0 then name.take pos else name

def stripExtension (name : Text) : Text :=
  let wc := stripCompression name
  match lastIndexOf '.' wc with
  | some pos => if pos > 0 then wc.take pos else wc
  | none => wc

/-! ### The list -/

structure man_index_t where
  manpath : Bytes
  manpage_begin : ℕ
  manpage_len : ℤ

namespace man_index_t

def begin (m : man_index_t) : Bytes := m.manpath.drop m.manpage_begin

def name (m : man_index_t) : Bytes := m.begin.take m.manpage_len.toNat

end man_index_t

/-- The suffixes that `showIndex` knows. -/
def indexCompressions : List Text :=
  [".gz".toList, ".Z".toList, ".z".toList, ".bz2".toList, ".lzma".toList, ".xz".toList]

/-- `QString::length` counts UTF-16 units. -/
def length (s : Text) : ℕ := (s.map fun c => if c.toNat < 0x10000 then 1 else 2).sum

/-- The length of a name without a dot is the number of characters of the path less the number of
bytes in front of the name. -/
def manindex (page : Text) : man_index_t :=
  let manpath := encode page
  let manpage_begin := match lastIndexOf (byte '/') manpath with
    | some i => i + 1
    | none => 0
  let begin := manpath.drop manpage_begin
  let len := begin.length - suffixLength (indexCompressions.map encode) begin
  { manpath := manpath
    manpage_begin := manpage_begin
    manpage_len := match lastIndexOf (byte '.') (begin.take len) with
      | some i => i
      | none => (length page : ℤ) - manpage_begin }

def indexlist (pages : List Text) : List man_index_t :=
  (pages.map manindex).filter fun m => 0 < m.manpage_len

/-! ### The order -/

/-- The lower case of a byte; the terminator is the one of no other byte. -/
structure Lower where
  lower : UInt8 → UInt8
  zero : ∀ b, lower b = 0 ↔ b = 0

section

variable (q : Lower)

/-- A terminator stands behind the bytes. -/
def qstrnicmp : Bytes → Bytes → ℕ → ℤ
  | x :: str1, y :: str2, len + 1 =>
    let res : ℤ := (q.lower x).toNat - (q.lower y).toNat
    if res ≠ 0 then res else if q.lower x = 0 then 0 else qstrnicmp str1 str2 len
  | x :: _, [], _ + 1 => (q.lower x).toNat
  | [], y :: _, _ + 1 => -(q.lower y).toNat
  | _, _, _ => 0

def compare_man_index (m1 m2 : man_index_t) : ℤ :=
  if m1.manpage_len > m2.manpage_len then
    let i := qstrnicmp q m1.begin m2.begin m2.manpage_len.toNat
    if i = 0 then 1 else i
  else if m1.manpage_len < m2.manpage_len then
    let i := qstrnicmp q m1.begin m2.begin m1.manpage_len.toNat
    if i = 0 then -1 else i
  else qstrnicmp q m1.begin m2.begin m1.manpage_len.toNat

/-- A list as `qsort` may leave it. -/
structure Sorted (list sorted : List man_index_t) : Prop where
  perm : sorted.Perm list
  pairwise : sorted.Pairwise fun m1 m2 => compare_man_index q m1 m2 ≤ 0

end

/-! ### `showIndex` -/

structure Row where
  manpath : Bytes
  name : Bytes
  description : String

section

variable (indexmap : Bytes → Option String)

def row (m : man_index_t) : Row :=
  { manpath := m.manpath, name := m.name, description := (indexmap m.name).getD "" }

/-- The loop over the sorted list. A name that is the one before is left out. -/
def rows : Option man_index_t → List man_index_t → List Row
  | _, [] => []
  | last_index, m :: list =>
    if last_index.any (fun l => l.manpage_len = m.manpage_len ∧ l.name = m.name) = true then
      rows last_index list
    else row indexmap m :: rows (some m) list

/-- The rows for the list that is sorted; `none` where the first element of an empty list is
read. -/
def showIndex (pages : List Text) (sorted : List man_index_t) : Option (List Row) :=
  match pages, sorted with
  | [], _ => some []
  | _ :: _, [] => none
  | _ :: _, m :: list => some (rows indexmap none (m :: list))

end

/-! ### What is to hold -/

def fileName (path : Text) : Text :=
  match lastIndexOf '/' path with
  | some i => path.drop (i + 1)
  | none => path

def directory (path : Text) : Text :=
  match lastIndexOf '/' path with
  | some i => path.take (i + 1)
  | none => []

/-- The path of a file that was found; the filter leaves out the hidden ones. -/
structure Page where
  path : Text
  noNul : Char.ofNat 0 ∉ path
  file : fileName path ≠ []
  shown : (fileName path).head? ≠ some '.'

/-- The name of the page, as `stripExtension` takes it from the name of the file. -/
def Page.name (p : Page) : Bytes := encode (stripExtension (fileName p.path))

/-- Names without their case. -/
def lowered (q : Lower) (name : Bytes) : List ℕ := name.map fun b => (q.lower b).toNat

/-- The rows list each page once, in order and under its name. -/
structure Lists (q : Lower) (pages : List Page) (rows : List Row) : Prop where
  once : (rows.map Row.name).Nodup
  all : ∀ name, name ∈ rows.map Row.name ↔ name ∈ pages.map Page.name
  order : (rows.map fun r => lowered q r.name).Pairwise (· ≤ ·)
  named : ∀ p ∈ pages, (manindex p.path).name = p.name

/-- The suffixes that only `stripCompression` knows. -/
def otherCompressions : List Text := [".bz".toList, ".zst".toList, ".br".toList]

/-- Where both take the same name from the path: there is no dot in front of one of the other
suffixes; and there is one in front of any other end, or the directory and the name have as many
bytes as the path has characters. -/
def Fits (path : Text) : Prop :=
  let file := fileName path
  let name := file.take (file.length - suffixLength compressions file)
  if ∃ s ∈ otherCompressions, s <:+ file then '.' ∉ name
  else '.' ∈ name ∨ length path = (encode (directory path)).length + (encode name).length

/-! ### Suffixes -/

section

variable {α : Type} [DecidableEq α] {table : List (List α)} {name s : List α}

/-- No suffix of the table ends with another one. -/
def Distinct (table : List (List α)) : Prop := ∀ s ∈ table, ∀ t ∈ table, s <:+ t → s = t

lemma suffixLength_le (table : List (List α)) (name : List α) :
    suffixLength table name ≤ name.length := by
  unfold suffixLength
  cases h : table.find? fun s => decide (s <:+ name) with
  | none => exact Nat.zero_le _
  | some s =>
    have hs := List.find?_some h
    exact (of_decide_eq_true hs).length_le

lemma suffixLength_none (h : ∀ s ∈ table, ¬ s <:+ name) : suffixLength table name = 0 := by
  have hnone : (table.find? fun s => decide (s <:+ name)) = none := by
    rw [List.find?_eq_none]
    exact fun s hs => by simpa using h s hs
  rw [suffixLength, hnone]
  rfl

lemma suffixLength_spec (table : List (List α)) (name : List α) :
    (∃ s ∈ table, s <:+ name ∧ suffixLength table name = s.length) ∨
      suffixLength table name = 0 ∧ ∀ s ∈ table, ¬ s <:+ name := by
  cases h : table.find? fun s => decide (s <:+ name) with
  | none =>
    rw [List.find?_eq_none] at h
    have hnone : ∀ s ∈ table, ¬ s <:+ name := fun s hs => by simpa using h s hs
    exact Or.inr ⟨suffixLength_none hnone, hnone⟩
  | some s =>
    have hs := List.find?_some h
    refine Or.inl ⟨s, List.mem_of_find?_eq_some h, of_decide_eq_true hs, ?_⟩
    rw [suffixLength, h]
    rfl

omit [DecidableEq α] in
lemma Distinct.eq {t : List α} (hdistinct : Distinct table) (hs : s ∈ table) (ht : t ∈ table)
    (hname : s <:+ name) (htname : t <:+ name) : s = t := by
  rcases Nat.le_total s.length t.length with hle | hle
  · exact hdistinct s hs t ht (List.suffix_of_suffix_length_le hname htname hle)
  · exact (hdistinct t ht s hs (List.suffix_of_suffix_length_le htname hname hle)).symm

lemma suffixLength_of_mem (hdistinct : Distinct table) (hs : s ∈ table) (hname : s <:+ name) :
    suffixLength table name = s.length := by
  obtain ⟨t, ht, htname, hlen⟩ | ⟨-, hnone⟩ := suffixLength_spec table name
  · rw [hlen, hdistinct.eq hs ht hname htname]
  · exact absurd hname (hnone s hs)

end

lemma distinct_compressions : Distinct compressions := by
  have h : (compressions.all fun s => compressions.all fun t =>
      !decide (s <:+ t) || decide (s = t)) = true := by decide
  intro s hs t ht hsuffix
  have hst := List.all_eq_true.mp (List.all_eq_true.mp h s hs) t ht
  simpa [hsuffix] using hst

variable {s x : Text} {i : ℕ} {m : man_index_t} {pages : List Page}

lemma compression_ascii (hs : s ∈ compressions) : ∀ c ∈ s, Ascii c := by
  have h : (compressions.all fun s => s.all fun c => decide (Ascii c)) = true := by decide
  intro c hc
  simpa using List.all_eq_true.mp (List.all_eq_true.mp h s hs) c hc

lemma mem_compressions : s ∈ compressions ↔ s ∈ indexCompressions ∨ s ∈ otherCompressions := by
  have hperm : compressions.Perm (indexCompressions ++ otherCompressions) := by decide
  rw [hperm.mem_iff, List.mem_append]

lemma compression_dot (hs : s ∈ compressions) : ∃ t, s = '.' :: t ∧ '.' ∉ t := by
  have h : (compressions.all fun s =>
      decide (s.head? = some '.') && decide ('.' ∉ s.tail)) = true := by decide
  have hs' := List.all_eq_true.mp h s hs
  rw [Bool.and_eq_true, decide_eq_true_eq, decide_eq_true_eq] at hs'
  obtain ⟨t, rfl⟩ := List.head?_eq_some_iff.mp hs'.1
  exact ⟨t, rfl, hs'.2⟩

lemma suffixLength_encode {table : List Text} (h : ∀ s ∈ table, ∀ c ∈ s, Ascii c) (name : Text) :
    suffixLength (table.map encode) (encode name) = suffixLength table name := by
  unfold suffixLength
  induction table with
  | nil => rfl
  | cons s table ih =>
    have hs := h s List.mem_cons_self
    rw [List.map_cons, List.find?_cons, List.find?_cons]
    by_cases hname : s <:+ name
    · rw [decide_eq_true hname, decide_eq_true ((suffix_encode hs).mpr hname)]
      simp [encode_ascii hs]
    · rw [decide_eq_false hname, decide_eq_false ((suffix_encode hs).not.mpr hname)]
      exact ih fun t ht => h t (List.mem_cons_of_mem s ht)

/-- The suffix of `stripCompression` is the one that `showIndex` finds, if it is none of the
others. -/
lemma suffixLength_index {name : Text} (h : ∀ s ∈ otherCompressions, ¬ s <:+ name) :
    suffixLength indexCompressions name = suffixLength compressions name := by
  obtain ⟨s, hs, hname, hlen⟩ | ⟨hzero, hnone⟩ := suffixLength_spec indexCompressions name
  · rw [hlen, suffixLength_of_mem distinct_compressions (mem_compressions.mpr (Or.inl hs)) hname]
  · rw [hzero, suffixLength_none]
    intro s hs
    rcases mem_compressions.mp hs with hs | hs
    · exact hnone s hs
    · exact h s hs

lemma suffixLength_other {name : Text} (hs : s ∈ otherCompressions) (hname : s <:+ name) :
    suffixLength indexCompressions name = 0 ∧ suffixLength compressions name = s.length := by
  have hmem := mem_compressions.mpr (Or.inr hs)
  refine ⟨suffixLength_none fun t ht htname => ?_,
    suffixLength_of_mem distinct_compressions hmem hname⟩
  have hdisjoint : (otherCompressions.all fun s => decide (s ∉ indexCompressions)) = true := by
    decide
  have hno : s ∉ indexCompressions := by simpa using List.all_eq_true.mp hdisjoint s hs
  have htmem := mem_compressions.mpr (Or.inl ht)
  have heq := distinct_compressions.eq hmem htmem hname htname
  exact hno (heq ▸ ht)

/-! ### The path and its file -/

lemma directory_fileName (path : Text) : directory path ++ fileName path = path := by
  unfold directory fileName
  cases lastIndexOf '/' path with
  | some i => exact List.take_append_drop _ _
  | none => rfl

lemma slash_ascii : Ascii '/' := by decide

lemma dot_ascii : Ascii '.' := by decide

lemma manpage_begin_eq (path : Text) :
    (manindex path).manpage_begin = (encode (directory path)).length := by
  unfold manindex directory
  dsimp only
  rw [lastIndexOf_encode slash_ascii]
  cases h : lastIndexOf '/' path with
  | none => rfl
  | some i =>
    obtain ⟨a, b, rfl, -, rfl⟩ := lastIndexOf_eq_some h
    have htake : (a ++ '/' :: b).take (a.length + 1) = a ++ ['/'] := by
      rw [List.take_append, List.take_of_length_le (by omega)]
      simp
    dsimp only [Option.map_some]
    rw [htake, List.take_left, encode_append, List.length_append]
    rfl

lemma begin_eq (path : Text) : (manindex path).begin = encode (fileName path) := by
  have hpath : (manindex path).manpath = encode (directory path) ++ encode (fileName path) := by
    rw [← encode_append, directory_fileName]
    rfl
  rw [man_index_t.begin, hpath, manpage_begin_eq, List.drop_left]

/-! ### The name of a page -/

lemma encode_eq_nil : encode s = [] ↔ s = [] := by
  cases s with
  | nil => simp
  | cons c s => simp [encode_cons, String.utf8EncodeChar_ne_nil]

lemma encode_take_eq (h : encode (s.take i) = encode s) : s.take i = s := by
  have hsplit : encode s = encode (s.take i) ++ encode (s.drop i) := by
    rw [← encode_append, List.take_append_drop]
  rw [h] at hsplit
  have hdrop : encode (s.drop i) = [] := List.self_eq_append_right.mp hsplit
  have hnil := encode_eq_nil.mp hdrop
  calc s.take i = s.take i ++ s.drop i := by rw [hnil, List.append_nil]
    _ = s := List.take_append_drop _ _

lemma take_suffix {file : Text} {k : ℕ} (hle : k ≤ file.length)
    (hascii : ∀ c ∈ file.drop (file.length - k), Ascii c) :
    (encode file).take ((encode file).length - k) = encode (file.take (file.length - k)) := by
  have hsplit : encode file =
      encode (file.take (file.length - k)) ++ encode (file.drop (file.length - k)) := by
    rw [← encode_append, List.take_append_drop]
  have hlen : (encode (file.drop (file.length - k))).length = k := by
    rw [encode_ascii hascii, List.length_map, List.length_drop]
    omega
  have htake : (encode file).length - k = (encode (file.take (file.length - k))).length := by
    rw [hsplit, List.length_append, hlen]
    omega
  rw [htake, hsplit, List.take_left]

lemma index_ascii (hs : s ∈ indexCompressions) : ∀ c ∈ s, Ascii c :=
  compression_ascii (mem_compressions.mpr (Or.inl hs))

/-- The name without the suffix that `showIndex` knows. -/
def stripIndex (file : Text) : Text :=
  file.take (file.length - suffixLength indexCompressions file)

lemma stripIndex_encode (file : Text) :
    (encode file).take ((encode file).length -
        suffixLength (indexCompressions.map encode) (encode file)) = encode (stripIndex file) := by
  rw [suffixLength_encode fun s hs => index_ascii hs]
  refine take_suffix (suffixLength_le _ _) ?_
  obtain ⟨s, hs, ⟨u, rfl⟩, hlen⟩ | ⟨hzero, -⟩ := suffixLength_spec indexCompressions file
  · rw [hlen, List.length_append, Nat.add_sub_cancel, List.drop_left]
    exact index_ascii hs
  · rw [hzero, Nat.sub_zero, List.drop_length]
    simp

lemma manpage_len_eq (path : Text) :
    (manindex path).manpage_len =
      match lastIndexOf '.' (stripIndex (fileName path)) with
      | some i => ((encode ((fileName path).take i)).length : ℤ)
      | none => (length path : ℤ) - (encode (directory path)).length := by
  have hbegin := begin_eq path
  have hoffset := manpage_begin_eq path
  have hlen : (manindex path).manpage_len =
      match lastIndexOf (byte '.') ((manindex path).begin.take ((manindex path).begin.length -
        suffixLength (indexCompressions.map encode) (manindex path).begin)) with
      | some i => (i : ℤ)
      | none => (length path : ℤ) - (manindex path).manpage_begin := rfl
  rw [hlen, hbegin, hoffset, stripIndex_encode, lastIndexOf_encode dot_ascii]
  cases h : lastIndexOf '.' (stripIndex (fileName path)) with
  | none => rfl
  | some i =>
    obtain ⟨a, b, hab, -, rfl⟩ := lastIndexOf_eq_some h
    have hle : a.length ≤
        (fileName path).length - suffixLength indexCompressions (fileName path) := by
      have hlength := congrArg List.length hab
      rw [stripIndex, List.length_take, List.length_append, List.length_cons] at hlength
      omega
    have htake : (stripIndex (fileName path)).take a.length = (fileName path).take a.length := by
      rw [stripIndex, List.take_take, Nat.min_eq_left hle]
    dsimp only [Option.map_some]
    rw [htake]

lemma name_some {path : Text} (h : lastIndexOf '.' (stripIndex (fileName path)) = some i) :
    (manindex path).name = encode ((fileName path).take i) := by
  have hlen := manpage_len_eq path
  rw [h] at hlen
  dsimp only at hlen
  have hsplit : encode (fileName path) =
      encode ((fileName path).take i) ++ encode ((fileName path).drop i) := by
    rw [← encode_append, List.take_append_drop]
  rw [man_index_t.name, begin_eq, hlen, Int.toNat_natCast, hsplit, List.take_left]

lemma name_none {path : Text} (h : lastIndexOf '.' (stripIndex (fileName path)) = none) :
    (manindex path).name = (encode (fileName path)).take
      ((length path : ℤ) - (encode (directory path)).length).toNat := by
  have hlen := manpage_len_eq path
  rw [h] at hlen
  dsimp only at hlen
  rw [man_index_t.name, begin_eq, hlen]

lemma length_le_bytes (s : Text) : length s ≤ (encode s).length := by
  induction s with
  | nil => exact Nat.le_refl 0
  | cons c s ih =>
    have hunits : (if c.toNat < 0x10000 then 1 else 2) ≤ (String.utf8EncodeChar c).length := by
      rw [String.length_utf8EncodeChar]
      have hpos := c.utf8Size_pos
      split_ifs with h
      · exact hpos
      · have hlarge : ∀ n : UInt32, n.toNat < 0x10000 → ¬ c.val ≤ n := fun n hn hle =>
          h (Nat.lt_of_le_of_lt (UInt32.le_iff_toNat_le.mp hle) hn)
        unfold Char.utf8Size
        rw [if_neg (hlarge _ (by decide)), if_neg (hlarge _ (by decide)),
          if_neg (hlarge _ (by decide))]
        decide
    rw [encode_cons, List.length_append]
    change (if c.toNat < 0x10000 then 1 else 2) + length s ≤ _
    exact Nat.add_le_add hunits ih

lemma length_append (s t : Text) : length (s ++ t) = length s + length t := by
  simp [length]

/-! ### Where both names are the same -/

lemma stripCompression_suffix (hs : s ∈ compressions) :
    stripCompression (x ++ s) = if x = [] then s else x := by
  have hlen := suffixLength_of_mem distinct_compressions hs (List.suffix_append x s)
  unfold stripCompression
  rw [hlen, List.length_append, Nat.add_sub_cancel]
  dsimp only
  rw [List.take_left]
  cases x with
  | nil => rfl
  | cons c x => rfl

lemma stripExtension_eq {file : Text} :
    stripExtension file = match lastIndexOf '.' (stripCompression file) with
      | some i => if i > 0 then (stripCompression file).take i else stripCompression file
      | none => stripCompression file := rfl

lemma lastIndexOf_compression (hs : s ∈ compressions) (x : Text) :
    lastIndexOf '.' (x ++ s) = some x.length := by
  obtain ⟨t, rfl, ht⟩ := compression_dot hs
  exact lastIndexOf_behind ht

lemma stripExtension_plain {file : Text} {c : Char} (hwc : stripCompression file = c :: x)
    (hx : '.' ∉ x) : stripExtension file = c :: x := by
  rw [stripExtension_eq, hwc, lastIndexOf, lastIndexOf_eq_none.mpr hx]
  dsimp only
  by_cases hc : c = '.'
  · rw [if_pos hc]
    rfl
  · rw [if_neg hc]

lemma named_other {path : Text} (hshown : (fileName path).head? ≠ some '.')
    (hs : s ∈ otherCompressions) (hname : s <:+ fileName path) :
    (manindex path).name = encode (stripExtension (fileName path)) ↔ Fits path := by
  have hmem := mem_compressions.mpr (Or.inr hs)
  obtain ⟨hindex, hlen⟩ := suffixLength_other hs hname
  have hother : ∃ s ∈ otherCompressions, s <:+ fileName path := ⟨s, hs, hname⟩
  obtain ⟨x, hx⟩ := hname
  have hdot : lastIndexOf '.' (stripIndex (fileName path)) = some x.length := by
    rw [stripIndex, hindex, Nat.sub_zero, List.take_length, ← hx, lastIndexOf_compression hmem]
  have hfront : (fileName path).take ((fileName path).length - s.length) = x := by
    rw [← hx, List.length_append, Nat.add_sub_cancel, List.take_left]
  have hfits : Fits path ↔ '.' ∉ x := by
    unfold Fits
    rw [if_pos hother, hlen, hfront]
  have hwc := stripCompression_suffix (x := x) hmem
  rw [hx] at hwc
  rw [name_some hdot, hfits, ← hx, List.take_left, hx]
  cases x with
  | nil =>
    -- a name that begins with the suffix is hidden
    obtain ⟨t, rfl, -⟩ := compression_dot hmem
    rw [← hx] at hshown
    exact absurd rfl hshown
  | cons c x =>
    rw [if_neg (List.cons_ne_nil c x)] at hwc
    have hc : c ≠ '.' := by
      rintro rfl
      rw [← hx] at hshown
      exact hshown rfl
    by_cases hdots : '.' ∈ x
    · refine iff_of_false (fun heq => ?_) fun h => h (List.mem_cons_of_mem c hdots)
      obtain ⟨j, hj⟩ : ∃ j, lastIndexOf '.' x = some j := by
        rw [← Option.ne_none_iff_exists']
        exact fun h => lastIndexOf_eq_none.mp h hdots
      rw [stripExtension_eq, hwc, lastIndexOf, hj] at heq
      dsimp only at heq
      rw [if_pos (Nat.succ_pos j)] at heq
      have htake := congrArg List.length (encode_take_eq heq.symm)
      obtain ⟨a, b, rfl, -, rfl⟩ := lastIndexOf_eq_some hj
      simp at htake
    · rw [stripExtension_plain hwc hdots]
      refine iff_of_true rfl fun hmem => ?_
      rcases List.mem_cons.mp hmem with heq | hmem
      · exact hc heq.symm
      · exact hdots hmem

lemma stripIndex_ne {file : Text} (hfile : file ≠ []) (hshown : file.head? ≠ some '.') :
    stripIndex file ≠ [] := by
  obtain ⟨s, hs, ⟨x, hx⟩, hlen⟩ | ⟨hzero, -⟩ := suffixLength_spec indexCompressions file
  · rw [stripIndex, hlen, ← hx, List.length_append, Nat.add_sub_cancel, List.take_left]
    rintro rfl
    obtain ⟨t, rfl, -⟩ := compression_dot (mem_compressions.mpr (Or.inl hs))
    rw [← hx] at hshown
    exact hshown rfl
  · rw [stripIndex, hzero, Nat.sub_zero, List.take_length]
    exact hfile

lemma stripCompression_index {file : Text} (hne : stripIndex file ≠ [])
    (h : ∀ s ∈ otherCompressions, ¬ s <:+ file) : stripCompression file = stripIndex file := by
  have hpos : file.length - suffixLength compressions file > 0 := by
    rw [← suffixLength_index h]
    rw [stripIndex, Ne, List.take_eq_nil_iff] at hne
    omega
  unfold stripCompression
  dsimp only
  rw [if_pos hpos, stripIndex, suffixLength_index h]

lemma named_index {path : Text} (hfile : fileName path ≠ [])
    (hshown : (fileName path).head? ≠ some '.')
    (h : ∀ s ∈ otherCompressions, ¬ s <:+ fileName path) :
    (manindex path).name = encode (stripExtension (fileName path)) ↔ Fits path := by
  have hne := stripIndex_ne hfile hshown
  have hwc := stripCompression_index hne h
  obtain ⟨u, hu⟩ : stripIndex (fileName path) <+: fileName path := List.take_prefix _ _
  have hfits : Fits path ↔ '.' ∈ stripIndex (fileName path) ∨ length path =
      (encode (directory path)).length + (encode (stripIndex (fileName path))).length := by
    unfold Fits
    rw [if_neg (fun ⟨s, hs, hname⟩ => h s hs hname), ← suffixLength_index h]
    rfl
  rw [hfits]
  cases hdot : lastIndexOf '.' (stripIndex (fileName path)) with
  | some i =>
    obtain ⟨a, b, hab, -, rfl⟩ := lastIndexOf_eq_some hdot
    have htake : (fileName path).take a.length = a := by
      rw [← hu, hab, List.append_assoc, List.take_left]
    have hpos : 0 < a.length := by
      rw [List.length_pos_iff]
      rintro rfl
      rw [← hu, hab] at hshown
      exact hshown rfl
    rw [name_some hdot, htake, stripExtension_eq, hwc, hdot]
    dsimp only
    rw [if_pos hpos, hab, List.take_left]
    exact iff_of_true rfl (Or.inl (by simp))
  | none =>
    have hstrip : stripExtension (fileName path) = stripIndex (fileName path) := by
      rw [stripExtension_eq, hwc, hdot]
    have hpos : 0 < (encode (stripIndex (fileName path))).length :=
      List.length_pos_iff.mpr (encode_eq_nil.not.mpr hne)
    have hsplit : encode (fileName path) = encode (stripIndex (fileName path)) ++ encode u := by
      rw [← encode_append, hu]
    have hle : length path ≤
        (encode (directory path)).length + (encode (fileName path)).length := by
      have hlength := length_append (directory path) (fileName path)
      rw [directory_fileName] at hlength
      have hdir := length_le_bytes (directory path)
      have hfile' := length_le_bytes (fileName path)
      omega
    rw [hstrip]
    rw [name_none hdot, or_iff_right (lastIndexOf_eq_none.mp hdot)]
    constructor
    · intro heq
      have hlength := congrArg List.length heq
      rw [List.length_take] at hlength
      omega
    · intro heq
      rw [heq, hsplit]
      have hnat : (((encode (directory path)).length +
          (encode (stripIndex (fileName path))).length : ℕ) -
            ((encode (directory path)).length : ℤ)).toNat =
          (encode (stripIndex (fileName path))).length := by omega
      rw [hnat, List.take_left]

lemma named_iff (p : Page) : (manindex p.path).name = p.name ↔ Fits p.path := by
  by_cases h : ∃ s ∈ otherCompressions, s <:+ fileName p.path
  · obtain ⟨s, hs, hname⟩ := h
    exact named_other p.shown hs hname
  · exact named_index p.file p.shown fun s hs hname => h ⟨s, hs, hname⟩

/-! ### The order is that of the names without their case -/

structure Named (m : man_index_t) : Prop where
  pos : 0 < m.manpage_len
  fits : m.manpage_len.toNat ≤ m.begin.length
  noNul : 0 ∉ m.begin

lemma Named.length (h : Named m) : (m.name.length : ℤ) = m.manpage_len := by
  have hlen : m.name.length = m.manpage_len.toNat := List.length_take_of_le h.fits
  have hpos := h.pos
  omega

lemma named_manindex (p : Page) (hpos : 0 < (manindex p.path).manpage_len) :
    Named (manindex p.path) := by
  refine ⟨hpos, ?_, ?_⟩
  · have hlen := manpage_len_eq p.path
    rw [begin_eq]
    cases h : lastIndexOf '.' (stripIndex (fileName p.path)) with
    | some i =>
      rw [h] at hlen
      have hsplit : encode (fileName p.path) =
          encode ((fileName p.path).take i) ++ encode ((fileName p.path).drop i) := by
        rw [← encode_append, List.take_append_drop]
      rw [hlen, hsplit, List.length_append]
      exact Nat.le_add_right _ _
    | none =>
      rw [h] at hlen
      have hdiff : (manindex p.path).manpage_len =
        (length p.path : ℤ) - (encode (directory p.path)).length := hlen
      have hlength := length_le_bytes p.path
      have hpath := congrArg (fun s => (encode s).length) (directory_fileName p.path)
      simp only [encode_append, List.length_append] at hpath
      omega
  · rw [begin_eq]
    intro hmem
    have hnul : byte (Char.ofNat 0) ∈ encode (fileName p.path) := hmem
    rw [byte_mem_encode (by decide)] at hnul
    apply p.noNul
    rw [← directory_fileName p.path]
    exact List.mem_append_right _ hnul

section

variable (q : Lower)

lemma lower_ne {b : UInt8} (h : b ≠ 0) : (q.lower b).toNat ≠ 0 := by
  intro heq
  exact h ((q.zero b).mp (UInt8.toNat_inj.mp heq))

lemma qstrnicmp_zero (str1 str2 : Bytes) : qstrnicmp q str1 str2 0 = 0 := by
  cases str1 with
  | nil => cases str2 <;> rfl
  | cons x str1 => cases str2 <;> rfl

lemma le_iff_not_lex (a b : List ℕ) : a ≤ b ↔ ¬ List.Lex (· < ·) b a := not_lt.symm

lemma cons_le_cons (x y : ℕ) (a b : List ℕ) : x :: a ≤ y :: b ↔ x < y ∨ x = y ∧ a ≤ b := by
  rw [le_iff_not_lex, le_iff_not_lex, List.cons_lex_cons_iff, not_or, not_and, not_lt]
  constructor
  · rintro ⟨hle, hrest⟩
    exact hle.lt_or_eq.imp_right fun heq => ⟨heq, hrest heq.symm⟩
  · rintro (hlt | ⟨rfl, hrest⟩)
    · exact ⟨hlt.le, fun heq => absurd heq hlt.ne'⟩
    · exact ⟨le_refl x, fun _ => hrest⟩

lemma qstrnicmp_le (a b u v : Bytes) (ha : 0 ∉ a) (hb : 0 ∉ b) :
    (qstrnicmp q (a ++ u) (b ++ v) (min a.length b.length) < 0 ∨
      qstrnicmp q (a ++ u) (b ++ v) (min a.length b.length) = 0 ∧ a.length ≤ b.length) ↔
      lowered q a ≤ lowered q b := by
  induction a generalizing b with
  | nil =>
    have hzero : qstrnicmp q ([] ++ u) (b ++ v) (min 0 b.length) = 0 := by
      rw [Nat.zero_min]
      exact qstrnicmp_zero q _ _
    exact iff_of_true (Or.inr ⟨hzero, Nat.zero_le _⟩) ((le_iff_not_lex _ _).mpr List.not_lex_nil)
  | cons x a ih =>
    cases b with
    | nil =>
      have hzero : qstrnicmp q (x :: a ++ u) ([] ++ v)
          (min (x :: a).length ([] : Bytes).length) = 0 := by
        rw [List.length_nil, Nat.min_zero]
        exact qstrnicmp_zero q _ _
      refine iff_of_false ?_ fun hle => (le_iff_not_lex _ _).mp hle List.Lex.nil
      rintro (hlt | ⟨-, hle⟩)
      · rw [hzero] at hlt
        exact absurd hlt (Int.lt_irrefl 0)
      · exact absurd hle (Nat.not_succ_le_zero _)
    | cons y b =>
      obtain ⟨hx, ha⟩ := not_or.mp (List.mem_cons.not.mp ha)
      obtain ⟨hy, hb⟩ := not_or.mp (List.mem_cons.not.mp hb)
      have hlower := lower_ne q (Ne.symm hx)
      have hih := ih b ha hb
      rw [List.length_cons, List.length_cons, Nat.succ_min_succ, List.cons_append,
        List.cons_append, qstrnicmp]
      change _ ↔ (q.lower x).toNat :: lowered q a ≤ (q.lower y).toNat :: lowered q b
      rw [cons_le_cons, ← hih]
      by_cases heq : (q.lower x).toNat = (q.lower y).toNat
      · have hnot : q.lower x ≠ 0 := fun h => hlower (by rw [h]; rfl)
        rw [heq, Int.sub_self, if_neg (not_not.mpr rfl), if_neg hnot]
        omega
      · rw [if_pos (by omega)]
        omega

lemma compare_man_index_le {m1 m2 : man_index_t} (h1 : Named m1) (h2 : Named m2) :
    compare_man_index q m1 m2 ≤ 0 ↔ lowered q m1.name ≤ lowered q m2.name := by
  have hname : ∀ m : man_index_t, Named m → m.begin = m.name ++ m.begin.drop m.manpage_len.toNat ∧
      0 ∉ m.name := fun m h => ⟨(List.take_append_drop _ _).symm,
    fun hmem => h.noNul (List.mem_of_mem_take hmem)⟩
  obtain ⟨hb1, hn1⟩ := hname m1 h1
  obtain ⟨hb2, hn2⟩ := hname m2 h2
  have hle := qstrnicmp_le q m1.name m2.name (m1.begin.drop m1.manpage_len.toNat)
    (m2.begin.drop m2.manpage_len.toNat) hn1 hn2
  rw [← hb1, ← hb2] at hle
  have hl1 := h1.length
  have hl2 := h2.length
  rw [← hle]
  unfold compare_man_index
  dsimp only
  split_ifs with hgt hi hlt hi
  · have hmin : min m1.name.length m2.name.length = m2.manpage_len.toNat := by omega
    rw [hmin]
    omega
  · have hmin : min m1.name.length m2.name.length = m2.manpage_len.toNat := by omega
    rw [hmin]
    omega
  · have hmin : min m1.name.length m2.name.length = m1.manpage_len.toNat := by omega
    rw [hmin]
    omega
  · have hmin : min m1.name.length m2.name.length = m1.manpage_len.toNat := by omega
    rw [hmin]
    omega
  · have hmin : min m1.name.length m2.name.length = m1.manpage_len.toNat := by omega
    rw [hmin]
    omega

end

/-! ### The rows are the names without equal neighbours -/

section

variable (indexmap : Bytes → Option String)

lemma rows_some {last : man_index_t} (hlast : Named last) {list : List man_index_t}
    (hlist : ∀ m ∈ list, Named m) :
    last.name :: (rows indexmap (some last) list).map Row.name =
      (list.map man_index_t.name).destutter' (· ≠ ·) last.name := by
  induction list generalizing last with
  | nil => rfl
  | cons m list ih =>
    have hm := hlist m List.mem_cons_self
    have hrest : ∀ m ∈ list, Named m := fun n hn => hlist n (List.mem_cons_of_mem m hn)
    rw [rows, Option.any_some, List.map_cons]
    by_cases heq : last.name = m.name
    · have hlen : last.manpage_len = m.manpage_len := by rw [← hlast.length, ← hm.length, heq]
      rw [if_pos (decide_eq_true ⟨hlen, heq⟩), List.destutter'_cons_neg _ (not_not.mpr heq)]
      exact ih hlast hrest
    · rw [if_neg (by simp [heq]), List.destutter'_cons_pos _ heq, ← ih hm hrest]
      rfl

lemma rows_names {list : List man_index_t} (hlist : ∀ m ∈ list, Named m) :
    (rows indexmap none list).map Row.name = (list.map man_index_t.name).destutter (· ≠ ·) := by
  cases list with
  | nil => rfl
  | cons m list =>
    rw [rows, Option.any_none, if_neg Bool.false_ne_true, List.map_cons, List.map_cons,
      List.destutter_cons']
    exact rows_some indexmap (hlist m List.mem_cons_self) fun n hn =>
      hlist n (List.mem_cons_of_mem m hn)

end

/-! ### The index is right -/

lemma stripExtension_ne {file : Text} (h : file ≠ []) : stripExtension file ≠ [] := by
  have hwc : stripCompression file ≠ [] := by
    unfold stripCompression
    dsimp only
    split_ifs with hpos
    · rw [Ne, List.take_eq_nil_iff, not_or]
      exact ⟨hpos.ne', h⟩
    · exact h
  rw [stripExtension_eq]
  cases lastIndexOf '.' (stripCompression file) with
  | none => exact hwc
  | some i =>
    dsimp only
    split_ifs with hpos
    · rw [Ne, List.take_eq_nil_iff, not_or]
      exact ⟨hpos.ne', hwc⟩
    · exact hwc

lemma Page.name_ne (p : Page) : p.name ≠ [] := encode_eq_nil.not.mpr (stripExtension_ne p.file)

lemma manpage_len_pos {p : Page} (h : (manindex p.path).name = p.name) :
    0 < (manindex p.path).manpage_len := by
  by_contra hpos
  have hzero : (manindex p.path).manpage_len.toNat = 0 := by omega
  rw [man_index_t.name, hzero, List.take_zero] at h
  exact p.name_ne h.symm

lemma mem_indexlist (h : m ∈ indexlist (pages.map Page.path)) : Named m := by
  obtain ⟨hmem, hpos⟩ := List.mem_filter.mp h
  rw [List.map_map, List.mem_map] at hmem
  obtain ⟨p, -, rfl⟩ := hmem
  exact named_manindex p (of_decide_eq_true hpos)

lemma indexlist_eq (h : ∀ p ∈ pages, (manindex p.path).name = p.name) :
    indexlist (pages.map Page.path) = pages.map fun p => manindex p.path := by
  unfold indexlist
  rw [List.map_map]
  apply List.filter_eq_self.mpr
  intro m hm
  obtain ⟨p, hp, rfl⟩ := List.mem_map.mp hm
  exact decide_eq_true (manpage_len_pos (h p hp))

lemma indexlist_names (h : ∀ p ∈ pages, (manindex p.path).name = p.name) :
    (indexlist (pages.map Page.path)).map man_index_t.name = pages.map Page.name := by
  rw [indexlist_eq h, List.map_map]
  exact List.map_congr_left h

section

variable (q : Lower) (indexmap : Bytes → Option String)

/-- The order of names. -/
def Before (a b : Bytes) : Prop := lowered q a ≤ lowered q b

instance : DecidableRel (Before q) := fun _ _ => inferInstanceAs (Decidable (_ ≤ _))

lemma before_total (a b : Bytes) : Before q a b ∨ Before q b a := le_total _ _

lemma before_trans (a b c : Bytes) (hab : Before q a b) (hbc : Before q b c) : Before q a c :=
  le_trans hab hbc

variable {sorted : List man_index_t}

lemma sorted_iff {pages : List Page} :
    Sorted q (indexlist (pages.map Page.path)) sorted ↔
      sorted.Perm (indexlist (pages.map Page.path)) ∧
        (sorted.map man_index_t.name).Pairwise (Before q) := by
  constructor
  · rintro ⟨hperm, hpairwise⟩
    refine ⟨hperm, List.pairwise_map.mpr (hpairwise.imp_of_mem fun ha hb h => ?_)⟩
    exact (compare_man_index_le q (mem_indexlist (hperm.subset ha))
      (mem_indexlist (hperm.subset hb))).mp h
  · rintro ⟨hperm, hpairwise⟩
    refine ⟨hperm, (List.pairwise_map.mp hpairwise).imp_of_mem fun ha hb h => ?_⟩
    exact (compare_man_index_le q (mem_indexlist (hperm.subset ha))
      (mem_indexlist (hperm.subset hb))).mpr h

lemma exists_sorted {pages : List Page} {names : List Bytes}
    (hperm : names.Perm ((indexlist (pages.map Page.path)).map man_index_t.name))
    (hpairwise : names.Pairwise (Before q)) :
    ∃ sorted, Sorted q (indexlist (pages.map Page.path)) sorted ∧
      sorted.map man_index_t.name = names := by
  have hcomp : Relation.Comp (· = List.map man_index_t.name ·) (·.Perm ·) names
      (indexlist (pages.map Page.path)) := by
    rw [List.eq_map_comp_perm]
    exact hperm
  obtain ⟨sorted, rfl, hsorted⟩ := hcomp
  exact ⟨sorted, (sorted_iff q).mpr ⟨hsorted, hpairwise⟩, rfl⟩

lemma showIndex_eq {pages : List Text} (h : sorted = [] ↔ pages = []) :
    showIndex indexmap pages sorted = some (rows indexmap none sorted) := by
  cases pages with
  | nil =>
    rw [h.mpr rfl]
    rfl
  | cons page pages =>
    cases sorted with
    | nil => exact absurd (h.mp rfl) (List.cons_ne_nil page pages)
    | cons m list => rfl

lemma showIndex_names {pages : List Page} (hnames : ∀ p ∈ pages, (manindex p.path).name = p.name)
    (hsorted : Sorted q (indexlist (pages.map Page.path)) sorted) :
    ∃ rows, showIndex indexmap (pages.map Page.path) sorted = some rows ∧
      rows.map Row.name = (sorted.map man_index_t.name).destutter (· ≠ ·) := by
  refine ⟨_, showIndex_eq indexmap ?_, rows_names indexmap fun m hm =>
    mem_indexlist (hsorted.perm.subset hm)⟩
  have hlength := hsorted.perm.length_eq
  rw [indexlist_eq hnames, List.length_map] at hlength
  rw [List.map_eq_nil_iff, ← List.length_eq_zero_iff, ← List.length_eq_zero_iff, hlength]

/-- **The index lists each page once, in order and under its name, whatever order equal names are
left in, exactly where** each name is the same to both functions, and no name that is there twice
has another one beside it that differs in the case alone. -/
theorem showIndex_iff (pages : List Page) :
    (∀ sorted, Sorted q (indexlist (pages.map Page.path)) sorted →
      ∃ rows, showIndex indexmap (pages.map Page.path) sorted = some rows ∧ Lists q pages rows) ↔
      (∀ p ∈ pages, Fits p.path) ∧
        Unmixed (fun a b => lowered q a ≤ lowered q b) (pages.map Page.name) := by
  have hfits : (∀ p ∈ pages, Fits p.path) ↔
      ∀ p ∈ pages, (manindex p.path).name = p.name :=
    forall₂_congr fun p _ => (named_iff p).symm
  rw [hfits]
  constructor
  · intro hall
    have hnames : ∀ p ∈ pages, (manindex p.path).name = p.name := by
      let names := (indexlist (pages.map Page.path)).map man_index_t.name
      have hperm : (sort (Before q) names).Perm names := sort_perm names
      have hpairwise := sort_pairwise (before_total q) (before_trans q) names
      obtain ⟨sorted, hsorted, -⟩ := exists_sorted q hperm hpairwise
      obtain ⟨rows, -, hlists⟩ := hall sorted hsorted
      exact hlists.named
    refine ⟨hnames, ?_⟩
    have hunmixed := nodup_iff_unmixed (before_total q) (before_trans q) (pages.map Page.name)
    apply hunmixed.mp
    intro names hperm hpairwise
    rw [← indexlist_names hnames] at hperm
    obtain ⟨sorted, hsorted, rfl⟩ := exists_sorted q hperm hpairwise
    obtain ⟨rows, hrows, hlisted⟩ := showIndex_names q indexmap hnames hsorted
    obtain ⟨rows', hrows', hlists⟩ := hall sorted hsorted
    obtain rfl : rows = rows' := Option.some.inj (hrows.symm.trans hrows')
    rw [← hlisted]
    exact hlists.once
  · rintro ⟨hnames, hunmixed⟩ sorted hsorted
    obtain ⟨rows, hrows, hlisted⟩ := showIndex_names q indexmap hnames hsorted
    obtain ⟨hperm, hpairwise⟩ := (sorted_iff q).mp hsorted
    have hpages := hperm.map man_index_t.name
    rw [indexlist_names hnames] at hpages
    refine ⟨rows, hrows, ?_, ?_, ?_, hnames⟩
    · rw [hlisted]
      exact destutter_nodup hpairwise (hunmixed.perm hpages)
    · intro name
      rw [hlisted, mem_destutter, hpages.mem_iff]
    · have hsub := hpairwise.sublist (List.destutter_sublist (· ≠ ·) _)
      rw [← hlisted, List.pairwise_map] at hsub
      exact List.pairwise_map.mpr hsub

end

def asciiLower : Lower where
  lower b := if 65 ≤ b ∧ b ≤ 90 then b + 32 else b
  zero b := by
    split_ifs with h
    · obtain ⟨hfirst, hlast⟩ := h
      constructor
      · intro heq
        have hnat := congrArg UInt8.toNat heq
        rw [UInt8.toNat_add] at hnat
        have hle := UInt8.le_iff_toNat_le.mp hlast
        have hge := UInt8.le_iff_toNat_le.mp hfirst
        simp only [UInt8.reduceToNat] at hnat hle hge
        omega
      · rintro rfl
        exact absurd hfirst (by decide)
    · exact Iff.rfl

def lsPage : Page where
  path := "/usr/share/man/man1/ls.1.br".toList
  noNul := by decide
  file := by decide
  shown := by decide

/-- The index lists the page `ls` as `ls.1`. -/
theorem brotli_keeps_section :
    ¬ ∀ (q : Lower) (indexmap : Bytes → Option String) (pages : List Page)
      (sorted : List man_index_t), Sorted q (indexlist (pages.map Page.path)) sorted →
      ∃ rows, showIndex indexmap (pages.map Page.path) sorted = some rows ∧ Lists q pages rows := by
  intro hall
  have hsorted : Sorted asciiLower (indexlist ([lsPage].map Page.path)) [manindex lsPage.path] := by
    refine ⟨?_, List.pairwise_singleton _ _⟩
    have hlist : indexlist ([lsPage].map Page.path) = [manindex lsPage.path] :=
      List.filter_eq_self.mpr (by
        intro m hm
        obtain rfl := List.mem_singleton.mp hm
        decide)
    rw [hlist]
  obtain ⟨rows, -, hlists⟩ := hall asciiLower (fun _ => none) [lsPage] _ hsorted
  have hname := hlists.named lsPage List.mem_cons_self
  exact absurd hname (by decide)

end KioExtras.Man.Index
