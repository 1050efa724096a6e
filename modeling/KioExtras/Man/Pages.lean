import KioExtras.Lib.Firsts
import KioExtras.Man.Index

/-!
Where the worker looks for the pages of the manual. The list of the sections grows while the loop of
`findPages` goes through it: first comes the flag for all sections, and with it what the directories
have.
-/

namespace KioExtras.Man.Pages

open KioExtras.Lib.Firsts KioExtras.Man.Index

/-- What the search asks of Qt. -/
structure Qt where
  toLower : Text → Text
  toLower_toLower : ∀ s, toLower (toLower s) = toLower s
  toLower_ne_nil : ∀ s, s ≠ [] → toLower s ≠ []
  toCaseFolded : Char → Char
  simplified : Text → Text
  isLetter : Char → Bool

structure FindFlags where
  CaseInsensitive : Bool
  FuzzyMatch : Bool

/-- A directory of the manual, its subdirectories and their files. -/
structure ManDirectory where
  path : Text
  entries : List Text
  files : Text → List Text
  absent : ∀ sub, sub ∉ entries → files sub = []

def man : Text := "man".toList

def sman : Text := "sman".toList

/-- The flag for finding sections. -/
def star : Text := ['*']

/-- The section of a subdirectory. -/
def sect (file : Text) : Text :=
  if man <+: file then file.drop man.length
  else if sman <+: file then file.drop sman.length
  else []

def charRx (c : Char) : Bool := c = '-' || c = '_' || c = '.' || c = ' '

section

variable (qt : Qt) (title : Text) (flags : FindFlags)

def cased (s : Text) : Text := if flags.CaseInsensitive then s.map qt.toCaseFolded else s

/-- The match that takes one of the characters between words for any other character. -/
def fuzzy (tmp_name : Text) : Bool :=
  let tmp_title := qt.simplified title
  tmp_title.length = tmp_name.length &&
    match tmp_name.findIdx? charRx with
    | some rxPos =>
      cased qt flags (tmp_title.set rxPos (tmp_name.getD rxPos ' ')) = cased qt flags tmp_name
    | none => false

def matched (name : Text) : Bool :=
  title = [] ||
    (cased qt flags title <+: cased qt flags name &&
      cased qt flags (stripExtension name) = cased qt flags title) ||
    flags.FuzzyMatch && fuzzy qt title flags (stripExtension name)

def findManPagesInSection (d : ManDirectory) (sub : Text) : List Text :=
  ((d.files sub).filter (matched qt title flags)).map fun name =>
    d.path ++ '/' :: (sub ++ '/' :: name)

/-- What a subdirectory tells: how the section is really written, and one more section. -/
def enter (all : Bool) (s : Text × List Text) (file : Text) : Text × List Text :=
  if sect file = [] then s
  else (if qt.toLower (sect file) = s.1 then sect file else s.1,
    if !s.2.contains (sect file) && all then s.2 ++ [sect file] else s.2)

structure Search where
  it_real : Text
  sect_list : List Text
  list : List Text

def visit (all : Bool) (it_s : Text) (s : Search) (d : ManDirectory) : Search :=
  let entered := d.entries.foldl (enter qt all) (s.it_real, s.sect_list)
  { it_real := entered.1
    sect_list := entered.2
    list := if it_s = star then s.list
      else s.list ++ (findManPagesInSection qt title flags d (man ++ entered.1) ++
        findManPagesInSection qt title flags d (sman ++ entered.1)) }

variable (man_dirs : List ManDirectory)

/-- The loop over the sections from the `i`-th on, with at most `turns` turns. -/
def loop (all : Bool) : (turns i : ℕ) → (sect_list list : List Text) → Option (List Text)
  | 0, _, _, _ => none
  | turns + 1, i, sect_list, list =>
    match sect_list[i]? with
    | none => some list
    | some it_s =>
      let s := man_dirs.foldl (visit qt title flags all it_s) ⟨qt.toLower it_s, sect_list, list⟩
      loop all turns (i + 1) s.sect_list s.list

/-- A section that is given comes with what is left when letters are taken from its end. -/
def sect_list (_section : Text) : List Text :=
  (List.range ((_section.reverse.takeWhile qt.isLetter).length + 1)).map fun k =>
    _section.take (_section.length - k)

def findPages (turns : ℕ) (_section : Text) : Option (List Text) :=
  if title.head? = some '/' then some [title]
  else if _section = [] then loop qt title flags man_dirs true turns 0 [star] []
  else loop qt title flags man_dirs false turns 0 (sect_list qt _section) []

end

def sections (man_dirs : List ManDirectory) : List Text :=
  man_dirs.flatMap fun d => (d.entries.map sect).filter (· ≠ [])

/-- No section is written like the flag, and no two differ in their case alone. -/
structure Distinct (qt : Qt) (man_dirs : List ManDirectory) : Prop where
  star : star ∉ sections man_dirs
  cases : ∀ s ∈ sections man_dirs, ∀ t ∈ sections man_dirs, qt.toLower s = qt.toLower t → s = t

/-! ### The list of the sections -/

section

variable {qt : Qt} {title : Text} {flags : FindFlags} {man_dirs : List ManDirectory}
  {d : ManDirectory} {it_s : Text} {S : List Text}

lemma enter_sections (files : List Text) (s : Text × List Text) :
    (files.foldl (enter qt true) s).2 =
      s.2 ++ firsts id s.2 ((files.map sect).filter (· ≠ [])) := by
  induction files generalizing s with
  | nil => simp [firsts]
  | cons file files ih =>
    rw [List.foldl_cons, ih, enter]
    by_cases hnil : sect file = []
    · simp [hnil]
    · by_cases hmem : sect file ∈ s.2 <;> simp [hnil, hmem, firsts]

lemma visit_sections (qt : Qt) (title : Text) (flags : FindFlags) (man_dirs : List ManDirectory)
    (it_s : Text) (s : Search) :
    (man_dirs.foldl (visit qt title flags true it_s) s).sect_list =
      s.sect_list ++ firsts id s.sect_list (sections man_dirs) := by
  induction man_dirs generalizing s with
  | nil => simp [sections, firsts]
  | cons d man_dirs ih =>
    rw [List.foldl_cons, ih]
    have hd : sections (d :: man_dirs) =
        (d.entries.map sect).filter (· ≠ []) ++ sections man_dirs := List.flatMap_cons
    simp only [visit, enter_sections]
    rw [hd, firsts_append, List.map_id, List.append_assoc]

lemma firsts_seen {as : List Text} (h : as ⊆ S) : firsts id S as = [] := by
  refine List.eq_nil_iff_forall_not_mem.mpr fun a ha => ?_
  exact key_notMem_of_mem_firsts id ha (h ((firsts_sublist id S as).subset ha))

lemma visit_star (s : Search) :
    (man_dirs.foldl (visit qt title flags true star) s).list = s.list := by
  induction man_dirs generalizing s with
  | nil => rfl
  | cons d man_dirs ih =>
    rw [List.foldl_cons, ih]
    simp [visit]

/-! ### A section -/

/-- The pages of a section in a directory. -/
def pagesOf (qt : Qt) (title : Text) (flags : FindFlags) (it_s : Text) (d : ManDirectory) :
    List Text :=
  findManPagesInSection qt title flags d (man ++ it_s) ++
    findManPagesInSection qt title flags d (sman ++ it_s)

/-- The section as it is really written, or in lower case where no directory had it yet. -/
def Written (qt : Qt) (it_s it_real : Text) : Prop := it_real = it_s ∨ it_real = qt.toLower it_s

lemma Written.lower {t : Text} (h : Written qt it_s t) : qt.toLower t = qt.toLower it_s := by
  rcases h with rfl | rfl
  · rfl
  · exact qt.toLower_toLower it_s

lemma Written.ne_nil {t : Text} (h : Written qt it_s t) (hne : it_s ≠ []) : t ≠ [] := by
  rcases h with rfl | rfl
  · exact hne
  · exact qt.toLower_ne_nil it_s hne

/-- A directory has no section that differs from `it_s` in its case alone. -/
def Alone (qt : Qt) (it_s : Text) (files : List Text) : Prop :=
  ∀ file ∈ files, sect file ≠ [] → qt.toLower (sect file) = qt.toLower it_s → sect file = it_s

lemma enter_written {file : Text} (halone : Alone qt it_s [file]) (hne : it_s ≠ [])
    {s : Text × List Text} (h : Written qt it_s s.1) :
    Written qt it_s (enter qt true s file).1 ∧
      (sect file = it_s ∨ s.1 = it_s → (enter qt true s file).1 = it_s) := by
  rw [enter]
  by_cases hnil : sect file = []
  · rw [if_pos hnil]
    exact ⟨h, fun hs => hs.resolve_left fun heq => hne (heq ▸ hnil)⟩
  rw [if_neg hnil]
  dsimp only
  by_cases heq : qt.toLower (sect file) = s.1
  · have hfound : sect file = it_s := by
      refine halone file List.mem_cons_self hnil ?_
      rw [← h.lower, ← heq, qt.toLower_toLower]
    rw [if_pos heq]
    exact ⟨Or.inl hfound, fun _ => hfound⟩
  · rw [if_neg heq]
    refine ⟨h, fun hs => ?_⟩
    rcases hs with rfl | hs
    · exact h.resolve_right fun hreal => heq hreal.symm
    · exact hs

lemma enters_written {files : List Text} (halone : Alone qt it_s files) (hne : it_s ≠ [])
    (s : Text × List Text) (h : Written qt it_s s.1) :
    Written qt it_s (files.foldl (enter qt true) s).1 ∧
      (it_s ∈ files.map sect ∨ s.1 = it_s → (files.foldl (enter qt true) s).1 = it_s) := by
  induction files generalizing s with
  | nil => exact ⟨h, fun hs => by simpa using hs⟩
  | cons file files ih =>
    obtain ⟨hfile, hfiles⟩ := List.forall_mem_cons.mp halone
    have henter := enter_written (List.forall_mem_singleton.mpr hfile) hne h
    obtain ⟨hreal, hall⟩ := ih hfiles _ henter.1
    refine ⟨hreal, fun hs => hall ?_⟩
    rcases hs with hs | hs
    · rcases List.mem_cons.mp hs with rfl | hs
      · exact Or.inr (henter.2 (Or.inl rfl))
      · exact Or.inl hs
    · exact Or.inr (henter.2 (Or.inr hs))

lemma sect_man (s : Text) : sect (man ++ s) = s := by simp [sect]

lemma sect_sman (s : Text) : sect (sman ++ s) = s := by simp [sect, man, sman]

lemma mem_sections : it_s ∈ sections man_dirs ↔
    it_s ≠ [] ∧ ∃ d ∈ man_dirs, it_s ∈ d.entries.map sect := by
  simp only [sections, List.mem_flatMap, List.mem_filter, decide_eq_true_eq]
  tauto

lemma visit_pages (h : Distinct qt man_dirs) (hs : it_s ∈ sections man_dirs)
    {dirs : List ManDirectory} (hsub : dirs ⊆ man_dirs) {s : Search}
    (hreal : Written qt it_s s.it_real) :
    (dirs.foldl (visit qt title flags true it_s) s).list =
      s.list ++ dirs.flatMap (pagesOf qt title flags it_s) := by
  have hne := (mem_sections.mp hs).1
  induction dirs generalizing s with
  | nil => simp
  | cons d dirs ih =>
    have halone : Alone qt it_s d.entries := fun file hfile hnil heq => h.cases _
      (mem_sections.mpr ⟨hnil, d, hsub List.mem_cons_self, List.mem_map_of_mem hfile⟩) _ hs heq
    obtain ⟨hreal', hall⟩ := enters_written halone hne (s.it_real, s.sect_list) hreal
    rw [List.foldl_cons, ih (fun x hx => hsub (List.mem_cons_of_mem d hx)) hreal',
      List.flatMap_cons, ← List.append_assoc]
    congr 1
    have hstar : it_s ≠ star := fun heq => h.star (heq ▸ hs)
    simp only [visit, if_neg hstar, pagesOf]
    by_cases hmem : it_s ∈ d.entries.map sect
    · rw [hall (Or.inl hmem)]
    · -- no subdirectory has the section, however it is written
      have hnone : ∀ {sub}, Written qt it_s (sect sub) →
          findManPagesInSection qt title flags d sub = [] := by
        intro sub ht
        have habsent : sub ∉ d.entries := fun hsub =>
          hmem (halone sub hsub (ht.ne_nil hne) ht.lower ▸ List.mem_map_of_mem hsub)
        simp [findManPagesInSection, d.absent sub habsent]
      have hs' : Written qt it_s it_s := Or.inl rfl
      rw [hnone (sect_man _ ▸ hreal'), hnone (sect_sman _ ▸ hreal'),
        hnone (sect_man it_s ▸ hs'), hnone (sect_sman it_s ▸ hs')]

/-! ### All sections -/

lemma loop_pages (h : Distinct qt man_dirs) {turns i : ℕ} (list : List Text)
    (hall : sections man_dirs ⊆ S) (hS : ∀ s ∈ S.drop i, s ∈ sections man_dirs)
    (hi : i ≤ S.length) (hturns : S.length < i + turns) :
    loop qt title flags man_dirs true turns i S list = some (list ++
      (S.drop i).flatMap fun s => man_dirs.flatMap (pagesOf qt title flags s)) := by
  induction turns generalizing i list with
  | zero => omega
  | succ turns ih =>
    rw [loop]
    cases hget : S[i]? with
    | none =>
      have hlen := List.getElem?_eq_none_iff.mp hget
      simp [List.drop_eq_nil_of_le hlen]
    | some it_s =>
      obtain ⟨hi, rfl⟩ := List.getElem?_eq_some_iff.mp hget
      rw [List.drop_eq_getElem_cons hi] at hS ⊢
      have hmem := hS _ List.mem_cons_self
      have hsections := visit_sections qt title flags man_dirs S[i] ⟨qt.toLower S[i], S, list⟩
      rw [firsts_seen hall, List.append_nil] at hsections
      dsimp only
      rw [hsections, visit_pages h hmem (List.Subset.refl _) (Or.inr rfl),
        ih _ (fun s hs => hS s (List.mem_cons_of_mem _ hs)) hi (by omega),
        List.flatMap_cons, List.append_assoc]

end

/-- Directories with a page each, one of them in a section with a letter. -/
def world : List ManDirectory :=
  [⟨"/usr/man".toList, [man ++ ['1']],
      fun sub => if sub = man ++ ['1'] then ["ls.1".toList] else [], by simp⟩,
    ⟨"/opt/man".toList, [man ++ ['3', 'P']],
      fun sub => if sub = man ++ ['3', 'P'] then ["ls.3P".toList] else [], by simp⟩]

/-- Qt for the letters of `world`. -/
def ascii : Qt where
  toLower s := s.map fun c => if c = 'P' then 'p' else c
  toLower_toLower s := by
    rw [List.map_map]
    refine List.map_congr_left fun c _ => ?_
    by_cases hc : c = 'P' <;> simp [hc]
  toLower_ne_nil s := by simp
  toCaseFolded := Char.toLower
  simplified s := s
  isLetter := Char.isAlpha

end KioExtras.Man.Pages
