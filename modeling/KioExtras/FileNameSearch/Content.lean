import KioExtras.FileNameSearch.WordList

/-!
Searching the content of a file. Each line is searched together with the one before it, and only the
first one alone.
-/

namespace KioExtras.FileNameSearch.WordList

open KioExtras.FileNameSearch.EscapePhrase (Text)

def UDSEntry.readLines (entry : UDSEntry) : List Text := entry.lines.getD []

section content

variable (hasMatch : Text → Text → Bool) (entry : UDSEntry) (term : Text)

/-- A term is in the name, in a line, or in two lines with the break between them. -/
inductive Found : Prop
  | name : hasMatch term entry.UDS_NAME = true → Found
  | line (line : Text) : line ∈ entry.readLines → hasMatch term line = true → Found
  | pair (a b : Text) : [a, b] <:+: entry.readLines → hasMatch term (a ++ '\n' :: b) = true → Found

/-- A term is in the name, in the first line, or in two lines. -/
inductive FoundInPairs : Prop
  | name : hasMatch term entry.UDS_NAME = true → FoundInPairs
  | first (line : Text) : line ∈ entry.readLines.head? → hasMatch term line = true → FoundInPairs
  | pair (a b : Text) : [a, b] <:+: entry.readLines → hasMatch term (a ++ '\n' :: b) = true →
      FoundInPairs

/-- A term is in a line alone, and that is not the first one. -/
def Alone : Prop :=
  (∃ line ∈ entry.readLines.tail, hasMatch term line = true) ∧ ¬FoundInPairs hasMatch entry term

variable {hasMatch : Text → Text → Bool} {entry : UDSEntry} {term : Text}

lemma found_iff : Found hasMatch entry term ↔
    FoundInPairs hasMatch entry term ∨ Alone hasMatch entry term := by
  constructor
  · intro hfound
    by_cases hpairs : FoundInPairs hasMatch entry term
    · exact Or.inl hpairs
    · refine Or.inr ⟨?_, hpairs⟩
      rcases hfound with hname | ⟨line, hline, hmatch⟩ | ⟨a, b, hpair, hmatch⟩
      · exact absurd (FoundInPairs.name hname) hpairs
      · refine ⟨line, ?_, hmatch⟩
        cases hlines : entry.readLines with
        | nil => rw [hlines] at hline; exact absurd hline List.not_mem_nil
        | cons first rest =>
          rw [hlines, List.mem_cons] at hline
          refine hline.resolve_left fun heq => hpairs (.first line ?_ hmatch)
          rw [hlines, heq, List.head?_cons, Option.mem_some]
      · exact absurd (FoundInPairs.pair a b hpair hmatch) hpairs
  · rintro ((hname | ⟨line, hline, hmatch⟩ | ⟨a, b, hpair, hmatch⟩) | ⟨⟨line, hline, hmatch⟩, -⟩)
    · exact .name hname
    · exact .line line (List.mem_of_mem_head? hline) hmatch
    · exact .pair a b hpair hmatch
    · exact .line line (List.mem_of_mem_tail hline) hmatch

lemma mem_windows {text line : Text} {lines : List Text} : text ∈ windows (line ++ ['\n']) lines ↔
    ∃ a b, [a, b] <:+: line :: lines ∧ text = a ++ '\n' :: b := by
  induction lines generalizing line with
  | nil =>
    rw [windows]
    refine iff_of_false List.not_mem_nil ?_
    rintro ⟨a, b, hpair, -⟩
    have hlength := hpair.length_le
    simp at hlength
  | cons line2 lines ih =>
    rw [windows, List.mem_cons, ih, List.append_assoc, List.singleton_append]
    constructor
    · rintro (rfl | ⟨a, b, hpair, rfl⟩)
      · exact ⟨line, line2, List.infix_cons_iff.mpr (Or.inl (by simp)), rfl⟩
      · exact ⟨a, b, List.infix_cons hpair, rfl⟩
    · rintro ⟨a, b, hpair, rfl⟩
      rcases List.infix_cons_iff.mp hpair with hfirst | hrest
      · rw [List.cons_prefix_cons, List.cons_prefix_cons] at hfirst
        obtain ⟨rfl, rfl, -⟩ := hfirst
        exact Or.inl rfl
      · exact Or.inr ⟨a, b, hrest, rfl⟩

lemma exists_window {lines : List Text} : (∃ text ∈ windows [] lines, hasMatch term text = true) ↔
    (∃ line ∈ lines.head?, hasMatch term line = true) ∨
      ∃ a b, [a, b] <:+: lines ∧ hasMatch term (a ++ '\n' :: b) = true := by
  cases lines with
  | nil => simp [windows]
  | cons line lines =>
    rw [windows, List.nil_append, List.exists_mem_cons_iff]
    apply or_congr
    · simp
    · constructor
      · rintro ⟨text, htext, hmatch⟩
        obtain ⟨a, b, hpair, rfl⟩ := mem_windows.mp htext
        exact ⟨a, b, hpair, hmatch⟩
      · rintro ⟨a, b, hpair, hmatch⟩
        exact ⟨_, mem_windows.mpr ⟨a, b, hpair, rfl⟩, hmatch⟩

lemma hit_iff (houtside : ∀ path ∈ entry.localPath, ∀ dir ∈ systemDirs, ¬dir <+: path)
    (htext : entry.inherits = true) :
    Hit hasMatch true entry term ↔ FoundInPairs hasMatch entry term := by
  have hguard : (entry.localPath.any fun path => systemDirs.any (·.isPrefixOf path)) = false := by
    cases hpath : entry.localPath with
    | none => rfl
    | some path =>
      rw [Option.any_some, List.any_eq_false]
      intro dir hdir hstart
      exact houtside path hpath dir hdir (List.isPrefixOf_iff_prefix.mp hstart)
  have hhit : Hit hasMatch true entry term ↔ hasMatch term entry.UDS_NAME = true ∨
      ∃ text ∈ windows [] entry.readLines, hasMatch term text = true := by
    rw [Hit, List.exists_mem_cons_iff, contentTexts, hguard, htext]
    rfl
  rw [hhit, exists_window]
  constructor
  · rintro (hname | ⟨line, hline, hmatch⟩ | ⟨a, b, hpair, hmatch⟩)
    · exact .name hname
    · exact .first line hline hmatch
    · exact .pair a b hpair hmatch
  · rintro (hname | ⟨line, hline, hmatch⟩ | ⟨a, b, hpair, hmatch⟩)
    · exact Or.inl hname
    · exact Or.inr (Or.inl ⟨line, hline, hmatch⟩)
    · exact Or.inr (Or.inr ⟨a, b, hpair, hmatch⟩)

/-- **Searching the content** gives what it should, in whatever order the terms are stored, just if
some term is nowhere or none is in a line alone. -/
theorem matchEntry_content {termList : List Text} {regexHash : RegexHash}
    (hhash : HashOf termList regexHash) (htext : entry.inherits = true)
    (houtside : ∀ path ∈ entry.localPath, ∀ dir ∈ systemDirs, ¬dir <+: path) :
    ((matchEntry hasMatch true entry regexHash = true ↔
        ∀ term ∈ termList, Found hasMatch entry term) ∧
      ∀ other, HashOf termList other →
        matchEntry hasMatch true entry other = matchEntry hasMatch true entry regexHash) ↔
      (∃ term ∈ termList, ¬Found hasMatch entry term) ∨
        ∀ term ∈ termList, ¬Alone hasMatch entry term := by
  have hmatch : ∀ {hash}, HashOf termList hash → (matchEntry hasMatch true entry hash = true ↔
      ∀ term ∈ termList, FoundInPairs hasMatch entry term) := fun hhash =>
    (matchEntry_iff hhash true entry).trans (forall₂_congr fun _ _ => hit_iff houtside htext)
  have horder : ∀ other, HashOf termList other →
      matchEntry hasMatch true entry other = matchEntry hasMatch true entry regexHash :=
    fun other hother => Bool.eq_iff_iff.mpr ((hmatch hother).trans (hmatch hhash).symm)
  rw [and_iff_left horder, hmatch hhash]
  constructor
  · intro hiff
    by_cases hall : ∀ term ∈ termList, Found hasMatch entry term
    · exact Or.inr fun term hterm halone => halone.2 (hiff.mpr hall term hterm)
    · push Not at hall
      exact Or.inl hall
  · rintro (⟨term, hterm, hnot⟩ | hnone)
    · exact iff_of_false (fun h => hnot (found_iff.mpr (Or.inl (h term hterm))))
        (fun h => hnot (h term hterm))
    · refine forall₂_congr fun term hterm => ?_
      rw [found_iff, or_iff_left (hnone term hterm)]

end content

/-- Expressions that are plain characters, with or without an anchor in front. -/
def anchored : Text → Text → Bool
  | '^' :: term, text => term.isPrefixOf text
  | term, text => decide (term <:+: text)

def twoLines : UDSEntry := ⟨['c'], some "/c".toList, true, some [['a'], ['b']]⟩

/-- The first line is found. -/
theorem first_line_found :
    (matchEntry anchored true twoLines [(['a'], 0)] = true ↔
        ∀ term ∈ [['a']], Found anchored twoLines term) ∧
      ∀ other, HashOf [['a']] other →
        matchEntry anchored true twoLines other = matchEntry anchored true twoLines [(['a'], 0)] :=
  (matchEntry_content ⟨by decide, by simp, by decide⟩ rfl (by decide)).mpr <| Or.inr <| by
    rintro term hterm ⟨-, hnot⟩
    rw [List.mem_singleton.mp hterm] at hnot
    exact hnot (.first ['a'] rfl rfl)

/-- The second line is not found alone. -/
theorem second_line_missed : ¬(matchEntry anchored true twoLines [(['^', 'b'], 0)] = true ↔
    ∀ term ∈ [['^', 'b']], Found anchored twoLines term) := by
  intro hiff
  have hfound : ∀ term ∈ [['^', 'b']], Found anchored twoLines term := by
    intro term hterm
    rw [List.mem_singleton.mp hterm]
    exact .line ['b'] (by decide) rfl
  exact absurd (hiff.mpr hfound) (by decide)

end KioExtras.FileNameSearch.WordList
