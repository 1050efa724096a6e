import KioExtras.Kcms.WebShortcuts
import KioExtras.Lib.Split
import Mathlib.Data.List.Perm.Basic

/-!
The dialog in which a web search keyword is entered. The shorthands are compared with those of the
other providers as they stand, and stored in lower case.
-/

namespace KioExtras.Kcms.SearchProviderDialog

open KioExtras.Lib KioExtras.Lib.Run KioExtras.Kcms.WebShortcuts

/-- What the dialog asks of Qt: which characters are white space, and what they are in lower
case. -/
structure Qt where
  isSpace : Char → Bool
  toLower : Char → Text
  comma : isSpace ',' = false ∧ toLower ',' = [',']
  comma_notMem : ∀ c, c ≠ ',' → ',' ∉ toLower c
  toLower_ne_nil : ∀ c, toLower c ≠ []
  toLower_toLower : ∀ c, (toLower c).flatMap toLower = toLower c
  isSpace_toLower : ∀ c, (toLower c).any isSpace = isSpace c

/-- The dialog as it is accepted: the place of the provider that is edited, and what was entered
last. -/
structure Dialog where
  m_provider : Option ℕ
  leName : Text
  leQuery : Text
  leShortcut : Text
  cbCharset : Text

section dialog

variable (qt : Qt)

/-- `QString::toLower` -/
def lower (text : Text) : Text := text.flatMap qt.toLower

def trimmed (text : Text) : Text := (text.dropWhile qt.isSpace).rdropWhile qt.isSpace

def normalizedShorthands (newShorthands : Text) : Text :=
  newShorthands.map fun c => if c = ' ' then ',' else c

variable (d : Dialog)

/-- The shorthands as they are stored, but for the case. -/
def entered : Text := trimmed qt (normalizedShorthands d.leShortcut)

variable (m_providers : List Data)

/-- The providers but the one that is edited. -/
def others : Option ℕ → List Data
  | none => m_providers
  | some i => m_providers.eraseIdx i

def findProvider (d : Dialog) (shorthand : Text) : Option Data :=
  (others m_providers d.m_provider).find? fun provider => provider.keys.contains shorthand

/-- The shorthands that are assigned already; with any of them there is a note. -/
def contenders (d : Dialog) : List (Text × Data) :=
  ((normalizedShorthands d.leShortcut).splitOn ',').filterMap fun shorthand =>
    (findProvider m_providers d shorthand).map fun provider => (shorthand, provider)

/-- The name of a provider that is edited cannot be changed. -/
def name (m_providers : List Data) (d : Dialog) : Text :=
  ((d.m_provider.bind fun i => m_providers[i]?).map Data.name).getD d.leName

/-- Whether the button is enabled. -/
def slotChanged (d : Dialog) : Bool :=
  !(name m_providers d = [] || normalizedShorthands d.leShortcut = [] || d.leQuery = []) &&
    (contenders m_providers d).isEmpty

def keys : List Text :=
  (((lower qt (entered qt d)).splitOn ',').filter (· ≠ [])).eraseDups

def data (d : Dialog) : Data where
  name := trimmed qt (name m_providers d)
  query := trimmed qt d.leQuery
  keys := keys qt d
  charset := trimmed qt d.cbCharset

def accept (d : Dialog) : Option (List Data) :=
  if slotChanged m_providers d then
    match d.m_provider with
    | none => some (m_providers ++ [data qt m_providers d])
    | some i =>
      if i < m_providers.length then some (m_providers.set i (data qt m_providers d)) else none
  else none

/-! ### What is to hold -/

/-- No key of one is a key of the other, in lower case. -/
def Apart (p q : Data) : Prop := ∀ k ∈ p.keys, ∀ l ∈ q.keys, lower qt k ≠ lower qt l

/-- A provider has keys, and they are words. -/
structure Words (p : Data) : Prop where
  some : p.keys ≠ []
  nonempty : [] ∉ p.keys
  blanks : ∀ key ∈ p.keys, ∀ c ∈ key, qt.isSpace c = false

structure Proper (m_providers : List Data) : Prop where
  apart : m_providers.Pairwise (Apart qt)
  words : ∀ p ∈ m_providers, Words qt p

/-- What is entered has a shorthand and, but at its ends, no white space other than blanks; and the
key of another provider, in whatever case, is entered in its own as well. -/
structure Clear (m_providers : List Data) (d : Dialog) : Prop where
  some : ∃ c ∈ entered qt d, c ≠ ','
  blanks : ∀ c ∈ entered qt d, qt.isSpace c = false
  cases : ∀ other ∈ others m_providers d.m_provider, ∀ key ∈ other.keys,
    ∀ part ∈ (entered qt d).splitOn ',', lower qt part = lower qt key →
      key ∈ (normalizedShorthands d.leShortcut).splitOn ','

end dialog

section steps

variable {qt : Qt} {s t : List Data} {d : Dialog}

lemma lower_lower (text : Text) : lower qt (lower qt text) = lower qt text := by
  rw [lower, lower, List.flatMap_assoc]
  exact List.flatMap_congr fun c _ => qt.toLower_toLower c

lemma lower_eq_nil {text : Text} : lower qt text = [] ↔ text = [] := by
  cases text with
  | nil => exact iff_of_true rfl rfl
  | cons c rest => simp [lower, qt.toLower_ne_nil c]

lemma mem_keys {key : Text} : key ∈ keys qt d ↔
    ∃ part ∈ (entered qt d).splitOn ',', part ≠ [] ∧ lower qt part = key := by
  have hsplit := Split.splitOn_flatMap qt.comma.2 qt.comma_notMem (entered qt d)
  rw [keys, List.mem_eraseDups, List.mem_filter, lower, hsplit, List.mem_map, decide_eq_true_eq]
  constructor
  · rintro ⟨⟨part, hpart, rfl⟩, hne⟩
    exact ⟨part, hpart, fun hnil => hne (lower_eq_nil.mpr hnil), rfl⟩
  · rintro ⟨part, hpart, hne, rfl⟩
    exact ⟨⟨part, hpart, rfl⟩, fun hnil => hne (lower_eq_nil.mp hnil)⟩

lemma notMem_of_slotChanged (h : slotChanged s d = true) {other : Data} {key : Text}
    (hother : other ∈ others s d.m_provider) (hkey : key ∈ other.keys) :
    key ∉ (normalizedShorthands d.leShortcut).splitOn ',' := by
  intro hentered
  simp only [slotChanged, Bool.and_eq_true, List.isEmpty_iff, contenders, List.filterMap_eq_nil_iff,
    Option.map_eq_none_iff] at h
  have hnone := h.2 key hentered
  rw [findProvider, List.find?_eq_none] at hnone
  exact hnone other hother (List.contains_iff_mem.mpr hkey)

lemma accept_perm (h : accept qt s d = some t) :
    slotChanged s d = true ∧ t.Perm (data qt s d :: others s d.m_provider) := by
  unfold accept at h
  split_ifs at h with hok
  refine ⟨hok, ?_⟩
  cases hprovider : d.m_provider with
  | none =>
    rw [hprovider] at h
    obtain rfl := Option.some.inj h
    exact List.perm_append_singleton _ _
  | some i =>
    rw [hprovider] at h
    dsimp only at h
    split_ifs at h with hi
    obtain rfl := Option.some.inj h
    exact List.set_perm_cons_eraseIdx hi _

lemma words_iff : Words qt (data qt s d) ↔
    (∃ c ∈ entered qt d, c ≠ ',') ∧ ∀ c ∈ entered qt d, qt.isSpace c = false := by
  constructor
  · intro h
    obtain ⟨key, hkey⟩ := List.exists_mem_of_ne_nil _ h.some
    obtain ⟨part, hpart, hne, -⟩ := mem_keys.mp hkey
    obtain ⟨c, hc⟩ := List.exists_mem_of_ne_nil part hne
    refine ⟨⟨c, Split.exists_mem_splitOn.mp ⟨part, hpart, hc⟩⟩, fun c hc => ?_⟩
    by_cases hcomma : c = ','
    · rw [hcomma, qt.comma.1]
    · obtain ⟨part, hpart, hc⟩ := Split.exists_mem_splitOn.mpr ⟨hc, hcomma⟩
      have hblanks := h.blanks _ (mem_keys.mpr ⟨part, hpart, List.ne_nil_of_mem hc, rfl⟩)
      rw [← qt.isSpace_toLower, List.any_eq_false]
      exact fun x hx => ne_true_of_eq_false (hblanks x (List.mem_flatMap.mpr ⟨c, hc, hx⟩))
  · rintro ⟨hsome, hblanks⟩
    refine ⟨?_, ?_, ?_⟩
    · obtain ⟨c, hc, hcomma⟩ := hsome
      obtain ⟨part, hpart, hc⟩ := Split.exists_mem_splitOn.mpr ⟨hc, hcomma⟩
      exact List.ne_nil_of_mem (mem_keys.mpr ⟨part, hpart, List.ne_nil_of_mem hc, rfl⟩)
    · intro hnil
      obtain ⟨part, -, hne, hlower⟩ := mem_keys.mp hnil
      exact hne (lower_eq_nil.mp hlower)
    · intro key hkey x hx
      obtain ⟨part, hpart, -, rfl⟩ := mem_keys.mp hkey
      obtain ⟨c, hc, hx⟩ := List.mem_flatMap.mp hx
      have hspace := hblanks c (Split.exists_mem_splitOn.mp ⟨part, hpart, hc⟩).1
      rw [← qt.isSpace_toLower, List.any_eq_false] at hspace
      exact eq_false_of_ne_true (hspace x hx)

lemma others_sublist (s : List Data) (m_provider : Option ℕ) : (others s m_provider).Sublist s := by
  cases m_provider with
  | none => exact List.Sublist.refl s
  | some i => exact List.eraseIdx_sublist s i

lemma Apart.symm {p q : Data} (h : Apart qt p q) : Apart qt q p :=
  fun k hk l hl heq => h l hl k hk heq.symm

/-- **An accepted dialog** keeps the keys apart just if what is entered is clear. -/
lemma proper_iff (hs : Proper qt s) (h : accept qt s d = some t) : Proper qt t ↔ Clear qt s d := by
  obtain ⟨hok, hperm⟩ := accept_perm h
  have hsub := others_sublist s d.m_provider
  have hapart : (∀ other ∈ others s d.m_provider, Apart qt (data qt s d) other) ↔
      ∀ other ∈ others s d.m_provider, ∀ key ∈ other.keys,
        ∀ part ∈ (entered qt d).splitOn ',', lower qt part = lower qt key →
          key ∈ (normalizedShorthands d.leShortcut).splitOn ',' := by
    refine forall₂_congr fun other hother => ⟨fun h key hkey part hpart heq => ?_, ?_⟩
    · have hne : part ≠ [] := by
        rintro rfl
        rw [lower_eq_nil.mp heq.symm] at hkey
        exact (hs.words other (hsub.subset hother)).nonempty hkey
      have hkeys : lower qt part ∈ keys qt d := mem_keys.mpr ⟨part, hpart, hne, rfl⟩
      exact absurd ((lower_lower part).trans heq) (h _ hkeys key hkey)
    · intro hentered k hk key hkey heq
      obtain ⟨part, hpart, -, rfl⟩ := mem_keys.mp hk
      exact notMem_of_slotChanged hok hother hkey
        (hentered key hkey part hpart ((lower_lower part).symm.trans heq))
  constructor
  · intro ht
    have hpair := (hperm.pairwise_iff fun h => Apart.symm h).mp ht.apart
    obtain ⟨hsome, hblanks⟩ := words_iff.mp
      (ht.words _ (hperm.mem_iff.mpr List.mem_cons_self))
    exact ⟨hsome, hblanks, hapart.mp (List.pairwise_cons.mp hpair).1⟩
  · rintro ⟨hsome, hblanks, hcases⟩
    refine ⟨(hperm.pairwise_iff fun h => Apart.symm h).mpr
      (List.pairwise_cons.mpr ⟨hapart.mpr hcases, hs.apart.sublist hsub⟩), fun p hp => ?_⟩
    rcases List.mem_cons.mp (hperm.mem_iff.mp hp) with rfl | hp
    · exact words_iff.mpr ⟨hsome, hblanks⟩
    · exact hs.words p (hsub.subset hp)

end steps

/-- **Over every run** of accepted dialogs the keys of the providers stay apart and words just if
what is entered is clear each time. -/
theorem keys_proper_iff (qt : Qt) {s : List Data} (hs : Proper qt s) (ls : List Dialog) :
    (∀ ms t, ms <+: ls → run (accept qt) s ms = some t → Proper qt t) ↔
      AllSteps (accept qt) (fun s d => (accept qt s d).isSome → Clear qt s d) s ls := by
  refine prefixes_iff (fun _ h => h) (fun s d t hs hclear h => ?_) (fun s d hs hnot => ?_) hs ls
  · exact (proper_iff hs h).mpr (hclear (by rw [h]; rfl))
  · push Not at hnot
    obtain ⟨t, ht⟩ := Option.isSome_iff_exists.mp hnot.1
    exact ⟨t, ht, fun h => hnot.2 ((proper_iff hs ht).mp h)⟩

/-! ### A keyword in capitals -/

/-- The one capital letter here is `G`, and white space is blanks. -/
def asciiQt : Qt where
  isSpace c := c = ' '
  toLower c := if c = 'G' then ['g'] else [c]
  comma := by decide
  comma_notMem c hc := by
    split_ifs
    · decide
    · exact fun hmem => hc (List.mem_singleton.mp hmem).symm
  toLower_ne_nil c := by split_ifs <;> simp
  toLower_toLower c := by split_ifs with hc <;> simp [hc]
  isSpace_toLower c := by split_ifs with hc <;> simp [hc]

def google : Data := ⟨"Google".toList, "g".toList, ["gg".toList], []⟩

def newDialog (leShortcut : Text) : Dialog := ⟨none, ['n'], ['q'], leShortcut, []⟩

lemma google_proper : Proper asciiQt [google] :=
  ⟨List.pairwise_singleton _ _, fun p hp => by
    rw [List.mem_singleton.mp hp]
    exact ⟨by decide, by decide, by simp [google, asciiQt]⟩⟩

theorem keyword_added : (∀ ms t, ms <+: [newDialog "dd".toList] →
      run (accept asciiQt) [google] ms = some t → Proper asciiQt t) ↔
    AllSteps (accept asciiQt) (fun s d => (accept asciiQt s d).isSome → Clear asciiQt s d) [google]
      [newDialog "dd".toList] :=
  keys_proper_iff asciiQt google_proper _

/-- `GG` is not `gg` when it is entered, but when it is stored. -/
theorem capitals_conflict : ¬∀ (qt : Qt) (s t : List Data) (ls : List Dialog),
    Proper qt s → run (accept qt) s ls = some t → t.Pairwise (Apart qt) := by
  intro h
  have hpair := h asciiQt [google] _ [newDialog "GG".toList] google_proper rfl
  have hapart := (List.pairwise_cons.mp hpair).1 (data asciiQt [google] (newDialog "GG".toList))
    List.mem_cons_self
  exact hapart "gg".toList (by decide) "gg".toList (by decide) rfl

end KioExtras.Kcms.SearchProviderDialog
