import KioExtras.Lib.Run
import Mathlib.Data.List.DropRight
import Mathlib.Data.List.Nodup
import Mathlib.Data.List.TakeWhile

/-!
The module for web search keywords: the providers it edits, the files they are in, and what is
written when they are saved.
-/

namespace KioExtras.Kcms.WebShortcuts

open KioExtras.Lib.Run

abbrev Text := List Char

/-- What a provider is edited for. -/
structure Data where
  name : Text
  query : Text
  keys : List Text
  charset : Text
  deriving DecidableEq

/-- The data of a new provider, and of a file without any. -/
def noData : Data := ⟨[], [], [], []⟩

structure ServiceFile where
  data : Data
  hidden : Bool
  deriving DecidableEq

/-- A directory `searchproviders`: its files under their names without `.desktop`. -/
structure Dir where
  files : List (Text × ServiceFile)
  nodup : (files.map Prod.fst).Nodup

namespace Dir

def lookup (dir : Dir) (name : Text) : Option ServiceFile := dir.files.lookup name

lemma nodup_filter {files : List (Text × ServiceFile)} (h : (files.map Prod.fst).Nodup)
    (keep : Text × ServiceFile → Bool) : ((files.filter keep).map Prod.fst).Nodup :=
  h.sublist (List.filter_sublist.map Prod.fst)

def remove (dir : Dir) (name : Text) : Dir :=
  ⟨dir.files.filter fun file => file.1 ≠ name, nodup_filter dir.nodup _⟩

def put (dir : Dir) (name : Text) (file : ServiceFile) : Dir where
  files := (name, file) :: (dir.remove name).files
  nodup := by
    rw [List.map_cons, List.nodup_cons]
    refine ⟨?_, (dir.remove name).nodup⟩
    intro hmem
    obtain ⟨other, hother, hname⟩ := List.mem_map.mp hmem
    have hne := (List.mem_filter.mp hother).2
    exact absurd hname (of_decide_eq_true hne)

end Dir

/-- The file that counts: of the first directory that has one. -/
def located (dirs : List Dir) (name : Text) : Option ServiceFile :=
  dirs.findSome? fun dir => dir.lookup name

structure SearchProvider where
  desktopEntryName : Text
  data : Data
  m_dirty : Bool
  deriving DecidableEq

/-! ### The registry -/

/-- `QFileInfo::baseName`: up to the first dot -/
def baseName (name : Text) : Text := name.takeWhile (· ≠ '.')

def isListed (name : Text) : Bool := name ≠ [] && name.head? ≠ some '.'

/-- The files of a directory are added under the names there are none under yet. -/
def addDir (found : List (Text × ServiceFile)) (dir : Dir) : List (Text × ServiceFile) :=
  found ++ dir.files.filter fun file => isListed file.1 && !found.any fun old => old.1 = file.1

def reload (dirs : List Dir) : List (Text × ServiceFile) := dirs.foldl addDir []

def ofFile (file : Text × ServiceFile) : SearchProvider := ⟨baseName file.1, file.2.data, false⟩

def shown (dirs : List Dir) : List SearchProvider :=
  ((reload dirs).filter fun file => !file.2.hidden).map ofFile

/-! ### The module -/

structure FilterOptions where
  /-- the directory that is written to, and searched first -/
  user : Dir
  system : List Dir
  providers : List SearchProvider
  m_deletedProviders : List Text

def FilterOptions.dirs (s : FilterOptions) : List Dir := s.user :: s.system

def start (user : Dir) (system : List Dir) : FilterOptions :=
  ⟨user, system, shown (user :: system), []⟩

section module_

-- `QString::toLower`
variable (toLower : Text → Text)

/-- The longest key, in lower case and without dots and slashes. -/
def keyName (keys : List Text) : Text :=
  keys.foldl (fun name key => if name.length < key.length then
    (toLower key).filter fun c => c ≠ '.' ∧ c ≠ '/' else name) []

def tryNames (s : FilterOptions) (name : Text) : List Text → Option Text
  | [] => none
  | check :: checks =>
    match located s.dirs check with
    | none => some check
    | some file =>
      -- a deleted entry of the user is written again
      if (s.user.lookup check).isSome ∧ file.hidden then some name
      else tryNames s name checks

variable (s : FilterOptions)

/-- `desktopEntryName` after `setKeys`, with the random strings that are tried. -/
def entryName (old : Text) (oldKeys keys : List Text) (randoms : List Text) : Option Text :=
  if keys = oldKeys ∨ old ≠ [] then some old
  else
    let name := keyName toLower keys
    tryNames s name (name :: randoms.map fun random => name ++ random)

def addProvider (name : Text) (data : Data) : FilterOptions :=
  { s with providers := s.providers ++ [⟨name, data, data ≠ noData⟩] }

def changeProvider (i : ℕ) (p : SearchProvider) (name : Text) (data : Data) : FilterOptions :=
  { s with providers := s.providers.set i { p with
      desktopEntryName := name
      data := data
      m_dirty := data ≠ p.data } }

def deleteProvider (i : ℕ) (p : SearchProvider) : FilterOptions :=
  { s with
    m_deletedProviders := s.m_deletedProviders ++ [p.desktopEntryName]
    providers := s.providers.eraseIdx i }

def writeProvider (user : Dir) (p : SearchProvider) : Dir :=
  if p.m_dirty then user.put p.desktopEntryName ⟨p.data, false⟩ else user

def removeProvider (system : List Dir) (user : Dir) (name : Text) : Dir :=
  match user.lookup name, located system name with
  | none, none => user
  | some _, none => user.remove name
  | file, some _ => user.put name ⟨(file.map ServiceFile.data).getD noData, true⟩

/-- The directory of the user after the dirty providers are written. -/
def written : Dir := s.providers.foldl writeProvider s.user

def saved : Dir :=
  s.m_deletedProviders.foldl (removeProvider s.system) (written s)

inductive Event
  | add (data : Data) (randoms : List Text)
  | change (i : ℕ) (data : Data) (randoms : List Text)
  | delete (i : ℕ)
  | save

def step : Event → Option FilterOptions
  | .add data randoms =>
    (entryName toLower s [] [] data.keys randoms).map fun name => addProvider s name data
  | .change i data randoms =>
    s.providers[i]?.bind fun p =>
      (entryName toLower s p.desktopEntryName p.data.keys data.keys randoms).map fun name =>
        changeProvider s i p name data
  | .delete i => s.providers[i]?.map fun p => deleteProvider s i p
  | .save => some { s with user := saved s }

/-- **After a save a fresh registry shows the providers of the module**, each under its name with
its data, and no two have one name. -/
def SavesRight : Prop :=
  (s.providers.map SearchProvider.desktopEntryName).Nodup ∧
    ∀ name data, (∃ p ∈ shown (saved s :: s.system), p.desktopEntryName = name ∧ p.data = data) ↔
      ∃ p ∈ s.providers, p.desktopEntryName = name ∧ p.data = data

def plainName (name : Text) : Prop := name ≠ [] ∧ '.' ∉ name

/-- A new provider gets a name that is not empty and has no dot, and that neither a provider of the
module has nor one that was deleted; and a dialog is accepted without changes only for a provider
whose file has its data. -/
def Careful : Event → Prop
  | .add data randoms => ∀ name, entryName toLower s [] [] data.keys randoms = some name →
      plainName name ∧ name ∉ s.providers.map SearchProvider.desktopEntryName ∧
        name ∉ s.m_deletedProviders ∧ data ≠ noData
  | .change i data _ => ∀ p, s.providers[i]? = some p → data = p.data →
      located s.dirs p.desktopEntryName = some ⟨p.data, false⟩
  | .delete _ => True
  | .save => True

end module_

def NoDots (dirs : List Dir) : Prop := ∀ dir ∈ dirs, ∀ file ∈ dir.files, '.' ∉ file.1

/-! ### Files -/

namespace Dir

lemma lookup_filter {files : List (Text × ServiceFile)} {keep : Text × ServiceFile → Bool}
    {name : Text} (h : ∀ file, keep (name, file) = true) :
    (files.filter keep).lookup name = files.lookup name := by
  induction files with
  | nil => rfl
  | cons entry files ih =>
    obtain ⟨other, file⟩ := entry
    by_cases hname : name = other
    · subst hname
      rw [List.filter_cons_of_pos (h file)]
      simp
    · by_cases hkeep : keep (other, file) = true
      · rw [List.filter_cons_of_pos hkeep]
        simp only [List.lookup_cons, beq_eq_false_iff_ne.mpr hname]
        exact ih
      · rw [List.filter_cons_of_neg hkeep]
        simp only [List.lookup_cons, beq_eq_false_iff_ne.mpr hname]
        exact ih

lemma lookup_eq_none {files : List (Text × ServiceFile)} {name : Text}
    (h : name ∉ files.map Prod.fst) : files.lookup name = none := by
  rw [List.lookup_eq_none_iff]
  intro entry hentry
  have hne : name ≠ entry.1 := fun heq => h (heq ▸ List.mem_map_of_mem hentry)
  simpa using hne

lemma mem_iff (dir : Dir) {name : Text} {file : ServiceFile} :
    (name, file) ∈ dir.files ↔ dir.lookup name = some file := by
  obtain ⟨files, hnodup⟩ := dir
  change (name, file) ∈ files ↔ files.lookup name = some file
  induction files with
  | nil => simp
  | cons entry files ih =>
    obtain ⟨other, old⟩ := entry
    obtain ⟨hnew, hrest⟩ := List.nodup_cons.mp hnodup
    rw [List.mem_cons, List.lookup_cons]
    by_cases hname : name = other
    · subst hname
      have hnone : (name, file) ∉ files := fun hmem =>
        hnew (List.mem_map.mpr ⟨_, hmem, rfl⟩)
      simp only [beq_self_eq_true]
      constructor
      · rintro (heq | hmem)
        · exact congrArg some (Prod.mk.inj heq).2.symm
        · exact absurd hmem hnone
      · intro heq
        exact Or.inl (by rw [Option.some.inj heq])
    · simp only [beq_eq_false_iff_ne.mpr hname, Prod.mk.injEq, hname, false_and, false_or]
      exact ih hrest

lemma lookup_remove_self (dir : Dir) (name : Text) : (dir.remove name).lookup name = none := by
  apply lookup_eq_none
  intro hmem
  obtain ⟨entry, hentry, hname⟩ := List.mem_map.mp hmem
  exact absurd hname (of_decide_eq_true (List.mem_filter.mp hentry).2)

lemma lookup_remove_ne (dir : Dir) {name other : Text} (h : other ≠ name) :
    (dir.remove name).lookup other = dir.lookup other :=
  lookup_filter fun _ => decide_eq_true h

lemma lookup_put_self (dir : Dir) (name : Text) (file : ServiceFile) :
    (dir.put name file).lookup name = some file := by
  change ((name, file) :: (dir.remove name).files).lookup name = some file
  simp

lemma lookup_put_ne (dir : Dir) {name other : Text} (file : ServiceFile) (h : other ≠ name) :
    (dir.put name file).lookup other = dir.lookup other := by
  change ((name, file) :: (dir.remove name).files).lookup other = dir.lookup other
  rw [List.lookup_cons, beq_eq_false_iff_ne.mpr h]
  exact dir.lookup_remove_ne h

end Dir

lemma located_cons (dir : Dir) (dirs : List Dir) (name : Text) :
    located (dir :: dirs) name = (dir.lookup name).or (located dirs name) := by
  unfold located
  rw [List.findSome?_cons]
  cases dir.lookup name <;> rfl

lemma located_concat (dirs : List Dir) (dir : Dir) (name : Text) :
    located (dirs ++ [dir]) name = (located dirs name).or (dir.lookup name) := by
  induction dirs with
  | nil => simp [located]
  | cons first dirs ih => rw [List.cons_append, located_cons, located_cons, ih, Option.or_assoc]

/-! ### What a fresh registry shows -/

/-- **The first file of a name counts.** -/
lemma mem_reload {dirs : List Dir} {name : Text} {file : ServiceFile} :
    (name, file) ∈ reload dirs ↔ isListed name = true ∧ located dirs name = some file := by
  unfold reload
  induction dirs using List.reverseRecOn generalizing file with
  | nil => simp [located]
  | append_singleton dirs dir ih =>
    rw [List.foldl_append, List.foldl_cons, List.foldl_nil, addDir, List.mem_append, ih,
      List.mem_filter, dir.mem_iff, located_concat]
    have hany : (dirs.foldl addDir []).any (fun old => old.1 = name) = true ↔
        isListed name = true ∧ ∃ old, located dirs name = some old := by
      rw [List.any_eq_true]
      constructor
      · rintro ⟨⟨other, old⟩, hold, hname⟩
        obtain rfl : other = name := of_decide_eq_true hname
        obtain ⟨hlisted, hlocated⟩ := ih.mp hold
        exact ⟨hlisted, old, hlocated⟩
      · rintro ⟨hlisted, old, hlocated⟩
        exact ⟨(name, old), ih.mpr ⟨hlisted, hlocated⟩, decide_eq_true rfl⟩
    rw [Bool.and_eq_true, Bool.not_eq_true', ← Bool.not_eq_true, hany]
    cases hlocated : located dirs name with
    | none =>
      rw [Option.none_or]
      constructor
      · rintro (⟨_, habsurd⟩ | ⟨hfile, hlisted, _⟩)
        · exact absurd habsurd nofun
        · exact ⟨hlisted, hfile⟩
      · rintro ⟨hlisted, hfile⟩
        exact Or.inr ⟨hfile, hlisted, fun hold => by simp at hold⟩
    | some old =>
      rw [Option.some_or]
      constructor
      · rintro (hold | ⟨_, hlisted, hnone⟩)
        · exact hold
        · exact absurd ⟨hlisted, old, rfl⟩ hnone
      · exact Or.inl

lemma located_noDots {dirs : List Dir} (h : NoDots dirs) {name : Text} {file : ServiceFile}
    (hfile : located dirs name = some file) : '.' ∉ name := by
  obtain ⟨dir, hdir, hlookup⟩ := List.exists_of_findSome?_eq_some hfile
  exact h dir hdir (name, file) (dir.mem_iff.mpr hlookup)

lemma reload_nodup (dirs : List Dir) : ((reload dirs).map Prod.fst).Nodup := by
  unfold reload
  induction dirs using List.reverseRecOn with
  | nil => exact List.nodup_nil
  | append_singleton dirs dir ih =>
    rw [List.foldl_append, List.foldl_cons, List.foldl_nil, addDir, List.map_append,
      List.nodup_append]
    refine ⟨ih, Dir.nodup_filter dir.nodup _, ?_⟩
    intro name hfound other hnew hsame
    obtain ⟨old, hold, rfl⟩ := List.mem_map.mp hfound
    obtain ⟨file, hfile, rfl⟩ := List.mem_map.mp hnew
    have hkeep := (List.mem_filter.mp hfile).2
    rw [Bool.and_eq_true, Bool.not_eq_true', List.any_eq_false] at hkeep
    exact hkeep.2 old hold (decide_eq_true hsame)

lemma baseName_plain {name : Text} (h : '.' ∉ name) : baseName name = name := by
  apply List.takeWhile_eq_self_iff.mpr
  intro c hc
  have hne : c ≠ '.' := fun heq => h (heq ▸ hc)
  simpa using hne

variable {p : SearchProvider} {ps : List SearchProvider}

lemma shown_plain {dirs : List Dir} (h : p ∈ shown dirs) : plainName p.desktopEntryName := by
  obtain ⟨⟨name, file⟩, hfile, rfl⟩ := List.mem_map.mp h
  have hlisted := (mem_reload.mp (List.mem_filter.mp hfile).1).1
  unfold isListed at hlisted
  rw [Bool.and_eq_true, decide_eq_true_eq, decide_eq_true_eq] at hlisted
  obtain ⟨hne, hhead⟩ := hlisted
  change plainName (baseName name)
  cases name with
  | nil => exact absurd rfl hne
  | cons c rest =>
    have hc : c ≠ '.' := fun heq => hhead (by rw [heq]; rfl)
    constructor
    · unfold baseName
      rw [List.takeWhile_cons_of_pos (by simpa using hc)]
      exact List.cons_ne_nil _ _
    · intro hmem
      have hdot := List.mem_takeWhile_imp hmem
      simp at hdot

lemma shown_nodup {dirs : List Dir} (h : NoDots dirs) :
    ((shown dirs).map SearchProvider.desktopEntryName).Nodup := by
  have hnames : (shown dirs).map SearchProvider.desktopEntryName =
      ((reload dirs).filter fun file => !file.2.hidden).map Prod.fst := by
    unfold shown
    rw [List.map_map]
    apply List.map_congr_left
    rintro ⟨name, file⟩ hfile
    exact baseName_plain (located_noDots h (mem_reload.mp (List.mem_filter.mp hfile).1).2)
  rw [hnames]
  exact Dir.nodup_filter (reload_nodup dirs) _

lemma shown_iff {dirs : List Dir} (h : NoDots dirs) {name : Text} {data : Data} :
    (∃ p ∈ shown dirs, p.desktopEntryName = name ∧ p.data = data) ↔
      name ≠ [] ∧ located dirs name = some ⟨data, false⟩ := by
  constructor
  · rintro ⟨p, hp, rfl, rfl⟩
    refine ⟨(shown_plain hp).1, ?_⟩
    obtain ⟨⟨name, ⟨data, hidden⟩⟩, hfile, rfl⟩ := List.mem_map.mp hp
    obtain ⟨hmem, hhidden⟩ := List.mem_filter.mp hfile
    obtain ⟨_, hlocated⟩ := mem_reload.mp hmem
    change located dirs (baseName name) = some ⟨data, false⟩
    rw [baseName_plain (located_noDots h hlocated), hlocated]
    simpa using hhidden
  · rintro ⟨hne, hlocated⟩
    have hdot := located_noDots h hlocated
    have hlisted : isListed name = true := by
      unfold isListed
      rw [Bool.and_eq_true, decide_eq_true_eq, decide_eq_true_eq]
      exact ⟨hne, fun heq => hdot (List.mem_of_mem_head? heq)⟩
    refine ⟨ofFile (name, ⟨data, false⟩), ?_, baseName_plain hdot, rfl⟩
    exact List.mem_map_of_mem (List.mem_filter.mpr ⟨mem_reload.mpr ⟨hlisted, hlocated⟩, rfl⟩)

/-! ### What a save does to a file -/

variable {user : Dir} {system : List Dir}

lemma writeAll_ne {name : Text} (h : name ∉ ps.map SearchProvider.desktopEntryName) :
    (ps.foldl writeProvider user).lookup name = user.lookup name := by
  induction ps generalizing user with
  | nil => rfl
  | cons p ps ih =>
    rw [List.map_cons, List.mem_cons, not_or] at h
    rw [List.foldl_cons, ih h.2]
    unfold writeProvider
    split_ifs
    · exact user.lookup_put_ne _ h.1
    · rfl

lemma written_provider {s : FilterOptions}
    (hnodup : (s.providers.map SearchProvider.desktopEntryName).Nodup) (hp : p ∈ s.providers) :
    (written s).lookup p.desktopEntryName =
      if p.m_dirty then some ⟨p.data, false⟩ else s.user.lookup p.desktopEntryName := by
  obtain ⟨before, rest, hsplit⟩ := List.append_of_mem hp
  rw [hsplit, List.map_append, List.map_cons, List.nodup_append] at hnodup
  obtain ⟨_, hrest, hbefore⟩ := hnodup
  have hlater : p.desktopEntryName ∉ rest.map SearchProvider.desktopEntryName :=
    (List.nodup_cons.mp hrest).1
  have hearlier : p.desktopEntryName ∉ before.map SearchProvider.desktopEntryName :=
    fun hmem => hbefore _ hmem _ List.mem_cons_self rfl
  unfold written
  rw [hsplit, List.foldl_append, List.foldl_cons, writeAll_ne hlater]
  generalize hstart : before.foldl writeProvider s.user = user
  unfold writeProvider
  split_ifs
  · exact Dir.lookup_put_self _ _ _
  · rw [← hstart]
    exact writeAll_ne hearlier

/-- The provider is not shown from its file. -/
def Gone (dirs : List Dir) (name : Text) : Prop :=
  ∀ data, located dirs name ≠ some ⟨data, false⟩

lemma removeProvider_self (system : List Dir) (user : Dir) (name : Text) :
    Gone (removeProvider system user name :: system) name := by
  intro data
  rw [located_cons]
  unfold removeProvider
  cases huser : user.lookup name with
  | none =>
    cases hsystem : located system name with
    | none =>
      dsimp only
      rw [huser]
      exact nofun
    | some file =>
      dsimp only
      rw [Dir.lookup_put_self]
      simp
  | some old =>
    cases hsystem : located system name with
    | none =>
      dsimp only
      rw [Dir.lookup_remove_self]
      exact nofun
    | some file =>
      dsimp only
      rw [Dir.lookup_put_self]
      simp

lemma removeProvider_ne (system : List Dir) (user : Dir) {name other : Text}
    (h : other ≠ name) : (removeProvider system user name).lookup other = user.lookup other := by
  unfold removeProvider
  split
  · rfl
  · exact user.lookup_remove_ne h
  · exact user.lookup_put_ne _ h

lemma removed_ne {names : List Text} {other : Text} (h : other ∉ names) :
    (names.foldl (removeProvider system) user).lookup other = user.lookup other := by
  induction names generalizing user with
  | nil => rfl
  | cons name names ih =>
    rw [List.mem_cons, not_or] at h
    rw [List.foldl_cons, ih h.2, removeProvider_ne system user h.1]

lemma removed_gone {names : List Text} {name : Text} (h : name ∈ names) :
    Gone (names.foldl (removeProvider system) user :: system) name := by
  induction names using List.reverseRecOn with
  | nil => exact absurd h List.not_mem_nil
  | append_singleton names last ih =>
    rw [List.foldl_append, List.foldl_cons, List.foldl_nil]
    by_cases heq : name = last
    · subst heq
      exact removeProvider_self system _ name
    · have hearlier : name ∈ names := (List.mem_append.mp h).resolve_right fun hlast =>
        heq (List.mem_singleton.mp hlast)
      intro data
      rw [located_cons, removeProvider_ne system _ heq, ← located_cons]
      exact ih hearlier data

/-! ### No dots -/

lemma noDots_cons {dir : Dir} {dirs : List Dir} :
    NoDots (dir :: dirs) ↔ (∀ file ∈ dir.files, '.' ∉ file.1) ∧ NoDots dirs := by
  unfold NoDots
  rw [List.forall_mem_cons]

lemma put_noDots {dir : Dir} {name : Text} {new : ServiceFile}
    (h : ∀ file ∈ dir.files, '.' ∉ file.1) (hname : '.' ∉ name) :
    ∀ file ∈ (dir.put name new).files, '.' ∉ file.1 := by
  intro entry hentry
  rcases List.mem_cons.mp hentry with rfl | hrest
  · exact hname
  · exact h entry (List.mem_filter.mp hrest).1

lemma remove_noDots {dir : Dir} {name : Text} (h : ∀ file ∈ dir.files, '.' ∉ file.1) :
    ∀ file ∈ (dir.remove name).files, '.' ∉ file.1 :=
  fun entry hentry => h entry (List.mem_filter.mp hentry).1

lemma written_noDots (h : ∀ file ∈ user.files, '.' ∉ file.1)
    (hps : ∀ p ∈ ps, '.' ∉ p.desktopEntryName) :
    ∀ file ∈ (ps.foldl writeProvider user).files, '.' ∉ file.1 := by
  induction ps generalizing user with
  | nil => exact h
  | cons p ps ih =>
    rw [List.foldl_cons]
    refine ih ?_ fun q hq => hps q (List.mem_cons_of_mem _ hq)
    unfold writeProvider
    split_ifs
    · exact put_noDots h (hps p List.mem_cons_self)
    · exact h

lemma removed_noDots {names : List Text} (h : ∀ file ∈ user.files, '.' ∉ file.1)
    (hnames : ∀ name ∈ names, '.' ∉ name) :
    ∀ file ∈ (names.foldl (removeProvider system) user).files, '.' ∉ file.1 := by
  induction names generalizing user with
  | nil => exact h
  | cons name names ih =>
    rw [List.foldl_cons]
    refine ih ?_ fun other hother => hnames other (List.mem_cons_of_mem _ hother)
    unfold removeProvider
    split
    · exact h
    · exact remove_noDots h
    · exact put_noDots h (hnames name List.mem_cons_self)

/-! ### The invariant -/

/-- The names of the providers are plain and distinct and those of no deleted provider; a provider
is to be written or is in its file; and what is shown otherwise is deleted. -/
structure Inv (s : FilterOptions) : Prop where
  names : (s.providers.map SearchProvider.desktopEntryName).Nodup
  plain : ∀ p ∈ s.providers, plainName p.desktopEntryName
  deleted : ∀ name ∈ s.m_deletedProviders, '.' ∉ name
  dots : NoDots s.dirs
  apart : ∀ p ∈ s.providers, p.desktopEntryName ∉ s.m_deletedProviders
  kept : ∀ p ∈ s.providers,
    p.m_dirty = true ∨ located s.dirs p.desktopEntryName = some ⟨p.data, false⟩
  others : ∀ name data, name ≠ [] → located s.dirs name = some ⟨data, false⟩ →
    name ∈ s.providers.map SearchProvider.desktopEntryName ∨ name ∈ s.m_deletedProviders

namespace Inv

variable {s : FilterOptions}

lemma saved_noDots (h : Inv s) : NoDots (saved s :: s.system) := by
  obtain ⟨huser, hsystem⟩ := noDots_cons.mp h.dots
  refine noDots_cons.mpr ⟨?_, hsystem⟩
  exact removed_noDots (written_noDots huser fun p hp => (h.plain p hp).2) h.deleted

lemma located_deleted {name : Text} (hname : name ∈ s.m_deletedProviders) :
    Gone (saved s :: s.system) name := removed_gone hname

lemma located_other {name : Text}
    (hprovider : name ∉ s.providers.map SearchProvider.desktopEntryName)
    (hdeleted : name ∉ s.m_deletedProviders) :
    located (saved s :: s.system) name = located s.dirs name := by
  rw [located_cons, saved, removed_ne hdeleted, written, writeAll_ne hprovider, ← located_cons]
  rfl

variable {p : SearchProvider} {i : ℕ}

lemma located_provider (hnames : (s.providers.map SearchProvider.desktopEntryName).Nodup)
    (hp : p ∈ s.providers) (hdeleted : p.desktopEntryName ∉ s.m_deletedProviders) :
    located (saved s :: s.system) p.desktopEntryName =
      if p.m_dirty then some ⟨p.data, false⟩ else located s.dirs p.desktopEntryName := by
  rw [located_cons, saved, removed_ne hdeleted, written_provider hnames hp]
  split_ifs
  · rfl
  · rw [← located_cons]
    rfl

lemma located_saved (h : Inv s) (hp : p ∈ s.providers) :
    located (saved s :: s.system) p.desktopEntryName = some ⟨p.data, false⟩ := by
  rw [located_provider h.names hp (h.apart p hp)]
  split_ifs with hdirty
  · rfl
  · exact (h.kept p hp).resolve_left hdirty

lemma provider_of_saved (h : Inv s) {name : Text} {data : Data} (hne : name ≠ [])
    (hlocated : located (saved s :: s.system) name = some ⟨data, false⟩) :
    ∃ p ∈ s.providers, p.desktopEntryName = name ∧ p.data = data := by
  have hdeleted : name ∉ s.m_deletedProviders :=
    fun hmem => located_deleted hmem data hlocated
  by_cases hname : name ∈ s.providers.map SearchProvider.desktopEntryName
  · obtain ⟨p, hp, rfl⟩ := List.mem_map.mp hname
    rw [h.located_saved hp] at hlocated
    exact ⟨p, hp, rfl, (ServiceFile.mk.inj (Option.some.inj hlocated)).1⟩
  · rw [located_other hname hdeleted] at hlocated
    rcases h.others name data hne hlocated with hmem | hmem
    · exact absurd hmem hname
    · exact absurd hmem hdeleted

lemma right (h : Inv s) : SavesRight s := by
  refine ⟨h.names, fun name data => ?_⟩
  rw [shown_iff h.saved_noDots]
  constructor
  · rintro ⟨hne, hlocated⟩
    exact h.provider_of_saved hne hlocated
  · rintro ⟨p, hp, rfl, rfl⟩
    exact ⟨(h.plain p hp).1, h.located_saved hp⟩

lemma save (h : Inv s) : Inv { s with user := saved s } where
  names := h.names
  plain := h.plain
  deleted := h.deleted
  dots := h.saved_noDots
  apart := h.apart
  kept p hp := Or.inr (h.located_saved hp)
  others name data hne hlocated := by
    obtain ⟨p, hp, rfl, _⟩ := h.provider_of_saved hne hlocated
    exact Or.inl (List.mem_map_of_mem hp)

lemma split_at {ps : List SearchProvider} (h : ps[i]? = some p) :
    ∃ before rest, ps = before ++ p :: rest ∧ ps.eraseIdx i = before ++ rest ∧
      ∀ q, ps.set i q = before ++ q :: rest := by
  induction ps generalizing i with
  | nil => exact absurd h nofun
  | cons first ps ih =>
    cases i with
    | zero =>
      obtain rfl := Option.some.inj h
      exact ⟨[], ps, rfl, rfl, fun _ => rfl⟩
    | succ i =>
      obtain ⟨before, rest, hps, herase, hset⟩ := ih h
      exact ⟨first :: before, rest, by rw [hps]; rfl, by rw [List.eraseIdx_cons_succ, herase]; rfl,
        fun q => by rw [List.set_cons_succ, hset q]; rfl⟩

lemma delete (h : Inv s) (hp : s.providers[i]? = some p) : Inv (deleteProvider s i p) := by
  obtain ⟨before, rest, hsplit, herase, _⟩ := split_at hp
  have hnames := h.names
  rw [hsplit, List.map_append, List.map_cons, List.nodup_middle, List.nodup_cons,
    ← List.map_append, ← herase] at hnames
  obtain ⟨hleft, hnodup⟩ := hnames
  have hsub : (s.providers.eraseIdx i).Sublist s.providers := List.eraseIdx_sublist _ _
  have hmem : p ∈ s.providers := List.mem_of_getElem? hp
  refine ⟨hnodup, fun q hq => h.plain q (hsub.subset hq), ?_, h.dots, ?_,
    fun q hq => h.kept q (hsub.subset hq), ?_⟩
  · intro name hname
    rcases List.mem_append.mp hname with hold | hnew
    · exact h.deleted name hold
    · rw [List.mem_singleton.mp hnew]
      exact (h.plain p hmem).2
  · intro q hq hdeleted
    rcases List.mem_append.mp hdeleted with hold | hnew
    · exact h.apart q (hsub.subset hq) hold
    · exact hleft (List.mem_singleton.mp hnew ▸ List.mem_map_of_mem hq)
  · intro name data hne hlocated
    rcases h.others name data hne hlocated with hname | hdeleted
    · rw [hsplit, List.map_append, List.map_cons, List.mem_append, List.mem_cons] at hname
      change name ∈ (s.providers.eraseIdx i).map _ ∨ name ∈ s.m_deletedProviders ++ _
      rw [herase, List.map_append, List.mem_append]
      rcases hname with hbefore | rfl | hrest
      · exact Or.inl (Or.inl hbefore)
      · exact Or.inr (List.mem_append_right _ (List.mem_singleton.mpr rfl))
      · exact Or.inl (Or.inr hrest)
    · exact Or.inr (List.mem_append_left _ hdeleted)

lemma add (h : Inv s) {name : Text} {data : Data} (hplain : plainName name)
    (hnew : name ∉ s.providers.map SearchProvider.desktopEntryName)
    (hdeleted : name ∉ s.m_deletedProviders) (hdata : data ≠ noData) :
    Inv (addProvider s name data) where
  names := by
    change ((s.providers ++ [_]).map SearchProvider.desktopEntryName).Nodup
    rw [List.map_append, List.nodup_append]
    refine ⟨h.names, List.nodup_singleton _, ?_⟩
    intro other hother last hlast hsame
    have hlast : last = name := List.mem_singleton.mp hlast
    exact hnew (hlast ▸ hsame ▸ hother)
  plain p hp := by
    rcases List.mem_append.mp hp with hold | hone
    · exact h.plain p hold
    · rw [List.mem_singleton.mp hone]
      exact hplain
  deleted := h.deleted
  dots := h.dots
  apart p hp := by
    rcases List.mem_append.mp hp with hold | hone
    · exact h.apart p hold
    · rw [List.mem_singleton.mp hone]
      exact hdeleted
  kept p hp := by
    rcases List.mem_append.mp hp with hold | hone
    · exact h.kept p hold
    · rw [List.mem_singleton.mp hone]
      exact Or.inl (decide_eq_true hdata)
  others other old hne hlocated := by
    rcases h.others other old hne hlocated with hname | hgone
    · refine Or.inl ?_
      change other ∈ (s.providers ++ [_]).map _
      rw [List.map_append]
      exact List.mem_append_left _ hname
    · exact Or.inr hgone

lemma change (h : Inv s) {data : Data} (hp : s.providers[i]? = some p)
    (hdata : data = p.data → located s.dirs p.desktopEntryName = some ⟨p.data, false⟩) :
    Inv (changeProvider s i p p.desktopEntryName data) := by
  obtain ⟨before, rest, hsplit, _, hset⟩ := split_at hp
  let q : SearchProvider := ⟨p.desktopEntryName, data, data ≠ p.data⟩
  have hproviders : (changeProvider s i p p.desktopEntryName data).providers =
      before ++ q :: rest := hset q
  have hnames : (changeProvider s i p p.desktopEntryName data).providers.map
      SearchProvider.desktopEntryName = s.providers.map SearchProvider.desktopEntryName := by
    rw [hproviders, hsplit, List.map_append, List.map_append]
    rfl
  have hmem : ∀ r ∈ (changeProvider s i p p.desktopEntryName data).providers,
      r = q ∨ r ∈ s.providers := by
    intro r hr
    rw [hproviders, List.mem_append, List.mem_cons] at hr
    rw [hsplit, List.mem_append, List.mem_cons]
    rcases hr with hbefore | rfl | hrest
    · exact Or.inr (Or.inl hbefore)
    · exact Or.inl rfl
    · exact Or.inr (Or.inr (Or.inr hrest))
  have hold : p ∈ s.providers := List.mem_of_getElem? hp
  refine ⟨?_, ?_, h.deleted, h.dots, ?_, ?_, ?_⟩
  · rw [hnames]
    exact h.names
  · intro r hr
    rcases hmem r hr with rfl | hr
    · exact h.plain p hold
    · exact h.plain r hr
  · intro r hr
    rcases hmem r hr with rfl | hr
    · exact h.apart p hold
    · exact h.apart r hr
  · intro r hr
    rcases hmem r hr with rfl | hr
    · by_cases heq : data = p.data
      · refine Or.inr ?_
        change located s.dirs p.desktopEntryName = some ⟨data, false⟩
        rw [heq]
        exact hdata heq
      · exact Or.inl (decide_eq_true heq)
    · exact h.kept r hr
  · intro name old hne hlocated
    rw [hnames]
    exact h.others name old hne hlocated

variable {toLower : Text → Text} {e : Event}

lemma entryName_eq (h : Inv s) (hp : p ∈ s.providers) (keys : List Text) (randoms : List Text) :
    entryName toLower s p.desktopEntryName p.data.keys keys randoms = some p.desktopEntryName :=
  if_pos (Or.inr (h.plain p hp).1)

lemma step {t : FilterOptions} (h : Inv s) (he : Careful toLower s e)
    (hstep : WebShortcuts.step toLower s e = some t) : Inv t := by
  cases e with
  | add data randoms =>
    obtain ⟨name, hname, rfl⟩ := Option.map_eq_some_iff.mp hstep
    obtain ⟨hplain, hnew, hdeleted, hdata⟩ := he name hname
    exact h.add hplain hnew hdeleted hdata
  | change i data randoms =>
    obtain ⟨p, hp, hrest⟩ := Option.bind_eq_some_iff.mp hstep
    rw [h.entryName_eq (List.mem_of_getElem? hp)] at hrest
    obtain rfl := Option.some.inj hrest
    exact h.change hp (he p hp)
  | delete i =>
    obtain ⟨p, hp, rfl⟩ := Option.map_eq_some_iff.mp hstep
    exact h.delete hp
  | save =>
    obtain rfl := Option.some.inj hstep
    exact h.save

/-! ### What goes wrong otherwise -/

lemma located_of_right (hdots : NoDots (saved s :: s.system)) (hright : SavesRight s)
    (hp : p ∈ s.providers) :
    located (saved s :: s.system) p.desktopEntryName = some ⟨p.data, false⟩ :=
  ((shown_iff hdots).mp ((hright.2 _ _).mpr ⟨p, hp, rfl, rfl⟩)).2

lemma plain_of_right (hright : SavesRight s) (hp : p ∈ s.providers) :
    plainName p.desktopEntryName := by
  obtain ⟨q, hq, hname, _⟩ := (hright.2 p.desktopEntryName p.data).mpr ⟨p, hp, rfl, rfl⟩
  rw [← hname]
  exact shown_plain hq

lemma add_right (h : Inv s) {name : Text} {data : Data}
    (hright : SavesRight (addProvider s name data)) :
    plainName name ∧ name ∉ s.providers.map SearchProvider.desktopEntryName ∧
      name ∉ s.m_deletedProviders ∧ data ≠ noData := by
  let q : SearchProvider := ⟨name, data, data ≠ noData⟩
  have hq : q ∈ (addProvider s name data).providers :=
    List.mem_append_right _ (List.mem_singleton.mpr rfl)
  have hplain : plainName name := plain_of_right hright hq
  have hnew : name ∉ s.providers.map SearchProvider.desktopEntryName := by
    have hnodup := hright.1
    change ((s.providers ++ [q]).map SearchProvider.desktopEntryName).Nodup at hnodup
    rw [List.map_append, List.nodup_append] at hnodup
    intro hmem
    exact hnodup.2.2 name hmem name (List.mem_singleton.mpr rfl) rfl
  have hdots : NoDots (saved (addProvider s name data) :: s.system) := by
    obtain ⟨huser, hsystem⟩ := noDots_cons.mp h.dots
    refine noDots_cons.mpr ⟨removed_noDots (written_noDots huser ?_) h.deleted, hsystem⟩
    intro p hp
    rcases List.mem_append.mp hp with hold | hone
    · exact (h.plain p hold).2
    · rw [List.mem_singleton.mp hone]
      exact hplain.2
  have hlocated : located (saved (addProvider s name data) :: s.system) name =
      some ⟨data, false⟩ := located_of_right (s := addProvider s name data) hdots hright hq
  have hdeleted : name ∉ s.m_deletedProviders := fun hmem =>
    located_deleted (s := addProvider s name data) hmem data hlocated
  refine ⟨hplain, hnew, hdeleted, ?_⟩
  -- a provider without data is not written, and no file shows it
  intro hdata
  have hkept := located_provider (s := addProvider s name data) hright.1 hq hdeleted
  have hclean : q.m_dirty = false := decide_eq_false fun hne => hne hdata
  rw [hclean, if_neg Bool.false_ne_true] at hkept
  rcases h.others name data hplain.1 (hkept.symm.trans hlocated) with hmem | hmem
  · exact hnew hmem
  · exact hdeleted hmem

lemma change_right (h : Inv s) (hp : s.providers[i]? = some p)
    (hright : SavesRight (changeProvider s i p p.desktopEntryName p.data)) :
    located s.dirs p.desktopEntryName = some ⟨p.data, false⟩ := by
  obtain ⟨before, rest, hsplit, _, hset⟩ := split_at hp
  let q : SearchProvider := ⟨p.desktopEntryName, p.data, p.data ≠ p.data⟩
  have hproviders : (changeProvider s i p p.desktopEntryName p.data).providers =
      before ++ q :: rest := hset q
  have hq : q ∈ (changeProvider s i p p.desktopEntryName p.data).providers := by
    rw [hproviders]
    exact List.mem_append_right _ List.mem_cons_self
  have hold : p ∈ s.providers := List.mem_of_getElem? hp
  have hdots : NoDots (saved (changeProvider s i p p.desktopEntryName p.data) :: s.system) := by
    obtain ⟨huser, hsystem⟩ := noDots_cons.mp h.dots
    refine noDots_cons.mpr ⟨removed_noDots (written_noDots huser ?_) h.deleted, hsystem⟩
    intro r hr
    exact (plain_of_right hright hr).2
  have hlocated := located_of_right hdots hright hq
  have hkept := located_provider hright.1 hq (h.apart p hold)
  have hclean : q.m_dirty = false := decide_eq_false fun hne => hne rfl
  rw [hclean, if_neg Bool.false_ne_true] at hkept
  exact hkept.symm.trans hlocated

lemma step_bad (h : Inv s) (he : ¬ Careful toLower s e) :
    ∃ t, WebShortcuts.step toLower s e = some t ∧ ¬ SavesRight t := by
  cases e with
  | add data randoms =>
    simp only [Careful, not_forall] at he
    obtain ⟨name, hname, hnot⟩ := he
    refine ⟨addProvider s name data, ?_, fun hright => hnot (h.add_right hright)⟩
    unfold WebShortcuts.step
    dsimp only
    rw [hname]
    rfl
  | change i data randoms =>
    simp only [Careful, not_forall] at he
    obtain ⟨p, hp, rfl, hnot⟩ := he
    refine ⟨changeProvider s i p p.desktopEntryName p.data, ?_,
      fun hright => hnot (h.change_right hp hright)⟩
    unfold WebShortcuts.step
    dsimp only
    rw [hp]
    change (entryName toLower s p.desktopEntryName p.data.keys p.data.keys randoms).map _ = _
    rw [h.entryName_eq (List.mem_of_getElem? hp)]
    rfl
  | delete i => exact absurd trivial he
  | save => exact absurd trivial he

end Inv

lemma inv_start (hdots : NoDots (user :: system)) : Inv (start user system) where
  names := shown_nodup hdots
  plain p hp := shown_plain hp
  deleted := by simp [start]
  dots := hdots
  apart := by simp [start]
  kept p hp := Or.inr ((shown_iff hdots).mp ⟨p, hp, rfl, rfl⟩).2
  others name data hne hlocated := by
    obtain ⟨p, hp, hname, _⟩ := (shown_iff hdots).mpr ⟨hne, hlocated⟩
    exact Or.inl (hname ▸ List.mem_map_of_mem hp)

/-- **Saving is right at every moment of a run** if and only if all steps are careful, where no file
has a second dot in its name. -/
theorem shortcuts_saved_iff (toLower : Text → Text) (user : Dir) (system : List Dir)
    (hdots : NoDots (user :: system)) (es : List Event) :
    (∀ before s, before <+: es → run (step toLower) (start user system) before = some s →
      SavesRight s) ↔ AllSteps (step toLower) (Careful toLower) (start user system) es :=
  prefixes_iff (fun _ hs => Inv.right hs) (fun _ _ _ hs he hstep => Inv.step hs he hstep)
    (fun _ _ hs he => Inv.step_bad hs he) (inv_start hdots) es

def noFiles : Dir := ⟨[], List.nodup_nil⟩

def dictionary : Data := ⟨"Dictionary".toList, "https://dict/?q=".toList, ["dict".toList], []⟩

theorem dictionary_saved : ∃ s,
    run (step id) (start noFiles []) [.add dictionary [], .save] = some s ∧ SavesRight s := by
  have hdots : NoDots [noFiles] := by simp [NoDots, noFiles]
  refine ⟨_, rfl, (shortcuts_saved_iff id noFiles [] hdots [.add dictionary [], .save]).mpr ?_ _ _
    (List.prefix_refl _) rfl⟩
  refine allSteps_cons rfl ?_ (allSteps_cons rfl trivial trivial)
  intro name hname
  obtain rfl : "dict".toList = name := Option.some.inj hname
  exact ⟨⟨by decide, by decide⟩, by decide, by decide, by decide⟩

/-- A provider is deleted, and one that is added later gets its name. -/
theorem added_again_lost : ¬ ∀ (toLower : Text → Text) (user : Dir) (system : List Dir)
    (es : List Event), ∀ before s, before <+: es →
      run (step toLower) (start user system) before = some s → SavesRight s := by
  intro hall
  have hright := hall id noFiles []
    [.add dictionary [], .save, .delete 0, .save, .add dictionary []] _ _ (List.prefix_refl _) rfl
  obtain ⟨p, hp, _⟩ := (hright.2 "dict".toList dictionary).mpr
    ⟨_, List.mem_cons_self, rfl, rfl⟩
  exact List.not_mem_nil hp

end KioExtras.Kcms.WebShortcuts
