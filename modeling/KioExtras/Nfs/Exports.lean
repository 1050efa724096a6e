import KioExtras.Lib.Paths
import Mathlib.Data.List.Induction
import Mathlib.Data.List.Nodup

/-!
The exported directories of an NFS server: which paths are listed without asking the server,
which are passed on to it, and the tree that the virtual listings show.
-/

namespace KioExtras.Nfs

open KioExtras.Lib.Paths

abbrev Text := List Char

structure CleanPath where
  names : List (Name '/')
  plain : ∀ n ∈ names, n.text ≠ ['.'] ∧ n.text ≠ ['.', '.']

variable {p : CleanPath} {x : Text}

@[ext] lemma CleanPath.ext {q : CleanPath} (h : p.names = q.names) : p = q := by
  cases p
  cases q
  simpa using h

def CleanPath.text (p : CleanPath) : Text := if p.names = [] then ['/'] else joined p.names

/-- The empty path, `/`, or what `QFileInfo::isRoot` says of a path. -/
def isRoot (path : Text) : Bool := path = [] || path = ['/']

section

variable (m_exportedDirs : List Text)

def isExportedDir (path : Text) : Bool :=
  isRoot path || m_exportedDirs.any fun exportedDir => (path ++ ['/']).isPrefixOf exportedDir

def isValidPath (path : Text) : Bool :=
  isRoot path || m_exportedDirs.any fun exportedDir =>
    path = exportedDir || (exportedDir ++ ['/']).isPrefixOf path

/-- What the mount loop of `openConnection` notes of the exports, whether they can be mounted
or not. -/
def addExportedDirs (exports : List Text) : List Text :=
  exports.foldl (fun dirs fname => if isExportedDir dirs fname then dirs else dirs ++ [fname]) []

structure UDSEntry where
  name : Text
  iconName : String
  mimeType : String
  user : String
  group : String
  size : ℕ
  fileType : ℕ
  access : ℕ
  deriving DecidableEq

/-- `createVirtualDirEntry`, with the name and the icon put in. -/
def createVirtualDirEntry (name : Text) (iconName : String) : UDSEntry :=
  { name, iconName, mimeType := "inode/directory", user := "root", group := "root", size := 0,
    fileType := 0o040000, access := 0o555 }

def firstName (dirPrefix exportedDir : Text) : Text :=
  (exportedDir.drop dirPrefix.length).takeWhile (· ≠ '/')

def addVirtual (dirPrefix : Text) (virtualList : List Text) (exportedDir : Text) : List Text :=
  if dirPrefix.isPrefixOf exportedDir then
    if virtualList.contains (firstName dirPrefix exportedDir) then virtualList
    else virtualList ++ [firstName dirPrefix exportedDir]
  else virtualList

def virtualList (dirPrefix : Text) : List Text :=
  m_exportedDirs.foldl (addVirtual dirPrefix) []

def dirPrefix (path : Text) : Text := if path = ['/'] then path else path ++ ['/']

/-- The entries that are listed, and the path that is left to be listed by the server: empty where
there is none. -/
def listDirInternal (isConnected : Bool) (path : Text) : List UDSEntry × Text :=
  if isExportedDir m_exportedDirs path then
    (createVirtualDirEntry ['.'] "folder-network" ::
      (virtualList m_exportedDirs (dirPrefix path)).map fun name =>
        createVirtualDirEntry name
          (if isExportedDir m_exportedDirs (dirPrefix path ++ name) then "folder-network"
            else "folder"), [])
  else if isConnected then ([], path) else ([], [])

/-- What `statInternal` does: a redirection to `/`, an entry, and the path left to the server. -/
structure Statted where
  redirection : Bool
  entry : Option UDSEntry
  path : Text
  deriving DecidableEq

def statInternal (path : Text) : Statted :=
  if path = [] then ⟨true, none, []⟩
  else if isExportedDir m_exportedDirs path then
    ⟨false, some (createVirtualDirEntry ['.'] "folder-network"), []⟩
  else ⟨false, none, path⟩

/-- The paths of the entries of a virtual listing. -/
def children (path : Text) : List Text :=
  ((listDirInternal m_exportedDirs true path).1.filter fun e => e.name ≠ ['.']).map fun e =>
    dirPrefix path ++ e.name

/-- The paths seen by descending the virtual listings, at most `n` levels down. -/
def descend : ℕ → Text → List Text
  | 0, path => [path]
  | n + 1, path => path :: (children m_exportedDirs path).flatMap (descend n)

/-- A path that is left to the server by the tests for virtual directories, and not refused by
`getFileHandle` as one outside the exports. -/
structure PassedOn (path : Text) : Prop where
  notExported : isExportedDir m_exportedDirs path = false
  valid : isValidPath m_exportedDirs path = true
  listed : listDirInternal m_exportedDirs true path = ([], path)
  statted : statInternal m_exportedDirs path = ⟨false, none, path⟩

/-- The virtual directories are as they should be for these exports. -/
structure Right (exports : List CleanPath) : Prop where
  virtual_iff : ∀ p : CleanPath, isExportedDir m_exportedDirs p.text = true ↔
    p.names = [] ∨ (∃ e ∈ exports, p.names <+: e.names ∧ p ≠ e) ∧ p ∉ exports
  reached : ∀ e ∈ exports, ∃ depth, ∀ n ≥ depth,
    (descend m_exportedDirs n ['/']).count e.text = 1
  passedOn : ∀ e ∈ exports, ∀ p : CleanPath, e.names <+: p.names → PassedOn m_exportedDirs p.text

end

/-- No export is the root, and none is inside another. -/
structure Separate (exports : List CleanPath) : Prop where
  ne_root : ∀ e ∈ exports, e.names ≠ []
  eq_of_prefix : ∀ d ∈ exports, ∀ e ∈ exports, d.names <+: e.names → d = e

/-! ### Cleaned paths and their texts -/

namespace CleanPath

lemma text_of_ne {p : CleanPath} (h : p.names ≠ []) : p.text = joined p.names := if_neg h

lemma text_root {p : CleanPath} (h : p.names = []) : p.text = ['/'] := if_pos h

lemma joined_ne_slash (ps : List (Name '/')) : joined ps ≠ ['/'] := by
  cases ps with
  | nil => simp
  | cons n ns => simp [n.ne_nil]

lemma isRoot_text {p : CleanPath} : isRoot p.text = true ↔ p.names = [] := by
  by_cases h : p.names = []
  · simp [text_root h, h, isRoot]
  · simp [text_of_ne h, h, isRoot, joined_ne_slash, joined_eq_nil]

lemma text_injective : Function.Injective text := by
  intro p q h
  apply CleanPath.ext
  by_cases hp : p.names = [] <;> by_cases hq : q.names = []
  · rw [hp, hq]
  · rw [text_root hp, text_of_ne hq] at h
    exact absurd h.symm (joined_ne_slash _)
  · rw [text_of_ne hp, text_root hq] at h
    exact absurd h (joined_ne_slash _)
  · rw [text_of_ne hp, text_of_ne hq] at h
    exact joined_injective h

lemma dirPrefix_text (p : CleanPath) : dirPrefix p.text = joined p.names ++ ['/'] := by
  unfold dirPrefix
  by_cases h : p.names = []
  · simp [text_root h, h]
  · simp [text_of_ne h, joined_ne_slash]

def child (p : CleanPath) (n : Name '/') (hn : n.text ≠ ['.'] ∧ n.text ≠ ['.', '.']) :
    CleanPath where
  names := p.names ++ [n]
  plain := by
    intro m hm
    rcases List.mem_append.mp hm with hm | hm
    · exact p.plain m hm
    · rw [List.mem_singleton.mp hm]
      exact hn

lemma text_child (p : CleanPath) (n : Name '/') (hn : n.text ≠ ['.'] ∧ n.text ≠ ['.', '.']) :
    (p.child n hn).text = dirPrefix p.text ++ n.text := by
  rw [dirPrefix_text, text_of_ne (by simp [child])]
  simp [child, joined_append]

end CleanPath

/-! ### The two tests -/

variable {exports : List CleanPath}

variable {e : CleanPath} {pre : Text} {n : ℕ}

lemma CleanPath.slash_prefix (hp : p.names ≠ []) :
    p.text ++ ['/'] <+: e.text ↔ p.names <+: e.names ∧ p ≠ e := by
  rw [CleanPath.text_of_ne hp]
  by_cases he : e.names = []
  · rw [CleanPath.text_root he, he, List.prefix_nil]
    constructor
    · intro h
      have hlen := h.length_le
      have hpos := List.length_pos_iff.mpr fun h => hp (joined_eq_nil.mp h)
      simp only [List.length_append, List.length_singleton] at hlen
      omega
    · exact fun h => absurd h.1 hp
  · rw [CleanPath.text_of_ne he, joined_sep_prefix, exists_below_iff]
    exact and_congr_right fun _ => not_congr ⟨CleanPath.ext, congrArg CleanPath.names⟩

lemma isExportedDir_iff :
    isExportedDir (exports.map CleanPath.text) p.text = true ↔
      p.names = [] ∨ ∃ e ∈ exports, p.names <+: e.names ∧ p ≠ e := by
  unfold isExportedDir
  rw [Bool.or_eq_true, CleanPath.isRoot_text]
  by_cases hp : p.names = []
  · simp [hp]
  · simp only [hp, false_or, List.any_map, List.any_eq_true, Function.comp_apply,
      List.isPrefixOf_iff_prefix, CleanPath.slash_prefix hp]

lemma isValidPath_of_below (he : e ∈ exports) (hne : e.names ≠ []) (h : e.names <+: p.names) :
    isValidPath (exports.map CleanPath.text) p.text = true := by
  unfold isValidPath
  rw [Bool.or_eq_true, List.any_eq_true]
  refine Or.inr ⟨e.text, List.mem_map_of_mem he, ?_⟩
  by_cases hpe : e = p
  · simp [hpe]
  · simp [CleanPath.slash_prefix hne, h, hpe]

lemma passedOn_of {dirs : List Text} (h : isExportedDir dirs p.text = false)
    (hv : isValidPath dirs p.text = true) : PassedOn dirs p.text := by
  have hne : p.text ≠ [] := by
    intro hnil
    simp [isExportedDir, isRoot, hnil] at h
  exact ⟨h, hv, by simp [listDirInternal, h], by simp [statInternal, h, hne]⟩

/-! ### The exports as they are noted -/

lemma addExportedDirs_concat (dirs : List Text) (fname : Text) :
    addExportedDirs (dirs ++ [fname]) =
      if isExportedDir (addExportedDirs dirs) fname then addExportedDirs dirs
      else addExportedDirs dirs ++ [fname] := by
  rw [addExportedDirs, List.foldl_append]
  rfl

lemma addExportedDirs_covers (exports : List CleanPath) :
    ∃ noted : List CleanPath, addExportedDirs (exports.map CleanPath.text) =
      noted.map CleanPath.text ∧ (∀ d ∈ noted, d ∈ exports) ∧
      ∀ e ∈ exports, e.names = [] ∨ ∃ d ∈ noted, e.names <+: d.names := by
  induction exports using List.reverseRecOn with
  | nil => exact ⟨[], rfl, by simp, by simp⟩
  | append_singleton exports x ih =>
    obtain ⟨noted, heq, hsub, hcov⟩ := ih
    rw [List.map_append, List.map_singleton, addExportedDirs_concat, heq]
    by_cases hx : isExportedDir (noted.map CleanPath.text) x.text = true
    · refine ⟨noted, if_pos hx, fun d hd => List.mem_append_left _ (hsub d hd), ?_⟩
      intro e he
      rcases List.mem_append.mp he with he | he
      · exact hcov e he
      · rw [List.mem_singleton.mp he]
        rcases isExportedDir_iff.mp hx with h | ⟨d, hd, hpre, -⟩
        · exact Or.inl h
        · exact Or.inr ⟨d, hd, hpre⟩
    · refine ⟨noted ++ [x], by rw [if_neg hx]; simp, ?_, ?_⟩
      · intro d hd
        rcases List.mem_append.mp hd with hd | hd
        · exact List.mem_append_left _ (hsub d hd)
        · exact List.mem_append_right _ hd
      · intro e he
        rcases List.mem_append.mp he with he | he
        · rcases hcov e he with h | ⟨d, hd, hpre⟩
          · exact Or.inl h
          · exact Or.inr ⟨d, List.mem_append_left _ hd, hpre⟩
        · rw [List.mem_singleton.mp he]
          exact Or.inr ⟨x, by simp, List.prefix_rfl⟩

lemma isExportedDir_addExportedDirs (exports : List CleanPath) (p : CleanPath) :
    isExportedDir (addExportedDirs (exports.map CleanPath.text)) p.text =
      isExportedDir (exports.map CleanPath.text) p.text := by
  obtain ⟨noted, heq, hsub, hcov⟩ := addExportedDirs_covers exports
  rw [heq, Bool.eq_iff_iff, isExportedDir_iff, isExportedDir_iff]
  refine or_congr_right ⟨fun ⟨d, hd, h⟩ => ⟨d, hsub d hd, h⟩, ?_⟩
  rintro ⟨e, he, hpre, hne⟩
  rcases hcov e he with hroot | ⟨d, hd, hed⟩
  · rw [hroot, List.prefix_nil] at hpre
    exact absurd (CleanPath.ext (hpre.trans hroot.symm)) hne
  · refine ⟨d, hd, hpre.trans hed, ?_⟩
    rintro rfl
    -- both are prefixes of each other
    exact hne (CleanPath.ext (hpre.eq_of_length (Nat.le_antisymm hpre.length_le hed.length_le)))

lemma addExportedDirs_separate (h : Separate exports) :
    addExportedDirs (exports.map CleanPath.text) = exports.map CleanPath.text := by
  suffices hall : ∀ xs : List CleanPath, (∀ x ∈ xs, x ∈ exports) →
      addExportedDirs (xs.map CleanPath.text) = xs.map CleanPath.text from
    hall exports fun _ hx => hx
  intro xs
  induction xs using List.reverseRecOn with
  | nil => exact fun _ => rfl
  | append_singleton xs x ih =>
    intro hxs
    have hx : x ∈ exports := hxs x (by simp)
    have hnot : isExportedDir (xs.map CleanPath.text) x.text ≠ true := by
      rw [Ne, isExportedDir_iff]
      rintro (hroot | ⟨e, he, hpre, hne⟩)
      · exact h.ne_root x hx hroot
      · exact hne (h.eq_of_prefix x hx e (hxs e (List.mem_append_left _ he)) hpre)
    rw [List.map_append, List.map_singleton, addExportedDirs_concat,
      ih fun y hy => hxs y (List.mem_append_left _ hy), if_neg hnot]

/-! ### The virtual listings -/

lemma mem_addVirtual {list : List Text} {d : Text} :
    x ∈ addVirtual pre list d ↔ x ∈ list ∨ (pre <+: d ∧ x = firstName pre d) := by
  unfold addVirtual
  by_cases hpre : pre <+: d
  · simp only [List.isPrefixOf_iff_prefix.mpr hpre, if_true, hpre, true_and]
    split_ifs with hmem
    · exact ⟨Or.inl, fun h => h.elim id fun hx => hx ▸ List.contains_iff_mem.mp hmem⟩
    · simp
  · simp [mt List.isPrefixOf_iff_prefix.mp hpre, hpre]

lemma addVirtual_nodup {list : List Text} (h : list.Nodup) (d : Text) :
    (addVirtual pre list d).Nodup := by
  unfold addVirtual
  split_ifs with hpre hmem
  · exact h
  · exact List.nodup_append.mpr ⟨h, by simp, by
      rintro a ha b hb rfl
      exact hmem (List.contains_iff_mem.mpr (List.mem_singleton.mp hb ▸ ha))⟩
  · exact h

lemma virtualList_spec (dirs : List Text) (pre : Text) :
    (virtualList dirs pre).Nodup ∧ ∀ x, x ∈ virtualList dirs pre ↔
      ∃ d ∈ dirs, pre <+: d ∧ x = firstName pre d := by
  unfold virtualList
  induction dirs using List.reverseRecOn with
  | nil => simp
  | append_singleton dirs d ih =>
    rw [List.foldl_append]
    obtain ⟨hnodup, hmem⟩ := ih
    refine ⟨addVirtual_nodup hnodup d, fun x => ?_⟩
    simp only [List.foldl_cons, List.foldl_nil, mem_addVirtual, hmem, List.mem_append,
      List.mem_singleton, or_and_right, exists_or, exists_eq_left]

lemma mem_virtualList (hne : ∀ e ∈ exports, e.names ≠ []) :
    x ∈ virtualList (exports.map CleanPath.text) (dirPrefix p.text) ↔
      ∃ e ∈ exports, ∃ n rest, e.names = p.names ++ n :: rest ∧ x = n.text := by
  rw [(virtualList_spec _ _).2, CleanPath.dirPrefix_text]
  have hdrop : ∀ (n : Name '/') (rest : List (Name '/')),
      firstName (joined p.names ++ ['/']) (joined (p.names ++ n :: rest)) = n.text := by
    intro n rest
    have hsplit : joined (p.names ++ n :: rest) =
        (joined p.names ++ ['/']) ++ (n.text ++ joined rest) := by
      simp [joined_append]
    rw [firstName, hsplit, List.drop_left, takeWhile_name]
  constructor
  · rintro ⟨d, hd, hpre, rfl⟩
    obtain ⟨e, he, rfl⟩ := List.mem_map.mp hd
    rw [CleanPath.text_of_ne (hne e he), joined_sep_prefix] at hpre
    obtain ⟨n, rest, hnames⟩ := hpre
    refine ⟨e, he, n, rest, hnames, ?_⟩
    rw [CleanPath.text_of_ne (hne e he), hnames, hdrop]
  · rintro ⟨e, he, n, rest, hnames, rfl⟩
    refine ⟨e.text, List.mem_map_of_mem he, ?_, ?_⟩
    · rw [CleanPath.text_of_ne (hne e he), joined_sep_prefix]
      exact ⟨n, rest, hnames⟩
    · rw [CleanPath.text_of_ne (hne e he), hnames, hdrop]

lemma children_of_notExported {dirs : List Text} {path : Text}
    (h : isExportedDir dirs path = false) : children dirs path = [] := by
  simp [children, listDirInternal, h]

lemma children_of_exported {dirs : List Text} {path : Text}
    (h : isExportedDir dirs path = true) : children dirs path =
      ((virtualList dirs (dirPrefix path)).filter fun name => name ≠ ['.']).map
        fun name => dirPrefix path ++ name := by
  simp [children, listDirInternal, h, createVirtualDirEntry, List.filter_map, Function.comp_def]

lemma mem_children (hne : ∀ e ∈ exports, e.names ≠ []) :
    x ∈ children (exports.map CleanPath.text) p.text ↔
      ∃ e ∈ exports, ∃ (n : Name '/') (rest : List (Name '/'))
        (hn : n.text ≠ ['.'] ∧ n.text ≠ ['.', '.']),
        e.names = p.names ++ n :: rest ∧ x = (p.child n hn).text := by
  by_cases hexp : isExportedDir (exports.map CleanPath.text) p.text = true
  · rw [children_of_exported hexp]
    constructor
    · intro hx
      obtain ⟨name, hname, rfl⟩ := List.mem_map.mp hx
      obtain ⟨e, he, n, rest, hnames, rfl⟩ := (mem_virtualList hne).mp (List.mem_filter.mp hname).1
      have hn := e.plain n (by simp [hnames])
      exact ⟨e, he, n, rest, hn, hnames, (p.text_child n hn).symm⟩
    · rintro ⟨e, he, n, rest, hn, hnames, rfl⟩
      rw [p.text_child]
      refine List.mem_map_of_mem (List.mem_filter.mpr ⟨?_, decide_eq_true hn.1⟩)
      exact (mem_virtualList hne).mpr ⟨e, he, n, rest, hnames, rfl⟩
  · rw [children_of_notExported (Bool.eq_false_iff.mpr hexp)]
    constructor
    · intro hx
      simp at hx
    · rintro ⟨e, he, n, rest, -, hnames, -⟩
      have hbelow : p.names <+: e.names ∧ p.names ≠ e.names :=
        exists_below_iff.mp ⟨n, rest, hnames⟩
      exact absurd (isExportedDir_iff.mpr (Or.inr ⟨e, he, hbelow.1,
        fun h => hbelow.2 (congrArg CleanPath.names h)⟩)) hexp

lemma children_nodup (dirs : List Text) (path : Text) : (children dirs path).Nodup := by
  cases hexp : isExportedDir dirs path with
  | false => simp [children_of_notExported hexp]
  | true =>
    rw [children_of_exported hexp]
    apply List.Nodup.map
    · exact fun a b h => List.append_cancel_left h
    · exact (virtualList_spec _ _).1.filter _

/-! ### Descending -/

lemma mem_descend (hne : ∀ e ∈ exports, e.names ≠ [])
    (hx : x ∈ descend (exports.map CleanPath.text) n p.text) :
    ∃ q : CleanPath, p.names <+: q.names ∧ x = q.text := by
  induction n generalizing p with
  | zero => exact ⟨p, List.prefix_rfl, List.mem_singleton.mp hx⟩
  | succ n ih =>
    rcases List.mem_cons.mp hx with rfl | hx
    · exact ⟨p, List.prefix_rfl, rfl⟩
    · obtain ⟨y, hy, hxy⟩ := List.mem_flatMap.mp hx
      obtain ⟨e, -, m, rest, hm, -, rfl⟩ := (mem_children hne).mp hy
      obtain ⟨q, hq, rfl⟩ := ih hxy
      exact ⟨q, (List.prefix_append _ _).trans hq, rfl⟩

lemma count_flatMap_one {α β : Type*} [BEq β] [LawfulBEq β] {l : List α} {f : α → List β} {x : α}
    {b : β}
    (hnodup : l.Nodup) (hx : x ∈ l) (hone : (f x).count b = 1) (hrest : ∀ y ∈ l, y ≠ x → b ∉ f y) :
    (l.flatMap f).count b = 1 := by
  induction l with
  | nil => simp at hx
  | cons a l ih =>
    obtain ⟨ha, hnodup⟩ := List.nodup_cons.mp hnodup
    rw [List.flatMap_cons, List.count_append]
    by_cases hax : a = x
    · subst hax
      have hzero : (l.flatMap f).count b = 0 := by
        rw [List.count_eq_zero]
        intro hb
        obtain ⟨y, hy, hby⟩ := List.mem_flatMap.mp hb
        exact hrest y (List.mem_cons_of_mem _ hy) (fun h => ha (h ▸ hy)) hby
      omega
    · have hzero : (f a).count b = 0 := List.count_eq_zero.mpr (hrest a (by simp) hax)
      have hl := ih hnodup ((List.mem_cons.mp hx).resolve_left (Ne.symm hax))
        fun y hy => hrest y (List.mem_cons_of_mem _ hy)
      omega

/-- **The descent reaches an export once**, from any directory above it, once it goes deep enough.
The induction is on the depth; only one entry of each listing leads on to the export. -/
lemma count_descend (h : Separate exports) (he : e ∈ exports) (hpe : p.names <+: e.names)
    (hn : e.names.length ≤ p.names.length + n) :
    (descend (exports.map CleanPath.text) n p.text).count e.text = 1 := by
  induction n generalizing p with
  | zero =>
    have heq : p = e := CleanPath.ext (hpe.eq_of_length (Nat.le_antisymm hpe.length_le (by omega)))
    simp [heq, descend]
  | succ n ih =>
    rw [descend]
    by_cases heq : p = e
    · subst heq
      have hnot : isExportedDir (exports.map CleanPath.text) p.text = false := by
        rw [Bool.eq_false_iff, Ne, isExportedDir_iff]
        rintro (hroot | ⟨d, hd, hpre, hpd⟩)
        · exact h.ne_root p he hroot
        · exact hpd (h.eq_of_prefix p he d hd hpre)
      simp [children_of_notExported hnot]
    · obtain ⟨m, rest, hnames⟩ : ∃ m rest, e.names = p.names ++ m :: rest :=
        exists_below_iff.mpr ⟨hpe, fun h => heq (CleanPath.ext h)⟩
      have hm := e.plain m (by simp [hnames])
      have hself : p.text ≠ e.text := fun h => heq (CleanPath.text_injective h)
      rw [List.count_cons_of_ne hself]
      refine count_flatMap_one (children_nodup _ _)
        ((mem_children h.ne_root).mpr ⟨e, he, m, rest, hm, hnames, rfl⟩) ?_ ?_
      · apply ih
        · exact ⟨rest, by simp [CleanPath.child, hnames]⟩
        · simp only [CleanPath.child, List.length_append, List.length_singleton]
          omega
      · intro y hy hne hmem
        obtain ⟨d, -, k, rest', hk, -, rfl⟩ := (mem_children h.ne_root).mp hy
        obtain ⟨q, hq, htext⟩ := mem_descend h.ne_root hmem
        obtain rfl := CleanPath.text_injective htext
        -- both entries lead to the export, so they have the same name
        obtain ⟨t, ht⟩ := hq
        have hmk : m = k := by
          simp only [CleanPath.child, hnames, List.append_assoc, List.append_cancel_left_eq,
            List.singleton_append, List.cons.injEq] at ht
          exact ht.1.symm
        subst hmk
        exact hne rfl

/-! ### When the virtual directories are right -/

lemma right_of_separate (h : Separate exports) : Right (exports.map CleanPath.text) exports where
  virtual_iff p := by
    rw [isExportedDir_iff]
    constructor
    · rintro (hroot | ⟨e, he, hpre, hne⟩)
      · exact Or.inl hroot
      · exact Or.inr ⟨⟨e, he, hpre, hne⟩, fun hp => hne (h.eq_of_prefix p hp e he hpre)⟩
    · exact fun hp => hp.imp_right And.left
  reached e he := by
    refine ⟨e.names.length, fun n hn => ?_⟩
    exact count_descend h he (p := ⟨[], by simp⟩) List.nil_prefix (by simpa using hn)
  passedOn e he p hpe := by
    refine passedOn_of ?_ (isValidPath_of_below he (h.ne_root e he) hpe)
    rw [Bool.eq_false_iff, Ne, isExportedDir_iff]
    rintro (hroot | ⟨d, hd, hpd, hne⟩)
    · rw [hroot, List.prefix_nil] at hpe
      exact h.ne_root e he hpe
    · obtain rfl : e = d := h.eq_of_prefix e he d hd (hpe.trans hpd)
      exact hne (CleanPath.ext (hpd.eq_of_length (Nat.le_antisymm hpd.length_le hpe.length_le)))

lemma separate_of_right {dirs : List Text} (hdirs : ∀ p : CleanPath,
      isExportedDir dirs p.text = isExportedDir (exports.map CleanPath.text) p.text)
    (h : Right dirs exports) : Separate exports := by
  have hnot : ∀ d ∈ exports, ¬ (d.names = [] ∨ ∃ e ∈ exports, d.names <+: e.names ∧ d ≠ e) := by
    intro d hd
    rw [← isExportedDir_iff, ← hdirs, (h.passedOn d hd d List.prefix_rfl).notExported]
    exact Bool.false_ne_true
  refine ⟨fun e he hroot => hnot e he (Or.inl hroot), fun d hd e he hpre => ?_⟩
  by_contra hne
  exact hnot d hd (Or.inr ⟨e, he, hpre, hne⟩)

/-- **The virtual directories are right just for exports apart from each other**, whether the worker
holds all exports or those that its mount loop notes. -/
theorem exports_right_iff (exports : List CleanPath) :
    (Right (exports.map CleanPath.text) exports ↔ Separate exports) ∧
      (Right (addExportedDirs (exports.map CleanPath.text)) exports ↔ Separate exports) := by
  refine ⟨⟨separate_of_right fun _ => rfl, right_of_separate⟩, ?_, ?_⟩
  · exact separate_of_right (isExportedDir_addExportedDirs exports)
  · intro h
    rw [addExportedDirs_separate h]
    exact right_of_separate h

example : listDirInternal ["/export/nfs/dir".toList, "/exports".toList, "/export/nfs2".toList] true
    "/export".toList =
      ([createVirtualDirEntry ".".toList "folder-network",
        createVirtualDirEntry "nfs".toList "folder-network",
        createVirtualDirEntry "nfs2".toList "folder"], []) := by
  decide

lemma notMem_letter {c : Char} (h : '/' ≠ c) : '/' ∉ [c] :=
  fun hmem => h (List.mem_singleton.mp hmem)

lemma letter_ne_nil (c : Char) : [c] ≠ [] := List.cons_ne_nil c []

def letter (c : Char) (h : '/' ≠ c) : Name '/' := ⟨[c], letter_ne_nil c, notMem_letter h⟩

def nestedExports : List CleanPath :=
  [⟨[letter 'a' (by decide)], by decide⟩,
    ⟨[letter 'a' (by decide), letter 'b' (by decide)], by decide⟩]

/-- With an export inside another, the outer one is taken for a virtual directory. -/
theorem nestedExports_not_right : ¬ Right (nestedExports.map CleanPath.text) nestedExports := by
  intro h
  have hpassed := h.passedOn (nestedExports[0]) (by simp [nestedExports]) _ List.prefix_rfl
  have hnot := hpassed.notExported
  revert hnot
  decide

end KioExtras.Nfs
