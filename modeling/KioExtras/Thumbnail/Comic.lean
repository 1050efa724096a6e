import KioExtras.KArchive
import Mathlib.Data.Char
import Mathlib.Data.List.Lex
import Mathlib.Data.List.Perm.Basic
import Mathlib.Data.List.Sort

/-!
The cover of a comic book: the first image of an archive that is not too large.

The images are put into a map under their paths in lower case, which sorts them and keeps one of
those that differ in the case only.
-/

namespace KioExtras.Thumbnail.Comic

open KioExtras.KArchive

/-- How Qt compares without case: by folded characters, and by what a text is in lower case. -/
structure Case (Key : Type) where
  foldCase : Char → Char
  toLower : Text → Key

structure KArchiveFile where
  size : Int64
  data : List UInt8
deriving DecidableEq

section comic

variable {Key : Type} [LinearOrder Key] (qt : Case Key)

def startsWith (entry pattern : Text) : Bool :=
  (pattern.map qt.foldCase).isPrefixOf (entry.map qt.foldCase)

def endsWith (entry pattern : Text) : Bool :=
  (pattern.map qt.foldCase).isSuffixOf (entry.map qt.foldCase)

def resourceForks : List Text := ["__MACOSX".toList, ".DS_Store".toList]

def suffixes : List Text :=
  [".avif".toList, ".bmp".toList, ".gif".toList, ".heif".toList, ".jpg".toList, ".jpeg".toList,
    ".jxl".toList, ".png".toList, ".webp".toList]

def skipped (entry : Text) : Bool := resourceForks.any (startsWith qt entry)

def isImage (entry : Text) : Bool := suffixes.any (endsWith qt entry)

/-- `QMap::insert`, under the key of an image: what is there under that key is replaced. -/
def insert (entryMap : List (Key × Text)) (entry : Text) : List (Key × Text) :=
  (entryMap.filter fun e => e.1 ≠ qt.toLower entry).orderedInsert (fun e e' => e.1 ≤ e'.1)
    (qt.toLower entry, entry)

def filterImages (entries : List Text) : List Text :=
  (entries.foldl (fun entryMap entry =>
    if !skipped qt entry && isImage qt entry then insert qt entryMap entry else entryMap) []).map
      Prod.snd

def appendEntry (pre entry : Text) : KArchiveEntry → List Text
  | .file .. => [pre ++ entry]
  | .directory entries _ e =>
    entries.flatMap fun name => appendEntry (pre ++ entry ++ ['/']) name (e name)

def getArchiveFileList (pre : Text) (entries : List Text) (e : Text → KArchiveEntry) : List Text :=
  entries.flatMap fun entry => appendEntry pre entry (e entry)

/-- The loop over the entries: what has no file, or one that is too large, is passed over. -/
def extractCover (maxFileSize : UInt64) (e : Text → Option KArchiveFile) :
    List Text → Option (List UInt8)
  | [] => none
  | entry :: entries =>
    match e entry with
    | none => extractCover maxFileSize e entries
    | some coverFile =>
      if coverFile.size < 0 || coverFile.size.toUInt64 > maxFileSize then
        extractCover maxFileSize e entries
      else some coverFile.data

def extractArchiveImage (maxFileSize : UInt64) (entries : List Text) (e : Text → KArchiveEntry)
    (entry : Text → Option KArchiveFile) : Option (List UInt8) :=
  extractCover maxFileSize entry (filterImages qt (getArchiveFileList [] entries e))

def files (pre name : Text) : KArchiveEntry → List (Text × KArchiveFile)
  | .file size data => [(pre ++ name, ⟨size, data⟩)]
  | .directory entries _ e => entries.flatMap fun n => files (pre ++ name ++ ['/']) n (e n)

def allFiles (entries : List Text) (e : Text → KArchiveEntry) : List (Text × KArchiveFile) :=
  entries.flatMap fun name => files [] name (e name)

/-- The images of the archive but those in the directory of the resource forks. -/
def wanted (entries : List Text) (e : Text → KArchiveEntry) : List (Text × KArchiveFile) :=
  (allFiles entries e).filter fun f =>
    isImage qt f.1 && !startsWith qt f.1 "__MACOSX/".toList

def Within (maxFileSize : UInt64) (f : Text × KArchiveFile) : Bool :=
  0 ≤ f.2.size && f.2.size.toUInt64 ≤ maxFileSize

/-- The entries are the wanted images, sorted, and the cover is the first within the limit. -/
def IsCover (maxFileSize : UInt64) (entries : List Text) (e : Text → KArchiveEntry)
    (entry : Text → Option KArchiveFile) : Prop :=
  ∃ images : List (Text × KArchiveFile), images.Perm (wanted qt entries e) ∧
    (images.map Prod.fst).Pairwise (fun f f' => qt.toLower f ≤ qt.toLower f') ∧
    filterImages qt (getArchiveFileList [] entries e) = images.map Prod.fst ∧
    extractArchiveImage qt maxFileSize entries e entry =
      (images.find? (Within maxFileSize)).map fun f => f.2.data

end comic

section proofs

variable {Key : Type} {qt : Case Key}

lemma appendEntry_eq (pre name : Text) (e : KArchiveEntry) :
    appendEntry pre name e = (files pre name e).map Prod.fst := by
  induction e generalizing pre name with
  | file size data => rfl
  | directory entries nodup e ih =>
    rw [appendEntry, files, List.map_flatMap]
    exact List.flatMap_congr fun n _ => ih n _ n

lemma getArchiveFileList_eq (entries : List Text) (e : Text → KArchiveEntry) :
    getArchiveFileList [] entries e = (allFiles entries e).map Prod.fst := by
  rw [getArchiveFileList, allFiles, List.map_flatMap]
  exact List.flatMap_congr fun n _ => appendEntry_eq [] n (e n)

lemma startsWith_trans {entry pattern more : Text} (h : startsWith qt entry (pattern ++ more)) :
    startsWith qt entry pattern := by
  rw [startsWith, List.isPrefixOf_iff_prefix] at h ⊢
  rw [List.map_append] at h
  exact (List.prefix_append _ _).trans h

variable (qt) in
/-- The entries that are put into the map. -/
def kept (entries : List Text) : List Text :=
  entries.filter fun entry => !skipped qt entry && isImage qt entry

lemma kept_of_wanted {entries : List Text} {e : Text → KArchiveEntry}
    (h : ∀ f ∈ wanted qt entries e, ¬skipped qt f.1) :
    kept qt (getArchiveFileList [] entries e) = (wanted qt entries e).map Prod.fst := by
  rw [kept, getArchiveFileList_eq, List.filter_map, wanted]
  congr 1
  apply List.filter_congr
  intro f hf
  have hforks : isImage qt f.1 && !startsWith qt f.1 "__MACOSX/".toList → ¬skipped qt f.1 :=
    fun hkeep => h f (List.mem_filter.mpr ⟨hf, hkeep⟩)
  have hfolder : startsWith qt f.1 "__MACOSX/".toList → skipped qt f.1 := fun hstarts =>
    List.any_eq_true.mpr ⟨"__MACOSX".toList, List.mem_cons_self,
      @startsWith_trans _ qt f.1 "__MACOSX".toList "/".toList hstarts⟩
  rw [Function.comp_apply]
  cases hskip : skipped qt f.1 <;> cases himage : isImage qt f.1 <;>
    cases hstarts : startsWith qt f.1 "__MACOSX/".toList <;> simp_all

variable [LinearOrder Key] {m : List (Key × Text)}

lemma insert_perm (entry : Text) : (insert qt m entry).Perm
    ((qt.toLower entry, entry) :: m.filter fun e => e.1 ≠ qt.toLower entry) :=
  List.perm_orderedInsert _ _ _

variable (qt) in
structure Good (entries : List Text) (m : List (Key × Text)) : Prop where
  sorted : m.Pairwise fun e e' => e.1 ≤ e'.1
  nodup : (m.map Prod.fst).Nodup
  key : ∀ e ∈ m, e.1 = qt.toLower e.2
  mem : ∀ e ∈ m, e.2 ∈ entries

instance : Std.Total fun e e' : Key × Text => e.1 ≤ e'.1 := ⟨fun e e' => le_total e.1 e'.1⟩

instance : IsTrans (Key × Text) fun e e' => e.1 ≤ e'.1 := ⟨fun _ _ _ => le_trans⟩

lemma Good.insert {entries : List Text} (h : Good qt entries m) {entry : Text}
    (hentry : entry ∈ entries) : Good qt entries (insert qt m entry) := by
  have hcases : ∀ e ∈ Comic.insert qt m entry, e = (qt.toLower entry, entry) ∨ e ∈ m :=
    fun e he => (List.mem_cons.mp ((insert_perm entry).mem_iff.mp he)).imp_right
      fun he => (List.mem_filter.mp he).1
  refine ⟨(h.sorted.filter _).orderedInsert _ _, ?_, fun e he => ?_, fun e he => ?_⟩
  · rw [((insert_perm entry).map _).nodup_iff, List.map_cons, List.nodup_cons]
    refine ⟨fun hmem => ?_, h.nodup.sublist (List.filter_sublist.map _)⟩
    obtain ⟨e, he, heq⟩ := List.mem_map.mp hmem
    exact of_decide_eq_true (List.mem_filter.mp he).2 heq
  · rcases hcases e he with rfl | he
    · rfl
    · exact h.key e he
  · rcases hcases e he with rfl | he
    · exact hentry
    · exact h.mem e he

lemma good_foldl {entries : List Text} (l : List Text) (h : Good qt entries m)
    (hl : ∀ entry ∈ l, entry ∈ entries) : Good qt entries (l.foldl (insert qt) m) := by
  induction l generalizing m with
  | nil => exact h
  | cons entry l ih =>
    exact ih (h.insert (hl entry List.mem_cons_self)) fun e he => hl e (List.mem_cons_of_mem _ he)

lemma foldl_perm (l : List Text) (h : (l.map qt.toLower ++ m.map Prod.fst).Nodup) :
    ((l.foldl (insert qt) m).map Prod.snd).Perm (l ++ m.map Prod.snd) := by
  induction l generalizing m with
  | nil => exact List.Perm.refl _
  | cons entry l ih =>
    have hnew : qt.toLower entry ∉ m.map Prod.fst := fun hmem =>
      (List.nodup_cons.mp h).1 (List.mem_append_right _ hmem)
    have hperm : (insert qt m entry).Perm ((qt.toLower entry, entry) :: m) := by
      have hself : m.filter (fun e => e.1 ≠ qt.toLower entry) = m :=
        List.filter_eq_self.mpr fun e he =>
          decide_eq_true fun heq => hnew (List.mem_map.mpr ⟨e, he, heq⟩)
      have hkeep := @insert_perm _ qt _ m entry
      rwa [hself] at hkeep
    have hkeys : (l.map qt.toLower ++ (insert qt m entry).map Prod.fst).Nodup :=
      (((hperm.map _).append_left _).trans List.perm_middle).nodup_iff.mpr h
    exact (ih hkeys).trans (((hperm.map Prod.snd).append_left l).trans List.perm_middle)

lemma filterImages_eq (entries : List Text) :
    filterImages qt entries = ((kept qt entries).foldl (insert qt) []).map Prod.snd := by
  rw [filterImages, kept, List.foldl_filter]

variable (qt) in
lemma filterImages_sorted (entries : List Text) :
    ((filterImages qt entries).map qt.toLower).Nodup ∧
      (filterImages qt entries).Pairwise (fun e e' => qt.toLower e ≤ qt.toLower e') ∧
      ∀ entry ∈ filterImages qt entries, entry ∈ kept qt entries := by
  have hgood : Good qt (kept qt entries) ((kept qt entries).foldl (insert qt) []) :=
    good_foldl _ ⟨.nil, .nil, by simp, by simp⟩ fun _ h => h
  rw [filterImages_eq]
  refine ⟨?_, ?_, ?_⟩
  · rw [List.map_map]
    exact List.map_congr_left hgood.key ▸ hgood.nodup
  · rw [List.pairwise_map]
    refine hgood.sorted.imp_of_mem fun he he' hle => ?_
    rwa [← hgood.key _ he, ← hgood.key _ he']
  · intro entry hentry
    obtain ⟨e, he, rfl⟩ := List.mem_map.mp hentry
    exact hgood.mem e he

lemma extractCover_eq {maxFileSize : UInt64} {entry : Text → Option KArchiveFile}
    {images : List (Text × KArchiveFile)} (h : ∀ f ∈ images, entry f.1 = some f.2) :
    extractCover maxFileSize entry (images.map Prod.fst) =
      (images.find? (Within maxFileSize)).map fun f => f.2.data := by
  induction images with
  | nil => rfl
  | cons f images ih =>
    have htail := ih fun f' hf' => h f' (List.mem_cons_of_mem _ hf')
    rw [List.map_cons, extractCover, h f List.mem_cons_self, List.find?_cons]
    have hlimit : (f.2.size < 0 || f.2.size.toUInt64 > maxFileSize) = !Within maxFileSize f := by
      simp only [Within, Bool.not_and, ← decide_not, Int64.not_le, UInt64.not_le]
    dsimp only
    rw [hlimit]
    cases Within maxFileSize f with
    | true => rfl
    | false => exact htail

end proofs

/-- **The cover is the first image** within the limit, of all in their order without case, just if
no two images are the same in lower case and none is taken for a resource fork by its name. -/
theorem isCover_iff {Key : Type} [LinearOrder Key] (qt : Case Key) (maxFileSize : UInt64)
    (entries : List Text) (e : Text → KArchiveEntry) (entry : Text → Option KArchiveFile)
    (hentry : ∀ f ∈ allFiles entries e, entry f.1 = some f.2) :
    IsCover qt maxFileSize entries e entry ↔
      ((wanted qt entries e).map fun f => qt.toLower f.1).Nodup ∧
        ∀ f ∈ wanted qt entries e, ¬skipped qt f.1 := by
  obtain ⟨hnodup, hsorted, hmem⟩ := filterImages_sorted qt (getArchiveFileList [] entries e)
  constructor
  · rintro ⟨images, hperm, -, heq, -⟩
    constructor
    · rwa [heq, List.map_map, (hperm.map _).nodup_iff] at hnodup
    · intro f hf
      have himage : f.1 ∈ filterImages qt (getArchiveFileList [] entries e) :=
        heq ▸ List.mem_map_of_mem (hperm.mem_iff.mpr hf)
      have hkept := (List.mem_filter.mp (hmem f.1 himage)).2
      simp_all
  · rintro ⟨hkeys, hforks⟩
    have hperm : (filterImages qt (getArchiveFileList [] entries e)).Perm
        ((wanted qt entries e).map Prod.fst) := by
      rw [filterImages_eq, kept_of_wanted hforks]
      have hperm := @foldl_perm _ qt _ [] ((wanted qt entries e).map Prod.fst)
        (by rwa [List.map_map, List.map_nil, List.append_nil])
      rwa [List.map_nil, List.append_nil] at hperm
    -- the images are the files that the sorted paths are of
    obtain ⟨images, heq, himages⟩ : ∃ images : List (Text × KArchiveFile),
        filterImages qt (getArchiveFileList [] entries e) = images.map Prod.fst ∧
          images.Perm (wanted qt entries e) :=
      (congrFun₂ (List.eq_map_comp_perm Prod.fst) _ _).mpr hperm
    rw [heq] at hsorted
    refine ⟨images, himages, hsorted, heq, ?_⟩
    rw [extractArchiveImage, heq]
    exact extractCover_eq fun f hf => hentry f (List.mem_filter.mp (himages.mem_iff.mp hf)).1

/-! ### Two pages, one name in lower case -/

def ascii : Case Text := ⟨Char.toLower, List.map Char.toLower⟩

def page (name : Text) : KArchiveFile := ⟨1, [name.length.toUInt8]⟩

def book (name : Text) : KArchiveEntry := .file (page name).size (page name).data

theorem pages_in_order : IsCover ascii 9 ["b.png".toList, "A.jpg".toList] book (some ∘ page) :=
  (isCover_iff ascii 9 _ book _ (by decide)).mpr ⟨by decide, by decide⟩

/-- `A.jpg` is lost when there is an `a.jpg`. -/
theorem page_lost : ¬IsCover ascii 9 ["A.jpg".toList, "a.jpg".toList] book (some ∘ page) := by
  rintro ⟨images, hperm, -, heq, -⟩
  have hlength : (wanted ascii ["A.jpg".toList, "a.jpg".toList] book).length =
      (filterImages ascii
        (getArchiveFileList [] ["A.jpg".toList, "a.jpg".toList] book)).length := by
    rw [heq, List.length_map, hperm.length_eq]
  revert hlength
  decide

end KioExtras.Thumbnail.Comic
