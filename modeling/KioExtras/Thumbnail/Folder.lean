import KioExtras.Thumbnail.Preview
import Mathlib.Tactic.NormNum

/-!
A file in the preview of its folder and the same file on its own: what a plugin is asked in the one
case and in the other.
-/

namespace KioExtras.Thumbnail.Folder

open KioExtras.Thumbnail.Preview

/-- A regular file in a folder that is previewed, with its plugin enabled, and which is also asked
for on its own: under its own type or under none, in the size in which the preview of the folder
asks for it, with the same ratio and at the same place of a sequence. -/
structure FileInFolder (env : Env) where
  folderData : MetaData
  folderPath : Text
  folderInfo : Option QFileInfo
  directory : Text
  /-- the worker while it previews the folder -/
  folder : ThumbnailProtocol
  get_folder : get env folderData folderPath folderInfo none =
    .ok (folder, .thumbForDirectory directory)
  name : Text
  file : File
  segmentWidth : ℤ
  segmentHeight : ℤ
  metaData : MetaData
  info : QFileInfo
  regular : info.isDir = false
  canonical : info.canonicalFilePath = directory ++ '/' :: name
  ownType : metaData.mimeType = [] ∨
    metaData.mimeType = env.mimeTypeForFile (directory ++ '/' :: name) file
  /-- the worker while it makes a thumbnail of the file alone -/
  alone : ThumbnailProtocol
  creator : ThumbCreatorWithMetadata
  path : Text
  size : ℤ × ℤ
  get_file : get env metaData (directory ++ '/' :: name) (some info) (some file) =
    .ok (alone, .createThumbnail creator path size.1 size.2)
  enabled : (subCreator env folder (directory ++ '/' :: name) (some file)).isSome
  sameSize : size = subSize folder segmentWidth segmentHeight
  sameRatio : folder.m_devicePixelRatio = alone.m_devicePixelRatio
  samePlace : folder.sequenceIndex = alone.sequenceIndex

namespace FileInFolder

variable {env : Env} (f : FileInFolder env)

def filePath : Text := f.directory ++ '/' :: f.name

def mimeType : Text := env.mimeTypeForFile f.filePath f.file

/-- What the plugin is asked in the preview of the folder. -/
def inFolder : ThumbnailRequest :=
  subRequest f.folder f.filePath f.segmentWidth f.segmentHeight

/-- What the plugin is asked for the file alone. -/
def onItsOwn : ThumbnailRequest := request f.alone f.path f.size.1 f.size.2

lemma inFolder_mimeType : f.inFolder.mimeType = inodeDirectory := get_directory f.get_folder

lemma onItsOwn_mimeType : f.onItsOwn.mimeType = f.mimeType := by
  obtain ⟨there, hthere, _, hmime⟩ := Preview.get_file f.get_file
  obtain rfl := Option.some.inj hthere
  change f.alone.m_mimeType = f.mimeType
  rw [hmime]
  split_ifs with hnone
  · unfold guessMimeType
    rw [f.regular]
    rfl
  · exact f.ownType.resolve_left hnone

lemma path_eq : f.path = f.filePath := by
  obtain ⟨there, hthere, hpath, _⟩ := Preview.get_file f.get_file
  obtain rfl := Option.some.inj hthere
  rw [hpath, f.canonical]
  rfl

lemma inFolder_eq : { f.inFolder with mimeType := f.mimeType } = f.onItsOwn := by
  have hmime := f.onItsOwn_mimeType
  unfold inFolder onItsOwn subRequest request at *
  rw [← f.sameSize, f.path_eq, f.sameRatio, f.samePlace]
  exact congrArg (fun mime => ThumbnailRequest.mk _ _ mime _ _) hmime.symm

lemma requests_eq_iff : f.inFolder = f.onItsOwn ↔ f.mimeType = inodeDirectory := by
  constructor
  · intro heq
    rw [← f.onItsOwn_mimeType, ← heq]
    exact f.inFolder_mimeType
  · intro hmime
    have heq := f.inFolder_eq
    rw [hmime, ← f.inFolder_mimeType] at heq
    exact heq

/-- Every plugin shows the file in the folder just when it shows the file alone. -/
def ShownAlike : Prop :=
  ∀ create : Creator, (create f.inFolder f.file).isSome = (create f.onItsOwn f.file).isSome

lemma shownAlike_iff : f.ShownAlike ↔ f.inFolder = f.onItsOwn := by
  constructor
  · intro halike
    -- a plugin that answers this one request
    have hone := halike fun request _ => if request = f.inFolder then some (1, 1) else none
    by_contra hne
    rw [if_pos rfl, if_neg fun heq => hne heq.symm] at hone
    exact absurd hone (by simp)
  · intro heq create
    rw [heq]

/-- **A plugin is asked the same, and all plugins show the same**, just for files whose type is that
of folders. -/
theorem asked_alike_iff :
    (f.inFolder = f.onItsOwn ↔ f.mimeType = inodeDirectory) ∧
      (f.ShownAlike ↔ f.mimeType = inodeDirectory) := by
  refine ⟨f.requests_eq_iff, ?_⟩
  rw [f.shownAlike_iff]
  exact f.requests_eq_iff

end FileInFolder

/-! ### Two plugins that go by the type -/

inductive ArchiveType
  | ZIP
  | TAR
  | RAR
  | SEVENZIP

/-- What the plugins ask of the system: which type is of which kind, the picture in an archive, and
the cover of a book. -/
structure Archives where
  inherits : Text → Text → Bool
  extractArchiveImage : Text → Option File → ArchiveType → Option (ℤ × ℤ)
  extractRARImage : Text → Option File → Option (ℤ × ℤ)
  createEpub : Text → Option File → Option (ℤ × ℤ)
  createFb2 : Text → Option File → Option (ℤ × ℤ)
  createZippedFb2 : Text → Option File → Option (ℤ × ℤ)

variable (sys : Archives)

def isKind (mime : Text) (kinds : List String) : Bool :=
  kinds.any fun kind => sys.inherits mime kind.toList

def zipKinds : List String := ["application/x-cbz", "application/zip"]
def tarKinds : List String := ["application/x-cbt", "application/x-gzip", "application/x-tar"]
def sevenZipKinds : List String := ["application/x-cb7", "application/x-7z-compressed"]
def rarKinds : List String := ["application/x-cbr", "application/x-rar"]

def ComicCreator.create : Creator := fun request file =>
  if isKind sys request.mimeType zipKinds then sys.extractArchiveImage request.url file .ZIP
  else if isKind sys request.mimeType tarKinds then sys.extractArchiveImage request.url file .TAR
  else if isKind sys request.mimeType sevenZipKinds then
    sys.extractArchiveImage request.url file .SEVENZIP
  else if isKind sys request.mimeType rarKinds then sys.extractRARImage request.url file
  else none

def EbookCreator.create : Creator := fun request file =>
  if request.mimeType = "application/epub+zip".toList then sys.createEpub request.url file
  else if request.mimeType = "application/x-fictionbook+xml".toList then
    sys.createFb2 request.url file
  else if request.mimeType = "application/x-zip-compressed-fb2".toList then
    sys.createZippedFb2 request.url file
  else none

variable {env : Env} (f : FileInFolder env)

/-- No comic book is shown in a folder, where folders are of no kind of archive. -/
theorem comic_not_in_folder (hkind :
      isKind sys inodeDirectory (zipKinds ++ tarKinds ++ sevenZipKinds ++ rarKinds) = false) :
    ComicCreator.create sys f.inFolder f.file = none := by
  unfold isKind at hkind
  rw [List.any_append, List.any_append, List.any_append] at hkind
  simp only [Bool.or_eq_false_iff] at hkind
  obtain ⟨⟨⟨hzip, htar⟩, hseven⟩, hrar⟩ := hkind
  unfold ComicCreator.create isKind
  rw [f.inFolder_mimeType, hzip, htar, hseven, hrar]
  rfl

theorem ebook_not_in_folder : EbookCreator.create sys f.inFolder f.file = none := by
  unfold EbookCreator.create
  rw [f.inFolder_mimeType, if_neg (by decide), if_neg (by decide), if_neg (by decide)]

/-! ### A comic book in a folder -/

def comicType : Text := "application/x-cbz".toList

/-- Each type is of its own kind only, and there is a picture in every archive. -/
def ownKind : Archives where
  inherits mime kind := mime = kind
  extractArchiveImage _ _ _ := some (100, 100)
  extractRARImage _ _ := some (100, 100)
  createEpub _ _ := some (100, 100)
  createFb2 _ _ := some (100, 100)
  createZippedFb2 _ _ := some (100, 100)

def comicPlugin : KPluginMetaData :=
  ⟨"comic".toList, "comic.so".toList, [comicType], fun mime => mime = comicType⟩

def comicEnv : Env where
  mimeTypeForFile _ _ := comicType
  plugins := [comicPlugin]
  instantiatePlugin _ := some ⟨ComicCreator.create ownKind, true⟩
  enabledByConfig := ["comic".toList]
  toEncoded path := "file://".toList ++ path
  md5 text := text

def folderWorker : ThumbnailProtocol := ⟨inodeDirectory, 128, 128, 1, ["comic".toList], 0, 1⟩

lemma subSize_fifty : subSize folderWorker 50 50 = (128, 128) := by
  have hfits : fitsCache folderWorker 50 50 = true := by
    norm_num [fitsCache, folderWorker]
  unfold subSize
  rw [if_pos hfits]
  rfl

def comicInFolder : FileInFolder comicEnv where
  folderData := ⟨inodeDirectory, [], 128, 128, none, [], 0, 1⟩
  folderPath := "/d".toList
  folderInfo := some ⟨true, true, "/d".toList⟩
  directory := "/d".toList
  folder := folderWorker
  get_folder := by rfl
  name := "a.cbz".toList
  file := ⟨[1], 0⟩
  segmentWidth := 50
  segmentHeight := 50
  metaData := ⟨comicType, [], 128, 128, none, [], 0, 1⟩
  info := ⟨false, true, "/d/a.cbz".toList⟩
  regular := rfl
  canonical := rfl
  ownType := Or.inr rfl
  alone := ⟨comicType, 128, 128, 1, ["comic".toList], 0, 1⟩
  creator := ⟨ComicCreator.create ownKind, true⟩
  path := "/d/a.cbz".toList
  size := (128, 128)
  get_file := by rfl
  enabled := rfl
  sameSize := subSize_fifty.symm
  sameRatio := rfl
  samePlace := rfl

/-- A comic book has a thumbnail alone and is not shown in its folder. -/
theorem comic_asked_otherwise : ¬ ∀ (env : Env) (f : FileInFolder env),
    f.inFolder = f.onItsOwn ∧ f.ShownAlike := by
  intro hall
  have halike := (hall comicEnv comicInFolder).2 (ComicCreator.create ownKind)
  rw [comic_not_in_folder ownKind comicInFolder (by decide)] at halike
  exact absurd halike (by decide)

end KioExtras.Thumbnail.Folder
