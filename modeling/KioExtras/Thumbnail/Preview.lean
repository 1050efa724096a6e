import Mathlib.Algebra.Order.Ring.Unbundled.Rat
import Mathlib.Tactic.Common

/-!
The requests the thumbnail worker makes to its plugins: `get` for what is asked for, and
`createSubThumbnail` for a file in the preview of a folder.

The pixels of an image are stood for by the version of the file they show.
-/

namespace KioExtras.Thumbnail.Preview

abbrev Text := List Char

structure File where
  content : List UInt8
  lastModified : ℤ
  deriving DecidableEq

def File.size (file : File) : ℕ := file.content.length

structure Texts where
  uri : Text
  mtime : ℤ
  size : ℕ
  deriving DecidableEq

structure QImage where
  width : ℤ
  height : ℤ
  devicePixelRatio : ℚ
  /-- the version of the file that is seen; `none` where there was no file -/
  shows : Option File
  text : Option Texts
  deriving DecidableEq

structure ThumbnailRequest where
  /-- the path of the local file -/
  url : Text
  targetSize : ℤ × ℤ
  mimeType : Text
  devicePixelRatio : ℚ
  sequenceIndex : ℚ
  deriving DecidableEq

/-- What a plugin does: from its request and the file to the size of the picture it makes. -/
abbrev Creator := ThumbnailRequest → Option File → Option (ℤ × ℤ)

structure ThumbCreatorWithMetadata where
  create : Creator
  cacheThumbnail : Bool

structure KPluginMetaData where
  pluginId : Text
  fileName : Text
  mimeTypes : List Text
  supportsMimeType : Text → Bool

/-- What the worker asks of Qt and KDE: the MIME type of a file, the plugins there are and how they
are loaded, the plugins that are on by the configuration, and the name a thumbnail has: the encoded
URL of a path and its hash. -/
structure Env where
  mimeTypeForFile : Text → Option File → Text
  plugins : List KPluginMetaData
  instantiatePlugin : Text → Option ThumbCreatorWithMetadata
  enabledByConfig : List Text
  toEncoded : Text → Text
  md5 : Text → Text

inductive ErrorCode
  | ERR_DOES_NOT_EXIST
  | ERR_CANNOT_READ
  | ERR_INTERNAL
  deriving DecidableEq

structure Error where
  code : ErrorCode
  text : Text
  deriving DecidableEq

/-- The metadata of a request, numbers read: a size that is not given is zero, a ratio that is no
number is `none`. -/
structure MetaData where
  mimeType : Text
  enabledPlugins : List Text
  width : ℤ
  height : ℤ
  devicePixelRatio : Option ℚ
  plugin : Text
  sequenceIndex : ℚ
  cache : ℤ

structure QFileInfo where
  isDir : Bool
  isReadable : Bool
  canonicalFilePath : Text

/-- The members `get` sets, and the metadata that is looked at later. -/
structure ThumbnailProtocol where
  m_mimeType : Text
  m_width : ℤ
  m_height : ℤ
  m_devicePixelRatio : ℚ
  m_enabledPlugins : List Text
  sequenceIndex : ℚ
  cache : ℤ
  deriving DecidableEq

inductive Work
  | thumbForDirectory (directory : Text)
  | createThumbnail (creator : ThumbCreatorWithMetadata) (filePath : Text) (width height : ℤ)

def inodeDirectory : Text := "inode/directory".toList

section worker

variable (env : Env)

def wildcardFits (mimeType mime : Text) : Bool :=
  mime.getLast? = some '*' && mime.dropLast.isPrefixOf mimeType

def pluginForMimeType (mimeType : Text) : Option KPluginMetaData :=
  match env.plugins.find? fun plugin => plugin.supportsMimeType mimeType with
  | some plugin => some plugin
  | none => env.plugins.find? fun plugin => plugin.mimeTypes.any (wildcardFits mimeType)

/-- `int *= qreal`. -/
def timesRatio (size : ℤ) (ratio : ℚ) : ℤ := (size * ratio : ℚ).num.tdiv (size * ratio : ℚ).den

def qFuzzyIsNull (q : ℚ) : Bool := |q| ≤ 1 / 1000000000000

def guessMimeType (path : Text) (info : QFileInfo) (file : Option File) : Text :=
  if info.isDir then inodeDirectory else env.mimeTypeForFile path file

/-- What `get` checks first, and the MIME type it goes on with. `none` for the file information
means that there is no such file. -/
def checked (metaData : MetaData) (path : Text) (info : Option QFileInfo) (file : Option File) :
    Except Error (QFileInfo × Text) :=
  match info with
  | none => .error ⟨.ERR_DOES_NOT_EXIST, path⟩
  | some info =>
    if !info.isReadable then .error ⟨.ERR_CANNOT_READ, path⟩
    else
      let mimeType :=
        if metaData.mimeType = [] then guessMimeType env path info file else metaData.mimeType
      if mimeType = [] then .error ⟨.ERR_INTERNAL, "No MIME Type specified.".toList⟩
      else if metaData.width < 0 ∨ metaData.height < 0 then
        .error ⟨.ERR_INTERNAL, "No or invalid size specified.".toList⟩
      else .ok (info, mimeType)

def size (metaData : MetaData) : ℤ × ℤ :=
  if metaData.width = 0 ∨ metaData.height = 0 then (128, 128)
  else (metaData.width, metaData.height)

def ratio (metaData : MetaData) : Option ℚ :=
  metaData.devicePixelRatio.filter fun q => ¬ qFuzzyIsNull q

def physicalSize (metaData : MetaData) : ℤ × ℤ :=
  match ratio metaData with
  | none => size metaData
  | some q => (timesRatio (size metaData).1 q, timesRatio (size metaData).2 q)

def members (metaData : MetaData) (mimeType : Text) : ThumbnailProtocol where
  m_mimeType := mimeType
  m_width := (size metaData).1
  m_height := (size metaData).2
  m_devicePixelRatio := (ratio metaData).getD 1
  m_enabledPlugins :=
    if metaData.enabledPlugins = [] then env.enabledByConfig else metaData.enabledPlugins
  sequenceIndex := metaData.sequenceIndex
  cache := metaData.cache

def isFolderPreview (metaData : MetaData) (mimeType : Text) : Prop :=
  (metaData.plugin = [] ∨ "directorythumbnail".toList <:+: metaData.plugin) ∧
    mimeType = inodeDirectory

instance (metaData : MetaData) (mimeType : Text) : Decidable (isFolderPreview metaData mimeType) :=
  inferInstanceAs (Decidable (_ ∧ _))

/-- The plugin that is asked for, or else the one for the MIME type. -/
def pluginFor (metaData : MetaData) (mimeType : Text) : Text :=
  if metaData.plugin = [] then
    ((pluginForMimeType env mimeType).map KPluginMetaData.fileName).getD []
  else metaData.plugin

def work (metaData : MetaData) (info : QFileInfo) (mimeType : Text) : Except Error Work :=
  if isFolderPreview metaData mimeType then .ok (.thumbForDirectory info.canonicalFilePath)
  else if pluginFor env metaData mimeType = [] then
    .error ⟨.ERR_INTERNAL, "No plugin specified.".toList⟩
  else match env.instantiatePlugin (pluginFor env metaData mimeType) with
    | none => .error
        ⟨.ERR_INTERNAL, "Cannot load ThumbCreator ".toList ++ pluginFor env metaData mimeType⟩
    | some creator => .ok (.createThumbnail creator info.canonicalFilePath
        (physicalSize metaData).1 (physicalSize metaData).2)

def get (metaData : MetaData) (path : Text) (info : Option QFileInfo) (file : Option File) :
    Except Error (ThumbnailProtocol × Work) := do
  let (info, mimeType) ← checked env metaData path info file
  let work ← work env metaData info mimeType
  pure (members env metaData mimeType, work)

/-! ### Making a thumbnail -/

/-- `QImage::scaled` with `Qt::KeepAspectRatio` -/
def QImage.scaled (img : QImage) (width height : ℤ) : QImage :=
  let rw := height * img.width / img.height
  let (w, h) := if rw ≤ width then (rw, height) else (width, width * img.height / img.width)
  { img with width := max w 1, height := max h 1 }

def scaleDownImage (img : QImage) (maxWidth maxHeight : ℤ) : QImage :=
  if img.width > maxWidth ∨ img.height > maxHeight then img.scaled maxWidth maxHeight else img

def request (worker : ThumbnailProtocol) (filePath : Text) (width height : ℤ) : ThumbnailRequest :=
  ⟨filePath, (width, height), worker.m_mimeType, worker.m_devicePixelRatio, worker.sequenceIndex⟩

def createThumbnail (worker : ThumbnailProtocol) (creator : ThumbCreatorWithMetadata)
    (filePath : Text) (width height : ℤ) (file : Option File) : Option QImage :=
  (creator.create (request worker filePath width height) file).map fun (w, h) =>
    { scaleDownImage ⟨w, h, 1, file, none⟩ width height with
      devicePixelRatio := worker.m_devicePixelRatio }

/-! ### The files in a folder -/

inductive CachePool
  | normal
  | large
  | xlarge
  | xxlarge
  deriving DecidableEq

def CachePool.minSize : CachePool → ℤ
  | .normal => 128
  | .large => 256
  | .xlarge => 512
  | .xxlarge => 1024

def pools : List CachePool := [.normal, .large, .xlarge, .xxlarge]

def poolsFor (wants : ℤ) : List CachePool := pools.filter fun pool => ¬ pool.minSize < wants

def cacheSize (wants : ℤ) : ℤ := ((poolsFor wants).head?.map CachePool.minSize).getD 0

def fitsCache (worker : ThumbnailProtocol) (segmentWidth segmentHeight : ℤ) : Bool :=
  let maxDimension := min 1024 (512 * worker.m_devicePixelRatio)
  segmentWidth ≤ maxDimension && segmentHeight ≤ maxDimension

def subCreator (worker : ThumbnailProtocol) (filePath : Text) (file : Option File) :
    Option ThumbCreatorWithMetadata :=
  match pluginForMimeType env (env.mimeTypeForFile filePath file) with
  | none => none
  | some subPlugin =>
    if worker.m_enabledPlugins.contains subPlugin.pluginId then
      env.instantiatePlugin subPlugin.fileName
    else none

/-- The size in which `createSubThumbnail` asks for a thumbnail that is not cached. -/
def subSize (worker : ThumbnailProtocol) (segmentWidth segmentHeight : ℤ) : ℤ × ℤ :=
  if fitsCache worker segmentWidth segmentHeight then
    let size := cacheSize (max segmentWidth segmentHeight)
    (size, size)
  else (segmentWidth, segmentHeight)

def subRequest (worker : ThumbnailProtocol) (filePath : Text) (segmentWidth segmentHeight : ℤ) :
    ThumbnailRequest :=
  let size := subSize worker segmentWidth segmentHeight
  request worker filePath size.1 size.2

end worker

/-! ### The MIME type of a request -/

variable {env : Env} {metaData : MetaData} {path : Text} {info : Option QFileInfo}
  {file : Option File} {worker : ThumbnailProtocol}

lemma get_ok {done : Work} (h : get env metaData path info file = .ok (worker, done)) :
    ∃ there mimeType, checked env metaData path info file = .ok (there, mimeType) ∧
      work env metaData there mimeType = .ok done ∧ worker = members env metaData mimeType := by
  unfold get at h
  cases hchecked : checked env metaData path info file with
  | error e =>
    rw [hchecked] at h
    exact absurd h nofun
  | ok checked =>
    obtain ⟨there, mimeType⟩ := checked
    rw [hchecked] at h
    change (work env metaData there mimeType >>= fun work =>
      pure (members env metaData mimeType, work)) = .ok (worker, done) at h
    cases hwork : work env metaData there mimeType with
    | error e =>
      rw [hwork] at h
      exact absurd h nofun
    | ok done' =>
      rw [hwork] at h
      obtain ⟨rfl, rfl⟩ := Prod.mk.inj (Except.ok.inj h)
      exact ⟨there, mimeType, rfl, hwork, rfl⟩

lemma work_ok {there : QFileInfo} {mimeType : Text} {done : Work}
    (h : work env metaData there mimeType = .ok done) :
    (isFolderPreview metaData mimeType ∧ done = .thumbForDirectory there.canonicalFilePath) ∨
      ∃ creator, done = .createThumbnail creator there.canonicalFilePath
        (physicalSize metaData).1 (physicalSize metaData).2 := by
  unfold work at h
  split_ifs at h with hfolder hplugin
  · exact Or.inl ⟨hfolder, (Except.ok.inj h).symm⟩
  · split at h
    · exact absurd h nofun
    · exact Or.inr ⟨_, (Except.ok.inj h).symm⟩

lemma checked_ok {there : QFileInfo} {mimeType : Text}
    (h : checked env metaData path info file = .ok (there, mimeType)) :
    info = some there ∧ mimeType =
      if metaData.mimeType = [] then guessMimeType env path there file else metaData.mimeType := by
  unfold checked at h
  cases info with
  | none => exact absurd h nofun
  | some info =>
    dsimp only at h
    split_ifs at h with hread hmime
    all_goals
      obtain ⟨rfl, rfl⟩ := Prod.mk.inj (Except.ok.inj h)
      exact ⟨rfl, by simp [hmime]⟩

lemma get_directory {directory : Text}
    (h : get env metaData path info file = .ok (worker, .thumbForDirectory directory)) :
    worker.m_mimeType = inodeDirectory := by
  obtain ⟨there, mimeType, _, hwork, rfl⟩ := get_ok h
  rcases work_ok hwork with ⟨hfolder, _⟩ | ⟨creator, hcreate⟩
  · exact hfolder.2
  · exact absurd hcreate nofun

/-- A file is asked for in the MIME type the request has or the file is found to have, under the
canonical form of its path. -/
lemma get_file {creator : ThumbCreatorWithMetadata} {filePath : Text} {width height : ℤ}
    (h : get env metaData path info file =
      .ok (worker, .createThumbnail creator filePath width height)) :
    ∃ there, info = some there ∧ filePath = there.canonicalFilePath ∧ worker.m_mimeType =
      if metaData.mimeType = [] then guessMimeType env path there file else metaData.mimeType := by
  obtain ⟨there, mimeType, hchecked, hwork, rfl⟩ := get_ok h
  obtain ⟨rfl, hmime⟩ := checked_ok hchecked
  rcases work_ok hwork with ⟨_, hfolder⟩ | ⟨_, hcreate⟩
  · exact absurd hfolder nofun
  · exact ⟨there, rfl, (Work.createThumbnail.inj hcreate).2.1, hmime⟩

end KioExtras.Thumbnail.Preview
