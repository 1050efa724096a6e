import KioExtras.Mtp.Device

/-!
The cache of a storage of a device, from the paths of files to the ids of their objects.

What a path means is found by listing the objects from the root on; what was seen on the way is
kept for a minute, and for another one each time it is asked for.
-/

namespace KioExtras.Mtp.PathCache

open KioExtras.Lib.Paths KioExtras.Lib

/-- A path with the id of its object, until a time in milliseconds. -/
structure Entry where
  path : Text
  expires : ℕ
  itemId : ℕ
  deriving DecidableEq

structure MTPStorage where
  now : ℕ
  m_cache : List Entry
  device : Device

namespace MTPStorage

/-- How long a path is kept when nobody asks for it: a minute. -/
def timeToLive : ℕ := 60 * 1000

def removePath (s : MTPStorage) (path : Text) : MTPStorage :=
  { s with m_cache := s.m_cache.filter fun item => item.path ≠ path }

def addPath (s : MTPStorage) (path : Text) (id : ℕ) : MTPStorage :=
  { s with m_cache := ⟨path, s.now + timeToLive, id⟩ :: (s.removePath path).m_cache }

/-- An entry that is asked for in time is kept longer, any other is dropped. -/
def queryPath (s : MTPStorage) (path : Text) : Option ℕ × MTPStorage :=
  match s.m_cache.find? fun item => item.path = path with
  | none => (none, s)
  | some item =>
    if item.itemId = 0 then (none, s)
    else if s.now < item.expires then (some item.itemId, s.addPath path item.itemId)
    else (none, s.removePath path)

def addFile (path : Text) (s : MTPStorage) (file : KMTPFile) : MTPStorage :=
  s.addPath (below path file.filename.text) file.itemId

def getFilesAndFoldersCached (s : MTPStorage) (path : Text) (parentId : ℕ) :
    List KMTPFile × MTPStorage :=
  let mtpFiles := s.device.getFilesAndFolders parentId
  (mtpFiles, mtpFiles.foldl (addFile path) s)

/-- The loop of `findEntry` over the children of a folder. It ends at the needle. -/
def searchChildren (s : MTPStorage) (fileNeedle : FileName) (parentPath : Text) :
    List ℕ → Option KMTPFile × MTPStorage
  | [] => (none, s)
  | child :: children =>
    match s.device.getFilemetadata child with
    | none => s.searchChildren fileNeedle parentPath children
    | some file =>
      let t := addFile parentPath s file
      if file.filename = fileNeedle then (some file, t)
      else t.searchChildren fileNeedle parentPath children

section Lookup

/-! With `HAVE_LIBMTP_Get_Children` a name is searched among the children, otherwise in the list
of all files. -/

variable (haveGetChildren : Bool)

def findEntry (s : MTPStorage) (fileNeedle : FileName) (parentPath : Text) (parentId : ℕ) :
    Option KMTPFile × MTPStorage :=
  if haveGetChildren then
    match s.device.getChildren parentId with
    | none => (none, s)
    | some children => s.searchChildren fileNeedle parentPath children
  else
    let (list, t) := s.getFilesAndFoldersCached parentPath parentId
    (list.find? fun file => file.filename = fileNeedle, t)

/-- The loop of `getFileFromPath` over the names of the path, and what comes after it. -/
def traverse (s : MTPStorage) (currentPath : Text) (currentParent : ℕ) :
    List FileName → Option KMTPFile × MTPStorage
  | [] => (s.device.getFilemetadata currentParent, s)
  | element :: elements =>
    match s.findEntry haveGetChildren element currentPath currentParent with
    | (none, t) => (none, t)
    | (some file, t) => t.traverse (below currentPath element.text) file.itemId elements

def convertToPath (pathItems : List FileName) (elements : ℕ) : Text :=
  joined (pathItems.take elements)

/-- The second way to find a file: in the list of its folder, when that is in the cache. -/
def findInParent (s : MTPStorage) (pathItems : List FileName) : Option KMTPFile × MTPStorage :=
  let parentPath := convertToPath pathItems (pathItems.length - 1)
  match s.queryPath parentPath with
  | (none, t) => (none, t)
  | (some parentId, t) =>
    match t.device.getFilemetadata parentId with
    | none => (none, t)
    | some _ =>
      let (list, u) := t.getFilesAndFoldersCached parentPath parentId
      (list.find? fun file => some file.filename = pathItems.getLast?, u)

/-- A file with id 0 is no file: here it is `none`. -/
def getFileFromPath (s : MTPStorage) (path : Text) : Option KMTPFile × MTPStorage :=
  let pathItems := names path
  if pathItems = [] then s.traverse haveGetChildren [] filesAndFoldersRoot []
  else
    match s.queryPath path with
    | (some itemId, t) =>
      match t.device.getFilemetadata itemId with
      | some file => (some file, t)
      | none => t.traverse haveGetChildren [] filesAndFoldersRoot pathItems
    | (none, t) =>
      if 1 < pathItems.length then
        match t.findInParent pathItems with
        | (some file, u) => (some file, u)
        | (none, u) => u.traverse haveGetChildren [] filesAndFoldersRoot pathItems
      else t.traverse haveGetChildren [] filesAndFoldersRoot pathItems

/-! The operations. What they return is what the daemon answers to the worker; the answers of the
device are arguments. -/

def getFilesAndFolders (s : MTPStorage) (path : Text) : (List KMTPFile × ℤ) × MTPStorage :=
  if path = [] ∨ path = ['/'] then
    let (files, t) := s.getFilesAndFoldersCached path filesAndFoldersRoot
    ((files, 0), t)
  else
    match s.getFileFromPath haveGetChildren path with
    | (none, t) => (([], 1), t)
    | (some file, t) =>
      if file.isFolder then
        let (files, u) := t.getFilesAndFoldersCached path file.itemId
        ((files, 0), u)
      else (([], 2), t)

/-- The ids of what is in the folder, for a lister. -/
def getFilesAndFolders2 (s : MTPStorage) (path : Text) : Option (List ℕ) × MTPStorage :=
  if path = [] ∨ path = ['/'] then (s.device.getChildren filesAndFoldersRoot, s)
  else
    match s.getFileFromPath haveGetChildren path with
    | (none, t) => (none, t)
    | (some file, t) =>
      if file.isFolder then (t.device.getChildren file.itemId, t) else (none, t)

/-- The device answers with `result`; when that is 0 it calls the file `stored` from now on. -/
def setFileName (s : MTPStorage) (path newName : Text) (result : ℤ) (stored : FileName) :
    ℤ × MTPStorage :=
  match s.getFileFromPath haveGetChildren path with
  | (none, t) => (1, t)
  | (some file, t) =>
    match t.device.getFilemetadata file.itemId with
    | none => (1, t)
    | some source =>
      if result = 0 then
        let u := { t with device := t.device.setFileName source.itemId stored }
        (result, (u.removePath path).addPath (below (beforeLast '/' path) newName) file.itemId)
      else (result, t)

/-- Where `createFolder` and `sendFileFromFileDescriptor` put something; 0 is no folder. -/
def parentFolder (s : MTPStorage) (path : Text) : ℕ × MTPStorage :=
  match s.getFileFromPath haveGetChildren path with
  | (some file, t) => (if file.isFolder then file.itemId else 0, t)
  | (none, t) => (0, t)

/-- The device answers with the id of the new folder, or 0, and calls it `stored`. -/
def createFolder (s : MTPStorage) (path : Text) (folderId : ℕ) (stored : FileName) :
    Option (ℤ × MTPStorage) :=
  let pathItems : List FileName := names path
  if pathItems = [] then some (0, s)
  else
    match s.getFileFromPath haveGetChildren path with
    | (some file, t) => some (if file.isFolder then -1 else -2, t)
    | (none, t) =>
      let (parentId, u) :=
        if pathItems.length = 1 then (filesAndFoldersRoot, t)
        else t.parentFolder haveGetChildren (beforeLast '/' path)
      if parentId = 0 ∨ folderId = 0 then some (0, u)
      else if h : u.device.MayAdd ⟨folderId, parentId, stored, true⟩ then
        let v := { u with device := u.device.add _ h }
        some (folderId, v.addPath path folderId)
      else none

/-- What is sent later: a file of that name into that folder. -/
structure Sending where
  parentId : ℕ
  filename : FileName

def sendFileFromFileDescriptor (s : MTPStorage) (destinationPath : Text) :
    (ℤ × Option Sending) × MTPStorage :=
  let destItems : List FileName := names destinationPath
  match destItems.getLast? with
  | none => ((1, none), s)
  | some filename =>
    let folder := destItems.dropLast
    if folder = [] then ((0, some ⟨filesAndFoldersRoot, filename⟩), s)
    else
      match s.parentFolder haveGetChildren (convertToPath folder folder.length) with
      | (0, t) => ((2, none), t)
      | (parentId, t) => ((0, some ⟨parentId, filename⟩), t)

/-- The device answers with `ret`; the objects in `gone` are gone then. -/
def deleteObject (s : MTPStorage) (path : Text) (gone : List ℕ) (ret : ℤ) :
    Option (ℤ × MTPStorage) :=
  let (file, t) := s.getFileFromPath haveGetChildren path
  if t.device.MayRemove ((file.map KMTPFile.itemId).getD 0) gone ret then
    let u := { t with device := t.device.remove gone }
    some (ret, if ret = 0 then u.removePath path else u)
  else none

end Lookup

/-! What a lookup does to the cache. -/

/-- The cache still counts on the entry. -/
def Live (s : MTPStorage) (item : Entry) : Prop := s.now < item.expires

instance (s : MTPStorage) (item : Entry) : Decidable (s.Live item) :=
  inferInstanceAs (Decidable (_ < _))

/-- The entry is right, if there is still such an object. -/
def Right (dev : Device) (item : Entry) : Prop :=
  ∀ file, dev.find item.itemId = some file → dev.At item.itemId (names item.path)

def Sound (s : MTPStorage) : Prop := ∀ item ∈ s.m_cache, s.Live item → Right s.device item

/-- Between two states only the cache changes, and what is new in it is right and has a key in
`P`. An entry that was there may be kept for longer. -/
structure Adds (P : Text → Prop) (s t : MTPStorage) : Prop where
  now : t.now = s.now
  device : t.device = s.device
  cached : ∀ item ∈ t.m_cache, t.Live item →
    (∃ old ∈ s.m_cache, s.Live old ∧ old.path = item.path ∧ old.itemId = item.itemId) ∨
    (P item.path ∧ (∃ file, s.device.find item.itemId = some file) ∧
      s.device.At item.itemId (names item.path))

variable {P : Text → Prop} {s t u : MTPStorage} {path : Text} {q : List FileName} {id : ℕ}

lemma Adds.refl (P : Text → Prop) (s : MTPStorage) : Adds P s s :=
  ⟨rfl, rfl, fun item hitem hlive => Or.inl ⟨item, hitem, hlive, rfl, rfl⟩⟩

lemma Adds.trans (h : Adds P s t) (h' : Adds P t u) : Adds P s u := by
  refine ⟨h'.now.trans h.now, h'.device.trans h.device, fun item hitem hlive => ?_⟩
  rcases h'.cached item hitem hlive with ⟨old, hold, hlive', hpath, hid⟩ | hnew
  · have hcached := h.cached old hold hlive'
    rwa [hpath, hid] at hcached
  · rw [h.device] at hnew
    exact Or.inr hnew

lemma Adds.sound (h : Adds P s t) (hs : s.Sound) : t.Sound := by
  intro item hitem hlive
  rw [h.device]
  rcases h.cached item hitem hlive with ⟨old, hold, hlive', hpath, hid⟩ | ⟨_, _, hat⟩
  · have hright := hs old hold hlive'
    rwa [Right, hpath, hid] at hright
  · exact fun _ _ => hat

lemma removePath_adds (P : Text → Prop) (s : MTPStorage) (path : Text) :
    Adds P s (s.removePath path) :=
  ⟨rfl, rfl, fun item hitem hlive =>
    Or.inl ⟨item, List.mem_of_mem_filter hitem, hlive, rfl, rfl⟩⟩

lemma addPath_adds {file : KMTPFile} (hP : P path) (hfile : s.device.find id = some file)
    (hat : s.device.At id (names path)) : Adds P s (s.addPath path id) := by
  refine ⟨rfl, rfl, fun item hitem hlive => ?_⟩
  rcases List.mem_cons.mp hitem with rfl | hitem
  · exact Or.inr ⟨hP, ⟨file, hfile⟩, hat⟩
  · exact Or.inl ⟨item, List.mem_of_mem_filter hitem, hlive, rfl, rfl⟩

lemma queryPath_spec (P : Text → Prop) (s : MTPStorage) (path : Text) :
    Adds P s (s.queryPath path).2 ∧ ∀ id, (s.queryPath path).1 = some id →
      ∃ item ∈ s.m_cache, s.Live item ∧ item.path = path ∧ item.itemId = id := by
  unfold queryPath
  split
  · exact ⟨Adds.refl P s, fun id h => nomatch h⟩
  · rename_i item hfind
    have hmem : item ∈ s.m_cache := List.mem_of_find?_eq_some hfind
    have hpath : item.path = path := by simpa using List.find?_some hfind
    split
    · exact ⟨Adds.refl P s, fun id h => nomatch h⟩
    · split
      · rename_i hlive
        constructor
        · refine ⟨rfl, rfl, fun new hnew hlive' => Or.inl ?_⟩
          rcases List.mem_cons.mp hnew with rfl | hnew
          · exact ⟨item, hmem, hlive, hpath, rfl⟩
          · exact ⟨new, List.mem_of_mem_filter hnew, hlive', rfl, rfl⟩
        · rintro id h
          exact ⟨item, hmem, hlive, hpath, Option.some.inj h⟩
      · exact ⟨removePath_adds P s path, fun id h => nomatch h⟩

/-- A folder is at the path, and the keys of what lies in it may be added. -/
structure Folder (P : Text → Prop) (s : MTPStorage) (path : Text) (id : ℕ) : Prop where
  located : s.device.At id (names path)
  keys : ∀ n : FileName, P (below path n.text)

lemma Folder.adds (h : Folder P s path id) (ha : Adds P s t) : Folder P t path id :=
  ⟨ha.device ▸ h.located, h.keys⟩

structure Child (dev : Device) (id : ℕ) (file : KMTPFile) : Prop where
  mem : file ∈ dev.objects
  parent : file.parentId = id

lemma Child.at {dev : Device} {file : KMTPFile} (h : Child dev id file) (hat : dev.At id q) :
    dev.At file.itemId (q ++ [file.filename]) :=
  Device.At.child h.mem (h.parent ▸ hat)

lemma addFile_adds {file : KMTPFile} (h : Folder P s path id) (hfile : Child s.device id file) :
    Adds P s (addFile path s file) := by
  apply addPath_adds (h.keys file.filename) (Device.find_itemId hfile.mem)
  rw [names_below]
  exact hfile.at h.located

lemma foldl_addFile_adds {files : List KMTPFile} (h : Folder P s path id)
    (hfiles : ∀ file ∈ files, Child s.device id file) :
    Adds P s (files.foldl (addFile path) s) := by
  induction files generalizing s with
  | nil => exact Adds.refl P s
  | cons file files ih =>
    have ha := addFile_adds h (hfiles file (by simp))
    refine ha.trans (ih (h.adds ha) fun f hf => ?_)
    rw [ha.device]
    exact hfiles f (by simp [hf])

lemma getFilesAndFoldersCached_spec (h : Folder P s path id) :
    Adds P s (s.getFilesAndFoldersCached path id).2 ∧
    ∀ file ∈ (s.getFilesAndFoldersCached path id).1, Child s.device id file := by
  have hfiles : ∀ file ∈ s.device.getFilesAndFolders id, Child s.device id file := by
    intro file hfile
    obtain ⟨hmem, hparent⟩ := Device.mem_getFilesAndFolders hfile
    exact ⟨hmem, hparent⟩
  exact ⟨foldl_addFile_adds h hfiles, hfiles⟩

lemma searchChildren_spec {needle : FileName} {children : List ℕ} (h : Folder P s path id)
    (hchildren : ∀ child ∈ children, ∀ file, s.device.find child = some file →
      Child s.device id file) :
    Adds P s (s.searchChildren needle path children).2 ∧
    ∀ file, (s.searchChildren needle path children).1 = some file →
      Child s.device id file ∧ file.filename = needle := by
  induction children generalizing s with
  | nil => exact ⟨Adds.refl P s, fun file hfile => nomatch hfile⟩
  | cons child children ih =>
    unfold searchChildren
    split
    · exact ih h fun c hc => hchildren c (by simp [hc])
    · rename_i file hfile
      have hchild := hchildren child (by simp) file (Device.find_of_getFilemetadata hfile)
      have ha := addFile_adds h hchild
      split
      · rename_i hname
        refine ⟨ha, fun f hf => ?_⟩
        obtain rfl := Option.some.inj hf
        exact ⟨hchild, hname⟩
      · have hrest : ∀ c ∈ children, ∀ f, (addFile path s file).device.find c = some f →
            Child (addFile path s file).device id f := by
          rw [ha.device]
          exact fun c hc => hchildren c (by simp [hc])
        obtain ⟨hadds, hfound⟩ := ih (h.adds ha) hrest
        rw [ha.device] at hfound
        exact ⟨ha.trans hadds, hfound⟩

section Lookup

variable (haveGetChildren : Bool)

lemma findEntry_spec (needle : FileName) (h : Folder P s path id) :
    Adds P s (s.findEntry haveGetChildren needle path id).2 ∧
    ∀ file, (s.findEntry haveGetChildren needle path id).1 = some file →
      Child s.device id file ∧ file.filename = needle := by
  unfold findEntry
  split
  · split
    · exact ⟨Adds.refl P s, fun file hfile => nomatch hfile⟩
    · rename_i children hchildren
      apply searchChildren_spec h
      intro child hchild file hfile
      exact ⟨(Device.find_mem hfile).1, Device.parent_of_getChildren hchildren hchild hfile⟩
  · obtain ⟨hadds, hfiles⟩ := getFilesAndFoldersCached_spec h
    refine ⟨hadds, fun file hfile => ⟨hfiles file (List.mem_of_find?_eq_some hfile), ?_⟩⟩
    simpa using List.find?_some hfile

/-- The keys that a lookup of a path may add: what lies in the folders on the way. -/
def OnTheWay (path : List FileName) (key : Text) : Prop :=
  ∃ q n, q <+: path ∧ q ≠ path ∧ key = joined (q ++ [n])

lemma onTheWay_folder {path : List FileName} {element : FileName} {elements : List FileName}
    (h : q ++ element :: elements = path) (hat : s.device.At id q) :
    Folder (OnTheWay path) s (joined q) id := by
  constructor
  · rwa [names_joined]
  · intro n
    refine ⟨q, n, ⟨_, h⟩, ?_, (joined_concat_eq q n).symm⟩
    rintro rfl
    simp at h

structure Found (dev : Device) (path : List FileName) (file : KMTPFile) : Prop where
  mem : file ∈ dev.objects
  located : dev.At file.itemId path

lemma traverse_spec {path elements : List FileName} (h : q ++ elements = path)
    (hat : s.device.At id q) :
    Adds (OnTheWay path) s (s.traverse haveGetChildren (joined q) id elements).2 ∧
    ∀ file, (s.traverse haveGetChildren (joined q) id elements).1 = some file →
      Found s.device path file := by
  induction elements generalizing s q id with
  | nil =>
    obtain rfl : q = path := by simpa using h
    refine ⟨Adds.refl _ s, fun file hfile => ?_⟩
    obtain ⟨hmem, rfl⟩ := Device.find_mem (Device.find_of_getFilemetadata hfile)
    exact ⟨hmem, hat⟩
  | cons element elements ih =>
    obtain ⟨hadds, hfound⟩ :=
      findEntry_spec haveGetChildren element (onTheWay_folder h hat)
    unfold traverse
    split
    · rename_i t heq
      rw [heq] at hadds
      exact ⟨hadds, fun file hfile => nomatch hfile⟩
    · rename_i child t heq
      rw [heq] at hadds hfound
      obtain ⟨hchild, rfl⟩ := hfound child rfl
      have hnext : t.device.At child.itemId (q ++ [child.filename]) :=
        hadds.device ▸ hchild.at hat
      obtain ⟨hrest, hfile⟩ := ih (by simpa using h) hnext
      rw [hadds.device] at hfile
      rw [← joined_concat_eq]
      exact ⟨hadds.trans hrest, hfile⟩

lemma Sound.located {file : KMTPFile} {item : Entry} (hs : s.Sound) (hitem : item ∈ s.m_cache)
    (hlive : s.Live item) (hfile : s.device.getFilemetadata item.itemId = some file) :
    Found s.device (names item.path) file := by
  have hfind := Device.find_of_getFilemetadata hfile
  obtain ⟨hmem, hid⟩ := Device.find_mem hfind
  refine ⟨hmem, ?_⟩
  rw [hid]
  exact hs item hitem hlive file hfind

lemma findInParent_spec {path : List FileName} (hs : s.Sound) (hne : path ≠ []) :
    Adds (OnTheWay path) s (s.findInParent path).2 ∧
    ∀ file, (s.findInParent path).1 = some file → Found s.device path file := by
  have hparent : convertToPath path (path.length - 1) = joined path.dropLast := by
    rw [convertToPath, List.dropLast_eq_take]
  unfold findInParent
  rw [hparent]
  obtain ⟨hadds, hquery⟩ := queryPath_spec (OnTheWay path) s (joined path.dropLast)
  dsimp only
  split
  · rename_i t heq
    rw [heq] at hadds
    exact ⟨hadds, fun file hfile => nomatch hfile⟩
  · rename_i id t heq
    rw [heq] at hadds hquery
    split
    · exact ⟨hadds, fun file hfile => nomatch hfile⟩
    · rename_i parent hmeta
      obtain ⟨item, hitem, hlive, hpath, rfl⟩ := hquery id rfl
      rw [hadds.device] at hmeta
      obtain ⟨hmem, hat⟩ := hs.located hitem hlive hmeta
      rw [hpath, names_joined] at hat
      have hid := (Device.find_mem (Device.find_of_getFilemetadata hmeta)).2
      have hfolder : Folder (OnTheWay path) t (joined path.dropLast) item.itemId := by
        apply onTheWay_folder (List.dropLast_append_getLast hne)
        rwa [hadds.device, ← hid]
      obtain ⟨hlist, hfiles⟩ := getFilesAndFoldersCached_spec hfolder
      refine ⟨hadds.trans hlist, fun file hfile => ?_⟩
      have hchild := hfiles file (List.mem_of_find?_eq_some hfile)
      have hname : some file.filename = path.getLast? := by
        simpa using List.find?_some hfile
      rw [List.getLast?_eq_some_getLast hne, Option.some.injEq] at hname
      rw [hadds.device] at hchild
      refine ⟨hchild.mem, ?_⟩
      have hlast := hchild.at (hid ▸ hat)
      rwa [hname, List.dropLast_append_getLast hne] at hlast

theorem getFileFromPath_spec (hs : s.Sound) (path : Text) :
    Adds (OnTheWay (names path)) s (s.getFileFromPath haveGetChildren path).2 ∧
    ∀ file, (s.getFileFromPath haveGetChildren path).1 = some file →
      Found s.device (names path) file := by
  have hwalk : ∀ t, Adds (OnTheWay (names path)) s t →
      Adds (OnTheWay (names path)) s
        (t.traverse haveGetChildren [] filesAndFoldersRoot (names path)).2 ∧
      ∀ file, (t.traverse haveGetChildren [] filesAndFoldersRoot (names path)).1 = some file →
        Found s.device (names path) file := by
    intro t ht
    obtain ⟨hadds, hfound⟩ := traverse_spec haveGetChildren (s := t) (q := [])
      (List.nil_append (names path)) Tree.At.root
    rw [ht.device] at hfound
    exact ⟨ht.trans hadds, hfound⟩
  unfold getFileFromPath
  dsimp only
  split
  · rename_i hnil
    have h := hwalk s (Adds.refl _ s)
    rwa [hnil] at h ⊢
  · rename_i hne
    obtain ⟨hadds, hquery⟩ := queryPath_spec (OnTheWay (names path)) s path
    split
    · rename_i id t heq
      rw [heq] at hadds hquery
      split
      · rename_i file hmeta
        refine ⟨hadds, fun f hf => ?_⟩
        obtain rfl := Option.some.inj hf
        obtain ⟨item, hitem, hlive, hpath, rfl⟩ := hquery id rfl
        rw [hadds.device] at hmeta
        exact hpath ▸ hs.located hitem hlive hmeta
      · exact hwalk t hadds
    · rename_i t heq
      rw [heq] at hadds
      split
      · obtain ⟨hparent, hfound⟩ := findInParent_spec (hadds.sound hs) hne
        split
        · rename_i file u heq'
          rw [heq'] at hparent hfound
          rw [hadds.device] at hfound
          exact ⟨hadds.trans hparent, hfound⟩
        · rename_i u heq'
          rw [heq'] at hparent
          exact hwalk u (hadds.trans hparent)
      · exact hwalk t hadds

/-! What the operations do. -/

lemma Adds.mono {Q : Text → Prop} (h : Adds P s t) (hPQ : ∀ key, P key → Q key) : Adds Q s t :=
  ⟨h.now, h.device, fun item hitem hlive =>
    (h.cached item hitem hlive).imp_right fun hnew => ⟨hPQ _ hnew.1, hnew.2⟩⟩

/-- Whatever is new in the cache is right. -/
abbrev Looked (s t : MTPStorage) : Prop := Adds (fun _ => True) s t

lemma getFileFromPath_looked (hs : s.Sound) (path : Text) :
    Looked s (s.getFileFromPath haveGetChildren path).2 :=
  (getFileFromPath_spec haveGetChildren hs path).1.mono fun _ _ => trivial

lemma folder_of_at (hat : s.device.At id (names path)) : Folder (fun _ => True) s path id :=
  ⟨hat, fun _ => trivial⟩

lemma at_root {dev : Device} (h : path = [] ∨ path = ['/']) :
    dev.At filesAndFoldersRoot (names path) := by
  rcases h with rfl | rfl <;> exact Tree.At.root

lemma getFilesAndFolders_looked (hs : s.Sound) (path : Text) :
    Looked s (s.getFilesAndFolders haveGetChildren path).2 := by
  unfold getFilesAndFolders
  split
  · rename_i hroot
    exact (getFilesAndFoldersCached_spec (folder_of_at (at_root hroot))).1
  · have hlook := getFileFromPath_looked haveGetChildren hs path
    have hfound := (getFileFromPath_spec haveGetChildren hs path).2
    split
    · rename_i t heq
      rwa [heq] at hlook
    · rename_i file t heq
      rw [heq] at hlook hfound
      split
      · have hat : t.device.At file.itemId (names path) :=
          hlook.device ▸ (hfound file rfl).located
        exact hlook.trans (getFilesAndFoldersCached_spec (folder_of_at hat)).1
      · exact hlook

lemma getFilesAndFolders2_spec (hs : s.Sound) (path : Text) :
    Looked s (s.getFilesAndFolders2 haveGetChildren path).2 ∧
    ∀ ids, (s.getFilesAndFolders2 haveGetChildren path).1 = some ids →
      ∃ parent, s.device.At parent (names path) ∧ s.device.getChildren parent = some ids := by
  unfold getFilesAndFolders2
  split
  · rename_i hroot
    exact ⟨Adds.refl _ s, fun ids hids => ⟨_, at_root hroot, hids⟩⟩
  · have hlook := getFileFromPath_looked haveGetChildren hs path
    have hfound := (getFileFromPath_spec haveGetChildren hs path).2
    split
    · rename_i t heq
      rw [heq] at hlook
      exact ⟨hlook, fun ids hids => nomatch hids⟩
    · rename_i file t heq
      rw [heq] at hlook hfound
      split
      · refine ⟨hlook, fun ids hids => ?_⟩
        rw [hlook.device] at hids
        exact ⟨file.itemId, (hfound file rfl).located, hids⟩
      · exact ⟨hlook, fun ids hids => nomatch hids⟩

lemma parentFolder_spec (hs : s.Sound) (path : Text) :
    Looked s (s.parentFolder haveGetChildren path).2 ∧
    ((s.parentFolder haveGetChildren path).1 ≠ 0 →
      s.device.At (s.parentFolder haveGetChildren path).1 (names path)) := by
  have hlook := getFileFromPath_looked haveGetChildren hs path
  have hfound := (getFileFromPath_spec haveGetChildren hs path).2
  unfold parentFolder
  split
  · rename_i file t heq
    rw [heq] at hlook hfound
    refine ⟨hlook, fun hne => ?_⟩
    dsimp only at hne ⊢
    split at hne
    · rename_i hfolder
      rw [if_pos hfolder]
      exact (hfound file rfl).located
    · exact absurd rfl hne
  · rename_i t heq
    rw [heq] at hlook
    exact ⟨hlook, fun hne => absurd rfl hne⟩

lemma sendFileFromFileDescriptor_looked (hs : s.Sound) (path : Text) :
    Looked s (s.sendFileFromFileDescriptor haveGetChildren path).2 := by
  unfold sendFileFromFileDescriptor
  dsimp only
  split
  · exact Adds.refl _ s
  · split
    · exact Adds.refl _ s
    · have hlook := fun folder => (parentFolder_spec haveGetChildren hs folder).1
      split
      · rename_i t heq
        exact (congrArg Prod.snd heq) ▸ hlook _
      · rename_i parentId t _ heq
        exact (congrArg Prod.snd heq) ▸ hlook _

/-- A rename is a lookup, and after a success the change of the found object with the change of
the one entry. -/
lemma setFileName_cases (hs : s.Sound) (path newName : Text) (result : ℤ) (stored : FileName) :
    Looked s (s.setFileName haveGetChildren path newName result stored).2 ∨
    result = 0 ∧ ∃ t file, Adds (OnTheWay (names path)) s t ∧
      Found s.device (names path) file ∧
      (s.setFileName haveGetChildren path newName result stored).2 =
        (({ t with device := s.device.setFileName file.itemId stored } : MTPStorage).removePath
          path).addPath (below (beforeLast '/' path) newName) file.itemId := by
  have hlook := getFileFromPath_looked haveGetChildren hs path
  obtain ⟨hadds, hfound⟩ := getFileFromPath_spec haveGetChildren hs path
  unfold setFileName
  split
  · rename_i t heq
    rw [heq] at hlook
    exact Or.inl hlook
  · rename_i file t heq
    rw [heq] at hlook hadds hfound
    split
    · exact Or.inl hlook
    · rename_i source hsource
      dsimp only
      split
      · rename_i hresult
        have hid := (Device.find_mem (Device.find_of_getFilemetadata hsource)).2
        exact Or.inr ⟨hresult, t, file, hadds, hfound file rfl, by rw [hid, hadds.device]⟩
      · exact Or.inl hlook

lemma createFolder_cases (hs : s.Sound) {path : Text} {folderId : ℕ} {stored : FileName}
    {r : ℤ × MTPStorage} (h : s.createFolder haveGetChildren path folderId stored = some r) :
    Looked s r.2 ∨
    folderId ≠ 0 ∧ ∃ t parentId, Looked s t ∧
      (path.getLast? ≠ some '/' → s.device.At parentId (names path).dropLast) ∧
      ∃ hmay : s.device.MayAdd ⟨folderId, parentId, stored, true⟩,
        r.2 = ({ t with device := s.device.add _ hmay } : MTPStorage).addPath path folderId := by
  have hlook := getFileFromPath_looked haveGetChildren hs path
  unfold createFolder at h
  dsimp only at h
  split at h
  · obtain rfl := Option.some.inj h
    exact Or.inl (Adds.refl _ s)
  · split at h
    · rename_i file t heq
      rw [heq] at hlook
      obtain rfl := Option.some.inj h
      exact Or.inl hlook
    · rename_i t heq
      rw [heq] at hlook
      have hparent : ∃ u parentId, (if (names path : List FileName).length = 1
            then (filesAndFoldersRoot, t)
            else t.parentFolder haveGetChildren (beforeLast '/' path)) = (parentId, u) ∧
          Looked s u ∧ (parentId ≠ 0 → path.getLast? ≠ some '/' →
            s.device.At parentId (names path).dropLast) := by
        split
        · rename_i hone
          refine ⟨t, _, rfl, hlook, fun _ _ => ?_⟩
          obtain ⟨n, hn⟩ := List.length_eq_one_iff.mp hone
          rw [hn]
          exact Tree.At.root
        · obtain ⟨hadds, hat⟩ :=
            parentFolder_spec haveGetChildren (hlook.sound hs) (beforeLast '/' path)
          refine ⟨_, _, rfl, hlook.trans hadds, fun hne hlast => ?_⟩
          rw [← names_beforeLast hlast, ← hlook.device]
          exact hat hne
      obtain ⟨u, parentId, hpair, hlook', hat⟩ := hparent
      rw [hpair] at h
      dsimp only at h
      split at h
      · obtain rfl := Option.some.inj h
        exact Or.inl hlook'
      · rename_i hne
        obtain ⟨hparentId, hfolder⟩ := not_or.mp hne
        split at h
        · rename_i hmay
          obtain rfl := Option.some.inj h
          have hdev := hlook'.device
          refine Or.inr ⟨hfolder, u, parentId, hlook', hat hparentId, hdev ▸ hmay, ?_⟩
          simp only [hdev]
        · cases h

lemma deleteObject_cases (hs : s.Sound) {path : Text} {gone : List ℕ} {ret : ℤ}
    {r : ℤ × MTPStorage} (h : s.deleteObject haveGetChildren path gone ret = some r) :
    ∃ t file, Looked s t ∧ (∀ f, file = some f → Found s.device (names path) f) ∧
      s.device.MayRemove ((file.map KMTPFile.itemId).getD 0) gone ret ∧
      r.2 = if ret = 0 then ({ t with device := s.device.remove gone } : MTPStorage).removePath path
        else { t with device := s.device.remove gone } := by
  have hlook := getFileFromPath_looked haveGetChildren hs path
  have hfound := (getFileFromPath_spec haveGetChildren hs path).2
  unfold deleteObject at h
  dsimp only at h
  split at h
  · rename_i hmay
    obtain rfl := Option.some.inj h
    rw [hlook.device] at hmay
    exact ⟨_, _, hlook, hfound, hmay, by rw [hlook.device]⟩
  · cases h

end Lookup

/-! What keeps the live entries right. -/

/-- No live entry of an object that is there has the id. -/
def Unused (s : MTPStorage) (id : ℕ) : Prop := ∀ item ∈ s.m_cache, s.Live item → item.itemId ≠ id

instance (s : MTPStorage) (id : ℕ) : Decidable (s.Unused id) :=
  inferInstanceAs (Decidable (∀ _ ∈ _, _))

/-- The path is the only one at or below it with a live entry of an object that is there. -/
def Alone (s : MTPStorage) (path : Text) : Prop :=
  ∀ item ∈ s.m_cache, s.Live item → (s.device.find item.itemId).isSome →
    (names path : List FileName) <+: names item.path → item.path = path

instance (s : MTPStorage) (path : Text) : Decidable (s.Alone path) :=
  inferInstanceAs (Decidable (∀ _ ∈ _, _))

lemma Unused.of_looked (h : s.Unused id) (hadds : Adds P s t) (hnew : s.device.find id = none) :
    t.Unused id := by
  intro item hitem hlive heq
  rcases hadds.cached item hitem hlive with ⟨old, hold, hlive', _, hid⟩ | ⟨_, ⟨file, hfile⟩, _⟩
  · exact h old hold hlive' (hid.trans heq)
  · rw [heq, hnew] at hfile
    cases hfile

lemma Alone.of_looked (h : s.Alone path) (hplain : path = joined (names path : List FileName))
    (hadds : Adds (OnTheWay (names path)) s t) : t.Alone path := by
  intro item hitem hlive hsome hpre
  rw [hadds.device] at hsome
  rcases hadds.cached item hitem hlive with
    ⟨old, hold, hlive', hpath, hid⟩ | ⟨⟨q, n, hq, hne, hkey⟩, _⟩
  · rw [← hpath] at hpre ⊢
    rw [← hid] at hsome
    exact h old hold hlive' hsome hpre
  · rw [hkey, names_joined] at hpre
    have hlt : q.length < (names path : List FileName).length := by
      by_contra hle
      exact hne (hq.eq_of_length_le (by omega))
    have heq : (names path : List FileName) = q ++ [n] := by
      apply hpre.eq_of_length_le
      rw [List.length_append, List.length_singleton]
      omega
    rw [hkey, ← heq]
    exact hplain.symm

lemma Sound.addPath (hs : s.Sound) (hat : s.device.At id (names path)) :
    (s.addPath path id).Sound := by
  intro item hitem hlive
  rcases List.mem_cons.mp hitem with rfl | hitem
  · exact fun _ _ => hat
  · exact hs item (List.mem_of_mem_filter hitem) hlive

lemma Sound.removePath (hs : s.Sound) (path : Text) : (s.removePath path).Sound :=
  (removePath_adds (fun _ => True) s path).sound hs

lemma Sound.remove {gone : List ℕ} {target : ℕ} {ret : ℤ} (hs : s.Sound)
    (hmay : s.device.MayRemove target gone ret) :
    ({ s with device := s.device.remove gone } : MTPStorage).Sound := by
  intro item hitem hlive file hfile
  obtain ⟨hid, hfind⟩ := Device.find_of_remove hfile
  exact Device.At.remove (hs item hitem hlive file hfind) hid hmay

lemma Sound.add {file : KMTPFile} (hs : s.Sound) (hmay : s.device.MayAdd file)
    (hunused : s.Unused file.itemId) :
    ({ s with device := s.device.add file hmay } : MTPStorage).Sound := by
  intro item hitem hlive f hf
  have hfind : s.device.find item.itemId = some f :=
    (Device.find_add hmay (hunused item hitem hlive)).symm.trans hf
  exact Device.At.add (hs item hitem hlive f hfind) hmay

lemma Sound.rename {file : KMTPFile} (name : FileName) (hs : s.Sound) (halone : s.Alone path)
    (hfile : Found s.device (names path) file) :
    (({ s with device := s.device.setFileName file.itemId name } : MTPStorage).removePath
      path).Sound := by
  intro item hitem hlive f hf
  obtain ⟨hmem, hne⟩ := List.mem_filter.mp hitem
  have hold : (s.device.find item.itemId).isSome := by
    have hmap := (Device.find_setFileName _ _ _ _).symm.trans hf
    obtain ⟨g, hg, _⟩ := Option.map_eq_some_iff.mp hmap
    rw [hg]
    rfl
  obtain ⟨g, hg⟩ := Option.isSome_iff_exists.mp hold
  apply Device.At.setFileName (hs item hmem hlive g hg) hfile.located
  intro hpre
  simp [halone item hmem hlive hold hpre] at hne

end MTPStorage

end KioExtras.Mtp.PathCache
