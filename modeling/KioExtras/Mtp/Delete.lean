import KioExtras.Mtp.Addresses
import KioExtras.Mtp.PathCache
import Mathlib.Data.List.DropRight
import Mathlib.Data.List.SplitBy

/-!
Deletions. What is looked up and not found is a file like any other, with the id 0, and nobody
looks at it before the device is asked to delete the object with that id.
-/

namespace KioExtras.Mtp.PathCache

open KioExtras.Lib.Paths KioExtras.Lib

/-! ### What a path comes to -/

namespace Device

variable (dev : Device)

/-- The first file of the name among those in a folder that the device tells of. -/
def child (id : ℕ) (name : FileName) : Option KMTPFile :=
  if id ∈ dev.silent then none
  else (dev.inFolder id).find? fun file => file.itemId ∉ dev.silent ∧ file.filename = name

def walk (id : ℕ) : List FileName → Option KMTPFile
  | [] => dev.getFilemetadata id
  | name :: path => (dev.child id name).bind fun file => walk file.itemId path

end Device

namespace MTPStorage

/-- The object of a path, as long as the cache counts on it. -/
def cached (s : MTPStorage) (path : Text) : Option ℕ :=
  (s.m_cache.find? fun item => item.path = path).bind fun item =>
    if item.itemId ≠ 0 ∧ s.now < item.expires then some item.itemId else none

def besides (s : MTPStorage) (pathItems : List FileName) : Option KMTPFile :=
  if 1 < pathItems.length then do
    let parentId ← s.cached (joined pathItems.dropLast)
    let _ ← s.device.getFilemetadata parentId
    let name ← pathItems.getLast?
    s.device.child parentId name
  else none

/-- What a path is taken for: what the cache says if the device knows it, and what is found from
the root on otherwise. The folder in the cache counts only where the path itself is not there. -/
def shown (s : MTPStorage) (path : Text) : Option KMTPFile :=
  let pathItems := names path
  let near := if pathItems = [] then none else
    match s.cached path with
    | some itemId => s.device.getFilemetadata itemId
    | none => s.besides pathItems
  near <|> s.device.walk filesAndFoldersRoot pathItems

variable {s : MTPStorage}

/-! A look-up changes nothing but the cache. -/

lemma foldl_addFile_device (path : Text) (files : List KMTPFile) (s : MTPStorage) :
    (files.foldl (addFile path) s).device = s.device := by
  induction files generalizing s with
  | nil => rfl
  | cons file files ih => exact ih (addFile path s file)

lemma searchChildren_device (needle : FileName) (path : Text) (children : List ℕ)
    (s : MTPStorage) : (s.searchChildren needle path children).2.device = s.device := by
  induction children generalizing s with
  | nil => rfl
  | cons child children ih =>
    unfold searchChildren
    split
    · exact ih s
    · rename_i file hfile
      dsimp only
      split
      · rfl
      · exact ih (addFile path s file)

lemma queryPath_cached (s : MTPStorage) (path : Text) :
    (s.queryPath path).1 = s.cached path ∧ (s.queryPath path).2.device = s.device := by
  unfold queryPath cached
  split
  · rename_i hfind
    simp [hfind]
  · rename_i item hfind
    simp only [hfind, Option.bind_some]
    by_cases hzero : item.itemId = 0
    · simp [hzero]
    · by_cases hlive : s.now < item.expires
      · simp [hzero, hlive, addPath]
      · simp [hzero, hlive, removePath]

lemma removePath_cached (s : MTPStorage) {path key : Text} (h : key ≠ path) :
    (s.removePath path).cached key = s.cached key := by
  unfold cached removePath
  dsimp only
  rw [List.find?_filter]
  congr 2
  ext item
  by_cases hkey : item.path = key
  · simp [hkey, h]
  · simp [hkey]

lemma queryPath_others (s : MTPStorage) {path key : Text} (h : key ≠ path)
    (hnone : (s.queryPath path).1 = none) : (s.queryPath path).2.cached key = s.cached key := by
  unfold queryPath at hnone ⊢
  split
  · rfl
  · rename_i item hfind
    rw [hfind] at hnone
    dsimp only at hnone
    split
    · rfl
    · rename_i hzero
      rw [if_neg hzero] at hnone
      split
      · rename_i hlive
        rw [if_pos hlive] at hnone
        cases hnone
      · exact removePath_cached s h

section Lookup

variable (haveGetChildren : Bool)

lemma searchChildren_eq (needle : FileName) (path : Text) (files : List KMTPFile)
    (s : MTPStorage) (h : ∀ file ∈ files, file ∈ s.device.objects) :
    (s.searchChildren needle path (files.map KMTPFile.itemId)).1 =
      files.find? fun file => file.itemId ∉ s.device.silent ∧ file.filename = needle := by
  induction files generalizing s with
  | nil => rfl
  | cons file files ih =>
    have hrest := fun f hf => h f (List.mem_cons_of_mem _ hf)
    have hfind := Device.find_itemId (h file List.mem_cons_self)
    rw [List.map_cons, searchChildren, List.find?_cons]
    by_cases hsilent : file.itemId ∈ s.device.silent
    · have hmeta : s.device.getFilemetadata file.itemId = none := if_pos hsilent
      simp only [hmeta, hsilent, not_true_eq_false, false_and, decide_false]
      exact ih s hrest
    · have hmeta : s.device.getFilemetadata file.itemId = some file := by
        rw [Device.getFilemetadata, if_neg hsilent, hfind]
      by_cases hname : file.filename = needle
      · simp [hmeta, hsilent, hname]
      · simp only [hmeta, hsilent, hname, not_false_iff, and_false, decide_false, if_false]
        exact ih (addFile path s file) hrest

lemma findEntry_eq (needle : FileName) (path : Text) (id : ℕ) (s : MTPStorage) :
    (s.findEntry haveGetChildren needle path id).1 = s.device.child id needle ∧
    (s.findEntry haveGetChildren needle path id).2.device = s.device := by
  unfold findEntry Device.child
  cases haveGetChildren with
  | true =>
    unfold Device.getChildren
    by_cases hsilent : id ∈ s.device.silent
    · simp [hsilent]
    · simp only [hsilent, if_true, if_false]
      refine ⟨searchChildren_eq needle path _ s ?_, searchChildren_device needle path _ s⟩
      intro file hfile
      exact (Device.mem_inFolder.mp hfile).1
  | false =>
    unfold getFilesAndFoldersCached Device.getFilesAndFolders
    refine ⟨?_, foldl_addFile_device path _ s⟩
    by_cases hsilent : id ∈ s.device.silent
    · simp [hsilent]
    · simp only [hsilent, if_false, Bool.false_eq_true, List.find?_filter]
      congr 1
      ext file
      simp

/-- **The tree walk** goes name by name. -/
lemma traverse_eq (path : Text) (id : ℕ) (elements : List FileName) (s : MTPStorage) :
    (s.traverse haveGetChildren path id elements).1 = s.device.walk id elements := by
  induction elements generalizing s path id with
  | nil => rfl
  | cons element elements ih =>
    obtain ⟨hentry, hdevice⟩ := findEntry_eq haveGetChildren element path id s
    unfold traverse
    rw [Device.walk, ← hentry]
    split
    · rename_i t heq
      rw [heq]
      rfl
    · rename_i file t heq
      rw [heq] at hdevice ⊢
      rw [ih, hdevice]
      rfl

lemma findInParent_eq (s : MTPStorage) {pathItems : List FileName} (h : 1 < pathItems.length) :
    (s.findInParent pathItems).1 = s.besides pathItems ∧
    (s.findInParent pathItems).2.device = s.device := by
  have hparent : convertToPath pathItems (pathItems.length - 1) = joined pathItems.dropLast := by
    rw [convertToPath, List.dropLast_eq_take]
  have hne : pathItems ≠ [] := by
    rintro rfl
    exact absurd h (by simp)
  obtain ⟨hcached, hdevice⟩ := queryPath_cached s (joined pathItems.dropLast)
  unfold findInParent besides
  rw [hparent, if_pos h, ← hcached]
  dsimp only
  split
  · rename_i t heq
    rw [heq] at hdevice ⊢
    exact ⟨rfl, hdevice⟩
  · rename_i parentId t heq
    rw [heq] at hdevice ⊢
    dsimp only at hdevice
    rw [hdevice]
    split
    · rename_i hmeta
      exact ⟨by simp [hmeta], hdevice⟩
    · rename_i parent hmeta
      refine ⟨?_, (foldl_addFile_device _ _ t).trans hdevice⟩
      have hlast := List.getLast?_eq_some_getLast hne
      have hfind := (findEntry_eq false (pathItems.getLast hne) (joined pathItems.dropLast)
        parentId t).1
      rw [hdevice] at hfind
      simp only [hmeta, hlast, Option.bind_eq_bind, Option.bind_some, Option.some.injEq]
      exact hfind

/-- **The look-up** finds what the path is taken for. -/
theorem getFileFromPath_eq (s : MTPStorage) (path : Text) :
    (s.getFileFromPath haveGetChildren path).1 = s.shown path := by
  obtain ⟨hcached, hdevice⟩ := queryPath_cached s path
  unfold getFileFromPath shown
  dsimp only
  split
  · rename_i hnil
    rw [hnil]
    rfl
  · rw [← hcached]
    split
    · rename_i itemId t heq
      rw [heq] at hdevice ⊢
      dsimp only at hdevice ⊢
      rw [hdevice]
      split
      · rename_i file hmeta
        rw [hmeta]
        rfl
      · rename_i hmeta
        rw [hmeta, traverse_eq, hdevice]
        rfl
    · rename_i t heq
      have hothers : ∀ key, key ≠ path → (s.queryPath path).2.cached key = s.cached key :=
        fun key h => queryPath_others s h (by rw [heq])
      rw [heq] at hdevice hothers ⊢
      dsimp only at hdevice hothers ⊢
      split
      · rename_i hlength
        obtain ⟨hbesides, hdevice'⟩ := findInParent_eq t hlength
        have hkey : joined (names path : List FileName).dropLast ≠ path := by
          intro heq'
          have hnames : (names (joined _) : List FileName) = names path := congrArg names heq'
          rw [names_joined] at hnames
          have hlength' := congrArg List.length hnames
          rw [List.length_dropLast] at hlength'
          omega
        have hsame : t.besides (names path) = s.besides (names path) := by
          unfold besides
          rw [hothers _ hkey, hdevice]
        rw [hsame] at hbesides
        rw [← hbesides]
        split
        · rename_i file u heq'
          rw [heq']
          rfl
        · rename_i u heq'
          rw [heq'] at hdevice' ⊢
          rw [traverse_eq, hdevice', hdevice]
          rfl
      · rename_i hlength
        have hnone : s.besides (names path) = none := if_neg hlength
        rw [hnone, traverse_eq, hdevice]
        rfl

end Lookup

/-- There is such an object, and it is at the path. -/
def Holds (s : MTPStorage) (id : ℕ) (path : List FileName) : Prop :=
  ∃ file ∈ s.device.objects, file.itemId = id ∧ s.device.At id path

/-- What a path is taken for is an object, and it is where it should be. -/
def LeadsTo (s : MTPStorage) (path : Text) (place : List FileName) : Prop :=
  ∃ file, s.shown path = some file ∧ s.device.At file.itemId place

lemma child_mem {dev : Device} {id : ℕ} {name : FileName} {file : KMTPFile}
    (h : dev.child id name = some file) : file ∈ dev.objects := by
  unfold Device.child at h
  split at h
  · cases h
  · exact (Device.mem_inFolder.mp (List.mem_of_find?_eq_some h)).1

lemma walk_mem {dev : Device} {id : ℕ} {path : List FileName} {file : KMTPFile}
    (h : dev.walk id path = some file) : file ∈ dev.objects := by
  induction path generalizing id with
  | nil => exact (Device.find_mem (Device.find_of_getFilemetadata h)).1
  | cons name path ih =>
    obtain ⟨folder, -, hfile⟩ := Option.bind_eq_some_iff.mp h
    exact ih hfile

lemma besides_mem {pathItems : List FileName} {file : KMTPFile}
    (h : s.besides pathItems = some file) : file ∈ s.device.objects := by
  unfold besides at h
  split at h
  · obtain ⟨parentId, -, h⟩ := Option.bind_eq_some_iff.mp h
    obtain ⟨parent, -, h⟩ := Option.bind_eq_some_iff.mp h
    obtain ⟨name, -, h⟩ := Option.bind_eq_some_iff.mp h
    exact child_mem h
  · cases h

lemma shown_mem {path : Text} {file : KMTPFile} (h : s.shown path = some file) :
    file ∈ s.device.objects := by
  unfold shown at h
  dsimp only at h
  rw [Option.orElse_eq_orElse, Option.orElse_eq_or, Option.or_eq_some_iff] at h
  rcases h with hnear | ⟨-, hfar⟩
  · split at hnear
    · cases hnear
    · split at hnear
      · exact (Device.find_mem (Device.find_of_getFilemetadata hnear)).1
      · exact besides_mem hnear
  · exact walk_mem hfar

section Deletion

variable (haveGetChildren : Bool)

/-- The id in the call of `LIBMTP_Delete_Object`: a file that was not found has the id 0. -/
def deleteRequest (s : MTPStorage) (path : Text) : ℕ :=
  ((s.getFileFromPath haveGetChildren path).1.map KMTPFile.itemId).getD 0

lemma deleteObject_refused (s : MTPStorage) (path : Text) :
    ∃ r, s.deleteObject haveGetChildren path [] (-1) = some r := by
  have hmay : ∀ (dev : Device) (id : ℕ), dev.MayRemove id [] (-1) :=
    fun dev id => ⟨by simp, fun _ => rfl, by simp, fun h => absurd h (by decide)⟩
  unfold deleteObject
  dsimp only
  rw [if_pos (hmay _ _)]
  exact ⟨_, rfl⟩

/-- **The request** is for an object at the place just if the path leads to one there. -/
lemma deleteRequest_holds_iff (s : MTPStorage) (path : Text) (place : List FileName) :
    s.Holds (s.deleteRequest haveGetChildren path) place ↔ s.LeadsTo path place := by
  unfold deleteRequest LeadsTo Holds
  rw [getFileFromPath_eq]
  cases hshown : s.shown path with
  | none =>
    constructor
    · rintro ⟨file, hfile, hid, -⟩
      exact absurd hid (s.device.proper file hfile).1
    · rintro ⟨file, hfile, -⟩
      cases hfile
  | some file =>
    constructor
    · rintro ⟨_, -, -, hat⟩
      exact ⟨file, rfl, hat⟩
    · rintro ⟨_, hfile, hat⟩
      obtain rfl := Option.some.inj hfile
      exact ⟨file, shown_mem hshown, rfl, hat⟩

end Deletion

end MTPStorage

end KioExtras.Mtp.PathCache

namespace KioExtras.Mtp.Delete

open KioExtras.Kio KioExtras.Lib.Paths
open KioExtras.Mtp.PathCache
open KioExtras.Mtp.Addresses hiding Text

/-! ### The worker -/

/-- `MTPWorker::Url`. -/
inductive UrlKind
  | Valid
  | Redirected
  | NotFound
  | Invalid

structure MtpUrl where
  scheme : Text
  path : Text

/-- What the daemon knows: the devices with their storages, and the devices that are plugged in
under a `udi`. -/
structure Kiod where
  devices : List KMTPDevice
  udis : List Text
  storage : ℕ → ℕ → MTPStorage

/-- A call of `LIBMTP_Delete_Object` for a storage of a device. -/
structure Call where
  device : ℕ
  storage : ℕ
  id : ℕ

structure Deletion where
  result : WorkerResult
  calls : List Call
  kiod : Kiod

/-- `section('/', 3, -1, QString::SectionIncludeLeadingSep)`. Empty names count here. -/
def convertPath (workerPath : Text) : Text :=
  ((workerPath.splitOn '/').drop 3).flatMap fun name => '/' :: name

def checkUrl (k : Kiod) (url : MtpUrl) : UrlKind :=
  if "udi=".toList <+: url.path then
    if k.udis.contains ((url.path.rdropWhile (· = '/')).drop 4) then .Redirected else .NotFound
  else if ['/'] <+: url.path then .Valid
  else if url.scheme = "mtp".toList ∧ url.path = [] then .Redirected
  else .Invalid

def Kiod.setStorage (k : Kiod) (i j : ℕ) (s : MTPStorage) : Kiod :=
  { k with storage := fun i' j' => if i' = i ∧ j' = j then s else k.storage i' j' }

variable (haveGetChildren : Bool)

/-- The device answers with `ret`; the objects in `gone` are gone then. -/
def del (k : Kiod) (url : MtpUrl) (gone : List ℕ) (ret : ℤ) : Option Deletion :=
  let errorText := String.ofList url.path
  match checkUrl k url with
  | .Valid =>
    match resolve k.devices url.path with
    | some (.storage i j) =>
      let storage := k.storage i j
      let path := convertPath url.path
      (storage.deleteObject haveGetChildren path gone ret).map fun (result, storage') =>
        ⟨if result = 0 then .pass else .fail .ERR_CANNOT_DELETE errorText,
          [⟨i, j, storage.deleteRequest haveGetChildren path⟩], k.setStorage i j storage'⟩
    | _ => some ⟨.fail .ERR_CANNOT_DELETE errorText, [], k⟩
  | _ => some ⟨.fail .ERR_MALFORMED_URL errorText, [], k⟩

/-! ### Only what is there is deleted -/

/-- Where the URL names something in a storage. -/
def place (url : MtpUrl) : List FileName := (pathItems url.path).drop 2

/-- The object is what the URL names. -/
def Names (k : Kiod) (url : MtpUrl) (call : Call) : Prop :=
  resolve k.devices url.path = some (.storage call.device call.storage) ∧
    (k.storage call.device call.storage).Holds call.id (place url)

/-- The device is asked to delete what the URL names and nothing else; where it names nothing, it
is not asked and the operation fails. -/
structure DeletesOnly (k : Kiod) (url : MtpUrl) (d : Deletion) : Prop where
  named : ∀ call ∈ d.calls, Names k url call
  refused : (¬ ∃ call, Names k url call) → d.calls = [] ∧ d.result.success = false

/-- The worker gets as far as a storage. -/
def Reaches (k : Kiod) (url : MtpUrl) (i j : ℕ) : Prop :=
  ['/'] <+: url.path ∧ resolve k.devices url.path = some (.storage i j)

lemma checkUrl_valid {k : Kiod} {url : MtpUrl} (h : ['/'] <+: url.path) :
    checkUrl k url = .Valid := by
  obtain ⟨rest, hrest⟩ := h
  unfold checkUrl
  rw [← hrest, if_neg, if_pos (List.prefix_append _ _)]
  rintro ⟨tail, htail⟩
  exact absurd (List.cons.inj htail).1 (by decide)

lemma del_reaches {k : Kiod} {url : MtpUrl} {i j : ℕ} (h : Reaches k url i j) (gone : List ℕ)
    (ret : ℤ) : del haveGetChildren k url gone ret =
      ((k.storage i j).deleteObject haveGetChildren (convertPath url.path) gone ret).map
        fun r => ⟨if r.1 = 0 then .pass
            else .fail .ERR_CANNOT_DELETE (String.ofList url.path),
          [⟨i, j, (k.storage i j).deleteRequest haveGetChildren (convertPath url.path)⟩],
          k.setStorage i j r.2⟩ := by
  unfold del
  rw [checkUrl_valid h.1]
  dsimp only
  rw [h.2]

lemma del_unreached {k : Kiod} {url : MtpUrl} (h : ∀ i j, ¬ Reaches k url i j) {gone : List ℕ}
    {ret : ℤ} {d : Deletion} (hd : del haveGetChildren k url gone ret = some d) :
    d.calls = [] ∧ d.result.success = false := by
  unfold del at hd
  dsimp only at hd
  split at hd
  · rename_i hvalid
    have hslash : ['/'] <+: url.path := by
      unfold checkUrl at hvalid
      split at hvalid
      · split at hvalid <;> cases hvalid
      · split at hvalid
        · assumption
        · split at hvalid <;> cases hvalid
    split at hd
    · rename_i i j hresolve
      exact absurd ⟨hslash, hresolve⟩ (h i j)
    · rw [← Option.some.inj hd]
      exact ⟨rfl, rfl⟩
  · rw [← Option.some.inj hd]
    exact ⟨rfl, rfl⟩

/-- **Deletions reach what is there** just if the path leads to an object at its place: a path
that leads nowhere has the device asked for the object 0. -/
theorem deletes_only_iff :
    (∀ (s : MTPStorage) (path : Text),
      s.Holds (s.deleteRequest haveGetChildren path) (names path) ↔ s.LeadsTo path (names path)) ∧
    ∀ (k : Kiod) (url : MtpUrl),
      (∀ gone ret d, del haveGetChildren k url gone ret = some d → DeletesOnly k url d) ↔
      ∀ i j, Reaches k url i j → (k.storage i j).LeadsTo (convertPath url.path) (place url) := by
  refine ⟨fun s path => s.deleteRequest_holds_iff haveGetChildren path (names path), ?_⟩
  intro k url
  constructor
  · intro h i j hreach
    obtain ⟨r, hr⟩ :=
      (k.storage i j).deleteObject_refused haveGetChildren (convertPath url.path)
    have hd := del_reaches haveGetChildren hreach [] (-1)
    rw [hr, Option.map_some] at hd
    have hholds := ((h _ _ _ hd).named _ (List.mem_singleton_self _)).2
    exact (MTPStorage.deleteRequest_holds_iff haveGetChildren _ _ _).mp hholds
  · intro h gone ret d hd
    by_cases hreach : ∃ i j, Reaches k url i j
    · obtain ⟨i, j, hreach⟩ := hreach
      have hholds := (MTPStorage.deleteRequest_holds_iff haveGetChildren _ _ _).mpr
        (h i j hreach)
      rw [del_reaches haveGetChildren hreach] at hd
      obtain ⟨r, hr, rfl⟩ := Option.map_eq_some_iff.mp hd
      constructor
      · intro call hcall
        rw [List.mem_singleton.mp hcall]
        exact ⟨hreach.2, hholds⟩
      · intro hnone
        exact absurd ⟨⟨i, j, _⟩, hreach.2, hholds⟩ hnone
    · have hnot : ∀ i j, ¬ Reaches k url i j := fun i j hij => hreach ⟨i, j, hij⟩
      obtain ⟨hcalls, hresult⟩ := del_unreached haveGetChildren hnot hd
      constructor
      · rw [hcalls]
        exact fun call hcall => nomatch hcall
      · exact fun _ => ⟨hcalls, hresult⟩

def emptyStorage : MTPStorage := ⟨0, [], ⟨[], [], List.nodup_nil, by simp⟩⟩

def telephone : Kiod :=
  ⟨[⟨"phone".toList, ["sd".toList]⟩], [], fun _ _ => emptyStorage⟩

def missing : MtpUrl := ⟨"mtp".toList, "/phone/sd/a".toList⟩

/-- The device is asked to delete an object for a file that does not exist. -/
theorem missing_file_asked :
    (¬ ∀ (s : MTPStorage) (path : Text), s.Holds (s.deleteRequest true path) (names path)) ∧
    ¬ ∀ (k : Kiod) (url : MtpUrl) (gone : List ℕ) (ret : ℤ) (d : Deletion),
      del true k url gone ret = some d → DeletesOnly k url d := by
  have hempty : ∀ id path, ¬ emptyStorage.Holds id path := by
    rintro id path ⟨file, hfile, -⟩
    exact absurd hfile List.not_mem_nil
  constructor
  · intro h
    exact hempty _ _ (h emptyStorage ['/', 'a'])
  · intro h
    have hcalls : ((del true telephone missing [] (-1)).map fun d => d.calls.length) = some 1 := by
      decide
    obtain ⟨d, hd, hlength⟩ := Option.map_eq_some_iff.mp hcalls
    obtain ⟨call, hcall⟩ := List.length_eq_one_iff.mp hlength
    have hnamed := (h _ _ _ _ d hd).named call (by simp [hcall])
    exact hempty _ _ hnamed.2

end KioExtras.Mtp.Delete
