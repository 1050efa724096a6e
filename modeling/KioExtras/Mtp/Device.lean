import KioExtras.Lib.Paths
import KioExtras.Lib.Tree
import Mathlib.Data.Int.Notation
import Mathlib.Data.List.Nodup

/-!
The objects on a device, as the library shows them: each has an id and lies in a folder, which is
an object too. Where an object is, and what a rename, a deletion and a new object leave as it is.
-/

namespace KioExtras.Mtp.PathCache

open KioExtras.Lib.Paths KioExtras.Lib

abbrev Text := List Char

abbrev FileName := Name '/'

def below (path name : Text) : Text := path ++ '/' :: name

@[simp] lemma names_below (path : Text) (n : FileName) :
    names (below path n.text) = names path ++ [n] :=
  names_concat path n

lemma joined_concat_eq (q : List FileName) (n : FileName) :
    joined (q ++ [n]) = below (joined q) n.text :=
  joined_concat q n

/-- `LIBMTP_file_t`, of which `KMTPFile` is a copy: what finding files needs of it. -/
structure KMTPFile where
  itemId : ℕ
  parentId : ℕ
  filename : FileName
  isFolder : Bool
  deriving DecidableEq

/-- `LIBMTP_FILES_AND_FOLDERS_ROOT`, in the place of an id. -/
def filesAndFoldersRoot : ℕ := 0xffffffff

/-! The device, as far as the library shows it. -/

/-- The objects of a storage. The device does not answer at the moment what is asked of the
objects in `silent`. -/
structure Device where
  objects : List KMTPFile
  silent : List ℕ
  nodup : (objects.map KMTPFile.itemId).Nodup
  proper : ∀ file ∈ objects, file.itemId ≠ 0 ∧ file.itemId ≠ filesAndFoldersRoot

namespace Device

variable (dev : Device)

def find (id : ℕ) : Option KMTPFile :=
  dev.objects.find? fun file => file.itemId = id

def node (id : ℕ) : Option (ℕ × FileName) :=
  (dev.find id).map fun file => (file.parentId, file.filename)

/-- The object is at the path. -/
def At (id : ℕ) (path : List FileName) : Prop :=
  Tree.At dev.node filesAndFoldersRoot id path

/-- `LIBMTP_Get_Filemetadata`. -/
def getFilemetadata (id : ℕ) : Option KMTPFile :=
  if id ∈ dev.silent then none else dev.find id

def inFolder (id : ℕ) : List KMTPFile :=
  dev.objects.filter fun file => file.parentId = id

/-- `LIBMTP_Get_Children`. -/
def getChildren (id : ℕ) : Option (List ℕ) :=
  if id ∈ dev.silent then none else some ((dev.inFolder id).map KMTPFile.itemId)

/-- `LIBMTP_Get_Files_And_Folders`. -/
def getFilesAndFolders (id : ℕ) : List KMTPFile :=
  if id ∈ dev.silent then [] else (dev.inFolder id).filter fun file => file.itemId ∉ dev.silent

def hush (ids : List ℕ) : Device := { dev with silent := ids }

/-- What `LIBMTP_Set_File_Name` does to an object, when the device calls it `name` then. -/
def renamed (id : ℕ) (name : FileName) (file : KMTPFile) : KMTPFile :=
  if file.itemId = id then { file with filename := name } else file

lemma renamed_itemId (id : ℕ) (name : FileName) (file : KMTPFile) :
    (renamed id name file).itemId = file.itemId := by
  unfold renamed
  split <;> rfl

lemma renamed_itemIds (id : ℕ) (name : FileName) (files : List KMTPFile) :
    (files.map (renamed id name)).map KMTPFile.itemId = files.map KMTPFile.itemId := by
  rw [List.map_map]
  exact List.map_congr_left fun file _ => renamed_itemId id name file

lemma proper_renamed (id : ℕ) (name : FileName) :
    ∀ file ∈ dev.objects.map (renamed id name),
      file.itemId ≠ 0 ∧ file.itemId ≠ filesAndFoldersRoot := by
  intro file hfile
  obtain ⟨file, hmem, rfl⟩ := List.mem_map.mp hfile
  rw [renamed_itemId]
  exact dev.proper file hmem

/-- `LIBMTP_Set_File_Name`. -/
def setFileName (id : ℕ) (name : FileName) : Device where
  objects := dev.objects.map (renamed id name)
  silent := dev.silent
  nodup := (renamed_itemIds id name dev.objects).symm ▸ dev.nodup
  proper := dev.proper_renamed id name

/-- `LIBMTP_Delete_Object`: the objects that are gone then. -/
def remove (gone : List ℕ) : Device where
  objects := dev.objects.filter fun file => file.itemId ∉ gone
  silent := dev.silent
  nodup := dev.nodup.sublist (List.filter_sublist.map KMTPFile.itemId)
  proper := fun file hfile => dev.proper file (List.mem_of_mem_filter hfile)

/-- What the device may answer: only what is inside the object goes, nothing stays behind in what
goes, and after a success the object is gone. -/
def MayRemove (id : ℕ) (gone : List ℕ) (ret : ℤ) : Prop :=
  (∀ x ∈ gone, Tree.inside dev.node id dev.objects.length x) ∧
  (dev.find id = none → gone = []) ∧
  (∀ file ∈ dev.objects, file.parentId ∈ gone → file.itemId ∈ gone) ∧
  (ret = 0 → dev.find id = none ∨ id ∈ gone)

instance (id : ℕ) (gone : List ℕ) (ret : ℤ) : Decidable (dev.MayRemove id gone ret) :=
  inferInstanceAs (Decidable (_ ∧ _ ∧ _ ∧ _))

/-- What may become a new object. -/
def MayAdd (file : KMTPFile) : Prop :=
  file.itemId ∉ dev.objects.map KMTPFile.itemId ∧
  (file.itemId ≠ 0 ∧ file.itemId ≠ filesAndFoldersRoot) ∧
  (file.parentId = filesAndFoldersRoot ∨ (dev.find file.parentId).isSome)

instance (file : KMTPFile) : Decidable (dev.MayAdd file) :=
  inferInstanceAs (Decidable (_ ∧ _ ∧ _))

lemma nodup_add {file : KMTPFile} (h : dev.MayAdd file) :
    ((dev.objects ++ [file]).map KMTPFile.itemId).Nodup := by
  rw [List.map_append]
  exact dev.nodup.append (List.nodup_singleton _) (by simpa using h.1)

lemma proper_add {file : KMTPFile} (h : dev.MayAdd file) :
    ∀ f ∈ dev.objects ++ [file], f.itemId ≠ 0 ∧ f.itemId ≠ filesAndFoldersRoot := by
  intro f hf
  rcases List.mem_append.mp hf with hf | hf
  · exact dev.proper f hf
  · rw [List.mem_singleton.mp hf]
    exact h.2.1

/-- `LIBMTP_Create_Folder` and `LIBMTP_Send_File_From_File_Descriptor`: the new object. -/
def add (file : KMTPFile) (h : dev.MayAdd file) : Device where
  objects := dev.objects ++ [file]
  silent := dev.silent
  nodup := dev.nodup_add h
  proper := dev.proper_add h

/-! What the device shows is true of it. -/

variable {dev} {id : ℕ} {path : List FileName} {file : KMTPFile}

lemma find_mem (h : dev.find id = some file) : file ∈ dev.objects ∧ file.itemId = id := by
  refine ⟨List.mem_of_find?_eq_some h, ?_⟩
  simpa using List.find?_some h

lemma find_itemId (h : file ∈ dev.objects) : dev.find file.itemId = some file := by
  have hsome : (dev.find file.itemId).isSome := by
    rw [find, List.find?_isSome]
    exact ⟨file, h, by simp⟩
  obtain ⟨file', hfind⟩ := Option.isSome_iff_exists.mp hsome
  obtain ⟨hmem, hid⟩ := find_mem hfind
  rw [hfind, List.inj_on_of_nodup_map dev.nodup hmem h hid]

lemma node_root : dev.node filesAndFoldersRoot = none := by
  rw [node, Option.map_eq_none_iff, find, List.find?_eq_none]
  intro file hfile
  simpa using (dev.proper file hfile).2

lemma At.child (hfile : file ∈ dev.objects) (h : dev.At file.parentId path) :
    dev.At file.itemId (path ++ [file.filename]) := by
  apply Tree.At.child _ h
  rw [node, find_itemId hfile]
  rfl

lemma find_of_getFilemetadata (h : dev.getFilemetadata id = some file) :
    dev.find id = some file := by
  unfold getFilemetadata at h
  split at h
  · cases h
  · exact h

lemma mem_inFolder : file ∈ dev.inFolder id ↔ file ∈ dev.objects ∧ file.parentId = id := by
  simp [inFolder]

lemma mem_getFilesAndFolders (h : file ∈ dev.getFilesAndFolders id) :
    file ∈ dev.objects ∧ file.parentId = id := by
  unfold getFilesAndFolders at h
  split at h
  · cases h
  · exact mem_inFolder.mp (List.mem_of_mem_filter h)

lemma parent_of_getChildren {children : List ℕ} {child : ℕ}
    (h : dev.getChildren id = some children) (hchild : child ∈ children)
    (hfile : dev.find child = some file) : file.parentId = id := by
  unfold getChildren at h
  split at h
  · cases h
  · obtain rfl := Option.some.inj h
    obtain ⟨file', hfile', rfl⟩ := List.mem_map.mp hchild
    obtain ⟨hmem, hparent⟩ := mem_inFolder.mp hfile'
    rw [find_itemId hmem] at hfile
    exact Option.some.inj hfile ▸ hparent

/-! What a change of the device leaves as it is. -/

variable {r : ℕ} {name : FileName} {pr : List FileName} {gone : List ℕ}

lemma find_setFileName (dev : Device) (r : ℕ) (name : FileName) (id : ℕ) :
    (dev.setFileName r name).find id = (dev.find id).map (renamed r name) := by
  rw [find, setFileName, List.find?_map, find]
  congr 1
  apply congrArg (List.find? · dev.objects)
  ext file
  simp [renamed_itemId]

lemma node_setFileName (h : id ≠ r) : (dev.setFileName r name).node id = dev.node id := by
  rw [node, find_setFileName, Option.map_map, node]
  apply Option.map_congr
  intro file hfile
  rw [Function.comp_apply, renamed, if_neg]
  rwa [(find_mem hfile).2]

lemma At.setFileName (h : dev.At id path) (hr : dev.At r pr) (hpre : ¬ pr <+: path) :
    (dev.setFileName r name).At id path :=
  Tree.At.frame_ne node_root h hr hpre fun _ hne => node_setFileName hne

lemma At.setFileName_self (name : FileName) (hfile : file ∈ dev.objects) (h : dev.At file.itemId pr) :
    (dev.setFileName file.itemId name).At file.itemId (pr.dropLast ++ [name]) := by
  have hnode : dev.node file.itemId = some (file.parentId, file.filename) := by
    rw [node, find_itemId hfile]
    rfl
  obtain ⟨q, hq, rfl⟩ := Tree.At.parent node_root hnode h
  have hparent : (dev.setFileName file.itemId name).At file.parentId q := by
    apply At.setFileName hq h
    intro hpre
    have hlength := hpre.length_le
    rw [List.length_append, List.length_singleton] at hlength
    omega
  rw [List.dropLast_concat]
  apply Tree.At.child _ hparent
  rw [node, find_setFileName, find_itemId hfile, Option.map_some, Option.map_some, renamed,
    if_pos rfl]

lemma find_of_remove (h : (dev.remove gone).find id = some file) :
    id ∉ gone ∧ dev.find id = some file := by
  obtain ⟨hmem, rfl⟩ := find_mem h
  have hfile := List.mem_filter.mp hmem
  exact ⟨by simpa using hfile.2, find_itemId hfile.1⟩

lemma find_remove (h : id ∉ gone) : (dev.remove gone).find id = dev.find id := by
  cases hfind : dev.find id with
  | none =>
    rw [find, List.find?_eq_none] at hfind ⊢
    exact fun file hfile => hfind file (List.mem_of_mem_filter hfile)
  | some file =>
    obtain ⟨hmem, rfl⟩ := find_mem hfind
    exact find_itemId (List.mem_filter.mpr ⟨hmem, by simpa using h⟩)

lemma At.remove {target : ℕ} {ret : ℤ} (h : dev.At id path) (hid : id ∉ gone)
    (hmay : dev.MayRemove target gone ret) : (dev.remove gone).At id path := by
  refine Tree.At.frame_removed (show ¬ (fun j => j ∈ gone) id from hid) ?_ ?_ h
  · intro j parent hnode hparent
    obtain ⟨file, hfind, rfl⟩ := Option.map_eq_some_iff.mp hnode
    obtain ⟨hmem, rfl⟩ := find_mem hfind
    exact hmay.2.2.1 file hmem hparent
  · intro j hj
    rw [node, find_remove hj, node]

lemma find_add (h : dev.MayAdd file) (hne : id ≠ file.itemId) :
    (dev.add file h).find id = dev.find id := by
  rw [find, add, List.find?_append, find]
  simp [hne.symm]

lemma At.add_self (h : dev.MayAdd file) (hat : (dev.add file h).At file.parentId path) :
    (dev.add file h).At file.itemId (path ++ [file.filename]) :=
  At.child (List.mem_append_right _ (List.mem_singleton_self file)) hat

lemma At.add (hat : dev.At id path) (h : dev.MayAdd file) : (dev.add file h).At id path := by
  apply Tree.At.frame hat
  intro j q parent _ _ hnode
  obtain ⟨f, hfind, _⟩ := Option.map_eq_some_iff.mp hnode
  obtain ⟨hmem, rfl⟩ := find_mem hfind
  rw [node, find_add h, node]
  intro heq
  exact h.1 (heq ▸ List.mem_map_of_mem hmem)

end Device

end KioExtras.Mtp.PathCache
