import KioExtras.Kio
import KioExtras.Lib.Paths
import Mathlib.Data.List.Nodup

/-!
How the devices and their storages are addressed: they are listed under the names that the devices
give, and the first two names in the path of a URL are looked up among these.
-/

namespace KioExtras.Mtp.Addresses

open KioExtras.Kio KioExtras.Lib.Paths

abbrev Text := List Char

structure KMTPDevice where
  friendlyName : Text
  storages : List Text

/-- What an entry stands for: a device or a storage of it, by their places in the lists. -/
inductive Object
  | device (i : ℕ)
  | storage (i j : ℕ)
  deriving DecidableEq

inductive Listing
  | entries (list : List (Text × Object))
  | files (storage : Object)
  | fails (error : Error)

section

variable (devices : List KMTPDevice)

/-- `path.split('/', Qt::SkipEmptyParts)`. -/
def pathItems (path : Text) : List (Name '/') := names path

def deviceFromName (friendlyName : Text) : Option ℕ :=
  devices.findIdx? fun device => device.friendlyName = friendlyName

def storageFromDescription (i : ℕ) (description : Text) : Option ℕ :=
  devices[i]?.bind fun device => device.storages.findIdx? fun storage => storage = description

/-- The start of every operation: the device, and the storage if the path goes on. -/
def resolve (path : Text) : Option Object :=
  match pathItems path with
  | [] => none
  | [name] => (deviceFromName devices name.text).map .device
  | name :: description :: _ => do
    let i ← deviceFromName devices name.text
    let j ← storageFromDescription devices i description.text
    return .storage i j

def deviceEntries : List (Text × Object) :=
  devices.zipIdx.map fun p => (p.1.friendlyName, .device p.2)

def storageEntries (i : ℕ) (storages : List Text) : List (Text × Object) :=
  storages.zipIdx.map fun p => (p.1, .storage i p.2)

/-- Without the entry `.`. -/
def listDir (path : Text) : Listing :=
  match pathItems path with
  | [] => .entries (deviceEntries devices)
  | name :: rest =>
    match deviceFromName devices name.text with
    | none => .fails .ERR_CANNOT_ENTER_DIRECTORY
    | some i =>
      match rest with
      | [] =>
        match devices[i]? with
        | none => .fails .ERR_WORKER_DEFINED
        | some device =>
          if device.storages = [] then .fails .ERR_WORKER_DEFINED
          else .entries (storageEntries i device.storages)
      | description :: _ =>
        match storageFromDescription devices i description.text with
        | none => .fails .ERR_CANNOT_ENTER_DIRECTORY
        | some j => .files (.storage i j)

/-- What is listed is what its path leads to. -/
structure Faithful : Prop where
  device : ∀ list, listDir devices ['/'] = .entries list →
    ∀ name object, (name, object) ∈ list → resolve devices ('/' :: name) = some object
  storage : ∀ list, listDir devices ['/'] = .entries list →
    ∀ name i, (name, .device i) ∈ list → ∀ list', listDir devices ('/' :: name) = .entries list' →
    ∀ description object, (description, object) ∈ list' →
      resolve devices ('/' :: name ++ '/' :: description) = some object ∧
        ∃ j, object = .storage i j

def Proper (name : Text) : Prop := name ≠ [] ∧ '/' ∉ name

/-- The devices are told apart by proper names, and so are the storages of each. -/
structure Named : Prop where
  nodup : (devices.map KMTPDevice.friendlyName).Nodup
  proper : ∀ device ∈ devices, Proper device.friendlyName
  storages_nodup : ∀ device ∈ devices, device.storages.Nodup
  storages_proper : ∀ device ∈ devices, ∀ storage ∈ device.storages, Proper storage

end

/-! ### Looking up by the first match -/

lemma findIdx?_own_iff {α : Type*} (f : α → Text) (l : List α) :
    (∀ i a, l[i]? = some a → l.findIdx? (fun b => f b = f a) = some i) ↔ (l.map f).Nodup := by
  induction l with
  | nil => simp
  | cons a l ih =>
    rw [List.map_cons, List.nodup_cons, ← ih]
    constructor
    · intro h
      have hne : ∀ (i : ℕ) b, l[i]? = some b → f a ≠ f b := by
        intro i b hb heq
        have hfind := h (i + 1) b (by simpa using hb)
        simp [List.findIdx?_cons, heq] at hfind
      constructor
      · intro hmem
        obtain ⟨b, hb, heq⟩ := List.mem_map.mp hmem
        obtain ⟨i, hi⟩ := List.mem_iff_getElem?.mp hb
        exact hne i b hi heq.symm
      · intro i b hb
        have hfind := h (i + 1) b (by simpa using hb)
        simpa [List.findIdx?_cons, hne i b hb] using hfind
    · rintro ⟨hnot, h⟩ i b hb
      cases i with
      | zero =>
        obtain rfl : a = b := by simpa using hb
        simp [List.findIdx?_cons]
      | succ i =>
        have hb : l[i]? = some b := by simpa using hb
        have hne : f a ≠ f b := fun heq =>
          hnot (List.mem_map.mpr ⟨b, List.mem_iff_getElem?.mpr ⟨i, hb⟩, heq.symm⟩)
        simp [List.findIdx?_cons, hne, h i b hb]

/-! ### Paths of names -/

variable {devices : List KMTPDevice}

lemma proper_text (n : Name '/') : Proper n.text := ⟨n.ne_nil, n.sep_notMem⟩

def Proper.name {name : Text} (h : Proper name) : Name '/' := ⟨name, h.1, h.2⟩

lemma pathItems_one {name : Text} (h : Proper name) : pathItems ('/' :: name) = [h.name] := by
  rw [pathItems, names_sep_cons]
  exact names_text h.name

variable {description : Text} {object : Object} {j : ℕ}

lemma pathItems_two {name : Text} (h : Proper name) (h' : Proper description) :
    pathItems ('/' :: name ++ '/' :: description) = [h.name, h'.name] := by
  have hname : (names ('/' :: name) : List (Name '/')) = [h.name] := pathItems_one h
  rw [pathItems, names_append, hname]
  exact congrArg ([h.name] ++ ·) (names_text h'.name)

/-! ### What is listed -/

lemma mem_deviceEntries {name : Text} :
    (name, object) ∈ deviceEntries devices ↔
      ∃ i device, devices[i]? = some device ∧ name = device.friendlyName ∧ object = .device i := by
  simp only [deviceEntries, List.mem_map, Prod.exists, List.mem_zipIdx_iff_getElem?,
    Prod.mk.injEq]
  constructor
  · rintro ⟨device, i, hi, rfl, rfl⟩
    exact ⟨i, device, hi, rfl, rfl⟩
  · rintro ⟨i, device, hi, rfl, rfl⟩
    exact ⟨device, i, hi, rfl, rfl⟩

variable {i : ℕ} {device : KMTPDevice}

lemma mem_storageEntries {storages : List Text} :
    (description, object) ∈ storageEntries i storages ↔
      ∃ j, storages[j]? = some description ∧ object = .storage i j := by
  simp only [storageEntries, List.mem_map, Prod.exists, List.mem_zipIdx_iff_getElem?,
    Prod.mk.injEq]
  constructor
  · rintro ⟨storage, j, hj, rfl, rfl⟩
    exact ⟨j, hj, rfl⟩
  · rintro ⟨j, hj, rfl⟩
    exact ⟨description, j, hj, rfl, rfl⟩

lemma listDir_root : listDir devices ['/'] = .entries (deviceEntries devices) := rfl

lemma listDir_device {name : Text} (h : Proper name) (hfind : deviceFromName devices name = some i)
    (hi : devices[i]? = some device) :
    listDir devices ('/' :: name) =
      if device.storages = [] then .fails .ERR_WORKER_DEFINED
      else .entries (storageEntries i device.storages) := by
  unfold listDir
  rw [pathItems_one h]
  change (match deviceFromName devices name with | none => _ | some i => _) = _
  rw [hfind]
  dsimp only
  rw [hi]

lemma name_of_deviceFromName {name : Text} (hfind : deviceFromName devices name = some i)
    (hi : devices[i]? = some device) : device.friendlyName = name := by
  obtain ⟨hlt, hname, -⟩ := List.findIdx?_eq_some_iff_getElem.mp hfind
  rw [List.getElem?_eq_getElem hlt] at hi
  obtain rfl := Option.some.inj hi
  exact of_decide_eq_true hname

lemma resolve_device {path : Text} (h : resolve devices path = some (.device i)) :
    ∃ n, pathItems path = [n] ∧ deviceFromName devices n.text = some i := by
  unfold resolve at h
  match hitems : pathItems path, h with
  | [n], h =>
    obtain ⟨k, hk, heq⟩ := Option.map_eq_some_iff.mp h
    obtain rfl := Object.device.inj heq
    exact ⟨n, rfl, hk⟩
  | n :: m :: _, h =>
    obtain ⟨k, hk, hrest⟩ := Option.bind_eq_some_iff.mp h
    obtain ⟨j, hj, heq⟩ := Option.bind_eq_some_iff.mp hrest
    cases Option.some.inj heq

lemma resolve_storage {path : Text} (h : resolve devices path = some (.storage i j)) :
    ∃ n, storageFromDescription devices i (n : Name '/').text = some j := by
  unfold resolve at h
  match hitems : pathItems path, h with
  | [n], h =>
    obtain ⟨k, hk, heq⟩ := Option.map_eq_some_iff.mp h
    cases heq
  | n :: m :: _, h =>
    obtain ⟨k, hk, hrest⟩ := Option.bind_eq_some_iff.mp h
    obtain ⟨l, hl, heq⟩ := Option.bind_eq_some_iff.mp hrest
    obtain ⟨rfl, rfl⟩ := Object.storage.inj (Option.some.inj heq)
    exact ⟨m, hl⟩

/-! ### Faithful listings -/

lemma Faithful.found (h : Faithful devices) (hi : devices[i]? = some device) :
    Proper device.friendlyName ∧ deviceFromName devices device.friendlyName = some i := by
  have hres := h.device _ listDir_root _ _ (mem_deviceEntries.mpr ⟨i, device, hi, rfl, rfl⟩)
  obtain ⟨n, -, hfind⟩ := resolve_device hres
  rw [name_of_deviceFromName hfind hi]
  exact ⟨proper_text n, hfind⟩

lemma Faithful.storage_found (h : Faithful devices) {storage : Text}
    (hi : devices[i]? = some device) (hj : device.storages[j]? = some storage) :
    Proper storage ∧ device.storages.findIdx? (fun s => s = storage) = some j := by
  obtain ⟨hproper, hfind⟩ := h.found hi
  have hne : device.storages ≠ [] := by
    rintro heq
    rw [heq] at hj
    cases hj
  have hlist := listDir_device hproper hfind hi
  rw [if_neg hne] at hlist
  obtain ⟨hres, -⟩ := h.storage _ listDir_root _ i
    (mem_deviceEntries.mpr ⟨i, device, hi, rfl, rfl⟩) _ hlist _ _
    (mem_storageEntries.mpr ⟨j, hj, rfl⟩)
  obtain ⟨n, hn⟩ := resolve_storage hres
  rw [storageFromDescription, hi, Option.bind_some] at hn
  obtain ⟨hlt, hname, -⟩ := List.findIdx?_eq_some_iff_getElem.mp hn
  rw [List.getElem?_eq_getElem hlt] at hj
  obtain rfl : storage = n.text := (Option.some.inj hj).symm.trans (of_decide_eq_true hname)
  exact ⟨proper_text n, hn⟩

lemma Faithful.named (h : Faithful devices) : Named devices where
  nodup := (findIdx?_own_iff _ _).mp fun i device hi => (h.found hi).2
  proper := by
    intro device hdevice
    obtain ⟨i, hi⟩ := List.mem_iff_getElem?.mp hdevice
    exact (h.found hi).1
  storages_nodup := by
    intro device hdevice
    obtain ⟨i, hi⟩ := List.mem_iff_getElem?.mp hdevice
    have hnodup := (findIdx?_own_iff id device.storages).mp fun j storage hj =>
      (h.storage_found hi hj).2
    rwa [List.map_id] at hnodup
  storages_proper := by
    intro device hdevice storage hstorage
    obtain ⟨i, hi⟩ := List.mem_iff_getElem?.mp hdevice
    obtain ⟨j, hj⟩ := List.mem_iff_getElem?.mp hstorage
    exact (h.storage_found hi hj).1

lemma Named.found (h : Named devices) (hi : devices[i]? = some device) :
    deviceFromName devices device.friendlyName = some i :=
  (findIdx?_own_iff _ _).mpr h.nodup i device hi

lemma Named.faithful (h : Named devices) : Faithful devices where
  device := by
    intro list hlist name object hmem
    obtain rfl := Listing.entries.inj (listDir_root.symm.trans hlist)
    obtain ⟨i, device, hi, rfl, rfl⟩ := mem_deviceEntries.mp hmem
    have hproper := h.proper device (List.mem_of_getElem? hi)
    unfold resolve
    rw [pathItems_one hproper]
    exact congrArg (Option.map Object.device) (h.found hi)
  storage := by
    intro list hlist name i hmem list' hlist' description object hmem'
    obtain rfl := Listing.entries.inj (listDir_root.symm.trans hlist)
    obtain ⟨i', device, hi, rfl, heq⟩ := mem_deviceEntries.mp hmem
    obtain rfl := Object.device.inj heq
    have hdevice := List.mem_of_getElem? hi
    have hproper := h.proper device hdevice
    rw [listDir_device hproper (h.found hi) hi] at hlist'
    split_ifs at hlist'
    obtain rfl := Listing.entries.inj hlist'
    obtain ⟨j, hj, rfl⟩ := mem_storageEntries.mp hmem'
    have hproper' := h.storages_proper device hdevice description (List.mem_of_getElem? hj)
    have hfind : device.storages.findIdx? (fun s => s = description) = some j :=
      (findIdx?_own_iff id device.storages).mpr (by
        rw [List.map_id]
        exact h.storages_nodup device hdevice) j description hj
    refine ⟨?_, j, rfl⟩
    unfold resolve
    rw [pathItems_two hproper hproper']
    change (deviceFromName devices device.friendlyName).bind _ = _
    rw [h.found hi, Option.bind_some]
    change (storageFromDescription devices i description).bind _ = _
    rw [storageFromDescription, hi, Option.bind_some, hfind]
    rfl

/-- **The addresses are faithful** just if the devices and the storages of each are told apart by
names that can stand in a path. -/
theorem faithful_iff (devices : List KMTPDevice) : Faithful devices ↔ Named devices :=
  ⟨Faithful.named, Named.faithful⟩

/-- Two phones of one model that nobody has given a name. -/
theorem twins_unfaithful : ¬ Faithful [⟨"Phone".toList, ["Card".toList]⟩,
    ⟨"Phone".toList, ["Card".toList]⟩] := by
  intro h
  have hres := h.device _ listDir_root "Phone".toList (.device 1)
    (mem_deviceEntries.mpr ⟨1, _, rfl, rfl, rfl⟩)
  revert hres
  decide

end KioExtras.Mtp.Addresses
