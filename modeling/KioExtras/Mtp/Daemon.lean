import KioExtras.Lib.Paths
import KioExtras.Lib.Run
import Mathlib.Data.List.Nodup
import Mathlib.Logic.Function.Basic

/-!
The daemon that keeps the connected devices, and the object paths under which they and their
storages are reached.

A path has the number of devices in it that there were when it was made. An object cannot be
registered under a path that is taken.
-/

namespace KioExtras.Mtp.Daemon

open KioExtras.Lib.Run KioExtras.Lib.Paths

abbrev Text := List Char

/-- The objects on the bus. Devices are told apart by a number of their own. -/
inductive BusObject
  | device (id : ℕ)
  | storage (id index : ℕ)
  deriving DecidableEq

def BusObject.id : BusObject → ℕ
  | device id => id
  | storage id _ => id

/-- What `QDBusConnection` has registered. -/
abbrev Bus := Text → Option BusObject

/-- Nothing is registered where there is an object. -/
def registerObject (bus : Bus) (path : Text) (object : BusObject) : Bus :=
  if (bus path).isSome then bus else Function.update bus path (some object)

def registerObjects (bus : Bus) (objects : List (Text × BusObject)) : Bus :=
  objects.foldl (fun bus o => registerObject bus o.1 o.2) bus

/-- Objects that are deleted are not registered any more. -/
def unregister (bus : Bus) (id : ℕ) : Bus := fun path =>
  (bus path).filter fun object => object.id ≠ id

def devicePath (count : ℕ) : Text := "/modules/kmtpd/device".toList ++ Nat.toDigits 10 count

def storagePath (dbusObjectName : Text) (index : ℕ) : Text :=
  dbusObjectName ++ '/' :: "storage".toList ++ Nat.toDigits 10 index

structure MTPDevice where
  id : ℕ
  m_dbusObjectName : Text
  m_udi : Text
  m_storages : List Text
  deriving DecidableEq

/-- What the constructors register: the device, and then its storages. -/
def MTPDevice.objects (d : MTPDevice) : List (Text × BusObject) :=
  (d.m_dbusObjectName, .device d.id) ::
    d.m_storages.zipIdx.map fun p => (p.1, .storage d.id p.2)

/-- What `Solid` says of a device: where it is, if it has a generic interface. -/
structure SolidDevice where
  udi : Text
  place : Option (ℕ × ℕ)

/-- A raw device, and how many storages it has if it can be opened. -/
structure RawDevice where
  bus_location : ℕ
  devnum : ℕ
  opened : Option ℕ

/-- What the daemon is told, and what the library says then. -/
inductive Event
  | checkDevice (solidDevice : SolidDevice) (rawdevices : Option (List RawDevice))
  | deviceRemoved (udi : Text)

/-- The daemon and what is on the bus. `created` devices there have been. -/
structure KMTPd where
  m_devices : List MTPDevice
  bus : Bus
  created : ℕ

namespace KMTPd

def initial : KMTPd := ⟨[], fun _ => none, 0⟩

variable (s : KMTPd)

def deviceFromUdi (udi : Text) : Option MTPDevice :=
  s.m_devices.find? fun device => device.m_udi = udi

def newDevice (udi : Text) (storages : ℕ) : MTPDevice where
  id := s.created
  m_dbusObjectName := devicePath s.m_devices.length
  m_udi := udi
  m_storages := (List.range storages).map (storagePath (devicePath s.m_devices.length))

def opens (solidDevice : SolidDevice) (rawdevices : Option (List RawDevice)) : Option ℕ :=
  if (s.deviceFromUdi solidDevice.udi).isSome then none
  else do
    let place ← solidDevice.place
    let rawdevices ← rawdevices
    rawdevices.findSome? fun rawDevice =>
      if (rawDevice.bus_location, rawDevice.devnum) = place then rawDevice.opened else none

def checkDevice (solidDevice : SolidDevice) (rawdevices : Option (List RawDevice)) : KMTPd :=
  match s.opens solidDevice rawdevices with
  | none => s
  | some storages =>
    let device := s.newDevice solidDevice.udi storages
    ⟨s.m_devices ++ [device], registerObjects s.bus device.objects, s.created + 1⟩

def deviceRemoved (udi : Text) : KMTPd :=
  match s.deviceFromUdi udi with
  | none => s
  | some device =>
    { s with m_devices := s.m_devices.erase device, bus := unregister s.bus device.id }

def listDevices : List Text := s.m_devices.map MTPDevice.m_dbusObjectName

def step (s : KMTPd) : Event → Option KMTPd
  | .checkDevice solidDevice rawdevices => some (s.checkDevice solidDevice rawdevices)
  | .deviceRemoved udi => some (s.deviceRemoved udi)

/-- Each path leads to the device, or the storage of the device, that has it. -/
structure Addressed : Prop where
  nodup : s.listDevices.Nodup
  device : ∀ d ∈ s.m_devices, s.bus d.m_dbusObjectName = some (.device d.id)
  storage : ∀ d ∈ s.m_devices, ∀ index path, d.m_storages[index]? = some path →
    s.bus path = some (.storage d.id index)

/-- No device that is there has the number of devices in its path when one is added. -/
def Vacant : Event → Prop
  | .checkDevice solidDevice rawdevices =>
    (s.opens solidDevice rawdevices).isSome → devicePath s.m_devices.length ∉ s.listDevices
  | .deviceRemoved _ => True

end KMTPd

/-! ### Paths -/

/-- What the path of an object has after that of the device. -/
def BusObject.tail : BusObject → Text
  | device _ => []
  | storage _ index => '/' :: "storage".toList ++ Nat.toDigits 10 index

lemma toDigits_injective : Function.Injective (Nat.toDigits 10) := by
  intro m n h
  have hm := Nat.ofDigitChars_ten_toDigits (n := m)
  rwa [h, Nat.ofDigitChars_ten_toDigits, eq_comm] at hm

lemma slash_notMem_toDigits (n : ℕ) : '/' ∉ Nat.toDigits 10 n := by
  intro hmem
  have hdigit := Nat.isDigit_of_mem_toDigits (by omega) (by omega) hmem
  revert hdigit
  decide

lemma tail_head (o : BusObject) : o.tail = [] ∨ ∃ rest, o.tail = '/' :: rest := by
  cases o with
  | device => exact Or.inl rfl
  | storage _ index => exact Or.inr ⟨"storage".toList ++ Nat.toDigits 10 index, rfl⟩

variable {n : ℕ} {o o' : BusObject} {bus : Bus}

lemma path_injective {m : ℕ} (h : devicePath m ++ o.tail = devicePath n ++ o'.tail) :
    m = n ∧ o.tail = o'.tail := by
  unfold devicePath at h
  rw [List.append_assoc, List.append_assoc, List.append_cancel_left_eq] at h
  obtain ⟨hdigits, htail⟩ := split_at_sep (slash_notMem_toDigits m) (slash_notMem_toDigits n)
    (tail_head o) (tail_head o') h
  exact ⟨toDigits_injective hdigits, htail⟩

lemma eq_of_tail (hid : o.id = o'.id) (h : o.tail = o'.tail) : o = o' := by
  cases o with
  | device id =>
    cases o' with
    | device id' => exact congrArg BusObject.device hid
    | storage => exact absurd h (by simp [BusObject.tail])
  | storage id index =>
    cases o' with
    | device => exact absurd h (by simp [BusObject.tail])
    | storage id' index' =>
      have hindex := toDigits_injective (List.append_cancel_left h)
      obtain rfl : id = id' := hid
      rw [hindex]

structure MTPDevice.Made (d : MTPDevice) (n : ℕ) : Prop where
  name : d.m_dbusObjectName = devicePath n
  storages : ∃ k, d.m_storages = (List.range k).map (storagePath (devicePath n))

lemma MTPDevice.Made.of_mem {d : MTPDevice} (h : d.Made n) {path : Text}
    (ho : (path, o) ∈ d.objects) : o.id = d.id ∧ path = devicePath n ++ o.tail := by
  obtain ⟨hname, k, hstorages⟩ := h
  rcases List.mem_cons.mp ho with heq | hmem
  · obtain ⟨rfl, rfl⟩ := Prod.mk.inj heq
    exact ⟨rfl, hname.trans (List.append_nil _).symm⟩
  · obtain ⟨⟨p, index⟩, hp, heq⟩ := List.mem_map.mp hmem
    obtain ⟨rfl, rfl⟩ := Prod.mk.inj heq
    have hget := List.mem_zipIdx_iff_getElem?.mp hp
    rw [hstorages, List.getElem?_map] at hget
    obtain ⟨i, hi, hpath⟩ := Option.map_eq_some_iff.mp hget
    obtain ⟨hlt, hindex⟩ := List.getElem?_eq_some_iff.mp hi
    rw [List.getElem_range hlt] at hindex
    rw [← hindex] at hpath
    exact ⟨rfl, hpath.symm.trans (List.append_assoc _ _ _)⟩

/-! ### The bus -/

lemma registerObjects_iff {objects : List (Text × BusObject)}
    (hnodup : (objects.map Prod.fst).Nodup) (hfree : ∀ o ∈ objects, bus o.1 = none) (path : Text)
    (object : BusObject) :
    registerObjects bus objects path = some object ↔
      bus path = some object ∨ (path, object) ∈ objects := by
  induction objects generalizing bus with
  | nil => simp [registerObjects]
  | cons o objects ih =>
    obtain ⟨hnot, hnodup⟩ := List.nodup_cons.mp hnodup
    have hstep : registerObject bus o.1 o.2 = Function.update bus o.1 (some o.2) := by
      simp [registerObject, hfree o (by simp)]
    have hfree' : ∀ p ∈ objects, Function.update bus o.1 (some o.2) p.1 = none := by
      intro p hp
      rw [Function.update_of_ne fun heq => hnot (List.mem_map.mpr ⟨p, hp, heq⟩)]
      exact hfree p (List.mem_cons_of_mem _ hp)
    rw [registerObjects, List.foldl_cons, hstep, ← registerObjects, ih hnodup hfree',
      List.mem_cons]
    by_cases hpath : path = o.1
    · subst hpath
      rw [Function.update_self, hfree o (by simp)]
      have hno : (o.1, object) ∉ objects := fun hmem =>
        hnot (List.mem_map.mpr ⟨_, hmem, rfl⟩)
      simp [hno, Prod.ext_iff, eq_comm]
    · rw [Function.update_of_ne hpath]
      simp [Prod.ext_iff, hpath]

lemma unregister_iff {id : ℕ} {path : Text} :
    unregister bus id path = some o ↔ bus path = some o ∧ o.id ≠ id := by
  simp [unregister, Option.filter_eq_some_iff]

/-! ### The devices and the bus -/

/-- On the bus is just what the devices that are there have registered. -/
structure KMTPd.Tidy (s : KMTPd) : Prop where
  nodup : s.listDevices.Nodup
  made : ∀ d ∈ s.m_devices, d.id < s.created ∧ ∃ n, d.Made n
  ids : ∀ d ∈ s.m_devices, ∀ e ∈ s.m_devices, d.id = e.id → d = e
  bus : ∀ path o, s.bus path = some o ↔ ∃ d ∈ s.m_devices, (path, o) ∈ d.objects

namespace KMTPd

variable {s : KMTPd}

lemma tidy_initial : initial.Tidy where
  nodup := List.nodup_nil
  made := nofun
  ids := nofun
  bus := fun _ _ => ⟨nofun, fun ⟨_, hd, _⟩ => nomatch hd⟩

lemma Tidy.addressed (h : s.Tidy) : s.Addressed where
  nodup := h.nodup
  device := fun d hd => (h.bus _ _).mpr ⟨d, hd, List.mem_cons_self⟩
  storage := by
    intro d hd index path hget
    refine (h.bus _ _).mpr ⟨d, hd, List.mem_cons_of_mem _ ?_⟩
    exact List.mem_map.mpr ⟨(path, index), List.mem_zipIdx_iff_getElem?.mpr hget, rfl⟩

lemma made_newDevice (udi : Text) (storages : ℕ) :
    (s.newDevice udi storages).Made s.m_devices.length := ⟨rfl, storages, rfl⟩

lemma nodup_newDevice (udi : Text) (storages : ℕ) :
    ((s.newDevice udi storages).objects.map Prod.fst).Nodup := by
  have hmap : (s.newDevice udi storages).objects.map Prod.fst =
      devicePath s.m_devices.length ::
        (List.range storages).map (storagePath (devicePath s.m_devices.length)) := by
    unfold MTPDevice.objects
    rw [List.map_cons, List.map_map]
    congr 1
    exact List.zipIdx_map_fst 0 _
  have htail : ∀ i : ℕ, storagePath (devicePath s.m_devices.length) i =
      devicePath s.m_devices.length ++ (BusObject.storage 0 i).tail :=
    fun i => List.append_assoc _ _ _
  rw [hmap, List.nodup_cons]
  constructor
  · intro hmem
    obtain ⟨i, -, hi⟩ := List.mem_map.mp hmem
    have hlen := congrArg List.length hi
    simp [htail, BusObject.tail] at hlen
  · refine List.nodup_range.map fun i j hij => ?_
    rw [htail, htail] at hij
    have heq : BusObject.storage 0 i = BusObject.storage 0 j :=
      eq_of_tail rfl (path_injective hij).2
    exact (BusObject.storage.inj heq).2

lemma Tidy.add (h : s.Tidy) {udi : Text} {storages : ℕ}
    (hvacant : devicePath s.m_devices.length ∉ s.listDevices) :
    Tidy ⟨s.m_devices ++ [s.newDevice udi storages],
      registerObjects s.bus (s.newDevice udi storages).objects, s.created + 1⟩ := by
  have hfree : ∀ p ∈ (s.newDevice udi storages).objects, s.bus p.1 = none := by
    rintro ⟨path, o⟩ hp
    by_contra hsome
    obtain ⟨o', ho'⟩ := Option.ne_none_iff_exists'.mp hsome
    obtain ⟨d, hd, hmem⟩ := (h.bus path o').mp ho'
    obtain ⟨-, n, hmade⟩ := h.made d hd
    -- the path has the numbers of both devices
    have heq := (hmade.of_mem hmem).2.symm.trans ((made_newDevice udi storages).of_mem hp).2
    obtain ⟨rfl, -⟩ := path_injective heq
    exact hvacant (List.mem_map.mpr ⟨d, hd, hmade.name⟩)
  constructor
  · change (List.map _ _).Nodup
    rw [List.map_append]
    exact h.nodup.append (List.nodup_singleton _) (List.disjoint_singleton.mpr hvacant)
  · intro d hd
    rcases List.mem_append.mp hd with hd | hd
    · exact ⟨Nat.lt_succ_of_lt (h.made d hd).1, (h.made d hd).2⟩
    · obtain rfl := List.mem_singleton.mp hd
      exact ⟨Nat.lt_succ_self _, _, made_newDevice udi storages⟩
  · intro d hd e he hid
    have hlt := fun d hd => (h.made d hd).1
    rcases List.mem_append.mp hd with hd | hd
    · rcases List.mem_append.mp he with he | he
      · exact h.ids d hd e he hid
      · obtain rfl := List.mem_singleton.mp he
        exact absurd hid (Nat.ne_of_lt (hlt d hd))
    · obtain rfl := List.mem_singleton.mp hd
      rcases List.mem_append.mp he with he | he
      · exact absurd hid.symm (Nat.ne_of_lt (hlt e he))
      · exact (List.mem_singleton.mp he).symm
  · intro path o
    change registerObjects _ _ _ = _ ↔ _
    rw [registerObjects_iff (nodup_newDevice udi storages) hfree, h.bus]
    simp [or_and_right, exists_or]

lemma Tidy.deviceRemoved (h : s.Tidy) (udi : Text) : (s.deviceRemoved udi).Tidy := by
  unfold KMTPd.deviceRemoved
  cases hfind : s.deviceFromUdi udi with
  | none => exact h
  | some d =>
    have hd : d ∈ s.m_devices := List.mem_of_find?_eq_some hfind
    have hnodup : s.m_devices.Nodup := List.Nodup.of_map _ h.nodup
    have hmem : ∀ e, e ∈ s.m_devices.erase d ↔ e ≠ d ∧ e ∈ s.m_devices :=
      fun e => hnodup.mem_erase_iff
    constructor
    · exact h.nodup.sublist (List.erase_sublist.map _)
    · exact fun e he => h.made e ((hmem e).mp he).2
    · exact fun e he f hf => h.ids e ((hmem e).mp he).2 f ((hmem f).mp hf).2
    · intro path o
      change unregister _ _ _ = _ ↔ _
      rw [unregister_iff, h.bus]
      constructor
      · rintro ⟨⟨e, he, ho⟩, hne⟩
        refine ⟨e, (hmem e).mpr ⟨?_, he⟩, ho⟩
        rintro rfl
        obtain ⟨-, n, hmade⟩ := h.made e he
        exact hne (hmade.of_mem ho).1
      · rintro ⟨e, he, ho⟩
        obtain ⟨hne, he⟩ := (hmem e).mp he
        refine ⟨⟨e, he, ho⟩, fun hid => hne (h.ids e he d hd ?_)⟩
        obtain ⟨-, n, hmade⟩ := h.made e he
        exact (hmade.of_mem ho).1.symm.trans hid

variable {event : Event}

lemma Tidy.step {t : KMTPd} (h : s.Tidy) (hvacant : s.Vacant event)
    (hstep : s.step event = some t) : t.Tidy := by
  cases event with
  | deviceRemoved udi =>
    obtain rfl := Option.some.inj hstep
    exact h.deviceRemoved udi
  | checkDevice solidDevice rawdevices =>
    obtain rfl := Option.some.inj hstep
    unfold checkDevice
    cases hopens : s.opens solidDevice rawdevices with
    | none => exact h
    | some storages => exact h.add (hvacant (by rw [hopens]; rfl))

lemma not_addressed (h : ¬ s.Vacant event) : ∃ t, s.step event = some t ∧ ¬ t.Addressed := by
  cases event with
  | deviceRemoved => exact absurd trivial h
  | checkDevice solidDevice rawdevices =>
    refine ⟨_, rfl, fun haddressed => ?_⟩
    obtain ⟨hsome, htaken⟩ := Classical.not_imp.mp h
    obtain ⟨storages, hopens⟩ := Option.isSome_iff_exists.mp hsome
    have hnodup := haddressed.nodup
    unfold checkDevice at hnodup
    rw [hopens] at hnodup
    change (List.map _ (_ ++ [_])).Nodup at hnodup
    rw [List.map_append] at hnodup
    exact (List.disjoint_of_nodup_append hnodup) (not_not.mp htaken) (by simp [newDevice])

/-- **The paths of the devices** stay apart, and lead to what they were made for, in just the runs
in which no device is added whose number is taken. -/
theorem addressed_iff (events : List Event) :
    (∀ first t, first <+: events → run step initial first = some t → t.Addressed) ↔
      AllSteps step Vacant initial events :=
  prefixes_iff (I := Tidy) (fun _ => Tidy.addressed) (fun _ _ _ h hv hs => h.step hv hs)
    (fun _ _ _ h => not_addressed h) tidy_initial events

/-- The first of two phones is unplugged, and a third one comes. -/
def replugged : List Event :=
  [.checkDevice ⟨"a".toList, some (1, 1)⟩ (some [⟨1, 1, some 1⟩]),
   .checkDevice ⟨"b".toList, some (1, 2)⟩ (some [⟨1, 1, some 1⟩, ⟨1, 2, some 1⟩]),
   .deviceRemoved "a".toList,
   .checkDevice ⟨"c".toList, some (1, 3)⟩ (some [⟨1, 2, some 1⟩, ⟨1, 3, some 1⟩])]

theorem replugged_taken : ∃ t, run step initial replugged = some t ∧
    t.listDevices = [devicePath 1, devicePath 1] ∧ ¬ t.Addressed := by
  have hpaths : ∃ t, run step initial replugged = some t ∧
      t.listDevices = [devicePath 1, devicePath 1] := ⟨_, rfl, rfl⟩
  obtain ⟨t, hrun, hlist⟩ := hpaths
  refine ⟨t, hrun, hlist, fun h => ?_⟩
  have hnodup := h.nodup
  rw [hlist] at hnodup
  simp at hnodup

end KMTPd

end KioExtras.Mtp.Daemon
