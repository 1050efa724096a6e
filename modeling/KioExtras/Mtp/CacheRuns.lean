import KioExtras.Lib.Run
import KioExtras.Mtp.PathCache

/-!
The runs of the daemon that keeps the cache of a storage, for any number of workers. Nobody else
changes the device.
-/

namespace KioExtras.Mtp.PathCache

open KioExtras.Lib.Paths KioExtras.Lib.Run KioExtras.Lib MTPStorage

/-- `MTPLister`, with the ids of the objects that it has not shown yet. -/
structure MTPLister where
  path : Text
  left : List ℕ

/-- The storage, the listers at work and the files that are still to be sent. -/
structure State extends MTPStorage where
  listers : List MTPLister
  sending : List Sending

/-- What may happen next. The clock goes on; the device is silent about some objects from then on;
a worker asks for something (`stat` is `getFileMetadata`, with which `get` begins too); a lister
shows its next object or is told to stop; the `i`th file to send is sent. The answers of the
device come with it. -/
inductive Label
  | tick (ms : ℕ)
  | hush (ids : List ℕ)
  | stat (path : Text)
  | list (path : Text)
  | list2 (path : Text)
  | run (i : ℕ)
  | abort (i : ℕ)
  | rename (path newName : Text) (result : ℤ) (stored : FileName)
  | createFolder (path : Text) (folderId : ℕ) (stored : FileName)
  | send (path : Text)
  | sent (i : ℕ) (itemId : ℕ) (stored : FileName)
  | delete (path : Text) (gone : List ℕ) (ret : ℤ)

namespace State

def withStorage (s : State) (t : MTPStorage) : State := { s with toMTPStorage := t }

def runLister (s : State) (i : ℕ) (l : MTPLister) : State :=
  match l.left with
  | [] => { s with listers := s.listers.eraseIdx i }
  | id :: ids =>
    let t := { s with listers := s.listers.set i { l with left := ids } }
    match s.device.getFilemetadata id with
    | none => t
    | some file => t.withStorage (addFile l.path s.toMTPStorage file)

/-- The upload. Nothing of it goes into the cache; with id 0 it has failed. -/
def sendFile (s : State) (i : ℕ) (sending : Sending) (itemId : ℕ) (stored : FileName) :
    Option State :=
  let t := { s with sending := s.sending.eraseIdx i }
  if itemId = 0 then some t
  else if h : s.device.MayAdd ⟨itemId, sending.parentId, stored, false⟩ then
    some (t.withStorage { s.toMTPStorage with device := s.device.add _ h })
  else none

end State

open State

variable (haveGetChildren : Bool)

def step (s : State) : Label → Option State
  | .tick ms => some { s with now := s.now + ms }
  | .hush ids => some { s with device := s.device.hush ids }
  | .stat path => some (s.withStorage (s.getFileFromPath haveGetChildren path).2)
  | .list path => some (s.withStorage (s.getFilesAndFolders haveGetChildren path).2)
  | .list2 path =>
    if haveGetChildren then
      match s.getFilesAndFolders2 haveGetChildren path with
      | (none, t) => some (s.withStorage t)
      | (some ids, t) => some { s.withStorage t with listers := s.listers ++ [⟨path, ids⟩] }
    else some s
  | .run i => s.listers[i]?.map (s.runLister i)
  | .abort i =>
    s.listers[i]?.map fun l => { s with listers := s.listers.set i { l with left := [] } }
  | .rename path newName result stored =>
    some (s.withStorage (s.setFileName haveGetChildren path newName result stored).2)
  | .createFolder path folderId stored =>
    (s.createFolder haveGetChildren path folderId stored).map fun r => s.withStorage r.2
  | .send path =>
    let ((_, sending), t) := s.sendFileFromFileDescriptor haveGetChildren path
    some { s.withStorage t with sending := s.sending ++ sending.toList }
  | .sent i itemId stored =>
    s.sending[i]?.bind fun sending => s.sendFile i sending itemId stored
  | .delete path gone ret =>
    (s.deleteObject haveGetChildren path gone ret).map fun r => s.withStorage r.2

/-! What a lister will still add is right too. -/

/-- The objects that the lister has not shown lie in the folder at its path. -/
def MTPLister.Sound (dev : Device) (l : MTPLister) : Prop :=
  ∀ id ∈ l.left, ∀ file, dev.find id = some file → dev.At file.parentId (names l.path)

section Listers

variable {dev : Device} {l l' : MTPLister} {path : List FileName}

lemma MTPLister.Sound.mono (h : l.Sound dev) (hpath : l'.path = l.path)
    (hleft : ∀ id ∈ l'.left, id ∈ l.left) : l'.Sound dev := by
  intro id hid file hfile
  rw [hpath]
  exact h id (hleft id hid) file hfile

lemma MTPLister.Sound.rename {file : KMTPFile} (name : FileName) (h : l.Sound dev)
    (hfile : Found dev path file)
    (hclear : ∀ id ∈ l.left, (dev.find id).isSome → ¬ path <+: names l.path) :
    l.Sound (dev.setFileName file.itemId name) := by
  intro id hid f hf
  have hmap := (Device.find_setFileName _ _ _ _).symm.trans hf
  obtain ⟨g, hg, rfl⟩ := Option.map_eq_some_iff.mp hmap
  have hparent : (Device.renamed file.itemId name g).parentId = g.parentId := by
    unfold Device.renamed
    split <;> rfl
  rw [hparent]
  exact Device.At.setFileName (h id hid g hg) hfile.located
    (hclear id hid (Option.isSome_iff_exists.mpr ⟨g, hg⟩))

lemma MTPLister.Sound.remove {gone : List ℕ} {target : ℕ} {ret : ℤ} (h : l.Sound dev)
    (hmay : dev.MayRemove target gone ret) : l.Sound (dev.remove gone) := by
  intro id hid file hfile
  obtain ⟨hstays, hfind⟩ := Device.find_of_remove hfile
  obtain ⟨hmem, rfl⟩ := Device.find_mem hfind
  apply Device.At.remove (h _ hid file hfind) _ hmay
  exact fun hgone => hstays (hmay.2.2.1 file hmem hgone)

lemma MTPLister.Sound.add {file : KMTPFile} (h : l.Sound dev) (hmay : dev.MayAdd file)
    (hunused : file.itemId ∉ l.left) : l.Sound (dev.add file hmay) := by
  intro id hid f hf
  have hne : id ≠ file.itemId := fun heq => hunused (heq ▸ hid)
  exact Device.At.add (h id hid f ((Device.find_add hmay hne).symm.trans hf)) hmay

end Listers

namespace State

/-- Before the device gives an id to a new object, it is not in use for another. -/
def Unused (s : State) (id : ℕ) : Prop :=
  s.toMTPStorage.Unused id ∧ ∀ l ∈ s.listers, id ∉ l.left

instance (s : State) (id : ℕ) : Decidable (s.Unused id) :=
  inferInstanceAs (Decidable (_ ∧ _))

/-- No lister is at work in the folder at the path or below it. -/
def NotListed (s : State) (path : Text) : Prop :=
  ∀ l ∈ s.listers, ∀ id ∈ l.left, (s.device.find id).isSome →
    ¬ (names path : List FileName) <+: names l.path

instance (s : State) (path : Text) : Decidable (s.NotListed path) :=
  inferInstanceAs (Decidable (∀ _ ∈ _, _))

structure Good (s : State) : Prop where
  sound : s.Sound
  listed : ∀ l ∈ s.listers, l.Sound s.device

end State

/-- A rename is written plainly, the device takes the name as it is, and nothing at or below the
path is in the cache or being listed, but the path itself. A new folder has no separator at the
end. What is new has a new id. -/
def Careful (s : State) : Label → Prop
  | .rename path newName result stored => result = 0 →
    path = joined (names path : List FileName) ∧ newName = stored.text ∧ s.Alone path ∧
      s.NotListed path
  | .createFolder path folderId stored => folderId ≠ 0 →
    path.getLast? ≠ some '/' ∧ (names path).getLast? = some stored ∧ s.Unused folderId
  | .sent _ itemId _ => itemId ≠ 0 → s.Unused itemId
  | _ => True

section Steps

variable {s t u : State} {l : Label}

lemma good_looked (h : s.Good) {m : MTPStorage} (hadds : Looked s.toMTPStorage m) :
    (s.withStorage m).Good :=
  ⟨hadds.sound h.sound, fun l hl => by
    change l.Sound m.device
    rw [hadds.device]
    exact h.listed l hl⟩

lemma good_listers (h : s.Good) {listers : List MTPLister}
    (hlisted : ∀ l ∈ listers, l.Sound s.device) : ({ s with listers := listers } : State).Good :=
  ⟨h.sound, hlisted⟩

lemma good_list2 (h : s.Good) (path : Text)
    (hstep : step haveGetChildren s (.list2 path) = some u) : u.Good := by
  simp only [step] at hstep
  split at hstep
  · obtain ⟨hadds, hids⟩ := getFilesAndFolders2_spec haveGetChildren h.sound path
    split at hstep
    · rename_i m heq
      rw [heq] at hadds
      obtain rfl := Option.some.inj hstep
      exact good_looked h hadds
    · rename_i ids m heq
      rw [heq] at hadds hids
      obtain rfl := Option.some.inj hstep
      apply good_listers (good_looked h hadds)
      change ∀ l ∈ s.listers ++ [⟨path, ids⟩], MTPLister.Sound m.device l
      rw [hadds.device]
      intro l hl
      rcases List.mem_append.mp hl with hl | hl
      · exact h.listed l hl
      · obtain rfl := List.mem_singleton.mp hl
        obtain ⟨parent, hat, hchildren⟩ := hids ids rfl
        intro id hid file hfile
        rwa [Device.parent_of_getChildren hchildren hid hfile]
  · obtain rfl := Option.some.inj hstep
    exact h

variable {i : ℕ} {r : ℤ × MTPStorage} {gone : List ℕ}

lemma good_run (h : s.Good) {l : MTPLister} (hl : s.listers[i]? = some l) :
    (s.runLister i l).Good := by
  have hmem := List.mem_of_getElem? hl
  unfold State.runLister
  split
  · exact good_listers h fun l' hl' => h.listed l' (List.mem_of_mem_eraseIdx hl')
  · rename_i id ids hleft
    have hlisted : ∀ l' ∈ s.listers.set i { l with left := ids }, l'.Sound s.device := by
      intro l' hl'
      rcases List.mem_or_eq_of_mem_set hl' with hl' | rfl
      · exact h.listed l' hl'
      · exact (h.listed l hmem).mono rfl fun x hx => by
          rw [hleft]
          exact List.mem_cons_of_mem _ hx
    have hset := good_listers h hlisted
    dsimp only
    split
    · exact hset
    · rename_i file hmeta
      have hfind := Device.find_of_getFilemetadata hmeta
      have hat : s.device.At file.parentId (names l.path) :=
        h.listed l hmem id (by simp [hleft]) file hfind
      have hchild : Child s.device file.parentId file := ⟨(Device.find_mem hfind).1, rfl⟩
      exact good_looked hset (addFile_adds (folder_of_at hat) hchild)

lemma good_abort (h : s.Good) (i : ℕ) (l : MTPLister) :
    ({ s with listers := s.listers.set i { l with left := [] } } : State).Good := by
  apply good_listers h
  intro l' hl'
  rcases List.mem_or_eq_of_mem_set hl' with hl' | rfl
  · exact h.listed l' hl'
  · exact fun id hid => nomatch hid

lemma good_rename (h : s.Good) {path newName : Text} {result : ℤ} {stored : FileName}
    (hcare : Careful s (.rename path newName result stored)) :
    (s.withStorage (s.setFileName haveGetChildren path newName result stored).2).Good := by
  rcases setFileName_cases haveGetChildren h.sound path newName result stored with
    hadds | ⟨hresult, m, file, hadds, hfile, heq⟩
  · exact good_looked h hadds
  · obtain ⟨hplain, rfl, halone, hlisted⟩ := hcare hresult
    rw [heq]
    constructor
    · have hfound : Found m.device (names path) file := hadds.device.symm ▸ hfile
      have hsound := Sound.rename stored (hadds.sound h.sound)
        (halone.of_looked hplain hadds) hfound
      rw [hadds.device] at hsound
      apply hsound.addPath
      have hself := Device.At.setFileName_self stored hfile.mem hfile.located
      have hlast : path.getLast? ≠ some '/' := hplain ▸ joined_getLast? (names path)
      rwa [names_below, names_beforeLast hlast]
    · exact fun l hl => (h.listed l hl).rename stored hfile (hlisted l hl)

lemma good_createFolder (h : s.Good) {path : Text} {folderId : ℕ} {stored : FileName}
    (hcare : Careful s (.createFolder path folderId stored))
    (hr : s.createFolder haveGetChildren path folderId stored = some r) :
    (s.withStorage r.2).Good := by
  rcases createFolder_cases haveGetChildren h.sound hr with
    hadds | ⟨hfolder, m, parentId, hadds, hparent, hmay, heq⟩
  · exact good_looked h hadds
  · obtain ⟨hlast, hname, hunused, hnotListed⟩ := hcare hfolder
    rw [heq]
    have hmay' : m.device.MayAdd ⟨folderId, parentId, stored, true⟩ := hadds.device.symm ▸ hmay
    have hnew : s.device.find folderId = none := by
      rw [Device.find, List.find?_eq_none]
      intro file hfile heq
      exact hmay.1 (List.mem_map.mpr ⟨file, hfile, by simpa using heq⟩)
    have hsound := (hadds.sound h.sound).add hmay' (hunused.of_looked hadds hnew)
    simp only [hadds.device] at hsound
    refine ⟨hsound.addPath ?_, fun l hl => (h.listed l hl).add hmay (hnotListed l hl)⟩
    have hne : (names path : List FileName) ≠ [] := by
      rintro hnil
      rw [hnil] at hname
      cases hname
    rw [List.getLast?_eq_some_getLast hne, Option.some.injEq] at hname
    rw [← List.dropLast_append_getLast hne, hname]
    exact Device.At.add_self hmay (Device.At.add (hparent hlast) hmay)

lemma good_delete (h : s.Good) {path : Text} {ret : ℤ}
    (hr : s.deleteObject haveGetChildren path gone ret = some r) : (s.withStorage r.2).Good := by
  obtain ⟨m, file, hadds, _, hmay, heq⟩ := deleteObject_cases haveGetChildren h.sound hr
  have hmay' : m.device.MayRemove ((file.map KMTPFile.itemId).getD 0) gone ret :=
    hadds.device.symm ▸ hmay
  have hsound := (hadds.sound h.sound).remove hmay'
  rw [hadds.device] at hsound
  have hlisted : ∀ l ∈ s.listers, l.Sound (s.device.remove gone) := fun l hl =>
    (h.listed l hl).remove hmay
  rw [heq]
  split
  · exact ⟨hsound.removePath path, hlisted⟩
  · exact ⟨hsound, hlisted⟩

lemma good_sent (h : s.Good) {itemId : ℕ} {sending : Sending} {stored : FileName}
    (hcare : itemId ≠ 0 → s.Unused itemId) (hu : s.sendFile i sending itemId stored = some u) :
    u.Good := by
  unfold State.sendFile at hu
  dsimp only at hu
  split at hu
  · obtain rfl := Option.some.inj hu
    exact ⟨h.sound, h.listed⟩
  · rename_i hne
    split at hu
    · rename_i hmay
      obtain rfl := Option.some.inj hu
      obtain ⟨hunused, hnotListed⟩ := hcare hne
      exact ⟨h.sound.add hmay hunused, fun l hl => (h.listed l hl).add hmay (hnotListed l hl)⟩
    · cases hu

lemma step_good (h : s.Good) (hcare : Careful s l) (hstep : step haveGetChildren s l = some u) :
    u.Good := by
  cases l with
  | tick ms =>
    obtain rfl := Option.some.inj hstep
    refine ⟨fun item hitem hlive => h.sound item hitem ?_, h.listed⟩
    have hnow : s.now + ms < item.expires := hlive
    change s.now < item.expires
    omega
  | hush ids =>
    obtain rfl := Option.some.inj hstep
    exact ⟨h.sound, h.listed⟩
  | stat path =>
    obtain rfl := Option.some.inj hstep
    exact good_looked h (getFileFromPath_looked haveGetChildren h.sound path)
  | list path =>
    obtain rfl := Option.some.inj hstep
    exact good_looked h (getFilesAndFolders_looked haveGetChildren h.sound path)
  | list2 path => exact good_list2 haveGetChildren h path hstep
  | run i =>
    obtain ⟨lister, hl, rfl⟩ := Option.map_eq_some_iff.mp hstep
    exact good_run h hl
  | abort i =>
    obtain ⟨lister, _, rfl⟩ := Option.map_eq_some_iff.mp hstep
    exact good_abort h i lister
  | rename path newName result stored =>
    obtain rfl := Option.some.inj hstep
    exact good_rename haveGetChildren h hcare
  | createFolder path folderId stored =>
    obtain ⟨r, hr, rfl⟩ := Option.map_eq_some_iff.mp hstep
    exact good_createFolder haveGetChildren h hcare hr
  | send path =>
    obtain rfl := Option.some.inj hstep
    have hgood := good_looked h (sendFileFromFileDescriptor_looked haveGetChildren h.sound path)
    exact ⟨hgood.sound, hgood.listed⟩
  | sent i itemId stored =>
    obtain ⟨sending, _, hu⟩ := Option.bind_eq_some_iff.mp hstep
    exact good_sent h hcare hu
  | delete path gone ret =>
    obtain ⟨r, hr, rfl⟩ := Option.map_eq_some_iff.mp hstep
    exact good_delete haveGetChildren h hr

/-- A step takes off the device only what is at or below the path that is to be deleted, and
renames only what is at the path that is to be renamed. -/
def ActsAt (s : State) (l : Label) (u : State) : Prop :=
  ∀ file ∈ s.device.objects, file ∉ u.device.objects →
    match l with
    | .rename path _ _ _ => s.device.At file.itemId (names path)
    | .delete path _ _ => ∀ q, s.device.At file.itemId q → names path <+: q
    | _ => False

lemma actsAt_of_subset (h : ∀ file ∈ s.device.objects, file ∈ u.device.objects) : ActsAt s l u :=
  fun file hfile hnot => absurd (h file hfile) hnot

lemma actsAt_of_device (h : u.device = s.device) : ActsAt s l u :=
  actsAt_of_subset fun _ hfile => h ▸ hfile

lemma rename_actsAt (h : s.Good) (path newName : Text) (result : ℤ) (stored : FileName) :
    ActsAt s (.rename path newName result stored)
      (s.withStorage (s.setFileName haveGetChildren path newName result stored).2) := by
  rcases setFileName_cases haveGetChildren h.sound path newName result stored with
    hadds | ⟨_, m, file, _, hfile, heq⟩
  · exact actsAt_of_device hadds.device
  · intro f hf hnot
    rw [heq] at hnot
    have hid : f.itemId = file.itemId := by
      by_contra hne
      exact hnot (List.mem_map.mpr ⟨f, hf, if_neg hne⟩)
    exact hid ▸ hfile.located

lemma delete_actsAt (h : s.Good) {path : Text} {ret : ℤ}
    (hr : s.deleteObject haveGetChildren path gone ret = some r) :
    ActsAt s (.delete path gone ret) (s.withStorage r.2) := by
  obtain ⟨m, file, _, hfound, hmay, heq⟩ := deleteObject_cases haveGetChildren h.sound hr
  have hdev : r.2.device = s.device.remove gone := by
    rw [heq]
    split <;> rfl
  intro f hf hnot q hq
  change f ∉ r.2.device.objects at hnot
  rw [hdev] at hnot
  have hgone : f.itemId ∈ gone := by
    by_contra hstays
    exact hnot (List.mem_filter.mpr ⟨hf, by simpa using hstays⟩)
  cases file with
  | none =>
    -- the device is asked to delete the object 0, and there is none
    have hzero : s.device.find 0 = none := by
      rw [Device.find, List.find?_eq_none]
      exact fun g hg => by simpa using (s.device.proper g hg).1
    rw [hmay.2.1 hzero] at hgone
    cases hgone
  | some g =>
    exact Tree.prefix_of_inside Device.node_root (hmay.1 _ hgone) (hfound g rfl).located hq

lemma step_actsAt (h : s.Good) (hstep : step haveGetChildren s l = some u) : ActsAt s l u := by
  cases l with
  | tick ms =>
    obtain rfl := Option.some.inj hstep
    exact actsAt_of_device rfl
  | hush ids =>
    obtain rfl := Option.some.inj hstep
    exact actsAt_of_subset fun _ hfile => hfile
  | stat path =>
    obtain rfl := Option.some.inj hstep
    exact actsAt_of_device (getFileFromPath_looked haveGetChildren h.sound path).device
  | list path =>
    obtain rfl := Option.some.inj hstep
    exact actsAt_of_device (getFilesAndFolders_looked haveGetChildren h.sound path).device
  | list2 path =>
    have hadds := (getFilesAndFolders2_spec haveGetChildren h.sound path).1
    simp only [step] at hstep
    split at hstep
    · split at hstep
      all_goals
        rename_i heq
        rw [heq] at hadds
        obtain rfl := Option.some.inj hstep
        exact actsAt_of_device hadds.device
    · obtain rfl := Option.some.inj hstep
      exact actsAt_of_device rfl
  | run i =>
    obtain ⟨lister, _, rfl⟩ := Option.map_eq_some_iff.mp hstep
    apply actsAt_of_device
    unfold State.runLister
    split
    · rfl
    · dsimp only
      split <;> rfl
  | abort i =>
    obtain ⟨lister, _, rfl⟩ := Option.map_eq_some_iff.mp hstep
    exact actsAt_of_device rfl
  | rename path newName result stored =>
    obtain rfl := Option.some.inj hstep
    exact rename_actsAt haveGetChildren h path newName result stored
  | createFolder path folderId stored =>
    obtain ⟨r, hr, rfl⟩ := Option.map_eq_some_iff.mp hstep
    rcases createFolder_cases haveGetChildren h.sound hr with
      hadds | ⟨_, m, parentId, _, _, hmay, heq⟩
    · exact actsAt_of_device hadds.device
    · rw [heq]
      exact actsAt_of_subset fun _ hfile => List.mem_append_left _ hfile
  | send path =>
    obtain rfl := Option.some.inj hstep
    exact actsAt_of_device (sendFileFromFileDescriptor_looked haveGetChildren h.sound path).device
  | sent i itemId stored =>
    obtain ⟨sending, _, hu⟩ := Option.bind_eq_some_iff.mp hstep
    unfold State.sendFile at hu
    dsimp only at hu
    split at hu
    · obtain rfl := Option.some.inj hu
      exact actsAt_of_device rfl
    · split at hu
      · obtain rfl := Option.some.inj hu
        exact actsAt_of_subset fun _ hfile => List.mem_append_left _ hfile
      · cases hu
  | delete path gone ret =>
    obtain ⟨r, hr, rfl⟩ := Option.map_eq_some_iff.mp hstep
    exact delete_actsAt haveGetChildren h hr

end Steps

/-- The daemon when it has found the storage. -/
def initial (now : ℕ) (dev : Device) : State := ⟨⟨now, [], dev⟩, [], []⟩

lemma initial_good (now : ℕ) (dev : Device) : (initial now dev).Good :=
  ⟨fun _ hitem => (nomatch hitem), fun _ hl => (nomatch hl)⟩

/-- Every valid file that `getFileFromPath` returns is an object, and at just that path; what the
next step renames or deletes is where it was asked for. -/
def Faithful (s : State) : Prop :=
  (∀ path file, (s.getFileFromPath haveGetChildren path).1 = some file →
    Found s.device (names path) file) ∧
  ∀ l u, step haveGetChildren s l = some u → ActsAt s l u

/-- In a run of careful steps the cache does not mislead. -/
theorem lookups_faithful {now : ℕ} {dev : Device} {ls : List Label} {t : State}
    (hcare : AllSteps (step haveGetChildren) Careful (initial now dev) ls)
    (hrun : Run.run (step haveGetChildren) (initial now dev) ls = some t) :
    Faithful haveGetChildren t := by
  have hgood : t.Good :=
    run_inv (fun s l u h hc hs => step_good haveGetChildren h hc hs) hcare
      (initial_good now dev) hrun
  exact ⟨fun path => (getFileFromPath_spec haveGetChildren hgood.sound path).2,
    fun l u => step_actsAt haveGetChildren hgood⟩

instance decidableCareful : ∀ s l, Decidable (Careful s l)
  | _, .rename _ _ _ _ => inferInstanceAs (Decidable (_ → _ ∧ _ ∧ _ ∧ _))
  | _, .createFolder _ _ _ => inferInstanceAs (Decidable (_ → _ ∧ _ ∧ _))
  | _, .sent _ _ _ => inferInstanceAs (Decidable (_ → _))
  | _, .tick _ | _, .hush _ | _, .stat _ | _, .list _ | _, .list2 _ | _, .run _ | _, .abort _
  | _, .send _ | _, .delete _ _ _ => .isTrue trivial

def letter (c : Char) (h : '/' ≠ c) : FileName where
  text := [c]
  ne_nil := List.cons_ne_nil c []
  sep_notMem := List.not_mem_cons_of_ne_of_not_mem h List.not_mem_nil

lemma sep_ne_a : '/' ≠ 'a' := by decide

lemma sep_ne_b : '/' ≠ 'b' := by decide

lemma sep_ne_x : '/' ≠ 'x' := by decide

def folderWithFile : List KMTPFile :=
  [⟨1, filesAndFoldersRoot, letter 'a' sep_ne_a, true⟩, ⟨2, 1, letter 'x' sep_ne_x, false⟩]

lemma folderWithFile_nodup : (folderWithFile.map KMTPFile.itemId).Nodup := by decide

lemma folderWithFile_proper :
    ∀ file ∈ folderWithFile, file.itemId ≠ 0 ∧ file.itemId ≠ filesAndFoldersRoot := by decide

/-- `/a/x`. -/
def twoLevels : Device := ⟨folderWithFile, [], folderWithFile_nodup, folderWithFile_proper⟩

/-- The file is shown, a minute goes by, the folder is renamed and listed, gets a second folder
and a file, and is deleted. -/
def carefulRun : List Label :=
  [.stat ['/', 'a', '/', 'x'], .tick 60000, .rename ['/', 'a'] ['b'] 0 (letter 'b' sep_ne_b),
    .list2 ['/', 'b'], .run 0, .run 0,
    .createFolder ['/', 'b', '/', 'a'] 3 (letter 'a' sep_ne_a), .stat ['/', 'b', '/', 'a'],
    .send ['/', 'b', '/', 'b'], .sent 0 4 (letter 'b' sep_ne_b),
    .delete ['/', 'b', '/', 'x'] [2] 0, .list ['/', 'b'], .hush [3], .stat ['/', 'b', '/', 'a']]

theorem carefulRun_faithful : ∃ t,
    Run.run (step true) (initial 0 twoLevels) carefulRun = some t ∧ Faithful true t := by
  have hrun : (Run.run (step true) (initial 0 twoLevels) carefulRun).isSome := by decide
  obtain ⟨t, ht⟩ := Option.isSome_iff_exists.mp hrun
  exact ⟨t, ht, lookups_faithful true (by decide) ht⟩

def renamedFolder : List Label :=
  [.stat ['/', 'a', '/', 'x'], .rename ['/', 'a'] ['b'] 0 (letter 'b' sep_ne_b)]

/-- The entry of the file stays: at its old path the daemon finds what is at another one. -/
theorem renamedFolder_unfaithful : ¬ ∀ (now : ℕ) (dev : Device) (ls : List Label) (t : State),
    Run.run (step true) (initial now dev) ls = some t → Faithful true t := by
  intro h
  have hrun : (Run.run (step true) (initial 0 twoLevels) renamedFolder).map (fun t =>
      ((t.getFileFromPath true ['/', 'a', '/', 'x']).1.map KMTPFile.itemId, t.device.node 1,
        t.device.node 2)) =
      some (some 2, some (filesAndFoldersRoot, letter 'b' sep_ne_b),
        some (1, letter 'x' sep_ne_x)) := by decide
  obtain ⟨t, ht, hvalues⟩ := Option.map_eq_some_iff.mp hrun
  obtain ⟨hfile, hnodes⟩ := Prod.mk.inj hvalues
  obtain ⟨hnode1, hnode2⟩ := Prod.mk.inj hnodes
  obtain ⟨file, hfile, hid⟩ := Option.map_eq_some_iff.mp hfile
  have hat := ((h 0 twoLevels renamedFolder t ht).1 _ file hfile).located
  rw [hid] at hat
  obtain ⟨q, hfolder, hq⟩ := Tree.At.parent Device.node_root hnode2 hat
  obtain ⟨p, _, rfl⟩ := Tree.At.parent Device.node_root hnode1 hfolder
  have hhead := congrArg List.head? hq
  cases p with
  | nil => exact absurd hhead (by decide)
  | cons n p =>
    have hlength := congrArg List.length hq
    simp only [List.cons_append, List.length_cons, List.length_append, List.length_nil] at hlength
    have htwo : (names ['/', 'a', '/', 'x'] : List FileName).length = 2 := by decide
    omega

end KioExtras.Mtp.PathCache
