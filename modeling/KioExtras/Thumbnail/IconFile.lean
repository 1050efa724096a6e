import KioExtras.Thumbnail.Exe

/-!
When the extractor writes a well-formed icon file.

An icon file is a header, a directory and the images in the order of the directory, nothing
else. The icons an executable names are the entries of its icon group, each with the resource
its number stands for. What is written for them is an icon file of theirs if and only if the
group gives each icon the size of its resource, all of the resource is in the file, and the
image starts below 4 GiB.
-/

namespace KioExtras.Thumbnail.Exe

open Lib.Stream Lib.Stream.Program List

/-! ### Icon files -/

def Resource.bytes (input : Bytes) (r : Resource) : Option Bytes :=
  if 0 ≤ r.offset ∧ r.size.toNat ≤ input.length - r.offset.toNat then
    some ((input.drop r.offset.toNat).take r.size.toNat)
  else none

/-- The images lie one after the other from `offset` on, as the directory says. -/
inductive Layout : ℕ → List IconDirEntry → List Bytes → Prop
  | nil {offset} : Layout offset [] []
  | cons {offset entry entries image images} (hoffset : entry.imageOffset.toNat = offset)
      (hsize : entry.size.toNat = image.length)
      (rest : Layout (offset + image.length) entries images) :
      Layout offset (entry :: entries) (image :: images)

/-- The bytes are an icon file with the given resources of the input for images. -/
def WellFormed (input : Bytes) (resources : List Resource) (out : Bytes) : Prop :=
  ∃ (entries : List IconDirEntry) (images : List Bytes),
    entries.length < 2 ^ 16 ∧
    out = IconDir.bytes ⟨0, 1, UInt16.ofNat entries.length⟩ ++
      entries.flatMap IconDirEntry.bytes ++ images.flatten ∧
    Layout (IconDirSize + IconDirEntrySize * entries.length) entries images ∧
    Forall₂ (fun r image => r.bytes input = some image) resources images

@[simp] lemma IconDir.length_bytes (v : IconDir) : v.bytes.length = IconDirSize := by
  simp [IconDir.bytes, IconDirSize]

@[simp] lemma IconDirEntry.length_bytes (v : IconDirEntry) : v.bytes.length = IconDirEntrySize := by
  simp [IconDirEntry.bytes, IconDirEntrySize]

/-! ### Reading a file back -/

lemma IconDir.count_inj {v w : IconDir} (h : v.bytes = w.bytes) : v.count = w.count := by
  have hcount : toBytes 2 v.count.toNat = toBytes 2 w.count.toNat :=
    (append_inj' h (by simp)).2
  exact UInt16.toNat_inj.mp (toBytes_inj v.count.toNat_lt w.count.toNat_lt hcount)

lemma IconDirEntry.bytes_inj {v w : IconDirEntry} (h : v.bytes = w.bytes) : v = w := by
  unfold IconDirEntry.bytes at h
  obtain ⟨h, hoffset⟩ := append_inj' h (by simp)
  obtain ⟨h, hsize⟩ := append_inj' h (by simp)
  obtain ⟨h, hbpp⟩ := append_inj' h (by simp)
  obtain ⟨h, hplanes⟩ := append_inj' h (by simp)
  obtain ⟨h, hreserved⟩ := append_inj' h (by simp)
  obtain ⟨h, hcolor⟩ := append_inj' h (by simp)
  obtain ⟨hwidth, hheight⟩ := append_inj' h (by simp)
  obtain ⟨width, height, color, reserved, planes, bpp, size, offset⟩ := v
  obtain ⟨width', height', color', reserved', planes', bpp', size', offset'⟩ := w
  obtain rfl := UInt8.toNat_inj.mp (toBytes_inj width.toNat_lt width'.toNat_lt hwidth)
  obtain rfl := UInt8.toNat_inj.mp (toBytes_inj height.toNat_lt height'.toNat_lt hheight)
  obtain rfl := UInt8.toNat_inj.mp (toBytes_inj color.toNat_lt color'.toNat_lt hcolor)
  obtain rfl := UInt8.toNat_inj.mp (toBytes_inj reserved.toNat_lt reserved'.toNat_lt hreserved)
  obtain rfl := UInt16.toNat_inj.mp (toBytes_inj planes.toNat_lt planes'.toNat_lt hplanes)
  obtain rfl := UInt16.toNat_inj.mp (toBytes_inj bpp.toNat_lt bpp'.toNat_lt hbpp)
  obtain rfl := UInt32.toNat_inj.mp (toBytes_inj size.toNat_lt size'.toNat_lt hsize)
  obtain rfl := UInt32.toNat_inj.mp (toBytes_inj offset.toNat_lt offset'.toNat_lt hoffset)
  rfl

lemma directory_inj {entries entries' : List IconDirEntry} {r r' : Bytes}
    (hlen : entries.length = entries'.length)
    (h : entries.flatMap IconDirEntry.bytes ++ r = entries'.flatMap IconDirEntry.bytes ++ r') :
    entries = entries' ∧ r = r' := by
  induction entries generalizing entries' with
  | nil =>
    obtain rfl : entries' = [] := length_eq_zero_iff.mp hlen.symm
    exact ⟨rfl, h⟩
  | cons entry entries ih =>
    obtain ⟨entry', entries', rfl⟩ := exists_cons_of_length_eq_add_one hlen.symm
    rw [flatMap_cons, flatMap_cons, append_assoc, append_assoc] at h
    obtain ⟨hentry, hrest⟩ := append_inj h (by simp)
    obtain ⟨rfl, rfl⟩ := ih (by simpa using hlen) hrest
    exact ⟨by rw [IconDirEntry.bytes_inj hentry], rfl⟩

/-! ### What the extractor writes -/

structure FoundIcon where
  entry : RtGroupIconDirectoryEntry
  resource : Resource
deriving DecidableEq

def findIcons (dev : Device) (count : UInt16)
    (find : RtGroupIconDirectoryEntry → Option Resource) : Program (List FoundIcon) := do
  let entries ← times (RtGroupIconDirectoryEntry.read dev) count.toNat
  ofOption (entries.mapM fun entry => (find entry).map (FoundIcon.mk entry))

def peIcons (dev : Device) (undef : Undefined) : Program (List FoundIcon) := do
  let dosHeader ← DosHeader.read dev undef.dosSignature
  let (fileHeader, isPe32Plus) ← readPeHeader dev undef dosHeader
  let group ← readPeGroup dev dosHeader fileHeader isPe32Plus
  findIcons dev group.primaryIconGroup.count group.find

def neIcons (dev : Device) (undef : Undefined) : Program (List FoundIcon) := do
  let dosHeader ← DosHeader.read dev undef.dosSignature
  let group ← readNeGroup dev undef dosHeader
  findIcons dev group.iconGroup.count fun entry =>
    (group.find entry).map (group.resource undef)

/-- The icons the executable names: those of a PE file, else those of an NE file. -/
def foundIcons (dev : Device) (undef : Undefined) : Option (List FoundIcon) :=
  ((peIcons dev undef) ⟨0, []⟩).1.or ((neIcons dev undef) ⟨0, []⟩).1

/-- The directory, with the offsets as they are counted. -/
def directory : UInt32 → List FoundIcon → List IconDirEntry
  | _, [] => []
  | dataOffset, icon :: rest =>
    IconDirEntry.ofGroup icon.entry dataOffset :: directory (dataOffset + icon.resource.size) rest

def Resource.image (input : Bytes) (r : Resource) : Bytes :=
  (input.drop r.offset.toNat).take r.size.toNat

/-- Group and resources agree, from `offset` on. -/
def ConsistentFrom (input : Bytes) : ℕ → List FoundIcon → Prop
  | _, [] => True
  | offset, icon :: rest =>
    offset < 2 ^ 32 ∧ icon.entry.size = icon.resource.size ∧
      icon.resource.size.toNat ≤ input.length - icon.resource.offset.toNat ∧
      ConsistentFrom input (offset + icon.resource.size.toNat) rest

def Consistent (input : Bytes) (icons : List FoundIcon) : Prop :=
  ConsistentFrom input (IconDirSize + IconDirEntrySize * icons.length) icons

@[simp] lemma length_directory_found (dataOffset : UInt32) (icons : List FoundIcon) :
    (directory dataOffset icons).length = icons.length := by
  induction icons generalizing dataOffset with
  | nil => rfl
  | cons icon icons ih => rw [directory, length_cons, ih, length_cons]

lemma Resource.bytes_eq {input image : Bytes} {r : Resource} (h : r.bytes input = some image) :
    image = r.image input ∧ image.length = r.size.toNat := by
  unfold Resource.bytes at h
  split at h
  · next hin =>
    obtain rfl : _ = image := by simpa using h
    refine ⟨rfl, ?_⟩
    rw [length_take, length_drop]
    omega
  · simp at h

variable {icons : List FoundIcon} {resources : List Resource} {a : Unit} {s t u : Streams} {n : ℕ}

lemma layout_iff {input : Bytes} (offset : ℕ) (hoffset : ∀ icon ∈ icons, 0 ≤ icon.resource.offset) :
    (∃ images, Layout offset (directory (UInt32.ofNat offset) icons) images ∧
      Forall₂ (fun r image => r.bytes input = some image) (icons.map FoundIcon.resource) images) ↔
      ConsistentFrom input offset icons := by
  induction icons generalizing offset with
  | nil => exact ⟨fun _ => trivial, fun _ => ⟨[], .nil, .nil⟩⟩
  | cons icon icons ih =>
    have hnext : UInt32.ofNat offset + icon.resource.size =
        UInt32.ofNat (offset + icon.resource.size.toNat) := by
      rw [UInt32.ofNat_add, UInt32.ofNat_toNat]
    have ih := ih (offset + icon.resource.size.toNat)
      fun i hi => hoffset i (mem_cons_of_mem _ hi)
    rw [directory, hnext]
    constructor
    · rintro ⟨images, hlayout, hresources⟩
      cases hlayout with
      | @cons _ _ _ _ images himage hsize hrest =>
        cases hresources with
        | cons hbytes hresources =>
          obtain ⟨rfl, hlength⟩ := Resource.bytes_eq hbytes
          rw [hlength] at hrest hsize
          refine ⟨?_, UInt32.toNat_inj.mp hsize, ?_, ih.mp ⟨images, hrest, hresources⟩⟩
          · rw [← himage]
            exact UInt32.toNat_lt _
          · rw [← hlength, Resource.image, length_take, length_drop]
            omega
    · rintro ⟨hlt, hsize, hin, hrest⟩
      obtain ⟨images, hlayout, hresources⟩ := ih.mpr hrest
      have hbytes : icon.resource.bytes input = some (icon.resource.image input) :=
        if_pos ⟨hoffset icon (mem_cons_self ..), hin⟩
      have hlength := (Resource.bytes_eq hbytes).2
      refine ⟨icon.resource.image input :: images, .cons ?_ ?_ ?_, .cons hbytes hresources⟩
      · show (UInt32.ofNat offset).toNat = offset
        rw [UInt32.toNat_ofNat_of_lt' hlt]
      · rw [hlength, ← hsize]
        rfl
      · rwa [hlength]

lemma images_eq {input : Bytes} {images : List Bytes}
    (h : Forall₂ (fun r image => r.bytes input = some image) resources images) :
    images = resources.map (Resource.image input) := by
  induction h with
  | nil => rfl
  | cons hbytes _ ih => rw [map_cons, ← ih, (Resource.bytes_eq hbytes).1]

def written (input : Bytes) (icons : List FoundIcon) : Bytes :=
  IconDir.bytes ⟨0, 1, UInt16.ofNat icons.length⟩ ++
    (directory (firstOffset (UInt16.ofNat icons.length)) icons).flatMap IconDirEntry.bytes ++
    (icons.map fun icon => icon.resource.image input).flatten

theorem written_wellFormed_iff {input : Bytes} {icons : List FoundIcon}
    (hcount : icons.length < 2 ^ 16) (hoffset : ∀ icon ∈ icons, 0 ≤ icon.resource.offset) :
    WellFormed input (icons.map FoundIcon.resource) (written input icons) ↔
      Consistent input icons := by
  have hfirst : firstOffset (UInt16.ofNat icons.length) =
      UInt32.ofNat (IconDirSize + IconDirEntrySize * icons.length) := by
    rw [firstOffset, UInt16.toNat_ofNat_of_lt' hcount]
  have hmap : (icons.map fun icon => icon.resource.image input) =
      (icons.map FoundIcon.resource).map (Resource.image input) := by rw [map_map]; rfl
  rw [Consistent, ← layout_iff _ hoffset, written, hfirst, hmap]
  constructor
  · rintro ⟨entries, images, hlength, heq, hlayout, hresources⟩
    rw [append_assoc, append_assoc] at heq
    obtain ⟨hheader, hrest⟩ := append_inj heq (by simp)
    have hcounts : icons.length = entries.length := by
      have hcounts := congrArg UInt16.toNat (IconDir.count_inj hheader)
      rwa [UInt16.toNat_ofNat_of_lt' hcount, UInt16.toNat_ofNat_of_lt' hlength] at hcounts
    obtain ⟨hentries, -⟩ := directory_inj (by simpa using hcounts) hrest
    refine ⟨images, ?_, hresources⟩
    rw [hentries, hcounts]
    exact hlayout
  · rintro ⟨images, hlayout, hresources⟩
    refine ⟨directory (UInt32.ofNat (IconDirSize + IconDirEntrySize * icons.length)) icons,
      images, ?_, ?_, ?_, hresources⟩
    · rwa [length_directory_found]
    · rw [length_directory_found, images_eq hresources]
    · rwa [length_directory_found]

/-! ### From the loops to the icons -/

variable {dev : Device} {undef : Undefined} {dosHeader : DosHeader}

lemma writeImages_gives (h : (writeImages dev resources).Gives s a t) :
    t.written = s.written ++ (resources.map (Resource.image dev.input)).flatten ∧
      ∀ r ∈ resources, 0 ≤ r.offset := by
  induction resources generalizing s with
  | nil =>
    obtain ⟨-, rfl⟩ := gives_pure.mp h
    simp
  | cons r resources ih =>
    rw [writeImages] at h
    simp only [gives_bind, gives_readBlock, gives_write] at h
    obtain ⟨_, _, hseek, _, _, ⟨rfl, rfl⟩, _, _, rfl, hrest⟩ := h
    obtain ⟨hoffset, rfl⟩ := gives_seek hseek
    obtain ⟨hwritten, hoffsets⟩ := ih hrest
    refine ⟨?_, ?_⟩
    · rw [hwritten, map_cons, flatten_cons, ← append_assoc]
      rfl
    · intro r' hr'
      rcases mem_cons.mp hr' with rfl | hr'
      · exact hoffset
      · exact hoffsets r' hr'

/-- What a loop over the entries of a group has done: it has read the entries of `icons`, found
the resources and written the directory. -/
structure Wrote (dev : Device) (find : RtGroupIconDirectoryEntry → Option Resource) (n : ℕ)
    (dataOffset : UInt32) (s t : Streams) (icons : List FoundIcon) : Prop where
  read : (times (RtGroupIconDirectoryEntry.read dev) n).Gives s (icons.map FoundIcon.entry)
    ⟨t.pos, s.written⟩
  found : ∀ icon ∈ icons, find icon.entry = some icon.resource
  written : t.written =
    s.written ++ (directory dataOffset icons).flatMap IconDirEntry.bytes

lemma Wrote.nil (find : RtGroupIconDirectoryEntry → Option Resource) (dataOffset : UInt32)
    (s : Streams) : Wrote dev find 0 dataOffset s s [] :=
  ⟨gives_times_zero.mpr ⟨rfl, rfl⟩, by simp, by simp [directory]⟩

variable {dataOffset : UInt32} {group : NeGroup} {v w : Streams}

lemma Wrote.cons {find : RtGroupIconDirectoryEntry → Option Resource}
    {entry : RtGroupIconDirectoryEntry} {resource : Resource}
    (hread : (RtGroupIconDirectoryEntry.read dev).Gives s entry u)
    (hfind : find entry = some resource) (hrest : Wrote dev find n (dataOffset + resource.size)
      ⟨u.pos, u.written ++ (IconDirEntry.ofGroup entry dataOffset).bytes⟩ t icons) :
    Wrote dev find (n + 1) dataOffset s t (⟨entry, resource⟩ :: icons) := by
  have hsilent := reads_groupEntry.silent hread
  refine ⟨?_, ?_, ?_⟩
  · refine gives_times_succ.mpr ⟨entry, icons.map FoundIcon.entry, u, rfl, hread, ?_⟩
    have htimes := (Reads.times reads_groupEntry n).gives hrest.read s.written
    rw [← hsilent] at htimes ⊢
    exact htimes
  · intro icon hicon
    rcases mem_cons.mp hicon with rfl | hicon
    · exact hfind
    · exact hrest.found icon hicon
  · rw [hrest.written, directory, flatMap_cons, ← append_assoc, hsilent]

lemma writePeEntries_gives {group : PeGroup}
    (h : (writePeEntries dev group n dataOffset).Gives s resources t) :
    ∃ icons, resources = icons.map FoundIcon.resource ∧
      Wrote dev group.find n dataOffset s t icons := by
  induction n generalizing dataOffset s resources with
  | zero =>
    obtain ⟨rfl, rfl⟩ := gives_pure.mp h
    exact ⟨[], rfl, .nil ..⟩
  | succ n ih =>
    rw [writePeEntries] at h
    simp only [gives_bind, gives_write, gives_ofOption, gives_pure] at h
    obtain ⟨entry, u, hread, _, _, rfl, resource, _, ⟨hfind, rfl⟩, rest, _, hrest, rfl, rfl⟩ := h
    obtain ⟨icons, rfl, hwrote⟩ := ih hrest
    exact ⟨⟨entry, resource⟩ :: icons, rfl, .cons hread hfind hwrote⟩

lemma writeNeEntries_gives (h : (writeNeEntries dev undef group n dataOffset).Gives s resources t) :
    ∃ icons, resources = icons.map FoundIcon.resource ∧
      Wrote dev (fun entry => (group.find entry).map (group.resource undef)) n dataOffset s t
        icons := by
  induction n generalizing dataOffset s resources with
  | zero =>
    obtain ⟨rfl, rfl⟩ := gives_pure.mp h
    exact ⟨[], rfl, .nil ..⟩
  | succ n ih =>
    rw [writeNeEntries] at h
    simp only [gives_bind, gives_write, gives_ofOption, gives_check, gives_pure] at h
    obtain ⟨entry, u, hread, res, _, ⟨hfind, rfl⟩, _, _, rfl, _, _, ⟨hsize, rfl⟩, rest, _, hrest,
      rfl, rfl⟩ := h
    rw [hsize] at hrest
    obtain ⟨icons, rfl, hwrote⟩ := ih hrest
    refine ⟨⟨entry, group.resource undef res⟩ :: icons, rfl, .cons hread ?_ hwrote⟩
    rw [hfind]
    rfl

lemma mapM_find {find : RtGroupIconDirectoryEntry → Option Resource}
    (h : ∀ icon ∈ icons, find icon.entry = some icon.resource) :
    (icons.map FoundIcon.entry).mapM (fun entry => (find entry).map (FoundIcon.mk entry)) =
      some icons := by
  induction icons with
  | nil => rfl
  | cons icon icons ih =>
    have hicon := h icon (mem_cons_self ..)
    have hrest := ih fun i hi => h i (mem_cons_of_mem _ hi)
    rw [map_cons, mapM_cons, hrest, hicon]
    rfl

lemma Wrote.finish {find : RtGroupIconDirectoryEntry → Option Resource} {count : UInt16}
    (hs : s.written = []) (hwrote : Wrote dev find count.toNat (firstOffset count)
      ⟨s.pos, s.written ++ IconDir.bytes ⟨0, 1, count⟩⟩ t icons)
    (himages : (writeImages dev (icons.map FoundIcon.resource)).Gives t a u) :
    ((findIcons dev count find) s).1 = some icons ∧ icons.length < 2 ^ 16 ∧
      (∀ icon ∈ icons, 0 ≤ icon.resource.offset) ∧ u.written = Exe.written dev.input icons := by
  obtain ⟨hwritten, hoffsets⟩ := writeImages_gives himages
  have htimes := (Reads.times reads_groupEntry count.toNat).gives hwrote.read s.written
  have hlength : icons.length = count.toNat := by
    have hlength := htimes.length_times
    rwa [length_map] at hlength
  have hcount : UInt16.ofNat icons.length = count := by rw [hlength, UInt16.ofNat_toNat]
  refine ⟨?_, ?_, ?_, ?_⟩
  · have hfind : (ofOption ((icons.map FoundIcon.entry).mapM
        fun entry => (find entry).map (FoundIcon.mk entry))).Gives ⟨t.pos, s.written⟩ icons
        ⟨t.pos, s.written⟩ := gives_ofOption.mpr ⟨mapM_find hwrote.found, rfl⟩
    have hgives : (findIcons dev count find).Gives s icons ⟨t.pos, s.written⟩ :=
      gives_bind.mpr ⟨_, _, htimes, hfind⟩
    rw [hgives]
  · rw [hlength]
    exact count.toNat_lt
  · intro icon hicon
    exact hoffsets _ (mem_map_of_mem hicon)
  · rw [hwritten, hwrote.written, hs, nil_append, Exe.written, hcount, map_map]
    rfl

/-! ### The two signatures -/

lemma gives_quint16_past {a : UInt16} (hs : dev.input.length ≤ s.pos)
    (h : (quint16 dev).Gives s a t) : a = 0 := by
  simp only [quint16, gives_bind, gives_readNumber_past hs, gives_pure] at h
  obtain ⟨_, _, ⟨rfl, rfl⟩, rfl, rfl⟩ := h
  rfl

lemma readRawData_head {junk signature rest : Bytes} {b : UInt8}
    (h : (readRawData dev junk (n + 1)).Gives s signature t) (hb : dev.input.drop s.pos = b :: rest) :
    signature.head? = some b := by
  simp only [readRawData, gives_bind, gives_readBlock, gives_pure] at h
  obtain ⟨_, _, ⟨rfl, rfl⟩, rfl, rfl⟩ := h
  rw [hb]
  rfl

/-- The header of a PE file is there, whatever the rest of a cut signature holds: behind the end
the magic number is 0. -/
lemma readPeHeader_gives {r : PeFileHeader × Bool}
    (h : (readPeHeader dev undef dosHeader).Gives s r t) :
    ∃ rest, dev.input.drop dosHeader.newHeaderOffset.toNat = 80 :: rest := by
  simp only [readPeHeader, gives_bind, gives_check, gives_pure] at h
  obtain ⟨_, u, hseek, signature, v, hsignature, _, _, ⟨rfl, rfl⟩, header, w, hheader, magic, x,
    hmagic, _, _, ⟨hmagics, rfl⟩, -⟩ := h
  obtain ⟨-, rfl⟩ := gives_seek hseek
  cases hdrop : dev.input.drop dosHeader.newHeaderOffset.toNat with
  | cons b rest =>
    have hhead := readRawData_head hsignature hdrop
    obtain rfl : 80 = b := by simpa using hhead
    exact ⟨rest, rfl⟩
  | nil =>
    have hpast : dev.input.length ≤ dosHeader.newHeaderOffset.toNat := drop_eq_nil_iff.mp hdrop
    have hle : dosHeader.newHeaderOffset.toNat ≤ v.pos :=
      (advances_readRawData dev undef.peSignature 4).le hsignature
    have hle' := (advances_peHeader dev).le hheader
    obtain rfl := gives_quint16_past (by omega) hmagic
    rcases hmagics with hmagic | hmagic <;> exact absurd hmagic (by decide)

lemma not_ne_of_pe {rest : Bytes}
    (hpe : dev.input.drop dosHeader.newHeaderOffset.toNat = 80 :: rest) :
    ¬ (readNeGroup dev undef dosHeader).Gives s group t := by
  intro h
  simp only [readNeGroup, gives_bind, gives_check, gives_pure] at h
  obtain ⟨_, u, hseek, signature, v, hsignature, _, _, ⟨rfl, rfl⟩, -⟩ := h
  obtain ⟨-, rfl⟩ := gives_seek hseek
  have hhead := readRawData_head hsignature hpe
  simp at hhead

/-! ### The extractor -/

lemma peIcons_of_wrote {fileHeader : PeFileHeader} {isPe32Plus : Bool} {group : PeGroup}
    (hdos : (DosHeader.read dev undef.dosSignature).Gives ⟨0, []⟩ dosHeader s)
    (hheader : (readPeHeader dev undef dosHeader).Gives s (fileHeader, isPe32Plus) t)
    (hgroup : (readPeGroup dev dosHeader fileHeader isPe32Plus).Gives t group u)
    (hentries : (writePeEntries dev group group.primaryIconGroup.count.toNat
      (firstOffset group.primaryIconGroup.count)).Gives
      ⟨u.pos, u.written ++ IconDir.bytes ⟨0, 1, group.primaryIconGroup.count⟩⟩ resources v)
    (himages : (writeImages dev resources).Gives v a w) :
    ∃ icons, ((peIcons dev undef) ⟨0, []⟩).1 = some icons ∧ icons.length < 2 ^ 16 ∧
      (∀ icon ∈ icons, 0 ≤ icon.resource.offset) ∧ w.written = written dev.input icons := by
  have hs := (reads_dosHeader _).silent hdos
  have ht := reads_readPeHeader.silent hheader
  have hu := (reads_readPeGroup _ _).silent hgroup
  obtain ⟨icons, rfl, hwrote⟩ := writePeEntries_gives hentries
  obtain ⟨hfound, hrest⟩ := hwrote.finish (hu.trans (ht.trans hs)) himages
  refine ⟨icons, ?_, hrest⟩
  rw [peIcons, bind_some hdos, bind_some hheader]
  show (((readPeGroup dev dosHeader fileHeader isPe32Plus) >>= fun group =>
    findIcons dev group.primaryIconGroup.count group.find) t).1 = _
  rw [bind_some hgroup]
  exact hfound

lemma neIcons_of_wrote (hdos : (DosHeader.read dev undef.dosSignature).Gives ⟨0, []⟩ dosHeader s)
    (hwritten : t.written = s.written) (hgroup : (readNeGroup dev undef dosHeader).Gives t group u)
    (hentries : (writeNeEntries dev undef group group.iconGroup.count.toNat
      (firstOffset group.iconGroup.count)).Gives
      ⟨u.pos, u.written ++ IconDir.bytes ⟨0, 1, group.iconGroup.count⟩⟩ resources v)
    (himages : (writeImages dev resources).Gives v a w) :
    ∃ icons, ((neIcons dev undef) ⟨0, []⟩).1 = some icons ∧ icons.length < 2 ^ 16 ∧
      (∀ icon ∈ icons, 0 ≤ icon.resource.offset) ∧ w.written = written dev.input icons := by
  have hs := (reads_dosHeader _).silent hdos
  have hu := reads_readNeGroup.silent hgroup
  obtain ⟨icons, rfl, hwrote⟩ := writeNeEntries_gives hentries
  obtain ⟨hfound, hrest⟩ := hwrote.finish (hu.trans (hwritten.trans hs)) himages
  refine ⟨icons, ?_, hrest⟩
  have hgroup' : (readNeGroup dev undef dosHeader).Gives s group u := by
    rw [readNeGroup, gives_bind] at hgroup ⊢
    obtain ⟨a, v, hseek, hrest⟩ := hgroup
    have hseek := gives_seek_from hseek s.pos
    rw [hwritten] at hseek
    exact ⟨a, v, hseek, hrest⟩
  rw [neIcons, bind_some hdos, bind_some hgroup']
  exact hfound

lemma loadIcoDataFromExe_written {out : Bytes} (h : loadIcoDataFromExe dev undef = (true, out)) :
    ∃ icons, foundIcons dev undef = some icons ∧ icons.length < 2 ^ 16 ∧
      (∀ icon ∈ icons, 0 ≤ icon.resource.offset) ∧ out = written dev.input icons := by
  unfold loadIcoDataFromExe at h
  rcases hdos : DosHeader.read dev undef.dosSignature ⟨0, []⟩ with ⟨_ | dosHeader, s⟩
  · simp [hdos] at h
  rw [hdos] at h
  by_cases hmz : dosHeader.signature ≠ [77, 90]
  · simp [hmz] at h
  simp only [if_neg hmz] at h
  rcases hheader : readPeHeader dev undef dosHeader s with ⟨_ | ⟨fileHeader, isPe32Plus⟩, t⟩
  · -- no PE file: nothing is written before the other reader
    have ht : t.written = s.written := by
      have hreads : Reads (readPeHeader dev undef dosHeader) := reads_readPeHeader
      have hsilent := hreads.written s
      rwa [hheader] at hsilent
    have hpe : readPortableExecutablePrimaryIcon dev undef dosHeader s = (none, t) :=
      bind_none hheader
    have hnone : ((peIcons dev undef) ⟨0, []⟩).1 = none := by
      rw [peIcons, bind_some hdos, bind_none hheader]
    rw [hpe] at h
    rcases hne : readNewExecutablePrimaryIcon dev undef dosHeader t with ⟨_ | ⟨⟩, w⟩
    · simp [hne] at h
    obtain rfl : w.written = out := by simpa [hne] using h
    have hgives : (readNewExecutablePrimaryIcon dev undef dosHeader).Gives t () w := hne
    simp only [readNewExecutablePrimaryIcon, gives_bind, gives_write] at hgives
    obtain ⟨group, u, hgroup, _, _, rfl, resources, v, hentries, himages⟩ := hgives
    obtain ⟨icons, hfound, hrest⟩ := neIcons_of_wrote hdos ht hgroup hentries himages
    refine ⟨icons, ?_, hrest⟩
    rw [foundIcons, hnone, hfound]
    rfl
  · -- a PE file is not an NE file
    rcases hpe : readPortableExecutablePrimaryIcon dev undef dosHeader s with ⟨_ | ⟨⟩, w⟩
    · rw [hpe] at h
      rcases hne : readNewExecutablePrimaryIcon dev undef dosHeader w with ⟨_ | ⟨⟩, x⟩
      · simp [hne] at h
      obtain ⟨group, u, hgroup, -⟩ := gives_bind.mp (show Gives _ _ _ _ from hne)
      obtain ⟨rest, hrest⟩ := readPeHeader_gives (show Gives _ _ _ _ from hheader)
      exact absurd hgroup (not_ne_of_pe hrest)
    · obtain rfl : w.written = out := by simpa [hpe] using h
      have hgives : (readPortableExecutablePrimaryIcon dev undef dosHeader).Gives s () w := hpe
      rw [readPortableExecutablePrimaryIcon, gives_bind] at hgives
      obtain ⟨header, t', hheader', hgives⟩ := hgives
      obtain ⟨rfl, rfl⟩ := hheader'.unique (show Gives _ _ _ _ from hheader)
      simp only [gives_bind, gives_write] at hgives
      obtain ⟨group, u, hgroup, _, _, rfl, resources, v, hentries, himages⟩ := hgives
      obtain ⟨icons, hfound, hrest⟩ := peIcons_of_wrote hdos hheader' hgroup hentries himages
      refine ⟨icons, ?_, hrest⟩
      rw [foundIcons, hfound]
      rfl

/-- What is written is an icon file of the icons the executable names if and only if the group
is consistent with its resources. -/
theorem loadIcoDataFromExe_wellFormed_iff {out : Bytes}
    (h : loadIcoDataFromExe dev undef = (true, out)) :
    ∃ icons, foundIcons dev undef = some icons ∧
      (WellFormed dev.input (icons.map FoundIcon.resource) out ↔ Consistent dev.input icons) := by
  obtain ⟨icons, hfound, hcount, hoffset, rfl⟩ := loadIcoDataFromExe_written h
  exact ⟨icons, hfound, written_wellFormed_iff hcount hoffset⟩

/-! ### A small executable -/

def directoryTable (numIDEntries : ℕ) : Bytes := replicate 14 0 ++ toBytes 2 numIDEntries

/-- A PE file with one icon of four bytes, which the group gives the size `groupSize`. -/
def smallExe (groupSize : ℕ) : Bytes := List.flatten [
  [77, 90], replicate 58 0, toBytes 4 64,
  -- 64: the headers, and the section table in the place of the optional header
  [80, 69, 0, 0, 0, 0, 1, 0], replicate 16 0,
  toBytes 2 0x010b, replicate 14 0, toBytes 4 0xffff, replicate 20 0,
  -- 128: the first level, and the second for the icons
  directoryTable 2, toBytes 4 3, toBytes 4 0x80000020, toBytes 4 14, toBytes 4 0x80000068,
  directoryTable 1, toBytes 4 1, toBytes 4 0x80000050,
  -- 184: the icon, and the data directory
  toBytes 4 316, toBytes 4 4, replicate 8 0, toBytes 4 128, replicate 4 0,
  -- 208: the third level for the icons, then the levels for the group
  directoryTable 1, toBytes 4 0, toBytes 4 56,
  directoryTable 1, toBytes 4 1, toBytes 4 0x80000080,
  directoryTable 1, toBytes 4 0, toBytes 4 152,
  -- 280: the group, and the image
  toBytes 4 296, toBytes 4 20, replicate 8 0,
  [0, 0, 1, 0, 1, 0], [16, 16, 0, 0, 1, 0, 32, 0], toBytes 4 groupSize, [1, 0],
  [1, 2, 3, 4]]

def unreached : Undefined := ⟨[], [], [], fun _ _ => 0⟩

lemma eq_of_fst {p : Bool × Bytes} (h : p.1 = true) : p = (true, p.2) := by
  rw [← h]

theorem wellFormed_small : ∃ icons,
    foundIcons ⟨smallExe 4, true⟩ unreached = some icons ∧
      (WellFormed (smallExe 4) (icons.map FoundIcon.resource)
        (loadIcoDataFromExe ⟨smallExe 4, true⟩ unreached).2 ↔ Consistent (smallExe 4) icons) := by
  have hload : (loadIcoDataFromExe ⟨smallExe 4, true⟩ unreached).1 = true := by decide +kernel
  exact loadIcoDataFromExe_wellFormed_iff (eq_of_fst hload)

/-- The size the group gives goes into the directory, not that of the image. -/
theorem written_larger_than_image :
    (loadIcoDataFromExe ⟨smallExe 7, true⟩ unreached).1 = true ∧ ∃ icons,
      foundIcons ⟨smallExe 7, true⟩ unreached = some icons ∧
        ¬ WellFormed (smallExe 7) (icons.map FoundIcon.resource)
          (loadIcoDataFromExe ⟨smallExe 7, true⟩ unreached).2 := by
  have hload : (loadIcoDataFromExe ⟨smallExe 7, true⟩ unreached).1 = true := by decide +kernel
  have hfound : foundIcons ⟨smallExe 7, true⟩ unreached =
      some [⟨⟨16, 16, 0, 0, 1, 32, 7, 1⟩, ⟨316, 4⟩⟩] := by decide +kernel
  obtain ⟨icons, hicons, hcount, hoffset, hwritten⟩ :=
    loadIcoDataFromExe_written (eq_of_fst hload)
  have hicons : [⟨⟨16, 16, 0, 0, 1, 32, 7, 1⟩, ⟨316, 4⟩⟩] = icons :=
    Option.some.inj (hfound.symm.trans hicons)
  refine ⟨hload, icons, hicons ▸ hfound, fun hwell => ?_⟩
  rw [hwritten, written_wellFormed_iff hcount hoffset, ← hicons] at hwell
  exact absurd hwell.2.1 (by decide)

end KioExtras.Thumbnail.Exe
