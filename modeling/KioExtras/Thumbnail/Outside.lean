import KioExtras.Thumbnail.Arithmetic

/-!
Where the extractor goes to in the file, and when it refuses to leave it.
-/

namespace KioExtras.Thumbnail.Exe.Recorded

open Lib.Stream Lib.Stream.Program Lib.Stream.Traced List

/-- In the file, or at its end. -/
def Within (input : Bytes) (offset : ℤ) : Prop := 0 ≤ offset ∧ offset ≤ input.length

def Event.Inside (input : Bytes) : Event → Prop
  | .place offset => Within input offset
  | _ => True

/-! ### The images -/

section images

variable {dev : Device} {undef : Undefined} {s s' t : Streams} {n : ℕ} {dataOffset : UInt32}
  {entries : List RtGroupIconDirectoryEntry} {resources : List Resource}
  {find : RtGroupIconDirectoryEntry → Option Resource}

def AllFound (dev : Device) (find : RtGroupIconDirectoryEntry → Option Resource)
    (entries : List RtGroupIconDirectoryEntry) : Prop :=
  ∀ entry ∈ entries, ∃ resource, find entry = some resource ∧ CanSeek dev resource.offset

def ImagesWithin (input : Bytes) (find : RtGroupIconDirectoryEntry → Option Resource)
    (entries : List RtGroupIconDirectoryEntry) : Prop :=
  ∀ entry ∈ entries, ∀ resource, find entry = some resource → Within input resource.offset

def Found (find : RtGroupIconDirectoryEntry → Option Resource)
    (entries : List RtGroupIconDirectoryEntry) (resources : List Resource) : Prop :=
  Forall₂ (fun entry resource => find entry = some resource) entries resources

lemma found_nil_iff : Found find [] resources ↔ resources = [] := forall₂_nil_left_iff

lemma found_cons_iff {entry : RtGroupIconDirectoryEntry} :
    Found find (entry :: entries) resources ↔ ∃ resource rest,
      find entry = some resource ∧ Found find entries rest ∧ resources = resource :: rest :=
  forall₂_cons_left_iff

lemma gives_writeImages_iff : (∃ t, (Exe.writeImages dev resources).Gives s () t) ↔
    ∀ resource ∈ resources, CanSeek dev resource.offset := by
  induction resources generalizing s with
  | nil => exact iff_of_true ⟨s, rfl⟩ fun _ h => absurd h not_mem_nil
  | cons resource rest ih =>
    simp only [Exe.writeImages, gives_bind, gives_seek_iff, gives_readBlock, gives_write,
      forall_mem_cons]
    constructor
    · rintro ⟨t, _, _, ⟨hseek, rfl⟩, _, _, ⟨rfl, rfl⟩, _, _, rfl, hrest⟩
      exact ⟨hseek, ih.mp ⟨t, hrest⟩⟩
    · rintro ⟨hseek, hrest⟩
      obtain ⟨t, ht⟩ := ih.mpr hrest
      exact ⟨t, (), _, ⟨hseek, rfl⟩, _, _, ⟨rfl, rfl⟩, (), _, rfl, ht⟩

lemma found_iff : (∃ resources, Found find entries resources ∧
      ∀ resource ∈ resources, CanSeek dev resource.offset) ↔ AllFound dev find entries := by
  induction entries with
  | nil =>
    refine iff_of_true ⟨[], .nil, ?_⟩ ?_ <;> exact fun _ h => absurd h not_mem_nil
  | cons entry entries ih =>
    unfold AllFound at ih ⊢
    rw [forall_mem_cons, ← ih]
    constructor
    · rintro ⟨_, hfound, hall⟩
      cases hfound with
      | cons hfind hrest =>
        obtain ⟨hseek, hall⟩ := forall_mem_cons.mp hall
        exact ⟨⟨_, hfind, hseek⟩, _, hrest, hall⟩
    · rintro ⟨⟨resource, hfind, hseek⟩, resources, hrest, hall⟩
      exact ⟨resource :: resources, .cons hfind hrest, forall_mem_cons.mpr ⟨hseek, hall⟩⟩

lemma Found.within {input : Bytes} (h : Found find entries resources) :
    (∀ resource ∈ resources, Within input resource.offset) ↔ ImagesWithin input find entries := by
  induction h with
  | nil => exact iff_of_true (fun _ h => absurd h not_mem_nil) fun _ h => absurd h not_mem_nil
  | cons hfind _ ih =>
    unfold ImagesWithin at ih ⊢
    rw [forall_mem_cons, forall_mem_cons, ih, hfind]
    simp

lemma inside_writeImages (h : (Exe.writeImages dev resources).Gives s () t) :
    Every (Event.Inside dev.input) (writeImages dev resources) s ↔
      ∀ resource ∈ resources, Within dev.input resource.offset := by
  induction resources generalizing s with
  | nil => exact iff_of_true (every_pure ()) fun _ h => absurd h not_mem_nil
  | cons resource rest ih =>
    rw [Exe.writeImages] at h
    obtain ⟨_, u, hu, h⟩ := gives_bind.mp h
    obtain ⟨image, v, hv, h⟩ := gives_bind.mp h
    obtain ⟨_, w, hw, h⟩ := gives_bind.mp h
    rw [← program_seek] at hu
    rw [writeImages, every_bind_of_gives hu, every_lift_bind hv, every_lift_bind hw, ih h,
      every_seek, forall_mem_cons]
    rfl

/-- The icon an entry of the group names, if it has the size of the group. -/
def findNe (undef : Undefined) (group : NeGroup) (entry : RtGroupIconDirectoryEntry) :
    Option Resource := do
  let iconRes ← group.find entry
  if entry.size = iconRes.dataLength.toUInt32 then some (group.resource undef iconRes) else none

variable {group : NeGroup}

lemma findNe_eq_some {entry : RtGroupIconDirectoryEntry} {resource : Resource} :
    findNe undef group entry = some resource ↔ ∃ iconRes, group.find entry = some iconRes ∧
      entry.size = iconRes.dataLength.toUInt32 ∧ group.resource undef iconRes = resource := by
  unfold findNe
  rw [Option.bind_eq_bind, Option.bind_eq_some_iff]
  simp

lemma gives_writePeEntries_iff {group : PeGroup}
    (h : (times (RtGroupIconDirectoryEntry.read dev) n).Gives s' entries t)
    (hpos : s'.pos = s.pos) :
    (∃ u, (Exe.writePeEntries dev group n dataOffset).Gives s resources u) ↔
      Found group.find entries resources := by
  induction n generalizing s s' entries dataOffset resources with
  | zero =>
    obtain ⟨rfl, -⟩ := gives_times_zero.mp h
    rw [found_nil_iff]
    simp only [Exe.writePeEntries, gives_pure]
    constructor
    · rintro ⟨_, heq, _⟩
      exact heq.symm
    · exact fun heq => ⟨s, heq.symm, rfl⟩
  | succ n ih =>
    obtain ⟨entry, rest, u, rfl, hentry, hrest⟩ := gives_times_succ.mp h
    have hread := reads_groupEntry.gives hentry s.written
    rw [hpos] at hread
    rw [found_cons_iff]
    simp only [Exe.writePeEntries, gives_bind, gives_write, gives_ofOption, gives_pure]
    constructor
    · rintro ⟨v, _, _, hread', _, _, rfl, resource, _, ⟨hfind, rfl⟩, resources', w, hw, rfl, rfl⟩
      obtain ⟨rfl, rfl⟩ := hread.unique hread'
      refine ⟨resource, resources', hfind, (ih hrest ?_).mp ⟨_, hw⟩, rfl⟩
      rfl
    · rintro ⟨resource, resources', hfind, hfound, rfl⟩
      have hnext : ∃ v, (Exe.writePeEntries dev group n (dataOffset + resource.size)).Gives
          ⟨u.pos, s.written ++ (IconDirEntry.ofGroup entry dataOffset).bytes⟩ resources' v := by
        refine (ih hrest ?_).mpr hfound
        rfl
      obtain ⟨v, hv⟩ := hnext
      exact ⟨v, entry, _, hread, (), _, rfl, resource, _, ⟨hfind, rfl⟩, resources', v, hv, rfl, rfl⟩

lemma gives_writeNeEntries_iff
    (h : (times (RtGroupIconDirectoryEntry.read dev) n).Gives s' entries t)
    (hpos : s'.pos = s.pos) :
    (∃ u, (Exe.writeNeEntries dev undef group n dataOffset).Gives s resources u) ↔
      Found (findNe undef group) entries resources := by
  induction n generalizing s s' entries dataOffset resources with
  | zero =>
    obtain ⟨rfl, -⟩ := gives_times_zero.mp h
    rw [found_nil_iff]
    simp only [Exe.writeNeEntries, gives_pure]
    constructor
    · rintro ⟨_, heq, _⟩
      exact heq.symm
    · exact fun heq => ⟨s, heq.symm, rfl⟩
  | succ n ih =>
    obtain ⟨entry, rest, u, rfl, hentry, hrest⟩ := gives_times_succ.mp h
    have hread := reads_groupEntry.gives hentry s.written
    rw [hpos] at hread
    rw [found_cons_iff]
    simp only [Exe.writeNeEntries, gives_bind, gives_write, gives_ofOption, gives_check, gives_pure,
      findNe_eq_some]
    constructor
    · rintro ⟨v, _, _, hread', iconRes, _, ⟨hfind, rfl⟩, _, _, rfl, _, _, ⟨hsize, rfl⟩,
        resources', w, hw, rfl, rfl⟩
      obtain ⟨rfl, rfl⟩ := hread.unique hread'
      refine ⟨_, resources', ⟨iconRes, hfind, hsize, rfl⟩, (ih hrest ?_).mp ⟨_, hw⟩, rfl⟩
      rfl
    · rintro ⟨_, resources', ⟨iconRes, hfind, hsize, rfl⟩, hfound, rfl⟩
      have hnext : ∃ v, (Exe.writeNeEntries dev undef group n (dataOffset + entry.size)).Gives
          ⟨u.pos, s.written ++ (IconDirEntry.ofGroup entry dataOffset).bytes⟩ resources' v := by
        refine (ih hrest ?_).mpr hfound
        rfl
      obtain ⟨v, hv⟩ := hnext
      exact ⟨v, entry, _, hread, iconRes, _, ⟨hfind, rfl⟩, (), _, rfl, (), _, ⟨hsize, rfl⟩,
        resources', v, hv, rfl, rfl⟩

lemma gives_images_iff {x : Program (List Resource)}
    (hx : ∀ resources, (∃ u, x.Gives s resources u) ↔ Found find entries resources) :
    (∃ t, (x >>= Exe.writeImages dev).Gives s () t) ↔ AllFound dev find entries := by
  rw [← found_iff]
  simp only [gives_bind]
  constructor
  · rintro ⟨t, resources, u, hu, ht⟩
    exact ⟨resources, (hx resources).mp ⟨u, hu⟩, gives_writeImages_iff.mp ⟨t, ht⟩⟩
  · rintro ⟨resources, hfound, hall⟩
    obtain ⟨u, hu⟩ := (hx resources).mpr hfound
    obtain ⟨t, ht⟩ := gives_writeImages_iff.mpr hall
    exact ⟨t, resources, u, hu, ht⟩

end images

/-! ### What goes nowhere -/

section nowhere

variable {dev : Device} {undef : Undefined} {input : Bytes} {s : Streams}

lemma inside_firstOffset (count : UInt16) : Every (Event.Inside input) (firstOffset count) s := by
  simp [firstOffset, every_bind, Event.Inside]

lemma inside_addressToOffset (sections : List PeSection) (rva : UInt32) (s : Streams) :
    Every (Event.Inside input) (addressToOffset sections rva) s := by
  induction sections generalizing s with
  | nil => exact every_pure _
  | cons section_ sections ih =>
    refine every_bind.mpr ⟨every_add.mpr trivial, fun sectionEnd t _ => ?_⟩
    split
    · simp [every_bind, Event.Inside]
    · exact ih t

lemma inside_writePeEntries (group : PeGroup) (n : ℕ) (dataOffset : UInt32) (s : Streams) :
    Every (Event.Inside input) (writePeEntries dev group n dataOffset) s := by
  induction n generalizing dataOffset s with
  | zero => exact every_pure _
  | succ n ih => simp [writePeEntries, every_bind, inside_addressToOffset, Event.Inside, ih]

lemma inside_writeNeEntries (group : NeGroup) (n : ℕ) (dataOffset : UInt32) (s : Streams) :
    Every (Event.Inside input) (writeNeEntries dev undef group n dataOffset) s := by
  induction n generalizing dataOffset s with
  | zero => exact every_pure _
  | succ n ih => simp [writeNeEntries, every_bind, Event.Inside, ih]

lemma inside_readResourceDataDirectoryEntry :
    Every (Event.Inside input) (readResourceDataDirectoryEntry dev) s := by
  simp [readResourceDataDirectoryEntry, every_bind, Event.Inside]

end nowhere

/-! ### The resource tree -/

section tree

variable (dev : Device) (resourceOffset : ℤ)

def directoryAt (place : ℤ) : List PeResourceDirectoryEntry :=
  ((Exe.readResourceDataDirectoryEntry dev) ⟨place.toNat, []⟩).1.getD []

def Level3Within (entry3 : PeResourceDirectoryEntry) : Prop :=
  entry3.offset &&& PeSubdirBitMask = PeSubdirBitMask ∨
    Within dev.input (entry3.place resourceOffset)

def Level2Within (entry2 : PeResourceDirectoryEntry) : Prop :=
  entry2.offset &&& PeSubdirBitMask = 0 ∨ Within dev.input (entry2.place resourceOffset) ∧
    ∀ entry3 ∈ directoryAt dev (entry2.place resourceOffset), Level3Within dev resourceOffset entry3

def Level1Within (entry1 : PeResourceDirectoryEntry) : Prop :=
  entry1.offset &&& PeSubdirBitMask = 0 ∨ Within dev.input (entry1.place resourceOffset) ∧
    ∀ entry2 ∈ directoryAt dev (entry1.place resourceOffset), Level2Within dev resourceOffset entry2

def TreeWithin : Prop :=
  Within dev.input resourceOffset ∧
    ∀ entry1 ∈ directoryAt dev resourceOffset, Level1Within dev resourceOffset entry1

variable {dev resourceOffset} {s t u : Streams}

lemma directoryAt_eq {place : ℤ} {a : Unit} {entries : List PeResourceDirectoryEntry}
    (hseek : (Program.seek dev place).Gives s a t)
    (h : (Exe.readResourceDataDirectoryEntry dev).Gives t entries u) :
    directoryAt dev place = entries := by
  obtain ⟨-, rfl⟩ := gives_seek hseek
  have hgives := reads_directoryEntry.gives h []
  rw [directoryAt, show _ = _ from hgives]
  rfl

@[simp] lemma inside_seekEntry {entry : PeResourceDirectoryEntry} :
    Every (Event.Inside dev.input) (seekEntry dev resourceOffset entry) s ↔
      Within dev.input (entry.place resourceOffset) := by
  simp [seekEntry, every_bind, Event.Inside]

variable {entry1 entry2 : PeResourceDirectoryEntry} {icons icons' : PeIcons}

lemma inside_readLevel3 {entry3 : PeResourceDirectoryEntry} :
    Every (Event.Inside dev.input) (readLevel3 dev resourceOffset entry1 entry2 icons entry3) s ↔
      Level3Within dev resourceOffset entry3 := by
  unfold readLevel3 Level3Within
  split
  · next hdir => exact iff_of_true (every_pure _) (Or.inl hdir)
  · next hdir => simp [every_bind, hdir]

lemma inside_readLevel2
    (h : (Exe.readLevel2 dev resourceOffset entry1 icons entry2).Gives s icons' t) :
    Every (Event.Inside dev.input) (readLevel2 dev resourceOffset entry1 icons entry2) s ↔
      Level2Within dev resourceOffset entry2 := by
  unfold readLevel2 Level2Within
  unfold Exe.readLevel2 at h
  split at h
  · next hdir =>
    rw [if_pos hdir]
    exact iff_of_true (every_pure _) (Or.inl hdir)
  · next hdir =>
    obtain ⟨_, u, hu, h⟩ := gives_bind.mp h
    obtain ⟨level3, v, hv, h⟩ := gives_bind.mp h
    rw [if_neg hdir, or_iff_right hdir, directoryAt_eq hu hv]
    rw [← program_seekEntry] at hu
    rw [← program_readResourceDataDirectoryEntry] at hv
    rw [every_bind_of_gives hu, every_bind_of_gives hv, inside_seekEntry,
      and_iff_right inside_readResourceDataDirectoryEntry]
    refine and_congr_right fun _ => every_foldlM_of_gives ?_ (c := icons') (t := t) ?_
    · intro icons entry3 s _ _ _
      exact inside_readLevel3
    · simpa only [program_foldlM, program_readLevel3] using h

lemma inside_readLevel1 (h : (Exe.readLevel1 dev resourceOffset icons entry1).Gives s icons' t) :
    Every (Event.Inside dev.input) (readLevel1 dev resourceOffset icons entry1) s ↔
      Level1Within dev resourceOffset entry1 := by
  unfold readLevel1 Level1Within
  unfold Exe.readLevel1 at h
  split at h
  · next hdir =>
    rw [if_pos hdir]
    exact iff_of_true (every_pure _) (Or.inl hdir)
  · next hdir =>
    obtain ⟨_, u, hu, h⟩ := gives_bind.mp h
    obtain ⟨level2, v, hv, h⟩ := gives_bind.mp h
    rw [if_neg hdir, or_iff_right hdir, directoryAt_eq hu hv]
    rw [← program_seekEntry] at hu
    rw [← program_readResourceDataDirectoryEntry] at hv
    rw [every_bind_of_gives hu, every_bind_of_gives hv, inside_seekEntry,
      and_iff_right inside_readResourceDataDirectoryEntry]
    refine and_congr_right fun _ => every_foldlM_of_gives ?_ (c := icons') (t := t) ?_
    · intro icons entry2 s icons' t ht
      rw [program_readLevel2] at ht
      exact inside_readLevel2 ht
    · simpa only [program_foldlM, program_readLevel2] using h

lemma inside_readPeTree {sections : List PeSection} {virtualAddress : UInt32}
    (h : (readPeTree dev sections virtualAddress).program.Gives s icons t) :
    Every (Event.Inside dev.input) (readPeTree dev sections virtualAddress) s ↔
      TreeWithin dev (Exe.addressToOffset sections virtualAddress) := by
  simp only [readPeTree, program_bind, program_addressToOffset, program_lift, pure_bind,
    program_seek, program_readResourceDataDirectoryEntry] at h
  obtain ⟨_, u, hu, h⟩ := gives_bind.mp h
  obtain ⟨_, v, hv, h⟩ := gives_bind.mp h
  obtain ⟨level1, w, hw, h⟩ := gives_bind.mp h
  rw [TreeWithin, directoryAt_eq hv hw]
  rw [← program_seek] at hv
  rw [← program_readResourceDataDirectoryEntry] at hw
  rw [readPeTree, every_pure_bind (program_addressToOffset _ _),
    and_iff_right (inside_addressToOffset _ _ _), every_lift_bind hu, every_bind_of_gives hv,
    every_bind_of_gives hw, every_seek, and_iff_right inside_readResourceDataDirectoryEntry]
  refine and_congr_right fun _ => every_foldlM_of_gives ?_ h
  intro icons entry1 s icons' t ht
  rw [program_readLevel1] at ht
  exact inside_readLevel1 ht

end tree

/-! ### The two readers -/

section readers

variable (dev : Device) (undef : Undefined) (dosHeader : DosHeader)

def sectionTableOffset (fileHeader : PeFileHeader) : ℕ :=
  dosHeader.newHeaderOffset.toNat + (PeSignatureSize + PeFileHeaderSize) +
    fileHeader.sizeOfOptionalHeader.toNat

def dataDirOffset (isPe32Plus : Bool) : ℕ :=
  dosHeader.newHeaderOffset.toNat +
    (if isPe32Plus then PeOffsetToDataDirectoryPe32Plus else PeOffsetToDataDirectoryPe32) +
    ResourceIndex * PeDataDirectorySize

def PeComplete : Prop :=
  ∃ group entries, (peEntries dev undef dosHeader).result = some (group, entries) ∧
    AllFound dev group.find entries

/-- The icons of an NE file are all there, with the sizes that the group gives. -/
def NeComplete : Prop :=
  ∃ group entries, (neEntries dev undef dosHeader).result = some (group, entries) ∧
    AllFound dev (findNe undef group) entries

structure PeWithin : Prop where
  tables : ∀ {header}, (Exe.readPeHeader dev undef dosHeader).result = some header →
    Within dev.input (sectionTableOffset dosHeader header.1) ∧
      Within dev.input (dataDirOffset dosHeader header.2)
  tree : ∀ {sections virtualAddress},
    (peTables dev undef dosHeader).result = some (sections, virtualAddress) →
    TreeWithin dev (Exe.addressToOffset sections virtualAddress)
  group : ∀ {sections icons resource},
    (peResources dev undef dosHeader).result = some (sections, icons) →
    icons.primaryIconGroupResource = some resource →
    Within dev.input (Exe.addressToOffset sections resource.dataAddress)
  icons : ∀ {group entries}, (peEntries dev undef dosHeader).result = some (group, entries) →
    ImagesWithin dev.input group.find entries

structure NeWithin : Prop where
  table : ∀ {fileHeader}, (neHeader dev undef dosHeader).result = some fileHeader →
    Within dev.input
      (dosHeader.newHeaderOffset + fileHeader.offsetOfResourceTable.toUInt32).toNat
  group : ∀ {resources type icons resource},
    (neTable dev undef dosHeader).result = some resources →
    resources.types GroupIcon = some type → resources.types Icon = some icons →
    type.resources.head? = some resource →
    Within dev.input (Exe.shift undef resource.dataOffsetShifted resources.alignmentShiftCount)
  icons : ∀ {group entries}, (neEntries dev undef dosHeader).result = some (group, entries) →
    ImagesWithin dev.input (findNe undef group) entries

variable {dev undef dosHeader} {s t : Streams}

lemma gives_pe_iff :
    (∃ t, (Exe.readPortableExecutablePrimaryIcon dev undef dosHeader).Gives s () t) ↔
      PeComplete dev undef dosHeader := by
  unfold PeComplete
  simp only [Exe.readPortableExecutablePrimaryIcon, gives_bind, gives_write,
    anywhere_peEntries.result_eq_some s, gives_peEntries]
  constructor
  · rintro ⟨t, header, u, hu, group, v, hv, _, _, rfl, himages⟩
    obtain ⟨entries, x, hx, -⟩ :=
      advances_groupEntry.times group.primaryIconGroup.count.toNat v
    refine ⟨group, entries, ⟨x, header, u, v, hu, hv, hx⟩, ?_⟩
    refine (gives_images_iff fun _ => gives_writePeEntries_iff hx ?_).mp
      ⟨t, gives_bind.mpr himages⟩
    rfl
  · rintro ⟨group, entries, ⟨x, header, u, v, hu, hv, hx⟩, hall⟩
    obtain ⟨t, ht⟩ := (gives_images_iff (s := ⟨v.pos, v.written ++ _⟩) fun _ =>
      gives_writePeEntries_iff hx rfl).mpr hall
    exact ⟨t, header, u, hu, group, v, hv, (), _, rfl, gives_bind.mp ht⟩

lemma gives_ne_iff :
    (∃ t, (Exe.readNewExecutablePrimaryIcon dev undef dosHeader).Gives s () t) ↔
      NeComplete dev undef dosHeader := by
  unfold NeComplete
  simp only [Exe.readNewExecutablePrimaryIcon, gives_bind, gives_write,
    anywhere_neEntries.result_eq_some s, gives_neEntries]
  constructor
  · rintro ⟨t, group, u, hu, _, _, rfl, himages⟩
    obtain ⟨entries, v, hv, -⟩ := advances_groupEntry.times group.iconGroup.count.toNat u
    refine ⟨group, entries, ⟨v, u, hu, hv⟩, ?_⟩
    refine (gives_images_iff fun _ => gives_writeNeEntries_iff hv ?_).mp
      ⟨t, gives_bind.mpr himages⟩
    rfl
  · rintro ⟨group, entries, ⟨v, u, hu, hv⟩, hall⟩
    obtain ⟨t, ht⟩ := (gives_images_iff (s := ⟨u.pos, u.written ++ _⟩) fun _ =>
      gives_writeNeEntries_iff hv rfl).mpr hall
    exact ⟨t, group, u, hu, (), _, rfl, gives_bind.mp ht⟩

lemma inside_readPeHeader :
    Every (Event.Inside dev.input) (readPeHeader dev undef dosHeader) s ↔
      Within dev.input dosHeader.newHeaderOffset.toNat := by
  simp [readPeHeader, every_bind, Event.Inside]

lemma inside_readPeSections (fileHeader : PeFileHeader) :
    Every (Event.Inside dev.input) (readPeSections dev dosHeader fileHeader) s ↔
      Within dev.input (sectionTableOffset dosHeader fileHeader) := by
  simp [readPeSections, every_bind, Event.Inside, sectionTableOffset]

lemma inside_readPeDirectory (isPe32Plus : Bool) :
    Every (Event.Inside dev.input) (readPeDirectory dev dosHeader isPe32Plus) s ↔
      Within dev.input (dataDirOffset dosHeader isPe32Plus) := by
  simp [readPeDirectory, every_bind, Event.Inside, dataDirOffset]

lemma inside_readPeGroupAt {sections : List PeSection} {icons : PeIcons}
    {resource : PeResourceDataEntry} (hprimary : icons.primaryIconGroupResource = some resource) :
    Every (Event.Inside dev.input) (readPeGroupAt dev sections icons) s ↔
      Within dev.input (Exe.addressToOffset sections resource.dataAddress) := by
  rw [readPeGroupAt, every_lift_bind (gives_ofOption.mpr ⟨hprimary, rfl⟩),
    every_pure_bind (program_addressToOffset _ _),
    and_iff_right (inside_addressToOffset _ _ _)]
  simp [every_bind, Event.Inside]

lemma inside_pe (h : (Exe.readPortableExecutablePrimaryIcon dev undef dosHeader).Gives s () t) :
    Every (Event.Inside dev.input) (readPortableExecutablePrimaryIcon dev undef dosHeader) s ↔
      Within dev.input dosHeader.newHeaderOffset.toNat ∧ PeWithin dev undef dosHeader := by
  simp only [Exe.readPortableExecutablePrimaryIcon, gives_bind, gives_write] at h
  obtain ⟨header, u, hu, group, v, hv, _, _, rfl, resources, w, hw, ht⟩ := h
  obtain ⟨entries, x, hx, -⟩ := advances_groupEntry.times group.primaryIconGroup.count.toNat v
  have hentries := (anywhere_peEntries.result_eq_some s).mpr
    ⟨x, gives_peEntries.mpr ⟨header, u, v, hu, hv, hx⟩⟩
  have hfound : Found group.find entries resources := by
    refine (gives_writePeEntries_iff hx ?_).mp ⟨w, hw⟩
    rfl
  have hheader := (anywhere_readPeHeader.result_eq_some s).mpr ⟨u, hu⟩
  have hgroup := hv
  rw [← program_readPeGroup, readPeGroup, program_bind] at hgroup
  obtain ⟨sections, a, ha, hgroup⟩ := gives_bind.mp hgroup
  rw [program_bind] at hgroup
  obtain ⟨resourceDirectory, b, hb, hgroup⟩ := gives_bind.mp hgroup
  rw [program_bind] at hgroup
  obtain ⟨icons, c, hc, hgroup⟩ := gives_bind.mp hgroup
  have hb' := gives_peTables.mpr ⟨header, u, a, resourceDirectory, hu, ha, hb, rfl⟩
  have htables := (anywhere_peTables.result_eq_some s).mpr ⟨b, hb'⟩
  have hresources := (anywhere_peResources.result_eq_some s).mpr
    ⟨c, gives_peResources.mpr ⟨_, b, hb', hc⟩⟩
  obtain ⟨resource, hprimary⟩ : ∃ resource, icons.primaryIconGroupResource = some resource := by
    rw [readPeGroupAt, program_bind, program_lift] at hgroup
    obtain ⟨resource, _, hprimary, -⟩ := gives_bind.mp hgroup
    exact ⟨resource, (gives_ofOption.mp hprimary).1⟩
  rw [← program_readPeHeader] at hu
  rw [← program_readPeGroup] at hv
  rw [← program_writePeEntries] at hw
  have hall : Every (Event.Inside dev.input)
        (readPortableExecutablePrimaryIcon dev undef dosHeader) s ↔
      Within dev.input dosHeader.newHeaderOffset.toNat ∧
        (Within dev.input (sectionTableOffset dosHeader header.1) ∧
          Within dev.input (dataDirOffset dosHeader header.2) ∧
          TreeWithin dev (Exe.addressToOffset sections resourceDirectory.virtualAddress) ∧
          Within dev.input (Exe.addressToOffset sections resource.dataAddress)) ∧
        ImagesWithin dev.input group.find entries := by
    rw [readPortableExecutablePrimaryIcon, every_bind_of_gives hu, inside_readPeHeader]
    refine and_congr_right fun _ => ?_
    rw [every_bind_of_gives hv, readPeGroup, every_bind_of_gives ha, inside_readPeSections,
      every_bind_of_gives hb, inside_readPeDirectory, every_bind_of_gives hc, inside_readPeTree hc,
      inside_readPeGroupAt hprimary, every_lift_bind (a := ()) (gives_write.mpr rfl),
      every_pure_bind (program_firstOffset _), and_iff_right (inside_firstOffset _),
      every_bind_of_gives hw, and_iff_right (inside_writePeEntries _ _ _ _),
      inside_writeImages ht, hfound.within]
  rw [hall]
  refine and_congr_right fun _ => ⟨?_, fun h => ?_⟩
  · rintro ⟨⟨hsections, hdirectory, htree, hgroup⟩, himages⟩
    refine ⟨fun {header'} h => ?_, fun {sections' virtualAddress} h => ?_,
      fun {sections' icons' resource'} h h' => ?_, fun {group' entries'} h => ?_⟩
    · obtain rfl := Option.some.inj (hheader.symm.trans h)
      exact ⟨hsections, hdirectory⟩
    · obtain ⟨rfl, rfl⟩ := Prod.mk.inj (Option.some.inj (htables.symm.trans h))
      exact htree
    · obtain ⟨rfl, rfl⟩ := Prod.mk.inj (Option.some.inj (hresources.symm.trans h))
      obtain rfl := Option.some.inj (hprimary.symm.trans h')
      exact hgroup
    · obtain ⟨rfl, rfl⟩ := Prod.mk.inj (Option.some.inj (hentries.symm.trans h))
      exact himages
  · exact ⟨⟨(h.tables hheader).1, (h.tables hheader).2, h.tree htables,
      h.group hresources hprimary⟩, h.icons hentries⟩

lemma inside_readNeHeader :
    Every (Event.Inside dev.input) (readNeHeader dev undef dosHeader) s ↔
      Within dev.input dosHeader.newHeaderOffset.toNat := by
  simp [readNeHeader, every_bind, Event.Inside]

lemma inside_readNeTable (fileHeader : NeFileHeader) :
    Every (Event.Inside dev.input) (readNeTable dev dosHeader fileHeader) s ↔
      Within dev.input
        (dosHeader.newHeaderOffset + fileHeader.offsetOfResourceTable.toUInt32).toNat := by
  simp only [readNeTable, every_bind, every_add, every_seek, every_lift, program_add, gives_pure,
    Event.Inside, implies_true, and_true, true_and]
  constructor
  · exact fun h => h _ s ⟨rfl, rfl⟩
  · rintro h _ _ ⟨heq, _⟩
    exact heq ▸ h

lemma inside_readNeGroupAt {resources : NeResourceTable} {type icons : NeType}
    {resource : NeResource} (htype : resources.types GroupIcon = some type)
    (hicons : resources.types Icon = some icons) (hfirst : type.resources.head? = some resource) :
    Every (Event.Inside dev.input) (readNeGroupAt dev undef resources) s ↔
      Within dev.input
        (Exe.shift undef resource.dataOffsetShifted resources.alignmentShiftCount) := by
  rw [readNeGroupAt, every_lift_bind (gives_ofOption.mpr ⟨htype, rfl⟩),
    every_lift_bind (gives_ofOption.mpr ⟨hicons, rfl⟩),
    every_lift_bind (gives_ofOption.mpr ⟨hfirst, rfl⟩), every_pure_bind (program_shift _ _ _),
    every_shift, and_iff_right (by trivial)]
  simp [every_bind, Event.Inside]

lemma inside_ne (h : (Exe.readNewExecutablePrimaryIcon dev undef dosHeader).Gives s () t) :
    Every (Event.Inside dev.input) (readNewExecutablePrimaryIcon dev undef dosHeader) s ↔
      Within dev.input dosHeader.newHeaderOffset.toNat ∧ NeWithin dev undef dosHeader := by
  simp only [Exe.readNewExecutablePrimaryIcon, gives_bind, gives_write] at h
  obtain ⟨group, u, hu, _, _, rfl, resources, v, hv, ht⟩ := h
  obtain ⟨entries, w, hw, -⟩ := advances_groupEntry.times group.iconGroup.count.toNat u
  have hentries := (anywhere_neEntries.result_eq_some s).mpr
    ⟨w, gives_neEntries.mpr ⟨u, hu, hw⟩⟩
  have hfound : Found (findNe undef group) entries resources := by
    refine (gives_writeNeEntries_iff hw ?_).mp ⟨v, hv⟩
    rfl
  have hgroup := hu
  rw [readNeGroup_eq] at hgroup
  obtain ⟨table, a, htable', hgroup⟩ := gives_bind.mp hgroup
  have htable := (anywhere_neTable.result_eq_some s).mpr ⟨a, htable'⟩
  obtain ⟨fileHeader, b, hb, ha⟩ := gives_bind.mp htable'
  have hheader := (anywhere_neHeader.result_eq_some s).mpr ⟨b, hb⟩
  obtain ⟨type, icons, resource, htype, hicons, hfirst⟩ : ∃ type icons resource,
      table.types GroupIcon = some type ∧ table.types Icon = some icons ∧
        type.resources.head? = some resource := by
    simp only [readNeGroupAt, program_bind, program_lift, gives_bind, gives_ofOption] at hgroup
    obtain ⟨type, _, ⟨htype, -⟩, icons, _, ⟨hicons, -⟩, resource, _, ⟨hfirst, -⟩, -⟩ := hgroup
    exact ⟨type, icons, resource, htype, hicons, hfirst⟩
  rw [← program_readNeGroup] at hu
  rw [← program_writeNeEntries] at hv
  have hall : Every (Event.Inside dev.input)
        (readNewExecutablePrimaryIcon dev undef dosHeader) s ↔
      (Within dev.input dosHeader.newHeaderOffset.toNat ∧
        Within dev.input
          (dosHeader.newHeaderOffset + fileHeader.offsetOfResourceTable.toUInt32).toNat ∧
        Within dev.input
          (Exe.shift undef resource.dataOffsetShifted table.alignmentShiftCount)) ∧
        ImagesWithin dev.input (findNe undef group) entries := by
    rw [readNewExecutablePrimaryIcon, every_bind_of_gives hu, readNeGroup, every_bind_of_gives hb,
      inside_readNeHeader, every_bind_of_gives ha, inside_readNeTable,
      inside_readNeGroupAt htype hicons hfirst, every_lift_bind (a := ()) (gives_write.mpr rfl),
      every_pure_bind (program_firstOffset _), and_iff_right (inside_firstOffset _),
      every_bind_of_gives hv, and_iff_right (inside_writeNeEntries _ _ _ _),
      inside_writeImages ht, hfound.within]
  rw [hall, and_assoc]
  refine and_congr_right fun _ => ⟨?_, fun h => ?_⟩
  · rintro ⟨⟨hplace, hfirst'⟩, himages⟩
    refine ⟨fun {fileHeader'} h => ?_, fun {table' type' icons' resource'} h htype' _ h' => ?_,
      fun {group' entries'} h => ?_⟩
    · obtain rfl := Option.some.inj (hheader.symm.trans h)
      exact hplace
    · obtain rfl := Option.some.inj (htable.symm.trans h)
      obtain rfl := Option.some.inj (htype.symm.trans htype')
      obtain rfl := Option.some.inj (hfirst.symm.trans h')
      exact hfirst'
    · obtain ⟨rfl, rfl⟩ := Prod.mk.inj (Option.some.inj (hentries.symm.trans h))
      exact himages
  · exact ⟨⟨h.table hheader, h.group htable htype hicons hfirst⟩, h.icons hentries⟩

end readers

/-! ### The extractor -/

section extractor

variable {dev : Device} {undef : Undefined} {dosHeader : DosHeader} {s t : Streams}

lemma neHeader_of_pe {header : PeFileHeader × Bool}
    (h : (Exe.readPeHeader dev undef dosHeader).result = some header) :
    (neHeader dev undef dosHeader).result = none := by
  obtain ⟨t, ht⟩ := result_eq_some.mp h
  obtain ⟨rest, hrest⟩ := readPeHeader_gives ht
  rw [← Option.not_isSome_iff_eq_none, Option.isSome_iff_exists]
  rintro ⟨fileHeader, hne⟩
  obtain ⟨u, hu⟩ := result_eq_some.mp hne
  simp only [neHeader, readNeHeader, program_bind, program_seek, program_lift, gives_bind,
    gives_check] at hu
  obtain ⟨_, v, hseek, signature, w, hsignature, _, _, ⟨rfl, rfl⟩, -⟩ := hu
  obtain ⟨-, rfl⟩ := gives_seek hseek
  have hhead := readRawData_head hsignature hrest
  simp at hhead

lemma result_neHeader_of_table {resources : NeResourceTable}
    (h : (neTable dev undef dosHeader).result = some resources) :
    ∃ fileHeader, (neHeader dev undef dosHeader).result = some fileHeader := by
  obtain ⟨t, ht⟩ := result_eq_some.mp h
  obtain ⟨fileHeader, u, hu, -⟩ := gives_bind.mp ht
  exact ⟨fileHeader, result_eq_some.mpr ⟨u, hu⟩⟩

lemma result_neHeader_of_entries {group : NeGroup} {entries : List RtGroupIconDirectoryEntry}
    (h : (neEntries dev undef dosHeader).result = some (group, entries)) :
    ∃ fileHeader, (neHeader dev undef dosHeader).result = some fileHeader := by
  obtain ⟨t, ht⟩ := result_eq_some.mp h
  obtain ⟨u, hu, -⟩ := gives_neEntries.mp ht
  rw [readNeGroup_eq] at hu
  obtain ⟨resources, v, hv, -⟩ := gives_bind.mp hu
  exact result_neHeader_of_table (result_eq_some.mpr ⟨v, hv⟩)

lemma NeFits.of_none (h : (neHeader dev undef dosHeader).result = none) :
    NeFits dev undef dosHeader := by
  refine ⟨fun hheader => ?_, fun htable _ _ _ => ?_, fun hentries => ?_⟩
  · simp [h] at hheader
  · obtain ⟨_, hheader⟩ := result_neHeader_of_table htable
    simp [h] at hheader
  · obtain ⟨_, hheader⟩ := result_neHeader_of_entries hentries
    simp [h] at hheader

lemma NeWithin.of_none (h : (neHeader dev undef dosHeader).result = none) :
    NeWithin dev undef dosHeader := by
  refine ⟨fun hheader => ?_, fun htable _ _ _ => ?_, fun hentries => ?_⟩
  · simp [h] at hheader
  · obtain ⟨_, hheader⟩ := result_neHeader_of_table htable
    simp [h] at hheader
  · obtain ⟨_, hheader⟩ := result_neHeader_of_entries hentries
    simp [h] at hheader

lemma result_peHeader_of_tables {sections : List PeSection} {virtualAddress : UInt32}
    (h : (peTables dev undef dosHeader).result = some (sections, virtualAddress)) :
    ∃ header, (Exe.readPeHeader dev undef dosHeader).result = some header := by
  obtain ⟨t, ht⟩ := result_eq_some.mp h
  obtain ⟨header, u, _, _, hu, -⟩ := gives_peTables.mp ht
  exact ⟨header, result_eq_some.mpr ⟨u, hu⟩⟩

lemma PeWithin.of_none (h : (Exe.readPeHeader dev undef dosHeader).result = none) :
    PeWithin dev undef dosHeader := by
  have hno : ∀ header, (Exe.readPeHeader dev undef dosHeader).result ≠ some header := by
    simp [h]
  refine ⟨fun hheader => absurd hheader (hno _), fun htables => ?_, fun hresources _ => ?_,
    fun hentries => ?_⟩
  · obtain ⟨header, hheader⟩ := result_peHeader_of_tables htables
    exact absurd hheader (hno header)
  · obtain ⟨t, ht⟩ := result_eq_some.mp hresources
    obtain ⟨virtualAddress, u, hu, -⟩ := gives_peResources.mp ht
    obtain ⟨header, hheader⟩ := result_peHeader_of_tables (result_eq_some.mpr ⟨u, hu⟩)
    exact absurd hheader (hno header)
  · obtain ⟨t, ht⟩ := result_eq_some.mp hentries
    obtain ⟨header, u, _, hu, -⟩ := gives_peEntries.mp ht
    exact absurd (result_eq_some.mpr ⟨u, hu⟩) (hno header)

section marked

variable (hdos : (DosHeader.read dev undef.dosSignature).Gives ⟨0, []⟩ dosHeader s)
  (hmz : dosHeader.signature = [77, 90])

include hdos hmz

lemma recorded_iff (P : Event → Prop) : (∀ e ∈ (loadIcoDataFromExe dev undef).1, P e) ↔
    Every P (readPortableExecutablePrimaryIcon dev undef dosHeader) s ∧
      ∀ t, Exe.readPortableExecutablePrimaryIcon dev undef dosHeader s = (none, t) →
        Every P (readNewExecutablePrimaryIcon dev undef dosHeader) t := by
  rw [Gives] at hdos
  unfold loadIcoDataFromExe Every
  rw [hdos, ← program_readPortableExecutablePrimaryIcon]
  dsimp only
  rw [if_neg (not_not_intro hmz)]
  unfold program
  rcases readPortableExecutablePrimaryIcon dev undef dosHeader s with ⟨events, _ | ⟨⟩, t⟩
  · dsimp only
    rcases hne : readNewExecutablePrimaryIcon dev undef dosHeader t with ⟨more, _ | ⟨⟩, u⟩ <;>
      simp only [forall_mem_append, Prod.mk.injEq, true_and, forall_eq', hne]
  · simp

lemma loadIcoDataFromExe_eq_true : (Exe.loadIcoDataFromExe dev undef).1 = true ↔
    PeComplete dev undef dosHeader ∨ NeComplete dev undef dosHeader := by
  rw [← gives_pe_iff (s := s)]
  rw [Gives] at hdos
  unfold Exe.loadIcoDataFromExe
  rw [hdos]
  dsimp only
  rw [if_neg (not_not_intro hmz)]
  rcases hpe : Exe.readPortableExecutablePrimaryIcon dev undef dosHeader s with ⟨_ | ⟨⟩, t⟩
  · have hno : ¬ ∃ t, (Exe.readPortableExecutablePrimaryIcon dev undef dosHeader).Gives s () t := by
      rintro ⟨u, hu⟩
      simp [Gives, hpe] at hu
    rw [or_iff_right hno, ← gives_ne_iff (s := t)]
    dsimp only
    rcases hne : Exe.readNewExecutablePrimaryIcon dev undef dosHeader t with ⟨_ | ⟨⟩, u⟩
    · simp [Gives, hne]
    · simp [Gives, hne]
  · exact iff_of_true rfl (Or.inl ⟨t, hpe⟩)

lemma exact_iff : (∀ e ∈ (loadIcoDataFromExe dev undef).1, e.Exact) ↔
    PeFits dev undef dosHeader ∧ NeFits dev undef dosHeader := by
  rw [recorded_iff hdos hmz, exact_pe]
  refine and_congr_right fun _ => ?_
  simp only [exact_ne]
  rcases hpe : Exe.readPortableExecutablePrimaryIcon dev undef dosHeader s with ⟨_ | ⟨⟩, t⟩
  · simp
  · refine iff_of_true (fun _ h => by simp at h) (NeFits.of_none ?_)
    obtain ⟨header, u, hu, -⟩ := gives_bind.mp (show Gives _ _ _ _ from hpe)
    exact neHeader_of_pe ((anywhere_readPeHeader.result_eq_some s).mpr ⟨u, hu⟩)

lemma inside_iff (h : PeComplete dev undef dosHeader ∨ NeComplete dev undef dosHeader) :
    (∀ e ∈ (loadIcoDataFromExe dev undef).1, e.Inside dev.input) ↔
      Within dev.input dosHeader.newHeaderOffset.toNat ∧ PeWithin dev undef dosHeader ∧
        NeWithin dev undef dosHeader := by
  rw [recorded_iff hdos hmz]
  rcases hpe : Exe.readPortableExecutablePrimaryIcon dev undef dosHeader s with ⟨_ | ⟨⟩, t⟩
  · have hno : ¬ PeComplete dev undef dosHeader := by
      rw [← gives_pe_iff (s := s)]
      rintro ⟨u, hu⟩
      simp [Gives, hpe] at hu
    obtain ⟨u, hu⟩ := (gives_ne_iff (s := t)).mpr (h.resolve_left hno)
    -- the header of an NE file: that of a PE file is not there, and nothing else is gone to
    have hheader : (Exe.readPeHeader dev undef dosHeader).result = none := by
      rw [← Option.not_isSome_iff_eq_none, Option.isSome_iff_exists]
      rintro ⟨header, hheader⟩
      have hnone := neHeader_of_pe hheader
      obtain ⟨group, entries, hentries, -⟩ := h.resolve_left hno
      obtain ⟨fileHeader, hsome⟩ := result_neHeader_of_entries hentries
      simp [hnone] at hsome
    have hall : Every (Event.Inside dev.input)
          (readPortableExecutablePrimaryIcon dev undef dosHeader) s ↔
        Within dev.input dosHeader.newHeaderOffset.toNat := by
      rw [readPortableExecutablePrimaryIcon, every_bind, inside_readPeHeader]
      refine and_iff_left fun header v hv => ?_
      rw [program_readPeHeader] at hv
      have hsome := (anywhere_readPeHeader.result_eq_some s).mpr ⟨v, hv⟩
      simp [hheader] at hsome
    rw [hall]
    have hne : (∀ t', (none, t) = ((none, t') : Option Unit × Streams) →
          Every (Event.Inside dev.input)
            (readNewExecutablePrimaryIcon dev undef dosHeader) t') ↔
        Within dev.input dosHeader.newHeaderOffset.toNat ∧ NeWithin dev undef dosHeader := by
      rw [← inside_ne hu]
      simp
    rw [hne]
    constructor
    · rintro ⟨hplace, -, hne⟩
      exact ⟨hplace, PeWithin.of_none hheader, hne⟩
    · rintro ⟨hplace, -, hne⟩
      exact ⟨hplace, hplace, hne⟩
  · rw [inside_pe hpe]
    have hnone : (neHeader dev undef dosHeader).result = none := by
      obtain ⟨header, u, hu, -⟩ := gives_bind.mp (show Gives _ _ _ _ from hpe)
      exact neHeader_of_pe ((anywhere_readPeHeader.result_eq_some s).mpr ⟨u, hu⟩)
    constructor
    · rintro ⟨⟨hplace, hwithin⟩, -⟩
      exact ⟨hplace, hwithin, NeWithin.of_none hnone⟩
    · rintro ⟨hplace, hwithin, -⟩
      exact ⟨⟨hplace, hwithin⟩, fun _ h => by simp at h⟩

end marked

/-- **When the arithmetic is exact and the file is not left**: if and only if, of a file with the
right signature, all that is computed from its tables fits, and all that they lead to is in the
file unless some icon is not found there. -/
theorem loadIcoDataFromExe_exact_iff (dev : Device) (undef : Undefined) :
    ((∀ e ∈ (loadIcoDataFromExe dev undef).1, e.Exact) ∧
      ((∃ e ∈ (loadIcoDataFromExe dev undef).1, ¬ e.Inside dev.input) →
        (Exe.loadIcoDataFromExe dev undef).1 = false)) ↔
    ∀ dosHeader, (DosHeader.read dev undef.dosSignature).result = some dosHeader →
      dosHeader.signature = [77, 90] →
      (PeFits dev undef dosHeader ∧ NeFits dev undef dosHeader) ∧
        (PeComplete dev undef dosHeader ∨ NeComplete dev undef dosHeader →
          Within dev.input dosHeader.newHeaderOffset.toNat ∧ PeWithin dev undef dosHeader ∧
            NeWithin dev undef dosHeader) := by
  rcases hdos : DosHeader.read dev undef.dosSignature ⟨0, []⟩ with ⟨_ | dosHeader, s⟩
  · simp [loadIcoDataFromExe, Program.result, hdos]
  have hresult : (DosHeader.read dev undef.dosSignature).result = some dosHeader :=
    result_eq_some.mpr ⟨s, hdos⟩
  by_cases hmz : dosHeader.signature = [77, 90]
  · have hgives : (DosHeader.read dev undef.dosSignature).Gives ⟨0, []⟩ dosHeader s := hdos
    have hrefuses : ((∃ e ∈ (loadIcoDataFromExe dev undef).1, ¬ e.Inside dev.input) →
          (Exe.loadIcoDataFromExe dev undef).1 = false) ↔
        (PeComplete dev undef dosHeader ∨ NeComplete dev undef dosHeader →
          Within dev.input dosHeader.newHeaderOffset.toNat ∧ PeWithin dev undef dosHeader ∧
            NeWithin dev undef dosHeader) := by
      rw [← loadIcoDataFromExe_eq_true hgives hmz]
      have hinside (h : (Exe.loadIcoDataFromExe dev undef).1 = true) :=
        inside_iff hgives hmz ((loadIcoDataFromExe_eq_true hgives hmz).mp h)
      constructor
      · intro hrefuses htrue
        refine (hinside htrue).mp fun e he => ?_
        by_contra hout
        rw [hrefuses ⟨e, he, hout⟩] at htrue
        exact Bool.false_ne_true htrue
      · rintro hwithin ⟨e, he, hout⟩
        rw [← Bool.not_eq_true]
        intro htrue
        exact hout ((hinside htrue).mpr (hwithin htrue) e he)
    rw [exact_iff hgives hmz, hrefuses]
    constructor
    · intro h dosHeader' hresult' _
      obtain rfl := Option.some.inj (hresult.symm.trans hresult')
      exact h
    · intro h
      exact h dosHeader hresult hmz
  · refine iff_of_true ?_ fun dosHeader' hresult' hmz' => ?_
    · simp [loadIcoDataFromExe, hdos, hmz]
    · obtain rfl := Option.some.inj (hresult.symm.trans hresult')
      exact absurd hmz' hmz

end extractor

/-! ### A shift by the width of an `int` -/

/-- An NE file with one group; how its place is to be shifted is in the table. -/
def smallNe (alignmentShiftCount : ℕ) : Bytes := List.flatten [
  [77, 90], replicate 58 0, toBytes 4 64,
  -- 64: the header
  [78, 69], replicate 34 0, toBytes 2 54, replicate 14 0, toBytes 2 0,
  -- 118: the resource table
  toBytes 2 alignmentShiftCount,
  toBytes 2 0x800e, toBytes 2 1, replicate 4 0, toBytes 2 1, replicate 10 0,
  toBytes 2 0x8003, replicate 6 0, toBytes 2 0]

instance : DecidablePred Event.Exact
  | .shift _ _ => inferInstanceAs (Decidable (_ ∧ _))
  | .sum _ _ _ => inferInstanceAs (Decidable (_ < _))
  | .product _ _ _ => inferInstanceAs (Decidable (_ < _))
  | .place _ => inferInstanceAs (Decidable True)

theorem shifted_by_width :
    ¬ ((∀ e ∈ (loadIcoDataFromExe ⟨smallNe 32, true⟩ unreached).1, e.Exact) ∧
      ((∃ e ∈ (loadIcoDataFromExe ⟨smallNe 32, true⟩ unreached).1, ¬ e.Inside (smallNe 32)) →
        (Exe.loadIcoDataFromExe ⟨smallNe 32, true⟩ unreached).1 = false)) := by
  rintro ⟨hexact, -⟩
  exact absurd hexact (by decide +kernel)

end KioExtras.Thumbnail.Exe.Recorded
