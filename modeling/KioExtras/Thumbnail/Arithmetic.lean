import KioExtras.Thumbnail.IconFile
import KioExtras.Thumbnail.Recorded

/-!
When the arithmetic of the extractor is exact.
-/

namespace KioExtras.Thumbnail.Exe.Recorded

open Lib.Stream Lib.Stream.Program Lib.Stream.Traced

/-- A shift is by less than the width of an `int`, and what is computed fits. -/
def Event.Exact : Event → Prop
  | .shift value count => count < 32 ∧ value * 2 ^ count < 2 ^ 31
  | .sum bits a b => a + b < 2 ^ bits
  | .product bits a b => a * b < 2 ^ bits
  | .place _ => True

section steps

variable {P : Event → Prop} {dev : Device} {undef : Undefined} {s : Streams}

@[simp] lemma every_seek {offset : ℤ} : Every P (seek dev offset) s ↔ P (.place offset) := by
  simp [seek, every_bind]

@[simp] lemma every_add {a b : UInt32} : Every P (add a b) s ↔ P (.sum 32 a.toNat b.toNat) := by
  simp [add, every_bind]

variable {a b bits : ℕ}

@[simp] lemma every_addWide : Every P (addWide bits a b) s ↔ P (.sum bits a b) := by
  simp [addWide, every_bind]

@[simp] lemma every_multiply : Every P (multiply bits a b) s ↔ P (.product bits a b) := by
  simp [multiply, every_bind]

@[simp] lemma every_shift {v c : UInt16} :
    Every P (shift undef v c) s ↔ P (.shift v.toNat c.toNat) := by
  simp [shift, every_bind]

end steps

/-! ### What is always exact -/

section exact

variable {dev : Device} {undef : Undefined} {dosHeader : DosHeader} {s : Streams}

lemma exact_firstOffset (count : UInt16) : Every Event.Exact (firstOffset count) s := by
  have hcount := count.toNat_lt
  simp only [firstOffset, every_bind, every_multiply, every_addWide, program_multiply,
    program_addWide, gives_pure, every_pure, Event.Exact, IconDirEntrySize, IconDirSize]
  refine ⟨by omega, ?_⟩
  rintro _ _ ⟨rfl, rfl⟩
  exact ⟨by omega, fun _ _ _ => trivial⟩

lemma exact_writeImages (resources : List Resource) :
    Every Event.Exact (writeImages dev resources) s := by
  induction resources generalizing s with
  | nil => exact every_pure ()
  | cons resource rest ih => simp [writeImages, every_bind, Event.Exact, ih]

lemma exact_readResourceDataDirectoryEntry :
    Every Event.Exact (readResourceDataDirectoryEntry dev) s := by
  simp only [readResourceDataDirectoryEntry, every_bind, every_lift, every_addWide, Event.Exact,
    implies_true, and_true, true_and]
  intro table _ _
  have hnames := table.numNameEntries.toNat_lt
  have hids := table.numIDEntries.toNat_lt
  omega

lemma exact_seekEntry {resourceOffset : ℤ} (hoffset : resourceOffset < 2 ^ 32)
    (entry : PeResourceDirectoryEntry) :
    Every Event.Exact (seekEntry dev resourceOffset entry) s := by
  have hentry := (entry.offset &&& ~~~PeSubdirBitMask).toNat_lt
  simp only [seekEntry, every_bind, every_note, every_seek, Event.Exact, implies_true, and_true]
  omega

section levels

variable (dev) {resourceOffset : ℤ} (hoffset : resourceOffset < 2 ^ 32)

include hoffset

lemma exact_readLevel3 (entry1 entry2 : PeResourceDirectoryEntry) (icons : PeIcons)
    (entry3 : PeResourceDirectoryEntry) (s : Streams) :
    Every Event.Exact (readLevel3 dev resourceOffset entry1 entry2 icons entry3) s := by
  unfold readLevel3
  split
  · exact every_pure _
  · simp [every_bind, exact_seekEntry hoffset]

lemma exact_readLevel2 (entry1 : PeResourceDirectoryEntry) (icons : PeIcons)
    (entry2 : PeResourceDirectoryEntry) (s : Streams) :
    Every Event.Exact (readLevel2 dev resourceOffset entry1 icons entry2) s := by
  unfold readLevel2
  split
  · exact every_pure _
  · have hlevel3 := every_foldlM (exact_readLevel3 dev hoffset entry1 entry2)
    simp [every_bind, exact_seekEntry hoffset, exact_readResourceDataDirectoryEntry, hlevel3]

lemma exact_readLevel1 (icons : PeIcons) (entry1 : PeResourceDirectoryEntry) (s : Streams) :
    Every Event.Exact (readLevel1 dev resourceOffset icons entry1) s := by
  unfold readLevel1
  split
  · exact every_pure _
  · have hlevel2 := every_foldlM (exact_readLevel2 dev hoffset entry1)
    simp [every_bind, exact_seekEntry hoffset, exact_readResourceDataDirectoryEntry, hlevel2]

end levels

lemma exact_readPeHeader : Every Event.Exact (readPeHeader dev undef dosHeader) s := by
  simp [readPeHeader, every_bind, Event.Exact]

lemma exact_readPeSections (fileHeader : PeFileHeader) :
    Every Event.Exact (readPeSections dev dosHeader fileHeader) s := by
  have hheader := dosHeader.newHeaderOffset.toNat_lt
  have hsize := fileHeader.sizeOfOptionalHeader.toNat_lt
  simp only [readPeSections, every_bind, every_addWide, every_seek, every_lift, program_addWide,
    gives_pure, Event.Exact, PeSignatureSize, PeFileHeaderSize, implies_true, and_true]
  refine ⟨by omega, ?_⟩
  rintro _ _ ⟨rfl, rfl⟩
  omega

lemma exact_readPeDirectory (isPe32Plus : Bool) :
    Every Event.Exact (readPeDirectory dev dosHeader isPe32Plus) s := by
  have hheader := dosHeader.newHeaderOffset.toNat_lt
  have hplace : (if isPe32Plus then PeOffsetToDataDirectoryPe32Plus
      else PeOffsetToDataDirectoryPe32) ≤ 136 := by
    cases isPe32Plus <;> decide
  simp only [readPeDirectory, every_bind, every_addWide, every_multiply, every_seek, every_lift,
    program_addWide, program_multiply, gives_pure, Event.Exact, ResourceIndex, PeDataDirectorySize,
    implies_true, and_true]
  refine ⟨by omega, ?_⟩
  rintro _ _ ⟨rfl, rfl⟩
  refine ⟨by omega, ?_⟩
  rintro _ _ ⟨rfl, rfl⟩
  omega

end exact

/-! ### When the rest is exact -/

def ShiftFits (value count : UInt16) : Prop :=
  count.toNat < 32 ∧ value.toNat * 2 ^ count.toNat < 2 ^ 31

/-- Of each section up to the one with the address, the end is below 4 GiB, and so is what the
address stands for. -/
def LookupFits : List PeSection → UInt32 → Prop
  | [], _ => True
  | s :: sections, rva =>
    s.virtualAddress.toNat + s.effectiveSize.toNat < 2 ^ 32 ∧
      if s.virtualAddress ≤ rva ∧ rva < s.virtualAddress + s.effectiveSize then
        (rva - s.virtualAddress).toNat + s.pointerToRawData.toNat < 2 ^ 32
      else LookupFits sections rva

/-- The icons are looked up one after the other until one is not found. -/
def PeEntriesFit (group : PeGroup) : List RtGroupIconDirectoryEntry → ℕ → Prop
  | [], _ => True
  | entry :: entries, dataOffset =>
    match group.iconResources entry.resourceId.toUInt32 with
    | none => True
    | some iconResource =>
      LookupFits group.sections iconResource.dataAddress ∧
        dataOffset + iconResource.size.toNat < 2 ^ 32 ∧
        PeEntriesFit group entries (dataOffset + iconResource.size.toNat)

/-- Here also until one has another size in the group. -/
def NeEntriesFit (group : NeGroup) : List RtGroupIconDirectoryEntry → ℕ → Prop
  | [], _ => True
  | entry :: entries, dataOffset =>
    match group.find entry with
    | none => True
    | some iconRes =>
      entry.size = iconRes.dataLength.toUInt32 →
        ShiftFits iconRes.dataOffsetShifted group.alignmentShiftCount ∧
          dataOffset + entry.size.toNat < 2 ^ 32 ∧
          NeEntriesFit group entries (dataOffset + entry.size.toNat)

section lookup

variable {dev : Device} {undef : Undefined} {s : Streams}

lemma exact_addressToOffset {sections : List PeSection} {rva : UInt32} :
    Every Event.Exact (addressToOffset sections rva) s ↔ LookupFits sections rva := by
  induction sections generalizing s with
  | nil => exact iff_of_true (every_pure _) trivial
  | cons section_ sections ih =>
    rw [addressToOffset, every_bind, every_add, LookupFits]
    refine and_congr_right fun _ => ?_
    have hends : (∀ a t, (add section_.virtualAddress section_.effectiveSize).program.Gives s a t →
        Every Event.Exact (if section_.virtualAddress ≤ rva ∧ rva < a then do
          let offset ← add (rva - section_.virtualAddress) section_.pointerToRawData
          pure (offset.toNat : ℤ)
        else addressToOffset sections rva) t) ↔
        Every Event.Exact (if section_.virtualAddress ≤ rva ∧
            rva < section_.virtualAddress + section_.effectiveSize then do
          let offset ← add (rva - section_.virtualAddress) section_.pointerToRawData
          pure (offset.toNat : ℤ)
        else addressToOffset sections rva) s := by
      simp
    rw [hends]
    split
    · simp [every_bind, Event.Exact]
    · exact ih

lemma addressToOffset_lt (sections : List PeSection) (rva : UInt32) :
    Exe.addressToOffset sections rva < 2 ^ 32 := by
  unfold Exe.addressToOffset
  split
  · next section_ _ =>
    have hlt := (rva - section_.virtualAddress + section_.pointerToRawData).toNat_lt
    omega
  · omega

end lookup

section entries

variable {dev : Device} {undef : Undefined} {n : ℕ} {dataOffset : UInt32} {s s' t : Streams}
  {entries : List RtGroupIconDirectoryEntry}

lemma exact_writePeEntries {group : PeGroup}
    (h : (times (RtGroupIconDirectoryEntry.read dev) n).Gives s' entries t)
    (hpos : s'.pos = s.pos) :
    Every Event.Exact (writePeEntries dev group n dataOffset) s ↔
      PeEntriesFit group entries dataOffset.toNat := by
  induction n generalizing s s' entries dataOffset with
  | zero =>
    obtain ⟨rfl, -⟩ := gives_times_zero.mp h
    exact iff_of_true (every_pure _) trivial
  | succ n ih =>
    obtain ⟨entry, rest, u, rfl, hentry, hrest⟩ := gives_times_succ.mp h
    have hread := reads_groupEntry.gives hentry s.written
    rw [hpos] at hread
    rw [writePeEntries, every_lift_bind hread, every_lift_bind (a := ()) (gives_write.mpr rfl),
      PeEntriesFit]
    cases hfind : group.iconResources entry.resourceId.toUInt32 with
    | none => simp [every_bind]
    | some iconResource =>
      rw [every_lift_bind (gives_ofOption.mpr ⟨rfl, rfl⟩),
        every_pure_bind (program_addressToOffset _ _), exact_addressToOffset,
        every_pure_bind (program_add _ _), every_add, every_bind_pure]
      refine and_congr_right fun _ => and_congr_right fun hsum => ?_
      have hsum : dataOffset.toNat + iconResource.size.toNat < 2 ^ 32 := hsum
      refine (ih hrest ?_).trans ?_
      · rfl
      · rw [UInt32.toNat_add, Nat.mod_eq_of_lt hsum]

lemma exact_writeNeEntries {group : NeGroup}
    (h : (times (RtGroupIconDirectoryEntry.read dev) n).Gives s' entries t)
    (hpos : s'.pos = s.pos) :
    Every Event.Exact (writeNeEntries dev undef group n dataOffset) s ↔
      NeEntriesFit group entries dataOffset.toNat := by
  induction n generalizing s s' entries dataOffset with
  | zero =>
    obtain ⟨rfl, -⟩ := gives_times_zero.mp h
    exact iff_of_true (every_pure _) trivial
  | succ n ih =>
    obtain ⟨entry, rest, u, rfl, hentry, hrest⟩ := gives_times_succ.mp h
    have hread := reads_groupEntry.gives hentry s.written
    rw [hpos] at hread
    rw [writeNeEntries, every_lift_bind hread, NeEntriesFit]
    cases hfind : group.find entry with
    | none => simp [every_bind]
    | some iconRes =>
      rw [every_lift_bind (gives_ofOption.mpr ⟨rfl, rfl⟩),
        every_lift_bind (a := ()) (gives_write.mpr rfl)]
      dsimp only
      by_cases hsize : entry.size = iconRes.dataLength.toUInt32
      · rw [every_lift_bind (a := ()) (gives_check.mpr ⟨hsize, rfl⟩),
          every_pure_bind (program_shift undef _ _), every_shift,
          every_pure_bind (program_add _ _), every_add, every_bind_pure,
          forall_prop_of_true hsize]
        refine and_congr_right fun _ => and_congr_right fun hsum => ?_
        have hsum : dataOffset.toNat + entry.size.toNat < 2 ^ 32 := hsum
        refine (ih hrest ?_).trans ?_
        · rfl
        · rw [UInt32.toNat_add, Nat.mod_eq_of_lt hsum]
      · simp [every_bind, hsize]

end entries

/-! ### What the tables hold -/

section tables

variable (dev : Device) (undef : Undefined) (dosHeader : DosHeader)

def neHeader : Program NeFileHeader := (readNeHeader dev undef dosHeader).program

def neTable : Program NeResourceTable := do
  let fileHeader ← neHeader dev undef dosHeader
  (readNeTable dev dosHeader fileHeader).program

def neEntries : Program (NeGroup × List RtGroupIconDirectoryEntry) := do
  let group ← Exe.readNeGroup dev undef dosHeader
  let entries ← times (RtGroupIconDirectoryEntry.read dev) group.iconGroup.count.toNat
  pure (group, entries)

/-- The sections, and the address of the resource directory. -/
def peTables : Program (List PeSection × UInt32) := do
  let (fileHeader, isPe32Plus) ← Exe.readPeHeader dev undef dosHeader
  let sections ← (readPeSections dev dosHeader fileHeader).program
  let resourceDirectory ← (readPeDirectory dev dosHeader isPe32Plus).program
  pure (sections, resourceDirectory.virtualAddress)

def peResources : Program (List PeSection × PeIcons) := do
  let (sections, virtualAddress) ← peTables dev undef dosHeader
  let icons ← (readPeTree dev sections virtualAddress).program
  pure (sections, icons)

def peEntries : Program (PeGroup × List RtGroupIconDirectoryEntry) := do
  let (fileHeader, isPe32Plus) ← Exe.readPeHeader dev undef dosHeader
  let group ← Exe.readPeGroup dev dosHeader fileHeader isPe32Plus
  let entries ← times (RtGroupIconDirectoryEntry.read dev) group.primaryIconGroup.count.toNat
  pure (group, entries)

/-- For an NE file: the place of the resource table, the shifts of the group and of its icons, and
the places of the images in the icon file. -/
structure NeFits : Prop where
  table : ∀ {fileHeader}, (neHeader dev undef dosHeader).result = some fileHeader →
    dosHeader.newHeaderOffset.toNat + fileHeader.offsetOfResourceTable.toUInt32.toNat < 2 ^ 32
  group : ∀ {resources type icons resource},
    (neTable dev undef dosHeader).result = some resources →
    resources.types GroupIcon = some type → resources.types Icon = some icons →
    type.resources.head? = some resource →
    ShiftFits resource.dataOffsetShifted resources.alignmentShiftCount
  entries : ∀ {group entries}, (neEntries dev undef dosHeader).result = some (group, entries) →
    NeEntriesFit group entries (Exe.firstOffset group.iconGroup.count).toNat

/-- For a PE file: what the addresses of the resource directory, of the group and of its icons
stand for, and the places of the images. -/
structure PeFits : Prop where
  directory : ∀ {sections virtualAddress},
    (peTables dev undef dosHeader).result = some (sections, virtualAddress) →
    LookupFits sections virtualAddress
  group : ∀ {sections icons resource},
    (peResources dev undef dosHeader).result = some (sections, icons) →
    icons.primaryIconGroupResource = some resource → LookupFits sections resource.dataAddress
  entries : ∀ {group entries}, (peEntries dev undef dosHeader).result = some (group, entries) →
    PeEntriesFit group entries (Exe.firstOffset group.primaryIconGroup.count).toNat

end tables

section start

variable {dev : Device} {undef : Undefined} {dosHeader : DosHeader} {s : Streams}

lemma reads_neFileHeader : Reads (NeFileHeader.read dev) := by
  unfold NeFileHeader.read
  repeat refine Reads.bind (by simp) fun _ => ?_
  exact reads_pure _

lemma reads_neTable : Reads (NeResourceTable.read dev) :=
  reads_quint16.bind fun _ => (reads_readTypes _ _).bind fun _ => reads_pure _

lemma anywhere_neHeader : Anywhere (neHeader dev undef dosHeader) := by
  unfold neHeader readNeHeader
  simp only [program_bind, program_seek, program_lift]
  exact (anywhere_seek dev _).bind fun _ => (reads_readRawData _ _).bind fun _ =>
    (reads_check _).bind fun _ => reads_neFileHeader

lemma anywhere_neTable : Anywhere (neTable dev undef dosHeader) := by
  unfold neTable readNeTable
  refine anywhere_neHeader.bind fun fileHeader => ?_
  simp only [program_bind, program_add, program_seek, program_lift, pure_bind]
  exact (reads_seek dev _).bind fun _ => reads_neTable

lemma readNeGroup_eq : Exe.readNeGroup dev undef dosHeader =
    neTable dev undef dosHeader >>= fun resources =>
      (readNeGroupAt dev undef resources).program := by
  rw [← program_readNeGroup]
  simp [readNeGroup, neTable, neHeader]

lemma anywhere_readNeGroup : Anywhere (Exe.readNeGroup dev undef dosHeader) := by
  rw [readNeGroup_eq]
  refine anywhere_neTable.bind fun resources => ?_
  simp only [readNeGroupAt, program_bind, program_lift, program_shift, program_seek, program_pure]
  repeat refine Reads.bind (by simp) fun _ => ?_
  exact reads_pure _

lemma anywhere_neEntries : Anywhere (neEntries dev undef dosHeader) :=
  anywhere_readNeGroup.bind fun _ => (Reads.times reads_groupEntry _).bind fun _ => reads_pure _

lemma advances_groupEntry : Advances (RtGroupIconDirectoryEntry.read dev) := by
  have hquint8 : Advances (quint8 dev) :=
    (advances_readNumber dev 1).bind fun _ => advances_pure _
  unfold RtGroupIconDirectoryEntry.read
  repeat refine Advances.bind (by simp [hquint8, advances_quint16, advances_quint32]) fun _ => ?_
  exact advances_pure _

variable {t : Streams} {sections : List PeSection} {virtualAddress : UInt32}

lemma gives_neEntries {group : NeGroup} {entries : List RtGroupIconDirectoryEntry} :
    (neEntries dev undef dosHeader).Gives s (group, entries) t ↔
      ∃ u, (Exe.readNeGroup dev undef dosHeader).Gives s group u ∧
        (times (RtGroupIconDirectoryEntry.read dev) group.iconGroup.count.toNat).Gives u
          entries t := by
  simp only [neEntries, gives_bind, gives_pure, Prod.mk.injEq]
  constructor
  · rintro ⟨_, u, hu, _, _, ht, ⟨rfl, rfl⟩, rfl⟩
    exact ⟨u, hu, ht⟩
  · rintro ⟨u, hu, ht⟩
    exact ⟨group, u, hu, entries, t, ht, ⟨rfl, rfl⟩, rfl⟩

lemma exact_ne : Every Event.Exact (readNewExecutablePrimaryIcon dev undef dosHeader) s ↔
    NeFits dev undef dosHeader := by
  constructor
  · intro h
    obtain ⟨hgroup, hentries⟩ := every_bind.mp h
    obtain ⟨-, hheader⟩ := every_bind.mp hgroup
    refine ⟨fun {fileHeader} hresult => ?_, fun {resources type icons resource} hresult htype hicons
      hfirst => ?_, fun {group entries} hresult => ?_⟩
    · obtain ⟨t, ht⟩ := (anywhere_neHeader.result_eq_some s).mp hresult
      obtain ⟨htable, -⟩ := every_bind.mp (hheader _ t ht)
      exact every_add.mp (every_bind.mp htable).1
    · obtain ⟨t, ht⟩ := (anywhere_neTable.result_eq_some s).mp hresult
      obtain ⟨fileHeader, u, hu, ht⟩ := gives_bind.mp ht
      have hat := (every_bind.mp (hheader _ u hu)).2 _ t ht
      rw [readNeGroupAt, every_lift_bind (gives_ofOption.mpr ⟨htype, rfl⟩),
        every_lift_bind (gives_ofOption.mpr ⟨hicons, rfl⟩),
        every_lift_bind (gives_ofOption.mpr ⟨hfirst, rfl⟩)] at hat
      exact every_shift.mp (every_bind.mp hat).1
    · obtain ⟨t, ht⟩ := (anywhere_neEntries.result_eq_some s).mp hresult
      obtain ⟨u, hu, hv⟩ := gives_neEntries.mp ht
      rw [← program_readNeGroup] at hu
      have hrest := hentries _ u hu
      rw [every_lift_bind (a := ()) (gives_write.mpr rfl),
        every_pure_bind (program_firstOffset _)] at hrest
      refine (exact_writeNeEntries hv ?_).mp (every_bind.mp hrest.2).1
      rfl
  · intro h
    have hgroup : Every Event.Exact (readNeGroup dev undef dosHeader) s := by
      refine every_bind.mpr ⟨by simp [readNeHeader, every_bind, Event.Exact],
        fun fileHeader t ht => every_bind.mpr ⟨?_, fun resources u hu => ?_⟩⟩
      · have hsum := h.table ((anywhere_neHeader.result_eq_some s).mpr ⟨t, ht⟩)
        simp only [readNeTable, every_bind, every_add, every_seek, every_lift, Event.Exact,
          implies_true, and_true]
        exact hsum
      · have htable := (anywhere_neTable.result_eq_some s).mpr ⟨u, gives_bind.mpr ⟨_, t, ht, hu⟩⟩
        simp only [readNeGroupAt, every_bind, every_lift, every_shift, every_seek, every_pure,
          program_lift, gives_ofOption, Event.Exact, implies_true, and_true, true_and]
        rintro type _ ⟨htype, rfl⟩ icons _ ⟨hicons, rfl⟩ resource _ ⟨hfirst, rfl⟩
        exact h.group htable htype hicons hfirst
    refine every_bind.mpr ⟨hgroup, fun group t ht => ?_⟩
    rw [program_readNeGroup] at ht
    rw [every_lift_bind (a := ()) (gives_write.mpr rfl), every_pure_bind (program_firstOffset _)]
    refine ⟨exact_firstOffset _, every_bind.mpr ⟨?_, fun _ _ _ => exact_writeImages _⟩⟩
    obtain ⟨entries, u, hu, -⟩ := advances_groupEntry.times group.iconGroup.count.toNat t
    have hresult := (anywhere_neEntries.result_eq_some s).mpr
      ⟨u, gives_neEntries.mpr ⟨t, ht, hu⟩⟩
    refine (exact_writeNeEntries hu ?_).mpr (h.entries hresult)
    rfl

lemma exact_readPeTree :
    Every Event.Exact (readPeTree dev sections virtualAddress) s ↔
      LookupFits sections virtualAddress := by
  rw [readPeTree, every_pure_bind (program_addressToOffset _ _), exact_addressToOffset]
  have hlevel1 := every_foldlM
    (exact_readLevel1 dev (addressToOffset_lt sections virtualAddress))
  refine and_iff_left ?_
  simp [every_bind, Event.Exact, exact_readResourceDataDirectoryEntry, hlevel1]

lemma reads_readPeSections (fileHeader : PeFileHeader) :
    Reads (readPeSections dev dosHeader fileHeader).program := by
  have hsection : Reads (PeSection.read dev) := by
    unfold PeSection.read
    repeat refine Reads.bind (by simp) fun _ => ?_
    exact reads_pure _
  simp only [readPeSections, program_bind, program_addWide, program_seek, program_lift, pure_bind]
  exact (reads_seek _ _).bind fun _ => hsection.times _

lemma reads_readPeDirectory (isPe32Plus : Bool) :
    Reads (readPeDirectory dev dosHeader isPe32Plus).program := by
  simp only [readPeDirectory, program_bind, program_addWide, program_multiply, program_seek,
    program_lift, pure_bind]
  exact (reads_seek _ _).bind fun _ => reads_quint32.bind fun _ => reads_quint32.bind fun _ =>
    reads_pure _

lemma reads_readPeTree (sections : List PeSection) (virtualAddress : UInt32) :
    Reads (readPeTree dev sections virtualAddress).program := by
  simp only [readPeTree, program_bind, program_addressToOffset, program_lift, program_seek,
    program_readResourceDataDirectoryEntry, program_foldlM, program_readLevel1, pure_bind]
  exact (reads_check _).bind fun _ => (reads_seek _ _).bind fun _ =>
    reads_directoryEntry.bind fun level1 => Reads.foldlM (reads_readLevel1 _) level1 _

lemma anywhere_readPeHeader : Anywhere (Exe.readPeHeader dev undef dosHeader) := by
  have hheader : Reads (PeFileHeader.read dev) := by
    unfold PeFileHeader.read
    repeat refine Reads.bind (by simp) fun _ => ?_
    exact reads_pure _
  unfold Exe.readPeHeader
  refine (anywhere_seek dev _).bind fun _ => ?_
  repeat refine Reads.bind (by simp [hheader]) fun _ => ?_
  exact reads_pure _

lemma anywhere_peTables : Anywhere (peTables dev undef dosHeader) :=
  anywhere_readPeHeader.bind fun _ => (reads_readPeSections _).bind fun _ =>
    (reads_readPeDirectory _).bind fun _ => reads_pure _

lemma anywhere_peResources : Anywhere (peResources dev undef dosHeader) :=
  anywhere_peTables.bind fun _ => (reads_readPeTree _ _).bind fun _ => reads_pure _

lemma anywhere_peEntries : Anywhere (peEntries dev undef dosHeader) :=
  anywhere_readPeHeader.bind fun _ => (reads_readPeGroup _ _).bind fun _ =>
    (Reads.times reads_groupEntry _).bind fun _ => reads_pure _

lemma gives_peTables :
    (peTables dev undef dosHeader).Gives s (sections, virtualAddress) t ↔
      ∃ header u v resourceDirectory, (Exe.readPeHeader dev undef dosHeader).Gives s header u ∧
        (readPeSections dev dosHeader header.1).program.Gives u sections v ∧
        (readPeDirectory dev dosHeader header.2).program.Gives v resourceDirectory t ∧
        resourceDirectory.virtualAddress = virtualAddress := by
  simp only [peTables, gives_bind, gives_pure, Prod.mk.injEq]
  constructor
  · rintro ⟨header, u, hu, _, v, hv, resourceDirectory, _, ht, ⟨rfl, rfl⟩, rfl⟩
    exact ⟨header, u, v, resourceDirectory, hu, hv, ht, rfl⟩
  · rintro ⟨header, u, v, resourceDirectory, hu, hv, ht, rfl⟩
    exact ⟨header, u, hu, sections, v, hv, resourceDirectory, t, ht, ⟨rfl, rfl⟩, rfl⟩

lemma gives_peResources {icons : PeIcons} :
    (peResources dev undef dosHeader).Gives s (sections, icons) t ↔
      ∃ virtualAddress u, (peTables dev undef dosHeader).Gives s (sections, virtualAddress) u ∧
        (readPeTree dev sections virtualAddress).program.Gives u icons t := by
  simp only [peResources, gives_bind, gives_pure, Prod.mk.injEq]
  constructor
  · rintro ⟨⟨_, virtualAddress⟩, u, hu, _, _, ht, ⟨rfl, rfl⟩, rfl⟩
    exact ⟨virtualAddress, u, hu, ht⟩
  · rintro ⟨virtualAddress, u, hu, ht⟩
    exact ⟨(sections, virtualAddress), u, hu, icons, t, ht, ⟨rfl, rfl⟩, rfl⟩

lemma gives_peEntries {group : PeGroup} {entries : List RtGroupIconDirectoryEntry} :
    (peEntries dev undef dosHeader).Gives s (group, entries) t ↔
      ∃ header u v, (Exe.readPeHeader dev undef dosHeader).Gives s header u ∧
        (Exe.readPeGroup dev dosHeader header.1 header.2).Gives u group v ∧
        (times (RtGroupIconDirectoryEntry.read dev) group.primaryIconGroup.count.toNat).Gives v
          entries t := by
  simp only [peEntries, gives_bind, gives_pure, Prod.mk.injEq]
  constructor
  · rintro ⟨header, u, hu, _, v, hv, _, _, ht, ⟨rfl, rfl⟩, rfl⟩
    exact ⟨header, u, v, hu, hv, ht⟩
  · rintro ⟨header, u, v, hu, hv, ht⟩
    exact ⟨header, u, hu, group, v, hv, entries, t, ht, ⟨rfl, rfl⟩, rfl⟩

lemma exact_pe : Every Event.Exact (readPortableExecutablePrimaryIcon dev undef dosHeader) s ↔
    PeFits dev undef dosHeader := by
  constructor
  · intro h
    obtain ⟨-, h⟩ := every_bind.mp h
    simp only [program_readPeHeader] at h
    refine ⟨fun {sections virtualAddress} hresult => ?_,
      fun {sections icons resource} hresult hprimary => ?_, fun {group entries} hresult => ?_⟩
    · obtain ⟨t, ht⟩ := (anywhere_peTables.result_eq_some s).mp hresult
      obtain ⟨header, u, v, resourceDirectory, hu, hv, hw, rfl⟩ := gives_peTables.mp ht
      obtain ⟨hgroup, -⟩ := every_bind.mp (h header u hu)
      obtain ⟨-, hdirectory⟩ := every_bind.mp ((every_bind.mp hgroup).2 _ v hv)
      exact exact_readPeTree.mp (every_bind.mp (hdirectory _ _ hw)).1
    · obtain ⟨t, ht⟩ := (anywhere_peResources.result_eq_some s).mp hresult
      obtain ⟨virtualAddress, x, hx, ht⟩ := gives_peResources.mp ht
      obtain ⟨header, u, v, resourceDirectory, hu, hv, hw, rfl⟩ := gives_peTables.mp hx
      obtain ⟨hgroup, -⟩ := every_bind.mp (h header u hu)
      obtain ⟨-, hdirectory⟩ := every_bind.mp ((every_bind.mp hgroup).2 _ v hv)
      have hat := (every_bind.mp (hdirectory _ _ hw)).2 _ t ht
      rw [readPeGroupAt, every_lift_bind (gives_ofOption.mpr ⟨hprimary, rfl⟩),
        every_pure_bind (program_addressToOffset _ _)] at hat
      exact exact_addressToOffset.mp hat.1
    · obtain ⟨t, ht⟩ := (anywhere_peEntries.result_eq_some s).mp hresult
      obtain ⟨header, u, v, hu, hv, ht⟩ := gives_peEntries.mp ht
      rw [← program_readPeGroup] at hv
      have hrest := (every_bind.mp (h header u hu)).2 group v hv
      rw [every_lift_bind (a := ()) (gives_write.mpr rfl),
        every_pure_bind (program_firstOffset _)] at hrest
      refine (exact_writePeEntries ht ?_).mp (every_bind.mp hrest.2).1
      rfl
  · intro h
    refine every_bind.mpr ⟨exact_readPeHeader, fun header t ht => ?_⟩
    rw [program_readPeHeader] at ht
    have hgroup : Every Event.Exact (readPeGroup dev dosHeader header.1 header.2) t := by
      refine every_bind.mpr ⟨exact_readPeSections _, fun sections u hu => ?_⟩
      refine every_bind.mpr ⟨exact_readPeDirectory _, fun resourceDirectory v hv => ?_⟩
      have htables := gives_peTables.mpr ⟨header, t, u, resourceDirectory, ht, hu, hv, rfl⟩
      refine every_bind.mpr ⟨exact_readPeTree.mpr ?_, fun icons w hw => ?_⟩
      · exact h.directory ((anywhere_peTables.result_eq_some s).mpr ⟨v, htables⟩)
      · have hresources := (anywhere_peResources.result_eq_some s).mpr
          ⟨w, gives_peResources.mpr ⟨_, v, htables, hw⟩⟩
        simp only [readPeGroupAt, every_bind, every_lift, every_seek, every_pure, program_lift,
          gives_ofOption, exact_addressToOffset, Event.Exact, implies_true, and_true, true_and]
        rintro resource _ ⟨hprimary, rfl⟩
        exact h.group hresources hprimary
    refine every_bind.mpr ⟨hgroup, fun group u hu => ?_⟩
    rw [program_readPeGroup] at hu
    rw [every_lift_bind (a := ()) (gives_write.mpr rfl), every_pure_bind (program_firstOffset _)]
    refine ⟨exact_firstOffset _, every_bind.mpr ⟨?_, fun _ _ _ => exact_writeImages _⟩⟩
    obtain ⟨entries, v, hv, -⟩ := advances_groupEntry.times group.primaryIconGroup.count.toNat u
    have hresult := (anywhere_peEntries.result_eq_some s).mpr
      ⟨v, gives_peEntries.mpr ⟨header, t, u, ht, hu, hv⟩⟩
    refine (exact_writePeEntries hv ?_).mpr (h.entries hresult)
    rfl

end start

end KioExtras.Thumbnail.Exe.Recorded
