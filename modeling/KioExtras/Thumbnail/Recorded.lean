import KioExtras.Lib.Traced
import KioExtras.Thumbnail.Exe

/-!
The extractor with a record of its arithmetic: each shift, each sum and product, and each place in
the file it goes to. Without the record it is the extractor, see `loadIcoDataFromExe_snd`.
-/

namespace KioExtras.Thumbnail.Exe.Recorded

open Lib.Stream Lib.Stream.Program Lib.Stream.Traced

/-- The bits of a number are counted without its sign. -/
inductive Event
  | shift (value count : ℕ)
  | sum (bits a b : ℕ)
  | product (bits a b : ℕ)
  | place (offset : ℤ)

def seek (dev : Device) (offset : ℤ) : Traced Event Unit := do
  note (.place offset)
  lift (Program.seek dev offset)

/-- A sum of unsigned 32-bit numbers. -/
def add (a b : UInt32) : Traced Event UInt32 := do
  note (.sum 32 a.toNat b.toNat)
  pure (a + b)

variable (bits : ℕ)

def addWide (a b : ℕ) : Traced Event ℕ := do
  note (.sum bits a b)
  pure (a + b)

def multiply (a b : ℕ) : Traced Event ℕ := do
  note (.product bits a b)
  pure (a * b)

def shift (undef : Undefined) (dataOffsetShifted alignmentShiftCount : UInt16) :
    Traced Event ℤ := do
  note (.shift dataOffsetShifted.toNat alignmentShiftCount.toNat)
  pure (Exe.shift undef dataOffsetShifted alignmentShiftCount)

def firstOffset (count : UInt16) : Traced Event UInt32 := do
  let entries ← multiply 31 IconDirEntrySize count.toNat
  let offset ← addWide 31 IconDirSize entries
  pure (UInt32.ofNat offset)

def writeImages (dev : Device) : List Resource → Traced Event Unit
  | [] => pure ()
  | resource :: rest => do
    seek dev resource.offset
    let image ← lift (readBlock dev resource.size.toNat)
    lift (write image)
    writeImages dev rest

/-! ### Win16 New Executable -/

variable (dev : Device)

variable (undef : Undefined)

def readNeHeader (dosHeader : DosHeader) : Traced Event NeFileHeader := do
  seek dev dosHeader.newHeaderOffset.toNat
  let signature ← lift (readRawData dev undef.neSignature 2)
  lift (check (signature = [78, 69]))
  lift (NeFileHeader.read dev)

variable (dosHeader : DosHeader)

def readNeTable (fileHeader : NeFileHeader) :
    Traced Event NeResourceTable := do
  let offset ← add dosHeader.newHeaderOffset fileHeader.offsetOfResourceTable.toUInt32
  seek dev offset.toNat
  lift (NeResourceTable.read dev)

def readNeGroupAt (resources : NeResourceTable) : Traced Event NeGroup := do
  let iconGroupResources ← lift (ofOption (resources.types GroupIcon))
  let iconResources ← lift (ofOption (resources.types Icon))
  let iconGroupResource ← lift (ofOption iconGroupResources.resources.head?)
  let offset ← shift undef iconGroupResource.dataOffsetShifted resources.alignmentShiftCount
  seek dev offset
  let iconGroup ← lift (RtGroupIconDirectory.read dev)
  pure ⟨iconResources.resources, resources.alignmentShiftCount, iconGroup⟩

def readNeGroup (dosHeader : DosHeader) : Traced Event NeGroup := do
  let fileHeader ← readNeHeader dev undef dosHeader
  let resources ← readNeTable dev dosHeader fileHeader
  readNeGroupAt dev undef resources

def writeNeEntries (dev : Device) (undef : Undefined) (group : NeGroup) :
    ℕ → UInt32 → Traced Event (List Resource)
  | 0, _ => pure []
  | n + 1, dataOffset => do
    let entry ← lift (RtGroupIconDirectoryEntry.read dev)
    let iconRes ← lift (ofOption (group.find entry))
    lift (write (IconDirEntry.ofGroup entry dataOffset).bytes)
    lift (check (entry.size = iconRes.dataLength.toUInt32))
    let offset ← shift undef iconRes.dataOffsetShifted group.alignmentShiftCount
    let dataOffset ← add dataOffset entry.size
    let rest ← writeNeEntries dev undef group n dataOffset
    pure (⟨offset, iconRes.dataLength.toUInt32⟩ :: rest)

def readNewExecutablePrimaryIcon (dosHeader : DosHeader) :
    Traced Event Unit := do
  let group ← readNeGroup dev undef dosHeader
  let count := group.iconGroup.count
  lift (write (IconDir.bytes ⟨0, 1, count⟩))
  let dataOffset ← firstOffset count
  let resources ← writeNeEntries dev undef group count.toNat dataOffset
  writeImages dev resources

/-! ### Win32 Portable Executable -/

def addressToOffset : List PeSection → UInt32 → Traced Event ℤ
  | [], _ => pure (-1)
  | s :: sections, rva => do
    let sectionEnd ← add s.virtualAddress s.effectiveSize
    if s.virtualAddress ≤ rva ∧ rva < sectionEnd then do
      let offset ← add (rva - s.virtualAddress) s.pointerToRawData
      pure offset.toNat
    else addressToOffset sections rva

def readResourceDataDirectoryEntry : Traced Event (List PeResourceDirectoryEntry) := do
  let table ← lift (PeResourceDirectoryTable.read dev)
  let count ← addWide 31 table.numNameEntries.toNat table.numIDEntries.toNat
  lift (times (PeResourceDirectoryEntry.read dev) count)

variable (resourceOffset : ℤ)

/-- `resourceOffset + (entry.offset & ~PeSubdirBitMask)`; the offset is not negative here. -/
def seekEntry (entry : PeResourceDirectoryEntry) : Traced Event Unit := do
  note (.sum 63 resourceOffset.toNat (entry.offset &&& ~~~PeSubdirBitMask).toNat)
  seek dev (entry.place resourceOffset)

def readLevel3 (entry1 entry2 : PeResourceDirectoryEntry) (icons : PeIcons)
    (entry3 : PeResourceDirectoryEntry) : Traced Event PeIcons :=
  if entry3.offset &&& PeSubdirBitMask = PeSubdirBitMask then pure icons
  else do
    seekEntry dev resourceOffset entry3
    let dataEntry ← lift (PeResourceDataEntry.read dev)
    pure (icons.add entry1.resourceId entry2.resourceId dataEntry)

def readLevel2 (entry1 : PeResourceDirectoryEntry) (icons : PeIcons)
    (entry2 : PeResourceDirectoryEntry) : Traced Event PeIcons :=
  if entry2.offset &&& PeSubdirBitMask = 0 then pure icons
  else do
    seekEntry dev resourceOffset entry2
    let level3 ← readResourceDataDirectoryEntry dev
    level3.foldlM (readLevel3 dev resourceOffset entry1 entry2) icons

def readLevel1 (icons : PeIcons) (entry1 : PeResourceDirectoryEntry) :
    Traced Event PeIcons :=
  if entry1.offset &&& PeSubdirBitMask = 0 then pure icons
  else do
    seekEntry dev resourceOffset entry1
    let level2 ← readResourceDataDirectoryEntry dev
    level2.foldlM (readLevel2 dev resourceOffset entry1) icons

def readPeHeader (dosHeader : DosHeader) :
    Traced Event (PeFileHeader × Bool) := do
  seek dev dosHeader.newHeaderOffset.toNat
  let signature ← lift (readRawData dev undef.peSignature 4)
  lift (check (signature = [80, 69, 0, 0]))
  let fileHeader ← lift (PeFileHeader.read dev)
  let optMagic ← lift (quint16 dev)
  lift (check (optMagic = PeOptionalHeaderMagicPe32 ∨ optMagic = PeOptionalHeaderMagicPe32Plus))
  pure (fileHeader, optMagic = PeOptionalHeaderMagicPe32Plus)

/-- `sectionTableOffset` is a `quint64`. -/
def readPeSections (fileHeader : PeFileHeader) :
    Traced Event (List PeSection) := do
  let sectionTableOffset ←
    addWide 64 dosHeader.newHeaderOffset.toNat (PeSignatureSize + PeFileHeaderSize)
  let sectionTableOffset ← addWide 64 sectionTableOffset fileHeader.sizeOfOptionalHeader.toNat
  seek dev sectionTableOffset
  lift (times (PeSection.read dev) fileHeader.numSections.toNat)

/-- `dataDirOffset` is a `qint64`. -/
def readPeDirectory (isPe32Plus : Bool) : Traced Event PeDataDirectory := do
  let dataDirOffset ← addWide 63 dosHeader.newHeaderOffset.toNat
    (if isPe32Plus then PeOffsetToDataDirectoryPe32Plus else PeOffsetToDataDirectoryPe32)
  let index ← multiply 63 ResourceIndex PeDataDirectorySize
  let dataDirOffset ← addWide 63 dataDirOffset index
  seek dev dataDirOffset
  lift (PeDataDirectory.read dev)

variable (sections : List PeSection)

def readPeTree (virtualAddress : UInt32) : Traced Event PeIcons := do
  let resourceOffset ← addressToOffset sections virtualAddress
  lift (check (0 ≤ resourceOffset))
  seek dev resourceOffset
  let level1 ← readResourceDataDirectoryEntry dev
  level1.foldlM (readLevel1 dev resourceOffset) ⟨fun _ => none, none⟩

def readPeGroupAt (icons : PeIcons) : Traced Event PeGroup := do
  let primaryIconGroupResource ← lift (ofOption icons.primaryIconGroupResource)
  let offset ← addressToOffset sections primaryIconGroupResource.dataAddress
  seek dev offset
  let primaryIconGroup ← lift (RtGroupIconDirectory.read dev)
  pure ⟨sections, icons.iconResources, primaryIconGroup⟩

def readPeGroup (fileHeader : PeFileHeader) (isPe32Plus : Bool) :
    Traced Event PeGroup := do
  let sections ← readPeSections dev dosHeader fileHeader
  let resourceDirectory ← readPeDirectory dev dosHeader isPe32Plus
  let icons ← readPeTree dev sections resourceDirectory.virtualAddress
  readPeGroupAt dev sections icons

def writePeEntries (dev : Device) (group : PeGroup) :
    ℕ → UInt32 → Traced Event (List Resource)
  | 0, _ => pure []
  | n + 1, dataOffset => do
    let entry ← lift (RtGroupIconDirectoryEntry.read dev)
    lift (write (IconDirEntry.ofGroup entry dataOffset).bytes)
    let iconResource ← lift (ofOption (group.iconResources entry.resourceId.toUInt32))
    let offset ← addressToOffset group.sections iconResource.dataAddress
    let dataOffset ← add dataOffset iconResource.size
    let rest ← writePeEntries dev group n dataOffset
    pure (⟨offset, iconResource.size⟩ :: rest)

def readPortableExecutablePrimaryIcon (dosHeader : DosHeader) :
    Traced Event Unit := do
  let (fileHeader, isPe32Plus) ← readPeHeader dev undef dosHeader
  let group ← readPeGroup dev dosHeader fileHeader isPe32Plus
  let count := group.primaryIconGroup.count
  lift (write (IconDir.bytes ⟨0, 1, count⟩))
  let dataOffset ← firstOffset count
  let resources ← writePeEntries dev group count.toNat dataOffset
  writeImages dev resources

/-! ### The extractor -/

/-- What is recorded, then what is returned and what is written. -/
def loadIcoDataFromExe : List Event × Bool × Bytes :=
  match (DosHeader.read dev undef.dosSignature) ⟨0, []⟩ with
  | (none, s) => ([], false, s.written)
  | (some dosHeader, s) =>
    if dosHeader.signature ≠ [77, 90] then ([], false, s.written)
    else match readPortableExecutablePrimaryIcon dev undef dosHeader s with
      | (events, some (), t) => (events, true, t.written)
      | (events, none, t) => match readNewExecutablePrimaryIcon dev undef dosHeader t with
        | (more, some (), u) => (events ++ more, true, u.written)
        | (more, none, u) => (events ++ more, false, u.written)

/-! ### Without the record -/

section program

variable (dev : Device) (undef : Undefined)

@[simp] lemma program_seek (offset : ℤ) : (seek dev offset).program = Program.seek dev offset := by
  simp [seek]

@[simp] lemma program_add (a b : UInt32) : (add a b).program = pure (a + b) := by
  simp [add]

@[simp] lemma program_addWide (bits a b : ℕ) : (addWide bits a b).program = pure (a + b) := by
  simp [addWide]

@[simp] lemma program_multiply (bits a b : ℕ) : (multiply bits a b).program = pure (a * b) := by
  simp [multiply]

@[simp] lemma program_shift (dataOffsetShifted alignmentShiftCount : UInt16) :
    (shift undef dataOffsetShifted alignmentShiftCount).program =
      pure (Exe.shift undef dataOffsetShifted alignmentShiftCount) := by
  simp [shift]

@[simp] lemma program_firstOffset (count : UInt16) :
    (firstOffset count).program = pure (Exe.firstOffset count) := by
  simp [firstOffset, Exe.firstOffset]

@[simp] lemma program_writeImages (resources : List Resource) :
    (writeImages dev resources).program = Exe.writeImages dev resources := by
  induction resources with
  | nil => rfl
  | cons resource rest ih => simp [writeImages, Exe.writeImages, ih]

variable (dosHeader : DosHeader)

@[simp] lemma program_readNeGroup :
    (readNeGroup dev undef dosHeader).program = Exe.readNeGroup dev undef dosHeader := by
  simp [readNeGroup, readNeHeader, readNeTable, readNeGroupAt, Exe.readNeGroup]

@[simp] lemma program_writeNeEntries (group : NeGroup) (n : ℕ) (dataOffset : UInt32) :
    (writeNeEntries dev undef group n dataOffset).program =
      Exe.writeNeEntries dev undef group n dataOffset := by
  induction n generalizing dataOffset with
  | zero => rfl
  | succ n ih => simp [writeNeEntries, Exe.writeNeEntries, NeGroup.resource, ih]

@[simp] lemma program_readNewExecutablePrimaryIcon :
    (readNewExecutablePrimaryIcon dev undef dosHeader).program =
      Exe.readNewExecutablePrimaryIcon dev undef dosHeader := by
  simp [readNewExecutablePrimaryIcon, Exe.readNewExecutablePrimaryIcon]

@[simp] lemma program_addressToOffset (sections : List PeSection) (rva : UInt32) :
    (addressToOffset sections rva).program = pure (Exe.addressToOffset sections rva) := by
  induction sections with
  | nil => rfl
  | cons s sections ih =>
    rw [addressToOffset, program_bind, program_add, pure_bind, Exe.addressToOffset,
      List.find?_cons]
    by_cases hin : s.virtualAddress ≤ rva ∧ rva < s.virtualAddress + s.effectiveSize
    · rw [if_pos hin, program_bind, program_add, pure_bind, decide_eq_true hin]
      rfl
    · rw [if_neg hin, ih, decide_eq_false hin]
      rfl

@[simp] lemma program_readResourceDataDirectoryEntry :
    (readResourceDataDirectoryEntry dev).program = Exe.readResourceDataDirectoryEntry dev := by
  simp [readResourceDataDirectoryEntry, Exe.readResourceDataDirectoryEntry]

variable (resourceOffset : ℤ)

@[simp] lemma program_seekEntry (entry : PeResourceDirectoryEntry) :
    (seekEntry dev resourceOffset entry).program =
      Program.seek dev (entry.place resourceOffset) := by
  simp [seekEntry]

variable (entry1 : PeResourceDirectoryEntry)

@[simp] lemma program_readLevel3 (entry2 : PeResourceDirectoryEntry) (icons : PeIcons)
    (entry3 : PeResourceDirectoryEntry) :
    (readLevel3 dev resourceOffset entry1 entry2 icons entry3).program =
      Exe.readLevel3 dev resourceOffset entry1 entry2 icons entry3 := by
  unfold readLevel3 Exe.readLevel3
  split <;> simp

@[simp] lemma program_readLevel2 (icons : PeIcons) (entry2 : PeResourceDirectoryEntry) :
    (readLevel2 dev resourceOffset entry1 icons entry2).program =
      Exe.readLevel2 dev resourceOffset entry1 icons entry2 := by
  unfold readLevel2 Exe.readLevel2
  split <;> simp [program_foldlM]

@[simp] lemma program_readLevel1 (icons : PeIcons) (entry1 : PeResourceDirectoryEntry) :
    (readLevel1 dev resourceOffset icons entry1).program =
      Exe.readLevel1 dev resourceOffset icons entry1 := by
  unfold readLevel1 Exe.readLevel1
  split <;> simp [program_foldlM]

@[simp] lemma program_readPeHeader :
    (readPeHeader dev undef dosHeader).program = Exe.readPeHeader dev undef dosHeader := by
  simp [readPeHeader, Exe.readPeHeader]

@[simp] lemma program_readPeGroup (fileHeader : PeFileHeader) (isPe32Plus : Bool) :
    (readPeGroup dev dosHeader fileHeader isPe32Plus).program =
      Exe.readPeGroup dev dosHeader fileHeader isPe32Plus := by
  simp [readPeGroup, readPeSections, readPeDirectory, readPeTree, readPeGroupAt, program_foldlM,
    Exe.readPeGroup]

@[simp] lemma program_writePeEntries (group : PeGroup) (n : ℕ) (dataOffset : UInt32) :
    (writePeEntries dev group n dataOffset).program =
      Exe.writePeEntries dev group n dataOffset := by
  induction n generalizing dataOffset with
  | zero => rfl
  | succ n ih =>
    simp [writePeEntries, Exe.writePeEntries, PeGroup.find, ofOption_map, ih]

@[simp] lemma program_readPortableExecutablePrimaryIcon :
    (readPortableExecutablePrimaryIcon dev undef dosHeader).program =
      Exe.readPortableExecutablePrimaryIcon dev undef dosHeader := by
  simp [readPortableExecutablePrimaryIcon, Exe.readPortableExecutablePrimaryIcon]

end program

theorem loadIcoDataFromExe_snd (dev : Device) (undef : Undefined) :
    (loadIcoDataFromExe dev undef).2 = Exe.loadIcoDataFromExe dev undef := by
  unfold loadIcoDataFromExe Exe.loadIcoDataFromExe
  rcases DosHeader.read dev undef.dosSignature ⟨0, []⟩ with ⟨_ | dosHeader, s⟩
  · rfl
  · dsimp only
    by_cases hmz : dosHeader.signature ≠ [77, 90]
    · rw [if_pos hmz, if_pos hmz]
    · rw [if_neg hmz, if_neg hmz, ← program_readPortableExecutablePrimaryIcon,
        ← program_readNewExecutablePrimaryIcon]
      unfold program
      rcases readPortableExecutablePrimaryIcon dev undef dosHeader s with ⟨events, _ | ⟨⟩, t⟩
      · dsimp only
        rcases readNewExecutablePrimaryIcon dev undef dosHeader t with ⟨more, _ | ⟨⟩, u⟩ <;> rfl
      · rfl

end KioExtras.Thumbnail.Exe.Recorded
