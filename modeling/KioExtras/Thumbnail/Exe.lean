import KioExtras.Lib.Stream
import Mathlib

/-!
The icon of a Windows executable, `loadIcoDataFromExe`: the tables of a PE or an NE file are
followed to the first icon group, and its directory and the images it names are written as an
ICO file.

A portable executable is tried first, and what is written for it stays when it is given up; an
NE file is read only where the signature is not that of a PE file, so nothing stands before
its icons.

The group has a size for each icon and so has the resource with the image. The reader of PE
files writes the first into the directory and places the images by the second, and neither
reader looks at how much of a resource it could read.
-/

namespace KioExtras.Thumbnail.Exe

open Lib.Stream Lib.Stream.Program

/-- What the source leaves undefined: the rest of a signature that is not all read, and a shift
by the width of an `int` or more. -/
structure Undefined where
  dosSignature : Bytes
  peSignature : Bytes
  neSignature : Bytes
  shifted : ℕ → ℕ → ℤ

def readRawData (dev : Device) (junk : Bytes) (n : ℕ) : Program Bytes := do
  let block ← readBlock dev n
  pure (block ++ (junk.take n).drop block.length)

def quint8 (dev : Device) : Program UInt8 := do pure (UInt8.ofNat (← readNumber dev 1))
def quint16 (dev : Device) : Program UInt16 := do pure (UInt16.ofNat (← readNumber dev 2))
def quint32 (dev : Device) : Program UInt32 := do pure (UInt32.ofNat (← readNumber dev 4))

structure DosHeader where
  signature : Bytes
  newHeaderOffset : UInt32

def DosHeader.read (dev : Device) (junk : Bytes) : Program DosHeader := do
  let signature ← readRawData dev junk 2
  skip dev 58
  pure ⟨signature, ← quint32 dev⟩

/-! ### Icon groups and icon files -/

def Icon : UInt32 := 3
def GroupIcon : UInt32 := 14

structure RtGroupIconDirectory where
  reserved : UInt16
  type : UInt16
  count : UInt16

def RtGroupIconDirectory.read (dev : Device) : Program RtGroupIconDirectory := do
  pure ⟨← quint16 dev, ← quint16 dev, ← quint16 dev⟩

structure RtGroupIconDirectoryEntry where
  width : UInt8
  height : UInt8
  colorCount : UInt8
  reserved : UInt8
  numPlanes : UInt16
  bpp : UInt16
  size : UInt32
  resourceId : UInt16
deriving DecidableEq

def RtGroupIconDirectoryEntry.read (dev : Device) : Program RtGroupIconDirectoryEntry := do
  pure ⟨← quint8 dev, ← quint8 dev, ← quint8 dev, ← quint8 dev, ← quint16 dev, ← quint16 dev,
    ← quint32 dev, ← quint16 dev⟩

structure IconDir where
  reserved : UInt16
  type : UInt16
  count : UInt16

def IconDirSize : ℕ := 6

structure IconDirEntry where
  width : UInt8
  height : UInt8
  colorCount : UInt8
  reserved : UInt8
  numPlanes : UInt16
  bpp : UInt16
  size : UInt32
  imageOffset : UInt32

def IconDirEntrySize : ℕ := 16

def IconDirEntry.ofGroup (entry : RtGroupIconDirectoryEntry) (dataOffset : UInt32) : IconDirEntry :=
  ⟨entry.width, entry.height, entry.colorCount, entry.reserved, entry.numPlanes, entry.bpp,
    entry.size, dataOffset⟩

def IconDir.bytes (v : IconDir) : Bytes :=
  toBytes 2 v.reserved.toNat ++ toBytes 2 v.type.toNat ++ toBytes 2 v.count.toNat

def IconDirEntry.bytes (v : IconDirEntry) : Bytes :=
  toBytes 1 v.width.toNat ++ toBytes 1 v.height.toNat ++ toBytes 1 v.colorCount.toNat ++
    toBytes 1 v.reserved.toNat ++ toBytes 2 v.numPlanes.toNat ++ toBytes 2 v.bpp.toNat ++
    toBytes 4 v.size.toNat ++ toBytes 4 v.imageOffset.toNat

/-- An element of `resourceOffsetSizePairs`. -/
structure Resource where
  offset : ℤ
  size : UInt32
deriving DecidableEq

/-- `IconDirSize + IconDirEntrySize * count` -/
def firstOffset (count : UInt16) : UInt32 :=
  UInt32.ofNat (IconDirSize + IconDirEntrySize * count.toNat)

/-- The last loop of both readers. -/
def writeImages (dev : Device) : List Resource → Program Unit
  | [] => pure ()
  | resource :: rest => do
    seek dev resource.offset
    let image ← readBlock dev resource.size.toNat
    write image
    writeImages dev rest

/-! ### Win16 New Executable -/

structure NeFileHeader where
  offsetOfResourceTable : UInt16
  numberOfResourceSegments : UInt16

def NeFileHeader.read (dev : Device) : Program NeFileHeader := do
  skip dev 34
  let offsetOfResourceTable ← quint16 dev
  skip dev 14
  pure ⟨offsetOfResourceTable, ← quint16 dev⟩

structure NeResource where
  dataOffsetShifted : UInt16
  dataLength : UInt16
  flags : UInt16
  resourceId : UInt16
  resource : UInt16 × UInt16

def NeResource.read (dev : Device) : Program NeResource := do
  let dataOffsetShifted ← quint16 dev
  let dataLength ← quint16 dev
  let flags ← quint16 dev
  let resourceId ← quint16 dev
  pure ⟨dataOffsetShifted, dataLength, flags, resourceId ^^^ 0x8000,
    (← quint16 dev, ← quint16 dev)⟩

structure NeType where
  numResources : UInt16
  resource : UInt16 × UInt16
  resources : List NeResource

def NeType.read (dev : Device) : Program NeType := do
  let numResources ← quint16 dev
  let resource := (← quint16 dev, ← quint16 dev)
  pure ⟨numResources, resource, ← times (NeResource.read dev) numResources.toNat⟩

structure NeResourceTable where
  alignmentShiftCount : UInt16
  types : UInt32 → Option NeType

/-- The loop over the types, at most `fuel` of them: each takes at least two bytes, see
`readTypes_succeeds`. -/
def readTypes (dev : Device) (types : UInt32 → Option NeType) :
    ℕ → Program (UInt32 → Option NeType)
  | 0 => fail
  | fuel + 1 => do
    let typeId ← quint16 dev
    if typeId = 0 then pure types
    else do
      let type ← NeType.read dev
      readTypes dev (Function.update types (typeId ^^^ 0x8000).toUInt32 (some type)) fuel

def NeResourceTable.read (dev : Device) : Program NeResourceTable := do
  let alignmentShiftCount ← quint16 dev
  pure ⟨alignmentShiftCount, ← readTypes dev (fun _ => none) (dev.input.length + 1)⟩

/-- `dataOffsetShifted << alignmentShiftCount`, an `int` -/
def shift (undef : Undefined) (dataOffsetShifted alignmentShiftCount : UInt16) : ℤ :=
  if alignmentShiftCount < 32 then
    ((dataOffsetShifted.toNat * 2 ^ alignmentShiftCount.toNat : ℕ) : ℤ).bmod (2 ^ 32)
  else undef.shifted dataOffsetShifted.toNat alignmentShiftCount.toNat

/-- What `readNewExecutablePrimaryIcon` finds before it writes. -/
structure NeGroup where
  iconResources : List NeResource
  alignmentShiftCount : UInt16
  iconGroup : RtGroupIconDirectory

def readNeGroup (dev : Device) (undef : Undefined) (dosHeader : DosHeader) : Program NeGroup := do
  seek dev dosHeader.newHeaderOffset.toNat
  let signature ← readRawData dev undef.neSignature 2
  check (signature = [78, 69])
  let fileHeader ← NeFileHeader.read dev
  seek dev (dosHeader.newHeaderOffset + fileHeader.offsetOfResourceTable.toUInt32).toNat
  let resources ← NeResourceTable.read dev
  let iconGroupResources ← ofOption (resources.types GroupIcon)
  let iconResources ← ofOption (resources.types Icon)
  let iconGroupResource ← ofOption iconGroupResources.resources.head?
  seek dev (shift undef iconGroupResource.dataOffsetShifted resources.alignmentShiftCount)
  pure ⟨iconResources.resources, resources.alignmentShiftCount, ← RtGroupIconDirectory.read dev⟩

def NeGroup.find (group : NeGroup) (entry : RtGroupIconDirectoryEntry) : Option NeResource :=
  group.iconResources.find? fun res => res.resourceId = entry.resourceId

def NeGroup.resource (group : NeGroup) (undef : Undefined) (res : NeResource) : Resource :=
  ⟨shift undef res.dataOffsetShifted group.alignmentShiftCount, res.dataLength.toUInt32⟩

def writeNeEntries (dev : Device) (undef : Undefined) (group : NeGroup) :
    ℕ → UInt32 → Program (List Resource)
  | 0, _ => pure []
  | n + 1, dataOffset => do
    let entry ← RtGroupIconDirectoryEntry.read dev
    let iconRes ← ofOption (group.find entry)
    write (IconDirEntry.ofGroup entry dataOffset).bytes
    check (entry.size = iconRes.dataLength.toUInt32)
    let rest ← writeNeEntries dev undef group n (dataOffset + entry.size)
    pure (group.resource undef iconRes :: rest)

def readNewExecutablePrimaryIcon (dev : Device) (undef : Undefined) (dosHeader : DosHeader) :
    Program Unit := do
  let group ← readNeGroup dev undef dosHeader
  let count := group.iconGroup.count
  write (IconDir.bytes ⟨0, 1, count⟩)
  writeImages dev (← writeNeEntries dev undef group count.toNat (firstOffset count))

/-! ### Win32 Portable Executable -/

def PeOptionalHeaderMagicPe32 : UInt16 := 0x010b
def PeOptionalHeaderMagicPe32Plus : UInt16 := 0x020b
def PeSubdirBitMask : UInt32 := 0x80000000

def PeSignatureSize : ℕ := 4
def PeFileHeaderSize : ℕ := 20
def PeOffsetToDataDirectoryPe32 : ℕ := 120
def PeOffsetToDataDirectoryPe32Plus : ℕ := 136
def PeDataDirectorySize : ℕ := 8

/-- `PeDataDirectoryIndex::Resource` -/
def ResourceIndex : ℕ := 2

structure PeFileHeader where
  machine : UInt16
  numSections : UInt16
  timestamp : UInt32
  offsetToSymbolTable : UInt32
  numberOfSymbols : UInt32
  sizeOfOptionalHeader : UInt16
  fileCharacteristics : UInt16

def PeFileHeader.read (dev : Device) : Program PeFileHeader := do
  pure ⟨← quint16 dev, ← quint16 dev, ← quint32 dev, ← quint32 dev, ← quint32 dev,
    ← quint16 dev, ← quint16 dev⟩

structure PeDataDirectory where
  virtualAddress : UInt32
  size : UInt32

def PeDataDirectory.read (dev : Device) : Program PeDataDirectory := do
  pure ⟨← quint32 dev, ← quint32 dev⟩

structure PeSection where
  virtualSize : UInt32
  virtualAddress : UInt32
  sizeOfRawData : UInt32
  pointerToRawData : UInt32
  pointerToRelocs : UInt32
  pointerToLineNums : UInt32
  numRelocs : UInt16
  numLineNums : UInt16
  characteristics : UInt32

/-- The name comes first and is not looked at. -/
def PeSection.read (dev : Device) : Program PeSection := do
  skip dev 8
  pure ⟨← quint32 dev, ← quint32 dev, ← quint32 dev, ← quint32 dev, ← quint32 dev,
    ← quint32 dev, ← quint16 dev, ← quint16 dev, ← quint32 dev⟩

structure PeResourceDirectoryTable where
  characteristics : UInt32
  timestamp : UInt32
  majorVersion : UInt16
  minorVersion : UInt16
  numNameEntries : UInt16
  numIDEntries : UInt16

def PeResourceDirectoryTable.read (dev : Device) : Program PeResourceDirectoryTable := do
  pure ⟨← quint32 dev, ← quint32 dev, ← quint16 dev, ← quint16 dev, ← quint16 dev,
    ← quint16 dev⟩

structure PeResourceDirectoryEntry where
  resourceId : UInt32
  offset : UInt32

def PeResourceDirectoryEntry.read (dev : Device) : Program PeResourceDirectoryEntry := do
  pure ⟨← quint32 dev, ← quint32 dev⟩

structure PeResourceDataEntry where
  dataAddress : UInt32
  size : UInt32
  codepage : UInt32
  reserved : UInt32

def PeResourceDataEntry.read (dev : Device) : Program PeResourceDataEntry := do
  pure ⟨← quint32 dev, ← quint32 dev, ← quint32 dev, ← quint32 dev⟩

def PeSection.effectiveSize (s : PeSection) : UInt32 :=
  if s.virtualSize ≠ 0 then min s.sizeOfRawData s.virtualSize else s.sizeOfRawData

def addressToOffset (sections : List PeSection) (rva : UInt32) : ℤ :=
  match sections.find? fun s =>
    s.virtualAddress ≤ rva ∧ rva < s.virtualAddress + s.effectiveSize with
  | some s => (rva - s.virtualAddress + s.pointerToRawData).toNat
  | none => -1

def readResourceDataDirectoryEntry (dev : Device) : Program (List PeResourceDirectoryEntry) := do
  let table ← PeResourceDirectoryTable.read dev
  times (PeResourceDirectoryEntry.read dev)
    (table.numNameEntries.toNat + table.numIDEntries.toNat)

structure PeIcons where
  iconResources : UInt32 → Option PeResourceDataEntry
  primaryIconGroupResource : Option PeResourceDataEntry

/-- The `switch` on the type of a resource. -/
def PeIcons.add (icons : PeIcons) (type id : UInt32) (dataEntry : PeResourceDataEntry) : PeIcons :=
  if type = Icon then
    { icons with iconResources := Function.update icons.iconResources id (some dataEntry) }
  else if type = GroupIcon then
    { icons with
      primaryIconGroupResource := icons.primaryIconGroupResource.or (some dataEntry) }
  else icons

def PeResourceDirectoryEntry.place (resourceOffset : ℤ) (entry : PeResourceDirectoryEntry) : ℤ :=
  resourceOffset + (entry.offset &&& ~~~PeSubdirBitMask).toNat

def readLevel3 (dev : Device) (resourceOffset : ℤ) (entry1 entry2 : PeResourceDirectoryEntry)
    (icons : PeIcons) (entry3 : PeResourceDirectoryEntry) : Program PeIcons :=
  if entry3.offset &&& PeSubdirBitMask = PeSubdirBitMask then pure icons
  else do
    seek dev (entry3.place resourceOffset)
    let dataEntry ← PeResourceDataEntry.read dev
    pure (icons.add entry1.resourceId entry2.resourceId dataEntry)

def readLevel2 (dev : Device) (resourceOffset : ℤ) (entry1 : PeResourceDirectoryEntry)
    (icons : PeIcons) (entry2 : PeResourceDirectoryEntry) : Program PeIcons :=
  if entry2.offset &&& PeSubdirBitMask = 0 then pure icons
  else do
    seek dev (entry2.place resourceOffset)
    let level3 ← readResourceDataDirectoryEntry dev
    level3.foldlM (readLevel3 dev resourceOffset entry1 entry2) icons

def readLevel1 (dev : Device) (resourceOffset : ℤ) (icons : PeIcons)
    (entry1 : PeResourceDirectoryEntry) : Program PeIcons :=
  if entry1.offset &&& PeSubdirBitMask = 0 then pure icons
  else do
    seek dev (entry1.place resourceOffset)
    let level2 ← readResourceDataDirectoryEntry dev
    level2.foldlM (readLevel2 dev resourceOffset entry1) icons

def readPeHeader (dev : Device) (undef : Undefined) (dosHeader : DosHeader) :
    Program (PeFileHeader × Bool) := do
  seek dev dosHeader.newHeaderOffset.toNat
  let signature ← readRawData dev undef.peSignature 4
  check (signature = [80, 69, 0, 0])
  let fileHeader ← PeFileHeader.read dev
  let optMagic ← quint16 dev
  check (optMagic = PeOptionalHeaderMagicPe32 ∨ optMagic = PeOptionalHeaderMagicPe32Plus)
  pure (fileHeader, optMagic = PeOptionalHeaderMagicPe32Plus)

/-- What `readPortableExecutablePrimaryIcon` finds before it writes. -/
structure PeGroup where
  sections : List PeSection
  iconResources : UInt32 → Option PeResourceDataEntry
  primaryIconGroup : RtGroupIconDirectory

def readPeGroup (dev : Device) (dosHeader : DosHeader) (fileHeader : PeFileHeader)
    (isPe32Plus : Bool) : Program PeGroup := do
  seek dev (dosHeader.newHeaderOffset.toNat + (PeSignatureSize + PeFileHeaderSize) +
    fileHeader.sizeOfOptionalHeader.toNat : ℕ)
  let sections ← times (PeSection.read dev) fileHeader.numSections.toNat
  seek dev (dosHeader.newHeaderOffset.toNat +
    (if isPe32Plus then PeOffsetToDataDirectoryPe32Plus else PeOffsetToDataDirectoryPe32) +
    ResourceIndex * PeDataDirectorySize : ℕ)
  let resourceDirectory ← PeDataDirectory.read dev
  let resourceOffset := addressToOffset sections resourceDirectory.virtualAddress
  check (0 ≤ resourceOffset)
  seek dev resourceOffset
  let level1 ← readResourceDataDirectoryEntry dev
  let icons ← level1.foldlM (readLevel1 dev resourceOffset) ⟨fun _ => none, none⟩
  let primaryIconGroupResource ← ofOption icons.primaryIconGroupResource
  seek dev (addressToOffset sections primaryIconGroupResource.dataAddress)
  pure ⟨sections, icons.iconResources, ← RtGroupIconDirectory.read dev⟩

def PeGroup.find (group : PeGroup) (entry : RtGroupIconDirectoryEntry) : Option Resource :=
  (group.iconResources entry.resourceId.toUInt32).map fun iconResource =>
    ⟨addressToOffset group.sections iconResource.dataAddress, iconResource.size⟩

def writePeEntries (dev : Device) (group : PeGroup) : ℕ → UInt32 → Program (List Resource)
  | 0, _ => pure []
  | n + 1, dataOffset => do
    let entry ← RtGroupIconDirectoryEntry.read dev
    write (IconDirEntry.ofGroup entry dataOffset).bytes
    let resource ← ofOption (group.find entry)
    let rest ← writePeEntries dev group n (dataOffset + resource.size)
    pure (resource :: rest)

def readPortableExecutablePrimaryIcon (dev : Device) (undef : Undefined)
    (dosHeader : DosHeader) : Program Unit := do
  let (fileHeader, isPe32Plus) ← readPeHeader dev undef dosHeader
  let group ← readPeGroup dev dosHeader fileHeader isPe32Plus
  let count := group.primaryIconGroup.count
  write (IconDir.bytes ⟨0, 1, count⟩)
  writeImages dev (← writePeEntries dev group count.toNat (firstOffset count))

/-! ### The extractor -/

/-- What is returned, and what is written to the output device. -/
def loadIcoDataFromExe (dev : Device) (undef : Undefined) : Bool × Bytes :=
  match (DosHeader.read dev undef.dosSignature) ⟨0, []⟩ with
  | (none, s) => (false, s.written)
  | (some dosHeader, s) =>
    if dosHeader.signature ≠ [77, 90] then (false, s.written)
    else match readPortableExecutablePrimaryIcon dev undef dosHeader s with
      | (some (), t) => (true, t.written)
      | (none, t) => match readNewExecutablePrimaryIcon dev undef dosHeader t with
        | (some (), u) => (true, u.written)
        | (none, u) => (false, u.written)

/-! ### The readers only read -/

variable {dev : Device} {undef : Undefined} {dosHeader : DosHeader}

@[simp] lemma reads_readRawData (junk : Bytes) (n : ℕ) : Reads (readRawData dev junk n) :=
  (reads_readBlock dev n).bind fun _ => reads_pure _

@[simp] lemma reads_quint8 : Reads (quint8 dev) :=
  (reads_readNumber dev 1).bind fun _ => reads_pure _

@[simp] lemma reads_quint16 : Reads (quint16 dev) :=
  (reads_readNumber dev 2).bind fun _ => reads_pure _

@[simp] lemma reads_quint32 : Reads (quint32 dev) :=
  (reads_readNumber dev 4).bind fun _ => reads_pure _

@[simp] lemma reads_groupEntry : Reads (RtGroupIconDirectoryEntry.read dev) := by
  unfold RtGroupIconDirectoryEntry.read
  repeat refine Reads.bind (by simp) fun _ => ?_
  exact reads_pure _

@[simp] lemma reads_group : Reads (RtGroupIconDirectory.read dev) := by
  unfold RtGroupIconDirectory.read
  repeat refine Reads.bind (by simp) fun _ => ?_
  exact reads_pure _

@[simp] lemma reads_dosHeader (junk : Bytes) : Reads (DosHeader.read dev junk) := by
  unfold DosHeader.read
  repeat refine Reads.bind (by simp) fun _ => ?_
  exact reads_pure _

@[simp] lemma reads_neResource : Reads (NeResource.read dev) := by
  unfold NeResource.read
  repeat refine Reads.bind (by simp) fun _ => ?_
  exact reads_pure _

@[simp] lemma reads_neType : Reads (NeType.read dev) := by
  unfold NeType.read
  repeat refine Reads.bind (by simp [Reads.times]) fun _ => ?_
  exact reads_pure _

lemma reads_readTypes (fuel : ℕ) (types : UInt32 → Option NeType) :
    Reads (readTypes dev types fuel) := by
  induction fuel generalizing types with
  | zero => exact reads_fail
  | succ fuel ih =>
    rw [readTypes]
    refine reads_quint16.bind fun typeId => ?_
    split
    · exact reads_pure _
    · exact reads_neType.bind fun type => ih _

lemma reads_readNeGroup : Reads (readNeGroup dev undef dosHeader) := by
  have hheader : Reads (NeFileHeader.read dev) := by
    unfold NeFileHeader.read
    repeat refine Reads.bind (by simp) fun _ => ?_
    exact reads_pure _
  have htable : Reads (NeResourceTable.read dev) :=
    reads_quint16.bind fun _ => (reads_readTypes _ _).bind fun _ => reads_pure _
  unfold readNeGroup
  repeat refine Reads.bind (by simp [hheader, htable]) fun _ => ?_
  exact reads_pure _

@[simp] lemma reads_directoryEntry : Reads (readResourceDataDirectoryEntry dev) := by
  have htable : Reads (PeResourceDirectoryTable.read dev) := by
    unfold PeResourceDirectoryTable.read
    repeat refine Reads.bind (by simp) fun _ => ?_
    exact reads_pure _
  have hentry : Reads (PeResourceDirectoryEntry.read dev) :=
    reads_quint32.bind fun _ => reads_quint32.bind fun _ => reads_pure _
  exact htable.bind fun table => hentry.times _

lemma reads_readLevel3 (offset : ℤ) (entry1 entry2 : PeResourceDirectoryEntry) (icons : PeIcons)
    (entry3 : PeResourceDirectoryEntry) :
    Reads (readLevel3 dev offset entry1 entry2 icons entry3) := by
  unfold readLevel3
  split
  · exact reads_pure _
  · have hentry : Reads (PeResourceDataEntry.read dev) := by
      unfold PeResourceDataEntry.read
      repeat refine Reads.bind (by simp) fun _ => ?_
      exact reads_pure _
    exact (reads_seek _ _).bind fun _ => hentry.bind fun _ => reads_pure _

lemma reads_readLevel2 (offset : ℤ) (entry1 : PeResourceDirectoryEntry) (icons : PeIcons)
    (entry2 : PeResourceDirectoryEntry) : Reads (readLevel2 dev offset entry1 icons entry2) := by
  unfold readLevel2
  split
  · exact reads_pure _
  · exact (reads_seek _ _).bind fun _ => reads_directoryEntry.bind fun level3 =>
      Reads.foldlM (reads_readLevel3 offset entry1 entry2) level3 icons

lemma reads_readLevel1 (offset : ℤ) (icons : PeIcons) (entry1 : PeResourceDirectoryEntry) :
    Reads (readLevel1 dev offset icons entry1) := by
  unfold readLevel1
  split
  · exact reads_pure _
  · exact (reads_seek _ _).bind fun _ => reads_directoryEntry.bind fun level2 =>
      Reads.foldlM (reads_readLevel2 offset entry1) level2 icons

lemma reads_readPeHeader : Reads (readPeHeader dev undef dosHeader) := by
  have hheader : Reads (PeFileHeader.read dev) := by
    unfold PeFileHeader.read
    repeat refine Reads.bind (by simp) fun _ => ?_
    exact reads_pure _
  unfold readPeHeader
  repeat refine Reads.bind (by simp [hheader]) fun _ => ?_
  exact reads_pure _

lemma reads_readPeGroup (fileHeader : PeFileHeader) (isPe32Plus : Bool) :
    Reads (readPeGroup dev dosHeader fileHeader isPe32Plus) := by
  have hlevel1 (offset : ℤ) (l : List PeResourceDirectoryEntry) (icons : PeIcons) :
      Reads (l.foldlM (readLevel1 dev offset) icons) :=
    Reads.foldlM (reads_readLevel1 offset) l icons
  have hsection : Reads (PeSection.read dev) := by
    unfold PeSection.read
    repeat refine Reads.bind (by simp) fun _ => ?_
    exact reads_pure _
  have hdirectory : Reads (PeDataDirectory.read dev) :=
    reads_quint32.bind fun _ => reads_quint32.bind fun _ => reads_pure _
  unfold readPeGroup
  repeat refine Reads.bind (by simp [hsection.times, hdirectory, hlevel1]) fun _ => ?_
  exact reads_pure _

/-! ### Readers that go forward, and the types of an NE file -/

lemma advances_quint16 (dev : Device) : Advances (quint16 dev) :=
  (advances_readNumber dev 2).bind fun _ => advances_pure _

lemma advances_quint32 (dev : Device) : Advances (quint32 dev) :=
  (advances_readNumber dev 4).bind fun _ => advances_pure _

lemma advances_peHeader (dev : Device) : Advances (PeFileHeader.read dev) := by
  unfold PeFileHeader.read
  repeat refine Advances.bind (by simp [advances_quint16, advances_quint32]) fun _ => ?_
  exact advances_pure _

lemma advances_readRawData (dev : Device) (junk : Bytes) (n : ℕ) :
    Advances (readRawData dev junk n) :=
  (advances_readBlock dev n).bind fun _ => advances_pure _

lemma advances_neType (dev : Device) : Advances (NeType.read dev) := by
  have hresource : Advances (NeResource.read dev) := by
    unfold NeResource.read
    repeat refine Advances.bind (advances_quint16 dev) fun _ => ?_
    exact advances_pure _
  unfold NeType.read
  repeat refine Advances.bind (by simp [advances_quint16, hresource.times]) fun _ => ?_
  exact advances_pure _

theorem readTypes_succeeds (fuel : ℕ) (types : UInt32 → Option NeType) (s : Streams)
    (hfuel : dev.input.length < s.pos + fuel) (hpos : 0 < fuel) :
    ((readTypes dev types fuel) s).1.isSome := by
  induction fuel generalizing types s with
  | zero => omega
  | succ fuel ih =>
    obtain ⟨typeId, t, hread, hle⟩ := advances_quint16 dev s
    rw [readTypes, bind_some hread]
    by_cases hzero : typeId = 0
    · rw [if_pos hzero]
      rfl
    · rw [if_neg hzero]
      obtain ⟨type, u, htype, hle'⟩ := advances_neType dev t
      rw [bind_some htype]
      have hforward : t.pos = s.pos + 2 ∧ t.pos ≤ dev.input.length := by
        simp only [quint16, gives_bind, gives_pure] at hread
        obtain ⟨n, _, hn, hval, rfl⟩ := hread
        have hne : n ≠ 0 := by
          rintro rfl
          exact hzero hval.symm
        rcases gives_readNumber_pos hn hne with hpos | hw
        · exact hpos
        · omega
      apply ih
      · omega
      · omega

theorem neTable_succeeds (s : Streams) : ((NeResourceTable.read dev) s).1.isSome := by
  obtain ⟨count, t, hread, -⟩ := advances_quint16 dev s
  rw [NeResourceTable.read, bind_some hread]
  have htypes : ((readTypes dev (fun _ => none) (dev.input.length + 1)) t).1.isSome :=
    readTypes_succeeds _ _ t (by omega) (by omega)
  rcases h : readTypes dev (fun _ => none) (dev.input.length + 1) t with ⟨_ | types, u⟩
  · rw [h] at htypes
    exact absurd htypes (by simp)
  · rw [bind_some h]
    rfl

end KioExtras.Thumbnail.Exe
