import KioExtras.Nfs.Handles

/-!
The members of a file handle, and what is left in them when another handle is assigned.

An array in memory stands for the pointer to it; how much of it belongs to the handle is kept
beside the pointer, and may be less.
-/

namespace KioExtras.Nfs.Members

open KioExtras.Lib.Stream (Bytes)

/-- The bytes of an array; a null pointer has none. -/
def memory (array : Option Bytes) : Bytes := array.getD []

@[ext]
structure NFSFileHandle where
  m_handle : Option Bytes
  m_size : ℕ
  m_linkHandle : Option Bytes
  m_linkSize : ℕ
  m_isLink : Bool
  size_le : m_size ≤ (memory m_handle).length
  linkSize_le : m_linkSize ≤ (memory m_linkHandle).length

namespace NFSFileHandle

def empty : NFSFileHandle where
  m_handle := none
  m_size := 0
  m_linkHandle := none
  m_linkSize := 0
  m_isLink := false
  size_le := Nat.zero_le _
  linkSize_le := Nat.zero_le _

/-! ### Observers -/

variable (a b : NFSFileHandle)

def toFH : Bytes := (memory a.m_handle).take a.m_size

def toFHLink : Bytes := (memory a.m_linkHandle).take a.m_linkSize

def isInvalid : Bool := a.m_size == 0 && a.m_linkSize == 0

def isLink : Bool := a.m_isLink

def isBadLink : Bool := a.m_isLink && a.m_linkSize == 0

/-- Nothing that can be asked tells the two handles apart. -/
structure Alike : Prop where
  isInvalid : a.isInvalid = b.isInvalid
  isLink : a.isLink = b.isLink
  isBadLink : a.isBadLink = b.isBadLink
  toFH : a.toFH = b.toFH
  toFHLink : a.toFHLink = b.toFHLink

@[simp] lemma toFH_length : a.toFH.length = a.m_size :=
  List.length_take_of_le a.size_le

@[simp] lemma toFHLink_length : a.toFHLink.length = a.m_linkSize :=
  List.length_take_of_le a.linkSize_le

variable {a b} in
lemma Alike.of_arrays (hfh : a.toFH = b.toFH) (hlink : a.toFHLink = b.toFHLink)
    (hflag : a.m_isLink = b.m_isLink) : Alike a b := by
  have hsize : a.m_size = b.m_size := by
    rw [← a.toFH_length, ← b.toFH_length, hfh]
  have hlinkSize : a.m_linkSize = b.m_linkSize := by
    rw [← a.toFHLink_length, ← b.toFHLink_length, hlink]
  refine ⟨?_, hflag, ?_, hfh, hlink⟩
  · rw [NFSFileHandle.isInvalid, NFSFileHandle.isInvalid, hsize, hlinkSize]
  · rw [NFSFileHandle.isBadLink, NFSFileHandle.isBadLink, hflag, hlinkSize]

/-! ### Operations -/

variable (src : Bytes)

/-- `operator=(const nfs_fh3 &)`, and the one for `fhandle3` -/
def assignFH : NFSFileHandle :=
  { a with m_handle := some src, m_size := src.length, size_le := Nat.le_refl _ }

def ofFH : NFSFileHandle := empty.assignFH src

def setLinkSource : NFSFileHandle :=
  { a with
    m_linkHandle := some src
    m_linkSize := src.length
    m_isLink := true
    linkSize_le := Nat.le_refl _ }

/-- The array of the link stays. -/
def setBadLink : NFSFileHandle :=
  { a with m_isLink := true, m_linkSize := 0, linkSize_le := Nat.zero_le _ }

/-- `if (src.m_size > 0)` -/
def assignHandle : NFSFileHandle :=
  if 0 < b.m_size then
    { a with
      m_handle := some b.toFH
      m_size := b.m_size
      size_le := Nat.le_of_eq b.toFH_length.symm }
  else a

/-- `if (src.m_linkSize > 0)` -/
def assignLink : NFSFileHandle :=
  if 0 < b.m_linkSize then
    { a with
      m_linkHandle := some b.toFHLink
      m_linkSize := b.m_linkSize
      linkSize_le := Nat.le_of_eq b.toFHLink_length.symm }
  else a

/-- `operator=(const NFSFileHandle &)` -/
def assign : NFSFileHandle := { (a.assignHandle b).assignLink b with m_isLink := b.m_isLink }

/-- `NFSFileHandle(const NFSFileHandle &)` -/
def copy : NFSFileHandle := empty.assign b

/-! ### What an assignment leaves -/

lemma assign_toFH : (a.assign b).toFH = if 0 < b.m_size then b.toFH else a.toFH := by
  have hkeep : (a.assign b).toFH = (a.assignHandle b).toFH := by
    unfold assign assignLink
    split_ifs <;> rfl
  rw [hkeep]
  unfold assignHandle
  split_ifs with hsize
  · exact List.take_of_length_le (Nat.le_of_eq b.toFH_length)
  · rfl

lemma assign_toFHLink :
    (a.assign b).toFHLink = if 0 < b.m_linkSize then b.toFHLink else a.toFHLink := by
  unfold assign assignLink
  split_ifs with hsize
  · exact List.take_of_length_le (Nat.le_of_eq b.toFHLink_length)
  · unfold assignHandle
    split_ifs <;> rfl

/-- What the target has the source has too. -/
def Covered : Prop := (0 < a.m_size → 0 < b.m_size) ∧ (0 < a.m_linkSize → 0 < b.m_linkSize)

lemma taken_iff {x y : Bytes} : (if 0 < y.length then y else x) = y ↔
    (0 < x.length → 0 < y.length) := by
  split_ifs with hy
  · simp [hy]
  · obtain rfl : y = [] := List.length_eq_zero_iff.mp (Nat.eq_zero_of_not_pos hy)
    simp [List.length_pos_iff]

theorem assign_alike : Alike (a.assign b) b ↔ Covered a b := by
  have hfh : (a.assign b).toFH = b.toFH ↔ (0 < a.m_size → 0 < b.m_size) := by
    rw [assign_toFH, ← a.toFH_length, ← b.toFH_length]
    exact taken_iff
  have hlink : (a.assign b).toFHLink = b.toFHLink ↔ (0 < a.m_linkSize → 0 < b.m_linkSize) := by
    rw [assign_toFHLink, ← a.toFHLink_length, ← b.toFHLink_length]
    exact taken_iff
  constructor
  · intro h
    exact ⟨hfh.mp h.toFH, hlink.mp h.toFHLink⟩
  · intro h
    exact Alike.of_arrays (hfh.mpr h.1) (hlink.mpr h.2) rfl

lemma empty_covered : Covered empty b :=
  ⟨fun h => absurd h (Nat.lt_irrefl 0), fun h => absurd h (Nat.lt_irrefl 0)⟩

lemma copy_alike : Alike b.copy b := (assign_alike empty b).mpr (empty_covered b)

end NFSFileHandle

open KioExtras.Nfs.Members.NFSFileHandle

/-! ### The cache -/

abbrev HandleCache := Text → Option NFSFileHandle

variable (m_handleCache : HandleCache)

/-- `QMap::insert`: an entry that is there is assigned to. -/
def HandleCache.insert (path : Text) (fh : NFSFileHandle) :
    HandleCache :=
  Function.update m_handleCache path
    (some (match m_handleCache path with
      | some entry => entry.assign fh
      | none => fh.copy))

/-- The entry of the path is like the handle. -/
def Keeps (path : Text) (fh : NFSFileHandle) : Prop :=
  ∃ entry ∈ m_handleCache path, Alike entry fh

lemma insert_keeps (path : Text) (fh : NFSFileHandle) :
    Keeps (m_handleCache.insert path fh) path fh ↔
      ∀ entry ∈ m_handleCache path, Covered entry fh := by
  rw [Keeps, HandleCache.insert, Function.update_self]
  cases m_handleCache path with
  | none => simpa using copy_alike fh
  | some entry => simpa using assign_alike entry fh

/-- **Assignment**: the target is like the source where the source has all that the target has, and
nowhere else; an entry of the cache is assigned to in the same way. -/
theorem alike_iff_covered (a b : NFSFileHandle) (m_handleCache : HandleCache) (path : Text) :
    (Alike (a.assign b) b ↔ Covered a b) ∧
      (Keeps (m_handleCache.insert path b) path b ↔
        ∀ entry ∈ m_handleCache path, Covered entry b) :=
  ⟨assign_alike a b, insert_keeps m_handleCache path b⟩

/-- A link whose target has gone stays a good one. -/
theorem bad_link_stays_good : ¬ ∀ a b : NFSFileHandle, Alike (a.assign b) b := by
  intro h
  have hgood := (h ((ofFH [1]).setLinkSource [2]) (ofFH [1]).setBadLink).isBadLink
  revert hgood
  decide

end KioExtras.Nfs.Members
