import KioExtras.KArchive
import Mathlib.Algebra.BigOperators.Group.List.Basic
import Mathlib.Algebra.Ring.Int.Defs

/-!
The size of what is in a directory of an archive, as `stat` reports it.

The files have sizes of 64 bits, the total has 32.
-/

namespace KioExtras.Archive.DirSize

open KioExtras.KArchive

/-- What the loop of `computeArchiveDirSize` adds for an entry. The size of a file is added with
64 bits, before the sum is cut to those of the total. -/
def addSize (totalSize : UInt32) : KArchiveEntry → UInt32
  | .file size _ => UInt32.ofInt (totalSize.toNat + size.toInt)
  | .directory entries _ entry =>
    totalSize + entries.foldl (fun totalSize entryName => addSize totalSize (entry entryName)) 0

def computeArchiveDirSize (entries : List Text) (entry : Text → KArchiveEntry) : UInt32 :=
  entries.foldl (fun totalSize entryName => addSize totalSize (entry entryName)) 0

/-- The exact sum of the sizes of the files below an entry. -/
def exactSize : KArchiveEntry → ℤ
  | .file size _ => size.toInt
  | .directory entries _ entry => (entries.map fun entryName => exactSize (entry entryName)).sum

lemma toNat_ofInt (n : ℤ) : ((UInt32.ofInt n).toNat : ℤ) = n % 2 ^ 32 := by
  rw [UInt32.ofInt, UInt32.toNat_ofNat']
  omega

lemma ofInt_toNat (n : UInt32) : UInt32.ofInt n.toNat = n := by
  apply UInt32.toNat_inj.mp
  have hn := n.toNat_lt
  have hcut := toNat_ofInt n.toNat
  omega

lemma foldl_addSize {entry : Text → KArchiveEntry} (hentry : ∀ name total,
      addSize total (entry name) = total + UInt32.ofInt (exactSize (entry name)))
    (entries : List Text) (total : UInt32) :
    entries.foldl (fun total name => addSize total (entry name)) total =
      total + UInt32.ofInt (entries.map fun name => exactSize (entry name)).sum := by
  induction entries generalizing total with
  | nil => exact (UInt32.add_zero total).symm
  | cons name entries ih =>
    calc entries.foldl _ (addSize total (entry name))
      _ = total + UInt32.ofInt (exactSize (entry name)) + UInt32.ofInt
            (entries.map fun name => exactSize (entry name)).sum := by rw [ih, hentry]
      _ = total + UInt32.ofInt ((name :: entries).map fun name => exactSize (entry name)).sum := by
        rw [List.map_cons, List.sum_cons, UInt32.ofInt_add, UInt32.add_assoc]

lemma addSize_eq (e : KArchiveEntry) (total : UInt32) :
    addSize total e = total + UInt32.ofInt (exactSize e) := by
  induction e generalizing total with
  | file size data => rw [addSize, UInt32.ofInt_add, ofInt_toNat, exactSize]
  | directory entries nodup entry ih =>
    rw [addSize, foldl_addSize ih, UInt32.zero_add, exactSize]

lemma computeArchiveDirSize_eq (entries : List Text) (entry : Text → KArchiveEntry) :
    ((computeArchiveDirSize entries entry).toNat : ℤ) =
      (entries.map fun name => exactSize (entry name)).sum % 2 ^ 32 := by
  rw [computeArchiveDirSize, foldl_addSize (fun name => addSize_eq (entry name)), UInt32.zero_add,
    toNat_ofInt]

/-- **The total is exact** just if 32 bits hold it. -/
theorem computeArchiveDirSize_exact (entries : List Text) (entry : Text → KArchiveEntry) :
    let total := (entries.map fun name => exactSize (entry name)).sum
    (computeArchiveDirSize entries entry).toNat = total ↔ 0 ≤ total ∧ total < 2 ^ 32 := by
  intro total
  rw [computeArchiveDirSize_eq]
  omega

/-- A file of 4 GiB. -/
theorem size_of_4GiB : ¬∀ entries entry, ((computeArchiveDirSize entries entry).toNat : ℤ) =
    (entries.map fun name => exactSize (entry name)).sum := by
  intro h
  have hfile := h [['a']] fun _ => .file 0x100000000 []
  revert hfile
  decide

end KioExtras.Archive.DirSize
