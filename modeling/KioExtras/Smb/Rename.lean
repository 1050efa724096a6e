import KioExtras.Smb.Url
import Mathlib.Logic.Function.Basic

/-!
Renaming on a share: `SMBWorker::rename`.

A share says which file an URL leads to, so that several spellings of a name may lead to one
file. What the server answers, and what its own rename does to the share, are parameters.
-/

namespace KioExtras.Smb.Rename

open KioExtras.Kio

/-- What a stat reports: inode, device and whether the mode is that of a directory. -/
structure Stat where
  st_ino : UInt64
  st_dev : UInt64
  isDir : Bool
  deriving DecidableEq

abbrev Share (F : Type*) := SMBUrl → Option F

/-- The `k`-th place at which `rename` asks for a stat gets the error `fault k` or the numbers
`report k`; `smbc_rename` leaves another share or fails. -/
structure Server (F : Type*) where
  fault : ℕ → Option Errno
  report : ℕ → F → Stat
  smbc_rename : Share F → SMBUrl → SMBUrl → Except Errno (Share F)

variable {F : Type*}

def cache_stat (server : Server F) (share : Share F) (k : ℕ) (url : SMBUrl) : Except Errno Stat :=
  match share url with
  | none => .error .ENOENT
  | some f =>
    match server.fault k with
    | some errNum => .error errNum
    | none => .ok (server.report k f)

/-- `static_cast<ino_t>(-1)`. -/
def badInode : UInt64 := -1

def sameInodeStat (srcStat : Option Stat) (dstStat : Stat) : Bool :=
  match srcStat with
  | none => false
  | some srcStat =>
    if srcStat.st_ino = badInode ∨ dstStat.st_ino = badInode then false
    else decide (srcStat.st_ino = dstStat.st_ino ∧ srcStat.st_dev = dstStat.st_dev)

/-- `compare(…, Qt::CaseInsensitive) == 0` for a case folding. -/
def compareCaseInsensitive (fold : Char → Char) (a b : String) : Bool :=
  decide (a.toList.map fold = b.toList.map fold)

/-- The result, the share that is left and whether `smbc_rename` was called. -/
structure Left (F : Type*) where
  result : WorkerResult
  share : Share F
  smbc_renameCalled : Bool

def callRename (server : Server F) (share : Share F) (src dst : SMBUrl) : Left F :=
  let cannotRename : WorkerResult := .fail .ERR_CANNOT_RENAME src.toDisplayString
  match server.smbc_rename share src dst with
  | .ok share => ⟨.pass, share, true⟩
  | .error .ENOENT =>
    match cache_stat server share 2 src with
    | .error .EACCES => ⟨.fail .ERR_ACCESS_DENIED src.toDisplayString, share, true⟩
    | .error _ => ⟨.fail .ERR_DOES_NOT_EXIST src.toDisplayString, share, true⟩
    | .ok _ => ⟨cannotRename, share, true⟩
  | .error .EACCES => ⟨.fail .ERR_ACCESS_DENIED dst.toDisplayString, share, true⟩
  | .error .EPERM => ⟨.fail .ERR_ACCESS_DENIED dst.toDisplayString, share, true⟩
  | .error (.other _) => ⟨cannotRename, share, true⟩

def srcStat (fold : Char → Char) (server : Server F) (share : Share F) (src dst : SMBUrl) :
    Option Stat :=
  if compareCaseInsensitive fold src.path dst.path then
    -- the stat is asked for `dst` here, not for `src`
    match cache_stat server share 0 dst with
    | .ok st => some st
    | .error _ => none
  else none

def rename (fold : Char → Char) (server : Server F) (share : Share F) (src dst : SMBUrl)
    (flags : JobFlags) : Left F :=
  match cache_stat server share 1 dst with
  | .ok st =>
    if !sameInodeStat (srcStat fold server share src dst) st then
      if st.isDir then ⟨.fail .ERR_DIR_ALREADY_EXIST dst.toDisplayString, share, false⟩
      else if !flags.Overwrite then
        ⟨.fail .ERR_FILE_ALREADY_EXIST dst.toDisplayString, share, false⟩
      else callRename server share src dst
    else callRename server share src dst
  | .error _ => callRename server share src dst

/-- The call says that the destination exists, asks for no rename and leaves the share. -/
structure Refuses (share : Share F) (dst : SMBUrl) (left : Left F) : Prop where
  result : left.result = .fail .ERR_FILE_ALREADY_EXIST dst.toDisplayString ∨
    left.result = .fail .ERR_DIR_ALREADY_EXIST dst.toDisplayString
  smbc_renameCalled : left.smbc_renameCalled = false
  share : left.share = share

/-- Distinct files are reported with distinct numbers or with the bad inode. -/
def Distinct (server : Server F) : Prop :=
  ∀ i j f g, f ≠ g → (server.report i f).st_ino = badInode ∨ (server.report j g).st_ino = badInode ∨
    (server.report i f).st_ino ≠ (server.report j g).st_ino ∨
    (server.report i f).st_dev ≠ (server.report j g).st_dev

/-- The two stats of a file report the same entity. -/
def SameTwice (server : Server F) (f : F) : Prop :=
  (server.report 0 f).st_ino ≠ badInode ∧
    (server.report 0 f).st_ino = (server.report 1 f).st_ino ∧
    (server.report 0 f).st_dev = (server.report 1 f).st_dev

lemma sameInodeStat_iff {a b : Stat} :
    sameInodeStat (some a) b = true ↔
      a.st_ino ≠ badInode ∧ a.st_ino = b.st_ino ∧ a.st_dev = b.st_dev := by
  simp only [sameInodeStat]
  split_ifs with h
  · simp only [false_iff]
    rintro ⟨h1, h2, -⟩
    rcases h with h | h
    · exact h1 h
    · exact h1 (h2.trans h)
  · simp only [not_or] at h
    simp [h.1]

lemma callRename_called (server : Server F) (share : Share F) (src dst : SMBUrl) :
    (callRename server share src dst).smbc_renameCalled = true := by
  unfold callRename
  split
  · rfl
  · split <;> rfl
  · rfl
  · rfl
  · rfl

section guard

variable {fold : Char → Char} {server : Server F} {share : Share F} {dst : SMBUrl} {f : F}

lemma same_iff (src : SMBUrl) (hdst : share dst = some f) :
    sameInodeStat (srcStat fold server share src dst) (server.report 1 f) = true ↔
      compareCaseInsensitive fold src.path dst.path = true ∧ server.fault 0 = none ∧
        SameTwice server f := by
  unfold srcStat
  cases hc : compareCaseInsensitive fold src.path dst.path with
  | false => simp [sameInodeStat]
  | true =>
    cases hf : server.fault 0 with
    | some errNum => simp [cache_stat, hdst, hf, sameInodeStat]
    | none => simp [cache_stat, hdst, hf, sameInodeStat_iff, SameTwice]

end guard

/-- **A rename onto an existing entry is refused** exactly when the destination is seen, and its
two stats are not both taken and found the same, which makes it look like the source. -/
theorem rename_refuses_iff (fold : Char → Char) (server : Server F) (share : Share F)
    (src dst : SMBUrl) (flags : JobFlags) (f : F) (hO : flags.Overwrite = false)
    (hdst : share dst = some f) :
    Refuses share dst (rename fold server share src dst flags) ↔
      server.fault 1 = none ∧ ¬ (compareCaseInsensitive fold src.path dst.path = true ∧
        server.fault 0 = none ∧ SameTwice server f) := by
  have hnot : ¬ Refuses share dst (callRename server share src dst) := fun h => by
    have := h.smbc_renameCalled
    simp [callRename_called] at this
  unfold rename
  cases hf : server.fault 1 with
  | some errNum => simpa [cache_stat, hdst, hf] using hnot
  | none =>
    rw [← same_iff src hdst]
    simp only [cache_stat, hdst, hf, hO]
    cases hsame : sameInodeStat (srcStat fold server share src dst) (server.report 1 f) with
    | true => simpa using hnot
    | false =>
      simp only [Bool.not_false, if_true, true_and, Bool.false_eq_true, not_false_eq_true, iff_true]
      split_ifs
      · exact ⟨Or.inr rfl, rfl, rfl⟩
      · exact ⟨Or.inl rfl, rfl, rfl⟩

def twoCases : Share Bool := fun url =>
  if url.path = "/s/a" then some false else if url.path = "/s/A" then some true else none

/-- A server that answers every call and replaces what has the new name. -/
def willing : Server Bool where
  fault _ := none
  report _ f := ⟨if f then 2 else 1, 0, false⟩
  smbc_rename share src dst :=
    .ok (Function.update (Function.update share src none) dst (share src))

/-- Under another name the file is refused. -/
theorem rename_refuses_other :
    Refuses twoCases ⟨"smb", "h", "/s/a", []⟩
      (rename Char.toLower willing twoCases ⟨"smb", "h", "/s/b", []⟩ ⟨"smb", "h", "/s/a", []⟩
        DefaultFlags) := by
  refine (rename_refuses_iff Char.toLower willing twoCases ⟨"smb", "h", "/s/b", []⟩
    ⟨"smb", "h", "/s/a", []⟩ DefaultFlags false rfl (by decide)).mpr ⟨rfl, fun h => ?_⟩
  exact absurd h.1 (by decide)

/-- On a server that is case sensitive the file `A` is replaced by `a`. -/
theorem rename_replaces_case :
    Distinct willing ∧ twoCases ⟨"smb", "h", "/s/A", []⟩ = some true ∧
      twoCases ⟨"smb", "h", "/s/a", []⟩ ≠ some true ∧
      ¬ Refuses twoCases ⟨"smb", "h", "/s/A", []⟩
        (rename Char.toLower willing twoCases ⟨"smb", "h", "/s/a", []⟩ ⟨"smb", "h", "/s/A", []⟩
          DefaultFlags) ∧
      (rename Char.toLower willing twoCases ⟨"smb", "h", "/s/a", []⟩ ⟨"smb", "h", "/s/A", []⟩
        DefaultFlags).share ⟨"smb", "h", "/s/A", []⟩ = some false := by
  refine ⟨?_, by decide, by decide, fun h => ?_, by decide⟩
  · intro i j f g hfg
    cases f <;> cases g <;> simp_all [willing, badInode]
  · have hcalled := h.smbc_renameCalled
    revert hcalled
    decide

end KioExtras.Smb.Rename
