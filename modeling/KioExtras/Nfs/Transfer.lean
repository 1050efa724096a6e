import KioExtras.Kio
import KioExtras.Lib.FileStore
import KioExtras.Lib.Stream

/-!
What the transfers have in common: the file handles of the worker, the sizes that the server
prefers, and what a server makes of a READ or a WRITE.
-/

namespace KioExtras.Nfs

open KioExtras.Kio KioExtras.Lib.Stream
open KioExtras.Lib.FileStore.Store (splice)

/-- `m_size` and `m_linkSize` are 0 where there is no handle. -/
structure NFSFileHandle (F : Type) where
  m_handle : Option F
  m_linkHandle : Option F
  m_isLink : Bool
  deriving DecidableEq

namespace NFSFileHandle

variable {F : Type}

def ofFH (fh : F) : NFSFileHandle F := ⟨some fh, none, false⟩

def isInvalid (h : NFSFileHandle F) : Bool := h.m_handle.isNone && h.m_linkHandle.isNone

def isLink (h : NFSFileHandle F) : Bool := h.m_isLink

def isBadLink (h : NFSFileHandle F) : Bool := h.m_isLink && h.m_linkHandle.isNone

def setLinkSource (h : NFSFileHandle F) (src : F) : NFSFileHandle F :=
  { h with m_linkHandle := some src, m_isLink := true }

def setBadLink (h : NFSFileHandle F) : NFSFileHandle F :=
  { h with m_linkHandle := none, m_isLink := true }

end NFSFileHandle

inductive MaybeNFSFileHandle (F : Type)
  | fails (error : Error) (text : String)
  | handle (fh : NFSFileHandle F)
  deriving DecidableEq

def handleIsValid {F : Type} : MaybeNFSFileHandle F → Bool
  | .fails _ _ => false
  | .handle _ => true

/-- The sizes of the worker, 0 until the server was asked. -/
structure Sizes where
  m_readBufferSize : ℕ
  m_writeBufferSize : ℕ
  m_readDirSize : ℕ
  deriving DecidableEq

structure FsInfo where
  rtpref : ℕ
  wtpref : ℕ
  dtpref : ℕ

def NFS3_MAXDATA : ℕ := 32768

/-- `none` stands for an FSINFO that failed. -/
def initPreferredSizes : Option FsInfo → Sizes
  | some info => ⟨info.rtpref, info.wtpref, info.dtpref⟩
  | none => ⟨NFS3_MAXDATA, NFS3_MAXDATA, NFS3_MAXDATA⟩

/-- What the server makes of a READ or WRITE: an error, or as many bytes as were asked for up to
a limit of its own. -/
inductive Answer
  | fails (error : Error) (text : String)
  | serves (limit : ℕ) (pos : 0 < limit)

/-- The answers to the calls of one transfer, in their order; which replies to a READ come with
the attributes of the file; and which accesses to the local file succeed. -/
structure Server where
  read : ℕ → Answer
  write : ℕ → Answer
  attributes : ℕ → Bool
  localFile : ℕ → Bool

/-- All that is asked for is read and written. -/
def fullServer : Server where
  read _ := .serves (2 ^ 32) (by decide)
  write _ := .serves (2 ^ 32) (by decide)
  attributes _ := true
  localFile _ := true

def byteServer : Server where
  read _ := .serves 1 (by decide)
  write _ := .serves 1 (by decide)
  attributes _ := false
  localFile _ := true

lemma splice_length (data bytes : Bytes) (offset : ℕ) :
    (splice data offset bytes).length = max data.length (offset + bytes.length) := by
  simp only [splice, List.length_append, List.length_take, List.length_replicate,
    List.length_drop]
  omega

end KioExtras.Nfs
