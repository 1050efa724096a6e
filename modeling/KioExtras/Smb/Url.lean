import KioExtras.Kio
import Mathlib.Data.List.Infix
import Mathlib.Data.Nat.Notation
import Mathlib.Tactic.Common

/-!
The vocabulary of the SMB worker: the numbers in `errno`, and URLs, those of local files
included, with their type and the name of the partial file.
-/

namespace KioExtras.Smb

open KioExtras.Kio

inductive Errno
  | EACCES
  | ENOENT
  | EPERM
  | other (n : ℕ)
  deriving DecidableEq

structure SMBUrl where
  scheme : String
  host : String
  path : String
  query : List (String × String)
  deriving DecidableEq

namespace SMBUrl

def null : SMBUrl := ⟨"", "", "", []⟩

def queryText (query : List (String × String)) : String :=
  if query.isEmpty then "" else "?" ++ "&".intercalate (query.map fun (k, v) => k ++ "=" ++ v)

def toDisplayString (url : SMBUrl) : String :=
  url.scheme ++ "://" ++ url.host ++ url.path ++ queryText url.query

inductive SMBUrlType
  | UNKNOWN
  | ENTIRE_NETWORK
  | WORKGROUP_OR_SERVER
  | SHARE_OR_PATH
  | PRINTER
  deriving DecidableEq

def getType (url : SMBUrl) : SMBUrlType :=
  if url.scheme ≠ "smb" then .UNKNOWN
  else if url.query.lookup "kio-printer" = some "true" then .PRINTER
  else if url.path = "" ∨ url.path = "/" then
    if url.host = "" ∧ ¬ "kio-workgroup".toList <:+: (queryText url.query).toList then
      .ENTIRE_NETWORK
    else .WORKGROUP_OR_SERVER
  else .SHARE_OR_PATH

/-- `QUrl::fileName`: what follows the last slash. -/
def fileName (url : SMBUrl) : List Char :=
  (url.path.toList.reverse.takeWhile fun c => c ≠ '/').reverse

def namesFile (url : SMBUrl) : Bool :=
  let isRemoteFile := decide (url.getType = .SHARE_OR_PATH) && !url.fileName.isEmpty
  let isLocalFile := decide (url.scheme = "file") && !url.fileName.isEmpty
  isRemoteFile || isLocalFile

def partUrl (url : SMBUrl) : SMBUrl :=
  if url.namesFile then { url with path := partName url.path } else null

lemma partUrl_of_namesFile {url : SMBUrl} (h : url.namesFile = true) :
    url.partUrl = { url with path := partName url.path } := by
  simp [partUrl, h]

lemma partUrl_path {url : SMBUrl} (h : url.namesFile = true) :
    url.partUrl.path = partName url.path := by
  rw [partUrl_of_namesFile h]

lemma partUrl_ne {url : SMBUrl} (h : url.namesFile = true) : url.partUrl ≠ url := by
  intro heq
  have hpath := congrArg SMBUrl.path heq
  rw [partUrl_path h] at hpath
  exact partName_ne _ hpath

example : (SMBUrl.mk "smb" "h" "/s/f" []).namesFile = true := by decide

end SMBUrl

end KioExtras.Smb
