import KioExtras.Lib.Base64
import KioExtras.Lib.Sql
import Mathlib.Data.List.DropRight

/-!
The worker of activities: the files that are linked to an activity, under names that have their
paths.
-/

namespace KioExtras.Activities

open KioExtras.Lib KioExtras.Lib.Sql

/-! ### Names -/

def base64url : List Char :=
  "ABCDEFGHIJKLMNOPQRSTUVWXYZabcdefghijklmnopqrstuvwxyz0123456789-_".toList

def letter (d : ℕ) : Char := base64url.getD d 'A'

/-- The number of a letter, in the order in which the decoder tries. -/
def value (ch : Char) : Option ℕ :=
  if 'A' ≤ ch ∧ ch ≤ 'Z' then some (ch.toNat - 'A'.toNat)
  else if 'a' ≤ ch ∧ ch ≤ 'z' then some (ch.toNat - 'a'.toNat + 26)
  else if '0' ≤ ch ∧ ch ≤ '9' then some (ch.toNat - '0'.toNat + 52)
  else if ch = '-' then some 62
  else if ch = '_' then some 63
  else none

set_option maxRecDepth 2000 in
lemma value_letter : ∀ d < 64, value (letter d) = some d := by decide

def Base64UrlEncoding : Base64.Alphabet Char where
  letter := letter
  value := value
  value_letter := value_letter

def toUtf8 (text : Text) : List UInt8 := text.flatMap String.utf8EncodeChar

/-- What the worker asks of the system. `invalid` is what is made of bytes that are no UTF-8. -/
structure World where
  invalid : List UInt8 → Text
  exists_ : Text → Bool
  currentActivity : Text
  /-- the answer of the database to the text of a query; empty for an error -/
  execQuery : Text → List Text

variable (w : World)

def fromUtf8 (bytes : List UInt8) : Text :=
  match bytes.toByteArray.utf8Decode? with
  | some text => text.toList
  | none => w.invalid bytes

def mangledPath (path : Text) : Text := Base64.encode Base64UrlEncoding (toUtf8 path)

def demangledPath (mangled : Text) : Text :=
  fromUtf8 w (Base64.decode Base64UrlEncoding mangled)

/-! ### URLs -/

inductive PathType
  | RootItem
  | ActivityRootItem
  | ActivityPathItem
  deriving DecidableEq

def stripTrailingSlash (path : Text) : Text :=
  let stripped := path.rdropWhile (· = '/')
  if stripped = [] ∧ path ≠ [] then ['/'] else stripped

/-- `mid(indexOf("/") + 1)`: all of it where there is no slash. -/
def afterSlash (path : Text) : Text :=
  if '/' ∈ path then (path.dropWhile (· ≠ '/')).drop 1 else path

def beforeSlash (path : Text) : Text := path.takeWhile (· ≠ '/')

variable (urlPath : Text)

/-- `path`: without slashes at the end and one at the beginning -/
def relativePath : Text :=
  let fullPath := stripTrailingSlash urlPath
  if fullPath.head? = some '/' then fullPath.drop 1 else fullPath

/-- `filePath`: of the first segment after the activity, and what comes after it -/
def filePath (path : Text) : Text :=
  let strippedPath := afterSlash path
  if '/' ∈ strippedPath then
    demangledPath w (beforeSlash strippedPath) ++ strippedPath.dropWhile (· ≠ '/')
  else demangledPath w strippedPath

/-- The type, the activity and the path of the file that a URL with this path names. -/
def pathType : PathType × Text × Text :=
  let path := relativePath urlPath
  (if path = [] then .RootItem else if '/' ∈ path then .ActivityPathItem else .ActivityRootItem,
    beforeSlash path, filePath w path)

/-- The answers of `rewriteUrl` -/
inductive Rewritten
  | no
  | activity (id : Text)
  | fromLocalFile (path : Text)
  deriving DecidableEq

def rewriteUrl : Rewritten :=
  match pathType w urlPath with
  | (.ActivityPathItem, _, path) => .fromLocalFile path
  | (_, activity, _) =>
    if activity = "current".toList then .activity w.currentActivity else .no

/-! ### The listing -/

variable (activity : Text)

/-- `queryString` with the activity in place of the mark. -/
def queryString : Text :=
  "SELECT targettedResource FROM ResourceLink WHERE usedActivity = '".toList ++ activity ++
    "' AND initiatingAgent = \":global\" ".toList

def activityOf : Text :=
  if activity = "current".toList then w.currentActivity else activity

/-- The paths of the entries that are listed below an activity -/
def listed : List Text :=
  (w.execQuery (queryString (activityOf w activity))).filter w.exists_

/-- What `listDir` does: in the root, for an activity with the names of its files, and below. -/
inductive Listing
  | activities
  | files (names : List Text)
  | forwarded (path : Text)

def listDir : Listing :=
  match pathType w urlPath with
  | (.RootItem, _, _) => .activities
  | (.ActivityRootItem, activity, _) => .files ((listed w activity).map mangledPath)
  | (.ActivityPathItem, _, path) => .forwarded path

/-! ### Names and paths -/

variable {w}

lemma fromUtf8_toUtf8 (text : Text) : fromUtf8 w (toUtf8 text) = text := by
  have hdecode : (toUtf8 text).toByteArray.utf8Decode? = some text.toArray :=
    List.utf8Decode?_utf8Encode
  unfold fromUtf8
  rw [hdecode]

lemma demangledPath_mangledPath (path : Text) : demangledPath w (mangledPath path) = path := by
  unfold demangledPath mangledPath
  rw [Base64.decode_encode, fromUtf8_toUtf8]

lemma slash_notMem_mangledPath (path : Text) : '/' ∉ mangledPath path := by
  intro hmem
  obtain ⟨d, hd, heq⟩ := Base64.mem_encode hmem
  have hvalue : value '/' = some d := heq ▸ value_letter d hd
  exact absurd hvalue (by simp [value])

lemma mangledPath_ne_nil {path : Text} (h : path ≠ []) : mangledPath path ≠ [] := by
  intro hnil
  apply h
  rw [← demangledPath_mangledPath (w := ⟨fun _ => [], fun _ => true, [], fun _ => []⟩) path, hnil]
  rfl

end KioExtras.Activities
