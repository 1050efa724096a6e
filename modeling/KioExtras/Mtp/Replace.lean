import KioExtras.Kio
import KioExtras.Lib.Stream
import Mathlib.Logic.Function.Basic
import Mathlib.Tactic.Common

/-!
`put`, `copy` to a device and `rename`: what they do with the object that is in their place.

A storage is seen as the objects at its paths. What the calls return that may fail is given by an
environment.
-/

namespace KioExtras.Mtp

open KioExtras.Kio KioExtras.Lib.Stream

abbrev Path := List String

inductive Object
  | folder
  | file (content : Bytes)
  deriving DecidableEq

abbrev Storage := Path → Option Object

/-- The items of the path are the device, the storage and the names on it. -/
structure MtpUrl where
  scheme : String
  items : List String
  deriving DecidableEq

namespace MtpUrl

def path (url : MtpUrl) : String := String.join (url.items.map ("/" ++ ·))

def fileName (url : MtpUrl) : String := url.items.getLastD ""

def directory (url : MtpUrl) : String := String.join (url.items.dropLast.map ("/" ++ ·))

/-- `convertPath`: without the device and the storage. -/
def convertPath (url : MtpUrl) : Path := url.items.drop 2

end MtpUrl

inductive UrlCheck
  | Valid
  | Redirected
  | NotFound
  | Invalid
  deriving DecidableEq

/-- `deletes` and `metadata` are true when the calls to the device succeed, `copyFinished` is the
result that comes with the signal, `setName` what `LIBMTP_Set_File_Name` returns. -/
structure Env where
  checkUrl : MtpUrl → UrlCheck
  deviceFromName : String → Bool
  storageFromDescription : String → String → Bool
  setFriendlyName : Bool
  tempOpen : Bool
  srcOpen : Bool
  deletes : Bool
  metadata : Bool
  copyFinished : ℤ
  setName : ℤ

def Env.storage (env : Env) (items : List String) : Bool :=
  env.deviceFromName (items.getD 0 "") &&
    env.storageFromDescription (items.getD 0 "") (items.getD 1 "")

def getFileMetadata (s : Storage) (path : Path) : Option Object :=
  if path = [] then none else s path

/-- Without an object and all that is in it. -/
def remove (s : Storage) (path : Path) : Storage := fun q => if path <+: q then none else s q

def deleteObject (env : Env) (s : Storage) (path : Path) : Bool × Storage :=
  match getFileMetadata s path with
  | none => (false, s)
  | some _ => if env.deletes then (true, remove s path) else (false, s)

/-- With 0 the transfer is started. -/
def sendFileFromFileDescriptor (s : Storage) (path : Path) : ℕ :=
  if path = [] then 1
  else if path.dropLast = [] then 0
  else match getFileMetadata s path.dropLast with
    | some .folder => 0
    | _ => 2

def transfer (env : Env) (s : Storage) (path : Path) (data : Bytes) : Storage :=
  if env.copyFinished = 0 then Function.update s path (some (.file data)) else s

/-- The object with all that is in it under a new name. -/
def move (s : Storage) (src dest : Path) : Storage := fun q =>
  if dest <+: q then s (src ++ q.drop dest.length) else if src <+: q then none else s q

def setFileName (env : Env) (s : Storage) (path : Path) (newName : String) : ℤ × Storage :=
  match getFileMetadata s path with
  | none => (1, s)
  | some _ =>
    if env.metadata then
      if env.setName = 0 then (0, move s path (path.dropLast ++ [newName])) else (env.setName, s)
    else (1, s)

/-- The existing file is checked for and deleted: the same lines in the three operations. -/
def deleteExisting (env : Env) (Overwrite : Bool) (s : Storage) (dest : MtpUrl) :
    Except WorkerResult Storage :=
  match getFileMetadata s dest.convertPath with
  | none => .ok s
  | some _ =>
    if Overwrite then
      match deleteObject env s dest.convertPath with
      | (true, t) => .ok t
      | (false, _) => .error (.fail .ERR_CANNOT_DELETE dest.path)
    else .error (.fail .ERR_FILE_ALREADY_EXIST dest.path)

/-- The answers of the application: chunks, and then a result that is not positive with what the
buffer holds at that time. -/
structure Upload where
  chunks : List Bytes
  len : ℤ
  len_le : len ≤ 0
  buffer : Bytes

def putFile (env : Env) (s : Storage) (url : MtpUrl) (data : Bytes) : WorkerResult × Storage :=
  if sendFileFromFileDescriptor s url.convertPath ≠ 0 then
    (.fail .ERR_CANNOT_WRITE url.fileName, s)
  else
    (if env.copyFinished = 0 then .pass
      else if env.copyFinished = 2 then .fail .ERR_IS_FILE url.directory
      else .fail .ERR_CANNOT_WRITE url.fileName,
      transfer env s url.convertPath data)

def put (env : Env) (Overwrite : Bool) (s : Storage) (url : MtpUrl) (up : Upload) :
    WorkerResult × Storage :=
  if env.checkUrl url ≠ .Valid then (.fail .ERR_MALFORMED_URL url.path, s)
  else if url.items.length < 2 then (.fail .ERR_UNSUPPORTED_ACTION url.path, s)
  else if !env.tempOpen || !env.storage url.items then (.fail .ERR_CANNOT_WRITE url.fileName, s)
  else match deleteExisting env Overwrite s url with
    | .error res => (res, s)
    | .ok t => putFile env t url (up.chunks.flatten ++ up.buffer)

def copyFile (env : Env) (s : Storage) (src dest : MtpUrl) (data : Bytes) :
    WorkerResult × Storage :=
  if !env.srcOpen then (.fail .ERR_CANNOT_OPEN_FOR_READING src.path, s)
  else if sendFileFromFileDescriptor s dest.convertPath ≠ 0 then
    (.fail .ERR_CANNOT_WRITE dest.fileName, s)
  else
    (if env.copyFinished = 0 then .pass else .fail .ERR_CANNOT_WRITE dest.fileName,
      transfer env s dest.convertPath data)

/-- `copy` from the file system, with the content of the local file. -/
def copy (env : Env) (Overwrite : Bool) (s : Storage) (src dest : MtpUrl) (data : Bytes) :
    WorkerResult × Storage :=
  match env.checkUrl dest with
  | .NotFound => (.fail .ERR_DOES_NOT_EXIST src.path, s)
  | .Redirected => (.fail .ERR_MALFORMED_URL dest.path, s)
  | .Invalid => (.fail .ERR_MALFORMED_URL dest.path, s)
  | .Valid =>
    if dest.items.length < 2 then (.fail .ERR_UNSUPPORTED_ACTION dest.path, s)
    else if !env.storage dest.items then (.fail .ERR_CANNOT_WRITE src.fileName, s)
    else match deleteExisting env Overwrite s dest with
      | .error res => (res, s)
      | .ok t => copyFile env t src dest data

/-- The lines of `rename` that change the name. -/
def renameFile (env : Env) (s : Storage) (src dest : MtpUrl) : WorkerResult × Storage :=
  (if (setFileName env s src.convertPath dest.fileName).1 ≠ 0 then
      .fail .ERR_CANNOT_RENAME src.path
    else .pass, (setFileName env s src.convertPath dest.fileName).2)

/-- Of the two URLs only the source is checked, twice. -/
def rename (env : Env) (Overwrite : Bool) (s : Storage) (src dest : MtpUrl) :
    WorkerResult × Storage :=
  if env.checkUrl src ≠ .Valid then (.fail .ERR_MALFORMED_URL src.path, s)
  else if src.scheme ≠ "mtp" then (.fail .ERR_UNSUPPORTED_ACTION src.path, s)
  else if !env.deviceFromName (src.items.getD 0 "") then (.fail .ERR_CANNOT_RENAME src.path, s)
  else if src.items.length = 1 then
    (if env.setFriendlyName then .pass else .fail .ERR_CANNOT_RENAME src.path, s)
  else if src.items.length = 2 then (.fail .ERR_CANNOT_RENAME src.path, s)
  else if src.items.dropLast ≠ dest.items.dropLast then (.fail .ERR_UNSUPPORTED_ACTION src.path, s)
  else if !env.storage src.items then (.fail .ERR_CANNOT_RENAME src.path, s)
  else match deleteExisting env Overwrite s dest with
    | .error res => (res, s)
    | .ok t => renameFile env t src dest

/-- After a failure the object that was at the path is still there, with all that is in it. -/
def KeepsOnFailure (s : Storage) (path : Path) (out : WorkerResult × Storage) : Prop :=
  out.1.success = false → getFileMetadata s path ≠ none → ∀ q, path <+: q → out.2 q = s q

/-! ### When they are right -/

structure PutRight (env : Env) (Overwrite : Bool) (s : Storage) (url : MtpUrl) (up : Upload) :
    Prop where
  keeps : KeepsOnFailure s url.convertPath (put env Overwrite s url up)
  ended : (put env Overwrite s url up).1 = .pass → up.len = 0

structure Deletes (env : Env) (Overwrite : Bool) (s : Storage) (dest : MtpUrl) : Prop where
  exists_ : getFileMetadata s dest.convertPath ≠ none
  overwrite : Overwrite = true
  deletes : env.deletes = true

/-- The place of an object is in the root or in a folder. -/
def HasParent (s : Storage) (path : Path) : Prop :=
  path ≠ [] ∧ (path.dropLast ≠ [] → s path.dropLast = some .folder)

structure PutReaches (env : Env) (url : MtpUrl) : Prop where
  valid : env.checkUrl url = .Valid
  items : 2 ≤ url.items.length
  tempOpen : env.tempOpen = true
  storage : env.storage url.items = true

structure CopyReaches (env : Env) (dest : MtpUrl) : Prop where
  valid : env.checkUrl dest = .Valid
  items : 2 ≤ dest.items.length
  storage : env.storage dest.items = true

structure RenameReaches (env : Env) (src dest : MtpUrl) : Prop where
  valid : env.checkUrl src = .Valid
  scheme : src.scheme = "mtp"
  items : 2 < src.items.length
  dir : src.items.dropLast = dest.items.dropLast
  storage : env.storage src.items = true

/-- Nothing fails after the deletion, and what is sent is a stream that ended. -/
structure PutSafe (env : Env) (Overwrite : Bool) (s : Storage) (url : MtpUrl) (up : Upload) :
    Prop where
  replaces : Deletes env Overwrite s url → HasParent s url.convertPath ∧ env.copyFinished = 0
  ended : (getFileMetadata s url.convertPath ≠ none → Deletes env Overwrite s url) →
    HasParent s url.convertPath → env.copyFinished = 0 → up.len = 0

structure CopySafe (env : Env) (Overwrite : Bool) (s : Storage) (dest : MtpUrl) : Prop where
  replaces : Deletes env Overwrite s dest →
    env.srcOpen = true ∧ HasParent s dest.convertPath ∧ env.copyFinished = 0

structure RenameSafe (env : Env) (Overwrite : Bool) (s : Storage) (src dest : MtpUrl) : Prop where
  replaces : Deletes env Overwrite s dest → src.items ≠ dest.items ∧
    s src.convertPath ≠ none ∧ env.metadata = true ∧ env.setName = 0

/-! ### Deleting -/

variable {env : Env} {Overwrite : Bool} {s : Storage}

lemma remove_self (s : Storage) (path : Path) : remove s path path = none := by
  simp [remove]

lemma remove_of_not {path q : Path} (h : ¬ path <+: q) : remove s path q = s q := if_neg h

lemma deleteExisting_cases (env : Env) (Overwrite : Bool) (s : Storage) (dest : MtpUrl) :
    (getFileMetadata s dest.convertPath = none ∧ deleteExisting env Overwrite s dest = .ok s) ∨
    (Deletes env Overwrite s dest ∧
      deleteExisting env Overwrite s dest = .ok (remove s dest.convertPath)) ∨
    (getFileMetadata s dest.convertPath ≠ none ∧ ¬ Deletes env Overwrite s dest ∧
      ∃ error text, deleteExisting env Overwrite s dest = .error (.fail error text)) := by
  unfold deleteExisting
  cases hm : getFileMetadata s dest.convertPath with
  | none => exact Or.inl ⟨rfl, rfl⟩
  | some o =>
    have hex : getFileMetadata s dest.convertPath ≠ none := by simp [hm]
    cases hover : Overwrite with
    | false =>
      refine Or.inr (Or.inr ⟨by simp, fun h => ?_, _, _, rfl⟩)
      exact absurd h.overwrite Bool.false_ne_true
    | true =>
      cases hdel : env.deletes with
      | true =>
        refine Or.inr (Or.inl ⟨⟨hex, rfl, hdel⟩, ?_⟩)
        simp [deleteObject, hm, hdel]
      | false =>
        refine Or.inr (Or.inr ⟨by simp, fun h => ?_, .ERR_CANNOT_DELETE, dest.path, ?_⟩)
        · rw [h.deletes] at hdel
          exact absurd hdel.symm Bool.false_ne_true
        · simp [deleteObject, hm, hdel]

lemma ne_nil_of_metadata {path : Path} (h : getFileMetadata s path ≠ none) : path ≠ [] := by
  rintro rfl
  simp [getFileMetadata] at h

variable {out : WorkerResult × Storage}

lemma keeps_of_eq {path : Path} (h : out.2 = s) : KeepsOnFailure s path out :=
  fun _ _ q _ => by rw [h]

lemma keeps_of_free {path : Path} (h : getFileMetadata s path = none) : KeepsOnFailure s path out :=
  fun _ hex => absurd h hex

lemma keeps_remove_iff {path : Path} (hex : getFileMetadata s path ≠ none)
    (hout : out.1.success = false → out.2 path = none) :
    KeepsOnFailure s path out ↔ out.1.success = true := by
  constructor
  · intro h
    by_contra hfail
    have hfalse : out.1.success = false := by simpa using hfail
    have hkept := h hfalse hex path List.prefix_rfl
    rw [hout hfalse] at hkept
    rw [getFileMetadata, if_neg (ne_nil_of_metadata hex)] at hex
    exact hex hkept.symm
  · intro h hfail
    simp [h] at hfail

lemma sendFile_eq_zero {path : Path} :
    sendFileFromFileDescriptor s path = 0 ↔ HasParent s path := by
  unfold sendFileFromFileDescriptor HasParent
  by_cases hp : path = []
  · simp [hp]
  · by_cases hd : path.dropLast = []
    · simp [hp, hd]
    · simp only [hp, hd, if_false, getFileMetadata, not_false_eq_true, true_and, forall_const, Ne]
      cases s path.dropLast with
      | none => simp
      | some o => cases o <;> simp

lemma hasParent_remove {path : Path} : HasParent (remove s path) path ↔ HasParent s path := by
  unfold HasParent
  refine and_congr_right fun hp => ?_
  rw [remove_of_not]
  intro hpre
  have hlen := hpre.length_le
  have hpos := List.length_pos_iff.mpr hp
  rw [List.length_dropLast] at hlen
  omega

lemma transfer_failed {path : Path} {data : Bytes} (h : env.copyFinished ≠ 0) :
    transfer env s path data = s := if_neg h

/-! ### The three operations -/

lemma success_iff {res : WorkerResult} : res.success = true ↔ res = .pass := by
  cases res <;> simp

/-- An operation deletes what is there, if it has to, and goes on with `rest`; before that it may
fail with everything as it was. -/
lemma keeps_iff_of_deleteExisting {dest : MtpUrl} {rest : Storage → WorkerResult × Storage}
    {P : Prop} (hout : out = match deleteExisting env Overwrite s dest with
      | .error res => (res, s)
      | .ok t => rest t) (hrest : Deletes env Overwrite s dest →
      ((rest (remove s dest.convertPath)).1.success = true ↔ P) ∧
      ((rest (remove s dest.convertPath)).1.success = false →
        (rest (remove s dest.convertPath)).2 = remove s dest.convertPath)) :
    KeepsOnFailure s dest.convertPath out ↔ (Deletes env Overwrite s dest → P) := by
  subst hout
  rcases deleteExisting_cases env Overwrite s dest with ⟨hfree, heq⟩ | ⟨hdel, heq⟩ |
    ⟨hex, hnot, error, text, heq⟩
  · exact ⟨fun _ hdel => absurd hfree hdel.exists_, fun _ => keeps_of_free hfree⟩
  · obtain ⟨hpass, hsame⟩ := hrest hdel
    simp only [heq, hdel, forall_const]
    rw [← hpass]
    exact keeps_remove_iff hdel.exists_ fun hfail => by rw [hsame hfail, remove_self]
  · simp only [heq]
    exact ⟨fun _ hdel => absurd hdel hnot, fun _ => keeps_of_eq rfl⟩

lemma putFile_spec (env : Env) (s : Storage) (url : MtpUrl) (data : Bytes) :
    ((putFile env s url data).1.success = true ↔
      HasParent s url.convertPath ∧ env.copyFinished = 0) ∧
    ((putFile env s url data).1.success = false → (putFile env s url data).2 = s) := by
  unfold putFile
  by_cases hparent : HasParent s url.convertPath
  · rw [if_neg (not_not.mpr (sendFile_eq_zero.mpr hparent))]
    by_cases hzero : env.copyFinished = 0
    · simp [hparent, hzero]
    · by_cases htwo : env.copyFinished = 2
      · simp [hparent, htwo, transfer_failed]
      · simp [hparent, hzero, htwo, transfer_failed]
  · rw [if_pos (mt sendFile_eq_zero.mp hparent)]
    simp [hparent]

lemma put_reaches {url : MtpUrl} (h : PutReaches env url) (Overwrite : Bool) (s : Storage)
    (up : Upload) : put env Overwrite s url up = match deleteExisting env Overwrite s url with
      | .error res => (res, s)
      | .ok t => putFile env t url (up.chunks.flatten ++ up.buffer) := by
  have hitems : ¬ url.items.length < 2 := Nat.not_lt.mpr h.items
  simp only [put, h.valid, hitems, h.tempOpen, h.storage, ne_eq, not_true_eq_false, if_false,
    Bool.not_true, Bool.or_self, Bool.false_eq_true]

lemma put_not_reaches {url : MtpUrl} (h : ¬ PutReaches env url) (Overwrite : Bool) (s : Storage)
    (up : Upload) : ∃ error text, put env Overwrite s url up = (.fail error text, s) := by
  unfold put
  split_ifs with hv hi ht
  · exact ⟨_, _, rfl⟩
  · exact ⟨_, _, rfl⟩
  · exact ⟨_, _, rfl⟩
  · simp only [Bool.or_eq_true, Bool.not_eq_true', not_or, Bool.not_eq_false] at ht
    exact absurd ⟨not_not.mp hv, Nat.not_lt.mp hi, ht.1, ht.2⟩ h

lemma put_pass_iff {url : MtpUrl} {up : Upload} (h : PutReaches env url) :
    (put env Overwrite s url up).1 = .pass ↔
      (getFileMetadata s url.convertPath ≠ none → Deletes env Overwrite s url) ∧
        HasParent s url.convertPath ∧ env.copyFinished = 0 := by
  rw [put_reaches h, ← success_iff]
  rcases deleteExisting_cases env Overwrite s url with ⟨hfree, heq⟩ | ⟨hdel, heq⟩ |
    ⟨hex, hnot, error, text, heq⟩
  · simp only [heq, (putFile_spec env s url _).1, hfree, ne_eq, not_true_eq_false, false_imp_iff,
      true_and]
  · simp only [heq, (putFile_spec env _ url _).1, hasParent_remove, hdel, imp_true_iff, true_and]
  · simp only [heq, WorkerResult.success_fail, Bool.false_eq_true, false_iff, not_and]
    exact fun hall => absurd (hall hex) hnot

lemma putKeeps_iff (env : Env) (Overwrite : Bool) (s : Storage) (url : MtpUrl) (up : Upload) :
    PutRight env Overwrite s url up ↔ (PutReaches env url → PutSafe env Overwrite s url up) := by
  by_cases hreach : PutReaches env url
  · have hkeeps := keeps_iff_of_deleteExisting (put_reaches hreach Overwrite s up)
      (P := HasParent s url.convertPath ∧ env.copyFinished = 0) fun _ => by
        rw [← hasParent_remove]
        exact putFile_spec env _ url _
    simp only [hreach, forall_const]
    constructor
    · rintro ⟨hk, hended⟩
      refine ⟨hkeeps.mp hk, fun hdel hparent hzero => hended ?_⟩
      exact (put_pass_iff hreach).mpr ⟨hdel, hparent, hzero⟩
    · rintro ⟨hrep, hended⟩
      refine ⟨hkeeps.mpr hrep, fun hpass => ?_⟩
      obtain ⟨hdel, hparent, hzero⟩ := (put_pass_iff hreach).mp hpass
      exact hended hdel hparent hzero
  · obtain ⟨error, text, hput⟩ := put_not_reaches hreach Overwrite s up
    refine ⟨fun _ h => absurd h hreach, fun _ => ⟨keeps_of_eq (by rw [hput]), fun hpass => ?_⟩⟩
    simp [hput] at hpass

lemma copyFile_spec (env : Env) (s : Storage) (src dest : MtpUrl) (data : Bytes) :
    ((copyFile env s src dest data).1.success = true ↔
      env.srcOpen = true ∧ HasParent s dest.convertPath ∧ env.copyFinished = 0) ∧
    ((copyFile env s src dest data).1.success = false → (copyFile env s src dest data).2 = s) := by
  unfold copyFile
  cases hopen : env.srcOpen with
  | false => simp
  | true =>
    by_cases hparent : HasParent s dest.convertPath
    · rw [if_neg (by simp), if_neg (not_not.mpr (sendFile_eq_zero.mpr hparent))]
      by_cases hzero : env.copyFinished = 0
      · simp [hparent, hzero]
      · simp [hparent, hzero, transfer_failed]
    · rw [if_neg (by simp), if_pos (mt sendFile_eq_zero.mp hparent)]
      simp [hparent]

lemma copyKeeps_iff (env : Env) (Overwrite : Bool) (s : Storage) (src dest : MtpUrl)
    (data : Bytes) :
    KeepsOnFailure s dest.convertPath (copy env Overwrite s src dest data) ↔
      (CopyReaches env dest → CopySafe env Overwrite s dest) := by
  by_cases hreach : CopyReaches env dest
  · have hitems : ¬ dest.items.length < 2 := Nat.not_lt.mpr hreach.items
    have hcopy : copy env Overwrite s src dest data =
        match deleteExisting env Overwrite s dest with
        | .error res => (res, s)
        | .ok t => copyFile env t src dest data := by
      simp only [copy, hreach.valid, hitems, hreach.storage, if_false, Bool.not_true,
        Bool.false_eq_true]
    have hkeeps := keeps_iff_of_deleteExisting hcopy
      (P := env.srcOpen = true ∧ HasParent s dest.convertPath ∧ env.copyFinished = 0) fun _ => by
        rw [← hasParent_remove]
        exact copyFile_spec env _ src dest _
    simp only [hreach, forall_const]
    exact hkeeps.trans ⟨fun h => ⟨h⟩, fun h => h.replaces⟩
  · refine ⟨fun _ h => absurd h hreach, fun _ => keeps_of_eq ?_⟩
    unfold copy
    cases hv : env.checkUrl dest with
    | Valid =>
      simp only
      split_ifs with hi hs
      · rfl
      · rfl
      · exact absurd ⟨hv, Nat.not_lt.mp hi, by simpa using hs⟩ hreach
    | Redirected => rfl
    | NotFound => rfl
    | Invalid => rfl

lemma renameFile_spec (env : Env) (s : Storage) (src dest : MtpUrl) :
    ((renameFile env s src dest).1.success = true ↔
      src.convertPath ≠ [] ∧ s src.convertPath ≠ none ∧ env.metadata = true ∧ env.setName = 0) ∧
    ((renameFile env s src dest).1.success = false → (renameFile env s src dest).2 = s) := by
  unfold renameFile setFileName getFileMetadata
  by_cases hp : src.convertPath = []
  · simp [hp]
  · cases ho : s src.convertPath with
    | none => simp [hp]
    | some o =>
      cases hm : env.metadata with
      | false => simp [hp]
      | true =>
        by_cases hn : env.setName = 0
        · simp [hp, hn]
        · simp [hp, hn]

lemma convertPath_prefix_iff {src dest : MtpUrl} (hlen : 2 < src.items.length)
    (hdir : src.items.dropLast = dest.items.dropLast) :
    dest.convertPath <+: src.convertPath ↔ src.items = dest.items := by
  have hlens : src.items.length = dest.items.length := by
    have h := congrArg List.length hdir
    rw [List.length_dropLast, List.length_dropLast] at h
    omega
  constructor
  · intro hpre
    have hdrop : dest.items.drop 2 = src.items.drop 2 :=
      hpre.eq_of_length (by simp [MtpUrl.convertPath, hlens])
    have htake : src.items.take 2 = dest.items.take 2 := by
      have h := congrArg (List.take 2) hdir
      rwa [List.dropLast_eq_take, List.dropLast_eq_take, List.take_take, List.take_take,
        Nat.min_eq_left (by omega), Nat.min_eq_left (by omega)] at h
    rw [← List.take_append_drop 2 src.items, htake, ← hdrop, List.take_append_drop]
  · intro h
    have hpath : dest.convertPath = src.convertPath := by simp only [MtpUrl.convertPath, h]
    exact hpath ▸ List.prefix_rfl

lemma rename_reaches {src dest : MtpUrl} (h : RenameReaches env src dest) (Overwrite : Bool)
    (s : Storage) : rename env Overwrite s src dest =
      match deleteExisting env Overwrite s dest with
      | .error res => (res, s)
      | .ok t => renameFile env t src dest := by
  have hone : ¬ src.items.length = 1 := by have := h.items; omega
  have htwo : ¬ src.items.length = 2 := by have := h.items; omega
  have hdevice : env.deviceFromName (src.items.getD 0 "") = true := by
    have hs := h.storage
    rw [Env.storage, Bool.and_eq_true] at hs
    exact hs.1
  simp only [rename, h.valid, h.scheme, hone, htwo, h.dir, hdevice, h.storage, ne_eq,
    not_true_eq_false, if_false, Bool.not_true, Bool.false_eq_true]

lemma renameKeeps_iff (env : Env) (Overwrite : Bool) (s : Storage) (src dest : MtpUrl) :
    KeepsOnFailure s dest.convertPath (rename env Overwrite s src dest) ↔
      (RenameReaches env src dest → RenameSafe env Overwrite s src dest) := by
  by_cases hreach : RenameReaches env src dest
  · have hne : src.convertPath ≠ [] := by
      intro hnil
      have hlen := congrArg List.length hnil
      have hitems := hreach.items
      simp only [MtpUrl.convertPath, List.length_drop, List.length_nil] at hlen
      omega
    have hkeeps := keeps_iff_of_deleteExisting (rename_reaches hreach Overwrite s)
      (P := src.items ≠ dest.items ∧ s src.convertPath ≠ none ∧ env.metadata = true ∧
        env.setName = 0) fun _ => by
        obtain ⟨hpass, hsame⟩ := renameFile_spec env (remove s dest.convertPath) src dest
        refine ⟨hpass.trans ?_, hsame⟩
        have hsrc : remove s dest.convertPath src.convertPath ≠ none ↔
            src.items ≠ dest.items ∧ s src.convertPath ≠ none := by
          unfold remove
          rw [Ne, Ne, ← convertPath_prefix_iff hreach.items hreach.dir]
          by_cases hpre : dest.convertPath <+: src.convertPath <;> simp [hpre]
        rw [hsrc, and_assoc]
        exact and_iff_right hne
    simp only [hreach, forall_const]
    exact hkeeps.trans ⟨fun h => ⟨h⟩, fun h => h.replaces⟩
  · refine ⟨fun _ h => absurd h hreach, fun _ => ?_⟩
    unfold rename
    split_ifs with hv hs hd hone hfriendly htwo hdir hstorage
    all_goals try exact keeps_of_eq rfl
    -- everything is there, so the source is above the storage, and with it the destination
    have hshort : dest.items.length ≤ 2 := by
      by_contra hlong
      have hlen := congrArg List.length (not_not.mp hdir)
      rw [List.length_dropLast, List.length_dropLast] at hlen
      exact hreach ⟨not_not.mp hv, not_not.mp hs, by omega, not_not.mp hdir,
        by simpa using hstorage⟩
    exact keeps_of_free
      (by simp [getFileMetadata, MtpUrl.convertPath, List.drop_eq_nil_of_le hshort])

/-- **What an operation on a device replaces** is kept by its failures just when nothing that
comes after the deletion fails; and `put` takes a stream for complete just when it ended. -/
theorem replacing_iff (env : Env) (Overwrite : Bool) (s : Storage) :
    (∀ url up, PutRight env Overwrite s url up ↔
      (PutReaches env url → PutSafe env Overwrite s url up)) ∧
    (∀ src dest data, KeepsOnFailure s dest.convertPath (copy env Overwrite s src dest data) ↔
      (CopyReaches env dest → CopySafe env Overwrite s dest)) ∧
    (∀ src dest, KeepsOnFailure s dest.convertPath (rename env Overwrite s src dest) ↔
      (RenameReaches env src dest → RenameSafe env Overwrite s src dest)) :=
  ⟨putKeeps_iff env Overwrite s, copyKeeps_iff env Overwrite s, renameKeeps_iff env Overwrite s⟩

/-- Everything that is asked for is there and goes well. -/
def working : Env where
  checkUrl _ := .Valid
  deviceFromName _ := true
  storageFromDescription _ _ := true
  setFriendlyName := true
  tempOpen := true
  srcOpen := true
  deletes := true
  metadata := true
  copyFinished := 0
  setName := 0

def oneFile : Storage := fun path => if path = ["a"] then some (.file [97]) else none

def fileUrl : MtpUrl := ⟨"mtp", ["phone", "sd", "a"]⟩

/-- A rename to the own name with `Overwrite` fails and deletes the file; a local file that cannot
be opened costs the file in its place; and a stream with an error is uploaded with success. -/
theorem replaced_file_is_lost :
    ¬ KeepsOnFailure oneFile fileUrl.convertPath (rename working true oneFile fileUrl fileUrl) ∧
      ¬ KeepsOnFailure oneFile fileUrl.convertPath
        (copy { working with srcOpen := false } true oneFile ⟨"file", ["b"]⟩ fileUrl [98]) ∧
      (put working true oneFile fileUrl ⟨[[98]], -1, by decide, []⟩).1 = .pass := by
  have hgone : ∀ out : WorkerResult × Storage, out.1.success = false → out.2 ["a"] = none →
      ¬ KeepsOnFailure oneFile fileUrl.convertPath out := by
    intro out hfail hnone hkeeps
    have hkept := hkeeps hfail (by decide) ["a"] (by decide)
    rw [hnone] at hkept
    revert hkept
    decide
  refine ⟨hgone _ (by decide) (by decide),
    hgone _ (by decide) (by decide), by decide⟩

end KioExtras.Mtp
