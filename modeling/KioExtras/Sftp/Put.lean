import KioExtras.Sftp.Get
import KioExtras.Sftp.Write

/-!
To the server: `sftpPut`, from the application or from an open local file, and `sftpCopyPut`.

What the calls return that may fail, the answers of the application, the reads of the source and
the kill flag at each of its polls are fields of an environment; a flag that stands for a call is
true when the call succeeds wherever the state lets it.
-/

namespace KioExtras.Sftp.Put

open KioExtras.Kio KioExtras.Lib.FileStore
open KioExtras.Lib.FileStore.Store (ofFiles)

/-- Where the data comes from: `fd == -1` and what `readData` returns (`none` for a negative
result; the data ends after the answers listed), or an open file with its content. -/
inductive Source
  | app (answers : List (Option (List UInt8)))
  | fd (content : List UInt8)

def Source.isFd : Source → Bool
  | .app _ => false
  | .fd _ => true

inductive Signal
  | canResume (size : ℕ)
  | totalSize (size : ℕ)
  | processedSize (size : ℕ)
  | warning (text : String)
  deriving DecidableEq

/-- `read k` bounds how many bytes beyond the first one the `k`-th read of the source returns
(`none` when it fails); `fresh` gives the attributes of a file created with some mode, `modified`
the date in the metadata. -/
structure Env where
  login : WorkerResult
  MarkPartial : Bool
  lstatOrig : Bool
  lstatPart : Bool
  canResume : ℕ → Bool
  lseek : Bool
  unlinkPart : Bool
  openFile : Option SshFx
  fresh : ℕ → Attrs
  fstat : Bool
  read : ℕ → Option ℕ
  server : WriteServer
  wasKilled : ℕ → Bool
  statOnError : Bool
  unlinkOnError : Bool
  close : Bool
  unlinkOrig : Bool
  rename : Bool
  chmod : Bool
  chown : Bool
  modified : Option ℤ
  lstatModified : Bool
  utimes : Bool
  DEFAULT_MINIMUM_KEEP_SIZE : ℕ

/-- The remote store, the worker's flag and the signals that are left, with the result;
`renamed` says that the `.part` file was moved to the final name. -/
structure Left where
  result : WorkerResult
  remote : Store String
  renamed : Bool
  mCanSetPermissions : Bool
  signals : List Signal

/-- The generator over `readData`: a negative result makes a response without an error. -/
def appReader : List (Option (List UInt8)) → List ReadResponse
  | [] => []
  | none :: _ => [⟨[], none⟩]
  | some [] :: _ => []
  | some (b :: data) :: answers => ⟨b :: data, none⟩ :: appReader answers

/-- The generator over `read`, from the `k`-th call on, with `rest` left of the file. Every read
but the last returns a byte at least, so one call more than there are bytes is enough. -/
def fdReader (read : ℕ → Option ℕ) : ℕ → ℕ → List UInt8 → List ReadResponse
  | 0, _, _ => []
  | fuel + 1, k, rest =>
    match read k with
    | none => [⟨[], some .ERR_CANNOT_READ⟩]
    | some n =>
      match rest with
      | [] => []
      | _ =>
        let result := min (n + 1) MAX_XFER_BUF_SIZE
        ⟨rest.take result, none⟩ :: fdReader read fuel (k + 1) (rest.drop result)

variable (env : Env)

/-- The responses of the generator when the file stands at `position`. -/
def reader (source : Source) (position : ℕ) : List ReadResponse :=
  match source with
  | .app answers => appReader answers
  | .fd content =>
    let rest := content.drop position
    fdReader env.read (rest.length + 1) 0 rest

def destName (url : Url) : String :=
  if env.MarkPartial then partName url.path else url.path

def lstat (ok : Bool) (remote : Store String) (name : String) : Option (Node String) :=
  if ok then remote.lstat name else none

/-- `sftp_unlink` whose failure is ignored. -/
def unlink (ok : Bool) (remote : Store String) (name : String) : Store String :=
  if ok then (remote.unlink name).getD remote else remote

/-- May the partial file be used for resuming? The flags, the position of the source file and
the question that was asked. -/
def negotiate (url : Url) (source : Source) (sbPart : Option (Node String)) (flags : JobFlags) :
    Except WorkerResult (JobFlags × ℕ × List Signal) :=
  match sbPart with
  | none => .ok (flags, 0, [])
  | some sbPart =>
    if !flags.Resume && !flags.Overwrite && decide (0 < sbPart.kind.size) && sbPart.kind.isFile then
      match source with
      | .app _ => .ok ({ flags with Resume := env.canResume sbPart.kind.size }, 0,
          [.canResume sbPart.kind.size])
      | .fd _ =>
        if env.lseek then .ok ({ flags with Resume := true }, sbPart.kind.size, [])
        else .error (.fail .ERR_CANNOT_SEEK url.text)
    else .ok (flags, 0, [])

variable (remote : Store String)

def openDest (dest : String) (Resume : Bool) (initialMode : ℕ) :
    Option (Handle String × ℕ × Store String) :=
  if env.openFile.isSome then none
  else if Resume then
    (remote.openExisting dest).map fun q =>
      let size := if env.fstat then ((remote.kindAt q).map Kind.size).getD 0 else 0
      (⟨q, size⟩, size, remote)
  else
    (remote.openTruncate dest (env.fresh initialMode)).map fun (q, remote) => (⟨q, 0⟩, 0, remote)

/-- After an error or a kill: the file is closed, and a very small `.part` file is removed. -/
def closeOnError (dest : String) : Store String :=
  match if env.statOnError then remote.stat dest else none with
  | some attr =>
    if env.MarkPartial && decide (attr.kind.size < env.DEFAULT_MINIMUM_KEEP_SIZE) then
      unlink env.unlinkOnError remote dest
    else remote
  | none => remote

/-- How the loop over the responses ends: by itself, at a kill or at an error. -/
inductive LoopEnd
  | completed
  | killed
  | failed
  deriving DecidableEq

/-- The loop over the responses, from the `k`-th on. -/
def putLoop (env : Env) :
    ℕ → ℕ → Store String → List (WriteResponse × Store String) → LoopEnd × Store String × List Signal
  | _, _, remote, [] => (.completed, remote, [])
  | k, totalBytesSent, _, (response, remote) :: rest =>
    if env.wasKilled k then (.killed, remote, [])
    else if response.error.isSome then (.failed, remote, [])
    else
      let total := totalBytesSent + response.bytes
      let (ended, remote, signals) := putLoop env (k + 1) total remote rest
      (ended, remote, .processedSize total :: signals)

def setModified (dest_orig : String) : Store String :=
  match env.modified, lstat env.lstatModified remote dest_orig with
  | some mtime, some attr =>
    if env.utimes then (remote.utimes dest_orig attr.attrs.atime mtime).getD remote else remote
  | _, _ => remote

def setOwner (dest_orig : String) (sb : Option (Node String)) :
    Store String :=
  match sb with
  | some sb =>
    if env.chown then (remote.chown dest_orig sb.attrs.uid sb.attrs.gid).getD remote else remote
  | none => remote

/-- Final permissions, owner and group, modification time. The flag says whether the server still
takes permissions. -/
def setAttributes (url : Url) (sb : Option (Node String)) (permissions : Option ℕ)
    (Resume mCanSetPermissions : Bool) :
    Store String × Bool × List Signal :=
  let setRest (remote : Store String) : Store String :=
    setModified env (setOwner env remote url.path sb) url.path
  match permissions with
  | some perms =>
    if !Resume && mCanSetPermissions then
      match if env.chmod then remote.chmod url.path perms else none with
      | none => (remote, false, [.warning ("Could not change permissions for\n" ++ url.text)])
      | some remote => (setRest remote, mCanSetPermissions, [])
    else (setRest remote, mCanSetPermissions, [])
  | none => (setRest remote, mCanSetPermissions, [])

/-- Rename the `.part` file to the final name; false when that fails. -/
def install (url : Url) (Overwrite : Bool) : Store String × Bool :=
  -- a link is removed first, so that what it leads to is not overwritten
  let remote := if Overwrite then unlink env.unlinkOrig remote url.path else remote
  match if env.rename then remote.rename (partName url.path) url.path else none with
  | none => (remote, false)
  | some remote => (remote, true)

/-- After the transfer: close, rename the `.part` file, set the attributes. -/
def conclude (url : Url) (sb : Option (Node String)) (permissions : Option ℕ) (flags : JobFlags)
    (mCanSetPermissions : Bool) (signals : List Signal) :
    Left :=
  if !env.close then ⟨.fail .ERR_CANNOT_WRITE url.text, remote, false, mCanSetPermissions, signals⟩
  else
    let (remote, renamed) :=
      if env.MarkPartial then install env remote url flags.Overwrite else (remote, false)
    if env.MarkPartial && !renamed then
      ⟨.fail .ERR_CANNOT_RENAME_PARTIAL url.text, remote, false, mCanSetPermissions, signals⟩
    else
      let (remote, can, warnings) :=
        setAttributes env remote url sb permissions flags.Resume mCanSetPermissions
      ⟨.pass, remote, renamed, can, signals ++ warnings⟩

def transfer (url : Url) (sb : Option (Node String)) (permissions : Option ℕ) (flags : JobFlags)
    (mCanSetPermissions : Bool) (responses : List ReadResponse) (destFile : Handle String)
    (totalBytesSent : ℕ) (signals : List Signal) : Left :=
  let dest := destName env url
  match putLoop env 0 totalBytesSent remote (asyncWrite env.server remote destFile responses) with
  | (.killed, remote, processed) =>
    ⟨.pass, closeOnError env remote dest, false, mCanSetPermissions, signals ++ processed⟩
  | (.failed, remote, processed) =>
    ⟨.fail .ERR_CANNOT_WRITE url.text, closeOnError env remote dest, false, mCanSetPermissions,
      signals ++ processed⟩
  | (.completed, remote, processed) =>
    conclude env remote url sb permissions flags mCanSetPermissions (signals ++ processed)

/-- From the opening of the destination on; `flags` are those after the negotiation. -/
def putOpened (url : Url) (sb sbPart : Option (Node String)) (permissions : Option ℕ)
    (flags : JobFlags) (mCanSetPermissions : Bool) (source : Source) (position : ℕ)
    (signals : List Signal) : Left :=
  let dest := destName env url
  let remote :=
    if env.MarkPartial && sbPart.isSome && !flags.Resume then unlink env.unlinkPart remote dest
    else remote
  -- give all permissions, the server takes the unwanted ones away
  let initialMode := (permissions.map fun perms => perms ||| owner_write ||| owner_read).getD
    DEFAULT_FILE_PERMISSIONS
  match openDest env remote dest flags.Resume initialMode with
  | none =>
    let error := if env.openFile = some .PERMISSION_DENIED then .ERR_WRITE_ACCESS_DENIED
      else .ERR_CANNOT_OPEN_FOR_WRITING
    ⟨.fail error url.text, remote, false, mCanSetPermissions, signals⟩
  | some (destFile, totalBytesSent, remote) =>
    transfer env remote url sb permissions flags mCanSetPermissions (reader env source position)
      destFile totalBytesSent signals

def sftpPut (url : Url) (permissionsMode : ℤ) (flags : JobFlags) (source : Source)
    (mCanSetPermissions : Bool) : Left :=
  match env.login with
  | .fail error text => ⟨.fail error text, remote, false, mCanSetPermissions, []⟩
  | .pass =>
    let sb := lstat env.lstatOrig remote url.path
    -- the permissions of the original file are not changed
    let permissions := modeToOptionalPerms ((sb.map fun sb => (sb.attrs.perms : ℤ)).getD
      permissionsMode)
    let sbPart := if env.MarkPartial then lstat env.lstatPart remote (partName url.path) else none
    match negotiate env url source sbPart flags with
    | .error result => ⟨result, remote, false, mCanSetPermissions, []⟩
    | .ok (flags, position, signals) =>
      match sb with
      | some orig =>
        if !flags.Overwrite && !flags.Resume then
          let error := if orig.kind.isDir then .ERR_DIR_ALREADY_EXIST else .ERR_FILE_ALREADY_EXIST
          ⟨.fail error url.text, remote, false, mCanSetPermissions, signals⟩
        else putOpened env remote url sb sbPart permissions flags mCanSetPermissions source position
          signals
      | none => putOpened env remote url sb sbPart permissions flags mCanSetPermissions source
          position signals

/-- `openSource` is false when the local file cannot be opened. -/
def sftpCopyPut (disk remote : Store String) (url : Url) (sCopyFile : String) (permissions : ℤ)
    (flags : JobFlags) (mCanSetPermissions openSource : Bool) : Left :=
  match disk.stat sCopyFile with
  | none => ⟨.fail .ERR_DOES_NOT_EXIST sCopyFile, remote, false, mCanSetPermissions, []⟩
  | some copyFile =>
    if copyFile.kind.isDir then
      ⟨.fail .ERR_IS_DIRECTORY sCopyFile, remote, false, mCanSetPermissions, []⟩
    else if !openSource then
      ⟨.fail .ERR_CANNOT_OPEN_FOR_READING sCopyFile, remote, false, mCanSetPermissions, []⟩
    else
      let left := sftpPut env remote url permissions flags (.fd (copyFile.kind.data.getD []))
        mCanSetPermissions
      { left with signals := .totalSize copyFile.kind.size :: left.signals }

/-- An environment in which nothing goes wrong and the application agrees to resume. -/
def quiet : Env where
  login := .pass
  MarkPartial := true
  lstatOrig := true
  lstatPart := true
  canResume _ := true
  lseek := true
  unlinkPart := true
  openFile := none
  fresh mode := ⟨mode, 1000, 1000, 0, 0⟩
  fstat := true
  read _ := some MAX_XFER_BUF_SIZE
  server := ⟨some 32768, fun _ => true, fun _ => some 32768⟩
  wasKilled _ := false
  statOnError := true
  unlinkOnError := true
  close := true
  unlinkOrig := true
  rename := true
  chmod := true
  chown := true
  modified := none
  lstatModified := true
  utimes := true
  DEFAULT_MINIMUM_KEEP_SIZE := 5000

/-! ### The negotiation and the guard -/

section guard

variable {env : Env} {remote : Store String} {url : Url} {permissionsMode : ℤ} {flags : JobFlags}
  {source : Source} {mCanSetPermissions : Bool}

def partSize (remote : Store String) (url : Url) : ℕ :=
  ((remote.kindAt (partName url.path)).map Kind.size).getD 0

/-- There is a `.part` file that could be resumed and the caller has not decided about it. -/
structure Candidate (env : Env) (remote : Store String) (url : Url) (flags : JobFlags) : Prop where
  MarkPartial : env.MarkPartial = true
  lstatPart : env.lstatPart = true
  Resume : flags.Resume = false
  Overwrite : flags.Overwrite = false
  part : 0 < partSize remote url

instance : Decidable (Candidate env remote url flags) :=
  decidable_of_iff (env.MarkPartial = true ∧ env.lstatPart = true ∧ flags.Resume = false ∧
      flags.Overwrite = false ∧ 0 < partSize remote url)
    ⟨fun ⟨h1, h2, h3, h4, h5⟩ => ⟨h1, h2, h3, h4, h5⟩, fun ⟨h1, h2, h3, h4, h5⟩ =>
      ⟨h1, h2, h3, h4, h5⟩⟩

/-- The negotiation makes the transfer resume behind the `.part` file. -/
def Negotiated (env : Env) (remote : Store String) (url : Url) (flags : JobFlags)
    (source : Source) : Prop :=
  Candidate env remote url flags ∧
    (source.isFd = true ∨ env.canResume (partSize remote url) = true)

def sbPart (env : Env) (remote : Store String) (url : Url) : Option (Node String) :=
  if env.MarkPartial then lstat env.lstatPart remote (partName url.path) else none

lemma partSize_pos (h : 0 < partSize remote url) :
    ∃ data, remote.kindAt (partName url.path) = some (.file data) ∧ data ≠ [] ∧
      partSize remote url = data.length := by
  unfold partSize at *
  cases hk : remote.kindAt (partName url.path) with
  | none => simp [hk] at h
  | some k =>
    cases k with
    | file data =>
      refine ⟨data, rfl, ?_, by simp [Kind.size]⟩
      rintro rfl
      simp [hk, Kind.size] at h
    | dir => simp [hk, Kind.size] at h
    | symlink t => simp [hk, Kind.size] at h
    | special => simp [hk, Kind.size] at h

lemma candidate_sbPart (h : Candidate env remote url flags) :
    ∃ attr data, sbPart env remote url = some attr ∧ attr.kind = .file data ∧ data ≠ [] ∧
      partSize remote url = data.length := by
  obtain ⟨data, hk, hne, hsize⟩ := partSize_pos h.part
  obtain ⟨a, ha⟩ := Store.kindAt_eq_some.mp hk
  refine ⟨⟨.file data, a⟩, data, ?_, rfl, hne, hsize⟩
  simp [sbPart, h.MarkPartial, lstat, h.lstatPart, Store.lstat, ha]

lemma negotiate_skip (h : ¬ Candidate env remote url flags) :
    negotiate env url source (sbPart env remote url) flags = .ok (flags, 0, []) := by
  unfold negotiate
  cases hsb : sbPart env remote url with
  | none => rfl
  | some attr =>
    by_cases hcond : (!flags.Resume && !flags.Overwrite && decide (0 < attr.kind.size) &&
        attr.kind.isFile) = true
    · exfalso
      simp only [Bool.and_eq_true, Bool.not_eq_true', decide_eq_true_eq] at hcond
      obtain ⟨⟨⟨hR, hO⟩, hsize⟩, -⟩ := hcond
      unfold sbPart lstat at hsb
      split_ifs at hsb with hm hl
      have hattr : remote (partName url.path) = some attr := hsb
      refine h ⟨hm, hl, hR, hO, ?_⟩
      simpa [partSize, Store.kindAt, hattr] using hsize
    · simp only [hcond]
      rfl

lemma negotiate_app (h : Candidate env remote url flags) (answers : List (Option (List UInt8))) :
    ∃ signals, negotiate env url (.app answers) (sbPart env remote url) flags =
      .ok ({ flags with Resume := env.canResume (partSize remote url) }, 0, signals) := by
  obtain ⟨attr, data, hsb, hk, hne, hsize⟩ := candidate_sbPart h
  refine ⟨[.canResume (partSize remote url)], ?_⟩
  simp [negotiate, hsb, hk, h.Resume, h.Overwrite, Kind.size, Kind.isFile, hsize,
    List.length_pos_iff.mpr hne]

lemma negotiate_fd (h : Candidate env remote url flags) (content : List UInt8) :
    negotiate env url (.fd content) (sbPart env remote url) flags =
      if env.lseek then .ok ({ flags with Resume := true }, partSize remote url, [])
      else .error (.fail .ERR_CANNOT_SEEK url.text) := by
  obtain ⟨attr, data, hsb, hk, hne, hsize⟩ := candidate_sbPart h
  simp [negotiate, hsb, hk, h.Resume, h.Overwrite, Kind.size, Kind.isFile, hsize,
    List.length_pos_iff.mpr hne]

/-- The two errors for a destination that is there already. -/
def AlreadyExists (result : WorkerResult) : Prop :=
  ∃ text, result = .fail .ERR_FILE_ALREADY_EXIST text ∨ result = .fail .ERR_DIR_ALREADY_EXIST text

lemma conclude_not_exists (remote : Store String) (sb : Option (Node String))
    (permissions : Option ℕ) (signals : List Signal) :
    ¬ AlreadyExists (conclude env remote url sb permissions flags mCanSetPermissions
      signals).result := by
  unfold conclude
  simp only
  split_ifs <;> simp [AlreadyExists]

lemma putOpened_not_exists (sb sbPart : Option (Node String)) (permissions : Option ℕ)
    (position : ℕ) (signals : List Signal) :
    ¬ AlreadyExists (putOpened env remote url sb sbPart permissions flags mCanSetPermissions
      source position signals).result := by
  unfold putOpened
  simp only
  split
  · split_ifs <;> simp [AlreadyExists]
  · unfold transfer
    simp only
    split
    · simp [AlreadyExists]
    · simp [AlreadyExists]
    · exact conclude_not_exists _ _ _ _

/-- The source file cannot be put where the `.part` file ends. -/
def SeekFails (env : Env) (remote : Store String) (url : Url) (flags : JobFlags)
    (source : Source) : Prop :=
  Candidate env remote url flags ∧ source.isFd = true ∧ env.lseek = false

/-- The destination is seen, and neither the caller nor the negotiation lets it be replaced. -/
def Guarded (env : Env) (remote : Store String) (url : Url) (flags : JobFlags)
    (source : Source) : Prop :=
  env.lstatOrig = true ∧ remote url.path ≠ none ∧ flags.Overwrite = false ∧
    flags.Resume = false ∧ ¬ Negotiated env remote url flags source

lemma negotiate_ok (h : ¬ SeekFails env remote url flags source) :
    ∃ Resume position signals, negotiate env url source (sbPart env remote url) flags =
        .ok ({ flags with Resume := Resume }, position, signals) ∧
      (Resume = true ↔ flags.Resume = true ∨ Negotiated env remote url flags source) ∧
      (source.isFd = true → Negotiated env remote url flags source →
        position = partSize remote url) ∧
      (¬ Negotiated env remote url flags source → position = 0) := by
  by_cases hcand : Candidate env remote url flags
  · have hR : flags.Resume = false := hcand.Resume
    cases source with
    | app answers =>
      obtain ⟨signals, hneg⟩ := negotiate_app hcand answers
      refine ⟨_, 0, signals, hneg, ?_, by simp [Source.isFd], fun _ => rfl⟩
      simp [hR, Negotiated, hcand, Source.isFd]
    | fd content =>
      have hseek : env.lseek = true := by
        by_contra hl
        exact h ⟨hcand, rfl, by simpa using hl⟩
      have hneg := negotiate_fd hcand content
      rw [hseek, if_pos rfl] at hneg
      refine ⟨true, _, [], hneg, ?_, fun _ _ => rfl, fun hn => ?_⟩
      · simp [Negotiated, hcand, Source.isFd]
      · exact absurd ⟨hcand, Or.inl rfl⟩ hn
  · have hnot : ¬ Negotiated env remote url flags source := fun hn => hcand hn.1
    exact ⟨flags.Resume, 0, [], negotiate_skip hcand, by simp [hnot], fun _ hn => absurd hn hnot,
      fun _ => rfl⟩

lemma sftpPut_seekFails (hlogin : env.login = .pass) (h : SeekFails env remote url flags source) :
    sftpPut env remote url permissionsMode flags source mCanSetPermissions =
      ⟨.fail .ERR_CANNOT_SEEK url.text, remote, false, mCanSetPermissions, []⟩ := by
  obtain ⟨hcand, hfd, hseek⟩ := h
  cases source with
  | app answers => simp [Source.isFd] at hfd
  | fd content =>
    have hneg := negotiate_fd hcand content
    rw [hseek] at hneg
    have hsb : (if env.MarkPartial = true then lstat env.lstatPart remote (partName url.path)
      else none) = sbPart env remote url := rfl
    simp only [sftpPut, hlogin, hsb, hneg]
    rfl

lemma sftpPut_guarded (hlogin : env.login = .pass) (hseek : ¬ SeekFails env remote url flags source)
    (h : Guarded env remote url flags source) (permissionsMode : ℤ) (mCanSetPermissions : Bool) :
    (sftpPut env remote url permissionsMode flags source mCanSetPermissions).remote = remote ∧
      (sftpPut env remote url permissionsMode flags source mCanSetPermissions).renamed = false ∧
      AlreadyExists
        (sftpPut env remote url permissionsMode flags source mCanSetPermissions).result := by
  obtain ⟨hl, hexists, hO, hR, hneg⟩ := h
  obtain ⟨Resume, position, signals, heq, hres, -, -⟩ := negotiate_ok hseek
  obtain ⟨orig, horig⟩ := Option.ne_none_iff_exists'.mp hexists
  have hfalse : Resume = false := by
    by_contra hc
    rcases hres.mp (by simpa using hc) with h | h
    · simp [hR] at h
    · exact hneg h
  have hsb : (if env.MarkPartial = true then lstat env.lstatPart remote (partName url.path)
    else none) = sbPart env remote url := rfl
  have hsees : lstat env.lstatOrig remote url.path = some orig := by
    simp [lstat, hl, Store.lstat, horig]
  simp only [sftpPut, hlogin, hsb, heq, hsees, hO, hfalse]
  refine ⟨rfl, rfl, ?_⟩
  cases hd : orig.kind.isDir <;> simp [AlreadyExists]

lemma sftpPut_goes (hlogin : env.login = .pass) (hseek : ¬ SeekFails env remote url flags source)
    (h : ¬ Guarded env remote url flags source) (permissionsMode : ℤ) (mCanSetPermissions : Bool) :
    ∃ Resume position permissions signals,
      sftpPut env remote url permissionsMode flags source mCanSetPermissions =
        putOpened env remote url (lstat env.lstatOrig remote url.path) (sbPart env remote url)
          permissions { flags with Resume := Resume } mCanSetPermissions source position signals ∧
      (Resume = true ↔ flags.Resume = true ∨ Negotiated env remote url flags source) ∧
      (source.isFd = true → Negotiated env remote url flags source →
        position = partSize remote url) ∧
      (¬ Negotiated env remote url flags source → position = 0) := by
  obtain ⟨Resume, position, signals, heq, hres, hpos, hzero⟩ := negotiate_ok hseek
  have hsb : (if env.MarkPartial = true then lstat env.lstatPart remote (partName url.path)
    else none) = sbPart env remote url := rfl
  refine ⟨Resume, position, modeToOptionalPerms (((lstat env.lstatOrig remote url.path).map
    fun sb => (sb.attrs.perms : ℤ)).getD permissionsMode), signals, ?_, hres, hpos, hzero⟩
  simp only [sftpPut, hlogin, hsb, heq]
  split
  · rename_i orig hsees
    have hgo : (!flags.Overwrite && !Resume) = false := by
      by_contra hc
      simp only [Bool.not_eq_false, Bool.and_eq_true, Bool.not_eq_true'] at hc
      have hnone : ¬ (flags.Resume = true ∨ Negotiated env remote url flags source) := by
        rw [← hres, hc.2]
        simp
      simp only [not_or, Bool.not_eq_true] at hnone
      unfold lstat at hsees
      split_ifs at hsees with hl
      have hexists : remote url.path = some orig := hsees
      exact h ⟨hl, by simp [hexists], hc.1, hnone.1, hnone.2⟩
    simp only [hgo, hsees]
    rfl
  · rename_i hsees
    rw [hsees]

/-- The existing entry is left as it is and the call says that it exists. -/
def Refuses (remote : Store String) (url : Url) (left : Left) : Prop :=
  left.remote url.path = remote url.path ∧ AlreadyExists left.result

/-- **An existing destination is refused** exactly when it is seen and the negotiation about the
`.part` file has not set the flag that the guard looks at. -/
theorem put_refuses_iff (env : Env) (remote : Store String) (url : Url) (permissionsMode : ℤ)
    (flags : JobFlags) (source : Source) (mCanSetPermissions : Bool)
    (hexists : remote url.path ≠ none) (hO : flags.Overwrite = false) (hR : flags.Resume = false) :
    Refuses remote url
        (sftpPut env remote url permissionsMode flags source mCanSetPermissions) ↔
      AlreadyExists env.login ∨ (env.login = .pass ∧ env.lstatOrig = true ∧
        ¬ Negotiated env remote url flags source) := by
  cases hlogin : env.login with
  | fail error text => simp [sftpPut, hlogin, Refuses]
  | pass =>
    have hnot : ¬ AlreadyExists .pass := by simp [AlreadyExists]
    simp only [hnot, false_or, true_and]
    by_cases hseek : SeekFails env remote url flags source
    · rw [sftpPut_seekFails hlogin hseek]
      refine iff_of_false (by simp [Refuses, AlreadyExists]) fun h => ?_
      exact h.2 ⟨hseek.1, Or.inl hseek.2.1⟩
    by_cases hguard : Guarded env remote url flags source
    · obtain ⟨h1, -, h3⟩ := sftpPut_guarded hlogin hseek hguard permissionsMode mCanSetPermissions
      exact iff_of_true ⟨by rw [h1], h3⟩ ⟨hguard.1, hguard.2.2.2.2⟩
    · obtain ⟨Resume, position, permissions, signals, heq, -, -, -⟩ :=
        sftpPut_goes hlogin hseek hguard permissionsMode mCanSetPermissions
      rw [heq]
      refine iff_of_false (fun h => putOpened_not_exists _ _ _ _ _ h.2) fun h => ?_
      exact hguard ⟨h.1, hexists, hO, hR, h.2⟩

set_option maxRecDepth 4000 in
/-- A put that finds the destination and no `.part` file is refused. -/
theorem put_refuses_plain :
    Refuses (ofFiles [("/f", [9])]) ⟨"/f", "sftp://h/f"⟩
      (sftpPut quiet (ofFiles [("/f", [9])]) ⟨"/f", "sftp://h/f"⟩ (-1) DefaultFlags
        (.app [some [1], some []]) true) := by
  refine (put_refuses_iff quiet (ofFiles [("/f", [9])]) ⟨"/f", "sftp://h/f"⟩ (-1) DefaultFlags
    (.app [some [1], some []]) true (by decide) rfl rfl).mpr (Or.inr ⟨rfl, rfl, fun h => ?_⟩)
  exact absurd h.1 (by decide)

set_option maxRecDepth 4000 in
/-- An application that agrees to resume a `.part` file has the destination replaced. -/
theorem put_replaces_behind_part :
    DefaultFlags.Overwrite = false ∧ DefaultFlags.Resume = false ∧
      (ofFiles [("/f", [9]), ("/f.part", [1])]) "/f" ≠ none ∧
      ¬ Refuses (ofFiles [("/f", [9]), ("/f.part", [1])]) ⟨"/f", "sftp://h/f"⟩
        (sftpPut quiet (ofFiles [("/f", [9]), ("/f.part", [1])]) ⟨"/f", "sftp://h/f"⟩ (-1)
          DefaultFlags (.app [some [2], some []]) true) := by
  refine ⟨rfl, rfl, by decide, fun h => ?_⟩
  have hkept := h.1
  revert hkept
  decide

end guard

/-! ### Opening and installing -/

section opening

variable {env : Env} {remote : Store String} {url : Url} {flags : JobFlags} {source : Source}

lemma unlink_ne {ok : Bool} {p q : String} (hq : q ≠ p) : unlink ok remote p q = remote q := by
  unfold unlink
  split_ifs
  · cases h : remote.unlink p with
    | none => rfl
    | some t => exact Store.unlink_ne h hq
  · rfl

lemma unlink_isDir (ok : Bool) (p q : String) :
    (unlink ok remote p).kindAt q = some .dir ↔ remote.kindAt q = some .dir := by
  by_cases hq : q = p
  · subst hq
    unfold unlink Store.unlink
    split_ifs
    · rcases hp : remote q with _ | ⟨_ | _ | _ | _, a⟩ <;>
        simp [Store.kindAt, hp, Kind.isDir]
    · exact Iff.rfl
  · rw [Store.kindAt_of_eq (unlink_ne hq)]

/-- The store in which the destination is opened when the transfer does not resume. -/
def unlinkedPart (env : Env) (remote : Store String) (url : Url) : Store String :=
  if env.MarkPartial && (sbPart env remote url).isSome then
    unlink env.unlinkPart remote (destName env url)
  else remote

variable {Resume : Bool} {dest : String}

lemma openDest_eq_none {initialMode : ℕ} :
    openDest env remote dest Resume initialMode = none ↔
      ¬ (env.openFile = none ∧
        (Resume = true → remote.openExisting dest ≠ none) ∧
        (Resume = false → remote.Openable dest)) := by
  unfold openDest
  cases ho : env.openFile with
  | some error => simp
  | none =>
    cases Resume with
    | true => simp
    | false =>
      have h : remote.openTruncate dest (env.fresh initialMode) = none ↔ ¬ remote.Openable dest :=
        Store.openTruncate_eq_none
      simpa using h

lemma openDest_some {initialMode n : ℕ} {fd : Handle String} {t : Store String}
    (h : openDest env remote dest Resume initialMode = some (fd, n, t)) :
    (∃ k, t.kindAt dest = some k ∧ k.isDir = false) ∧
      ∀ p, t.kindAt p = some .dir ↔ remote.kindAt p = some .dir := by
  have ho : env.openFile.isSome = false := by
    by_contra hc
    simp [openDest, hc] at h
  cases Resume with
  | true =>
    simp only [openDest, ho, Bool.false_eq_true, if_false, if_true, Option.map_eq_some_iff,
      Prod.mk.injEq] at h
    obtain ⟨q, hq, -, -, rfl⟩ := h
    obtain ⟨htarget, hk⟩ := Store.openExisting_eq_some.mp hq
    exact ⟨Store.entry_of_target htarget hk, fun p => Iff.rfl⟩
  | false =>
    simp only [openDest, ho, Bool.false_eq_true, if_false] at h
    obtain ⟨⟨q, t'⟩, hq, h⟩ := Option.map_eq_some_iff.mp h
    simp only [Prod.mk.injEq] at h
    obtain ⟨-, -, rfl⟩ := h
    obtain ⟨htarget, hdir, ⟨k, hk, hkd⟩, hframe⟩ := Store.openTruncate_some hq
    refine ⟨?_, fun p => ?_⟩
    · by_cases hd : dest = q
      · exact ⟨k, hd ▸ hk, hkd⟩
      · obtain ⟨k', hk', hkd'⟩ := Store.link_of_target_ne htarget hd
        exact ⟨k', (Store.kindAt_of_eq (hframe dest hd)).trans hk', hkd'⟩
    · by_cases hp : p = q
      · subst hp
        refine iff_of_false (fun h => ?_) hdir
        rw [hk, Option.some.injEq] at h
        simp [h, Kind.isDir] at hkd
      · rw [Store.kindAt_of_eq (hframe p hp)]

/-- The rename to the final name succeeds. -/
def Installs (env : Env) (remote : Store String) (url : Url) : Prop :=
  env.rename = true ∧ remote.kindAt url.path ≠ some .dir

lemma install_spec (env : Env) {k : Kind String} (hpart : remote.kindAt (partName url.path) = some k)
    (hk : k.isDir = false) (Overwrite : Bool) :
    ((install env remote url Overwrite).2 = true ↔ Installs env remote url) ∧
      ((install env remote url Overwrite).2 = true →
        (install env remote url Overwrite).1.kindAt url.path = some k) := by
  have hne := partName_ne url.path
  have hpart' : (if Overwrite then unlink env.unlinkOrig remote url.path else remote).kindAt
      (partName url.path) = some k := by
    split_ifs
    · rw [Store.kindAt_of_eq (unlink_ne hne), hpart]
    · exact hpart
  have hdir : (if Overwrite then unlink env.unlinkOrig remote url.path else remote).kindAt
      url.path = some .dir ↔ remote.kindAt url.path = some .dir := by
    split_ifs
    · exact unlink_isDir _ _ _
    · exact Iff.rfl
  unfold install Installs
  cases hr : env.rename with
  | false => simp
  | true =>
    rcases Store.rename_spec hne hpart' hk with ⟨hd, hnone⟩ | ⟨hd, t, ht, htk⟩
    · simp [hnone, hdir.mp hd]
    · simp only [if_true, ht, htk, true_and, implies_true, and_true, true_iff]
      exact fun h => hd (hdir.mpr h)

end opening

/-! ### Errors of the source and of the server -/

section errors

open Lib.Poll Write

variable {env : Env} {remote : Store String} {url : Url} {flags : JobFlags} {source : Source}
  {permissionsMode : ℤ} {mCanSetPermissions : Bool}

/-- There is an `i`-th response, unless one before it ends the loop. -/
def Needed (env : Env) (responses : List ReadResponse) (i : ℕ) : Prop :=
  match env.server.max_write_length with
  | none => i = 0
  | some w => Write.Needed env.server w responses i

/-- The `i`-th response is an error. -/
def Bad (env : Env) (responses : List ReadResponse) (i : ℕ) : Prop :=
  match env.server.max_write_length with
  | none => i = 0
  | some w => Write.Bad env.server w responses i

def Killed (env : Env) (i : ℕ) : Prop := env.wasKilled i = true

lemma appReader_filled (answers : List (Option (List UInt8))) : Filled (appReader answers) := by
  induction answers with
  | nil => exact Filled.nil
  | cons answer answers ih =>
    rcases answer with _ | _ | ⟨b, data⟩
    · exact Filled.last _ rfl
    · exact Filled.nil
    · exact Filled.cons _ _ (by simp) rfl ih

lemma fdReader_cons (read : ℕ → Option ℕ) (fuel k : ℕ) {rest : List UInt8} (h : rest ≠ []) :
    fdReader read (fuel + 1) k rest =
      match read k with
      | none => [⟨[], some .ERR_CANNOT_READ⟩]
      | some n => ⟨rest.take (min (n + 1) MAX_XFER_BUF_SIZE), none⟩ ::
          fdReader read fuel (k + 1) (rest.drop (min (n + 1) MAX_XFER_BUF_SIZE)) := by
  cases rest with
  | nil => exact absurd rfl h
  | cons b rest => rfl

lemma fdReader_filled (read : ℕ → Option ℕ) (fuel k : ℕ) (rest : List UInt8) :
    Filled (fdReader read fuel k rest) := by
  induction fuel generalizing k rest with
  | zero => exact Filled.nil
  | succ fuel ih =>
    by_cases hrest : rest = []
    · subst hrest
      simp only [fdReader]
      split
      · exact Filled.last _ rfl
      · exact Filled.nil
    · rw [fdReader_cons _ _ _ hrest]
      split
      · exact Filled.last _ rfl
      · refine Filled.cons _ _ ?_ rfl (ih _ _)
        simp [hrest, MAX_XFER_BUF_SIZE]

lemma reader_filled (position : ℕ) : Filled (reader env source position) := by
  cases source with
  | app answers => exact appReader_filled answers
  | fd content => exact fdReader_filled _ _ _ _

lemma responses_of_reader (env : Env) {responses : List ReadResponse} (hf : Filled responses)
    (store : Store String) (file : Handle String) :
    Responses (Needed env responses) (Bad env responses) 0
      (asyncWrite env.server store file responses) := by
  unfold Needed Bad
  cases hm : env.server.max_write_length with
  | none =>
    simp only [asyncWrite, hm]
    exact Responses.error 0 _ store rfl rfl
  | some w => exact asyncWrite_responses hm store file hf

lemma needed_down (env : Env) {responses : List ReadResponse} (hf : Filled responses) :
    ∀ i j, i ≤ j → Needed env responses j → Needed env responses i := by
  intro i j hij hj
  unfold Needed at *
  split at hj
  · omega
  · exact Write.needed_down hf i j hij hj

/-- How the loop ends, said by its first value. -/
def Matches : Outcome → LoopEnd → Prop
  | .completed, ended => ended = .completed
  | .killed _, ended => ended = .killed
  | .failed _, ended => ended = .failed

variable {k : ℕ} {rs : List (WriteResponse × Store String)}

lemma putLoop_ends (env : Env) {needed bad : ℕ → Prop} (total : ℕ) (hr : Responses needed bad k rs)
    (store : Store String) :
    ∃ o, Ends needed (Killed env) bad k o ∧ Matches o (putLoop env k total store rs).1 := by
  induction hr generalizing total store with
  | done k h => exact ⟨.completed, Ends.completed k h, rfl⟩
  | error k error s hn hb =>
    by_cases hk : env.wasKilled k = true
    · exact ⟨.killed k, Ends.killed k hn hk, by simp [Matches, putLoop, hk]⟩
    · exact ⟨.failed k, Ends.failed k hn hk hb, by simp [Matches, putLoop, hk]⟩
  | next k n s rest hn hb h ih =>
    by_cases hk : env.wasKilled k = true
    · exact ⟨.killed k, Ends.killed k hn hk, by simp [Matches, putLoop, hk]⟩
    · obtain ⟨o, hends, hmatch⟩ := ih (total + n) s
      refine ⟨o, Ends.next k o hn hk hb hends, ?_⟩
      simpa [putLoop, hk] using hmatch

lemma putLoop_inv {I : Store String → Prop} {total : ℕ} {store : Store String} (h : I store)
    (hrs : ∀ x ∈ rs, I x.2) : I (putLoop env k total store rs).2.1 := by
  induction rs generalizing k total store with
  | nil => exact h
  | cons x rs ih =>
    obtain ⟨response, s⟩ := x
    have hs : I s := hrs (response, s) (by simp)
    simp only [putLoop]
    split_ifs
    · exact hs
    · exact hs
    · exact ih hs fun x hx => hrs x (by simp [hx])

/-- No success is returned and no `.part` file is renamed. -/
def Reports (left : Left) : Prop := left.result.success = false ∧ left.renamed = false

lemma conclude_reports_iff (sb : Option (Node String))
    (permissions : Option ℕ) (signals : List Signal) (hpart : env.MarkPartial = true →
      ∃ k, remote.kindAt (partName url.path) = some k ∧ k.isDir = false) :
    Reports (conclude env remote url sb permissions flags mCanSetPermissions signals) ↔
      env.close = false ∨ (env.MarkPartial = true ∧ ¬ Installs env remote url) := by
  unfold conclude Reports
  cases hc : env.close with
  | false => simp
  | true =>
    cases hm : env.MarkPartial with
    | false => simp
    | true =>
      obtain ⟨k, hk, hdir⟩ := hpart hm
      have hi := (install_spec env hk hdir flags.Overwrite).1
      cases hins : (install env remote url flags.Overwrite).2 with
      | false =>
        have hnot : ¬ Installs env remote url := fun h => by simp [hi.mpr h] at hins
        simp [hins, hnot]
      | true => simp [hins, hi.mp hins]

/-- Some response is an error and the kill flag is down at every poll up to it. -/
def GoesWrong (env : Env) (responses : List ReadResponse) : Prop :=
  ∃ i, Needed env responses i ∧ Bad env responses i ∧ ∀ j, j ≤ i → ¬ Killed env j

/-- No response is an error and the kill flag is down at every poll. -/
def GoesWell (env : Env) (responses : List ReadResponse) : Prop :=
  ∀ i, Needed env responses i → ¬ Killed env i ∧ ¬ Bad env responses i

lemma transfer_reports_iff {responses : List ReadResponse} (hf : Filled responses)
    (sb : Option (Node String)) (permissions : Option ℕ) (destFile : Handle String)
    (totalBytesSent : ℕ) (signals : List Signal) (hpart : env.MarkPartial = true →
      ∃ k, remote.kindAt (partName url.path) = some k ∧ k.isDir = false) :
    Reports (transfer env remote url sb permissions flags mCanSetPermissions responses destFile
        totalBytesSent signals) ↔
      GoesWrong env responses ∨ (GoesWell env responses ∧
        (env.close = false ∨ (env.MarkPartial = true ∧ ¬ Installs env remote url))) := by
  have hdown := needed_down env hf
  obtain ⟨o, hends, hmatch⟩ := putLoop_ends env totalBytesSent
    (responses_of_reader env hf remote destFile) remote
  have hshape : Store.SameShape (putLoop env 0 totalBytesSent remote
      (asyncWrite env.server remote destFile responses)).2.1 remote := by
    have hI : ∀ (s : Store String) (h : Handle String) (bytes : List UInt8),
        Store.SameShape s remote → Store.SameShape (s.write h bytes).1 remote :=
      fun s h bytes hs => (Store.write_shape s h bytes).trans hs
    exact putLoop_inv (I := fun s => Store.SameShape s remote) (Store.SameShape.refl remote)
      (asyncWrite_inv hI (Store.SameShape.refl remote))
  have hwrong : GoesWrong env responses ↔ ∃ i, o = .failed i := by
    rw [hends.failed_iff hdown]
    simp [GoesWrong]
  have hwell : GoesWell env responses ↔ o = .completed := by
    rw [hends.completed_iff hdown]
    simp [GoesWell]
  rw [hwrong, hwell]
  unfold transfer
  generalize putLoop env 0 totalBytesSent remote
    (asyncWrite env.server remote destFile responses) = loop at hmatch hshape
  obtain ⟨ended, after, processed⟩ := loop
  cases o with
  | killed i =>
    obtain rfl : ended = .killed := hmatch
    simp [Reports]
  | failed i =>
    obtain rfl : ended = .failed := hmatch
    simp [Reports]
  | completed =>
    obtain rfl : ended = .completed := hmatch
    have hpart' : env.MarkPartial = true →
        ∃ k, after.kindAt (partName url.path) = some k ∧ k.isDir = false := by
      intro hm
      obtain ⟨k, hk, hdir⟩ := hpart hm
      have h := hshape (partName url.path)
      rw [hk, Option.map_some, hdir, Option.map_eq_some_iff] at h
      exact h
    have hdir : after.kindAt url.path = some .dir ↔ remote.kindAt url.path = some .dir :=
      hshape.isDir url.path
    have hinstalls : Installs env after url ↔ Installs env remote url := by
      simp only [Installs, ne_eq, hdir]
    simp only [reduceCtorEq, exists_false, false_or, true_and]
    rw [conclude_reports_iff sb permissions _ hpart', hinstalls]

/-- Where the source stands after the negotiation; an application starts anew anyway. -/
def position (env : Env) (remote : Store String) (url : Url) (flags : JobFlags) : ℕ :=
  if Candidate env remote url flags then partSize remote url else 0

/-- What the source delivers. -/
def responses (env : Env) (remote : Store String) (url : Url) (flags : JobFlags)
    (source : Source) : List ReadResponse :=
  reader env source (position env remote url flags)

lemma reader_eq_responses {pos : ℕ}
    (hpos : source.isFd = true → Negotiated env remote url flags source →
      pos = partSize remote url)
    (hzero : ¬ Negotiated env remote url flags source → pos = 0) :
    reader env source pos = responses env remote url flags source := by
  unfold responses position
  cases source with
  | app answers => rfl
  | fd content =>
    split_ifs with hcand
    · rw [hpos rfl ⟨hcand, Or.inl rfl⟩]
    · rw [hzero fun h => hcand h.1]

/-- The destination is opened: the login succeeds, nothing is refused before and the server
opens the file. -/
structure Opens (env : Env) (remote : Store String) (url : Url) (flags : JobFlags)
    (source : Source) : Prop where
  login : env.login = .pass
  seek : ¬ SeekFails env remote url flags source
  guard : ¬ Guarded env remote url flags source
  openFile : env.openFile = none
  resumed : flags.Resume = true ∨ Negotiated env remote url flags source →
    remote.openExisting (destName env url) ≠ none
  created : ¬ (flags.Resume = true ∨ Negotiated env remote url flags source) →
    (unlinkedPart env remote url).Openable (destName env url)

lemma opens_iff (hlogin : env.login = .pass) (hseek : ¬ SeekFails env remote url flags source)
    (hguard : ¬ Guarded env remote url flags source) {Resume : Bool}
    (hres : Resume = true ↔ flags.Resume = true ∨ Negotiated env remote url flags source)
    (initialMode : ℕ) :
    Opens env remote url flags source ↔
      openDest env (if Resume then remote else unlinkedPart env remote url) (destName env url)
        Resume initialMode ≠ none := by
  rw [ne_eq, openDest_eq_none, not_not]
  constructor
  · rintro ⟨-, -, -, h1, h2, h3⟩
    refine ⟨h1, fun hR => ?_, fun hR => ?_⟩
    · simpa [hR] using h2 (hres.mp hR)
    · simpa [hR] using h3 fun hc => by simp [hres.mpr hc] at hR
  · rintro ⟨h1, h2, h3⟩
    refine ⟨hlogin, hseek, hguard, h1, fun hc => ?_, fun hc => ?_⟩
    · simpa [hres.mpr hc] using h2 (hres.mpr hc)
    · have hR : Resume = false := by simpa using fun h => hc (hres.mp h)
      simpa [hR] using h3 hR

lemma putOpened_remote (Resume : Bool) :
    (if env.MarkPartial && (sbPart env remote url).isSome && !Resume then
      unlink env.unlinkPart remote (destName env url) else remote) =
      if Resume then remote else unlinkedPart env remote url := by
  cases Resume <;> simp [unlinkedPart]

lemma sftpPut_opens (h : Opens env remote url flags source) (permissionsMode : ℤ)
    (mCanSetPermissions : Bool) :
    ∃ store sb permissions flags' destFile totalBytesSent signals,
      sftpPut env remote url permissionsMode flags source mCanSetPermissions =
        transfer env store url sb permissions flags' mCanSetPermissions
          (responses env remote url flags source) destFile totalBytesSent signals ∧
      (env.MarkPartial = true →
        ∃ k, store.kindAt (partName url.path) = some k ∧ k.isDir = false) ∧
      (store.kindAt url.path = some .dir ↔ remote.kindAt url.path = some .dir) := by
  obtain ⟨Resume, pos, permissions, signals, heq, hres, hpos, hzero⟩ :=
    sftpPut_goes h.login h.seek h.guard permissionsMode mCanSetPermissions
  have hopen := (opens_iff h.login h.seek h.guard hres
    ((permissions.map fun perms => perms ||| owner_write ||| owner_read).getD
      DEFAULT_FILE_PERMISSIONS)).mp h
  obtain ⟨⟨destFile, total, store⟩, hsome⟩ := Option.ne_none_iff_exists'.mp hopen
  obtain ⟨hentry, hdir⟩ := openDest_some hsome
  refine ⟨store, lstat env.lstatOrig remote url.path, permissions,
    { flags with Resume := Resume }, destFile, total, signals, ?_, fun hm => ?_, ?_⟩
  · rw [heq, ← reader_eq_responses hpos hzero]
    simp only [putOpened, putOpened_remote, hsome]
  · simpa [destName, hm] using hentry
  · rw [hdir url.path]
    unfold unlinkedPart
    split_ifs
    · exact Iff.rfl
    · exact unlink_isDir _ _ _
    · exact Iff.rfl

lemma sftpPut_not_opens (h : ¬ Opens env remote url flags source) (permissionsMode : ℤ)
    (mCanSetPermissions : Bool) :
    Reports (sftpPut env remote url permissionsMode flags source mCanSetPermissions) := by
  cases hlogin : env.login with
  | fail error text => simp [sftpPut, hlogin, Reports]
  | pass =>
    by_cases hseek : SeekFails env remote url flags source
    · rw [sftpPut_seekFails hlogin hseek]
      exact ⟨rfl, rfl⟩
    by_cases hguard : Guarded env remote url flags source
    · obtain ⟨-, h2, text, h3 | h3⟩ :=
        sftpPut_guarded hlogin hseek hguard permissionsMode mCanSetPermissions
      · exact ⟨by simp [h3], h2⟩
      · exact ⟨by simp [h3], h2⟩
    obtain ⟨Resume, pos, permissions, signals, heq, hres, -, -⟩ :=
      sftpPut_goes hlogin hseek hguard permissionsMode mCanSetPermissions
    have hnone := mt (opens_iff hlogin hseek hguard hres
      ((permissions.map fun perms => perms ||| owner_write ||| owner_read).getD
        DEFAULT_FILE_PERMISSIONS)).mpr h
    rw [ne_eq, not_not] at hnone
    rw [heq]
    simp only [putOpened, putOpened_remote, hnone]
    exact ⟨rfl, rfl⟩

lemma fails_of_error (env : Env) (w q : ℕ) {reader : List ReadResponse}
    (h : ∃ r ∈ reader, r.error ≠ none) : ∃ d, Fails env.server w q reader d := by
  induction reader generalizing q with
  | nil => simp at h
  | cons r reader ih =>
    by_cases hr : r.error = none
    · obtain ⟨d, hd⟩ := ih (q + requests w r) (by simpa [hr] using h)
      exact ⟨d + 1, hd⟩
    · exact ⟨0, Or.inl hr⟩

lemma not_goesWell {reader : List ReadResponse} (h : ∃ r ∈ reader, r.error ≠ none) :
    ¬ GoesWell env reader := by
  intro hwell
  unfold GoesWell Needed Bad at hwell
  cases hm : env.server.max_write_length with
  | none => simpa [hm] using hwell 0
  | some w =>
    simp only [hm] at hwell
    obtain ⟨d, hd⟩ := fails_of_error env w 0 h
    exact (hwell (d - bunch w 0 reader) (Or.inr ⟨d, hd, rfl⟩)).2 (Or.inr ⟨d, hd, rfl⟩)

/-- The data ends with an error: the application fails after any number of chunks, or a read of
the open file does. -/
def BreaksOff (env : Env) (remote : Store String) (url : Url) (flags : JobFlags) :
    Source → Prop
  | .app answers => ∃ chunks : List (List UInt8), (∀ data ∈ chunks, data ≠ []) ∧
      answers = chunks.map some ++ [none]
  | .fd content => ∃ r ∈ responses env remote url flags (.fd content), r.error ≠ none

/-- The end of the transfer fails: the close, or the rename of the `.part` file. -/
def EndFails (env : Env) (remote : Store String) (url : Url) : Prop :=
  env.close = false ∨ (env.MarkPartial = true ∧ ¬ Installs env remote url)

/-- **A source that breaks off is reported** when nothing is opened, when the error of an open
file or of the server is met before a kill, and for an application otherwise only when the end of
the transfer fails too. -/
theorem put_reports_iff (env : Env) (remote : Store String) (url : Url) (permissionsMode : ℤ)
    (flags : JobFlags) (source : Source) (mCanSetPermissions : Bool)
    (h : BreaksOff env remote url flags source) :
    Reports (sftpPut env remote url permissionsMode flags source mCanSetPermissions) ↔
      ¬ Opens env remote url flags source ∨
        GoesWrong env (responses env remote url flags source) ∨
        (source.isFd = false ∧ GoesWell env (responses env remote url flags source) ∧
          EndFails env remote url) := by
  by_cases hopens : Opens env remote url flags source
  · obtain ⟨store, sb, permissions, flags', destFile, total, signals, heq, hpart, hdir⟩ :=
      sftpPut_opens hopens permissionsMode mCanSetPermissions
    have hend : (env.close = false ∨ (env.MarkPartial = true ∧ ¬ Installs env store url)) ↔
        EndFails env remote url := by
      simp only [EndFails, Installs, ne_eq, hdir]
    have hfilled : Filled (responses env remote url flags source) := reader_filled _
    rw [heq, transfer_reports_iff hfilled sb permissions destFile total signals hpart, hend]
    have hfd : GoesWell env (responses env remote url flags source) → source.isFd = false := by
      cases source with
      | app answers => exact fun _ => rfl
      | fd content => exact fun hwell => absurd hwell (not_goesWell h)
    simp only [hopens, not_true_eq_false, false_or]
    constructor
    · rintro (hw | ⟨hwell, hend⟩)
      · exact Or.inl hw
      · exact Or.inr ⟨hfd hwell, hwell, hend⟩
    · rintro (hw | ⟨-, hwell, hend⟩)
      · exact Or.inl hw
      · exact Or.inr ⟨hwell, hend⟩
  · exact iff_of_true (sftpPut_not_opens hopens permissionsMode mCanSetPermissions)
      (Or.inl hopens)

set_option maxRecDepth 4000 in
/-- A read of the local file that fails is reported. -/
theorem put_reports_read_error :
    Reports (sftpPut { quiet with read := fun k => if k = 0 then some 0 else none }
      (ofFiles []) ⟨"/f", "sftp://h/f"⟩ (-1) DefaultFlags (.fd [1, 2]) true) := by
  refine (put_reports_iff { quiet with read := fun k => if k = 0 then some 0 else none }
    (ofFiles []) ⟨"/f", "sftp://h/f"⟩ (-1) DefaultFlags (.fd [1, 2]) true ?_).mpr
    (Or.inr (Or.inl ?_))
  · exact ⟨⟨[], some .ERR_CANNOT_READ⟩, by decide, by decide⟩
  · refine ⟨0, Or.inr ⟨1, Or.inl (by decide), by decide⟩, Or.inr ⟨1, Or.inl (by decide), by decide⟩,
      fun j _ => by simp [Killed, quiet]⟩

set_option maxRecDepth 4000 in
/-- After an application that fails, what came before is installed and counts as a success. -/
theorem put_installs_broken_off :
    BreaksOff quiet (ofFiles []) ⟨"/f", "sftp://h/f"⟩ DefaultFlags (.app [some [1], none]) ∧
      ¬ Reports (sftpPut quiet (ofFiles []) ⟨"/f", "sftp://h/f"⟩ (-1) DefaultFlags
        (.app [some [1], none]) true) := by
  refine ⟨⟨[[1]], by decide, rfl⟩, fun h => ?_⟩
  have hfail := h.1
  revert hfail
  decide

end errors

/-! ### The content after a copy -/

section complete

open Lib.Poll Write

variable {env : Env} {remote : Store String} {url : Url} {flags : JobFlags}
  {mCanSetPermissions : Bool}

structure Succeeds (env : Env) : Prop where
  login : env.login = .pass
  lstatOrig : env.lstatOrig = true
  lstatPart : env.lstatPart = true
  lseek : env.lseek = true
  unlinkPart : env.unlinkPart = true
  openFile : env.openFile = none
  fstat : env.fstat = true
  read : ∀ k, env.read k ≠ none
  server : ∃ w, Write.Succeeds env.server w
  wasKilled : ∀ k, env.wasKilled k = false
  close : env.close = true
  rename : env.rename = true

variable {k : ℕ} {destFile : Handle String} {q : String}

lemma fdReader_all {read : ℕ → Option ℕ} (hread : ∀ k, read k ≠ none) {fuel : ℕ} {rest : List UInt8}
    (h : rest.length < fuel) :
    (∀ r ∈ fdReader read fuel k rest, r.error = none) ∧
      ((fdReader read fuel k rest).map ReadResponse.filedata).flatten = rest := by
  induction fuel generalizing k rest with
  | zero => omega
  | succ fuel ih =>
    obtain ⟨n, hn⟩ := Option.ne_none_iff_exists'.mp (hread k)
    by_cases hrest : rest = []
    · subst hrest
      simp [fdReader, hn]
    · have hlen := List.length_pos_of_ne_nil hrest
      have hpos : 0 < min (n + 1) MAX_XFER_BUF_SIZE := by
        unfold MAX_XFER_BUF_SIZE
        omega
      have hdrop : (rest.drop (min (n + 1) MAX_XFER_BUF_SIZE)).length < fuel := by
        rw [List.length_drop]
        omega
      obtain ⟨h1, h2⟩ := ih (k := k + 1) hdrop
      rw [fdReader_cons _ _ _ hrest, hn]
      exact ⟨by simpa using h1, by simp [h2]⟩

lemma reader_all (hs : Succeeds env) (content : List UInt8) (pos : ℕ) :
    (∀ r ∈ reader env (.fd content) pos, r.error = none) ∧
      ((reader env (.fd content) pos).map ReadResponse.filedata).flatten = content.drop pos :=
  fdReader_all hs.read (Nat.lt_succ_self _)

lemma not_fails {srv : WriteServer} {w q d : ℕ} (hs : Write.Succeeds srv w)
    {reader : List ReadResponse} (he : ∀ r ∈ reader, r.error = none) :
    ¬ Fails srv w q reader d := by
  induction reader generalizing q d with
  | nil => simp [Fails]
  | cons r reader ih =>
    cases d with
    | zero => exact hs.not_fails reader (he r (by simp)) q
    | succ d => exact ih fun r hr => he r (by simp [hr])

lemma goesWell_of_succeeds (hs : Succeeds env) {reader : List ReadResponse}
    (he : ∀ r ∈ reader, r.error = none) : GoesWell env reader := by
  obtain ⟨w, hw⟩ := hs.server
  refine fun i _ => ⟨by simp [Killed, hs.wasKilled], ?_⟩
  simp only [Bad, hw.max_write_length]
  rintro (⟨-, hwait⟩ | ⟨d, hd, -⟩)
  · obtain ⟨n, hn, -⟩ := hw.wait_write i
    simp [hn] at hwait
  · exact not_fails hw he hd

lemma putLoop_lastStore {total : ℕ} {store : Store String}
    {rs : List (WriteResponse × Store String)} (h : (putLoop env k total store rs).1 = .completed) :
    (putLoop env k total store rs).2.1 = lastStore store rs := by
  induction rs generalizing k total store with
  | nil => rfl
  | cons x rs ih =>
    obtain ⟨response, s⟩ := x
    simp only [putLoop] at h ⊢
    split_ifs at h ⊢
    exact ih h

lemma putLoop_holds (hs : Succeeds env) {store : Store String} {data : List UInt8}
    {reader : List ReadResponse} (hf : Filled reader) (he : ∀ r ∈ reader, r.error = none)
    (h : store.AtEnd destFile data) (total : ℕ) :
    ∃ after file signals,
      putLoop env 0 total store (asyncWrite env.server store destFile reader) =
        (.completed, after, signals) ∧
      Holds store destFile.path (data ++ (reader.map ReadResponse.filedata).flatten) after file := by
  obtain ⟨w, hw⟩ := hs.server
  obtain ⟨file, hfile⟩ := asyncWrite_holds hw hf he h
  obtain ⟨o, hends, hmatch⟩ := putLoop_ends env total (responses_of_reader env hf store destFile)
    store
  have ho : o = .completed := by
    rw [hends.completed_iff (needed_down env hf)]
    exact fun i _ => goesWell_of_succeeds hs he i
  subst ho
  have hlast := putLoop_lastStore hmatch
  rw [← hlast] at hfile
  exact ⟨_, file, _, Prod.ext hmatch rfl, hfile⟩

lemma setModified_kindAt (store : Store String) (name p : String) :
    (setModified env store name).kindAt p = store.kindAt p := by
  unfold setModified
  split
  · split_ifs
    · exact Store.getD_setAttrs_kindAt _ _ _ _
    · rfl
  · rfl

lemma setOwner_kindAt (store : Store String) (name : String) (sb : Option (Node String))
    (p : String) : (setOwner env store name sb).kindAt p = store.kindAt p := by
  unfold setOwner
  split
  · split_ifs
    · exact Store.getD_setAttrs_kindAt _ _ _ _
    · rfl
  · rfl

lemma setAttributes_kindAt (sb : Option (Node String)) (permissions : Option ℕ)
    (Resume : Bool) (p : String) :
    (setAttributes env remote url sb permissions Resume mCanSetPermissions).1.kindAt p =
      remote.kindAt p := by
  have hrest : ∀ s : Store String,
      (setModified env (setOwner env s url.path sb) url.path).kindAt p = s.kindAt p :=
    fun s => (setModified_kindAt _ _ p).trans (setOwner_kindAt _ _ _ p)
  unfold setAttributes
  split
  · split
    · split
      · rfl
      · rename_i heq
        obtain ⟨-, hchmod⟩ := Option.ite_none_right_eq_some.mp heq
        exact (hrest _).trans (Store.setAttrs_kindAt hchmod p)
    · exact hrest remote
  · exact hrest remote

/-- The transfer succeeds unless a directory is in the way of the `.part` file, and then the
destination holds what the opened file held and behind it what was read. -/
lemma transfer_stores (flags : JobFlags) (mCanSetPermissions : Bool) (hs : Succeeds env)
    {store : Store String} {data : List UInt8} {reader : List ReadResponse} (hf : Filled reader)
    (he : ∀ r ∈ reader, r.error = none) (hend : store.AtEnd destFile data)
    (htarget : store.target (destName env url) = some destFile.path)
    (hpath : env.MarkPartial = true → destFile.path = destName env url) (sb : Option (Node String))
    (permissions : Option ℕ) (total : ℕ) (signals : List Signal) :
    ((transfer env store url sb permissions flags mCanSetPermissions reader destFile total
        signals).result.success = true ↔
      (env.MarkPartial = true → store.kindAt url.path ≠ some .dir)) ∧
    ((transfer env store url sb permissions flags mCanSetPermissions reader destFile total
        signals).result.success = true →
      (transfer env store url sb permissions flags mCanSetPermissions reader destFile total
        signals).remote.content url.path =
          some (data ++ (reader.map ReadResponse.filedata).flatten)) := by
  obtain ⟨after, file, processed, hloop, hholds⟩ := putLoop_holds hs hf he hend total
  have hkind := hholds.named ▸ hholds.atEnd.1
  simp only [transfer, hloop, conclude, hs.close, Bool.not_true, Bool.false_eq_true, if_false]
  cases hm : env.MarkPartial with
  | false =>
    simp only [destName, hm, Bool.false_eq_true, if_false] at htarget
    refine ⟨by simp, fun _ => ?_⟩
    simp only [Bool.false_and, Bool.false_eq_true, if_false]
    rw [Store.content_congr (setAttributes_kindAt _ _ _)]
    refine Store.content_of_target ?_ hkind
    rw [Store.target_congr (fun p => ?_) url.path, htarget]
    by_cases hp : p = destFile.path
    · subst hp
      rw [Store.linkAt_file hkind, Store.linkAt_file hend.1]
    · exact Store.linkAt_of_kindAt (Store.kindAt_of_eq (hholds.frame p hp))
  | true =>
    have hpart : destFile.path = partName url.path := by simpa [destName, hm] using hpath hm
    rw [hpart] at hkind
    have hdir : after.kindAt url.path = store.kindAt url.path := by
      refine Store.kindAt_of_eq (hholds.frame _ ?_)
      rw [hpart]
      exact (partName_ne _).symm
    obtain ⟨h1, h2⟩ := install_spec env hkind rfl flags.Overwrite
    simp only [Installs, hs.rename, true_and, hdir] at h1
    cases hi : (install env after url flags.Overwrite).2 with
    | false => simpa [hi] using h1
    | true =>
      refine ⟨by simpa [hi] using h1, fun _ => ?_⟩
      simp only [hi, if_true, Bool.not_true, Bool.and_false, Bool.false_eq_true, if_false]
      rw [Store.content_congr (setAttributes_kindAt _ _ _)]
      exact Store.content_of_file (h2 hi)

/-- The name that is opened leads to an entry that is absent or a file with the start of
`content`; a `.part` file is not reached over a link. -/
def StartOf (env : Env) (remote : Store String) (url : Url) (content : List UInt8) : Prop :=
  ∃ q, remote.target (destName env url) = some q ∧
    (env.MarkPartial = true → q = destName env url) ∧
    (remote.kindAt q = none ∨ ∃ pre, remote.kindAt q = some (.file pre) ∧ pre <+: content)

/-- The caller asks to resume a file that has some of the data, which is then sent once more. -/
structure SentAgain (env : Env) (remote : Store String) (url : Url) (flags : JobFlags) :
    Prop where
  Resume : flags.Resume = true
  opened : ∃ data, remote.content (destName env url) = some data ∧ data ≠ []
  dest : env.MarkPartial = true → remote.kindAt url.path ≠ some .dir

lemma putOpened_resumes (hs : Succeeds env) {pre : List UInt8}
    (htarget : remote.target (destName env url) = some q)
    (hpre : remote.kindAt q = some (.file pre)) (sb : Option (Node String)) (permissions : Option ℕ)
    (source : Source) (pos : ℕ) (signals : List Signal) :
    putOpened env remote url sb (sbPart env remote url) permissions { flags with Resume := true }
        mCanSetPermissions source pos signals =
      transfer env remote url sb permissions { flags with Resume := true } mCanSetPermissions
        (reader env source pos) ⟨q, pre.length⟩ pre.length signals := by
  have hopen := Store.openExisting_of_file htarget hpre
  simp only [putOpened, putOpened_remote, if_true]
  simp [openDest, hs.openFile, hs.fstat, hopen, hpre, Kind.size]

lemma putOpened_truncates (flags : JobFlags) (mCanSetPermissions : Bool) (hs : Succeeds env)
    (htarget : remote.target (destName env url) = some q)
    (hq : env.MarkPartial = true → q = destName env url)
    (hkind : remote.kindAt q = none ∨ ∃ data, remote.kindAt q = some (.file data))
    (sb : Option (Node String)) (permissions : Option ℕ) (source : Source) (pos : ℕ)
    (signals : List Signal) :
    ∃ store, putOpened env remote url sb (sbPart env remote url) permissions
          { flags with Resume := false } mCanSetPermissions source pos signals =
        transfer env store url sb permissions { flags with Resume := false } mCanSetPermissions
          (reader env source pos) ⟨q, 0⟩ 0 signals ∧
      store.AtEnd ⟨q, 0⟩ [] ∧ store.target (destName env url) = some q := by
  have hunlinked : (unlinkedPart env remote url).target (destName env url) = some q ∧
      ((unlinkedPart env remote url).kindAt q = none ∨
        ∃ data, (unlinkedPart env remote url).kindAt q = some (.file data)) := by
    unfold unlinkedPart
    split_ifs with hsb
    · obtain rfl := hq (by simpa using (Bool.and_eq_true _ _ ▸ hsb).1)
      simp only [unlink, hs.unlinkPart, if_true]
      rcases hkind with hnone | ⟨data, hdata⟩
      · have hsame : remote.unlink (destName env url) = none := by
          simp [Store.unlink, Store.kindAt_eq_none.mp hnone]
        rw [hsame]
        exact ⟨htarget, Or.inl hnone⟩
      · rw [Store.unlink_of_kindAt hdata rfl, Option.getD_some]
        have hnone : Store.kindAt (Function.update remote (destName env url) none)
            (destName env url) = none := by
          simp [Store.kindAt]
        exact ⟨Store.target_of_linkAt (Store.linkAt_none hnone), Or.inl hnone⟩
    · exact ⟨htarget, hkind⟩
  obtain ⟨htarget', hkind'⟩ := hunlinked
  obtain ⟨store, hopen, hend, hframe⟩ := Store.openTruncate_atEnd
    (env.fresh ((permissions.map fun perms => perms ||| owner_write ||| owner_read).getD
      DEFAULT_FILE_PERMISSIONS)) htarget' hkind'
  refine ⟨store, ?_, hend, ?_⟩
  · simp only [putOpened, putOpened_remote, Bool.false_eq_true, if_false]
    simp [openDest, hs.openFile, hopen]
  · rw [Store.target_congr (fun p => ?_) (destName env url), htarget']
    by_cases hp : p = q
    · subst hp
      rw [Store.linkAt_file hend.1, Store.target_linkAt htarget']
    · exact Store.linkAt_of_kindAt (Store.kindAt_of_eq (hframe p hp))

lemma put_resumed (hs : Succeeds env) (hR : flags.Resume = true) {content : List UInt8}
    (hstart : StartOf env remote url content) (permissionsMode : ℤ) :
    ((sftpPut env remote url permissionsMode flags (.fd content)
        mCanSetPermissions).result.success = true →
      (sftpPut env remote url permissionsMode flags (.fd content)
        mCanSetPermissions).remote.content url.path = some content) ↔
      ¬ SentAgain env remote url flags := by
  obtain ⟨q, htarget, hq, hkind⟩ := hstart
  have hcand : ¬ Candidate env remote url flags := fun h => by
    have := h.Resume
    simp [hR] at this
  have hseek : ¬ SeekFails env remote url flags (.fd content) := fun h => hcand h.1
  have hguard : ¬ Guarded env remote url flags (.fd content) := fun h => by
    have := h.2.2.2.1
    simp [hR] at this
  obtain ⟨Resume, pos, permissions, signals, heq, hres, -, hzero⟩ :=
    sftpPut_goes hs.login hseek hguard permissionsMode mCanSetPermissions
  obtain rfl : Resume = true := hres.mpr (Or.inl hR)
  obtain rfl : pos = 0 := hzero fun h => hcand h.1
  rw [heq]
  rcases hkind with hnone | ⟨pre, hpre, -⟩
  · -- nothing is there to resume, and the open fails
    have hopen : remote.openExisting (destName env url) = none := by
      simp [Store.openExisting, htarget, Store.kindAt_eq_none.mp hnone]
    have hcontent : remote.content (destName env url) = none := by
      simp [Store.content, htarget, hnone]
    refine iff_of_true (fun h => ?_) fun h => ?_
    · simp only [putOpened, putOpened_remote, if_true] at h
      simp [openDest, hs.openFile, hopen] at h
    · simpa [hcontent] using h.opened
  · have hcontent := Store.content_of_target htarget hpre
    rw [putOpened_resumes hs htarget hpre]
    have hend : remote.AtEnd ⟨q, pre.length⟩ pre := ⟨hpre, rfl⟩
    obtain ⟨he, hall⟩ := reader_all hs content 0
    obtain ⟨h1, h2⟩ := transfer_stores { flags with Resume := true } mCanSetPermissions hs
      (reader_filled 0) he hend htarget hq (lstat env.lstatOrig remote url.path) permissions
      pre.length signals
    rw [hall, List.drop_zero] at h2
    constructor
    · rintro h ⟨-, ⟨data, hdata, hne⟩, hdir⟩
      have hsame := (h2 (h1.mpr hdir)).symm.trans (h (h1.mpr hdir))
      rw [hcontent, Option.some.injEq] at hdata
      rw [Option.some.injEq, List.append_left_eq_self] at hsame
      exact hne (hdata ▸ hsame)
    · intro h hsuccess
      have hnil : pre = [] := by
        by_contra hne
        exact h ⟨hR, ⟨pre, hcontent, hne⟩, h1.mp hsuccess⟩
      simpa [hnil] using h2 hsuccess

lemma put_fresh (hs : Succeeds env) (hR : flags.Resume = false) {content : List UInt8}
    (hstart : StartOf env remote url content) (permissionsMode : ℤ)
    (hsuccess : (sftpPut env remote url permissionsMode flags (.fd content)
      mCanSetPermissions).result.success = true) :
    (sftpPut env remote url permissionsMode flags (.fd content)
      mCanSetPermissions).remote.content url.path = some content := by
  obtain ⟨q, htarget, hq, hkind⟩ := hstart
  have hseek : ¬ SeekFails env remote url flags (.fd content) := fun h => by
    have := h.2.2
    simp [hs.lseek] at this
  have hguard : ¬ Guarded env remote url flags (.fd content) := fun h => by
    obtain ⟨-, -, text, hfail | hfail⟩ :=
      sftpPut_guarded hs.login hseek h permissionsMode mCanSetPermissions
    · simp [hfail] at hsuccess
    · simp [hfail] at hsuccess
  obtain ⟨Resume, pos, permissions, signals, heq, hres, hpos, hzero⟩ :=
    sftpPut_goes hs.login hseek hguard permissionsMode mCanSetPermissions
  rw [heq] at hsuccess ⊢
  by_cases hcand : Candidate env remote url flags
  · have hneg : Negotiated env remote url flags (.fd content) := ⟨hcand, Or.inl rfl⟩
    obtain rfl : Resume = true := hres.mpr (Or.inr hneg)
    obtain ⟨data, hdata, -, hsize⟩ := partSize_pos hcand.part
    have hpart : q = partName url.path := by
      simpa [destName, hcand.MarkPartial] using hq hcand.MarkPartial
    obtain ⟨pre, hpre, hprefix⟩ : ∃ pre, remote.kindAt q = some (.file pre) ∧ pre <+: content := by
      rcases hkind with hnone | hpre
      · rw [hpart, hdata] at hnone
        cases hnone
      · exact hpre
    obtain rfl : pre = data := by
      rw [hpart, hdata] at hpre
      simpa using hpre.symm
    rw [putOpened_resumes hs htarget hpre] at hsuccess ⊢
    have hend : remote.AtEnd ⟨q, pre.length⟩ pre := ⟨hpre, rfl⟩
    obtain ⟨he, hall⟩ := reader_all hs content pos
    have h := (transfer_stores { flags with Resume := true } mCanSetPermissions hs
      (reader_filled pos) he hend htarget hq _ permissions pre.length signals).2 hsuccess
    rw [h, hall, hpos rfl hneg, hsize]
    obtain ⟨rest, rfl⟩ := hprefix
    simp
  · have hneg : ¬ Negotiated env remote url flags (.fd content) := fun h => hcand h.1
    obtain rfl : Resume = false := by
      simpa [hR, hneg] using hres
    obtain rfl : pos = 0 := hzero hneg
    have hkind' : remote.kindAt q = none ∨ ∃ data, remote.kindAt q = some (.file data) :=
      hkind.imp_right fun ⟨pre, hpre, _⟩ => ⟨pre, hpre⟩
    obtain ⟨store, hput, hend, htarget'⟩ := putOpened_truncates flags mCanSetPermissions hs
      htarget hq hkind' (lstat env.lstatOrig remote url.path) permissions (.fd content) 0 signals
    rw [hput] at hsuccess ⊢
    obtain ⟨he, hall⟩ := reader_all hs content 0
    have h := (transfer_stores { flags with Resume := false } mCanSetPermissions hs
      (reader_filled 0) he hend htarget' hq _ permissions 0 signals).2 hsuccess
    simpa [hall] using h

/-- **A copy is complete** unless the caller asks to resume a file that has some of the data:
then the data is sent from its start. -/
theorem copyPut_complete_iff (env : Env) (disk remote : Store String) (url : Url)
    (sCopyFile : String) (permissions : ℤ) (flags : JobFlags) (mCanSetPermissions : Bool)
    (content : List UInt8) (hs : Succeeds env) (hsource : disk.content sCopyFile = some content)
    (hstart : StartOf env remote url content) :
    ((sftpCopyPut env disk remote url sCopyFile permissions flags mCanSetPermissions
        true).result.success = true →
      (sftpCopyPut env disk remote url sCopyFile permissions flags mCanSetPermissions
        true).remote.content url.path = some content) ↔ ¬ SentAgain env remote url flags := by
  obtain ⟨a, hstat⟩ := Store.content_eq_some.mp hsource
  have heq : sftpCopyPut env disk remote url sCopyFile permissions flags mCanSetPermissions true =
      { sftpPut env remote url permissions flags (.fd content) mCanSetPermissions with
        signals := .totalSize content.length ::
          (sftpPut env remote url permissions flags (.fd content) mCanSetPermissions).signals } := by
    simp [sftpCopyPut, hstat, Kind.isDir, Kind.size, Kind.data]
  rw [heq]
  cases hR : flags.Resume with
  | true => exact put_resumed hs hR hstart permissions
  | false =>
    refine iff_of_true (put_fresh hs hR hstart permissions) fun h => ?_
    have := h.Resume
    simp [hR] at this

lemma quiet_succeeds : Succeeds quiet where
  login := rfl
  lstatOrig := rfl
  lstatPart := rfl
  lseek := rfl
  unlinkPart := rfl
  openFile := rfl
  fstat := rfl
  read _ := by simp [quiet]
  server := ⟨32768, rfl, by decide, fun _ => rfl, fun _ => ⟨32768, rfl, Nat.le_refl _⟩⟩
  wasKilled _ := rfl
  close := rfl
  rename := rfl

set_option maxRecDepth 4000 in
/-- The rest of a file is sent behind its first byte. -/
theorem copyPut_complete_behind_part :
    (sftpCopyPut quiet (ofFiles [("/s", [1, 2, 3])]) (ofFiles [("/f.part", [1])])
      ⟨"/f", "sftp://h/f"⟩ "/s" (-1) DefaultFlags true true).remote.content "/f" =
        some [1, 2, 3] := by
  refine (copyPut_complete_iff quiet (ofFiles [("/s", [1, 2, 3])]) (ofFiles [("/f.part", [1])])
    ⟨"/f", "sftp://h/f"⟩ "/s" (-1) DefaultFlags true [1, 2, 3] quiet_succeeds (by decide)
    ⟨"/f.part", by decide, fun _ => by decide, Or.inr ⟨[1], by decide, by decide⟩⟩).mpr
    (fun h => ?_) (by decide)
  exact absurd h.Resume (by decide)

set_option maxRecDepth 4000 in
/-- With the flag of the caller the first byte is there twice. -/
theorem copyPut_first_byte_twice :
    Succeeds quiet ∧ (ofFiles [("/s", [1, 2])]).content "/s" = some [1, 2] ∧
      StartOf quiet (ofFiles [("/f.part", [1])]) ⟨"/f", "sftp://h/f"⟩ [1, 2] ∧
      (sftpCopyPut quiet (ofFiles [("/s", [1, 2])]) (ofFiles [("/f.part", [1])])
        ⟨"/f", "sftp://h/f"⟩ "/s" (-1) ⟨false, true⟩ true true).result.success = true ∧
      (sftpCopyPut quiet (ofFiles [("/s", [1, 2])]) (ofFiles [("/f.part", [1])])
        ⟨"/f", "sftp://h/f"⟩ "/s" (-1) ⟨false, true⟩ true true).remote.content "/f" ≠
          some [1, 2] := by
  refine ⟨quiet_succeeds, by decide, ?_, by decide, by decide⟩
  exact ⟨"/f.part", by decide, fun _ => by decide, Or.inr ⟨[1], by decide, by decide⟩⟩

end complete

end KioExtras.Sftp.Put
