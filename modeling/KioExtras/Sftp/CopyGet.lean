import KioExtras.Sftp.Get

/-!
A file copied from the server: `sftpCopyGet`.

The transfer goes to a `.part` file that is renamed when it is done, or to the destination
itself. What the calls on the local files return are fields of an environment as well.
-/

namespace KioExtras.Sftp.CopyGet

open KioExtras.Kio KioExtras.Lib.FileStore Get
open KioExtras.Lib.FileStore.Store (ofFiles)

/-- `open` is `none`, or `some true` when it fails with `EACCES` and `some false` when it fails
otherwise. `fresh` gives the attributes of a file created with some mode, `modified` the date in
the metadata. -/
structure Env extends GetEnv where
  MarkPartial : Bool
  canResume : ℕ → Bool
  removePart : Bool
  openFile : Option Bool
  lseek : Bool
  fresh : ℕ → Attrs
  close : Bool
  rename : Bool
  removeDest : Bool
  renameAgain : Bool
  removeSmall : Bool
  modified : Option ℤ
  openForTime : Bool
  setPermissions : Bool
  DEFAULT_MINIMUM_KEEP_SIZE : ℕ

/-- `renamed` says that the `.part` file was moved to the final name. -/
structure Copied where
  result : WorkerResult
  disk : Store String
  renamed : Bool
  signals : List Signal

def fileExists (disk : Store String) (name : String) : Bool := (disk.stat name).isSome

/-- `QFileInfo::isDir`. -/
def isDir (disk : Store String) (name : String) : Bool :=
  ((disk.stat name).map fun n => n.kind.isDir).getD false

def size (disk : Store String) (name : String) : ℕ :=
  ((disk.stat name).map fun n => n.kind.size).getD 0

/-- `QFile::remove`, which leaves everything as it is when it fails. -/
def remove (ok : Bool) (disk : Store String) (name : String) : Option (Store String) :=
  if ok then disk.unlink name else none

/-- `QFile::rename`, which does not replace an entry. -/
def renameFile (ok : Bool) (disk : Store String) (name newName : String) : Option (Store String) :=
  if ok then disk.renameNew name newName else none

variable (env : Env)

def dropUnwantedPart (disk : Store String) (sCopyFile : String) (bResume : Bool) : Store String :=
  let sPart := partName sCopyFile
  if fileExists disk sPart && !bResume then (remove env.removePart disk sPart).getD disk else disk

/-- The output file: the handle, the offset to resume at and the store. -/
def openOutput (disk : Store String) (sCopyFile dest : String) (bResume : Bool) (initialMode : ℕ) :
    Except WorkerResult (Handle String × ℕ × Store String) :=
  let sPart := partName sCopyFile
  if bResume then
    match disk.openExisting sPart with
    | some q =>
      if env.openFile.isNone && env.lseek then .ok (⟨q, size disk sPart⟩, size disk sPart, disk)
      else .error (.fail .ERR_CANNOT_RESUME sCopyFile)
    | none => .error (.fail .ERR_CANNOT_RESUME sCopyFile)
  else
    match env.openFile, disk.openTruncate dest (env.fresh initialMode) with
    | none, some (q, disk) => .ok (⟨q, 0⟩, 0, disk)
    | some true, _ => .error (.fail .ERR_WRITE_ACCESS_DENIED sCopyFile)
    | _, _ => .error (.fail .ERR_CANNOT_OPEN_FOR_WRITING sCopyFile)

/-- Rename the `.part` file on success; if that fails, remove the destination first. -/
def install (disk : Store String) (sCopyFile : String) (bDestExists : Bool) :
    Option (Store String) × Store String :=
  let sPart := partName sCopyFile
  match renameFile env.rename disk sPart sCopyFile with
  | some disk => (some disk, disk)
  | none =>
    if !bDestExists then (none, disk)
    else
      match remove env.removeDest disk sCopyFile with
      | none => (none, disk)
      | some disk =>
        match renameFile env.renameAgain disk sPart sCopyFile with
        | none => (none, disk)
        | some disk => (some disk, disk)

def dropSmallPart (disk : Store String) (sCopyFile : String) : Store String :=
  let sPart := partName sCopyFile
  if fileExists disk sPart && size disk sPart < env.DEFAULT_MINIMUM_KEEP_SIZE then
    (remove env.removeSmall disk sPart).getD disk
  else disk

def setModified (disk : Store String) (sCopyFile : String) : Store String :=
  match env.modified with
  | some mtime =>
    if fileExists disk sCopyFile && env.openForTime then
      (disk.setAttrs sCopyFile fun a => { a with mtime := mtime }).getD disk
    else disk
  | none => disk

/-- The permissions go through `QFile`, which has no set-user, set-group and sticky bits. The
result is `some pass` when they cannot be set. -/
def setFinalPermissions (disk : Store String) (sCopyFile : String) (permissions : Option ℕ)
    (initialMode : ℕ) : Option WorkerResult × Store String :=
  match permissions with
  | some perms =>
    if perms ≠ initialMode ∧ fileExists disk sCopyFile then
      if env.setPermissions then (none, (disk.chmod sCopyFile (perms % 0o1000)).getD disk)
      else (some .pass, disk)
    else (none, disk)
  | none => (none, disk)

/-- What `sftpCopyGet` does after `sftpGet` and the close of the file. -/
def conclude (sCopyFile : String) (bDestExists : Bool) (permissions : Option ℕ) (initialMode : ℕ)
    (get : Got WorkerResult) : Copied :=
  let error := if get.result.success && !env.close then .fail .ERR_CANNOT_WRITE sCopyFile
    else get.result
  let (error, disk, renamed) :=
    if env.MarkPartial then
      if get.result.success then
        match install env get.disk sCopyFile bDestExists with
        | (some _, disk) => (error, disk, true)
        | (none, disk) => (.fail .ERR_CANNOT_RENAME_PARTIAL sCopyFile, disk, false)
      else (error, dropSmallPart env get.disk sCopyFile, false)
    else (error, get.disk, false)
  let disk := setModified env disk sCopyFile
  let (swallowed, disk) := setFinalPermissions env disk sCopyFile permissions initialMode
  ⟨swallowed.getD error, disk, renamed, get.signals⟩

/-- All permissions when none are asked for, and the write permission of the owner always. -/
def initialMode (permissions : Option ℕ) : ℕ :=
  (permissions.map fun perms => perms ||| owner_write).getD DEFAULT_FILE_PERMISSIONS

def sftpCopyGet (remote disk : Store String) (url : Url) (sCopyFile : String) (permissionsMode : ℤ)
    (flags : JobFlags) : Copied :=
  let permissions := modeToOptionalPerms permissionsMode
  let bDestExists := fileExists disk sCopyFile
  if bDestExists && isDir disk sCopyFile then
    ⟨.fail .ERR_IS_DIRECTORY sCopyFile, disk, false, []⟩
  else if bDestExists && !flags.Overwrite then
    ⟨.fail .ERR_FILE_ALREADY_EXIST sCopyFile, disk, false, []⟩
  else
    let sPart := partName sCopyFile
    let bPartExists := fileExists disk sPart
    let dest := if env.MarkPartial then sPart else sCopyFile
    if env.MarkPartial && bPartExists && isDir disk sPart then
      ⟨.fail .ERR_FILE_ALREADY_EXIST sCopyFile, disk, false, []⟩
    else
      let bResume := env.MarkPartial && bPartExists && decide (0 < size disk sPart) &&
        env.canResume (size disk sCopyFile)
      let disk := dropUnwantedPart env disk sCopyFile bResume
      match openOutput env disk sCopyFile dest bResume (initialMode permissions) with
      | .error result => ⟨result, disk, false, []⟩
      | .ok (fd, offset, disk) =>
        conclude env sCopyFile bDestExists permissions (initialMode permissions)
          (sftpGet env.toGetEnv remote url offset (some fd) disk)

/-- An environment in which nothing goes wrong and the application agrees to resume. -/
def quiet : Env where
  login := .pass
  sftp_stat := none
  sftp_open := true
  sftp_read := true
  sftp_seek64 := true
  resume := none
  server := ⟨some 32768, fun _ => true, fun _ => some 32768⟩
  wasKilled _ := false
  write _ := []
  MarkPartial := true
  canResume _ := true
  removePart := true
  openFile := none
  lseek := true
  fresh mode := ⟨mode, 1000, 1000, 0, 0⟩
  close := true
  rename := true
  removeDest := true
  renameAgain := true
  removeSmall := true
  modified := none
  openForTime := true
  setPermissions := true
  DEFAULT_MINIMUM_KEEP_SIZE := 5000

/-! ### After the transfer -/

section after

variable {env : Env} {disk : Store String} {sCopyFile : String}

variable {q : String} {k k' : Kind String}

lemma remove_ne {ok : Bool} {p : String} (hq : q ≠ p) :
    ((remove ok disk p).getD disk) q = disk q := by
  unfold remove
  split_ifs
  · cases h : disk.unlink p with
    | none => rfl
    | some t => exact Store.unlink_ne h hq
  · rfl

lemma setModified_kindAt (q : String) :
    (setModified env disk sCopyFile).kindAt q = disk.kindAt q := by
  unfold setModified
  split
  · split_ifs
    · exact Store.getD_setAttrs_kindAt _ _ _ _
    · rfl
  · rfl

lemma setFinalPermissions_kindAt (permissions : Option ℕ) (initialMode : ℕ) (q : String) :
    (setFinalPermissions env disk sCopyFile permissions initialMode).2.kindAt q =
      disk.kindAt q := by
  unfold setFinalPermissions
  split
  · split_ifs
    · exact Store.getD_setAttrs_kindAt _ _ _ _
    · rfl
    · rfl
  · rfl

lemma setFinalPermissions_none (h : env.setPermissions = true) (permissions : Option ℕ)
    (initialMode : ℕ) :
    (setFinalPermissions env disk sCopyFile permissions initialMode).1 = none := by
  unfold setFinalPermissions
  split
  · split_ifs <;> rfl
  · rfl

lemma dropSmallPart_ne (hq : q ≠ partName sCopyFile) :
    dropSmallPart env disk sCopyFile q = disk q := by
  unfold dropSmallPart
  split_ifs
  · exact remove_ne hq
  · rfl

/-- The calls on the local files that the claims about a transfer do not let fail. -/
structure Reliable (env : Env) : Prop where
  removePart : env.removePart = true
  rename : env.rename = true
  removeDest : env.removeDest = true
  renameAgain : env.renameAgain = true
  setPermissions : env.setPermissions = true
  sftp_seek64 : env.sftp_seek64 = true

/-- A destination that is a link to nothing: it has an entry, but does not exist. -/
def Dangling (disk : Store String) (sCopyFile : String) : Prop :=
  disk.kindAt sCopyFile ≠ none ∧ fileExists disk sCopyFile = false

lemma install_moves {bDestExists : Bool} (hr : Reliable env)
    (hpart : disk.kindAt (partName sCopyFile) = some k) (hdest : disk.kindAt sCopyFile = none ∨
      bDestExists = true ∧ ∃ k', disk.kindAt sCopyFile = some k' ∧ k'.isDir = false) :
    ∃ t, install env disk sCopyFile bDestExists = (some t, t) ∧ t.kindAt sCopyFile = some k := by
  have hne := partName_ne sCopyFile
  rcases hdest with hnone | ⟨rfl, k', hk', hdir⟩
  · obtain ⟨t, ht, htk, -, -⟩ := Store.renameNew_of_none hpart hnone hne
    exact ⟨t, by simp [install, renameFile, hr.rename, ht], htk⟩
  · have hfree : Store.kindAt (Function.update disk sCopyFile none) sCopyFile = none := by
      simp [Store.kindAt]
    have hpart' : Store.kindAt (Function.update disk sCopyFile none) (partName sCopyFile) =
        some k := by
      simpa [Store.kindAt, Function.update_of_ne hne] using hpart
    obtain ⟨t, ht, htk, -, -⟩ := Store.renameNew_of_none hpart' hfree hne
    refine ⟨t, ?_, htk⟩
    simp [install, renameFile, remove, hr.rename, hr.removeDest, hr.renameAgain,
      Store.renameNew_of_some hk', Store.unlink_of_kindAt hk' hdir, ht]

lemma install_refuses (hk' : disk.kindAt sCopyFile = some k') :
    install env disk sCopyFile false = (none, disk) := by
  have h : renameFile env.rename disk (partName sCopyFile) sCopyFile = none := by
    simp [renameFile, Store.renameNew_of_some hk']
  simp [install, h]

variable {bDestExists : Bool} {permissions : Option ℕ} {initialMode : ℕ} {g : Got WorkerResult}

lemma conclude_failed (hm : env.MarkPartial = true) (hr : Reliable env)
    (hg : g.result.success = false) :
    (conclude env sCopyFile bDestExists permissions initialMode g).renamed = false ∧
      (conclude env sCopyFile bDestExists permissions initialMode g).result.success = false ∧
      (conclude env sCopyFile bDestExists permissions initialMode g).disk.kindAt sCopyFile =
        g.disk.kindAt sCopyFile := by
  refine ⟨by simp [conclude, hm, hg], ?_, ?_⟩
  · simp [conclude, hm, hg, setFinalPermissions_none hr.setPermissions]
  · simp only [conclude, hm, hg, if_true, Bool.false_eq_true, if_false]
    rw [setFinalPermissions_kindAt, setModified_kindAt]
    simp [Store.kindAt, dropSmallPart_ne (partName_ne sCopyFile).symm]

lemma conclude_installed (permissions : Option ℕ) (initialMode : ℕ) (hm : env.MarkPartial = true)
    (hr : Reliable env) (hg : g.result = .pass)
    (hpart : g.disk.kindAt (partName sCopyFile) = some k) (hdest : g.disk.kindAt sCopyFile = none ∨
      bDestExists = true ∧ ∃ k', g.disk.kindAt sCopyFile = some k' ∧ k'.isDir = false) :
    (conclude env sCopyFile bDestExists permissions initialMode g).renamed = true ∧
      (conclude env sCopyFile bDestExists permissions initialMode g).result.success = env.close ∧
      (conclude env sCopyFile bDestExists permissions initialMode g).disk.kindAt sCopyFile =
        some k := by
  obtain ⟨t, ht, htk⟩ := install_moves hr hpart hdest
  refine ⟨by simp [conclude, hm, hg, ht], ?_, ?_⟩
  · cases hc : env.close <;>
      simp [conclude, hm, hg, ht, setFinalPermissions_none hr.setPermissions, hc]
  · simp only [conclude, hm, hg, ht, if_true, WorkerResult.success_pass]
    rw [setFinalPermissions_kindAt, setModified_kindAt, htk]

lemma conclude_dangling (hm : env.MarkPartial = true) (hr : Reliable env)
    (hk' : g.disk.kindAt sCopyFile = some k') :
    (conclude env sCopyFile false permissions initialMode g).renamed = false ∧
      (conclude env sCopyFile false permissions initialMode g).result.success = false ∧
      (conclude env sCopyFile false permissions initialMode g).disk.kindAt sCopyFile =
        g.disk.kindAt sCopyFile := by
  cases hg : g.result with
  | fail error text => exact conclude_failed hm hr (by simp [hg])
  | pass =>
    have hi : install env g.disk sCopyFile false = (none, g.disk) := install_refuses hk'
    refine ⟨by simp [conclude, hm, hg, hi], ?_, ?_⟩
    · simp [conclude, hm, hg, hi, setFinalPermissions_none hr.setPermissions]
    · simp only [conclude, hm, hg, hi, if_true, WorkerResult.success_pass]
      rw [setFinalPermissions_kindAt, setModified_kindAt]

lemma conclude_unmarked (hm : env.MarkPartial = false) (hc : env.close = true)
    (hp : env.setPermissions = true) (q : String) :
    (conclude env sCopyFile bDestExists permissions initialMode g).result = g.result ∧
      (conclude env sCopyFile bDestExists permissions initialMode g).disk.kindAt q =
        g.disk.kindAt q := by
  refine ⟨by simp [conclude, hm, hc, setFinalPermissions_none hp], ?_⟩
  simp only [conclude, hm, Bool.false_eq_true, if_false]
  rw [setFinalPermissions_kindAt, setModified_kindAt]

end after

/-! ### Opening the output file -/

section opening

variable {env : Env} {remote disk : Store String} {url : Url} {sCopyFile : String}
  {permissionsMode : ℤ} {flags : JobFlags}

def partData (disk : Store String) (sCopyFile : String) : List UInt8 :=
  ((disk.kindAt (partName sCopyFile)).bind Kind.data).getD []

/-- What the `.part` file holds when the transfer goes on behind it. -/
def resumed (env : Env) (disk : Store String) (sCopyFile : String) : List UInt8 :=
  if env.canResume (size disk sCopyFile) then partData disk sCopyFile else []

/-- With `MarkPartial` on, the call ends before it asks the server for anything. -/
def Refused (env : Env) (disk : Store String) (sCopyFile : String) (flags : JobFlags) : Prop :=
  isDir disk sCopyFile = true ∨
    (fileExists disk sCopyFile = true ∧ flags.Overwrite = false) ∨
    isDir disk (partName sCopyFile) = true ∨ env.openFile ≠ none ∨
    (resumed env disk sCopyFile ≠ [] ∧ env.lseek = false)

variable {p : String}

lemma isDir_exists (h : isDir disk p = true) : fileExists disk p = true := by
  unfold isDir at h
  unfold fileExists
  cases hs : disk.stat p with
  | none => simp [hs] at h
  | some n => rfl

lemma size_eq (h : disk.linkAt p = none) :
    size disk p = (((disk.kindAt p).bind Kind.data).getD []).length := by
  rw [size, Store.stat_of_linkAt h, Store.kindAt]
  rcases disk p with _ | ⟨_ | _ | _ | _, _⟩ <;> simp [Kind.size, Kind.data]

lemma fileExists_eq (h : disk.linkAt p = none) : fileExists disk p = (disk.kindAt p).isSome := by
  rw [fileExists, Store.stat_of_linkAt h, Store.kindAt]
  cases disk p <;> rfl

lemma isDir_eq (h : disk.linkAt p = none) :
    isDir disk p = ((disk.kindAt p).map Kind.isDir).getD false := by
  rw [isDir, Store.stat_of_linkAt h, Store.kindAt]
  cases disk p <;> rfl

lemma bResume_eq (hlink : disk.linkAt (partName sCopyFile) = none) :
    (fileExists disk (partName sCopyFile) && decide (0 < size disk (partName sCopyFile)) &&
      env.canResume (size disk sCopyFile)) = decide (resumed env disk sCopyFile ≠ []) := by
  rw [fileExists_eq hlink, size_eq hlink]
  unfold resumed partData
  cases hk : disk.kindAt (partName sCopyFile) with
  | none => simp
  | some k =>
    cases hc : env.canResume (size disk sCopyFile) with
    | false => simp
    | true => simp [List.length_pos_iff]

lemma dropUnwantedPart_free (hlink : disk.linkAt (partName sCopyFile) = none)
    (hdir : isDir disk (partName sCopyFile) = false) (hr : env.removePart = true) :
    (dropUnwantedPart env disk sCopyFile false).kindAt (partName sCopyFile) = none := by
  rw [isDir_eq hlink] at hdir
  simp only [dropUnwantedPart, fileExists_eq hlink]
  cases hk : disk.kindAt (partName sCopyFile) with
  | none => simpa using hk
  | some k =>
    have hkd : k.isDir = false := by simpa [hk] using hdir
    simp [remove, hr, Store.unlink_of_kindAt hk hkd, Store.kindAt]

lemma dropUnwantedPart_ne (bResume : Bool) (hp : p ≠ partName sCopyFile) :
    dropUnwantedPart env disk sCopyFile bResume p = disk p := by
  unfold dropUnwantedPart
  split_ifs
  · exact remove_ne hp
  · rfl

lemma dropUnwantedPart_keep : dropUnwantedPart env disk sCopyFile true = disk := by
  simp [dropUnwantedPart]

lemma openOutput_resumed (hlink : disk.linkAt (partName sCopyFile) = none)
    (h : resumed env disk sCopyFile ≠ []) (ho : env.openFile = none) (hs : env.lseek = true)
    (dest : String) (initialMode : ℕ) :
    ∃ fd, openOutput env disk sCopyFile dest true initialMode =
        .ok (fd, (resumed env disk sCopyFile).length, disk) ∧
      fd.path = partName sCopyFile ∧ disk.AtEnd fd (resumed env disk sCopyFile) := by
  unfold resumed partData at *
  split_ifs at * with hc
  · cases hk : disk.kindAt (partName sCopyFile) with
    | none => simp [hk] at h
    | some k =>
      cases k with
      | file data =>
        have hopen := Store.openExisting_of_file (Store.target_of_linkAt hlink) hk
        refine ⟨⟨partName sCopyFile, data.length⟩, ?_, rfl, hk, rfl⟩
        simp [openOutput, hopen, ho, hs, size_eq hlink, hk, Kind.data]
      | dir => simp [hk, Kind.data] at h
      | symlink t => simp [hk, Kind.data] at h
      | special => simp [hk, Kind.data] at h
  · exact absurd rfl h

lemma openOutput_fresh {q dest : String} (sCopyFile : String) (ht : disk.target dest = some q)
    (hk : disk.kindAt q = none ∨ ∃ data, disk.kindAt q = some (.file data))
    (ho : env.openFile = none) (initialMode : ℕ) :
    ∃ t, openOutput env disk sCopyFile dest false initialMode = .ok (⟨q, 0⟩, 0, t) ∧
      t.AtEnd ⟨q, 0⟩ [] ∧ ∀ r, r ≠ q → t r = disk r := by
  obtain ⟨t, hopen, hend, hframe⟩ :=
    Store.openTruncate_atEnd (env.fresh initialMode) ht hk
  exact ⟨t, by simp [openOutput, ho, hopen], hend, hframe⟩

lemma openOutput_resume_fails (h : env.openFile ≠ none ∨ env.lseek = false) (dest : String)
    (initialMode : ℕ) :
    openOutput env disk sCopyFile dest true initialMode =
      .error (.fail .ERR_CANNOT_RESUME sCopyFile) := by
  have hflags : (env.openFile.isNone && env.lseek) = false := by
    rcases h with h | h
    · simp [h]
    · simp [h]
  unfold openOutput
  simp only [if_true, hflags]
  split <;> rfl

lemma openOutput_fresh_fails (disk : Store String) (sCopyFile : String) (h : env.openFile ≠ none) (dest : String) (initialMode : ℕ) :
    ∃ error, openOutput env disk sCopyFile dest false initialMode =
      .error (.fail error sCopyFile) := by
  unfold openOutput
  simp only [Bool.false_eq_true, if_false]
  split
  · exact absurd ‹_› h
  · exact ⟨_, rfl⟩
  · exact ⟨_, rfl⟩

lemma marked_refused (remote : Store String) (url : Url) (permissionsMode : ℤ) (hm : env.MarkPartial = true)
    (hlink : disk.linkAt (partName sCopyFile) = none) (h : Refused env disk sCopyFile flags) :
    ∃ error d, sftpCopyGet env remote disk url sCopyFile permissionsMode flags =
        ⟨.fail error sCopyFile, d, false, []⟩ ∧ d.kindAt sCopyFile = disk.kindAt sCopyFile := by
  have hne := partName_ne sCopyFile
  by_cases hdir : isDir disk sCopyFile = true
  · exact ⟨.ERR_IS_DIRECTORY, disk, by simp [sftpCopyGet, hdir, isDir_exists hdir], rfl⟩
  by_cases hex : fileExists disk sCopyFile = true ∧ flags.Overwrite = false
  · exact ⟨.ERR_FILE_ALREADY_EXIST, disk, by simp [sftpCopyGet, hdir, hex], rfl⟩
  have hpass : (fileExists disk sCopyFile && !flags.Overwrite) = false := by simpa using hex
  by_cases hpart : isDir disk (partName sCopyFile) = true
  · exact ⟨.ERR_FILE_ALREADY_EXIST, disk,
      by simp [sftpCopyGet, hdir, hpass, hm, hpart, isDir_exists hpart], rfl⟩
  have hopen : env.openFile ≠ none ∨ (resumed env disk sCopyFile ≠ [] ∧ env.lseek = false) := by
    rcases h with h | h | h | h
    · exact absurd h hdir
    · exact absurd h hex
    · exact absurd h hpart
    · exact h
  have hkeep : ∀ b, (dropUnwantedPart env disk sCopyFile b).kindAt sCopyFile =
      disk.kindAt sCopyFile := by
    intro b
    simp only [Store.kindAt, dropUnwantedPart_ne b hne.symm]
  by_cases hres : resumed env disk sCopyFile = []
  · have ho : env.openFile ≠ none := by
      rcases hopen with h | h
      · exact h
      · exact absurd hres h.1
    obtain ⟨error, herror⟩ := openOutput_fresh_fails
      (dropUnwantedPart env disk sCopyFile false) sCopyFile ho (partName sCopyFile)
      (initialMode (modeToOptionalPerms permissionsMode))
    refine ⟨error, _, ?_, hkeep false⟩
    simp only [sftpCopyGet, hdir, hpass, hm, hpart, Bool.and_false, Bool.false_eq_true, if_false,
      Bool.true_and, if_true, bResume_eq hlink, hres, ne_eq, not_true_eq_false, decide_false,
      herror]
  · have hfail : env.openFile ≠ none ∨ env.lseek = false := hopen.imp id And.right
    refine ⟨.ERR_CANNOT_RESUME, _, ?_, hkeep true⟩
    simp only [sftpCopyGet, hdir, hpass, hm, hpart, Bool.and_false, Bool.false_eq_true, if_false,
      Bool.true_and, if_true, bResume_eq hlink, hres, ne_eq, not_false_eq_true, decide_true,
      openOutput_resume_fails hfail]

lemma marked_opens (remote : Store String) (url : Url) (permissionsMode : ℤ) (hm : env.MarkPartial = true) (hr : env.removePart = true)
    (hlink : disk.linkAt (partName sCopyFile) = none) (h : ¬ Refused env disk sCopyFile flags) :
    ∃ fd disk', sftpCopyGet env remote disk url sCopyFile permissionsMode flags =
        conclude env sCopyFile (fileExists disk sCopyFile) (modeToOptionalPerms permissionsMode)
          (initialMode (modeToOptionalPerms permissionsMode)) (sftpGet env.toGetEnv remote url
            (resumed env disk sCopyFile).length (some fd) disk') ∧
      fd.path = partName sCopyFile ∧ disk'.AtEnd fd (resumed env disk sCopyFile) ∧
      ∀ p, p ≠ partName sCopyFile → disk' p = disk p := by
  simp only [Refused, not_or, not_and, Bool.not_eq_true, Bool.not_eq_false] at h
  obtain ⟨hdir, hex, hpart, ho, hseek⟩ := h
  have ho : env.openFile = none := by simpa using ho
  have hpass : (fileExists disk sCopyFile && !flags.Overwrite) = false := by
    cases hf : fileExists disk sCopyFile with
    | false => rfl
    | true => simp [hex hf]
  by_cases hres : resumed env disk sCopyFile = []
  · have hfree := dropUnwantedPart_free hlink hpart hr
    have htarget := Store.target_of_linkAt (Store.linkAt_none hfree)
    obtain ⟨t, hopen, hend, hframe⟩ := openOutput_fresh sCopyFile htarget (Or.inl hfree) ho
      (initialMode (modeToOptionalPerms permissionsMode))
    refine ⟨⟨partName sCopyFile, 0⟩, t, ?_, rfl, by simpa [hres] using hend, ?_⟩
    · simp only [sftpCopyGet, hdir, hpass, hm, hpart, Bool.and_false, Bool.false_eq_true, if_false,
        Bool.true_and, if_true, bResume_eq hlink, hres, ne_eq, not_true_eq_false, decide_false,
        hopen, List.length_nil]
    · intro p hp
      rw [hframe p hp, dropUnwantedPart_ne false hp]
  · obtain ⟨fd, hopen, hpath, hend⟩ := openOutput_resumed hlink hres ho (hseek hres)
      (partName sCopyFile) (initialMode (modeToOptionalPerms permissionsMode))
    refine ⟨fd, disk, ?_, hpath, hend, fun _ _ => rfl⟩
    simp only [sftpCopyGet, hdir, hpass, hm, hpart, Bool.and_false, Bool.false_eq_true, if_false,
      Bool.true_and, if_true, bResume_eq hlink, hres, ne_eq, not_false_eq_true, decide_true,
      dropUnwantedPart_keep, hopen]

end opening

/-! ### The destination is replaced by complete files only -/

section safe

open Lib.Poll

variable {env : Env} {remote disk : Store String} {url : Url} {sCopyFile : String}
  {permissionsMode : ℤ} {flags : JobFlags} {content pre : List UInt8}

/-- The destination is replaced only by the whole remote file, from a file that was closed
without an error; success is returned only then; else the destination keeps what it held. -/
structure Safe (env : Env) (remote disk : Store String) (url : Url) (sCopyFile : String)
    (c : Copied) : Prop where
  replaced : c.renamed = true → env.close = true ∧ ∃ content,
    remote.content url.path = some content ∧ c.disk.kindAt sCopyFile = some (.file content)
  success : c.result.success = true → c.renamed = true
  kept : c.renamed = false → c.disk.kindAt sCopyFile = disk.kindAt sCopyFile

/-- Something goes wrong with a response and the kill flag is down at every poll up to it. -/
def GoesWrong (env : GetEnv) (content : List UInt8) (start size : ℕ) : Prop :=
  ∃ j, Needed env size j ∧ Bad env content start size j ∧ ∀ i, i ≤ j → ¬ Killed env i

/-- All responses are written and the kill flag is down at every poll. -/
def GoesWell (env : GetEnv) (content : List UInt8) (start size : ℕ) : Prop :=
  ∀ i, Needed env size i → ¬ Killed env i ∧ ¬ Bad env content start size i

/-- The runs in which the destination is safe: the transfer is refused or fails; or the file is
closed without an error after a transfer that went well behind nothing or behind a proper prefix
of the remote file (or was killed before the first response when nothing was missing). -/
def SafeWhen (env : Env) (remote disk : Store String) (url : Url) (sCopyFile : String)
    (flags : JobFlags) : Prop :=
  Refused env disk sCopyFile flags ∨ Dangling disk sCopyFile ∨
    (∀ content, ¬ Opens env.toGetEnv remote url content) ∨
    ∃ content, Opens env.toGetEnv remote url content ∧
      let pre := resumed env disk sCopyFile
      let start := resumeStart env.toGetEnv content pre.length
      let size := content.length - start
      GoesWrong env.toGetEnv content start size ∨
        (env.close = true ∧
          ((GoesWell env.toGetEnv content start size ∧
              (pre = [] ∨ (pre.length < content.length ∧ pre <+: content))) ∨
            (pre = content ∧ Needed env.toGetEnv size 0 ∧ Killed env.toGetEnv 0)))

lemma complete_iff (hs : env.sftp_seek64 = true) :
    pre ++ content.drop (resumeStart env.toGetEnv content pre.length) = content ↔
      pre = [] ∨ (pre.length < content.length ∧ pre <+: content) := by
  unfold resumeStart
  by_cases hpre : pre = []
  · simp [hpre]
  · have hpos : 0 < pre.length := List.length_pos_of_ne_nil hpre
    by_cases hlt : pre.length < content.length
    · simp only [hpos, hlt, hs, and_self, if_true, hpre, false_or, true_and]
      constructor
      · intro h
        exact ⟨_, h⟩
      · rintro ⟨rest, rfl⟩
        simp
    · simp only [hlt, false_and, and_false, if_false, List.drop_zero, hpre, or_self, iff_false]
      intro h
      have := congrArg List.length h
      simp at this
      exact hpre this

lemma killed_complete_iff (hs : env.sftp_seek64 = true) {j : ℕ}
    (hn : Needed env.toGetEnv (content.length - resumeStart env.toGetEnv content pre.length) j)
    (hgood : ∀ i, i < j → ¬ Bad env.toGetEnv content
      (resumeStart env.toGetEnv content pre.length)
      (content.length - resumeStart env.toGetEnv content pre.length) i) :
    pre ++ got env.toGetEnv content (resumeStart env.toGetEnv content pre.length)
        (content.length - resumeStart env.toGetEnv content pre.length) j = content ↔
      pre = content ∧ j = 0 := by
  constructor
  · intro h
    by_cases hj : j = 0
    · subst hj
      simpa [got] using h
    · exfalso
      have hm : env.server.max_read_length ≠ none := by
        intro hm
        simp [Needed, hm, hj] at hn
      have hc : 0 < chunkSize env.server := by
        rcases Nat.eq_zero_or_pos (chunkSize env.server) with hc | hc
        · refine absurd (Or.inr (Or.inl (Or.inr (Or.inr ⟨rfl, 0, by decide, ?_, Or.inl hc⟩))))
            (hgood 0 (by omega))
          simp only [Needed, hm, if_false, hc, Nat.mul_zero] at hn
          simpa [hc] using hn
        · exact hc
      simp only [Needed, hm, if_false] at hn
      have hpos : 0 < j * chunkSize env.server := Nat.mul_pos (by omega) hc
      have hlen := congrArg List.length h
      simp only [List.length_append, got, List.length_take, List.length_drop] at hlen
      unfold resumeStart at *
      split_ifs at * with hcond
      · omega
      · have hpre : pre.length = 0 ∨ content.length ≤ pre.length := by
          by_contra hno
          exact hcond ⟨by omega, by omega, hs⟩
        omega
  · rintro ⟨rfl, rfl⟩
    simp [got]

variable {c : Copied} {bDestExists : Bool} {g : Got WorkerResult} {permissions : Option ℕ}

lemma safe_installed (ho : Opens env.toGetEnv remote url content) (hren : c.renamed = true)
    (hkind : c.disk.kindAt sCopyFile = some (.file pre)) :
    Safe env remote disk url sCopyFile c ↔ env.close = true ∧ pre = content := by
  constructor
  · intro h
    obtain ⟨hclose, content', hcontent, hk⟩ := h.replaced hren
    refine ⟨hclose, ?_⟩
    rw [hkind, Option.some.injEq, Kind.file.injEq] at hk
    rw [ho.content, Option.some.injEq] at hcontent
    rw [hk, hcontent]
  · rintro ⟨hclose, rfl⟩
    exact ⟨fun _ => ⟨hclose, pre, ho.content, hkind⟩, fun _ => hren, by simp [hren]⟩

lemma safe_kept (hren : c.renamed = false) (hres : c.result.success = false)
    (hkind : c.disk.kindAt sCopyFile = disk.kindAt sCopyFile) :
    Safe env remote disk url sCopyFile c :=
  ⟨by simp [hren], by simp [hres], fun _ => hkind⟩

lemma safe_of_failed {initialMode : ℕ} (hm : env.MarkPartial = true) (hr : Reliable env)
    (hg : g.result.success = false) (hk : g.disk.kindAt sCopyFile = disk.kindAt sCopyFile) :
    Safe env remote disk url sCopyFile
      (conclude env sCopyFile bDestExists permissions initialMode g) := by
  obtain ⟨hren, hres, hkind⟩ := conclude_failed hm hr hg
  exact safe_kept hren hres (hkind.trans hk)

lemma safe_of_dangling {initialMode : ℕ} (hm : env.MarkPartial = true) (hr : Reliable env)
    (hk : g.disk.kindAt sCopyFile = disk.kindAt sCopyFile) (hd : Dangling disk sCopyFile) :
    Safe env remote disk url sCopyFile
      (conclude env sCopyFile false permissions initialMode g) := by
  obtain ⟨k', hk'⟩ := Option.ne_none_iff_exists'.mp hd.1
  obtain ⟨hren, hres, hkind⟩ := conclude_dangling hm hr (hk.trans hk')
  exact safe_kept hren hres (hkind.trans hk)

lemma safe_conclude_iff {initialMode : ℕ} (hm : env.MarkPartial = true) (hr : Reliable env)
    (ho : Opens env.toGetEnv remote url content) (hg : g.result = .pass)
    (hpart : g.disk.kindAt (partName sCopyFile) = some (.file pre))
    (hdest : g.disk.kindAt sCopyFile = none ∨
      bDestExists = true ∧ ∃ k', g.disk.kindAt sCopyFile = some k' ∧ k'.isDir = false) :
    Safe env remote disk url sCopyFile
        (conclude env sCopyFile bDestExists permissions initialMode g) ↔
      env.close = true ∧ pre = content := by
  obtain ⟨hren, -, hkind⟩ := conclude_installed permissions initialMode hm hr hg hpart hdest
  exact safe_installed ho hren hkind

lemma replaceable (hd : ¬ Dangling disk sCopyFile) (hr : ¬ Refused env disk sCopyFile flags) :
    disk.kindAt sCopyFile = none ∨ fileExists disk sCopyFile = true ∧
      ∃ k', disk.kindAt sCopyFile = some k' ∧ k'.isDir = false := by
  cases hk : disk.kindAt sCopyFile with
  | none => exact Or.inl rfl
  | some k =>
    refine Or.inr ⟨?_, k, rfl, ?_⟩
    · by_contra hex
      exact hd ⟨by simp [hk], by simpa using hex⟩
    · cases k with
      | dir =>
        refine absurd (Or.inl ?_) hr
        rw [isDir_eq (by simp [Store.linkAt, hk, Kind.link])]
        simp [hk, Kind.isDir]
      | file data => rfl
      | symlink t => rfl
      | special => rfl

lemma quiet_reliable : Reliable quiet := ⟨rfl, rfl, rfl, rfl, rfl, rfl⟩

end safe

/-! ### Without failures the copy is complete -/

section complete

open Lib.Poll Read

variable {env : Env} {remote disk : Store String} {url : Url} {sCopyFile : String}
  {permissionsMode : ℤ} {flags : JobFlags} {content pre : List UInt8}

/-- Every call to the server and to the local file system succeeds and no kill arrives. An
answer may carry fewer bytes than it was asked for. -/
structure Succeeds (env : Env) : Prop extends Reliable env where
  login : env.login = .pass
  sftp_stat : env.sftp_stat = none
  sftp_open : env.sftp_open = true
  sftp_read : env.sftp_read = true
  max_read_length : ∃ m, env.server.max_read_length = some m ∧ 0 < m
  begin_read : ∀ k, env.server.begin_read k = true
  wait_read : ∀ k, env.server.wait_read k ≠ none
  wasKilled : ∀ k, env.wasKilled k = false
  write : ∀ k buf, (writeToFile (env.write k) buf).2 = none
  openFile : env.openFile = none
  lseek : env.lseek = true
  close : env.close = true

/-- The whole remote file is already in the `.part` file, the application agrees to resume, the
destination can be replaced and the server answers every request in full. -/
structure Duplicates (env : Env) (disk : Store String) (sCopyFile : String) (flags : JobFlags)
    (content : List UInt8) : Prop where
  MarkPartial : env.MarkPartial = true
  part : disk.kindAt (partName sCopyFile) = some (.file content)
  nonempty : content ≠ []
  canResume : env.canResume (size disk sCopyFile) = true
  dest : disk.kindAt sCopyFile = none ∨
    (fileExists disk sCopyFile = true ∧ isDir disk sCopyFile = false ∧ flags.Overwrite = true)
  full : ∀ k, k * chunkSize env.server < content.length →
    Full env.server content 0 content.length (chunkSize env.server) k

/-- The `.part` file is absent or holds a prefix of the remote file. -/
def PartOf (disk : Store String) (sCopyFile : String) (content : List UInt8) : Prop :=
  disk.kindAt (partName sCopyFile) = none ∨
    ∃ pre, disk.kindAt (partName sCopyFile) = some (.file pre) ∧ pre <+: content

lemma PartOf.linkAt (h : PartOf disk sCopyFile content) :
    disk.linkAt (partName sCopyFile) = none := by
  rcases h with h | ⟨pre, h, -⟩
  · exact Store.linkAt_none h
  · exact Store.linkAt_file h

lemma PartOf.resumed_prefix (h : PartOf disk sCopyFile content) :
    resumed env disk sCopyFile <+: content := by
  unfold resumed partData
  split_ifs
  · rcases h with h | ⟨pre, h, hpre⟩
    · simp [h]
    · simpa [h, Kind.data] using hpre
  · exact List.nil_prefix

lemma Succeeds.opens (hs : Succeeds env) (h : remote.content url.path = some content) :
    Opens env.toGetEnv remote url content :=
  ⟨hs.login, hs.sftp_stat, h, hs.sftp_open, hs.sftp_read⟩

lemma Succeeds.chunkSize_pos (hs : Succeeds env) : 0 < chunkSize env.server := by
  obtain ⟨m, hm, hpos⟩ := hs.max_read_length
  simp only [chunkSize, hm, Option.getD_some]
  unfold MAX_XFER_BUF_SIZE
  omega

lemma Succeeds.needed_iff (hs : Succeeds env) (size k : ℕ) :
    Needed env.toGetEnv size k ↔ k * chunkSize env.server < size := by
  obtain ⟨m, hm, -⟩ := hs.max_read_length
  simp [Needed, hm]

lemma Succeeds.bad_iff (hs : Succeeds env) (start size k : ℕ) :
    Bad env.toGetEnv content start size k ↔
      ¬ Full env.server content start size (chunkSize env.server) k := by
  obtain ⟨m, hm, -⟩ := hs.max_read_length
  have hunsent : ∀ j, ¬ Unsent env.server size (chunkSize env.server) j := by
    rintro j ⟨-, hc | hb⟩
    · have := hs.chunkSize_pos
      omega
    · simp [hs.begin_read j] at hb
  constructor
  · rintro (h | (h | h | ⟨-, j, -, h⟩) | h)
    · simp [hm] at h
    · exact h
    · exact absurd h (hunsent _)
    · exact absurd h (hunsent j)
    · exact absurd (hs.write k _) h
  · exact fun h => Or.inr (Or.inl (Or.inl h))

lemma Duplicates.resumed_eq (h : Duplicates env disk sCopyFile flags content) :
    resumed env disk sCopyFile = content := by
  simp [resumed, h.canResume, partData, h.part, Kind.data]

lemma Duplicates.not_refused (hs : Succeeds env) (h : Duplicates env disk sCopyFile flags content) :
    ¬ Refused env disk sCopyFile flags := by
  have hpart : isDir disk (partName sCopyFile) = false := by
    rw [isDir_eq (Store.linkAt_file h.part)]
    simp [h.part, Kind.isDir]
  rintro (href | ⟨hex, how⟩ | href | href | ⟨-, href⟩)
  · rcases h.dest with hd | ⟨-, hd, -⟩
    · rw [isDir_eq (Store.linkAt_none hd)] at href
      simp [hd] at href
    · simp [hd] at href
  · rcases h.dest with hd | ⟨-, -, hd⟩
    · rw [fileExists_eq (Store.linkAt_none hd)] at hex
      simp [hd] at hex
    · simp [hd] at how
  · simp [hpart] at href
  · exact href hs.openFile
  · simp [hs.lseek] at href

lemma Duplicates.not_dangling (h : Duplicates env disk sCopyFile flags content) :
    ¬ Dangling disk sCopyFile := by
  rintro ⟨h1, h2⟩
  rcases h.dest with hd | ⟨hd, -, -⟩
  · exact h1 hd
  · simp [hd] at h2

lemma resumeStart_self : resumeStart env.toGetEnv content content.length = 0 := by
  simp [resumeStart]

lemma duplicates_of_whole (hm : env.MarkPartial = true) (hpart : PartOf disk sCopyFile content)
    (href : ¬ Refused env disk sCopyFile flags) (hdang : ¬ Dangling disk sCopyFile)
    (hne : resumed env disk sCopyFile ≠ []) (hwhole : resumed env disk sCopyFile = content)
    (hfull : ∀ k, k * chunkSize env.server < content.length -
        resumeStart env.toGetEnv content (resumed env disk sCopyFile).length →
      Full env.server content (resumeStart env.toGetEnv content
          (resumed env disk sCopyFile).length)
        (content.length - resumeStart env.toGetEnv content (resumed env disk sCopyFile).length)
        (chunkSize env.server) k) : Duplicates env disk sCopyFile flags content := by
  have hkeep : env.canResume (size disk sCopyFile) = true ∧
      disk.kindAt (partName sCopyFile) = some (.file content) := by
    unfold resumed partData at hne hwhole
    split_ifs at hne hwhole with hc
    · rcases hpart with h | ⟨pre, h, -⟩
      · simp [h] at hne
      · exact ⟨hc, by simpa [h, Kind.data] using hwhole⟩
    · exact absurd rfl hne
  refine ⟨hm, hkeep.2, hwhole ▸ hne, hkeep.1, ?_, ?_⟩
  · rcases replaceable hdang href with hd | ⟨hd, -⟩
    · exact Or.inl hd
    · simp only [Refused, not_or, not_and, Bool.not_eq_true, Bool.not_eq_false] at href
      exact Or.inr ⟨hd, href.1, href.2.1 hd⟩
  · intro k hk
    rw [hwhole, resumeStart_self, Nat.sub_zero] at hfull
    exact hfull k hk

lemma marked_complete_iff (hm : env.MarkPartial = true) (hs : Succeeds env)
    (hcontent : remote.content url.path = some content) (hpart : PartOf disk sCopyFile content) :
    ((sftpCopyGet env remote disk url sCopyFile permissionsMode flags).result.success = true →
        (sftpCopyGet env remote disk url sCopyFile permissionsMode flags).disk.content sCopyFile =
          some content) ↔ ¬ Duplicates env disk sCopyFile flags content := by
  by_cases href : Refused env disk sCopyFile flags
  · obtain ⟨error, d, heq, -⟩ := marked_refused remote url permissionsMode hm hpart.linkAt href
    rw [heq]
    exact iff_of_true (by simp) fun hd => hd.not_refused hs href
  obtain ⟨fd, disk', heq, hpath, hend, hframe⟩ :=
    marked_opens remote url permissionsMode hm hs.removePart hpart.linkAt href
  rw [heq, sftpGet_opens (hs.opens hcontent)]
  obtain ⟨o, hends, hdelivers, hgframe⟩ := getContent_ends env.toGetEnv url content
    (resumed env disk sCopyFile).length hend
  have hne : sCopyFile ≠ fd.path := by rw [hpath]; exact (partName_ne sCopyFile).symm
  have hgdest := (Store.kindAt_of_eq (hgframe sCopyFile hne)).trans
    (Store.kindAt_of_eq (hframe _ (partName_ne sCopyFile).symm))
  by_cases hdang : Dangling disk sCopyFile
  · rw [hdang.2]
    obtain ⟨k', hk'⟩ := Option.ne_none_iff_exists'.mp hdang.1
    refine iff_of_true (fun h => ?_) fun hd => hd.not_dangling hdang
    rw [(conclude_dangling hm hs.toReliable (hgdest.trans hk')).2.1] at h
    cases h
  have hdown := needed_down env.toGetEnv (content.length - resumeStart env.toGetEnv content
    (resumed env disk sCopyFile).length)
  cases o with
  | failed j =>
    obtain ⟨⟨error, hres⟩, -⟩ := hdelivers
    obtain ⟨-, hn, hb, -⟩ := hends.of_failed
    refine iff_of_true (fun h => ?_) fun hd => ?_
    · rw [(conclude_failed hm hs.toReliable (by simp [hres])).2.1] at h
      cases h
    · rw [hd.resumed_eq, resumeStart_self, Nat.sub_zero] at hn hb
      exact (hs.bad_iff 0 _ _).mp hb (hd.full j ((hs.needed_iff _ _).mp hn))
  | killed j =>
    obtain ⟨-, -, hk, -⟩ := hends.of_killed
    simp [Killed, hs.wasKilled j] at hk
  | completed =>
    obtain ⟨hres, hkind⟩ := hdelivers
    have hrepl := replaceable hdang href
    rw [← hgdest] at hrepl
    obtain ⟨-, hsuccess, hdest⟩ := conclude_installed (modeToOptionalPerms permissionsMode)
      (initialMode (modeToOptionalPerms permissionsMode)) hm hs.toReliable hres (hpath ▸ hkind)
      hrepl
    rw [hsuccess, hs.close, Store.content_of_file hdest, Option.some.injEq,
      complete_iff hs.sftp_seek64]
    simp only [true_imp_iff]
    constructor
    · intro h hd
      rw [hd.resumed_eq] at h
      rcases h with h | h
      · exact hd.nonempty h
      · exact Nat.lt_irrefl _ h.1
    · intro hnot
      by_contra hcon
      simp only [not_or, not_and] at hcon
      refine hnot (duplicates_of_whole hm hpart href hdang hcon.1 ?_ ?_)
      · have hpre : resumed env disk sCopyFile <+: content := hpart.resumed_prefix
        exact hpre.eq_of_length_le (Nat.not_lt.mp fun hlt => hcon.2 hlt hpre)
      · intro k hk
        by_contra hfull
        have hb := (hends.of_completed hdown k (Nat.zero_le _) ((hs.needed_iff _ _).mpr hk)).2
        exact hb ((hs.bad_iff _ _ _).mpr hfull)

lemma writable {q : String} (ht : disk.target sCopyFile = some q)
    (hdir : isDir disk sCopyFile = false)
    (hspecial : (disk.stat sCopyFile).map Node.kind ≠ some .special) :
    disk.kindAt q = none ∨ ∃ data, disk.kindAt q = some (.file data) := by
  have hstat : disk.stat sCopyFile = disk q := by simp [Store.stat, ht]
  have hlink := Store.target_linkAt ht
  unfold isDir at hdir
  rw [hstat] at hdir hspecial
  unfold Store.linkAt Store.kindAt at hlink
  unfold Store.kindAt
  rcases hq : disk q with _ | ⟨data | _ | _ | _, a⟩
  · exact Or.inl rfl
  · exact Or.inr ⟨data, rfl⟩
  · simp [hq, Kind.isDir] at hdir
  · simp [hq, Kind.link] at hlink
  · simp [hq] at hspecial

lemma unmarked_complete (hm : env.MarkPartial = false) (hs : Succeeds env)
    (hcontent : remote.content url.path = some content) (hpart : PartOf disk sCopyFile content)
    (hdest : (disk.stat sCopyFile).map Node.kind ≠ some .special)
    (h : (sftpCopyGet env remote disk url sCopyFile permissionsMode flags).result.success = true) :
    (sftpCopyGet env remote disk url sCopyFile permissionsMode flags).disk.content sCopyFile =
      some content := by
  by_cases hdir : isDir disk sCopyFile = true
  · simp [sftpCopyGet, hdir, isDir_exists hdir] at h
  by_cases hex : fileExists disk sCopyFile = true ∧ flags.Overwrite = false
  · simp [sftpCopyGet, hdir, hex] at h
  have hpass : (fileExists disk sCopyFile && !flags.Overwrite) = false := by simpa using hex
  have hpartdir : isDir disk (partName sCopyFile) = false := by
    rw [isDir_eq hpart.linkAt]
    rcases hpart with hp | ⟨pre, hp, -⟩ <;> simp [hp, Kind.isDir]
  have hfree := dropUnwantedPart_free hpart.linkAt hpartdir hs.removePart
  have hlinks : ∀ p, (dropUnwantedPart env disk sCopyFile false).linkAt p = disk.linkAt p := by
    intro p
    by_cases hp : p = partName sCopyFile
    · subst hp
      rw [Store.linkAt_none hfree, hpart.linkAt]
    · exact Store.linkAt_of_kindAt (Store.kindAt_of_eq (dropUnwantedPart_ne false hp))
  cases htarget : (dropUnwantedPart env disk sCopyFile false).target sCopyFile with
  | none =>
    simp [sftpCopyGet, hdir, hpass, hm, openOutput, hs.openFile, Store.openTruncate, htarget] at h
  | some q =>
    have hq : (dropUnwantedPart env disk sCopyFile false).kindAt q = none ∨
        ∃ data, (dropUnwantedPart env disk sCopyFile false).kindAt q = some (.file data) := by
      by_cases hqp : q = partName sCopyFile
      · exact Or.inl (hqp ▸ hfree)
      · rw [Store.kindAt_of_eq (dropUnwantedPart_ne false hqp)]
        rw [Store.target_congr hlinks] at htarget
        exact writable htarget (by simpa using hdir) hdest
    obtain ⟨t, hopen, hend, hframe⟩ := openOutput_fresh sCopyFile htarget hq hs.openFile
      (initialMode (modeToOptionalPerms permissionsMode))
    have heq : sftpCopyGet env remote disk url sCopyFile permissionsMode flags =
        conclude env sCopyFile (fileExists disk sCopyFile) (modeToOptionalPerms permissionsMode)
          (initialMode (modeToOptionalPerms permissionsMode))
          (getContent env.toGetEnv url content (0 : ℕ) (some ⟨q, 0⟩) t) := by
      rw [← sftpGet_opens (hs.opens hcontent)]
      simp [sftpCopyGet, hdir, hpass, hm, hopen]
    rw [heq] at h ⊢
    obtain ⟨hres, hkinds⟩ : _ ∧ ∀ p, _ :=
      ⟨(conclude_unmarked hm hs.close hs.setPermissions sCopyFile).1,
        fun p => (conclude_unmarked hm hs.close hs.setPermissions p).2⟩
    rw [hres] at h
    rw [Store.content_congr hkinds]
    obtain ⟨o, hends, hdelivers, hgframe⟩ := getContent_ends env.toGetEnv url content 0 hend
    cases o with
    | failed j =>
      obtain ⟨⟨error, hfail⟩, -⟩ := hdelivers
      rw [hfail] at h
      cases h
    | killed j =>
      obtain ⟨-, -, hk, -⟩ := hends.of_killed
      simp [Killed, hs.wasKilled j] at hk
    | completed =>
      have hkind := hdelivers.2
      simp only [resumeStart, Nat.lt_irrefl, false_and, if_false, List.drop_zero,
        List.nil_append] at hkind
      refine Store.content_of_target ?_ hkind
      rw [← htarget]
      refine Store.target_congr (fun p => ?_) _
      by_cases hp : p = q
      · subst hp
        rw [Store.linkAt_file hkind, Store.target_linkAt htarget]
      · exact Store.linkAt_of_kindAt (Store.kindAt_of_eq ((hgframe p hp).trans (hframe p hp)))

lemma quiet_succeeds : Succeeds quiet where
  toReliable := quiet_reliable
  login := rfl
  sftp_stat := rfl
  sftp_open := rfl
  sftp_read := rfl
  max_read_length := ⟨32768, rfl, by decide⟩
  begin_read _ := rfl
  wait_read _ := by simp [quiet]
  wasKilled _ := rfl
  write _ buf := by cases buf <;> rfl
  openFile := rfl
  lseek := rfl
  close := rfl

end complete

end KioExtras.Sftp.CopyGet
