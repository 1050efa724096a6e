import KioExtras.Lib.Links
import KioExtras.Sftp.Connection

/-!
Renaming on the server. What is at the destination is removed before, and nothing brings it back
when the server then refuses the rename.
-/

namespace KioExtras.Sftp.Rename

open KioExtras.Kio KioExtras.Lib.Directories KioExtras.Lib.Links Connection

inductive JobFlag
  | HideProgressInfo
  | Resume
  | Overwrite
  | NoPrivilegeExecution
  deriving DecidableEq

abbrev Remote := Tree String (Leaf String (List UInt8))

/-- The server, as the calls of the library see it. Each call may fail: it
changes nothing then, and `sftp_get_error` tells the error. What it does when it succeeds is what
the protocol says of it. A path may come by links; of what `sftp_lstat` returns nobody looks at
more than whether it is a directory. -/
structure SftpServer where
  reading : Lib.Links.Reading String String
  home : List String
  budget : ℕ
  sftp_lstat : Remote → String → Except SshError Bool
  sftp_unlink : Remote → String → Except SshError Remote
  sftp_rmdir : Remote → String → Except SshError Remote
  sftp_rename : Remote → String → String → Except SshError Remote
  sftp_symlink : Remote → String → String → Except SshError Remote
  unlinked : ∀ {t path t'}, sftp_unlink t path = .ok t' →
    ∃ p, place reading t budget home path = some p ∧ t.Removed p t'
  rmdired : ∀ {t path t'}, sftp_rmdir t path = .ok t' →
    ∃ p, place reading t budget home path = some p ∧ t.Removed p t'
  renamed : ∀ {t src dest t'}, sftp_rename t src dest = .ok t' →
    ∃ p q, place reading t budget home src = some p ∧
      place reading t budget home dest = some q ∧ t.Moved p q t'
  symlinked : ∀ {t target path t'}, sftp_symlink t target path = .ok t' →
    ∃ p, place reading t budget home path = some p ∧ t.objects p = none ∧
      t'.objects = Function.update t.objects p (some (.file (.link target)))

def SftpServer.at (server : SftpServer) (t : Remote) (path : String) : Option (List String) :=
  place server.reading t server.budget server.home path

structure Left where
  worker : Worker
  remote : Remote
  result : WorkerResult

def reported (w : Worker) (remote : Remote) (url : Url) (err : SshError) : Left :=
  let (w, result) := reportError w url err
  ⟨w, remote, result⟩

/-! ### `rename` -/

def removeExisting (server : SftpServer) (remote : Remote) (dest : Url) (isDir : Bool) :
    Except SshError Remote :=
  if isDir then server.sftp_rmdir remote dest.path else server.sftp_unlink remote dest.path

def renameTo (server : SftpServer) (w : Worker) (remote : Remote) (src dest : Url) : Left :=
  match server.sftp_rename remote src.path dest.path with
  | .error err => reported w remote dest err
  | .ok remote => ⟨w, remote, .pass⟩

def rename (server : SftpServer) (w : Worker) (connect : Connect) (remote : Remote)
    (src dest : Url) (flags : Finset JobFlag) : Left :=
  match sftpLogin w connect with
  | (w, .fail error text) => ⟨w, remote, .fail error text⟩
  | (w, .pass) =>
    match server.sftp_lstat remote dest.path with
    | .error _ => renameTo server w remote src dest
    | .ok isDir =>
      if .Overwrite ∉ flags then
        ⟨w, remote,
          .fail (if isDir then .ERR_DIR_ALREADY_EXIST else .ERR_FILE_ALREADY_EXIST) dest.text⟩
      else
        match removeExisting server remote dest isDir with
        | .error err => reported w remote dest err
        | .ok remote => renameTo server w remote src dest

/-- What a rename should do: after an error all is at and below the two paths as it was; after a
success there is at the destination what was at the source, which is gone unless the two are
one. -/
structure Renames (server : SftpServer) (before : Remote) (src dest : Url) (left : Left) :
    Prop where
  kept : left.result.success = false →
    ∀ p, server.at before src.path = some p ∨ server.at before dest.path = some p →
    ∀ r, left.remote.objects (p ++ r) = before.objects (p ++ r)
  moved : left.result.success = true →
    ∃ p q, server.at before src.path = some p ∧ server.at before dest.path = some q ∧
      before.objects p ≠ none ∧
      (∀ r, left.remote.objects (q ++ r) = before.objects (p ++ r)) ∧
      (p = q ∨ ∀ r, left.remote.objects (p ++ r) = none)

/-- What is at the destination is removed: the worker gets to it, may do it, and the server
does. -/
def Clears (server : SftpServer) (w : Worker) (connect : Connect) (remote : Remote) (dest : Url)
    (flags : Finset JobFlag) (cleared : Remote) : Prop :=
  (sftpLogin w connect).2 = .pass ∧ .Overwrite ∈ flags ∧
    ∃ isDir, server.sftp_lstat remote dest.path = .ok isDir ∧
      removeExisting server remote dest isDir = .ok cleared

section rename

variable {server : SftpServer} {w : Worker} {connect : Connect} {remote cleared : Remote}
  {src dest : Url} {flags : Finset JobFlag}

@[simp] lemma reported_remote (w : Worker) (remote : Remote) (url : Url) (err : SshError) :
    (reported w remote url err).remote = remote := rfl

lemma removeExisting_removed {isDir : Bool}
    (h : removeExisting server remote dest isDir = .ok cleared) :
    ∃ p, server.at remote dest.path = some p ∧ remote.Removed p cleared := by
  unfold removeExisting at h
  split at h
  · exact server.rmdired h
  · exact server.unlinked h

lemma Clears.of_removed (h : Clears server w connect remote dest flags cleared) :
    ∃ p, server.at remote dest.path = some p ∧ remote.Removed p cleared := by
  obtain ⟨-, -, isDir, -, hremove⟩ := h
  exact removeExisting_removed hremove

lemma at_removed {p q : List String} {path : String} (h : remote.Removed p cleared)
    (hq : server.at cleared path = some q) : server.at remote path = some q :=
  place_within (Within.of_removed h) hq

lemma Renames.of_unchanged {left : Left} (hfail : left.result.success = false)
    (hremote : left.remote = remote) : Renames server remote src dest left where
  kept _ _ _ _ := by rw [hremote]
  moved hpass := by
    rw [hfail] at hpass
    exact nomatch hpass

lemma renameTo_renames (w : Worker) :
    Renames server remote src dest (renameTo server w remote src dest) := by
  unfold renameTo
  split
  · exact Renames.of_unchanged rfl rfl
  · rename_i renamed hrename
    refine ⟨fun hfail => (nomatch hfail), fun _ => ?_⟩
    obtain ⟨p, q, hp, hq, hmoved⟩ := server.renamed hrename
    refine ⟨p, q, hp, hq, hmoved.source, hmoved.there, ?_⟩
    by_cases hpq : p = q
    · exact Or.inl hpq
    · exact Or.inr (hmoved.left hpq)

lemma renameTo_removed_iff (w : Worker) {q : List String}
    (hq : server.at remote dest.path = some q) (h : remote.Removed q cleared) :
    Renames server remote src dest (renameTo server w cleared src dest) ↔
      ∃ renamed, server.sftp_rename cleared src.path dest.path = .ok renamed := by
  unfold renameTo
  cases hrename : server.sftp_rename cleared src.path dest.path with
  | error err =>
    refine iff_of_false (fun hrenames => ?_) (by simp)
    have hkept := hrenames.kept rfl q (Or.inr hq) []
    rw [List.append_nil, reported_remote, h.objects, Function.update_self] at hkept
    exact h.source hkept.symm
  | ok renamed =>
    refine iff_of_true ⟨fun hfail => (nomatch hfail), fun _ => ?_⟩ ⟨renamed, rfl⟩
    obtain ⟨p, q', hp, hq', hmoved⟩ := server.renamed hrename
    obtain rfl : q' = q := Option.some.inj ((at_removed h hq').symm.trans hq)
    obtain ⟨hne, hthere⟩ := Tree.Moved.of_removed h hmoved
    refine ⟨p, q', at_removed h hp, hq, ?_, hthere, Or.inr (hmoved.left hne)⟩
    have hsource := hmoved.source
    rw [h.objects, Function.update_of_ne hne] at hsource
    exact hsource

lemma Clears.unique {cleared' : Remote} (h : Clears server w connect remote dest flags cleared)
    (h' : Clears server w connect remote dest flags cleared') : cleared = cleared' := by
  obtain ⟨-, -, isDir, hlstat, hremove⟩ := h
  obtain ⟨-, -, isDir', hlstat', hremove'⟩ := h'
  obtain rfl := Except.ok.inj (hlstat.symm.trans hlstat')
  exact Except.ok.inj (hremove.symm.trans hremove')

lemma rename_cleared (h : Clears server w connect remote dest flags cleared) :
    rename server w connect remote src dest flags =
      renameTo server (sftpLogin w connect).1 cleared src dest := by
  obtain ⟨hlogin, hflag, isDir, hlstat, hremove⟩ := h
  unfold rename
  rw [show sftpLogin w connect = ((sftpLogin w connect).1, .pass) from Prod.ext rfl hlogin]
  simp only [hlstat, hflag, not_true_eq_false, if_false, hremove]

lemma rename_uncleared (h : ∀ cleared, ¬ Clears server w connect remote dest flags cleared) :
    Renames server remote src dest (rename server w connect remote src dest flags) := by
  unfold rename
  rcases hlogin : sftpLogin w connect with ⟨w', _ | ⟨error, text⟩⟩
  · dsimp only
    cases hlstat : server.sftp_lstat remote dest.path with
    | error err => exact renameTo_renames w'
    | ok isDir =>
      by_cases hflag : JobFlag.Overwrite ∈ flags
      · simp only [hflag, not_true_eq_false, if_false]
        cases hremove : removeExisting server remote dest isDir with
        | error err => exact Renames.of_unchanged rfl rfl
        | ok cleared =>
          have hpass : (sftpLogin w connect).2 = .pass := by rw [hlogin]
          exact absurd ⟨hpass, hflag, isDir, hlstat, hremove⟩ (h cleared)
      · simp only [hflag, not_false_eq_true, if_true]
        exact Renames.of_unchanged rfl rfl
  · exact Renames.of_unchanged rfl rfl

/-- **When a rename is whole.** The destination is lost just if the server removes it and then
refuses the rename. -/
theorem renames_whole_iff (server : SftpServer) (w : Worker) (connect : Connect)
    (remote : Remote) (src dest : Url) (flags : Finset JobFlag) :
    Renames server remote src dest (rename server w connect remote src dest flags) ↔
      ∀ cleared, Clears server w connect remote dest flags cleared →
        ∃ renamed, server.sftp_rename cleared src.path dest.path = .ok renamed := by
  by_cases h : ∃ cleared, Clears server w connect remote dest flags cleared
  · obtain ⟨cleared, hclears⟩ := h
    obtain ⟨q, hq, hremoved⟩ := hclears.of_removed
    rw [rename_cleared hclears, renameTo_removed_iff _ hq hremoved]
    constructor
    · intro hrename cleared' h'
      rwa [← hclears.unique h']
    · exact fun hrename => hrename cleared hclears
  · have hno : ∀ cleared, ¬ Clears server w connect remote dest flags cleared :=
      fun cleared hclears => h ⟨cleared, hclears⟩
    exact iff_of_true (rename_uncleared hno) fun cleared hclears => absurd hclears (hno cleared)

/-- What is renamed to itself and may be overwritten is removed, and then there is nothing left to
rename. -/
lemma onto_itself_refused (h : Clears server w connect remote dest flags cleared)
    (hsame : server.at remote src.path = server.at remote dest.path) (renamed : Remote) :
    server.sftp_rename cleared src.path dest.path ≠ .ok renamed := by
  intro hrename
  obtain ⟨q, hq, hremoved⟩ := h.of_removed
  obtain ⟨p, _, hp, -, hmoved⟩ := server.renamed hrename
  have hpq : p = q := by
    have hold : server.at remote src.path = some p := at_removed hremoved hp
    rw [hsame, hq] at hold
    exact (Option.some.inj hold).symm
  apply hmoved.source
  rw [hpq, hremoved.objects, Function.update_self]

end rename

/-! ### A server that does what can be done -/

section willing

variable (reading : Lib.Links.Reading String String) (home : List String) (budget : ℕ)

open scoped Classical in
/-- A change of what is on the server, if there is such a change. -/
noncomputable def perform (change : Remote → Prop) : Except SshError Remote :=
  if h : ∃ t, change t then .ok h.choose else .error ⟨.ERR_DOES_NOT_EXIST, false⟩

lemma perform_ok {change : Remote → Prop} {t : Remote} (h : perform change = .ok t) : change t := by
  unfold perform at h
  split at h
  · rename_i hex
    rw [← Except.ok.inj h]
    exact hex.choose_spec
  · exact nomatch h

lemma exists_perform {change : Remote → Prop} {t : Remote} (h : change t) :
    ∃ t', perform change = .ok t' :=
  ⟨_, dif_pos ⟨t, h⟩⟩

noncomputable def SftpServer.willing : SftpServer where
  reading := reading
  home := home
  budget := budget
  sftp_lstat t path :=
    match (place reading t budget home path).bind t.objects with
    | none => .error ⟨.ERR_DOES_NOT_EXIST, false⟩
    | some .dir => .ok true
    | some (.file _) => .ok false
  sftp_unlink t path := perform fun t' => ∃ p, place reading t budget home path = some p ∧
    t.objects p ≠ some .dir ∧ t.Removed p t'
  sftp_rmdir t path := perform fun t' => ∃ p, place reading t budget home path = some p ∧
    t.objects p = some .dir ∧ t.Removed p t'
  sftp_rename t src dest := perform fun t' => ∃ p q, place reading t budget home src = some p ∧
    place reading t budget home dest = some q ∧ t.Moved p q t'
  sftp_symlink t target path := perform fun t' => ∃ p,
    place reading t budget home path = some p ∧ t.objects p = none ∧
      t'.objects = Function.update t.objects p (some (.file (.link target)))
  unlinked h := by
    obtain ⟨p, hp, -, hremoved⟩ := perform_ok h
    exact ⟨p, hp, hremoved⟩
  rmdired h := by
    obtain ⟨p, hp, -, hremoved⟩ := perform_ok h
    exact ⟨p, hp, hremoved⟩
  renamed h := perform_ok h
  symlinked h := perform_ok h

end willing

/-- Names with slashes between them. -/
def slashes : Lib.Links.Reading String String where
  absolute path := path.toList.head? = some '/'
  steps path := (path.toList.splitOn '/').map fun name =>
    if name = [] ∨ name = ['.'] then .here
    else if name = ['.', '.'] then .up
    else .name (String.ofList name)

noncomputable def posix : SftpServer := SftpServer.willing slashes [] 40

def connectedWorker : Worker := { initial with mConnected := true, mSftp := some 0, sessions := 1 }

def oneFile : Remote := Tree.room ["a"] ["a"] (.file [1]) (List.cons_ne_nil _ _) (Or.inl rfl)

def fileUrl : Url := ⟨"/a", "sftp://host/a"⟩

lemma fileUrl_at : posix.at oneFile fileUrl.path = some ["a"] := by decide

lemma oneFile_file : oneFile.objects ["a"] = some (.file (.file [1])) :=
  Tree.room_file (List.cons_ne_nil _ _) (Or.inl rfl)

lemma oneFile_lstat : posix.sftp_lstat oneFile fileUrl.path = .ok false := by
  have hplace : place slashes oneFile 40 [] fileUrl.path = some ["a"] := fileUrl_at
  simp only [posix, SftpServer.willing, hplace, Option.bind_some, oneFile_file]

lemma oneFile_clears : ∃ cleared, Clears posix connectedWorker (.established "") oneFile fileUrl
    {.Overwrite} cleared := by
  obtain ⟨cleared, hunlink⟩ : ∃ t, posix.sftp_unlink oneFile fileUrl.path = .ok t := by
    refine exists_perform (t := oneFile.set (Tree.fits_of_file oneFile_file) none)
      ⟨["a"], fileUrl_at, ?_, ?_, rfl⟩
    all_goals simp [oneFile_file]
  exact ⟨cleared, rfl, Finset.mem_singleton_self _, false, oneFile_lstat, hunlink⟩

theorem renamed_onto_itself_lost : ¬ ∀ (server : SftpServer) (w : Worker) (connect : Connect)
    (remote : Remote) (src dest : Url) (flags : Finset JobFlag),
    Renames server remote src dest (rename server w connect remote src dest flags) := by
  intro h
  obtain ⟨cleared, hclears⟩ := oneFile_clears
  obtain ⟨q, hq, hremoved⟩ := hclears.of_removed
  have hrenames := h posix connectedWorker (.established "") oneFile fileUrl fileUrl {.Overwrite}
  rw [rename_cleared hclears, renameTo_removed_iff _ hq hremoved] at hrenames
  obtain ⟨renamed, hrename⟩ := hrenames
  exact onto_itself_refused hclears rfl renamed hrename

end KioExtras.Sftp.Rename
