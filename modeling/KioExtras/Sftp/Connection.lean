import KioExtras.Lib.Run
import KioExtras.Sftp.Put
import Mathlib

/-!
The SFTP worker over many operations: the connection, the file that is open for a file job, and
the flag that says whether the server takes permissions.

A label is an operation with what the calls in it return; how a login goes in itself is of no
concern here, only whether it succeeds. The trace, the latest event first, records what becomes
of handles and sessions and what the puts did about permissions.
-/

namespace KioExtras.Sftp.Connection

open KioExtras.Kio KioExtras.Lib.Run KioExtras.Lib.FileStore KioExtras.Sftp.Put

structure SftpFile where
  session : ℕ
  number : ℕ
  deriving DecidableEq

/-- A put that got past its login: did it call `sftp_chmod`, was that refused, and did it show
the warning? -/
structure PutRecord where
  session : ℕ
  asked : Bool
  refused : Bool
  warned : Bool
  deriving DecidableEq

/-- `uses` is any call with a handle other than to close it. -/
inductive Event
  | sftp_free (session : ℕ)
  | sftp_open (file : SftpFile)
  | uses (file : SftpFile)
  | sftp_close (file : SftpFile)
  | put (record : PutRecord)
  deriving DecidableEq

def Event.putRecord? : Event → Option PutRecord
  | .put record => some record
  | _ => none

/-- `mSftp` is the number of the session that is alive, `sessions` and `files` count those there
have been. -/
structure Worker where
  mHost : String
  mPort : ℤ
  mUsername : String
  mPassword : String
  mConnected : Bool
  mCanSetPermissions : Bool
  mSftp : Option ℕ
  mOpenFile : Option SftpFile
  mOpenUrl : Url
  sessions : ℕ
  files : ℕ
  trace : List Event

def Worker.puts (w : Worker) : List PutRecord := w.trace.filterMap Event.putRecord?

def initial : Worker := ⟨"", -1, "", "", false, true, none, none, ⟨"", ""⟩, 0, 0, []⟩

/-! ### The connection -/

/-- How `openConnectionWithoutCloseOnError` ends where it has to connect; the user may have
chosen another name. -/
inductive Connect
  | failed (error : Error) (text : String)
  | established (username : String)

def closeConnection (w : Worker) : Worker :=
  { w with
    mSftp := none
    mConnected := false
    trace := (w.mSftp.map Event.sftp_free).toList ++ w.trace }

def openConnectionWithoutCloseOnError (w : Worker) (connect : Connect) : Worker × WorkerResult :=
  if w.mConnected then (w, .pass)
  else if w.mHost = "" then (w, .fail .ERR_UNKNOWN_HOST "")
  else
    match connect with
    | .failed error text => (closeConnection w, .fail error text)
    | .established username =>
      let w := closeConnection w
      ({ w with
          mSftp := some w.sessions
          sessions := w.sessions + 1
          mUsername := if w.mUsername = "" then "" else username
          mConnected := true }, .pass)

def openConnection (w : Worker) (connect : Connect) : Worker × WorkerResult :=
  let w := { w with mCanSetPermissions := true }
  match openConnectionWithoutCloseOnError w connect with
  | (w, .pass) => (w, .pass)
  | (w, .fail error text) => (closeConnection w, .fail error text)

def sftpLogin (w : Worker) (connect : Connect) : Worker × WorkerResult :=
  let origUsername := w.mUsername
  match openConnection w connect with
  | (w, .fail error text) => (w, .fail error text)
  | (w, .pass) =>
    if origUsername ≠ "" ∧ origUsername ≠ w.mUsername then (w, .fail .ERR_UNKNOWN "")
    else if w.mConnected then (w, .pass)
    else (w, .fail .ERR_UNKNOWN "")

def setHost (w : Worker) (host : String) (port : ℤ) (user pass : String) : Worker :=
  let w := if host ≠ w.mHost ∨ port ≠ w.mPort ∨ user ≠ w.mUsername ∨ pass ≠ w.mPassword then
    closeConnection w else w
  { w with mHost := host, mPort := port, mUsername := user, mPassword := pass }

/-- What the libraries say about an error: `toKIOError` of it, and whether it is fatal to the
ssh session. -/
structure SshError where
  kioError : Error
  fatal : Bool

def reportError (w : Worker) (url : Url) (err : SshError) : Worker × WorkerResult :=
  (if err.fatal then closeConnection w else w, .fail err.kioError url.text)

/-! ### The file job -/

def close (w : Worker) : Worker :=
  { w with
    mOpenFile := none
    trace := (w.mOpenFile.map Event.sftp_close).toList ++ w.trace }

/-- What `sftp_stat` says about the file to open. -/
inductive StatAnswer
  | failed (err : SshError)
  | directory
  | special
  | file

/-- What the calls in `open` return: `sftp_open`, and `sftp_read` for the mimetype, which is
wanted of a file that is read. -/
structure OpenAnswer where
  connect : Connect
  stat : StatAnswer
  readOnly : Bool
  sftp_open : Except Error Unit
  sftp_read : Bool

/-- The handle is used to read the head of the file and, if that succeeds, to rewind it. -/
def sftpSendMimetype (w : Worker) (file : SftpFile) (url : Url) (sftp_read : Bool) :
    Worker × WorkerResult :=
  let w := { w with trace := .uses file :: w.trace }
  if sftp_read then ({ w with trace := .uses file :: w.trace }, .pass)
  else (w, .fail .ERR_CANNOT_READ url.text)

def openFile (w : Worker) (url : Url) (session : ℕ) (o : OpenAnswer) : Worker × WorkerResult :=
  match o.sftp_open with
  | .error error => ({ w with mOpenFile := none }, .fail error url.path)
  | .ok () =>
    let file : SftpFile := ⟨session, w.files⟩
    let w := { w with
      mOpenFile := some file
      files := w.files + 1
      trace := .sftp_open file :: w.trace }
    if o.readOnly then
      match sftpSendMimetype w file url o.sftp_read with
      | (w, .pass) => ({ w with mOpenUrl := url }, .pass)
      | (w, .fail error text) => (close w, .fail error text)
    else ({ w with mOpenUrl := url }, .pass)

/-- Without a session the calls of `sftp_stat` and `sftp_open` would crash. -/
def Worker.open (w : Worker) (url : Url) (o : OpenAnswer) : Option (Worker × WorkerResult) :=
  match sftpLogin w o.connect with
  | (w, .fail error text) => some (w, .fail error text)
  | (w, .pass) => w.mSftp.map fun session =>
    match o.stat with
    | .failed err => reportError w url err
    | .directory => (w, .fail .ERR_IS_DIRECTORY url.text)
    | .special => (w, .fail .ERR_CANNOT_OPEN_FOR_READING url.text)
    | .file => openFile w url session o

def mimetype (w : Worker) (url : Url) (connect : Connect) (o : OpenAnswer) :
    Option (Worker × WorkerResult) :=
  match sftpLogin w connect with
  | (w, .fail error text) => some (w, .fail error text)
  | (w, .pass) => (w.open url { o with readOnly := true }).map fun (w, result) => (close w, result)

def closeFailed (w : Worker) (error : Error) (text : String) : Worker × WorkerResult :=
  (close w, .fail error text)

/-- One use of the handle that is open; without one the worker stops, at the assertion or in the
library. -/
def useFile (w : Worker) : Option Worker :=
  w.mOpenFile.map fun file => { w with trace := .uses file :: w.trace }

def read (w : Worker) (sftp_read : Bool) : Option (Worker × WorkerResult) :=
  (useFile w).map fun w =>
    if sftp_read then (w, .pass) else closeFailed w .ERR_CANNOT_READ w.mOpenUrl.text

/-- The handle is used as often as the data has to be cut. -/
def write (w : Worker) (requests : ℕ) (written : Bool) : Option (Worker × WorkerResult) :=
  w.mOpenFile.map fun file =>
    let w := { w with trace := List.replicate requests (.uses file) ++ w.trace }
    if written then (w, .pass) else closeFailed w .ERR_CANNOT_WRITE w.mOpenUrl.text

def seek (w : Worker) (sftp_seek64 : Bool) : Option (Worker × WorkerResult) :=
  (useFile w).bind fun w =>
    if sftp_seek64 then (useFile w).map fun w => (w, .pass)
    else some (closeFailed w .ERR_CANNOT_SEEK w.mOpenUrl.path)

/-- `errorCode` is what is left in it after `sftp_fstat` and `sftp_setstat`. -/
def truncate (w : Worker) (errorCode : Option Error) : Option (Worker × WorkerResult) :=
  (useFile w).map fun w =>
    match errorCode with
    | none => (w, .pass)
    | some error =>
      closeFailed w (if error = .ERR_INTERNAL then .ERR_CANNOT_TRUNCATE else error) w.mOpenUrl.path

/-! ### Permissions -/

/-- A put that opened the destination gets to where it sets the permissions: it sent all, closed
the file and renamed it. -/
def transfers (env : Env) (remote : Store String) (url : Url) (Overwrite : Bool)
    (responses : List ReadResponse) (destFile : Lib.FileStore.Handle String) (totalBytesSent : ℕ) :
    Bool :=
  match putLoop env 0 totalBytesSent remote (asyncWrite env.server remote destFile responses) with
  | (.completed, remote, _) =>
    env.close && (!env.MarkPartial || (install env remote url Overwrite).2)
  | _ => false

/-- From the opening of the destination on: the put gets there, and has permissions to set. -/
def openedSets (env : Env) (remote : Store String) (url : Url) (sbPart : Option (Node String))
    (permissions : Option ℕ) (flags : JobFlags) (source : Source) (position : ℕ) : Bool :=
  let dest := destName env url
  let remote :=
    if env.MarkPartial && sbPart.isSome && !flags.Resume then unlink env.unlinkPart remote dest
    else remote
  let initialMode := (permissions.map fun perms => perms ||| owner_write ||| owner_read).getD
    DEFAULT_FILE_PERMISSIONS
  match openDest env remote dest flags.Resume initialMode with
  | none => false
  | some (destFile, totalBytesSent, remote) =>
    permissions.isSome && !flags.Resume &&
      transfers env remote url flags.Overwrite (reader env source position) destFile totalBytesSent

/-- The put gets to where it sets the permissions, and has permissions to set. -/
def setsPermissions (env : Env) (remote : Store String) (url : Url) (permissionsMode : ℤ)
    (flags : JobFlags) (source : Source) : Bool :=
  match env.login with
  | .fail _ _ => false
  | .pass =>
    let sb := lstat env.lstatOrig remote url.path
    let permissions := modeToOptionalPerms ((sb.map fun sb => (sb.attrs.perms : ℤ)).getD
      permissionsMode)
    let sbPart := if env.MarkPartial then lstat env.lstatPart remote (partName url.path) else none
    match negotiate env url source sbPart flags with
    | .error _ => false
    | .ok (flags, position, _) =>
      (sb.isNone || flags.Overwrite || flags.Resume) &&
        openedSets env remote url sbPart permissions flags source position

def Signal.isWarning : Signal → Bool
  | .warning _ => true
  | _ => false

def recordPut (w : Worker) (asks : Bool) (left : Left) : Worker × WorkerResult :=
  let asked := asks && w.mCanSetPermissions
  ({ w with
      mCanSetPermissions := left.mCanSetPermissions
      trace := (w.mSftp.map fun session => Event.put
        { session, asked
          refused := asked && !left.mCanSetPermissions
          warned := left.signals.any Signal.isWarning }).toList ++ w.trace }, left.result)

def put (w : Worker) (connect : Connect) (env : Env) (remote : Store String) (url : Url)
    (permissions : ℤ) (flags : JobFlags) (source : Source) : Worker × WorkerResult :=
  match sftpLogin w connect with
  | (w, .fail error text) => (w, .fail error text)
  | (w, .pass) =>
    recordPut w (setsPermissions { env with login := .pass } remote url permissions flags source)
      (sftpPut { env with login := .pass } remote url permissions flags source
        w.mCanSetPermissions)

def opensSource (disk : Store String) (sCopyFile : String) (openSource : Bool) : Bool :=
  match disk.stat sCopyFile with
  | none => false
  | some copyFile => !copyFile.kind.isDir && openSource

/-- The worker logs in only after it has opened the local file. -/
def copyPut (w : Worker) (connect : Connect) (env : Env) (disk remote : Store String) (url : Url)
    (sCopyFile : String) (permissions : ℤ) (flags : JobFlags) (openSource : Bool) :
    Worker × WorkerResult :=
  if opensSource disk sCopyFile openSource then
    match sftpLogin w connect with
    | (w, .fail error text) => (w, .fail error text)
    | (w, .pass) =>
      let source : Source := .fd (((disk.stat sCopyFile).bind fun node => node.kind.data).getD [])
      recordPut w (setsPermissions { env with login := .pass } remote url permissions flags source)
        (sftpCopyPut { env with login := .pass } disk remote url sCopyFile permissions flags
          w.mCanSetPermissions openSource)
  else
    (w, (sftpCopyPut env disk remote url sCopyFile permissions flags w.mCanSetPermissions
      openSource).result)

/-! ### The operations -/

/-- The other operations that log in; `copyGet` is the copy of a remote file to a local one. -/
inductive Operation
  | get
  | copyGet
  | stat
  | listDir
  | mkdir
  | rename
  | symlink
  | chmod
  | setModificationTime
  | del
  | fileSystemFreeSpace
  deriving DecidableEq

def Operation.reports : Operation → Bool
  | .get | .copyGet | .stat => false
  | .listDir | .mkdir | .rename | .symlink | .chmod | .setModificationTime | .del
  | .fileSystemFreeSpace => true

inductive Ended
  | returned (result : WorkerResult)
  | reported (url : Url) (err : SshError)

def operation (w : Worker) (op : Operation) (connect : Connect) (ended : Ended) :
    Option (Worker × WorkerResult) :=
  match sftpLogin w connect with
  | (w, .fail error text) => some (w, .fail error text)
  | (w, .pass) =>
    match ended with
    | .returned result => some (w, result)
    | .reported url err => if op.reports then some (reportError w url err) else none

/-- `refused` is a copy that returns before it logs in. -/
inductive Label
  | setHost (host : String) (port : ℤ) (user pass : String)
  | openConnection (connect : Connect)
  | closeConnection
  | special
  | open (url : Url) (o : OpenAnswer)
  | read (sftp_read : Bool)
  | write (requests : ℕ) (written : Bool)
  | seek (sftp_seek64 : Bool)
  | truncate (errorCode : Option Error)
  | close
  | mimetype (url : Url) (connect : Connect) (o : OpenAnswer)
  | put (connect : Connect) (env : Env) (remote : Store String) (url : Url) (permissions : ℤ)
      (flags : JobFlags) (source : Source)
  | copyPut (connect : Connect) (env : Env) (disk remote : Store String) (url : Url)
      (sCopyFile : String) (permissions : ℤ) (flags : JobFlags) (openSource : Bool)
  | refused
  | operation (op : Operation) (connect : Connect) (ended : Ended)

def step (w : Worker) : Label → Option Worker
  | .setHost host port user pass => some (setHost w host port user pass)
  | .openConnection connect => some (openConnection w connect).1
  | .closeConnection => some (closeConnection w)
  | .special => some w
  | .open url o => (w.open url o).map Prod.fst
  | .read sftp_read => (read w sftp_read).map Prod.fst
  | .write requests written => (write w requests written).map Prod.fst
  | .seek sftp_seek64 => (seek w sftp_seek64).map Prod.fst
  | .truncate errorCode => (truncate w errorCode).map Prod.fst
  | .close => some (close w)
  | .mimetype url connect o => (mimetype w url connect o).map Prod.fst
  | .put connect env remote url permissions flags source =>
    some (put w connect env remote url permissions flags source).1
  | .copyPut connect env disk remote url sCopyFile permissions flags openSource =>
    some (copyPut w connect env disk remote url sCopyFile permissions flags openSource).1
  | .refused => some w
  | .operation op connect ended => (operation w op connect ended).map Prod.fst

/-! ### What a login does -/

/-- The worker is connected while it has a session, which is one of those there have been. -/
structure Linked (w : Worker) : Prop where
  connected : w.mConnected = w.mSftp.isSome
  current : ∀ session, w.mSftp = some session → session < w.sessions

lemma initial_linked : Linked initial := ⟨rfl, fun _ h => by simp [initial] at h⟩

lemma closeConnection_linked (w : Worker) : Linked (closeConnection w) :=
  ⟨rfl, fun _ h => by simp [closeConnection] at h⟩

variable {w : Worker}

lemma Linked.close (h : Linked w) : Linked (close w) := ⟨h.connected, h.current⟩

/-- What is left of a login that connects: a session as there has not been one. -/
def connected (w : Worker) (username : String) : Worker :=
  { w with
    mCanSetPermissions := true
    mSftp := some w.sessions
    sessions := w.sessions + 1
    mUsername := username
    mConnected := true }

/-- Connected already, a login only sets the flag; otherwise it fails and leaves nothing, or
there is a new session. -/
lemma openConnection_cases (h : Linked w) (connect : Connect) :
    (w.mConnected = true ∧
      openConnection w connect = ({ w with mCanSetPermissions := true }, .pass)) ∨
    (w.mSftp = none ∧ ∃ error text,
      openConnection w connect = ({ w with mCanSetPermissions := true }, .fail error text)) ∨
    (w.mSftp = none ∧ ∃ username,
      openConnection w connect = (connected w username, .pass)) := by
  cases hconn : w.mConnected with
  | true => exact Or.inl ⟨rfl, by simp [openConnection, openConnectionWithoutCloseOnError, hconn]⟩
  | false =>
    have hnone : w.mSftp = none := by
      have hsome := h.connected
      rw [hconn] at hsome
      simpa using hsome.symm
    obtain ⟨mHost, mPort, mUsername, mPassword, mConnected, mCan, mSftp, file, url, n, m, trace⟩ := w
    simp only at hconn hnone
    subst hconn hnone
    right
    by_cases hhost : mHost = ""
    · refine Or.inl ⟨rfl, .ERR_UNKNOWN_HOST, "", ?_⟩
      simp [openConnection, openConnectionWithoutCloseOnError, hhost, closeConnection]
    · cases connect with
      | failed error text =>
        refine Or.inl ⟨rfl, error, text, ?_⟩
        simp [openConnection, openConnectionWithoutCloseOnError, hhost, closeConnection]
      | established username =>
        refine Or.inr ⟨rfl, if mUsername = "" then "" else username, ?_⟩
        simp only [openConnection, openConnectionWithoutCloseOnError, hhost, closeConnection,
          connected, Bool.false_eq_true, if_false]
        rfl

lemma sftpLogin_cases (h : Linked w) (connect : Connect) :
    (w.mConnected = true ∧ sftpLogin w connect = ({ w with mCanSetPermissions := true }, .pass)) ∨
    (w.mSftp = none ∧ ∃ error text,
      sftpLogin w connect = ({ w with mCanSetPermissions := true }, .fail error text)) ∨
    (w.mSftp = none ∧ ∃ username result,
      sftpLogin w connect = (connected w username, result)) := by
  rcases openConnection_cases h connect with
    ⟨hconn, hopen⟩ | ⟨hnone, error, text, hopen⟩ | ⟨hnone, username, hopen⟩
  · exact Or.inl ⟨hconn, by simp [sftpLogin, hopen, hconn]⟩
  · exact Or.inr (Or.inl ⟨hnone, error, text, by simp [sftpLogin, hopen]⟩)
  · refine Or.inr (Or.inr ⟨hnone, username, ?_⟩)
    by_cases hname : w.mUsername ≠ "" ∧ w.mUsername ≠ (connected w username).mUsername
    · exact ⟨.fail .ERR_UNKNOWN "", by simp [sftpLogin, hopen, hname]⟩
    · refine ⟨.pass, ?_⟩
      simp only [sftpLogin, hopen]
      rw [if_neg hname]
      rfl

lemma connected_linked (w : Worker) (username : String) : Linked (connected w username) := by
  refine ⟨rfl, fun session hs => ?_⟩
  obtain rfl : w.sessions = session := by simpa [connected] using hs
  exact Nat.lt_succ_self _

end KioExtras.Sftp.Connection
