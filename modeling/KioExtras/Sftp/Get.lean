import KioExtras.Lib.FileStore
import KioExtras.Lib.Poll
import KioExtras.Sftp.Read

/-!
From the server to the application or to a local file: `sftpGet`.

The remote store does not change. What the calls return that may fail, the answers of the
application and the kill flag at each of its polls are fields of an environment; a flag that
stands for a call is true when the call succeeds wherever the state lets it.
-/

namespace KioExtras.Sftp

open KioExtras.Kio KioExtras.Lib.FileStore

inductive SshFx
  | NO_SUCH_FILE
  | NO_SUCH_PATH
  | PERMISSION_DENIED
  | FILE_ALREADY_EXISTS
  | INVALID_HANDLE
  | OP_UNSUPPORTED
  | BAD_MESSAGE
  | OTHER
  deriving DecidableEq

def toKIOError : SshFx → Error
  | .NO_SUCH_FILE | .NO_SUCH_PATH => .ERR_DOES_NOT_EXIST
  | .PERMISSION_DENIED => .ERR_ACCESS_DENIED
  | .FILE_ALREADY_EXISTS => .ERR_FILE_ALREADY_EXIST
  | .INVALID_HANDLE => .ERR_MALFORMED_URL
  | .OP_UNSUPPORTED => .ERR_UNSUPPORTED_ACTION
  | .BAD_MESSAGE => .ERR_UNKNOWN
  | .OTHER => .ERR_INTERNAL

def owner_read : ℕ := 0o400
def owner_write : ℕ := 0o200
def DEFAULT_FILE_PERMISSIONS : ℕ := 0o666

def modeToOptionalPerms (mode : ℤ) : Option ℕ :=
  if mode < 0 then none else some (mode.toNat % 0o10000)

namespace Get

/-- What one `write` returns: a count, or -1 with `errno`. -/
inductive Write
  | bytes (n : ℕ)
  | EINTR
  | EAGAIN
  | EPIPE
  | ENOSPC
  | other

/-- The bytes written and the error. A write after those listed takes all that is left. -/
def writeToFile : List Write → List UInt8 → List UInt8 × Option Error
  | _, [] => ([], none)
  | [], buf => (buf, none)
  | .bytes n :: ws, buf =>
    let (written, error) := writeToFile ws (buf.drop n)
    (buf.take n ++ written, error)
  | .EINTR :: ws, buf => writeToFile ws buf
  | .EAGAIN :: ws, buf => writeToFile ws buf
  | .EPIPE :: _, _ => ([], some .ERR_CONNECTION_BROKEN)
  | .ENOSPC :: _, _ => ([], some .ERR_DISK_FULL)
  | .other :: _, _ => ([], some .ERR_CANNOT_WRITE)

inductive Signal
  | totalSize (size : ℕ)
  | canResume
  | data (bytes : List UInt8)
  | processedSize (size : ℕ)
  deriving DecidableEq

/-- `sftp_stat` is the error of a stat that fails though there is an entry; `resume` is the
number in the metadata; `wasKilled k` is the poll before the `k`-th response and `write k` what
the writes of its bytes return. -/
structure GetEnv where
  login : WorkerResult
  sftp_stat : Option SshFx
  sftp_open : Bool
  sftp_read : Bool
  sftp_seek64 : Bool
  resume : Option ℤ
  server : ReadServer
  wasKilled : ℕ → Bool
  write : ℕ → List Write

/-- The local store and the signals a function leaves, with its result; the loop has no result
when it ends by itself. -/
structure Got (ρ : Type) where
  result : ρ
  disk : Store String
  signals : List Signal

def Got.after {ρ : Type} (signals : List Signal) (g : Got ρ) : Got ρ :=
  { g with signals := signals ++ g.signals }

/-- The loop over the responses, from the `k`-th on. -/
def getLoop (env : GetEnv) (url : Url) :
    ℕ → ℕ → Option (Handle String) → Store String → List ReadResponse → Got (Option WorkerResult)
  | _, _, _, disk, [] => ⟨none, disk, []⟩
  | k, totalbytesread, fd, disk, response :: reader =>
    if env.wasKilled k then ⟨some .pass, disk, []⟩
    else
      match response.error with
      | some error => ⟨some (.fail error url.text), disk, []⟩
      | none =>
        let total := totalbytesread + response.filedata.length
        match fd with
        | none =>
          (getLoop env url (k + 1) total none disk reader).after
            [.data response.filedata, .processedSize total]
        | some fd =>
          let (written, error) := writeToFile (env.write k) response.filedata
          let (disk, fd) := disk.write fd written
          match error with
          | some error => ⟨some (.fail error url.text), disk, []⟩
          | none =>
            (getLoop env url (k + 1) total (some fd) disk reader).after [.processedSize total]

/-- The part of `sftpGet` after the mime type, for a remote file with this content. -/
def getContent (env : GetEnv) (url : Url) (content : List UInt8) (offset : ℤ)
    (fd : Option (Handle String)) (disk : Store String) : Got WorkerResult :=
  let size := content.length
  let offset := if offset < 0 then env.resume.getD offset else offset
  let seeked : Bool := 0 < offset ∧ offset < size ∧ env.sftp_seek64
  let start := if seeked then offset.toNat else 0
  let loop := getLoop env url 0 start fd disk (asyncRead env.server content start (size - start))
  let signals := [.totalSize size] ++ (if seeked then [.canResume] else []) ++ loop.signals
  match loop.result with
  | some result => ⟨result, loop.disk, signals⟩
  | none => ⟨.pass, loop.disk,
      signals ++ (if fd.isNone then [.data []] else []) ++ [.processedSize size]⟩

def sftpGet (env : GetEnv) (remote : Store String) (url : Url) (offset : ℤ)
    (fd : Option (Handle String)) (disk : Store String) : Got WorkerResult :=
  match env.login with
  | .fail error text => ⟨.fail error text, disk, []⟩
  | .pass =>
    match env.sftp_stat, remote.stat url.path with
    | some error, _ => ⟨.fail (toKIOError error) url.text, disk, []⟩
    | none, none => ⟨.fail (toKIOError .NO_SUCH_FILE) url.text, disk, []⟩
    | none, some sb =>
      match sb.kind with
      | .dir => ⟨.fail .ERR_IS_DIRECTORY url.text, disk, []⟩
      | .special => ⟨.fail .ERR_CANNOT_OPEN_FOR_READING url.text, disk, []⟩
      | .symlink _ => ⟨.fail .ERR_CANNOT_OPEN_FOR_READING url.text, disk, []⟩
      | .file content =>
        if !env.sftp_open then ⟨.fail .ERR_CANNOT_OPEN_FOR_READING url.text, disk, []⟩
        else if !env.sftp_read then ⟨.fail .ERR_CANNOT_READ url.text, disk, []⟩
        else getContent env url content offset fd disk

/-! ### Writing the responses -/

section writing

variable {env : GetEnv} {url : Url}

@[simp] lemma writeToFile_nil (ws : List Write) : writeToFile ws [] = ([], none) := by
  cases ws <;> rfl

lemma writeToFile_all {ws : List Write} {buf : List UInt8} (h : (writeToFile ws buf).2 = none) :
    (writeToFile ws buf).1 = buf := by
  induction ws generalizing buf with
  | nil => cases buf <;> rfl
  | cons w ws ih =>
    cases buf with
    | nil => simp
    | cons b buf =>
      cases w with
      | bytes n =>
        simp only [writeToFile] at h ⊢
        rw [ih h, List.take_append_drop]
      | EINTR => exact ih h
      | EAGAIN => exact ih h
      | EPIPE => simp [writeToFile] at h
      | ENOSPC => simp [writeToFile] at h
      | other => simp [writeToFile] at h

open Read Lib.Poll

variable (env) (content : List UInt8) (start size : ℕ)

def chunkSize (srv : ReadServer) : ℕ := min (srv.max_read_length.getD 0) MAX_XFER_BUF_SIZE

/-- There is a `k`-th response, unless one before it ended the loop. -/
def Needed (k : ℕ) : Prop :=
  if env.server.max_read_length = none then k = 0 else k * chunkSize env.server < size

def WriteFails (k : ℕ) : Prop :=
  (writeToFile (env.write k) (chunk content start size (chunkSize env.server) k)).2 ≠ none

/-- The `k`-th response is an error or cannot be written. -/
def Bad (k : ℕ) : Prop :=
  env.server.max_read_length = none ∨
    Fault env.server content start size (chunkSize env.server) k ∨
    WriteFails env content start size k

def Killed (k : ℕ) : Prop := env.wasKilled k = true

/-- The bytes of the responses before the `k`-th. -/
def got (k : ℕ) : List UInt8 :=
  (content.drop start).take (min (k * chunkSize env.server) size)

lemma needed_down : ∀ i j, i ≤ j → Needed env size j → Needed env size i := by
  intro i j hij hj
  unfold Needed at *
  split_ifs at * with hm
  · omega
  · exact Nat.lt_of_le_of_lt (Nat.mul_le_mul_right _ hij) hj

/-- What the loop leaves when it ends in one way or another, if the file held `pre` before the
first response. -/
def Leaves (url : Url) (pre : List UInt8) (path : String) (g : Got (Option WorkerResult)) :
    Outcome → Prop
  | .completed => g.result = none ∧
      g.disk.kindAt path = some (.file (pre ++ (content.drop start).take size))
  | .killed j => g.result = some .pass ∧
      g.disk.kindAt path = some (.file (pre ++ got env content start size j))
  | .failed _ => (∃ error, g.result = some (.fail error url.text)) ∧
      ∃ data, g.disk.kindAt path = some (.file data)

variable {env content start size}

variable {k : ℕ} {pre : List UInt8}

lemma got_succ (hk : k * chunkSize env.server < size) :
    got env content start size k ++ chunk content start size (chunkSize env.server) k =
      got env content start size (k + 1) := by
  have h1 : min (k * chunkSize env.server) size = k * chunkSize env.server := by omega
  have h2 : min ((k + 1) * chunkSize env.server) size =
      k * chunkSize env.server + min (chunkSize env.server) (size - k * chunkSize env.server) := by
    rw [Nat.succ_mul]; omega
  simp only [got, chunk, h1, h2, List.take_add, List.drop_drop]

lemma got_all (hk : size ≤ k * chunkSize env.server) :
    got env content start size k = (content.drop start).take size := by
  simp [got, Nat.min_eq_right hk]

@[simp] lemma leaves_after {path : String} {g : Got (Option WorkerResult)} {signals : List Signal}
    {o : Outcome} :
    Leaves env content start size url pre path (g.after signals) o ↔
      Leaves env content start size url pre path g o := by
  cases o <;> rfl

lemma getLoop_ends (total : ℕ) {rs : List ReadResponse} {disk : Store String} {fd : Handle String}
    (hm : env.server.max_read_length ≠ none)
    (hr : Reads env.server content start size (chunkSize env.server) k rs)
    (hd : disk.AtEnd fd (pre ++ got env content start size k)) :
    ∃ o, Ends (Needed env size) (Killed env) (Bad env content start size) k o ∧
      Leaves env content start size url pre fd.path
        (getLoop env url k total (some fd) disk rs) o ∧
      ∀ p, p ≠ fd.path → (getLoop env url k total (some fd) disk rs).disk p = disk p := by
  induction hr generalizing total disk fd with
  | done k h =>
    refine ⟨.completed, Ends.completed k ?_, ⟨rfl, ?_⟩, fun _ _ => rfl⟩
    · simp [Needed, hm, h]
    · simpa [got_all h, getLoop] using hd.1
  | error k h hf =>
    have hn : Needed env size k := by simp [Needed, hm, h]
    by_cases hk : env.wasKilled k = true
    · refine ⟨.killed k, Ends.killed k hn hk, ⟨by simp [getLoop, hk], ?_⟩, ?_⟩
      · simpa [getLoop, hk] using hd.1
      · simp [getLoop, hk]
    · refine ⟨.failed k, Ends.failed k hn hk (Or.inr (Or.inl hf)), ⟨?_, ?_⟩, ?_⟩
      · exact ⟨.ERR_CANNOT_READ, by simp [getLoop, hk]⟩
      · exact ⟨_, by simpa [getLoop, hk] using hd.1⟩
      · simp [getLoop, hk]
  | data k rs h hf hrs ih =>
    have hn : Needed env size k := by simp [Needed, hm, h]
    by_cases hk : env.wasKilled k = true
    · refine ⟨.killed k, Ends.killed k hn hk, ⟨by simp [getLoop, hk], ?_⟩, ?_⟩
      · simpa [getLoop, hk] using hd.1
      · simp [getLoop, hk]
    · have hwrite := hd.write (writeToFile (env.write k)
        (chunk content start size (chunkSize env.server) k)).1
      cases herr : (writeToFile (env.write k)
          (chunk content start size (chunkSize env.server) k)).2 with
      | some error =>
        refine ⟨.failed k, Ends.failed k hn hk (Or.inr (Or.inr (by simp [WriteFails, herr]))),
          ⟨⟨error, by simp [getLoop, hk, herr]⟩, ?_⟩, ?_⟩
        · exact ⟨_, by simpa [getLoop, hk, herr] using hwrite.1⟩
        · intro p hp
          simp only [getLoop, hk, herr]
          exact Store.write_ne hp _
      | none =>
        rw [writeToFile_all herr, List.append_assoc, got_succ h] at hwrite
        obtain ⟨o, hends, hleaves, hframe⟩ := ih (total + (chunk content start size
          (chunkSize env.server) k).length) hwrite
        have hbad : ¬ Bad env content start size k := by
          rintro (hnone | hfault | hfail)
          · exact hm hnone
          · exact hf hfault
          · exact hfail herr
        refine ⟨o, Ends.next k o hn hk hbad hends, ?_, ?_⟩
        · simp only [getLoop, hk, herr, writeToFile_all herr]
          simpa using hleaves
        · intro p hp
          simp only [getLoop, hk, herr, writeToFile_all herr]
          exact (hframe p (by simpa using hp)).trans (Store.write_ne hp _)

end writing

/-! ### `sftpGet` -/

section get

open Lib.Poll

/-- The position `sftpGet` reads from when it is asked to resume at `offset`. -/
def resumeStart (env : GetEnv) (content : List UInt8) (offset : ℕ) : ℕ :=
  if 0 < offset ∧ offset < content.length ∧ env.sftp_seek64 = true then offset else 0

/-- The remote file can be opened and holds `content`. -/
structure Opens (env : GetEnv) (remote : Store String) (url : Url) (content : List UInt8) : Prop
    where
  login : env.login = .pass
  sftp_stat : env.sftp_stat = none
  content : remote.content url.path = some content
  sftp_open : env.sftp_open = true
  sftp_read : env.sftp_read = true

variable {env : GetEnv} {remote disk : Store String} {url : Url} {content : List UInt8}
  {offset : ℕ} {fd : Handle String}

lemma Opens.unique {content' : List UInt8} (h : Opens env remote url content)
    (h' : Opens env remote url content') : content = content' := by
  simpa [h.content] using h'.content

lemma sftpGet_opens (h : Opens env remote url content) (offset : ℤ) (fd : Option (Handle String))
    (disk : Store String) :
    sftpGet env remote url offset fd disk = getContent env url content offset fd disk := by
  obtain ⟨a, ha⟩ := Store.content_eq_some.mp h.content
  simp [sftpGet, h.login, h.sftp_stat, ha, h.sftp_open, h.sftp_read]

lemma sftpGet_refuses (h : ∀ content, ¬ Opens env remote url content) (offset : ℤ)
    (fd : Option (Handle String)) (disk : Store String) :
    ∃ error text, sftpGet env remote url offset fd disk = ⟨.fail error text, disk, []⟩ := by
  unfold sftpGet
  split
  · exact ⟨_, _, rfl⟩
  · rename_i hlogin
    split
    · exact ⟨_, _, rfl⟩
    · exact ⟨_, _, rfl⟩
    · rename_i sb hstat hsb
      split
      · exact ⟨_, _, rfl⟩
      · exact ⟨_, _, rfl⟩
      · exact ⟨_, _, rfl⟩
      · rename_i content hkind
        split_ifs with ho hr
        · exact ⟨_, _, rfl⟩
        · exact ⟨_, _, rfl⟩
        · refine absurd ⟨hlogin, hstat, ?_, by simpa using ho, by simpa using hr⟩ (h content)
          exact Store.content_eq_some.mpr ⟨sb.attrs, by rw [hsb, ← hkind]⟩

/-- What `sftpGet` leaves when the file held `pre`, by the way its loop ends. -/
def Delivers (env : GetEnv) (url : Url) (content : List UInt8) (start : ℕ) (pre : List UInt8)
    (path : String) (g : Got WorkerResult) : Outcome → Prop
  | .completed => g.result = .pass ∧
      g.disk.kindAt path = some (.file (pre ++ content.drop start))
  | .killed j => g.result = .pass ∧
      g.disk.kindAt path = some
        (.file (pre ++ got env content start (content.length - start) j))
  | .failed _ => (∃ error, g.result = .fail error url.text) ∧
      ∃ data, g.disk.kindAt path = some (.file data)

variable {pre : List UInt8}

lemma getLoop_start (env : GetEnv) (url : Url) (content : List UInt8) (start total : ℕ)
    (hd : disk.AtEnd fd pre) :
    ∃ o, Ends (Needed env (content.length - start)) (Killed env)
        (Bad env content start (content.length - start)) 0 o ∧
      Leaves env content start (content.length - start) url pre fd.path
        (getLoop env url 0 total (some fd) disk
          (asyncRead env.server content start (content.length - start))) o ∧
      ∀ p, p ≠ fd.path → (getLoop env url 0 total (some fd) disk
        (asyncRead env.server content start (content.length - start))).disk p = disk p := by
  cases hm : env.server.max_read_length with
  | none =>
    have hn : Needed env (content.length - start) 0 := by simp [Needed, hm]
    have hb : Bad env content start (content.length - start) 0 := Or.inl hm
    have hrs : asyncRead env.server content start (content.length - start) =
        [⟨[], some .ERR_CANNOT_READ⟩] := by simp [asyncRead, hm]
    rw [hrs]
    by_cases hk : env.wasKilled 0 = true
    · refine ⟨.killed 0, Ends.killed 0 hn hk, ⟨by simp [getLoop, hk], ?_⟩, ?_⟩
      · simpa [getLoop, hk, got] using hd.1
      · simp [getLoop, hk]
    · refine ⟨.failed 0, Ends.failed 0 hn hk hb, ⟨⟨.ERR_CANNOT_READ, ?_⟩, pre, ?_⟩, ?_⟩
      · simp [getLoop, hk]
      · simpa [getLoop, hk] using hd.1
      · simp [getLoop, hk]
  | some m =>
    have hc : chunkSize env.server = min m MAX_XFER_BUF_SIZE := by simp [chunkSize, hm]
    refine getLoop_ends total (by simp [hm]) ?_ (by simpa [got] using hd)
    rw [hc]
    exact Read.asyncRead_reads hm content start _

lemma getContent_ends (env : GetEnv) (url : Url) (content : List UInt8) (offset : ℕ)
    (hd : disk.AtEnd fd pre) :
    ∃ o, Ends (Needed env (content.length - resumeStart env content offset)) (Killed env)
        (Bad env content (resumeStart env content offset)
          (content.length - resumeStart env content offset)) 0 o ∧
      Delivers env url content (resumeStart env content offset) pre fd.path
        (getContent env url content offset (some fd) disk) o ∧
      ∀ p, p ≠ fd.path → (getContent env url content offset (some fd) disk).disk p = disk p := by
  have hstart : (if decide ((0 : ℤ) < (offset : ℤ) ∧ (offset : ℤ) < (content.length : ℤ) ∧
      env.sftp_seek64 = true) = true then (offset : ℤ).toNat else 0) =
      resumeStart env content offset := by
    simp [resumeStart]
  obtain ⟨o, hends, hleaves, hframe⟩ := getLoop_start env url content
    (resumeStart env content offset) (resumeStart env content offset) hd
  have hoff : ¬ (offset : ℤ) < 0 := by omega
  refine ⟨o, hends, ?_, ?_⟩
  · cases o with
    | completed =>
      obtain ⟨hres, hkind⟩ := hleaves
      have htake : (content.drop (resumeStart env content offset)).take
          (content.length - resumeStart env content offset) =
          content.drop (resumeStart env content offset) := by
        rw [List.take_of_length_le]; simp
      rw [htake] at hkind
      simp only [Delivers, getContent, hoff, if_false, hstart, hres]
      exact ⟨trivial, hkind⟩
    | killed j =>
      obtain ⟨hres, hkind⟩ := hleaves
      simp only [Delivers, getContent, hoff, if_false, hstart, hres]
      exact ⟨trivial, hkind⟩
    | failed j =>
      obtain ⟨⟨error, hres⟩, hkind⟩ := hleaves
      simp only [Delivers, getContent, hoff, if_false, hstart, hres]
      exact ⟨⟨error, rfl⟩, hkind⟩
  · intro p hp
    simp only [getContent, hoff, if_false, hstart]
    split <;> exact hframe p hp

end get

end Get

end KioExtras.Sftp
