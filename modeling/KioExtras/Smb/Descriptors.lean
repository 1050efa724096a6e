import KioExtras.Lib.Handles
import KioExtras.Smb.CopyGet
import Mathlib

/-!
The descriptors of libsmbclient: what the file job, `smbCopy`, `smbCopyGet` and `put` open and
close, with the calls of the scope guards.

A descriptor is the number of the successful call of `smbc_open` that returned it, or `none` for a
negative one; so a number that libsmbclient uses again is another descriptor.
-/

namespace KioExtras.Smb.Descriptors

open KioExtras.Kio KioExtras.Lib.Run KioExtras.Lib.FileStore KioExtras.Lib.Handles

abbrev Descriptor := Option ℕ

/-! ### The file job -/

/-- `opened` counts the descriptors there have been; the calls stand with the latest first. -/
structure Worker where
  m_openFd : Descriptor
  m_openUrl : SMBUrl
  opened : ℕ
  calls : List (Call Descriptor)

def initial : Worker := ⟨none, .null, 0, []⟩

/-- What the calls in `open` return; the file is read for its mimetype when it is opened for
reading. -/
structure OpenAnswer where
  checkURL : SMBUrl
  isValid : Bool
  cache_stat : Except Errno Bool
  smbc_open : Bool
  readOnly : Bool
  smbc_read : Bool
  smbc_lseek : Bool

def closeWithoutFinish (w : Worker) : Worker := { w with calls := .closes w.m_openFd :: w.calls }

/-- A call with the descriptor; with a negative one it fails. -/
def call (w : Worker) (ok : Bool) : Worker × Bool :=
  ({ w with calls := .uses w.m_openFd :: w.calls }, ok && w.m_openFd.isSome)

def openFile (w : Worker) (o : OpenAnswer) : Worker × WorkerResult :=
  if o.smbc_open = false then
    ({ w with m_openFd := none },
      .fail .ERR_CANNOT_OPEN_FOR_READING w.m_openUrl.toDisplayString)
  else
    let w := { w with
      m_openFd := some w.opened
      opened := w.opened + 1
      calls := .opens (some w.opened) :: w.calls }
    if o.readOnly = false then (w, .pass)
    else
      match call w o.smbc_read with
      | (w, false) =>
        (closeWithoutFinish w, .fail .ERR_CANNOT_READ w.m_openUrl.toDisplayString)
      | (w, true) =>
        match call w o.smbc_lseek with
        | (w, false) => (closeWithoutFinish w, .fail .ERR_CANNOT_SEEK w.m_openUrl.path)
        | (w, true) => (w, .pass)

/-- `cache_stat` says whether it is a directory. -/
def Worker.open (w : Worker) (kurl : SMBUrl) (o : OpenAnswer) : Worker × WorkerResult :=
  if o.checkURL ≠ kurl then (w, .pass)
  else if o.isValid = false then (w, .fail .ERR_ACCESS_DENIED kurl.toDisplayString)
  else
    let w := { w with m_openUrl := kurl }
    match o.cache_stat with
    | .error .EACCES => (w, .fail .ERR_ACCESS_DENIED kurl.toDisplayString)
    | .error _ => (w, .fail .ERR_DOES_NOT_EXIST kurl.toDisplayString)
    | .ok true => (w, .fail .ERR_IS_DIRECTORY kurl.toDisplayString)
    | .ok false => openFile w o

/-- The commands of a file job that make one call with the descriptor. -/
inductive Command
  | read
  | write
  | seek
  | truncate
  deriving DecidableEq

def Command.failure (w : Worker) : Command → WorkerResult
  | .read => .fail .ERR_CANNOT_READ w.m_openUrl.toDisplayString
  | .write => .fail .ERR_CANNOT_WRITE w.m_openUrl.toDisplayString
  | .seek => .fail .ERR_CANNOT_SEEK w.m_openUrl.path
  | .truncate => .fail .ERR_CANNOT_TRUNCATE w.m_openUrl.path

def command (w : Worker) (c : Command) (ok : Bool) : Worker × WorkerResult :=
  match call w ok with
  | (w, true) => (w, .pass)
  | (w, false) => (closeWithoutFinish w, c.failure w)

def close (w : Worker) : Worker × WorkerResult := (closeWithoutFinish w, .pass)

inductive Label
  | open (kurl : SMBUrl) (o : OpenAnswer)
  | command (c : Command) (ok : Bool)
  | close

def step (w : Worker) : Label → Option Worker
  | .open kurl o => some (w.open kurl o).1
  | .command c ok => some (command w c ok).1
  | .close => some (close w).1

/-! ### Copies and transfers -/

/-- What a function returns, and the calls it made. -/
structure Ran where
  result : WorkerResult
  calls : List (Call Descriptor)

/-- What `smbCopy` is answered before its loop; `cache_stat` says whether it is a directory. -/
structure CopyEnv where
  stat_src : Except Errno Bool
  stat_dst : Except Errno Bool
  open_src : Option Errno
  open_dst : Option Errno
  smbc_close : Bool

/-- What one round of the loop meets: the kill flag, an error, the end of the source, or a segment
that is written or not. -/
inductive Round
  | killed
  | readError
  | finished
  | segment (written : Bool)

/-- The loop ends with a result when it fails. The source is the first descriptor, the destination
the second. -/
def copyLoop (src dst : SMBUrl) : List Round → Option (Option WorkerResult × List (Call Descriptor))
  | [] => none
  | .killed :: _ => some (none, [])
  | .readError :: _ =>
    some (some (.fail .ERR_CANNOT_READ src.toDisplayString), [.uses (some 0)])
  | .finished :: _ => some (none, [.uses (some 0)])
  | .segment false :: _ =>
    some (some (.fail .ERR_CANNOT_WRITE dst.toDisplayString),
      [.uses (some 1), .uses (some 0)])
  | .segment true :: rest =>
    (copyLoop src dst rest).map fun (result, calls) =>
      (result, calls ++ [.uses (some 1), .uses (some 0)])

def guards (dstfd srcfd : Descriptor) : List (Call Descriptor) := [.closes srcfd, .closes dstfd]

/-- From the opening of the source on; `none` while the loop has not ended. -/
def copyOpened (env : CopyEnv) (src dst : SMBUrl) (rounds : List Round) : Option Ran :=
  match env.open_src with
  | some .EACCES => some ⟨.fail .ERR_ACCESS_DENIED src.toDisplayString, [.closes none]⟩
  | some _ => some ⟨.fail .ERR_CANNOT_OPEN_FOR_READING src.toDisplayString, [.closes none]⟩
  | none =>
    match env.open_dst with
    | some .EACCES => some ⟨.fail .ERR_WRITE_ACCESS_DENIED dst.toDisplayString,
        guards none (some 0) ++ [.opens (some 0)]⟩
    | some _ => some ⟨.fail .ERR_CANNOT_OPEN_FOR_WRITING dst.toDisplayString,
        guards none (some 0) ++ [.opens (some 0)]⟩
    | none =>
      (copyLoop src dst rounds).map fun (failed, calls) =>
        let calls := calls ++ [.opens (some 1), .opens (some 0)]
        match failed with
        | some result => ⟨result, guards (some 1) (some 0) ++ calls⟩
        | none =>
          let result := if env.smbc_close then .pass
            else .fail .ERR_CANNOT_WRITE dst.toDisplayString
          ⟨result, guards (some 1) (some 0) ++ .closes (some 1) :: .closes (some 0) :: calls⟩

def smbCopy (env : CopyEnv) (src dst : SMBUrl) (flags : JobFlags) (rounds : List Round) :
    Option Ran :=
  match env.stat_src with
  | .error .EACCES => some ⟨.fail .ERR_ACCESS_DENIED src.toDisplayString, []⟩
  | .error _ => some ⟨.fail .ERR_DOES_NOT_EXIST src.toDisplayString, []⟩
  | .ok true => some ⟨.fail .ERR_IS_DIRECTORY src.toDisplayString, []⟩
  | .ok false =>
    match env.stat_dst with
    | .error _ => copyOpened env src dst rounds
    | .ok true => some ⟨.fail .ERR_DIR_ALREADY_EXIST dst.toDisplayString, []⟩
    | .ok false =>
      if flags.Overwrite then copyOpened env src dst rounds
      else some ⟨.fail .ERR_FILE_ALREADY_EXIST dst.toDisplayString, []⟩

structure PutEnv where
  cache_stat : Except Errno Bool
  smbc_open : Option Errno
  smbc_lseek : Option Errno
  smbc_close : Bool

/-- What one round of the loop meets: the kill flag, the end of the data, or data that are written
or not. -/
inductive PutRound
  | killed
  | noData
  | data (written : Bool)

/-- The result when a write fails, and the calls. -/
def putLoop (url : SMBUrl) : List PutRound → Option (Option WorkerResult × List (Call Descriptor))
  | [] => none
  | .killed :: _ => some (none, [])
  | .noData :: _ => some (none, [])
  | .data false :: _ =>
    some (some (.fail .ERR_CANNOT_WRITE url.toDisplayString), [.uses (some 0)])
  | .data true :: rest =>
    (putLoop url rest).map fun (result, calls) => (result, calls ++ [.uses (some 0)])

/-- To resume the file is opened and wound to its end, even if it could not be opened; the error
is then that of the call that winds. -/
def openPut (env : PutEnv) (Resume : Bool) : Option Errno × List (Call Descriptor) :=
  match env.smbc_open with
  | none => (none, if Resume then [.uses (some 0), .opens (some 0)] else [.opens (some 0)])
  | some errNum =>
    if Resume then (some (env.smbc_lseek.getD (.other 0)), [.uses none])
    else (some errNum, [])

def putOpened (env : PutEnv) (url : SMBUrl) (flags : JobFlags) (rounds : List PutRound) :
    Option Ran :=
  match openPut env flags.Resume with
  | (some .EACCES, calls) => some ⟨.fail .ERR_WRITE_ACCESS_DENIED url.toDisplayString, calls⟩
  | (some _, calls) => some ⟨.fail .ERR_CANNOT_OPEN_FOR_WRITING url.toDisplayString, calls⟩
  | (none, calls) =>
    (putLoop url rounds).map fun (failed, more) =>
      match failed with
      | some result => ⟨result, .closes (some 0) :: (more ++ calls)⟩
      | none =>
        let result := if env.smbc_close then .pass
          else .fail .ERR_CANNOT_WRITE url.toDisplayString
        ⟨result, .closes (some 0) :: .closes (some 0) :: (more ++ calls)⟩

def put (env : PutEnv) (url : SMBUrl) (flags : JobFlags) (rounds : List PutRound) : Option Ran :=
  match env.cache_stat with
  | .error _ => putOpened env url flags rounds
  | .ok isDir =>
    if flags.Overwrite || flags.Resume then putOpened env url flags rounds
    else if isDir then some ⟨.fail .ERR_DIR_ALREADY_EXIST url.toDisplayString, []⟩
    else some ⟨.fail .ERR_FILE_ALREADY_EXIST url.toDisplayString, []⟩

/-! ### The copy to the disk -/

/-- How `smbCopyGet` is to go on where it gets to open the source. -/
def opensSource (env : CopyGet.Env) (disk : Store String) (remote : Store SMBUrl)
    (ksrc kdst : SMBUrl) (permissions : ℤ) (flags : JobFlags) : Option Resume.TransferContext :=
  let dstInfo := disk.stat kdst.path
  if dstInfo.isSome && (dstInfo.map fun n => n.kind.isDir).getD false then none
  else if dstInfo.isSome && !flags.Overwrite then none
  else
    match Resume.shouldResume ( Resume.QFileResumeIO env.calls) env.MarkPartial env.canResume disk
      kdst flags with
    | .error _ => none
    | .ok resume =>
      let disk := if resume.resuming then disk
        else CopyGet.setPermissions env disk resume.destination.path permissions
      match CopyGet.openOutput env disk resume kdst, env.stat, remote.stat ksrc with
      | .ok _, none, some st => if st.kind.isDir then none else some resume
      | _, _, _ => none

def sourceCalls (env : CopyGet.Env) (resume : Resume.TransferContext) : List (Call Descriptor) :=
  match env.smbc_open with
  | some _ => [.closes none]
  | none =>
    if resume.resuming && !env.smbc_lseek then
      [.closes (some 0), .uses (some 0), .opens (some 0)]
    else if resume.resuming then [.uses (some 0), .opens (some 0)]
    else [.opens (some 0)]

def startCalls (env : CopyGet.Env) (disk : Store String) (remote : Store SMBUrl)
    (ksrc kdst : SMBUrl) (permissions : ℤ) (flags : JobFlags) : List (Call Descriptor) :=
  match opensSource env disk remote ksrc kdst permissions flags with
  | none => []
  | some resume => sourceCalls env resume

/-- The calls in a step of the threads; at the end the source is closed, and then the guard
closes it. -/
def stepCalls : CopyGet.Label → List (Call Descriptor)
  | .read _ => [.uses (some 0)]
  | .conclude => [.closes (some 0), .closes (some 0)]
  | _ => []

/-- `smbCopyGet` with its calls. -/
def getStep (env : CopyGet.Env) (s : CopyGet.Phase × List (Call Descriptor)) (l : CopyGet.Label) :
    Option (CopyGet.Phase × List (Call Descriptor)) :=
  (CopyGet.step env s.1 l).map fun p => (p, stepCalls l ++ s.2)

/-! ### The file job in order -/

def IsOpen (w : Worker) : Prop := w.m_openFd ≠ none ∧ .closes w.m_openFd ∉ w.calls

instance (w : Worker) : Decidable (IsOpen w) :=
  inferInstanceAs (Decidable (w.m_openFd ≠ none ∧ .closes w.m_openFd ∉ w.calls))

def OpenAnswer.reaches (o : OpenAnswer) (kurl : SMBUrl) : Bool :=
  match o.cache_stat with
  | .ok false => decide (o.checkURL = kurl) && o.isValid
  | _ => false

/-- A file is opened only when none is open, and a command comes only to an open file. -/
def InOrder (w : Worker) : Label → Prop
  | .open kurl o => o.reaches kurl = true → ¬ IsOpen w
  | .command _ _ => IsOpen w
  | .close => IsOpen w

/-- What holds of the descriptors at any time: they are closed once at most, not used after that,
no negative one is closed, and none is lost. -/
structure Proper (w : Worker) : Prop where
  orderly : Orderly w.calls
  closed : ∀ h, .opens h ∈ w.calls → .closes h ∈ w.calls ∨ w.m_openFd = h

structure Invariant (w : Worker) : Prop extends Proper w where
  numbers : ∀ n, .opens (some n) ∈ w.calls → n < w.opened
  positive : .opens none ∉ w.calls
  current : w.m_openFd ≠ none → .opens w.m_openFd ∈ w.calls

lemma initial_invariant : Invariant initial where
  orderly := trivial
  closed _ hmem := absurd hmem List.not_mem_nil
  numbers _ hmem := absurd hmem List.not_mem_nil
  positive := List.not_mem_nil
  current h := absurd rfl h

variable {w t : Worker}

lemma Invariant.call (h : Invariant w) (hopen : IsOpen w) (ok : Bool) :
    Invariant (call w ok).1 ∧ IsOpen (call w ok).1 where
  left := {
    orderly := ⟨hopen.2, h.orderly⟩
    closed := fun h' hmem => by
      simpa [Descriptors.call] using h.closed h' (by simpa [Descriptors.call] using hmem)
    numbers := fun n hmem => h.numbers n (by simpa [Descriptors.call] using hmem)
    positive := by simpa [Descriptors.call] using h.positive
    current := fun hne => by simpa [Descriptors.call] using h.current hne }
  right := ⟨hopen.1, by simpa [Descriptors.call] using hopen.2⟩

lemma Invariant.closeWithoutFinish (h : Invariant w) (hopen : IsOpen w) :
    Invariant (closeWithoutFinish w) where
  orderly := ⟨hopen.2, h.current hopen.1, h.orderly⟩
  closed h' hmem := by
    rcases h.closed h' (by simpa [Descriptors.closeWithoutFinish] using hmem) with hclosed | hcur
    · exact Or.inl (List.mem_cons_of_mem _ hclosed)
    · exact Or.inr hcur
  numbers n hmem := h.numbers n (by simpa [Descriptors.closeWithoutFinish] using hmem)
  positive := by simpa [Descriptors.closeWithoutFinish] using h.positive
  current hne := by simpa [Descriptors.closeWithoutFinish] using h.current hne

lemma command_invariant (h : Invariant w) (hopen : IsOpen w) (c : Command) (ok : Bool) :
    Invariant (command w c ok).1 := by
  obtain ⟨hcalled, hstill⟩ := h.call hopen ok
  unfold command
  rcases hc : call w ok with ⟨w', succeeded⟩
  rw [hc] at hcalled hstill
  cases succeeded with
  | true => exact hcalled
  | false => exact hcalled.closeWithoutFinish hstill

lemma Invariant.opens (h : Invariant w) (hopen : ¬ IsOpen w) :
    Invariant { w with
      m_openFd := some w.opened
      opened := w.opened + 1
      calls := .opens (some w.opened) :: w.calls } where
  orderly := h.orderly
  closed h' hmem := by
    rcases List.mem_cons.mp hmem with heq | hmem
    · right
      simpa using heq.symm
    · left
      rcases h.closed h' hmem with hclosed | rfl
      · exact List.mem_cons_of_mem _ hclosed
      · by_contra hnot
        refine hopen ⟨fun hnone => ?_, fun hclosed => hnot (List.mem_cons_of_mem _ hclosed)⟩
        rw [hnone] at hmem
        exact h.positive hmem
  numbers n hmem := by
    rcases List.mem_cons.mp hmem with heq | hmem
    · obtain rfl : n = w.opened := by simpa using heq
      exact Nat.lt_succ_self _
    · exact Nat.lt_succ_of_lt (h.numbers n hmem)
  positive hmem := h.positive (by simpa using hmem)
  current _ := List.mem_cons_self

lemma opened_isOpen (h : Invariant w) :
    IsOpen { w with
      m_openFd := some w.opened
      opened := w.opened + 1
      calls := .opens (some w.opened) :: w.calls } := by
  refine ⟨by simp, fun hmem => ?_⟩
  have hclosed : .closes (some w.opened) ∈ w.calls := by simpa using hmem
  have hlt := h.numbers w.opened (h.orderly.opens_of_closes hclosed)
  exact Nat.lt_irrefl _ hlt

lemma openFile_invariant (h : Invariant w) (hopen : ¬ IsOpen w) (o : OpenAnswer) :
    Invariant (openFile w o).1 := by
  unfold openFile
  split_ifs with hfailed hread
  · refine ⟨⟨h.orderly, fun h' hmem => ?_⟩, h.numbers, h.positive, fun hne => absurd rfl hne⟩
    left
    rcases h.closed h' hmem with hclosed | rfl
    · exact hclosed
    · by_contra hnot
      refine hopen ⟨fun hnone => ?_, hnot⟩
      rw [hnone] at hmem
      exact h.positive hmem
  · exact h.opens hopen
  · have hopened := h.opens hopen
    obtain ⟨hcalled, hstill⟩ := hopened.call (opened_isOpen h) o.smbc_read
    dsimp only
    rcases hc : call { w with
      m_openFd := some w.opened
      opened := w.opened + 1
      calls := .opens (some w.opened) :: w.calls } o.smbc_read with ⟨w', succeeded⟩
    rw [hc] at hcalled hstill
    cases succeeded with
    | false => exact hcalled.closeWithoutFinish hstill
    | true =>
      obtain ⟨hwound, hstill'⟩ := hcalled.call hstill o.smbc_lseek
      dsimp only at hwound hstill' ⊢
      rcases hc' : call w' o.smbc_lseek with ⟨w'', succeeded⟩
      rw [hc'] at hwound hstill'
      cases succeeded with
      | false => exact hwound.closeWithoutFinish hstill'
      | true => exact hwound

lemma open_cases (w : Worker) (kurl : SMBUrl) (o : OpenAnswer) :
    (o.reaches kurl = true ∧ (w.open kurl o).1 = (openFile { w with m_openUrl := kurl } o).1) ∨
    (o.reaches kurl = false ∧ ∃ url, (w.open kurl o).1 = { w with m_openUrl := url }) := by
  unfold Worker.open OpenAnswer.reaches
  by_cases hurl : o.checkURL = kurl
  · cases hvalid : o.isValid with
    | false =>
      right
      refine ⟨?_, w.m_openUrl, by simp [hurl]⟩
      rcases o.cache_stat with errNum | isDir
      · rfl
      · cases isDir
        · simp
        · rfl
    | true =>
      rcases o.cache_stat with errNum | isDir
      · right
        refine ⟨rfl, kurl, ?_⟩
        cases errNum <;> simp [hurl]
      · cases isDir
        · left
          simp [hurl]
        · right
          exact ⟨rfl, kurl, by simp [hurl]⟩
  · right
    refine ⟨?_, w.m_openUrl, by simp [hurl]⟩
    rcases o.cache_stat with errNum | isDir
    · rfl
    · cases isDir
      · simp [hurl]
      · rfl

lemma Invariant.url (h : Invariant w) (url : SMBUrl) : Invariant { w with m_openUrl := url } :=
  ⟨⟨h.orderly, h.closed⟩, h.numbers, h.positive, h.current⟩

variable {l : Label} {dst src : SMBUrl} {flags : JobFlags} {env : PutEnv}

lemma step_invariant (h : Invariant w) (hl : InOrder w l) (hs : step w l = some t) :
    Invariant t := by
  cases l with
  | «open» kurl o =>
    obtain rfl := Option.some.inj hs
    rcases open_cases w kurl o with ⟨hreaches, heq⟩ | ⟨_, url, heq⟩
    · rw [heq]
      exact openFile_invariant (h.url kurl) (hl hreaches) o
    · rw [heq]
      exact h.url url
  | command c ok =>
    obtain rfl := Option.some.inj hs
    exact command_invariant h hl c ok
  | close =>
    obtain rfl := Option.some.inj hs
    exact h.closeWithoutFinish hl

/-! ### A command out of order -/

lemma not_orderly_close (h : Invariant w) (hopen : ¬ IsOpen w) :
    ¬ Orderly (closeWithoutFinish w).calls := by
  refine not_orderly_closes ?_
  by_cases hnone : w.m_openFd = none
  · right
    rw [hnone]
    exact h.positive
  · left
    by_contra hnot
    exact hopen ⟨hnone, hnot⟩

lemma not_orderly_command (h : Invariant w) (hopen : ¬ IsOpen w) (c : Command) (ok : Bool) :
    ¬ Orderly (command w c ok).1.calls := by
  by_cases hnone : w.m_openFd = none
  · have heq : (command w c ok).1 =
        { w with calls := .closes none :: .uses none :: w.calls } := by
      simp [command, call, hnone, closeWithoutFinish]
    rw [heq]
    refine not_orderly_closes (Or.inr fun hmem => h.positive ?_)
    simpa using hmem
  · intro hall
    have huses : Orderly (.uses w.m_openFd :: w.calls) := by
      unfold command call at hall
      cases hok : (ok && w.m_openFd.isSome) with
      | true =>
        rw [hok] at hall
        exact hall
      | false =>
        rw [hok] at hall
        exact hall.2.2
    exact hopen ⟨hnone, huses.1⟩

lemma not_proper_openFile (h : Invariant w) (hopen : IsOpen w) (o : OpenAnswer) :
    ¬ Proper (openFile w o).1 := by
  intro hproper
  obtain ⟨n, hn⟩ := Option.ne_none_iff_exists'.mp hopen.1
  have hmem : .opens (some n) ∈ w.calls := hn ▸ h.current hopen.1
  have hnot : .closes (some n) ∉ w.calls := hn ▸ hopen.2
  have hlt := h.numbers n hmem
  have hne : n ≠ w.opened := Nat.ne_of_lt hlt
  have hcases : (openFile w o).1.m_openFd ≠ some n ∧ .opens (some n) ∈ (openFile w o).1.calls ∧
      .closes (some n) ∉ (openFile w o).1.calls := by
    unfold openFile
    cases hopened : o.smbc_open with
    | false => simp [hmem, hnot]
    | true =>
      cases hread : o.readOnly with
      | false => simp [hmem, hnot, hne.symm]
      | true =>
        cases hr : o.smbc_read with
        | false => simp [call, closeWithoutFinish, hmem, hnot, hne, hne.symm]
        | true =>
          cases hs : o.smbc_lseek with
          | false => simp [call, closeWithoutFinish, hmem, hnot, hne, hne.symm]
          | true => simp [call, hmem, hnot, hne.symm]
  obtain ⟨hfd, hopens, hcloses⟩ := hcases
  rcases hproper.closed (some n) hopens with hclosed | hcur
  · exact hcloses hclosed
  · exact hfd hcur

lemma step_not_proper (h : Invariant w) (hl : ¬ InOrder w l) :
    ∃ t, step w l = some t ∧ ¬ Proper t := by
  cases l with
  | «open» kurl o =>
    obtain ⟨hreaches, hopen⟩ : o.reaches kurl = true ∧ IsOpen w := by
      simpa [InOrder] using hl
    refine ⟨_, rfl, ?_⟩
    rcases open_cases w kurl o with ⟨_, heq⟩ | ⟨hno, _⟩
    · rw [heq]
      exact not_proper_openFile (h.url kurl) hopen o
    · rw [hreaches] at hno
      cases hno
  | command c ok => exact ⟨_, rfl, fun hproper => not_orderly_command h hl c ok hproper.orderly⟩
  | close => exact ⟨_, rfl, fun hproper => not_orderly_close h hl hproper.orderly⟩

/-! ### The functions that copy -/

def CopyEnv.opensSource (env : CopyEnv) (flags : JobFlags) : Bool :=
  match env.stat_src, env.stat_dst with
  | .ok false, .ok true => false
  | .ok false, .ok false => flags.Overwrite
  | .ok false, .error _ => true
  | _, _ => false

/-- The loop ends with a read or a write that fails. -/
def fails : List Round → Bool
  | .readError :: _ => true
  | .segment false :: _ => true
  | .segment true :: rest => fails rest
  | _ => false

def PutEnv.opens (env : PutEnv) (flags : JobFlags) : Bool :=
  match env.cache_stat with
  | .ok _ => flags.Overwrite || flags.Resume
  | .error _ => true

def writeFails : List PutRound → Bool
  | .data false :: _ => true
  | .data true :: rest => writeFails rest
  | _ => false

def OnlyUses (calls : List (Call Descriptor)) : Prop := ∀ c ∈ calls, ∃ h, c = .uses h

variable {calls : List (Call Descriptor)} {ran : Ran}

lemma OnlyUses.append {more : List (Call Descriptor)} (h : OnlyUses calls) (hmore : OnlyUses more) :
    OnlyUses (calls ++ more) := by
  intro c hc
  rcases List.mem_append.mp hc with hc | hc
  · exact h c hc
  · exact hmore c hc

lemma OnlyUses.not_closes (h : OnlyUses calls) (d : Descriptor) : .closes d ∉ calls := by
  intro hmem
  obtain ⟨_, heq⟩ := h _ hmem
  cases heq

lemma OnlyUses.not_opens (h : OnlyUses calls) (d : Descriptor) : .opens d ∉ calls := by
  intro hmem
  obtain ⟨_, heq⟩ := h _ hmem
  cases heq

lemma onlyUses_one (d : Descriptor) : OnlyUses [.uses d] := by
  intro c hc
  exact ⟨d, List.mem_singleton.mp hc⟩

lemma copyLoop_spec {rounds : List Round} {failed : Option WorkerResult}
    (h : copyLoop src dst rounds = some (failed, calls)) :
    failed.isSome = fails rounds ∧ OnlyUses calls := by
  induction rounds generalizing failed calls with
  | nil => cases h
  | cons r rounds ih =>
    cases r with
    | killed =>
      obtain ⟨rfl, rfl⟩ := Prod.mk.inj (Option.some.inj h)
      exact ⟨rfl, fun c hc => absurd hc List.not_mem_nil⟩
    | readError =>
      obtain ⟨rfl, rfl⟩ := Prod.mk.inj (Option.some.inj h)
      exact ⟨rfl, onlyUses_one _⟩
    | finished =>
      obtain ⟨rfl, rfl⟩ := Prod.mk.inj (Option.some.inj h)
      exact ⟨rfl, onlyUses_one _⟩
    | segment written =>
      have hboth : OnlyUses [.uses (some 1), .uses (some 0)] :=
        (onlyUses_one (some 1)).append (onlyUses_one (some 0))
      cases written with
      | false =>
        obtain ⟨rfl, rfl⟩ := Prod.mk.inj (Option.some.inj h)
        exact ⟨rfl, hboth⟩
      | true =>
        obtain ⟨⟨failed', calls'⟩, hrest, heq⟩ := Option.map_eq_some_iff.mp h
        obtain ⟨rfl, rfl⟩ := Prod.mk.inj heq
        obtain ⟨hfails, huses⟩ := ih hrest
        exact ⟨hfails, huses.append hboth⟩

lemma putLoop_spec {url : SMBUrl} {rounds : List PutRound} {failed : Option WorkerResult}
    (h : putLoop url rounds = some (failed, calls)) :
    failed.isSome = writeFails rounds ∧ OnlyUses calls := by
  induction rounds generalizing failed calls with
  | nil => cases h
  | cons r rounds ih =>
    cases r with
    | killed =>
      obtain ⟨rfl, rfl⟩ := Prod.mk.inj (Option.some.inj h)
      exact ⟨rfl, fun c hc => absurd hc List.not_mem_nil⟩
    | noData =>
      obtain ⟨rfl, rfl⟩ := Prod.mk.inj (Option.some.inj h)
      exact ⟨rfl, fun c hc => absurd hc List.not_mem_nil⟩
    | data written =>
      cases written with
      | false =>
        obtain ⟨rfl, rfl⟩ := Prod.mk.inj (Option.some.inj h)
        exact ⟨rfl, onlyUses_one _⟩
      | true =>
        obtain ⟨⟨failed', calls'⟩, hrest, heq⟩ := Option.map_eq_some_iff.mp h
        obtain ⟨rfl, rfl⟩ := Prod.mk.inj heq
        obtain ⟨hfails, huses⟩ := ih hrest
        exact ⟨hfails, huses.append (onlyUses_one _)⟩

lemma closedOnce_of_onlyUses (h : OnlyUses calls) : ClosedOnce calls :=
  ⟨orderly_of_not_closes h.not_closes, fun d hd => absurd hd (h.not_opens d)⟩

lemma not_closedOnce_twice {d : Descriptor} :
    ¬ ClosedOnce (.closes d :: .closes d :: calls) := fun h =>
  not_orderly_closes (Or.inl List.mem_cons_self) h.orderly

lemma smbCopy_cases (env : CopyEnv) (src dst : SMBUrl) (flags : JobFlags) (rounds : List Round) :
    (env.opensSource flags = true ∧ smbCopy env src dst flags rounds =
      copyOpened env src dst rounds) ∨
    (env.opensSource flags = false ∧ ∃ result, smbCopy env src dst flags rounds =
      some ⟨result, []⟩) := by
  unfold smbCopy CopyEnv.opensSource
  rcases env.stat_src with errNum | srcDir
  · right
    cases errNum <;> exact ⟨rfl, _, rfl⟩
  · cases srcDir
    · rcases env.stat_dst with errNum | dstDir
      · exact Or.inl ⟨rfl, rfl⟩
      · cases dstDir
        · cases hover : flags.Overwrite with
          | true => exact Or.inl ⟨rfl, rfl⟩
          | false => exact Or.inr ⟨rfl, _, rfl⟩
        · exact Or.inr ⟨rfl, _, rfl⟩
    · exact Or.inr ⟨rfl, _, rfl⟩

lemma copyOpened_closes_iff {env : CopyEnv} {rounds : List Round}
    (h : copyOpened env src dst rounds = some ran) :
    ClosedOnce ran.calls ↔ env.open_src = none ∧ env.open_dst = none ∧ fails rounds = true := by
  unfold copyOpened at h
  cases hsrc : env.open_src with
  | some errNum =>
    have hcalls : ran.calls = [.closes none] := by
      rw [hsrc] at h
      cases errNum <;> exact (Option.some.inj h) ▸ rfl
    rw [hcalls]
    exact iff_of_false (fun hclosed => absurd hclosed.orderly.2.1 List.not_mem_nil) (by simp)
  | none =>
    rw [hsrc] at h
    cases hdst : env.open_dst with
    | some errNum =>
      have hcalls : ran.calls = [.closes (some 0), .closes none, .opens (some 0)] := by
        rw [hdst] at h
        cases errNum <;> exact (Option.some.inj h) ▸ rfl
      rw [hcalls]
      exact iff_of_false (fun hclosed => absurd hclosed.orderly.2.2.2.1 (by simp)) (by simp)
    | none =>
      rw [hdst] at h
      obtain ⟨⟨failed, calls⟩, hloop, rfl⟩ := Option.map_eq_some_iff.mp h
      obtain ⟨hfails, huses⟩ := copyLoop_spec hloop
      cases failed with
      | some result =>
        have hno : ∀ d, .closes d ∉ calls ++ [.opens (some 1), .opens (some 0)] := by
          intro d hd
          rcases List.mem_append.mp hd with hd | hd
          · exact huses.not_closes d hd
          · simp at hd
        refine iff_of_true ⟨⟨?_, ?_, ?_, ?_, orderly_of_not_closes hno⟩, fun d hd => ?_⟩
          ⟨rfl, rfl, hfails.symm⟩
        · intro hd
          rcases List.mem_cons.mp hd with heq | hd
          · cases heq
          · exact hno _ hd
        · exact List.mem_cons_of_mem _ (List.mem_append_right _ (by simp))
        · exact hno _
        · exact List.mem_append_right _ (by simp)
        · have hopens : d = some 1 ∨ d = some 0 := by
            have hd' : .opens d ∈ calls ++ [.opens (some 1), .opens (some 0)] := by
              simpa [guards] using hd
            rcases List.mem_append.mp hd' with hd' | hd'
            · exact absurd hd' (huses.not_opens d)
            · simpa using hd'
          rcases hopens with rfl | rfl
          · simp [guards]
          · simp [guards]
      | none =>
        refine iff_of_false (fun hclosed => ?_) fun hall => ?_
        · exact hclosed.orderly.1 (by simp)
        · rw [hall.2.2] at hfails
          cases hfails

/-- `smbCopy` returns before it opens the source, or opens both files and fails in its loop. -/
lemma smbCopy_closes_iff {env : CopyEnv} {rounds : List Round}
    (h : smbCopy env src dst flags rounds = some ran) :
    ClosedOnce ran.calls ↔ env.opensSource flags = false ∨
      (env.open_src = none ∧ env.open_dst = none ∧ fails rounds = true) := by
  rcases smbCopy_cases env src dst flags rounds with ⟨hopens, heq⟩ | ⟨hno, result, heq⟩
  · rw [heq] at h
    rw [copyOpened_closes_iff h, hopens]
    simp
  · rw [heq] at h
    obtain rfl := Option.some.inj h
    exact iff_of_true (closedOnce_of_onlyUses fun c hc => absurd hc List.not_mem_nil) (Or.inl hno)

lemma openPut_opened (h : env.smbc_open = none) (Resume : Bool) :
    ∃ calls, openPut env Resume = (none, calls) ∧ (∀ d, .closes d ∉ calls) ∧
      ∀ d, .opens d ∈ calls ↔ d = some 0 := by
  cases Resume with
  | true => exact ⟨_, by simp only [openPut, h]; rfl, by simp, by simp⟩
  | false => exact ⟨_, by simp only [openPut, h]; rfl, by simp, by simp⟩

lemma openPut_failed {errNum : Errno} (h : env.smbc_open = some errNum) (Resume : Bool) :
    ∃ errNum' calls, openPut env Resume = (some errNum', calls) ∧ OnlyUses calls := by
  cases Resume with
  | true => exact ⟨_, _, by simp only [openPut, h]; rfl, onlyUses_one none⟩
  | false =>
    exact ⟨_, _, by simp only [openPut, h]; rfl, fun c hc => absurd hc List.not_mem_nil⟩

lemma putOpened_closes_iff {url : SMBUrl} {rounds : List PutRound}
    (h : putOpened env url flags rounds = some ran) :
    ClosedOnce ran.calls ↔ env.smbc_open ≠ none ∨ writeFails rounds = true := by
  unfold putOpened at h
  cases hopen : env.smbc_open with
  | some errNum =>
    obtain ⟨errNum', calls, heq, huses⟩ := openPut_failed hopen flags.Resume
    have hcalls : ran.calls = calls := by
      rw [heq] at h
      cases errNum' <;> exact (Option.some.inj h) ▸ rfl
    rw [hcalls]
    exact iff_of_true (closedOnce_of_onlyUses huses) (Or.inl (by simp))
  | none =>
    obtain ⟨calls, heq, hno, hopens⟩ := openPut_opened hopen flags.Resume
    rw [heq] at h
    obtain ⟨⟨failed, more⟩, hloop, rfl⟩ := Option.map_eq_some_iff.mp h
    obtain ⟨hfails, huses⟩ := putLoop_spec hloop
    cases failed with
    | some result =>
      have hclean : ∀ d, .closes d ∉ more ++ calls := by
        intro d hd
        rcases List.mem_append.mp hd with hd | hd
        · exact huses.not_closes d hd
        · exact hno d hd
      refine iff_of_true ⟨⟨hclean _, ?_, orderly_of_not_closes hclean⟩, fun d hd => ?_⟩
        (Or.inr hfails.symm)
      · exact List.mem_append_right _ ((hopens _).mpr rfl)
      · have hd' : .opens d ∈ more ++ calls := by simpa using hd
        rcases List.mem_append.mp hd' with hd' | hd'
        · exact absurd hd' (huses.not_opens d)
        · rw [(hopens d).mp hd']
          exact List.mem_cons_self
    | none =>
      refine iff_of_false not_closedOnce_twice ?_
      rw [← hfails]
      simp

lemma put_closes_iff {url : SMBUrl} {rounds : List PutRound}
    (h : put env url flags rounds = some ran) :
    ClosedOnce ran.calls ↔
      env.opens flags = false ∨ env.smbc_open ≠ none ∨ writeFails rounds = true := by
  have hnothing (result : WorkerResult) : ClosedOnce (Ran.mk result []).calls :=
    closedOnce_of_onlyUses fun c hc => absurd hc List.not_mem_nil
  unfold put at h
  unfold PutEnv.opens
  cases hstat : env.cache_stat with
  | error errNum =>
    rw [hstat] at h
    rw [putOpened_closes_iff h]
    simp
  | ok isDir =>
    rw [hstat] at h
    dsimp only at h ⊢
    cases hgo : flags.Overwrite || flags.Resume with
    | true =>
      rw [hgo, if_pos rfl] at h
      rw [putOpened_closes_iff h]
      simp
    | false =>
      rw [hgo, if_neg (by simp)] at h
      refine iff_of_true ?_ (Or.inl rfl)
      split_ifs at h
      · obtain rfl := Option.some.inj h
        exact hnothing _
      · obtain rfl := Option.some.inj h
        exact hnothing _

/-! ### The copy to the disk -/

section get

variable {env : CopyGet.Env} {disk : Store String} {remote : Store SMBUrl} {ksrc kdst : SMBUrl}
  {permissions : ℤ} {flags : JobFlags}

/-- `smbCopyGet` returns before the threads start, or they run; then the source is open. -/
lemma start_cases (env : CopyGet.Env) (disk : Store String) (remote : Store SMBUrl)
    (ksrc kdst : SMBUrl) (permissions : ℤ) (flags : JobFlags) :
    (∃ left, CopyGet.start env disk remote ksrc kdst permissions flags = .returned left ∧
      ∀ resume, opensSource env disk remote ksrc kdst permissions flags = some resume →
        env.smbc_open ≠ none ∨ (resume.resuming && !env.smbc_lseek) = true) ∨
    ∃ job c resume, CopyGet.start env disk remote ksrc kdst permissions flags = .running job c ∧
      opensSource env disk remote ksrc kdst permissions flags = some resume ∧
      env.smbc_open = none ∧ (resume.resuming && !env.smbc_lseek) = false := by
  unfold CopyGet.start opensSource
  dsimp only
  split_ifs with hdir hexists
  · exact Or.inl ⟨_, rfl, fun _ h => by cases h⟩
  · exact Or.inl ⟨_, rfl, fun _ h => by cases h⟩
  · cases Resume.shouldResume ( Resume.QFileResumeIO env.calls) env.MarkPartial env.canResume disk
      kdst flags with
    | error result => exact Or.inl ⟨_, rfl, fun _ h => by cases h⟩
    | ok resume =>
      dsimp only
      rcases CopyGet.openOutput env _ resume kdst with result | ⟨disk', file⟩
      · exact Or.inl ⟨_, rfl, fun _ h => by cases h⟩
      · unfold CopyGet.openSource
        dsimp only
        cases env.stat with
        | some errNum => exact Or.inl ⟨_, rfl, fun _ h => by cases h⟩
        | none =>
          cases remote.stat ksrc with
          | none => exact Or.inl ⟨_, rfl, fun _ h => by cases h⟩
          | some st =>
            dsimp only
            by_cases hstdir : st.kind.isDir = true
            · rw [if_pos hstdir, if_pos hstdir]
              exact Or.inl ⟨_, rfl, fun _ h => by cases h⟩
            · rw [if_neg hstdir, if_neg hstdir]
              cases env.smbc_open with
              | some errNum => exact Or.inl ⟨_, rfl, fun _ _ => Or.inl (by simp)⟩
              | none =>
                dsimp only
                cases hseek : resume.resuming && !env.smbc_lseek with
                | true =>
                  refine Or.inl ⟨_, rfl, fun resume' h => Or.inr ?_⟩
                  rw [← Option.some.inj h]
                  exact hseek
                | false => exact Or.inr ⟨_, _, resume, rfl, rfl, rfl, hseek⟩

variable {ls : List CopyGet.Label}

lemma getStep_closes {job : CopyGet.Job} {c : CopyGet.Copy} {before calls : List (Call Descriptor)}
    {left : Resume.Left String}
    (h : run (getStep env) (.running job c, before) ls = some (.returned left, calls)) :
    ¬ ClosedOnce calls := by
  induction ls generalizing job c before with
  | nil => cases h
  | cons l ls ih =>
    obtain ⟨⟨p, after⟩, hs, hrest⟩ := run_cons_some (getStep env) h
    obtain ⟨p', hp, heq⟩ := Option.map_eq_some_iff.mp hs
    obtain ⟨rfl, rfl⟩ := Prod.mk.inj heq
    cases p' with
    | running job' c' => exact ih hrest
    | returned left' =>
      -- the last step: a copy that has returned makes no more steps
      cases ls with
      | nil =>
        obtain ⟨_, rfl⟩ := Prod.mk.inj (Option.some.inj hrest)
        cases l with
        | conclude => exact not_closedOnce_twice
        | kill =>
          simp only [CopyGet.step] at hp
          split_ifs at hp
          cases Option.some.inj hp
        | move m =>
          obtain ⟨_, _, hno⟩ := Option.map_eq_some_iff.mp hp
          cases hno
        | poll =>
          obtain ⟨_, _, hno⟩ := Option.map_eq_some_iff.mp hp
          cases hno
        | read n =>
          obtain ⟨_, _, hno⟩ := Option.map_eq_some_iff.mp hp
          cases hno
        | skip | write | setErr | unpop =>
          simp only [CopyGet.step] at hp
          split_ifs at hp
          obtain ⟨_, _, hno⟩ := Option.map_eq_some_iff.mp hp
          cases hno
      | cons l' ls =>
        obtain ⟨_, hs', _⟩ := run_cons_some (getStep env) hrest
        simp [getStep, CopyGet.step] at hs'

/-- `smbCopyGet` closes the source once if it fails to wind it, and never right otherwise, once it
got to open it. -/
lemma copyGet_closes_iff {left : Resume.Left String} {calls : List (Call Descriptor)}
    (h : run (getStep env) (CopyGet.start env disk remote ksrc kdst permissions flags,
      startCalls env disk remote ksrc kdst permissions flags) ls = some (.returned left, calls)) :
    ClosedOnce calls ↔ opensSource env disk remote ksrc kdst permissions flags = none ∨
      ∃ resume, opensSource env disk remote ksrc kdst permissions flags = some resume ∧
        env.smbc_open = none ∧ resume.resuming = true ∧ env.smbc_lseek = false := by
  rcases start_cases env disk remote ksrc kdst permissions flags with
    ⟨left', hstart, hfails⟩ | ⟨job, c, resume, hstart, hsource, hopen, hseek⟩
  · have hcalls : calls = startCalls env disk remote ksrc kdst permissions flags := by
      rw [hstart] at h
      cases ls with
      | nil => exact (Prod.mk.inj (Option.some.inj h)).2.symm
      | cons l ls =>
        obtain ⟨_, hs, _⟩ := run_cons_some (getStep env) h
        simp [getStep, CopyGet.step] at hs
    rw [hcalls]
    unfold startCalls
    cases hsource : opensSource env disk remote ksrc kdst permissions flags with
    | none =>
      have hnothing : ClosedOnce ([] : List (Call Descriptor)) :=
        closedOnce_of_onlyUses fun c hc => absurd hc List.not_mem_nil
      exact iff_of_true hnothing (Or.inl rfl)
    | some resume =>
      dsimp only
      cases hopen : env.smbc_open with
      | some errNum =>
        refine iff_of_false (fun hclosed => ?_) (by simp)
        simp only [sourceCalls, hopen] at hclosed
        exact absurd hclosed.orderly.2.1 List.not_mem_nil
      | none =>
        have hseek := (hfails resume hsource).resolve_left (by simp [hopen])
        obtain ⟨hresuming, hlseek⟩ : resume.resuming = true ∧ env.smbc_lseek = false := by
          simpa using hseek
        refine iff_of_true ?_ (Or.inr ⟨resume, rfl, rfl, hresuming, hlseek⟩)
        simp only [sourceCalls, hopen, hseek, if_true]
        exact ⟨⟨by simp, by simp, by simp, trivial⟩, by simp⟩
  · rw [hstart] at h
    refine iff_of_false (getStep_closes h) ?_
    rw [hsource]
    rintro (hno | ⟨resume', heq, _, hresuming, hlseek⟩)
    · cases hno
    · obtain rfl := Option.some.inj heq
      rw [hresuming, hlseek] at hseek
      cases hseek

end get

/-- **When every descriptor is closed once.** The file job does so as long as its commands are in
order. `smbCopy` does so if it returns before it opens the source, or opens both files and then
fails to read or write; `smbCopyGet` if it returns before it opens the source, or fails to wind
it; `put` if it returns before the file is open, or fails to write. -/
theorem descriptors_closed_iff (ls : List Label) :
    ((∀ ms w, ms <+: ls → run step initial ms = some w → Proper w) ↔
      AllSteps step InOrder initial ls) ∧
    (∀ env src dst flags rounds ran, smbCopy env src dst flags rounds = some ran →
      (ClosedOnce ran.calls ↔ env.opensSource flags = false ∨
        (env.open_src = none ∧ env.open_dst = none ∧ fails rounds = true))) ∧
    (∀ env disk remote ksrc kdst permissions flags ls left calls,
      run (getStep env) (CopyGet.start env disk remote ksrc kdst permissions flags,
        startCalls env disk remote ksrc kdst permissions flags) ls =
          some (.returned left, calls) →
      (ClosedOnce calls ↔ opensSource env disk remote ksrc kdst permissions flags = none ∨
        ∃ resume, opensSource env disk remote ksrc kdst permissions flags = some resume ∧
          env.smbc_open = none ∧ resume.resuming = true ∧ env.smbc_lseek = false)) ∧
    ∀ env url flags rounds ran, put env url flags rounds = some ran →
      (ClosedOnce ran.calls ↔
        env.opens flags = false ∨ env.smbc_open ≠ none ∨ writeFails rounds = true) := by
  refine ⟨?_, fun _ _ _ _ _ _ h => smbCopy_closes_iff h,
    fun _ _ _ _ _ _ _ _ _ _ h => copyGet_closes_iff h, fun _ _ _ _ _ h => put_closes_iff h⟩
  exact prefixes_iff (I := Invariant) (fun _ h => h.toProper)
    (fun _ _ _ h hl hs => step_invariant h hl hs) (fun _ _ h hl => step_not_proper h hl)
    initial_invariant ls

/-- Calls that all succeed. -/
def quietCopy : CopyEnv := ⟨.ok false, .error .ENOENT, none, none, true⟩

/-- A write that fails after the first segment. -/
theorem descriptors_closed_failing : ∃ ran,
    smbCopy quietCopy ⟨"smb", "h", "/s/a", []⟩ ⟨"smb", "h", "/s/b", []⟩ DefaultFlags
      [.segment true, .segment false] = some ran ∧ ClosedOnce ran.calls :=
  ⟨_, rfl, ((descriptors_closed_iff []).2.1 quietCopy ⟨"smb", "h", "/s/a", []⟩ ⟨"smb", "h", "/s/b", []⟩
    DefaultFlags [.segment true, .segment false] _ rfl).mpr (Or.inr ⟨rfl, rfl, rfl⟩)⟩

/-- A copy on the share that succeeds closes each of its files twice. -/
theorem copied_closes_twice : ∃ ran,
    smbCopy quietCopy ⟨"smb", "h", "/s/a", []⟩ ⟨"smb", "h", "/s/b", []⟩ DefaultFlags
      [.segment true, .finished] = some ran ∧ ran.result = .pass ∧ ¬ ClosedOnce ran.calls := by
  refine ⟨_, rfl, rfl, fun hclosed => ?_⟩
  have hcount := hclosed.count_eq_one (some 0) (by decide)
  exact absurd hcount (by decide)

end KioExtras.Smb.Descriptors
