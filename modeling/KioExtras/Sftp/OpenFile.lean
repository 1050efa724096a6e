import KioExtras.Sftp.Connection

/-!
The handle of the file job, in any order of the operations: it belongs to the session that is
alive, and is not used or closed after that. Nothing takes it back when the connection goes.
-/

namespace KioExtras.Sftp.OpenFile

open KioExtras.Kio KioExtras.Lib.Run KioExtras.Sftp.Connection

/-- A handle can be used: it was opened and not closed, and its session was not freed. -/
structure Usable (trace : List Event) (file : SftpFile) : Prop where
  opened : .sftp_open file ∈ trace
  notClosed : .sftp_close file ∉ trace
  notFreed : .sftp_free file.session ∉ trace

/-- Handles are used and closed where they can be; so none is closed twice. -/
def Sound : List Event → Prop
  | [] => True
  | .uses file :: earlier => Usable earlier file ∧ Sound earlier
  | .sftp_close file :: earlier => Usable earlier file ∧ Sound earlier
  | _ :: earlier => Sound earlier

/-- The handle that is open was opened on the session that is alive and was not closed, handles
are used only while they can be, and each is closed or dies with its session. -/
structure Proper (w : Worker) : Prop where
  live : ∀ file, w.mOpenFile = some file →
    w.mSftp = some file.session ∧ .sftp_open file ∈ w.trace ∧ .sftp_close file ∉ w.trace
  sound : Sound w.trace
  ends : ∀ file, .sftp_open file ∈ w.trace → .sftp_close file ∈ w.trace ∨
    .sftp_free file.session ∈ w.trace ∨ w.mSftp = some file.session

/-- The step closes the connection, if there is one. -/
def closes (w : Worker) : Label → Bool
  | .setHost host port user pass =>
    host ≠ w.mHost ∨ port ≠ w.mPort ∨ user ≠ w.mUsername ∨ pass ≠ w.mPassword
  | .closeConnection => true
  | .open _ o | .mimetype _ _ o =>
    match o.stat with
    | .failed err => err.fatal
    | _ => false
  | .operation op _ (.reported _ err) => op.reports && err.fatal
  | _ => false

/-- What holds between the operations as long as no step closes the connection under an open
file. -/
structure Invariant (w : Worker) : Prop extends Proper w where
  linked : Linked w
  freed : ∀ session, .sftp_free session ∈ w.trace → session < w.sessions ∧ w.mSftp ≠ some session
  numbers : ∀ file, .sftp_open file ∈ w.trace ∨ .sftp_close file ∈ w.trace → file.number < w.files

lemma initial_invariant : Invariant initial where
  live file h := by simp [initial] at h
  sound := trivial
  ends file h := by simp [initial] at h
  linked := initial_linked
  freed session h := by simp [initial] at h
  numbers file h := by simp [initial] at h

variable {w t : Worker}

lemma Invariant.of_eq (h : Invariant w) (hconn : t.mConnected = w.mConnected)
    (hsftp : t.mSftp = w.mSftp) (hopen : t.mOpenFile = w.mOpenFile)
    (hsessions : t.sessions = w.sessions) (hfiles : t.files = w.files)
    (htrace : t.trace = w.trace) : Invariant t where
  live file hf := by
    rw [hsftp, htrace]
    exact h.live file (hopen ▸ hf)
  sound := htrace ▸ h.sound
  ends file hf := by
    rw [hsftp, htrace]
    exact h.ends file (htrace ▸ hf)
  linked := ⟨by rw [hconn, hsftp]; exact h.linked.connected, fun session hs => by
    rw [hsessions]; exact h.linked.current session (hsftp ▸ hs)⟩
  freed session hs := by
    rw [hsessions, hsftp]
    exact h.freed session (htrace ▸ hs)
  numbers file hf := by
    rw [hfiles]
    exact h.numbers file (htrace ▸ hf)

lemma Invariant.usable (h : Invariant w) {file : SftpFile} (hf : w.mOpenFile = some file) :
    Usable w.trace file := by
  obtain ⟨hlive, hopened, hclosed⟩ := h.live file hf
  exact ⟨hopened, hclosed, fun hfreed => (h.freed _ hfreed).2 hlive⟩

/-! ### What the members do to it -/

lemma Invariant.uses (h : Invariant w) {file : SftpFile} (hf : w.mOpenFile = some file) :
    Invariant { w with trace := .uses file :: w.trace } where
  live file' hf' := by simpa using h.live file' hf'
  sound := ⟨h.usable hf, h.sound⟩
  ends file' hf' := by simpa using h.ends file' (by simpa using hf')
  linked := ⟨h.linked.connected, h.linked.current⟩
  freed session hs := h.freed session (by simpa using hs)
  numbers file' hf' := h.numbers file' (by simpa using hf')

lemma Invariant.close (h : Invariant w) : Invariant (close w) := by
  cases hf : w.mOpenFile with
  | none =>
    refine h.of_eq rfl rfl ?_ rfl rfl ?_
    · exact hf.symm
    · simp [Connection.close, hf]
  | some file =>
    have heq : Connection.close w =
        { w with mOpenFile := none, trace := .sftp_close file :: w.trace } := by
      simp [Connection.close, hf]
    rw [heq]
    exact {
      live := fun file' hf' => by simp at hf'
      sound := ⟨h.usable hf, h.sound⟩
      ends := fun file' hf' => by
        rcases h.ends file' (by simpa using hf') with hclosed | hfreed | hlive
        · exact Or.inl (List.mem_cons_of_mem _ hclosed)
        · exact Or.inr (Or.inl (List.mem_cons_of_mem _ hfreed))
        · exact Or.inr (Or.inr hlive)
      linked := ⟨h.linked.connected, h.linked.current⟩
      freed := fun session hs => h.freed session (by simpa using hs)
      numbers := fun file' hf' => by
        rcases hf' with hopened | hclosed
        · exact h.numbers file' (Or.inl (by simpa using hopened))
        · rcases List.mem_cons.mp hclosed with heq | hclosed
          · obtain rfl : file' = file := by simpa using heq
            exact h.numbers file' (Or.inl (h.live file' hf).2.1)
          · exact h.numbers file' (Or.inr hclosed) }

lemma Invariant.closeConnection (h : Invariant w) (hf : w.mOpenFile = none) :
    Invariant (closeConnection w) := by
  cases hs : w.mSftp with
  | none =>
    have hconn : w.mConnected = false := by
      rw [h.linked.connected, hs]
      rfl
    refine h.of_eq ?_ ?_ rfl rfl rfl ?_
    · exact hconn.symm
    · exact hs.symm
    · simp [Connection.closeConnection, hs]
  | some n =>
    have heq : Connection.closeConnection w =
        { w with mSftp := none, mConnected := false, trace := .sftp_free n :: w.trace } := by
      simp [Connection.closeConnection, hs]
    rw [heq]
    exact {
      live := fun file hf' => by simp [hf] at hf'
      sound := h.sound
      ends := fun file hopened => by
        rcases h.ends file (by simpa using hopened) with hclosed | hfreed | hlive
        · exact Or.inl (List.mem_cons_of_mem _ hclosed)
        · exact Or.inr (Or.inl (List.mem_cons_of_mem _ hfreed))
        · obtain rfl : n = file.session := by simpa [hs] using hlive
          exact Or.inr (Or.inl List.mem_cons_self)
      linked := ⟨rfl, fun _ hn => by simp at hn⟩
      freed := fun session hfreed => by
        refine ⟨?_, by simp⟩
        rcases List.mem_cons.mp hfreed with heq | hfreed
        · obtain rfl : session = n := by simpa using heq
          exact h.linked.current session hs
        · exact (h.freed session hfreed).1
      numbers := fun file hf' => h.numbers file (by simpa using hf') }

lemma Invariant.no_file (h : Invariant w) (hs : w.mSftp = none) : w.mOpenFile = none := by
  cases hf : w.mOpenFile with
  | none => rfl
  | some file =>
    have hlive := (h.live file hf).1
    rw [hs] at hlive
    cases hlive

lemma Invariant.connected (h : Invariant w) (hs : w.mSftp = none) (username : String) :
    Invariant (connected w username) where
  live file hf := by
    have hnone : w.mOpenFile = some file := hf
    rw [h.no_file hs] at hnone
    cases hnone
  sound := h.sound
  ends file hf := by
    rcases h.ends file hf with hclosed | hfreed | hlive
    · exact Or.inl hclosed
    · exact Or.inr (Or.inl hfreed)
    · rw [hs] at hlive
      cases hlive
  linked := connected_linked w username
  freed session hfreed := by
    have hlt := (h.freed session hfreed).1
    refine ⟨Nat.lt_succ_of_lt hlt, fun hcurrent => ?_⟩
    obtain rfl : w.sessions = session := by simpa [Connection.connected] using hcurrent
    exact Nat.lt_irrefl _ hlt
  numbers := h.numbers

lemma Invariant.opened (h : Invariant w) {session : ℕ} (hs : w.mSftp = some session) :
    Invariant { w with
      mOpenFile := some ⟨session, w.files⟩
      files := w.files + 1
      trace := .sftp_open ⟨session, w.files⟩ :: w.trace } where
  live file hf := by
    obtain rfl : (⟨session, w.files⟩ : SftpFile) = file := by simpa using hf
    refine ⟨hs, List.mem_cons_self, fun hclosed => ?_⟩
    have hlt := h.numbers ⟨session, w.files⟩ (Or.inr (by simpa using hclosed))
    exact Nat.lt_irrefl _ hlt
  sound := h.sound
  ends file hf := by
    rcases List.mem_cons.mp hf with heq | hf
    · obtain rfl : file = ⟨session, w.files⟩ := by simpa using heq
      exact Or.inr (Or.inr hs)
    · rcases h.ends file hf with hclosed | hfreed | hlive
      · exact Or.inl (List.mem_cons_of_mem _ hclosed)
      · exact Or.inr (Or.inl (List.mem_cons_of_mem _ hfreed))
      · exact Or.inr (Or.inr hlive)
  linked := ⟨h.linked.connected, h.linked.current⟩
  freed n hfreed := h.freed n (by simpa using hfreed)
  numbers file hf := by
    rcases hf with hopened | hclosed
    · rcases List.mem_cons.mp hopened with heq | hopened
      · obtain rfl : file = ⟨session, w.files⟩ := by simpa using heq
        exact Nat.lt_succ_self _
      · exact Nat.lt_succ_of_lt (h.numbers file (Or.inl hopened))
    · exact Nat.lt_succ_of_lt (h.numbers file (Or.inr (by simpa using hclosed)))

lemma Invariant.notOpened (h : Invariant w) : Invariant { w with mOpenFile := none } where
  live file hf := by simp at hf
  sound := h.sound
  ends := h.ends
  linked := ⟨h.linked.connected, h.linked.current⟩
  freed := h.freed
  numbers := h.numbers

/-! ### What the operations do to it -/

lemma openConnection_invariant (h : Invariant w) (connect : Connect) :
    Invariant (openConnection w connect).1 := by
  rcases openConnection_cases h.linked connect with ⟨_, heq⟩ | ⟨_, _, _, heq⟩ | ⟨hs, username, heq⟩
  · rw [heq]; exact h.of_eq rfl rfl rfl rfl rfl rfl
  · rw [heq]; exact h.of_eq rfl rfl rfl rfl rfl rfl
  · rw [heq]; exact h.connected hs username

lemma sftpLogin_invariant (h : Invariant w) (connect : Connect) :
    Invariant (sftpLogin w connect).1 ∧ (sftpLogin w connect).1.mOpenFile = w.mOpenFile := by
  rcases sftpLogin_cases h.linked connect with
    ⟨_, heq⟩ | ⟨_, _, _, heq⟩ | ⟨hs, username, _, heq⟩
  · rw [heq]; exact ⟨h.of_eq rfl rfl rfl rfl rfl rfl, rfl⟩
  · rw [heq]; exact ⟨h.of_eq rfl rfl rfl rfl rfl rfl, rfl⟩
  · rw [heq]; exact ⟨h.connected hs username, rfl⟩

lemma setHost_invariant (h : Invariant w) {host : String} {port : ℤ} {user pass : String}
    (hno : w.mOpenFile = none ∨ closes w (.setHost host port user pass) = false) :
    Invariant (setHost w host port user pass) := by
  unfold setHost
  split_ifs with hother
  · have hnone : w.mOpenFile = none := by
      rcases hno with hnone | hkeeps
      · exact hnone
      · exact absurd hother (by simpa [closes] using hkeeps)
    exact (h.closeConnection hnone).of_eq rfl rfl rfl rfl rfl rfl
  · exact h.of_eq rfl rfl rfl rfl rfl rfl

variable {err : SshError} {o : OpenAnswer} {r : Worker × WorkerResult} {connect : Connect}
  {l : Label}

lemma reportError_invariant (h : Invariant w) (url : Url)
    (hno : w.mOpenFile = none ∨ err.fatal = false) : Invariant (reportError w url err).1 := by
  unfold reportError
  rcases hno with hnone | hkeeps
  · split_ifs
    · exact h.closeConnection hnone
    · exact h
  · rw [hkeeps]
    exact h

lemma useFile_invariant (h : Invariant w) (hu : useFile w = some t) :
    Invariant t ∧ t.mOpenFile = w.mOpenFile := by
  obtain ⟨file, hf, rfl⟩ := Option.map_eq_some_iff.mp hu
  exact ⟨h.uses hf, rfl⟩

lemma uses_invariant (h : Invariant w) {file : SftpFile} (hf : w.mOpenFile = some file) (n : ℕ) :
    Invariant { w with trace := List.replicate n (.uses file) ++ w.trace } := by
  induction n with
  | zero => exact h
  | succ n ih => exact ih.uses hf

lemma openFile_invariant (h : Invariant w) (url : Url) {session : ℕ}
    (hs : w.mSftp = some session) (o : OpenAnswer) : Invariant (openFile w url session o).1 := by
  unfold openFile
  cases ho : o.sftp_open with
  | error error => exact h.notOpened
  | ok =>
    have hopened := h.opened hs
    dsimp only
    split_ifs with hread
    · have hused := hopened.uses rfl
      cases hr : o.sftp_read with
      | true =>
        have hrewound := hused.uses rfl
        exact hrewound.of_eq rfl rfl rfl rfl rfl rfl
      | false => exact hused.close
    · exact hopened.of_eq rfl rfl rfl rfl rfl rfl

/-- What `closes` says of the two operations that open a file. -/
def fatal (o : OpenAnswer) : Bool :=
  match o.stat with
  | .failed err => err.fatal
  | _ => false

lemma open_invariant (h : Invariant w) {url : Url} (hno : w.mOpenFile = none ∨ fatal o = false)
    (hr : w.open url o = some r) : Invariant r.1 := by
  unfold Worker.open at hr
  obtain ⟨hlogin, hfile⟩ := sftpLogin_invariant h o.connect
  rcases hl : sftpLogin w o.connect with ⟨w', result⟩
  rw [hl] at hr hlogin hfile
  cases result with
  | fail error text =>
    obtain rfl := Option.some.inj hr
    exact hlogin
  | pass =>
    obtain ⟨session, hs, rfl⟩ := Option.map_eq_some_iff.mp hr
    cases hstat : o.stat with
    | failed err =>
      refine reportError_invariant hlogin url ?_
      rw [hfile]
      simpa [fatal, hstat] using hno
    | directory => exact hlogin
    | special => exact hlogin
    | file => exact openFile_invariant hlogin url hs o

lemma mimetype_invariant (h : Invariant w) {url : Url} (hno : w.mOpenFile = none ∨ fatal o = false)
    (hr : mimetype w url connect o = some r) : Invariant r.1 := by
  unfold mimetype at hr
  obtain ⟨hlogin, hfile⟩ := sftpLogin_invariant h connect
  rcases hl : sftpLogin w connect with ⟨w', result⟩
  rw [hl] at hr hlogin hfile
  cases result with
  | fail error text =>
    obtain rfl := Option.some.inj hr
    exact hlogin
  | pass =>
    obtain ⟨⟨w'', result⟩, ho, rfl⟩ := Option.map_eq_some_iff.mp hr
    exact (open_invariant hlogin (by rw [hfile]; exact hno) ho).close

lemma operation_invariant (h : Invariant w) {op : Operation} {ended : Ended}
    (hno : w.mOpenFile = none ∨ closes w (.operation op connect ended) = false)
    (hr : operation w op connect ended = some r) : Invariant r.1 := by
  unfold operation at hr
  obtain ⟨hlogin, hfile⟩ := sftpLogin_invariant h connect
  rcases hl : sftpLogin w connect with ⟨w', result⟩
  rw [hl] at hr hlogin hfile
  cases result with
  | fail error text =>
    obtain rfl := Option.some.inj hr
    exact hlogin
  | pass =>
    cases ended with
    | returned result =>
      obtain rfl := Option.some.inj hr
      exact hlogin
    | reported url err =>
      dsimp only at hr
      split_ifs at hr with hreports
      obtain rfl := Option.some.inj hr
      refine reportError_invariant hlogin url ?_
      rw [hfile]
      simpa [closes, hreports] using hno

lemma Invariant.recorded (h : Invariant w) (can : Bool) (record : PutRecord) :
    Invariant { w with mCanSetPermissions := can, trace := .put record :: w.trace } where
  live file hf := by simpa using h.live file hf
  sound := h.sound
  ends file hf := by simpa using h.ends file (by simpa using hf)
  linked := ⟨h.linked.connected, h.linked.current⟩
  freed n hfreed := h.freed n (by simpa using hfreed)
  numbers file hf := h.numbers file (by simpa using hf)

lemma recordPut_invariant (h : Invariant w) (asks : Bool) (left : Put.Left) :
    Invariant (recordPut w asks left).1 := by
  cases hs : w.mSftp with
  | none =>
    have heq : (recordPut w asks left).1 =
        { w with mCanSetPermissions := left.mCanSetPermissions } := by
      simp [recordPut, hs]
    rw [heq]
    exact h.of_eq rfl rfl rfl rfl rfl rfl
  | some session =>
    have heq : (recordPut w asks left).1 =
        { w with
          mCanSetPermissions := left.mCanSetPermissions
          trace := .put ⟨session, asks && w.mCanSetPermissions,
            asks && w.mCanSetPermissions && !left.mCanSetPermissions,
            left.signals.any Signal.isWarning⟩ :: w.trace } := by
      simp [recordPut, hs]
    rw [heq]
    exact h.recorded _ _

lemma step_invariant (h : Invariant w) (hno : w.mOpenFile = none ∨ closes w l = false)
    (hs : step w l = some t) : Invariant t := by
  cases l with
  | setHost host port user pass =>
    obtain rfl := Option.some.inj hs
    exact setHost_invariant h hno
  | openConnection connect =>
    obtain rfl := Option.some.inj hs
    exact openConnection_invariant h connect
  | closeConnection =>
    obtain rfl := Option.some.inj hs
    exact h.closeConnection (hno.resolve_right (by simp [closes]))
  | special | refused =>
    obtain rfl := Option.some.inj hs
    exact h
  | «open» url o =>
    obtain ⟨r, hr, rfl⟩ := Option.map_eq_some_iff.mp hs
    exact open_invariant h hno hr
  | read sftp_read =>
    obtain ⟨r, hr, rfl⟩ := Option.map_eq_some_iff.mp hs
    obtain ⟨w', hu, rfl⟩ := Option.map_eq_some_iff.mp hr
    have hused := (useFile_invariant h hu).1
    split_ifs
    · exact hused
    · exact hused.close
  | write requests written =>
    obtain ⟨r, hr, rfl⟩ := Option.map_eq_some_iff.mp hs
    obtain ⟨file, hf, rfl⟩ := Option.map_eq_some_iff.mp hr
    have hused := uses_invariant h hf requests
    dsimp only
    split_ifs
    · exact hused
    · exact hused.close
  | seek sftp_seek64 =>
    obtain ⟨r, hr, rfl⟩ := Option.map_eq_some_iff.mp hs
    obtain ⟨w', hu, hr'⟩ := Option.bind_eq_some_iff.mp hr
    have hused := (useFile_invariant h hu).1
    split_ifs at hr'
    · obtain ⟨w'', hu', rfl⟩ := Option.map_eq_some_iff.mp hr'
      exact (useFile_invariant hused hu').1
    · obtain rfl := Option.some.inj hr'
      exact hused.close
  | truncate errorCode =>
    obtain ⟨r, hr, rfl⟩ := Option.map_eq_some_iff.mp hs
    obtain ⟨w', hu, rfl⟩ := Option.map_eq_some_iff.mp hr
    have hused := (useFile_invariant h hu).1
    cases errorCode with
    | none => exact hused
    | some error => exact hused.close
  | close =>
    obtain rfl := Option.some.inj hs
    exact h.close
  | mimetype url connect o =>
    obtain ⟨r, hr, rfl⟩ := Option.map_eq_some_iff.mp hs
    exact mimetype_invariant h hno hr
  | operation op connect ended =>
    obtain ⟨r, hr, rfl⟩ := Option.map_eq_some_iff.mp hs
    exact operation_invariant h hno hr
  | put connect env remote url permissions flags source =>
    obtain rfl := Option.some.inj hs
    have hlogin := (sftpLogin_invariant h connect).1
    unfold put
    rcases hl : sftpLogin w connect with ⟨w', result⟩
    rw [hl] at hlogin
    cases result with
    | fail error text => exact hlogin
    | pass => exact recordPut_invariant hlogin _ _
  | copyPut connect env disk remote url sCopyFile permissions flags openSource =>
    obtain rfl := Option.some.inj hs
    have hlogin := (sftpLogin_invariant h connect).1
    unfold copyPut
    by_cases hopens : opensSource disk sCopyFile openSource = true
    · rw [if_pos hopens]
      rcases hl : sftpLogin w connect with ⟨w', result⟩
      rw [hl] at hlogin
      cases result with
      | fail error text => exact hlogin
      | pass => exact recordPut_invariant hlogin _ _
    · rw [if_neg hopens]
      exact h

/-! ### A connection that goes under an open file -/

lemma not_proper_closed {file : SftpFile} (hf : w.mOpenFile = some file) :
    ¬ Proper (closeConnection w) := by
  intro hproper
  have hlive := (hproper.live file hf).1
  cases hlive

lemma not_sound_closed (h : Invariant w) {file : SftpFile} (hf : w.mOpenFile = some file) :
    ¬ Proper (close (closeConnection w)) := by
  intro hproper
  have hlive := (h.live file hf).1
  have hsound : Sound (.sftp_close file :: .sftp_free file.session :: w.trace) := by
    have hs := hproper.sound
    simpa [close, closeConnection, hf, hlive] using hs
  exact hsound.1.notFreed List.mem_cons_self

lemma sftpLogin_open (h : Invariant w) {file : SftpFile} (hf : w.mOpenFile = some file)
    (connect : Connect) : sftpLogin w connect = ({ w with mCanSetPermissions := true }, .pass) := by
  have hlive := (h.live file hf).1
  rcases sftpLogin_cases h.linked connect with ⟨_, heq⟩ | ⟨hnone, _⟩ | ⟨hnone, _⟩
  · exact heq
  · rw [hlive] at hnone
    cases hnone
  · rw [hlive] at hnone
    cases hnone

lemma open_failed (h : Invariant w) {file : SftpFile} (hf : w.mOpenFile = some file) (url : Url)
    (hstat : o.stat = .failed err) :
    w.open url o = some (reportError { w with mCanSetPermissions := true } url err) := by
  have hlive := (h.live file hf).1
  unfold Worker.open
  rw [sftpLogin_open h hf]
  simp [hlive, hstat]

lemma step_not_proper (h : Invariant w) {file : SftpFile} (hf : w.mOpenFile = some file)
    (hcloses : closes w l = true) : ∃ t, step w l = some t ∧ ¬ Proper t := by
  have hlive := (h.live file hf).1
  have hflag : Invariant { w with mCanSetPermissions := true } := h.of_eq rfl rfl rfl rfl rfl rfl
  cases l with
  | setHost host port user pass =>
    refine ⟨_, rfl, fun hproper => ?_⟩
    have hother : host ≠ w.mHost ∨ port ≠ w.mPort ∨ user ≠ w.mUsername ∨ pass ≠ w.mPassword := by
      simpa [closes] using hcloses
    have hfile := (hproper.live file (by simp [setHost, hother, closeConnection, hf])).1
    simp [setHost, hother, closeConnection] at hfile
  | closeConnection => exact ⟨_, rfl, not_proper_closed hf⟩
  | «open» url o =>
    cases hstat : o.stat with
    | failed err =>
      have hfatal : err.fatal = true := by simpa [closes, hstat] using hcloses
      have hstep : step w (.open url o) =
          some (closeConnection { w with mCanSetPermissions := true }) := by
        simp [step, open_failed h hf url hstat, reportError, hfatal]
      exact ⟨_, hstep, not_proper_closed (w := { w with mCanSetPermissions := true }) hf⟩
    | directory => simp [closes, hstat] at hcloses
    | special => simp [closes, hstat] at hcloses
    | file => simp [closes, hstat] at hcloses
  | mimetype url connect o =>
    cases hstat : o.stat with
    | failed err =>
      have hfatal : err.fatal = true := by simpa [closes, hstat] using hcloses
      have hstep : step w (.mimetype url connect o) =
          some (close (closeConnection { w with mCanSetPermissions := true })) := by
        have hfailed := open_failed hflag hf url (o := { o with readOnly := true }) hstat
        simp only [step, mimetype, sftpLogin_open h hf, hfailed]
        simp [reportError, hfatal]
      exact ⟨_, hstep, not_sound_closed hflag hf⟩
    | directory => simp [closes, hstat] at hcloses
    | special => simp [closes, hstat] at hcloses
    | file => simp [closes, hstat] at hcloses
  | operation op connect ended =>
    cases ended with
    | returned result => simp [closes] at hcloses
    | reported url err =>
      obtain ⟨hreports, hfatal⟩ : op.reports = true ∧ err.fatal = true := by
        simpa [closes] using hcloses
      have hstep : step w (.operation op connect (.reported url err)) =
          some (closeConnection { w with mCanSetPermissions := true }) := by
        simp [step, operation, sftpLogin_open h hf, hreports, reportError, hfatal]
      exact ⟨_, hstep, not_proper_closed (w := { w with mCanSetPermissions := true }) hf⟩
  | _ => simp [closes] at hcloses

/-- **The handle is proper in every state of a run if and only if no step closes the connection
while a file is open.** -/
theorem openFile_proper_iff (ls : List Label) :
    (∀ ms t, ms <+: ls → run step initial ms = some t → Proper t) ↔
      AllSteps step (fun w l => w.mOpenFile = none ∨ closes w l = false) initial ls := by
  refine prefixes_iff (I := Invariant) (fun _ h => h.toProper)
    (fun _ _ _ h hl hs => step_invariant h hl hs) (fun w l h hl => ?_) initial_invariant ls
  obtain ⟨hopen, hcloses⟩ := not_or.mp hl
  obtain ⟨file, hf⟩ := Option.ne_none_iff_exists'.mp hopen
  exact step_not_proper h hf (by simpa using hcloses)

/-- A file is opened and the ssh session breaks while a directory is listed; then the file is
read. -/
def brokenSession : List Label :=
  [.setHost "h" 22 "" "",
    .open ⟨"/f", "sftp://h/f"⟩ ⟨.established "", .file, false, .ok (), true⟩,
    .operation .listDir (.established "")
      (.reported ⟨"/d", "sftp://h/d"⟩ ⟨.ERR_CONNECTION_BROKEN, true⟩),
    .read true]

/-- The handle is used after its session was freed. -/
theorem openFile_dangles : ¬ ∀ ls t, run step initial ls = some t → Proper t := by
  intro hall
  have hproper := hall brokenSession _ rfl
  have husable : Usable [.sftp_free 0, .sftp_open ⟨0, 0⟩] ⟨0, 0⟩ := hproper.sound.1
  exact husable.notFreed List.mem_cons_self

end KioExtras.Sftp.OpenFile
