import KioExtras.Sftp.Connection

/-!
A server that refuses permissions is to be asked once on a connection. Every operation logs in
first, and every login sets the flag that remembers the refusal.
-/

namespace KioExtras.Sftp.Permissions

open KioExtras.Kio KioExtras.Lib.Run KioExtras.Lib.FileStore KioExtras.Sftp.Put
open KioExtras.Sftp.Connection

/-! ### The warning of a put -/

section warning

variable {env : Env} {remote : Store String} {url : Url} {flags : JobFlags} {source : Source}

lemma negotiate_quiet {sbPart : Option (Node String)} {flags' : JobFlags} {position : ℕ}
    {signals : List Signal}
    (h : negotiate env url source sbPart flags = .ok (flags', position, signals)) :
    signals.any Signal.isWarning = false := by
  unfold negotiate at h
  cases sbPart with
  | none =>
    obtain ⟨_, _, rfl⟩ : flags = flags' ∧ 0 = position ∧ [] = signals := by simpa using h
    rfl
  | some sbPart =>
    dsimp only at h
    by_cases hcand : (!flags.Resume && !flags.Overwrite && decide (0 < sbPart.kind.size) &&
        sbPart.kind.isFile) = true
    · rw [if_pos hcand] at h
      cases source with
      | app answers =>
        have heq : [Signal.canResume sbPart.kind.size] = signals := by
          simp only [Except.ok.injEq, Prod.mk.injEq] at h
          exact h.2.2
        rw [← heq]
        rfl
      | fd content =>
        by_cases hseek : env.lseek = true
        · simp only [hseek, if_true, Except.ok.injEq, Prod.mk.injEq] at h
          rw [← h.2.2]
          rfl
        · simp [hseek] at h
    · rw [if_neg hcand] at h
      simp only [Except.ok.injEq, Prod.mk.injEq] at h
      rw [← h.2.2]
      rfl

lemma putLoop_quiet (env : Env) (k total : ℕ) (store : Store String)
    (responses : List (WriteResponse × Store String)) :
    (putLoop env k total store responses).2.2.any Signal.isWarning = false := by
  induction responses generalizing k total store with
  | nil => rfl
  | cons r rest ih =>
    obtain ⟨response, after⟩ := r
    unfold putLoop
    split_ifs
    · rfl
    · rfl
    · simpa [Signal.isWarning] using ih (k + 1) (total + response.bytes) after

variable {can : Bool}

variable {permissions : Option ℕ} {sb : Option (Node String)}

lemma setAttributes_quiet {Resume : Bool} (h : (permissions.isSome && !Resume && can) = false) :
    (setAttributes env remote url sb permissions Resume can).2.2 = [] := by
  cases permissions with
  | none => rfl
  | some perms =>
    have hno : (!Resume && can) = false := by simpa using h
    simp [setAttributes, hno]

lemma conclude_quiet {signals : List Signal} (hsignals : signals.any Signal.isWarning = false)
    (h : (permissions.isSome && !flags.Resume &&
      (env.close && (!env.MarkPartial || (install env remote url flags.Overwrite).2))) = false) :
    (conclude env remote url sb permissions flags can signals).signals.any Signal.isWarning =
      false := by
  by_cases hclose : env.close = true
  · cases hmark : env.MarkPartial with
    | false =>
      have hno : (permissions.isSome && !flags.Resume && can) = false := by
        simp only [hclose, hmark, Bool.not_false, Bool.true_or, Bool.and_true] at h
        rw [h]
        rfl
      simp [conclude, hclose, hmark, setAttributes_quiet hno, hsignals]
    | true =>
      cases hinstall : (install env remote url flags.Overwrite).2 with
      | false => simp [conclude, hclose, hmark, hinstall, hsignals]
      | true =>
        have hno : (permissions.isSome && !flags.Resume && can) = false := by
          simp only [hclose, hmark, hinstall, Bool.not_true, Bool.false_or, Bool.and_true] at h
          rw [h]
          rfl
        simp [conclude, hclose, hmark, hinstall, setAttributes_quiet hno, hsignals]
  · simpa [conclude, hclose] using hsignals

lemma putOpened_quiet {sbPart : Option (Node String)} {position : ℕ} {signals : List Signal}
    (hsignals : signals.any Signal.isWarning = false)
    (h : openedSets env remote url sbPart permissions flags source position = false) :
    (putOpened env remote url sb sbPart permissions flags can source position
      signals).signals.any Signal.isWarning = false := by
  unfold openedSets at h
  unfold putOpened
  dsimp only at h ⊢
  split
  · exact hsignals
  · rename_i destFile total store hopen
    rw [hopen] at h
    dsimp only at h
    have hprocessed := putLoop_quiet env 0 total store
      (asyncWrite env.server store destFile (reader env source position))
    unfold transfers at h
    unfold transfer
    rcases hloop : putLoop env 0 total store
      (asyncWrite env.server store destFile (reader env source position)) with
      ⟨ended, after, processed⟩
    rw [hloop] at h hprocessed
    have hall : (signals ++ processed).any Signal.isWarning = false := by
      rw [List.any_append, hsignals, hprocessed]
      rfl
    cases ended with
    | killed => exact hall
    | failed => exact hall
    | completed => exact conclude_quiet hall h

lemma sftpPut_quiet {permissionsMode : ℤ} (can : Bool)
    (h : setsPermissions env remote url permissionsMode flags source = false) :
    (sftpPut env remote url permissionsMode flags source can).signals.any Signal.isWarning =
      false := by
  unfold sftpPut
  unfold setsPermissions at h
  cases hlogin : env.login with
  | fail error text => rfl
  | pass =>
    rw [hlogin] at h
    dsimp only at h ⊢
    split
    · rfl
    · rename_i flags' position signals hneg
      rw [hneg] at h
      dsimp only at h
      have hsignals := negotiate_quiet hneg
      cases hsb : lstat env.lstatOrig remote url.path with
      | none =>
        rw [hsb] at h
        exact putOpened_quiet hsignals (by simpa using h)
      | some orig =>
        dsimp only
        rw [hsb] at h
        by_cases hguard : (!flags'.Overwrite && !flags'.Resume) = true
        · rw [if_pos hguard]
          exact hsignals
        · rw [if_neg hguard]
          refine putOpened_quiet hsignals ?_
          have hgoes : (flags'.Overwrite || flags'.Resume) = true := by
            cases hover : flags'.Overwrite <;> cases hresume : flags'.Resume <;>
              simp [hover, hresume] at hguard ⊢
          simpa [hgoes] using h

lemma sftpCopyPut_quiet {disk : Store String} {sCopyFile : String} {permissions : ℤ}
    {openSource : Bool} (hopens : opensSource disk sCopyFile openSource = true)
    (h : setsPermissions env remote url permissions flags
      (.fd (((disk.stat sCopyFile).bind fun node => node.kind.data).getD [])) = false) :
    (sftpCopyPut env disk remote url sCopyFile permissions flags can
      openSource).signals.any Signal.isWarning = false := by
  unfold opensSource at hopens
  cases hstat : disk.stat sCopyFile with
  | none => simp [hstat] at hopens
  | some copyFile =>
    rw [hstat] at hopens h
    obtain ⟨hdir, hsource⟩ : copyFile.kind.isDir = false ∧ openSource = true := by
      simpa using hopens
    have hput := sftpPut_quiet can h
    simpa [sftpCopyPut, hstat, hdir, hsource, Signal.isWarning] using hput

end warning

/-! ### What a step leaves of the puts -/

variable {w t u : Worker}

/-- Once a put was refused, no later one on the same connection asks or warns. -/
def AskedOnce (w : Worker) : Prop :=
  w.puts.Pairwise fun later earlier => later.session = earlier.session → earlier.refused = true →
    later.asked = false ∧ later.warned = false

/-- A put on the connection that is alive was refused. -/
def Refused (w : Worker) : Prop := ∃ p ∈ w.puts, w.mSftp = some p.session ∧ p.refused = true

instance : Decidable (AskedOnce w) :=
  inferInstanceAs (Decidable (w.puts.Pairwise fun later earlier =>
    later.session = earlier.session → earlier.refused = true →
      later.asked = false ∧ later.warned = false))

instance : Decidable (Refused w) :=
  inferInstanceAs (Decidable (∃ p ∈ w.puts, w.mSftp = some p.session ∧ p.refused = true))

/-- A put that has permissions to set when it has sent all. -/
def sets : Label → Bool
  | .put _ env remote url permissions flags source =>
    setsPermissions { env with login := .pass } remote url permissions flags source
  | .copyPut _ env disk remote url sCopyFile permissions flags openSource =>
    opensSource disk sCopyFile openSource &&
      setsPermissions { env with login := .pass } remote url permissions flags
        (.fd (((disk.stat sCopyFile).bind fun node => node.kind.data).getD []))
  | _ => false

structure Keeps (w t : Worker) : Prop where
  puts : t.puts = w.puts
  sessions : w.sessions ≤ t.sessions
  linked : Linked t

structure Records (w : Worker) (asks : Bool) (t : Worker) (p : PutRecord) : Prop where
  puts : t.puts = p :: w.puts
  asked : p.asked = asks
  warned : asks = false → p.warned = false
  session : w.mSftp = some p.session ∨ w.mSftp = none ∧ p.session = w.sessions
  bound : p.session < t.sessions
  sessions : w.sessions ≤ t.sessions
  linked : Linked t

lemma Keeps.refl (h : Linked w) : Keeps w w := ⟨rfl, Nat.le_refl _, h⟩

lemma Keeps.trans (h : Keeps w t) (h' : Keeps t u) : Keeps w u :=
  ⟨h'.puts.trans h.puts, h.sessions.trans h'.sessions, h'.linked⟩

lemma closeConnection_keeps (w : Worker) : Keeps w (closeConnection w) := by
  refine ⟨?_, Nat.le_refl _, closeConnection_linked w⟩
  unfold Worker.puts closeConnection
  cases w.mSftp <;> rfl

lemma close_keeps (h : Linked w) : Keeps w (close w) := by
  refine ⟨?_, Nat.le_refl _, h.close⟩
  unfold Worker.puts close
  cases w.mOpenFile <;> rfl

lemma connected_keeps (w : Worker) (username : String) : Keeps w (connected w username) :=
  ⟨rfl, Nat.le_succ _, connected_linked w username⟩

lemma openConnection_keeps (h : Linked w) (connect : Connect) :
    Keeps w (openConnection w connect).1 := by
  rcases openConnection_cases h connect with ⟨_, heq⟩ | ⟨_, _, _, heq⟩ | ⟨_, username, heq⟩
  · rw [heq]; exact ⟨rfl, Nat.le_refl _, h.connected, h.current⟩
  · rw [heq]; exact ⟨rfl, Nat.le_refl _, h.connected, h.current⟩
  · rw [heq]; exact connected_keeps w username

lemma sftpLogin_keeps (h : Linked w) (connect : Connect) : Keeps w (sftpLogin w connect).1 := by
  rcases sftpLogin_cases h connect with ⟨_, heq⟩ | ⟨_, _, _, heq⟩ | ⟨_, username, _, heq⟩
  · rw [heq]; exact ⟨rfl, Nat.le_refl _, h.connected, h.current⟩
  · rw [heq]; exact ⟨rfl, Nat.le_refl _, h.connected, h.current⟩
  · rw [heq]; exact connected_keeps w username

lemma setHost_keeps (h : Linked w) (host : String) (port : ℤ) (user pass : String) :
    Keeps w (setHost w host port user pass) := by
  unfold setHost
  split_ifs
  · have hclosed := closeConnection_keeps w
    exact ⟨hclosed.puts, hclosed.sessions, hclosed.linked.connected, hclosed.linked.current⟩
  · exact ⟨rfl, Nat.le_refl _, h.connected, h.current⟩

lemma reportError_keeps (h : Linked w) (url : Url) (err : SshError) :
    Keeps w (reportError w url err).1 := by
  unfold reportError
  split_ifs
  · exact closeConnection_keeps w
  · exact Keeps.refl h

lemma uses_keeps (h : Linked w) (file : SftpFile) (n : ℕ) :
    Keeps w { w with trace := List.replicate n (.uses file) ++ w.trace } := by
  refine ⟨?_, Nat.le_refl _, h.connected, h.current⟩
  induction n with
  | zero => rfl
  | succ n ih => exact ih

lemma useFile_keeps (h : Linked w) (hu : useFile w = some t) : Keeps w t := by
  obtain ⟨file, _, rfl⟩ := Option.map_eq_some_iff.mp hu
  exact uses_keeps h file 1

lemma closeFailed_keeps (h : Linked w) (error : Error) (text : String) :
    Keeps w (closeFailed w error text).1 := close_keeps h

lemma sftpSendMimetype_keeps (h : Linked w) (file : SftpFile) (url : Url) (sftp_read : Bool) :
    Keeps w (sftpSendMimetype w file url sftp_read).1 := by
  have hread := uses_keeps h file 1
  unfold sftpSendMimetype
  split_ifs
  · exact hread.trans (uses_keeps hread.linked file 1)
  · exact hread

lemma openFile_keeps (h : Linked w) (url : Url) (session : ℕ) (o : OpenAnswer) :
    Keeps w (openFile w url session o).1 := by
  unfold openFile
  cases ho : o.sftp_open with
  | error error => exact ⟨rfl, Nat.le_refl _, h.connected, h.current⟩
  | ok =>
    dsimp only
    set w' : Worker := { w with
      mOpenFile := some ⟨session, w.files⟩
      files := w.files + 1
      trace := .sftp_open ⟨session, w.files⟩ :: w.trace }
    have hopened : Keeps w w' := ⟨rfl, Nat.le_refl _, h.connected, h.current⟩
    split_ifs with hread
    · have hmime := sftpSendMimetype_keeps hopened.linked ⟨session, w.files⟩ url o.sftp_read
      rcases hm : sftpSendMimetype w' ⟨session, w.files⟩ url o.sftp_read with ⟨w'', result⟩
      rw [hm] at hmime
      cases result with
      | pass => exact hopened.trans ⟨hmime.puts, hmime.sessions, hmime.linked.connected,
          hmime.linked.current⟩
      | fail error text => exact (hopened.trans hmime).trans (close_keeps hmime.linked)
    · exact ⟨hopened.puts, hopened.sessions, hopened.linked.connected, hopened.linked.current⟩

variable {r : Worker × WorkerResult} {connect : Connect}

variable {o : OpenAnswer} {w' : Worker} {l : Label}

lemma open_keeps (h : Linked w) {url : Url} (ho : w.open url o = some r) : Keeps w r.1 := by
  unfold Worker.open at ho
  have hlogin := sftpLogin_keeps h o.connect
  rcases hl : sftpLogin w o.connect with ⟨w', result⟩
  rw [hl] at ho hlogin
  cases result with
  | fail error text =>
    obtain rfl := Option.some.inj ho
    exact hlogin
  | pass =>
    obtain ⟨session, _, rfl⟩ := Option.map_eq_some_iff.mp ho
    cases o.stat with
    | failed err => exact hlogin.trans (reportError_keeps hlogin.linked url err)
    | directory => exact hlogin
    | special => exact hlogin
    | file => exact hlogin.trans (openFile_keeps hlogin.linked url session o)

lemma mimetype_keeps (h : Linked w) {url : Url} (hr : mimetype w url connect o = some r) :
    Keeps w r.1 := by
  unfold mimetype at hr
  have hlogin := sftpLogin_keeps h connect
  rcases hl : sftpLogin w connect with ⟨w', result⟩
  rw [hl] at hr hlogin
  cases result with
  | fail error text =>
    obtain rfl := Option.some.inj hr
    exact hlogin
  | pass =>
    obtain ⟨⟨w'', result⟩, ho, rfl⟩ := Option.map_eq_some_iff.mp hr
    have hopened := open_keeps hlogin.linked ho
    exact (hlogin.trans hopened).trans (close_keeps hopened.linked)

lemma read_keeps (h : Linked w) {sftp_read : Bool} (hr : read w sftp_read = some r) :
    Keeps w r.1 := by
  obtain ⟨w', hu, rfl⟩ := Option.map_eq_some_iff.mp hr
  have hused := useFile_keeps h hu
  split_ifs
  · exact hused
  · exact hused.trans (closeFailed_keeps hused.linked _ _)

lemma write_keeps (h : Linked w) {requests : ℕ} {written : Bool}
    (hr : write w requests written = some r) : Keeps w r.1 := by
  obtain ⟨file, _, rfl⟩ := Option.map_eq_some_iff.mp hr
  have hused := uses_keeps h file requests
  dsimp only
  split_ifs
  · exact hused
  · exact hused.trans (closeFailed_keeps hused.linked _ _)

lemma seek_keeps (h : Linked w) {sftp_seek64 : Bool} (hr : seek w sftp_seek64 = some r) :
    Keeps w r.1 := by
  obtain ⟨w', hu, hr'⟩ := Option.bind_eq_some_iff.mp hr
  have hused := useFile_keeps h hu
  split_ifs at hr'
  · obtain ⟨w'', hu', rfl⟩ := Option.map_eq_some_iff.mp hr'
    exact hused.trans (useFile_keeps hused.linked hu')
  · obtain rfl := Option.some.inj hr'
    exact hused.trans (closeFailed_keeps hused.linked _ _)

lemma truncate_keeps (h : Linked w) {errorCode : Option Error}
    (hr : truncate w errorCode = some r) : Keeps w r.1 := by
  obtain ⟨w', hu, rfl⟩ := Option.map_eq_some_iff.mp hr
  have hused := useFile_keeps h hu
  cases errorCode with
  | none => exact hused
  | some error => exact hused.trans (closeFailed_keeps hused.linked _ _)

lemma operation_keeps (h : Linked w) {op : Operation} {ended : Ended}
    (hr : operation w op connect ended = some r) : Keeps w r.1 := by
  unfold operation at hr
  have hlogin := sftpLogin_keeps h connect
  rcases hl : sftpLogin w connect with ⟨w', result⟩
  rw [hl] at hr hlogin
  cases result with
  | fail error text =>
    obtain rfl := Option.some.inj hr
    exact hlogin
  | pass =>
    cases ended with
    | returned result =>
      obtain rfl := Option.some.inj hr
      exact hlogin
    | reported url err =>
      dsimp only at hr
      split_ifs at hr
      obtain rfl := Option.some.inj hr
      exact hlogin.trans (reportError_keeps hlogin.linked url err)

/-- The record of a put that is logged in. Its login has set the flag, so the put calls
`sftp_chmod` wherever it gets to. -/
lemma recordPut_records (h : Linked w) (hlogin : sftpLogin w connect = (w', .pass)) (asks : Bool)
    (left : Left) (hquiet : asks = false → left.signals.any Signal.isWarning = false) :
    ∃ p, Records w asks (recordPut w' asks left).1 p := by
  have hkeeps := sftpLogin_keeps h connect
  rw [hlogin] at hkeeps
  have hstate : (w'.mCanSetPermissions = true) ∧
      ∃ session, w'.mSftp = some session ∧
        (w.mSftp = some session ∨ w.mSftp = none ∧ session = w.sessions) := by
    rcases sftpLogin_cases h connect with ⟨hconn, heq⟩ | ⟨_, _, _, heq⟩ | ⟨hnone, username, _, heq⟩
    · rw [hlogin] at heq
      obtain rfl : w' = { w with mCanSetPermissions := true } := congrArg Prod.fst heq
      obtain ⟨session, hs⟩ := Option.isSome_iff_exists.mp (h.connected ▸ hconn)
      exact ⟨rfl, session, hs, Or.inl hs⟩
    · rw [hlogin] at heq
      exact absurd (congrArg Prod.snd heq) (by simp)
    · rw [hlogin] at heq
      obtain rfl : w' = connected w username := congrArg Prod.fst heq
      exact ⟨rfl, w.sessions, rfl, Or.inr ⟨hnone, rfl⟩⟩
  obtain ⟨hcan, session, hs, hsession⟩ := hstate
  refine ⟨⟨session, asks, asks && !left.mCanSetPermissions, left.signals.any Signal.isWarning⟩,
    ?_, rfl, hquiet, hsession, hkeeps.linked.current session hs, hkeeps.sessions,
    hkeeps.linked.connected, hkeeps.linked.current⟩
  have hputs : w'.trace.filterMap Event.putRecord? = w.trace.filterMap Event.putRecord? :=
    hkeeps.puts
  simp only [Worker.puts, recordPut, hs, hcan, Option.map_some, Option.toList_some,
    List.singleton_append, Bool.and_true]
  rw [← hputs]
  rfl

lemma login_failed (h : Linked w) {error : Error} {text : String}
    (hlogin : sftpLogin w connect = (w', .fail error text)) : w.mSftp = none := by
  rcases sftpLogin_cases h connect with ⟨_, heq⟩ | ⟨hnone, _⟩ | ⟨hnone, _⟩
  · rw [hlogin] at heq
    exact absurd (congrArg Prod.snd heq) (by simp)
  · exact hnone
  · exact hnone

lemma step_cases (h : Linked w) (hs : step w l = some t) :
    (Keeps w t ∧ (w.mSftp ≠ none → sets l = false)) ∨ ∃ p, Records w (sets l) t p := by
  cases l with
  | setHost host port user pass =>
    obtain rfl := Option.some.inj hs
    exact Or.inl ⟨setHost_keeps h host port user pass, fun _ => rfl⟩
  | openConnection connect =>
    obtain rfl := Option.some.inj hs
    exact Or.inl ⟨openConnection_keeps h connect, fun _ => rfl⟩
  | closeConnection =>
    obtain rfl := Option.some.inj hs
    exact Or.inl ⟨closeConnection_keeps w, fun _ => rfl⟩
  | special | refused =>
    obtain rfl := Option.some.inj hs
    exact Or.inl ⟨Keeps.refl h, fun _ => rfl⟩
  | «open» url o =>
    obtain ⟨r, hr, rfl⟩ := Option.map_eq_some_iff.mp hs
    exact Or.inl ⟨open_keeps h hr, fun _ => rfl⟩
  | read sftp_read =>
    obtain ⟨r, hr, rfl⟩ := Option.map_eq_some_iff.mp hs
    exact Or.inl ⟨read_keeps h hr, fun _ => rfl⟩
  | write requests written =>
    obtain ⟨r, hr, rfl⟩ := Option.map_eq_some_iff.mp hs
    exact Or.inl ⟨write_keeps h hr, fun _ => rfl⟩
  | seek sftp_seek64 =>
    obtain ⟨r, hr, rfl⟩ := Option.map_eq_some_iff.mp hs
    exact Or.inl ⟨seek_keeps h hr, fun _ => rfl⟩
  | truncate errorCode =>
    obtain ⟨r, hr, rfl⟩ := Option.map_eq_some_iff.mp hs
    exact Or.inl ⟨truncate_keeps h hr, fun _ => rfl⟩
  | close =>
    obtain rfl := Option.some.inj hs
    exact Or.inl ⟨close_keeps h, fun _ => rfl⟩
  | mimetype url connect o =>
    obtain ⟨r, hr, rfl⟩ := Option.map_eq_some_iff.mp hs
    exact Or.inl ⟨mimetype_keeps h hr, fun _ => rfl⟩
  | operation op connect ended =>
    obtain ⟨r, hr, rfl⟩ := Option.map_eq_some_iff.mp hs
    exact Or.inl ⟨operation_keeps h hr, fun _ => rfl⟩
  | put connect env remote url permissions flags source =>
    obtain rfl := Option.some.inj hs
    have hkeeps := sftpLogin_keeps h connect
    unfold put
    rcases hl : sftpLogin w connect with ⟨w', result⟩
    rw [hl] at hkeeps
    cases result with
    | fail error text => exact Or.inl ⟨hkeeps, fun hlive => absurd (login_failed h hl) hlive⟩
    | pass => exact Or.inr (recordPut_records h hl _ _ fun hno => sftpPut_quiet _ hno)
  | copyPut connect env disk remote url sCopyFile permissions flags openSource =>
    obtain rfl := Option.some.inj hs
    have hkeeps := sftpLogin_keeps h connect
    unfold copyPut
    by_cases hopens : opensSource disk sCopyFile openSource = true
    · rw [if_pos hopens]
      rcases hl : sftpLogin w connect with ⟨w', result⟩
      rw [hl] at hkeeps
      cases result with
      | fail error text => exact Or.inl ⟨hkeeps, fun hlive => absurd (login_failed h hl) hlive⟩
      | pass =>
        right
        have hsets : sets (.copyPut connect env disk remote url sCopyFile permissions flags
            openSource) = setsPermissions { env with login := .pass } remote url permissions flags
              (.fd (((disk.stat sCopyFile).bind fun node => node.kind.data).getD [])) := by
          simp [sets, hopens]
        rw [hsets]
        exact recordPut_records h hl _ _ fun hno => sftpCopyPut_quiet hopens hno
    · rw [if_neg hopens]
      exact Or.inl ⟨Keeps.refl h, fun _ => by simp [sets, hopens]⟩

/-! ### Runs -/

structure Recorded (w : Worker) : Prop where
  linked : Linked w
  earlier : ∀ p ∈ w.puts, p.session < w.sessions

lemma initial_recorded : Recorded initial :=
  ⟨initial_linked, fun _ hp => absurd hp List.not_mem_nil⟩

lemma Recorded.step (h : Recorded w) (hs : step w l = some t) : Recorded t := by
  rcases step_cases h.linked hs with ⟨hkeeps, _⟩ | ⟨p, hrecords⟩
  · refine ⟨hkeeps.linked, fun p hp => ?_⟩
    have hlt := h.earlier p (hkeeps.puts ▸ hp)
    have hle := hkeeps.sessions
    omega
  · refine ⟨hrecords.linked, fun q hq => ?_⟩
    rw [hrecords.puts] at hq
    rcases List.mem_cons.mp hq with rfl | hq
    · exact hrecords.bound
    · have hlt := h.earlier q hq
      have hle := hrecords.sessions
      omega

/-- One step: what was asked before is not asked again exactly when no put that has permissions
to set comes after a refusal. -/
lemma step_askedOnce (h : Recorded w) (hs : step w l = some t) :
    AskedOnce t ↔ AskedOnce w ∧ (Refused w → sets l = false) := by
  rcases step_cases h.linked hs with ⟨hkeeps, hsets⟩ | ⟨p, hrecords⟩
  · have hidle : Refused w → sets l = false := by
      rintro ⟨q, _, hlive, _⟩
      exact hsets (by simp [hlive])
    unfold AskedOnce
    rw [hkeeps.puts]
    exact ⟨fun hw => ⟨hw, hidle⟩, And.left⟩
  · -- an earlier put on the connection of this one means that the connection is still alive
    have hlive : ∀ q ∈ w.puts, p.session = q.session → w.mSftp = some q.session := by
      intro q hq heq
      rcases hrecords.session with hcurrent | ⟨_, hnew⟩
      · rw [← heq]
        exact hcurrent
      · have hlt := h.earlier q hq
        omega
    unfold AskedOnce
    rw [hrecords.puts, List.pairwise_cons]
    refine ⟨fun ⟨hfirst, hrest⟩ => ⟨hrest, ?_⟩, fun ⟨hrest, hrefused⟩ => ⟨?_, hrest⟩⟩
    · rintro ⟨q, hq, hsession, href⟩
      have heq : p.session = q.session := by
        rcases hrecords.session with hcurrent | ⟨hnone, _⟩
        · exact Option.some.inj (hcurrent.symm.trans hsession)
        · rw [hnone] at hsession
          cases hsession
      have hasked := (hfirst q hq heq href).1
      rw [← hrecords.asked]
      exact hasked
    · intro q hq heq href
      have hno := hrefused ⟨q, hq, hlive q hq heq, href⟩
      exact ⟨hrecords.asked.trans hno, hrecords.warned hno⟩

/-- **A refusal is forgotten**: no later put on the connection asks the server again, or warns
again, if and only if there is none that has permissions to set. -/
theorem asked_once_iff (ls : List Label) (w : Worker) (h : run step initial ls = some w) :
    AskedOnce w ↔ AllSteps step (fun w l => Refused w → sets l = false) initial ls := by
  have hrun : ∀ v, Recorded v → run step v ls = some w →
      (AskedOnce w ↔ AskedOnce v ∧ AllSteps step (fun w l => Refused w → sets l = false) v ls) := by
    intro v hv hls
    clear h
    induction ls generalizing v with
    | nil =>
      obtain rfl := Option.some.inj hls
      exact ⟨fun hw => ⟨hw, trivial⟩, And.left⟩
    | cons l ls ih =>
      obtain ⟨t, ht, hrest⟩ := run_cons_some step hls
      rw [ih t (hv.step ht) hrest, step_askedOnce hv ht, and_assoc]
      refine and_congr_right fun _ => ⟨fun ⟨hl, hall⟩ => allSteps_cons ht hl hall, fun hall =>
        ⟨hall.1, hall.2 t ht⟩⟩
  rw [hrun initial initial_recorded h]
  exact and_iff_right List.Pairwise.nil

/-- A put of one byte to a server that takes no permissions. -/
def refusedPut (permissions : ℤ) : Label :=
  .put (.established "") { quiet with chmod := false } (Store.ofFiles []) ⟨"/f", "sftp://h/f"⟩
    permissions DefaultFlags (.app [some [1], some []])

/-- A worker that is given a host and then puts files with these permissions. -/
def puts (permissions : List ℤ) : List Label :=
  .setHost "h" 22 "" "" :: permissions.map refusedPut

/-- The second put comes without permissions. -/
theorem asked_once_plain : AskedOnce ((run step initial (puts [0o644, -1])).getD initial) := by
  have hrun : (run step initial (puts [0o644, -1])).isSome = true := by decide
  obtain ⟨w, hw⟩ := Option.isSome_iff_exists.mp hrun
  rw [hw]
  exact (asked_once_iff (puts [0o644, -1]) w hw).mpr (by decide)

/-- The second put asks the server that has refused the first one. -/
theorem asked_twice : ¬ ∀ ls w, run step initial ls = some w → AskedOnce w := by
  intro hall
  have hrun : (run step initial (puts [0o644, 0o644])).isSome = true := by decide
  obtain ⟨w, hw⟩ := Option.isSome_iff_exists.mp hrun
  have hasked : ((run step initial (puts [0o644, 0o644])).map fun w =>
      decide (AskedOnce w)) = some false := by decide
  rw [hw] at hasked
  have hno : ¬ AskedOnce w := by simpa using hasked
  exact hno (hall _ w hw)

end KioExtras.Sftp.Permissions
