import KioExtras.Smb.CopyGet
import KioExtras.Smb.CopyPut

/-!
Copies between a share and the disk in both directions: a copy in which nothing fails is
complete, and what a kill does to the file at the final name.
-/

namespace KioExtras.Smb.Copy

open KioExtras.Kio KioExtras.Lib.Run KioExtras.Lib.FileStore Resume

/-! ### Nothing fails -/

/-- **A copy in which nothing fails is complete.** In both directions no run is longer than a
bound, apart from the steps that threads add by waking up for no reason; a run can go on until it
returns, and then the destination holds the source. The partial file is gone when the copy went
through it and is left as it was otherwise. -/
theorem copy_complete (disk : Store String) (remote : Store SMBUrl) (ksrc kdst : SMBUrl)
    (permissions : ℤ) (flags : JobFlags) (content : List UInt8) :
    (∀ env ls p, CopyGet.Succeeds env → CopyGet.Ready disk remote ksrc kdst flags content →
      AllSteps (CopyGet.step env) CopyGet.Quiet
        (CopyGet.start env disk remote ksrc kdst permissions flags) ls →
      run (CopyGet.step env) (CopyGet.start env disk remote ksrc kdst permissions flags) ls =
        some p →
      ls.length ≤ 17 * content.length + 24 + 2 * CopyGet.wakes ls ∧
        ((∃ l, CopyGet.Quiet p l ∧ CopyGet.cost l = 0 ∧ (CopyGet.step env p l).isSome = true) ∨
          ∃ left, p = .returned left ∧
            Complete env.MarkPartial disk kdst.path kdst.partUrl.path content left)) ∧
    (∀ env ls p, CopyPut.Succeeds env → CopyPut.Ready disk remote ksrc kdst flags content →
      AllSteps (CopyPut.step env) CopyPut.Quiet
        (CopyPut.start env disk remote ksrc kdst permissions flags) ls →
      run (CopyPut.step env) (CopyPut.start env disk remote ksrc kdst permissions flags) ls =
        some p →
      ls.length ≤ 3 * content.length + 5 ∧
        ((∃ l, CopyPut.Quiet p l ∧ (CopyPut.step env p l).isSome = true) ∨
          ∃ left, p = .returned left ∧
            Complete env.MarkPartial remote kdst kdst.partUrl content left)) :=
  ⟨fun _ _ _ hs h hquiet hrun => CopyGet.quiet_run hs h hquiet hrun,
    fun _ _ _ hs h hquiet hrun => CopyPut.quiet_run hs h hquiet hrun⟩

/-! Calls that all succeed, for runs on fixed files. -/

def getEnv (MarkPartial : Bool) : CopyGet.Env where
  MarkPartial := MarkPartial
  canResume _ := true
  setPermissions := true
  openFile := none
  fresh := ⟨0o600, 1000, 1000, 0, 0⟩
  stat := none
  smbc_open := none
  smbc_lseek := true
  flush := true
  futimens := true
  calls := ⟨true, true, true⟩
  DEFAULT_MINIMUM_KEEP_SIZE := 5000

def putEnv (MarkPartial : Bool) : CopyPut.Env where
  MarkPartial := MarkPartial
  canResume _ := true
  openSource := none
  stat _ := true
  smbc_open := none
  fresh mode := ⟨mode, 1000, 1000, 0, 0⟩
  smbc_lseek := true
  seek := true
  smbc_close := true
  calls := ⟨fun _ => true, true, true⟩
  modified := none
  now := 0
  smbc_utime := true
  DEFAULT_MINIMUM_KEEP_SIZE := 5000

def localFile : SMBUrl := ⟨"file", "", "/f", []⟩
def remoteFile : SMBUrl := ⟨"smb", "h", "/s/f", []⟩

open Store (ofFiles)

lemma getEnv_succeeds (MarkPartial : Bool) : CopyGet.Succeeds (getEnv MarkPartial) :=
  ⟨rfl, rfl, rfl, rfl, rfl, rfl, rfl⟩

lemma putEnv_succeeds (MarkPartial : Bool) : CopyPut.Succeeds (putEnv MarkPartial) :=
  ⟨rfl, fun _ => rfl, rfl, rfl, rfl, rfl, rfl⟩

/-- One byte to the disk. -/
def getOne : List CopyGet.Label :=
  [.move .check, .poll, .move .nextFree, .read (some 0), .move .push, .move .pop, .write (some 1),
    .move .check, .poll, .unpop, .move .nextFree, .read (some 0), .move .push, .move .pop,
    .move .done, .write (some 0), .unpop, .move .pop, .conclude]

/-- A byte to the share, behind another one. -/
def putRest : List CopyPut.Label :=
  [.poll, .read (some 5), .write (some 5), .poll, .read (some 5), .conclude]

/-- Two bytes to the share. -/
def putTwo : List CopyPut.Label :=
  [.poll, .read (some 0), .write (some 5), .poll, .read (some 5), .write (some 5), .poll,
    .read (some 5), .conclude]

set_option maxRecDepth 4000 in
/-- A byte to the disk, and two to the share where the first one is already. -/
theorem copy_complete_short :
    (∃ left, (run (CopyGet.step (getEnv true)) (CopyGet.start (getEnv true) (ofFiles [])
        (ofFiles [(remoteFile, [1])]) remoteFile localFile (-1) DefaultFlags) getOne).bind
          CopyGet.Phase.left? = some left ∧
      Complete true (ofFiles []) localFile.path localFile.partUrl.path [1] left) ∧
    ∃ left, (run (CopyPut.step (putEnv true)) (CopyPut.start (putEnv true)
        (ofFiles [("/f", [1, 2])]) (ofFiles [(remoteFile.partUrl, [1])]) localFile remoteFile (-1)
        DefaultFlags) putRest).bind CopyPut.Phase.left? = some left ∧
      Complete true (ofFiles [(remoteFile.partUrl, [1])]) remoteFile remoteFile.partUrl [1, 2]
        left := by
  constructor
  · obtain ⟨left, hleft⟩ := Option.isSome_iff_exists.mp (show ((run (CopyGet.step (getEnv true))
        (CopyGet.start (getEnv true) (ofFiles []) (ofFiles [(remoteFile, [1])]) remoteFile
          localFile (-1) DefaultFlags) getOne).bind CopyGet.Phase.left?).isSome = true by
      decide)
    refine ⟨left, hleft, ?_⟩
    obtain ⟨p, hrun, hp⟩ := Option.bind_eq_some_iff.mp hleft
    obtain rfl := CopyGet.Phase.left?_eq_some.mp hp
    rcases ((copy_complete (ofFiles []) (ofFiles [(remoteFile, [1])]) remoteFile localFile (-1)
      DefaultFlags [1]).1 (getEnv true) getOne _ (getEnv_succeeds true)
      ⟨by decide, rfl, by decide, Or.inl rfl, Or.inl rfl⟩ (by decide) hrun).2 with
      ⟨l, -, -, hl⟩ | ⟨left', hleft', hcomplete⟩
    · simp [CopyGet.step] at hl
    · exact CopyGet.Phase.returned.inj hleft' ▸ hcomplete
  · obtain ⟨left, hleft⟩ := Option.isSome_iff_exists.mp (show ((run (CopyPut.step (putEnv true))
        (CopyPut.start (putEnv true) (ofFiles [("/f", [1, 2])]) (ofFiles [(remoteFile.partUrl, [1])])
          localFile remoteFile (-1) DefaultFlags) putRest).bind CopyPut.Phase.left?).isSome = true by
      decide)
    refine ⟨left, hleft, ?_⟩
    obtain ⟨p, hrun, hp⟩ := Option.bind_eq_some_iff.mp hleft
    obtain rfl := CopyPut.Phase.left?_eq_some.mp hp
    rcases ((copy_complete (ofFiles [("/f", [1, 2])]) (ofFiles [(remoteFile.partUrl, [1])])
      localFile remoteFile (-1) DefaultFlags [1, 2]).2 (putEnv true) putRest _ (putEnv_succeeds true)
      ⟨by decide, rfl, by decide, Or.inl (by decide), Or.inr ⟨[1], by decide, by decide⟩⟩
      (by decide) hrun).2 with ⟨l, -, hl⟩ | ⟨left', hleft', hcomplete⟩
    · simp [CopyPut.step] at hl
    · exact CopyPut.Phase.returned.inj hleft' ▸ hcomplete

set_option maxRecDepth 4000 in
/-- Without `MarkPartial` a partial file is still there after the copy. -/
theorem copy_keeps_part :
    CopyPut.Succeeds (putEnv false) ∧
      CopyPut.Ready (ofFiles [("/f", [1, 2])]) (ofFiles [(remoteFile.partUrl, [1])]) localFile
        remoteFile DefaultFlags [1, 2] ∧
      AllSteps (CopyPut.step (putEnv false)) CopyPut.Quiet (CopyPut.start (putEnv false)
        (ofFiles [("/f", [1, 2])]) (ofFiles [(remoteFile.partUrl, [1])]) localFile remoteFile (-1)
        DefaultFlags) putTwo ∧
      ((run (CopyPut.step (putEnv false)) (CopyPut.start (putEnv false) (ofFiles [("/f", [1, 2])])
        (ofFiles [(remoteFile.partUrl, [1])]) localFile remoteFile (-1) DefaultFlags) putTwo).bind
          CopyPut.Phase.left?).map (fun left => (left.result, left.store.content remoteFile,
            left.store.kindAt remoteFile.partUrl)) =
        some (.pass, some [1, 2], some (.file [1])) := by
  refine ⟨putEnv_succeeds false, ⟨by decide, rfl, by decide, Or.inl (by decide),
    Or.inr ⟨[1], by decide, by decide⟩⟩, by decide, by decide⟩

/-! ### The kill flag -/

/-- **What a kill does to the file at the final name.** With a partial file the final name is left
alone as long as a copy runs. A kill alone does not keep the partial file from being put there at
the end: the file that was there is spared exactly when some call fails first. -/
theorem killed_copy_spared_iff (disk : Store String) (remote : Store SMBUrl) (ksrc kdst : SMBUrl)
    (permissions : ℤ) (flags : JobFlags) (hname : kdst.namesFile = true)
    (hR : flags.Resume = false) :
    (∀ env, env.MarkPartial = true → disk.Apart kdst.partUrl.path kdst.path →
      (∀ left, CopyGet.start env disk remote ksrc kdst permissions flags = .returned left →
        Kept disk kdst.path left) ∧
      ∀ before after job c c', CopyGet.KilledRun env
          (CopyGet.start env disk remote ksrc kdst permissions flags) before after job c c' →
        Untouched disk kdst.path c'.disk ∧
        ∀ left, CopyGet.step env (.running job c') .conclude = some (.returned left) →
          (Spared disk kdst.path (job.content.length ≤ c'.processed_size) left ↔
            CopyGet.Stops env disk kdst (before ++ .kill :: after) ∨
              disk kdst.path = none ∧ job.content.length ≤ c'.processed_size)) ∧
    (∀ env, env.MarkPartial = true → remote.Apart kdst.partUrl kdst →
      (∀ left, CopyPut.start env disk remote ksrc kdst permissions flags = .returned left →
        Kept remote kdst left) ∧
      ∀ before after job c c', CopyPut.KilledRun env
          (CopyPut.start env disk remote ksrc kdst permissions flags) before after job c c' →
        Untouched remote kdst c'.remote ∧
        ∀ left, CopyPut.step env (.running job c') .conclude = some (.returned left) →
          (Spared remote kdst (job.content.length ≤ c'.processed_size) left ↔
            CopyPut.Stops env remote kdst (before ++ .kill :: after) ∨
              remote kdst = none ∧ job.content.length ≤ c'.processed_size)) := by
  refine ⟨fun env hM hapart => ⟨fun left h => ?_, fun _ _ _ _ _ h => ?_⟩,
    fun env hM hapart => ⟨fun left h => ?_, fun _ _ _ _ _ h => ?_⟩⟩
  · exact CopyGet.start_returned hname hM hR hapart h
  · exact CopyGet.killed_spared_iff hname hM hR hapart h
  · obtain ⟨hstore, hinstalled⟩ := CopyPut.start_returned h
    exact ⟨hinstalled, hstore ▸ .refl _ _⟩
  · exact CopyPut.killed_spared_iff hname hM hR hapart h

/-- The writing loop finds nothing because the reader thread saw the kill flag. -/
def getKilled : List CopyGet.Label := [.move .check, .poll, .move .done, .move .pop]

set_option maxRecDepth 4000 in
/-- A flush and a write that fail after the kill save the file that is there. -/
theorem killed_copy_spared_failing :
    (∃ job c c' left, CopyGet.KilledRun { getEnv true with flush := false }
        (CopyGet.start { getEnv true with flush := false } (ofFiles [("/f", [9])])
          (ofFiles [(remoteFile, [1, 2])]) remoteFile localFile (-1) ⟨true, false⟩) [] getKilled
        job c c' ∧
      CopyGet.step { getEnv true with flush := false } (.running job c') .conclude =
        some (.returned left) ∧
      Spared (ofFiles [("/f", [9])]) localFile.path (job.content.length ≤ c'.processed_size)
        left) ∧
    ∃ job c c' left, CopyPut.KilledRun (putEnv true) (CopyPut.start (putEnv true)
        (ofFiles [("/f", [1, 2])]) (ofFiles [(remoteFile, [9])]) localFile remoteFile (-1)
        ⟨true, false⟩) [.poll, .read (some 0)] [.write none] job c c' ∧
      CopyPut.step (putEnv true) (.running job c') .conclude = some (.returned left) ∧
      Spared (ofFiles [(remoteFile, [9])]) remoteFile (job.content.length ≤ c'.processed_size)
        left := by
  constructor
  · have hrun : CopyGet.KilledRun { getEnv true with flush := false }
        (CopyGet.start { getEnv true with flush := false } (ofFiles [("/f", [9])])
          (ofFiles [(remoteFile, [1, 2])]) remoteFile localFile (-1) ⟨true, false⟩) [] getKilled
        _ _ _ := ⟨rfl, by decide, rfl⟩
    refine ⟨_, _, _, _, hrun, rfl, ?_⟩
    refine ((((killed_copy_spared_iff (ofFiles [("/f", [9])]) (ofFiles [(remoteFile, [1, 2])])
      remoteFile localFile (-1) ⟨true, false⟩ (by decide) rfl).1 _ rfl
      (Store.apart_ofFiles (by decide))).2 _ _ _ _ _ hrun).2 _ rfl).mpr ?_
    exact Or.inl (Or.inr (Or.inl rfl))
  · have hrun : CopyPut.KilledRun (putEnv true) (CopyPut.start (putEnv true)
        (ofFiles [("/f", [1, 2])]) (ofFiles [(remoteFile, [9])]) localFile remoteFile (-1)
        ⟨true, false⟩) [.poll, .read (some 0)] [.write none] _ _ _ := ⟨rfl, by decide, rfl⟩
    refine ⟨_, _, _, _, hrun, rfl, ?_⟩
    refine ((((killed_copy_spared_iff (ofFiles [("/f", [1, 2])]) (ofFiles [(remoteFile, [9])])
      localFile remoteFile (-1) ⟨true, false⟩ (by decide) rfl).2 _ rfl
      (Store.apart_ofFiles (by decide))).2 _ _ _ _ _ hrun).2 _ rfl).mpr ?_
    exact Or.inl (Or.inr (Or.inl fun h => absurd h.2 (by decide)))

set_option maxRecDepth 4000 in
/-- A kill before the first byte is read: the empty partial file replaces the file that is there,
and the copy reports success. -/
theorem killed_copy_installs :
    (∃ job c c' left, CopyGet.KilledRun (getEnv true) (CopyGet.start (getEnv true)
        (ofFiles [("/f", [9])]) (ofFiles [(remoteFile, [1, 2])]) remoteFile localFile (-1)
        ⟨true, false⟩) [] getKilled job c c' ∧
      CopyGet.step (getEnv true) (.running job c') .conclude = some (.returned left) ∧
      left.result = .pass ∧ left.store.content localFile.path = some [] ∧
      ¬ Spared (ofFiles [("/f", [9])]) localFile.path (job.content.length ≤ c'.processed_size)
        left) ∧
    ∃ job c c' left, CopyPut.KilledRun (putEnv true) (CopyPut.start (putEnv true)
        (ofFiles [("/f", [1, 2])]) (ofFiles [(remoteFile, [9])]) localFile remoteFile (-1)
        ⟨true, false⟩) [] [.poll] job c c' ∧
      CopyPut.step (putEnv true) (.running job c') .conclude = some (.returned left) ∧
      left.result = .pass ∧ left.store.content remoteFile = some [] ∧
      ¬ Spared (ofFiles [(remoteFile, [9])]) remoteFile (job.content.length ≤ c'.processed_size)
        left := by
  constructor
  · refine ⟨_, _, _, _, ⟨rfl, by decide, rfl⟩, rfl, by decide, by decide, fun h => ?_⟩
    exact absurd (h.existing (by decide)).installed (by decide)
  · refine ⟨_, _, _, _, ⟨rfl, by decide, rfl⟩, rfl, by decide, by decide, fun h => ?_⟩
    exact absurd (h.existing (by decide)).installed (by decide)

end KioExtras.Smb.Copy
