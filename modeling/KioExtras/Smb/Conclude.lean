import KioExtras.Smb.Resume

/-!
The conclusion of a transfer that was written to a partial file: what is at the final name then,
for a share and for the disk, whichever of the calls fail.
-/

namespace KioExtras.Smb.Conclude

open KioExtras.Kio KioExtras.Lib.FileStore Resume

/-- The final name has the partial file after a success and what it had before after an error, and
a partial file of an error is gone just if it is too small to be kept. -/
structure Atomic {P : Type*} (before : Store P) (part dest : P) (keep : ℕ) (result : WorkerResult)
    (left : Left P) : Prop where
  installed : left.result.success = true → before part ≠ none ∧ left.store dest = before part
  kept : left.result.success = false → left.store dest = before dest
  part : result.success = false → ∀ data, before.kindAt part = some (.file data) →
    (left.store part = none ↔ data.length < keep)

def Renames {P : Type*} (before : Store P) (part dest : P) (r : Store P × Bool) : Prop :=
  if r.2 = true then before part ≠ none ∧ r.1 dest = before part else r.1 dest = before dest

section conclude

variable {P : Type*} {io : ResumeIO P} {before t : Store P} {part dest : P} {keep : ℕ}
  {result : WorkerResult} {resume : TransferContext}

lemma atomic_failed_iff (hne : resume.destination ≠ resume.completeDestination)
    (hresult : result.success = false)
    (hdest : io.remove before resume.destination dest = before dest) :
    Atomic before part dest keep result
        (concludeResumeHasError io keep before result resume) ↔
      ∀ data, before.kindAt part = some (.file data) →
        ((if io.exists_ before resume.destination = true ∧
            io.size before resume.destination < keep
          then io.remove before resume.destination part else before part) = none ↔
        data.length < keep) := by
  have hno : ¬ result.success = true := by simp [hresult]
  unfold concludeResumeHasError
  rw [if_neg hne, hresult, Bool.not_false, if_pos rfl]
  simp only [Bool.and_eq_true, decide_eq_true_eq]
  split
  · constructor
    · exact fun h => h.part hresult
    · exact fun h => ⟨fun hs => absurd hs hno, fun _ => hdest, fun _ => h⟩
  · constructor
    · exact fun h => h.part hresult
    · exact fun h => ⟨fun hs => absurd hs hno, fun _ => rfl, fun _ => h⟩

lemma atomic_passed_iff (hne : resume.destination ≠ resume.completeDestination)
    (hresult : result.success = true) :
    Atomic before part dest keep result
        (concludeResumeHasError io keep before result resume) ↔
      Renames before part dest
        (io.renameTo before resume.partDestination resume.completeDestination) := by
  have hno : ¬ result.success = false := by simp [hresult]
  unfold concludeResumeHasError Renames
  rw [if_neg hne, hresult, Bool.not_true, if_neg Bool.false_ne_true]
  rcases io.renameTo before resume.partDestination resume.completeDestination with ⟨t, ok⟩
  cases ok with
  | true =>
    constructor
    · exact fun hatomic => hatomic.installed hresult
    · exact fun hdest => ⟨fun _ => hdest, fun hs => absurd hs hno, fun hs => absurd hs hno⟩
  | false =>
    constructor
    · exact fun hatomic => hatomic.kept rfl
    · exact fun hdest => ⟨fun hs => Bool.noConfusion hs, fun _ => hdest, fun hs => absurd hs hno⟩

end conclude

section io

variable {P : Type*} [DecidableEq P] {store : Store P} {p q : P}

lemma removeIf_eq (ok : Bool) {n : Node P} (h : store p = some n) (hdir : n.kind.isDir = false) :
    removeIf ok store p = if ok = true then Function.update store p none else store := by
  unfold removeIf
  split
  · simp [Store.unlink, h, hdir]
  · rfl

lemma removeIf_of_not (ok : Bool) (h : ∀ n, store p = some n → n.kind.isDir = true) :
    removeIf ok store p = store := by
  unfold removeIf
  split
  · cases hp : store p with
    | none => simp [Store.unlink, hp]
    | some n => simp [Store.unlink, hp, h n hp]
  · rfl

omit [DecidableEq P] in
lemma stat_of_file {data : List UInt8} (h : store.kindAt p = some (.file data)) :
    store.stat p = store p := by
  apply Store.stat_of_linkAt
  rw [Store.linkAt, h]
  rfl

lemma renameNew_eq {n : Node P} (hp : store p = some n) (hq : store q = none) (hpq : p ≠ q) :
    store.renameNew p q = some (Function.update (Function.update store p none) q (some n)) := by
  simp [Store.renameNew, hq, Store.rename, hp, hpq]

lemma rename_some {t : Store P} (hpq : p ≠ q) (h : store.rename p q = some t) :
    store p ≠ none ∧ t q = store p := by
  unfold Store.rename at h
  cases hp : store p with
  | none =>
    rw [hp] at h
    cases h
  | some n =>
    rw [hp] at h
    dsimp only at h
    rw [if_neg hpq] at h
    refine ⟨nofun, ?_⟩
    split at h
    · split at h
      · cases h
      · rw [← Option.some.inj h, Function.update_self]
    · rw [← Option.some.inj h, Function.update_self]

lemma renameNew_some {t : Store P} (hpq : p ≠ q) (h : store.renameNew p q = some t) :
    store p ≠ none ∧ t q = store p := by
  unfold Store.renameNew at h
  split at h
  · exact rename_some hpq h
  · cases h

end io

/-! ### The disk -/

/-- What is at the final name can be removed and is no directory. -/
def Removable (calls : QFileCalls) (disk : Store String) (dest : String) : Prop :=
  calls.removeDest = true ∧ ∃ n, disk dest = some n ∧ n.kind.isDir = false

section disk

variable {calls : QFileCalls} {disk : Store String} {url newUrl : SMBUrl}

lemma QFile_renames (hne : url.path ≠ newUrl.path) :
    Renames disk url.path newUrl.path (( QFileResumeIO calls).renameTo disk url newUrl) ↔
      ((if calls.rename = true
        then (removeIf calls.removeDest disk newUrl.path).renameNew url.path newUrl.path
        else none) = none →
      removeIf calls.removeDest disk newUrl.path newUrl.path = disk newUrl.path) := by
  simp only [ QFileResumeIO]
  cases hr : (if calls.rename = true
      then (removeIf calls.removeDest disk newUrl.path).renameNew url.path newUrl.path
      else none) with
  | none => exact ⟨fun h _ => h, fun h => h rfl⟩
  | some t =>
    refine iff_of_true ?_ fun h => absurd h (Option.some_ne_none t)
    split at hr
    · obtain ⟨hpart, hdest⟩ := renameNew_some hne hr
      rw [removeIf_ne hne] at hpart hdest
      exact ⟨hpart, hdest⟩
    · cases hr

lemma QFile_renames_iff (hne : url.path ≠ newUrl.path) :
    Renames disk url.path newUrl.path (( QFileResumeIO calls).renameTo disk url newUrl) ↔
      (Removable calls disk newUrl.path → calls.rename = true ∧ disk url.path ≠ none) := by
  rw [QFile_renames hne]
  by_cases hrem : Removable calls disk newUrl.path
  · obtain ⟨hremove, n, hn, hdir⟩ := id hrem
    have hdisk := removeIf_eq calls.removeDest hn hdir
    rw [if_pos hremove] at hdisk
    have hgone : Function.update disk newUrl.path none newUrl.path ≠ disk newUrl.path := by
      rw [Function.update_self, hn]
      exact nofun
    have hpart : Function.update disk newUrl.path none url.path = disk url.path :=
      Function.update_of_ne hne _ _
    rw [hdisk]
    constructor
    · intro h _
      by_contra hnot
      refine hgone (h ?_)
      split
      · rename_i hrename
        have hnone : disk url.path = none := by
          by_contra hsome
          exact hnot ⟨hrename, hsome⟩
        simp [Store.renameNew, Store.rename, hpart, hnone]
      · rfl
    · intro h hnone
      obtain ⟨hrename, hsome⟩ := h hrem
      obtain ⟨m, hm⟩ := Option.ne_none_iff_exists'.mp hsome
      rw [if_pos hrename, renameNew_eq (hpart.trans hm) (Function.update_self _ _ _) hne] at hnone
      cases hnone
  · refine iff_of_true (fun _ => ?_) fun h => absurd h hrem
    cases hremove : calls.removeDest with
    | false => rfl
    | true =>
      rw [removeIf_of_not]
      intro n hn
      by_contra hdir
      exact hrem ⟨hremove, n, hn, by simpa using hdir⟩

end disk

/-! ### The share -/

lemma SMB_renames (calls : SMBCalls) (share : Store SMBUrl) {url newUrl : SMBUrl}
    (hne : url ≠ newUrl) :
    Renames share url newUrl (( SMBResumeIO calls).renameTo share url newUrl) := by
  simp only [ SMBResumeIO]
  cases hr : (if calls.rename = true then share.rename url newUrl else none) with
  | none => rfl
  | some t =>
    split at hr
    · exact rename_some hne hr
    · cases hr

/-! ### The partial file of an error -/

lemma removed_iff {P : Type*} [DecidableEq P] {before : Store P} {part : P} {data : List UInt8}
    (hfile : before.kindAt part = some (.file data)) (seen ok : Bool) (keep : ℕ) :
    ((if seen = true ∧ data.length < keep then removeIf ok before part part else before part) =
        none ↔ data.length < keep) ↔ (data.length < keep → seen = true ∧ ok = true) := by
  obtain ⟨a, ha⟩ := Store.kindAt_eq_some.mp hfile
  rw [removeIf_eq ok ha rfl]
  by_cases hsmall : data.length < keep
  · cases seen <;> cases ok <;> simp [hsmall, ha]
  · simp [hsmall, ha]

lemma QFile_removed_iff {calls : QFileCalls} {disk : Store String} {url : SMBUrl}
    {data : List UInt8} {keep : ℕ} (hfile : disk.kindAt url.path = some (.file data)) :
    ((if ( QFileResumeIO calls).exists_ disk url = true ∧
          ( QFileResumeIO calls).size disk url < keep
        then ( QFileResumeIO calls).remove disk url url.path else disk url.path) = none ↔
      data.length < keep) ↔ (data.length < keep → calls.removeSmall = true) := by
  obtain ⟨a, ha⟩ := Store.kindAt_eq_some.mp hfile
  have hstat := (stat_of_file hfile).trans ha
  have hexists : ( QFileResumeIO calls).exists_ disk url = true := by
    simp [ QFileResumeIO, hstat]
  have hsize : ( QFileResumeIO calls).size disk url = data.length := by
    simp [ QFileResumeIO, hstat, Kind.size]
  have hiff := removed_iff hfile (( QFileResumeIO calls).exists_ disk url) calls.removeSmall keep
  rw [hsize]
  refine hiff.trans (imp_congr_right fun _ => ?_)
  exact and_iff_right hexists

lemma SMB_removed_iff {calls : SMBCalls} {share : Store SMBUrl} {url : SMBUrl}
    {data : List UInt8} {keep : ℕ} (hfile : share.kindAt url = some (.file data)) :
    ((if ( SMBResumeIO calls).exists_ share url = true ∧ ( SMBResumeIO calls).size share url < keep
        then ( SMBResumeIO calls).remove share url url else share url) = none ↔
      data.length < keep) ↔ (data.length < keep → calls.stat url = true ∧ calls.unlink = true) := by
  obtain ⟨a, ha⟩ := Store.kindAt_eq_some.mp hfile
  have hstat := (stat_of_file hfile).trans ha
  have hexists : ( SMBResumeIO calls).exists_ share url = calls.stat url := by
    simp [ SMBResumeIO, hstat]
  have hiff := removed_iff hfile (calls.stat url) calls.unlink keep
  rw [← hiff, hexists]
  cases hseen : calls.stat url with
  | false => simp
  | true =>
    have hsize : ( SMBResumeIO calls).size share url = data.length := by
      simp [ SMBResumeIO, hstat, hseen, Kind.size]
    rw [hsize]
    rfl

structure QFileSafe (calls : QFileCalls) (disk : Store String) (part dest : String) (keep : ℕ)
    (result : WorkerResult) : Prop where
  passed : result.success = true → Removable calls disk dest →
    calls.rename = true ∧ disk part ≠ none
  failed : result.success = false → ∀ data, disk.kindAt part = some (.file data) →
    data.length < keep → calls.removeSmall = true

structure SMBSafe (calls : SMBCalls) (share : Store SMBUrl) (part : SMBUrl) (keep : ℕ)
    (result : WorkerResult) : Prop where
  failed : result.success = false → ∀ data, share.kindAt part = some (.file data) →
    data.length < keep → calls.stat part = true ∧ calls.unlink = true

/-- **When the conclusion is atomic.** On the disk the old file is removed before the rename and is
lost when that fails; on both a small partial file stays when it cannot be removed. -/
theorem concludes_atomic_iff {resume : TransferContext}
    (hpart : resume.destination = resume.partDestination)
    (hne : resume.partDestination.path ≠ resume.completeDestination.path) :
    (∀ (calls : QFileCalls) (disk : Store String) (keep : ℕ) (result : WorkerResult),
      Atomic disk resume.partDestination.path resume.completeDestination.path keep result
          (concludeResumeHasError ( QFileResumeIO calls) keep disk result resume) ↔
        QFileSafe calls disk resume.partDestination.path resume.completeDestination.path keep
          result) ∧
    ∀ (calls : SMBCalls) (share : Store SMBUrl) (keep : ℕ) (result : WorkerResult),
      Atomic share resume.partDestination resume.completeDestination keep result
          (concludeResumeHasError ( SMBResumeIO calls) keep share result resume) ↔
        SMBSafe calls share resume.partDestination keep result := by
  have hurl : resume.partDestination ≠ resume.completeDestination :=
    fun heq => hne (congrArg SMBUrl.path heq)
  have hdest : resume.destination ≠ resume.completeDestination := hpart ▸ hurl
  constructor
  · intro calls disk keep result
    cases hresult : result.success with
    | true =>
      rw [atomic_passed_iff hdest hresult, QFile_renames_iff hne]
      constructor
      · exact fun h => ⟨fun _ => h, fun hs => nomatch hs.symm.trans hresult⟩
      · exact fun h => h.passed hresult
    | false =>
      have hkept : removeIf calls.removeSmall disk resume.partDestination.path
          resume.completeDestination.path = disk resume.completeDestination.path :=
        removeIf_ne hne.symm
      rw [atomic_failed_iff hdest hresult (hpart ▸ hkept), hpart]
      constructor
      · intro h
        refine ⟨fun hs => absurd (hs.symm.trans hresult) nofun, fun _ data hdata => ?_⟩
        exact (QFile_removed_iff hdata).mp (h data hdata)
      · exact fun h data hdata => (QFile_removed_iff hdata).mpr (h.failed hresult data hdata)
  · intro calls share keep result
    cases hresult : result.success with
    | true =>
      rw [atomic_passed_iff hdest hresult]
      refine iff_of_true (SMB_renames calls share hurl) ⟨fun hs => ?_⟩
      exact nomatch hs.symm.trans hresult
    | false =>
      have hkept : removeIf calls.unlink share resume.partDestination
          resume.completeDestination = share resume.completeDestination :=
        removeIf_ne hurl.symm
      rw [atomic_failed_iff hdest hresult (hpart ▸ hkept), hpart]
      constructor
      · intro h
        refine ⟨fun _ data hdata => ?_⟩
        exact (SMB_removed_iff hdata).mp (h data hdata)
      · exact fun h data hdata => (SMB_removed_iff hdata).mpr (h.failed hresult data hdata)

def fileUrl : SMBUrl := ⟨"file", "", "/f", []⟩
def filePart : SMBUrl := ⟨"file", "", "/f.part", []⟩

def marked : TransferContext := ⟨false, filePart, filePart, fileUrl, -1⟩

def bothFiles : Store String := Store.ofFiles [("/f", [9]), ("/f.part", [1, 2])]

theorem replaced_whole :
    Atomic bothFiles "/f.part" "/f" 5000 .pass
        (concludeResumeHasError ( QFileResumeIO ⟨true, true, true⟩) 5000 bothFiles .pass marked) ∧
      Atomic (Store.ofFiles [(filePart, [1, 2])]) filePart fileUrl 5000 .pass
        (concludeResumeHasError ( SMBResumeIO ⟨fun _ => true, true, false⟩) 5000
          (Store.ofFiles [(filePart, [1, 2])]) .pass marked) := by
  have hpart : marked.destination = marked.partDestination := rfl
  have hiff := concludes_atomic_iff hpart (by decide)
  constructor
  · apply (hiff.1 _ _ _ _).mpr
    exact ⟨fun _ _ => ⟨rfl, by decide⟩, fun h => nomatch h⟩
  · apply (hiff.2 _ _ _ _).mpr
    exact ⟨fun h => nomatch h⟩

/-- The old file is removed and the rename fails. -/
theorem rename_fails_lost : ¬ ∀ (calls : QFileCalls) (disk : Store String) (keep : ℕ)
    (result : WorkerResult) (resume : TransferContext),
    resume.destination = resume.partDestination →
    resume.partDestination.path ≠ resume.completeDestination.path →
    Atomic disk resume.partDestination.path resume.completeDestination.path keep result
      (concludeResumeHasError ( QFileResumeIO calls) keep disk result resume) := by
  intro h
  have hkept := (h ⟨true, true, false⟩ bothFiles 5000 .pass marked rfl (by decide)).kept rfl
  exact absurd hkept (by decide)

end KioExtras.Smb.Conclude
