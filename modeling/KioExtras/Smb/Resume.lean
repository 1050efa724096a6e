import KioExtras.Lib.FileStore
import KioExtras.Smb.Url

/-!
Resuming a transfer: `Transfer::shouldResume` and `Transfer::concludeResumeHasError`, over the
files of a share or of the disk.
-/

namespace KioExtras.Smb.Resume

open KioExtras.Kio KioExtras.Lib.FileStore

structure TransferContext where
  resuming : Bool
  destination : SMBUrl
  partDestination : SMBUrl
  completeDestination : SMBUrl
  destinationOffset : ℤ

/-- The operations the templates ask of their `ResumeIO`, on a store with names of type `P`. -/
structure ResumeIO (P : Type*) where
  exists_ : Store P → SMBUrl → Bool
  size : Store P → SMBUrl → ℕ
  isDir : Store P → SMBUrl → Bool
  remove : Store P → SMBUrl → Store P
  renameTo : Store P → SMBUrl → SMBUrl → Store P × Bool

/-- What the server answers: does the stat of a URL succeed, and the calls of `remove()` and
`renameTo()`? -/
structure SMBCalls where
  stat : SMBUrl → Bool
  unlink : Bool
  rename : Bool

/-- `QFile::remove` of a small partial file and of the file that is replaced, and
`QFile::rename`. -/
structure QFileCalls where
  removeSmall : Bool
  removeDest : Bool
  rename : Bool

section io

variable {P : Type*} [DecidableEq P]

/-- A removal whose failure is ignored. -/
def removeIf (ok : Bool) (store : Store P) (p : P) : Store P :=
  if ok then (store.unlink p).getD store else store

def SMBResumeIO (calls : SMBCalls) : ResumeIO SMBUrl where
  exists_ share url := calls.stat url && (share.stat url).isSome
  size share url := if calls.stat url then ((share.stat url).map fun n => n.kind.size).getD 0 else 0
  isDir share url := calls.stat url && ((share.stat url).map fun n => n.kind.isDir).getD false
  remove share url := removeIf calls.unlink share url
  -- a file that already has the new name is replaced
  renameTo share url newUrl :=
    match if calls.rename then share.rename url newUrl else none with
    | none => (share, false)
    | some share => (share, true)

def QFileResumeIO (calls : QFileCalls) : ResumeIO String where
  exists_ disk url := (disk.stat url.path).isSome
  size disk url := ((disk.stat url.path).map fun n => n.kind.size).getD 0
  isDir disk url := ((disk.stat url.path).map fun n => n.kind.isDir).getD false
  remove disk url := removeIf calls.removeSmall disk url.path
  renameTo disk url newUrl :=
    let disk := removeIf calls.removeDest disk newUrl.path
    -- a file that has the new name makes `QFile::rename` fail
    match if calls.rename then disk.renameNew url.path newUrl.path else none with
    | none => (disk, false)
    | some disk => (disk, true)

end io

section templates

variable {P : Type*} (io : ResumeIO P)

def shouldResume (MarkPartial : Bool) (canResume : ℕ → Bool) (store : Store P)
    (destination : SMBUrl) (flags : JobFlags) : Except WorkerResult TransferContext :=
  if io.exists_ store destination && flags.Resume then
    .ok ⟨true, destination, destination, destination, io.size store destination⟩
  else if io.exists_ store destination && !flags.Overwrite then
    .error (.fail (if io.isDir store destination then .ERR_IS_DIRECTORY
      else .ERR_FILE_ALREADY_EXIST) destination.toDisplayString)
  else if MarkPartial then
    let partUrl := destination.partUrl
    if io.exists_ store partUrl && canResume (io.size store partUrl) then
      .ok ⟨true, partUrl, partUrl, destination, io.size store partUrl⟩
    else .ok ⟨false, partUrl, partUrl, destination, -1⟩
  else .ok ⟨false, destination, .null, destination, -1⟩

/-- The result and the store that are left; `installed` says that the partial file was renamed
to the final name. -/
structure Left (P : Type*) where
  result : WorkerResult
  store : Store P
  installed : Bool

def concludeResumeHasError (DEFAULT_MINIMUM_KEEP_SIZE : ℕ) (store : Store P)
    (result : WorkerResult) (resume : TransferContext) : Left P :=
  if resume.destination = resume.completeDestination then ⟨result, store, false⟩
  else if !result.success then
    if io.exists_ store resume.destination &&
        decide (io.size store resume.destination < DEFAULT_MINIMUM_KEEP_SIZE) then
      ⟨result, io.remove store resume.destination, false⟩
    else ⟨result, store, false⟩
  else
    match io.renameTo store resume.partDestination resume.completeDestination with
    | (store, false) =>
      ⟨.fail .ERR_CANNOT_RENAME_PARTIAL resume.partDestination.toDisplayString, store, false⟩
    | (store, true) => ⟨result, store, true⟩

end templates

/-! ### Without `KIO::Resume` -/

section fresh

variable {P : Type*} {io : ResumeIO P} {MarkPartial : Bool} {canResume : ℕ → Bool}
  {store : Store P} {destination : SMBUrl} {flags : JobFlags} {resume : TransferContext}

/-- Where a transfer without `KIO::Resume` goes: a partial file is resumed only when it is there
and the application agrees. -/
structure Fresh (io : ResumeIO P) (MarkPartial : Bool) (canResume : ℕ → Bool) (store : Store P)
    (destination : SMBUrl) (resume : TransferContext) : Prop where
  complete : resume.completeDestination = destination
  marked : MarkPartial = true →
    resume.destination = destination.partUrl ∧ resume.partDestination = destination.partUrl
  unmarked : MarkPartial = false → resume.destination = destination ∧ resume.resuming = false
  resuming : resume.resuming = true → MarkPartial = true ∧
    io.exists_ store destination.partUrl = true ∧
    canResume (io.size store destination.partUrl) = true ∧
    resume.destinationOffset = io.size store destination.partUrl
  anew : resume.resuming = false → MarkPartial = true →
    io.exists_ store destination.partUrl = true →
    canResume (io.size store destination.partUrl) = false

lemma shouldResume_fresh (hR : flags.Resume = false)
    (h : shouldResume io MarkPartial canResume store destination flags = .ok resume) :
    Fresh io MarkPartial canResume store destination resume := by
  unfold shouldResume at h
  simp only [hR, Bool.and_false, Bool.false_eq_true, if_false] at h
  split_ifs at h with h1 h2 h3
  · simp only [Except.ok.injEq] at h
    subst h
    simp only [Bool.and_eq_true] at h3
    exact ⟨rfl, fun _ => ⟨rfl, rfl⟩, by simp [h2], fun _ => ⟨h2, h3.1, h3.2, rfl⟩, by simp⟩
  · simp only [Except.ok.injEq] at h
    subst h
    refine ⟨rfl, fun _ => ⟨rfl, rfl⟩, by simp [h2], by simp, fun _ _ he => ?_⟩
    simpa [he] using h3
  · simp only [Except.ok.injEq] at h
    subst h
    exact ⟨rfl, by simp [h2], fun _ => ⟨rfl, rfl⟩, by simp, fun _ hm => absurd hm h2⟩

lemma shouldResume_ok (io : ResumeIO P) (MarkPartial : Bool) (canResume : ℕ → Bool)
    {store : Store P} {destination : SMBUrl} (hR : flags.Resume = false)
    (h : io.exists_ store destination = true → flags.Overwrite = true) :
    ∃ resume, shouldResume io MarkPartial canResume store destination flags = .ok resume := by
  unfold shouldResume
  simp only [hR, Bool.and_false, Bool.false_eq_true, if_false]
  have hno : (io.exists_ store destination && !flags.Overwrite) = false := by
    cases he : io.exists_ store destination with
    | false => rfl
    | true => simp [h he]
  rw [hno]
  simp only [Bool.false_eq_true, if_false]
  split_ifs
  · exact ⟨_, rfl⟩
  · exact ⟨_, rfl⟩
  · exact ⟨_, rfl⟩

end fresh

/-! ### Concluding -/

section conclude

variable {P : Type*}

lemma removeIf_ne [DecidableEq P] {ok : Bool} {store : Store P} {p q : P} (hq : q ≠ p) :
    removeIf ok store p q = store q := by
  unfold removeIf
  split_ifs
  · cases h : store.unlink p with
    | none => rfl
    | some t => exact Store.unlink_ne h hq
  · rfl

variable {io : ResumeIO P} {store t : Store P} {result : WorkerResult} {resume : TransferContext}

lemma conclude_failed (io : ResumeIO P) {store : Store P} (part : P) (keep : ℕ)
    (hne : resume.destination ≠ resume.completeDestination) (hresult : result.success = false)
    (hremove : ∀ p, p ≠ part → io.remove store resume.destination p = store p) :
    ∃ t, concludeResumeHasError io keep store result resume = ⟨result, t, false⟩ ∧
      ∀ p, p ≠ part → t p = store p := by
  simp only [concludeResumeHasError, if_neg hne, hresult, Bool.not_false, if_true]
  split_ifs
  · exact ⟨_, rfl, hremove⟩
  · exact ⟨_, rfl, fun _ _ => rfl⟩

lemma conclude_in_place (io : ResumeIO P) (keep : ℕ) (store : Store P) (result : WorkerResult)
    (heq : resume.destination = resume.completeDestination) :
    concludeResumeHasError io keep store result resume = ⟨result, store, false⟩ := by
  simp [concludeResumeHasError, heq]

lemma conclude_renamed (keep : ℕ) (hne : resume.destination ≠ resume.completeDestination)
    (h : io.renameTo store resume.partDestination resume.completeDestination = (t, true)) :
    concludeResumeHasError io keep store .pass resume = ⟨.pass, t, true⟩ := by
  simp [concludeResumeHasError, hne, h]

lemma conclude_not_renamed (keep : ℕ) (hne : resume.destination ≠ resume.completeDestination)
    (h : io.renameTo store resume.partDestination resume.completeDestination = (t, false)) :
    concludeResumeHasError io keep store .pass resume =
      ⟨.fail .ERR_CANNOT_RENAME_PARTIAL resume.partDestination.toDisplayString, t, false⟩ := by
  simp [concludeResumeHasError, hne, h]

end conclude

/-- What is at a name and the file that it leads to are still as they were. -/
structure Untouched {P : Type*} (before : Store P) (p : P) (store : Store P) : Prop where
  entry : store p = before p
  content : ∀ data, before.content p = some data → store.content p = some data

variable {P : Type*}

lemma Untouched.refl (store : Store P) (p : P) : Untouched store p store :=
  ⟨rfl, fun _ h => h⟩

lemma Untouched.of_frame {before store : Store P} {part p : P} (hne : p ≠ part)
    (hapart : before.Apart part p)
    (hframe : ∀ x, x ≠ part → before.target part ≠ some x → store x = before x) :
    Untouched before p store := by
  refine ⟨hframe p hne fun ht => hapart p ht (Store.target_self ht), fun data hdata => ?_⟩
  refine Store.content_of_agree hdata fun x hx => ?_
  obtain ⟨r, hr⟩ : ∃ r, before.target p = some r := by
    cases hp : before.target p with
    | none => simp [Store.content, hp] at hdata
    | some r => exact ⟨r, rfl⟩
  refine hframe x ?_ fun ht => ?_
  · rintro rfl
    exact hapart r (hx.trans hr) hr
  · exact hapart x ht (hx.symm.trans (Store.target_self ht))

lemma Untouched.of_writing [DecidableEq P] {before store : Store P} {part p q : P} {h : Handle P}
    (hne : p ≠ part) (hapart : before.Apart part p) (ht : before.target part = some q)
    (hw : Store.Writing before q store h) : Untouched before p store :=
  .of_frame hne hapart fun x _ hx => hw.other x fun heq => hx (heq ▸ ht)

/-- The file at the final name was not replaced. -/
structure Kept {P : Type*} (before : Store P) (p : P) (left : Left P) : Prop where
  installed : left.installed = false
  untouched : Untouched before p left.store

/-- What a kill must not do: an incomplete partial file is not put at the final name, and what
was there before stays. -/
structure Spared {P : Type*} (before : Store P) (p : P) (complete : Prop) (left : Left P) :
    Prop where
  incomplete : left.installed = true → complete
  existing : before p ≠ none → Kept before p left

/-- When a conclusion either stops or puts the partial file at the final name, or at least loses
what was there, nothing but stopping spares it. -/
lemma spared_iff {before : Store P} {p : P} {complete stops : Prop} {left : Left P}
    (h : stops ∧ Kept before p left ∨
      ¬ stops ∧ (left.installed = true ∨ before p ≠ none ∧ left.store p ≠ before p)) :
    Spared before p complete left ↔ stops ∨ before p = none ∧ complete := by
  constructor
  · intro hspared
    rcases h with ⟨hstops, -⟩ | ⟨-, hinst | ⟨hsome, hne⟩⟩
    · exact Or.inl hstops
    · refine Or.inr ⟨?_, hspared.incomplete hinst⟩
      by_contra hsome
      have := (hspared.existing hsome).installed
      simp [hinst] at this
    · exact absurd (hspared.existing hsome).untouched.entry hne
  · rintro (hstops | ⟨hnone, hcomplete⟩)
    · rcases h with ⟨-, hkept⟩ | ⟨hnot, -⟩
      · exact ⟨fun hinst => by simp [hkept.installed] at hinst, fun _ => hkept⟩
      · exact absurd hstops hnot
    · exact ⟨fun _ => hcomplete, fun hsome => absurd hnone hsome⟩

/-- The copy is complete: the destination holds `content`, and with `MarkPartial` there is no
partial file; without it a partial file is left as it was. -/
structure Complete {P : Type*} (MarkPartial : Bool) (before : Store P) (dest part : P)
    (content : List UInt8) (left : Left P) : Prop where
  result : left.result = .pass
  dest : left.store.content dest = some content
  part : left.store.kindAt part = if MarkPartial then none else before.kindAt part

section rename

variable {url newUrl : SMBUrl}

/-- A rename that fails before anything was removed. -/
def QFileCalls.Refuse (calls : QFileCalls) (disk : Store String) (newPath : String) : Prop :=
  (disk newPath = none ∧ calls.rename = false) ∨ (disk newPath ≠ none ∧ calls.removeDest = false)

variable {disk : Store String} {k : Kind String}

/-- On the disk the file at the new name is removed first, so that it is lost also when the
rename fails. -/
lemma QFile_renameTo_spec (calls : QFileCalls) (hpath : url.path ≠ newUrl.path)
    (hpart : disk.kindAt url.path = some k) (hdir : disk.kindAt newUrl.path ≠ some .dir) :
    (calls.Refuse disk newUrl.path ∧
        ( QFileResumeIO calls).renameTo disk url newUrl = (disk, false)) ∨
      (¬ calls.Refuse disk newUrl.path ∧
        ((( QFileResumeIO calls).renameTo disk url newUrl).2 = true ∨ disk newUrl.path ≠ none ∧
          (( QFileResumeIO calls).renameTo disk url newUrl).1 newUrl.path ≠ disk newUrl.path)) := by
  simp only [ QFileResumeIO, QFileCalls.Refuse]
  cases hnew : disk newUrl.path with
  | none =>
    have hsame : removeIf calls.removeDest disk newUrl.path = disk := by
      unfold removeIf
      split_ifs <;> simp [Store.unlink, hnew]
    rw [hsame]
    cases hr : calls.rename with
    | false => simp
    | true =>
      obtain ⟨t, ht, -⟩ := Store.renameNew_of_none hpart (Store.kindAt_eq_none.mpr hnew) hpath
      simp [ht]
  | some n =>
    have hkind : disk.kindAt newUrl.path = some n.kind := by simp [Store.kindAt, hnew]
    have hnd : n.kind.isDir = false := Kind.isDir_eq_false fun h => hdir (h ▸ hkind)
    cases hrm : calls.removeDest with
    | false =>
      have hnone : disk.renameNew url.path newUrl.path = none := Store.renameNew_of_some hkind
      simp [removeIf, hnone]
    | true =>
      have hremoved : removeIf true disk newUrl.path = Function.update disk newUrl.path none := by
        simp [removeIf, Store.unlink_of_kindAt hkind hnd]
      rw [hremoved]
      have hpart' : Store.kindAt (Function.update disk newUrl.path none) url.path = some k := by
        rw [← hpart]
        simp [Store.kindAt, Function.update_of_ne hpath]
      have hfree : Store.kindAt (Function.update disk newUrl.path none) newUrl.path = none := by
        simp [Store.kindAt]
      obtain ⟨t, ht, -⟩ := Store.renameNew_of_none hpart' hfree hpath
      cases hr : calls.rename <;> simp [ht]

lemma QFile_renameTo_moves {calls : QFileCalls} (hpath : url.path ≠ newUrl.path)
    (hpart : disk.kindAt url.path = some k) (hdir : disk.kindAt newUrl.path ≠ some .dir)
    (hremove : calls.removeDest = true) (hrename : calls.rename = true) :
    ∃ t, ( QFileResumeIO calls).renameTo disk url newUrl = (t, true) ∧
      t.kindAt newUrl.path = some k ∧ t.kindAt url.path = none := by
  have hfree : Store.kindAt (removeIf true disk newUrl.path) newUrl.path = none := by
    cases hnew : disk.kindAt newUrl.path with
    | none => simp [removeIf, Store.unlink, Store.kindAt_eq_none.mp hnew, hnew]
    | some n =>
      have hnd : n.isDir = false := Kind.isDir_eq_false fun h => hdir (h ▸ hnew)
      simp [removeIf, Store.unlink_of_kindAt hnew hnd, Store.kindAt]
  have hpart' : Store.kindAt (removeIf true disk newUrl.path) url.path = some k := by
    rw [Store.kindAt_of_eq (removeIf_ne hpath), hpart]
  obtain ⟨t, ht, h1, h2, -⟩ := Store.renameNew_of_none hpart' hfree hpath
  exact ⟨t, by simp [ QFileResumeIO, hremove, hrename, ht], h1, h2⟩

lemma SMB_renameTo_spec (calls : SMBCalls) {share : Store SMBUrl} {k : Kind SMBUrl}
    (hne : url ≠ newUrl) (hpart : share.kindAt url = some k) (hk : k.isDir = false) :
    (((calls.rename = false ∨ share.kindAt newUrl = some .dir) ∧
        ( SMBResumeIO calls).renameTo share url newUrl = (share, false)) ∨
      ((calls.rename = true ∧ share.kindAt newUrl ≠ some .dir) ∧
        ∃ t, ( SMBResumeIO calls).renameTo share url newUrl = (t, true) ∧
          t.kindAt newUrl = some k ∧ t.kindAt url = none)) := by
  simp only [ SMBResumeIO]
  cases hr : calls.rename with
  | false => exact Or.inl ⟨Or.inl rfl, rfl⟩
  | true =>
    rcases Store.rename_spec hne hpart hk with ⟨hd, hnone⟩ | ⟨hd, t, ht, htk⟩
    · exact Or.inl ⟨Or.inr hd, by simp [hnone]⟩
    · refine Or.inr ⟨⟨rfl, hd⟩, t, by simp [ht], htk, ?_⟩
      exact Store.kindAt_eq_none.mpr (Store.rename_moves hne ht)

end rename

end KioExtras.Smb.Resume
