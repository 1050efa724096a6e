import KioExtras.Lib.Run
import KioExtras.Smb.Resume
import KioExtras.Smb.Transfer

/-!
A local file copied to a share: `SMBWorker::smbCopyPut`.

What comes before and after the loop is a function; the loop moves in steps, between any two of
which the kill flag may be raised.
-/

namespace KioExtras.Smb.CopyPut

open KioExtras.Kio KioExtras.Lib.Run KioExtras.Lib.FileStore Resume

/-- `openSource` is `none`, or `some true` when the source cannot be opened for lack of
permissions and `some false` when it cannot be opened otherwise; `stat` belongs to the question
whether to resume, `calls` to the conclusion; `now` is the clock, `modified` the date in the
metadata. -/
structure Env where
  MarkPartial : Bool
  canResume : ℕ → Bool
  openSource : Option Bool
  stat : SMBUrl → Bool
  smbc_open : Option Errno
  fresh : ℕ → Attrs
  smbc_lseek : Bool
  seek : Bool
  smbc_close : Bool
  calls : SMBCalls
  modified : Option ℤ
  now : ℤ
  smbc_utime : Bool
  DEFAULT_MINIMUM_KEEP_SIZE : ℕ

structure Job where
  resume : TransferContext
  ksrc : SMBUrl
  kdst : SMBUrl
  content : List UInt8

/-- Where the loop stands; `write` has the bytes that were read. -/
inductive Pc
  | poll
  | read
  | write (data : List UInt8)
  | close

structure Loop where
  remote : Store SMBUrl
  dstfd : Handle SMBUrl
  position : ℕ
  processed_size : ℕ
  result : WorkerResult
  killed : Bool
  pc : Pc

inductive Phase
  | running (job : Job) (c : Loop)
  | returned (left : Left SMBUrl)

def Phase.left? : Phase → Option (Left SMBUrl)
  | .running _ _ => none
  | .returned left => some left

lemma Phase.left?_eq_some {p : Phase} {left : Left SMBUrl} :
    p.left? = some left ↔ p = .returned left := by
  cases p <;> simp [Phase.left?]

/-- Open the destination: the share, the handle and the bytes that are there. -/
def openDestination (env : Env) (remote : Store SMBUrl) (resume : TransferContext)
    (permissions : ℤ) : Except WorkerResult (Store SMBUrl × Handle SMBUrl × ℕ) :=
  let dstUrl := resume.destination
  let mode := if permissions = -1 then 0o600 else permissions.toNat ||| 0o600
  let opened : Except Errno (Store SMBUrl × SMBUrl) :=
    match env.smbc_open with
    | some errNum => .error errNum
    | none =>
      if resume.resuming then
        match remote.openExisting dstUrl with
        | none => .error .ENOENT
        | some q => .ok (remote, q)
      else
        match remote.openTruncate dstUrl (env.fresh mode) with
        | none => .error (.other 21)
        | some (q, remote) => .ok (remote, q)
  match opened with
  | .error .EACCES => .error (.fail .ERR_WRITE_ACCESS_DENIED dstUrl.toDisplayString)
  | .error _ => .error (.fail .ERR_CANNOT_OPEN_FOR_WRITING dstUrl.toDisplayString)
  | .ok (remote, q) =>
    if resume.resuming then
      -- append if resuming
      if !env.smbc_lseek then .error (.fail .ERR_CANNOT_SEEK dstUrl.toDisplayString)
      else
        let offset := ((remote.kindAt q).map Kind.size).getD 0
        .ok (remote, ⟨q, offset⟩, offset)
    else .ok (remote, ⟨q, 0⟩, 0)

/-- Everything up to the loop. -/
def start (env : Env) (disk : Store String) (remote : Store SMBUrl) (ksrc kdst : SMBUrl)
    (permissions : ℤ) (flags : JobFlags) : Phase :=
  match disk.stat ksrc.path with
  | none => .returned ⟨.fail .ERR_DOES_NOT_EXIST ksrc.toDisplayString, remote, false⟩
  | some srcInfo =>
    if srcInfo.kind.isDir then
      .returned ⟨.fail .ERR_IS_DIRECTORY ksrc.toDisplayString, remote, false⟩
    else match env.openSource with
    | some true => .returned ⟨.fail .ERR_WRITE_ACCESS_DENIED ksrc.toDisplayString, remote, false⟩
    | some false =>
      .returned ⟨.fail .ERR_CANNOT_OPEN_FOR_READING ksrc.toDisplayString, remote, false⟩
    | none =>
      match shouldResume ( SMBResumeIO { env.calls with stat := env.stat }) env.MarkPartial
        env.canResume remote kdst flags with
      | .error result => .returned ⟨result, remote, false⟩
      | .ok resume =>
        match openDestination env remote resume permissions with
        | .error result => .returned ⟨result, remote, false⟩
        | .ok (remote, dstfd, processed_size) =>
          let job : Job := ⟨resume, ksrc, kdst, srcInfo.kind.data.getD []⟩
          if processed_size = 0 ∨ env.seek then
            .running job ⟨remote, dstfd, processed_size, processed_size, .pass, false, .poll⟩
          else
            .running job ⟨remote, dstfd, 0, processed_size,
              .fail .ERR_CANNOT_SEEK ksrc.toDisplayString, false, .close⟩

def applyMTimeSMBC (env : Env) (remote : Store SMBUrl) (url : SMBUrl) : Store SMBUrl :=
  match env.modified with
  | none => remote
  | some modtime =>
    if env.smbc_utime then (remote.utimes url env.now modtime).getD remote else remote

def finish (env : Env) (job : Job) (c : Loop) : Left SMBUrl :=
  if !env.smbc_close then
    ⟨.fail .ERR_CANNOT_WRITE job.resume.destination.toDisplayString, c.remote, false⟩
  else
    let left := concludeResumeHasError ( SMBResumeIO env.calls) env.DEFAULT_MINIMUM_KEEP_SIZE
      c.remote c.result job.resume
    if !left.result.success then left
    else { left with store := applyMTimeSMBC env left.store job.kdst }

/-- What happens next. A read returns at most `n + 1` bytes or fails, a write writes at most `n`
bytes or fails. -/
inductive Label
  | kill
  | poll
  | read (n : Option ℕ)
  | write (n : Option ℕ)
  | conclude
  deriving DecidableEq

/-- The bytes that the next read may return at most. -/
def bufSize (job : Job) : ℕ := (Transfer.segmentSizeForFileSize job.content.length).toNat

def poll (c : Loop) : Option Loop :=
  match c.pc with
  | .poll => some { c with pc := if c.killed then .close else .read }
  | _ => none

def read (job : Job) (n : Option ℕ) (c : Loop) : Option Loop :=
  match c.pc with
  | .read =>
    match n with
    | none => some { c with
        result := .fail .ERR_CANNOT_READ job.ksrc.toDisplayString
        pc := .close }
    | some n =>
      match (job.content.drop c.position).take (min (n + 1) (bufSize job)) with
      | [] => some { c with pc := .close }
      | data => some { c with position := c.position + data.length, pc := .write data }
  | _ => none

def write (job : Job) (n : Option ℕ) (c : Loop) : Option Loop :=
  match c.pc with
  | .write data =>
    match n with
    | none => some { c with
        result := .fail .ERR_CANNOT_WRITE job.kdst.toDisplayString
        pc := .close }
    | some n =>
      let bytes := data.take n
      let (remote, dstfd) := c.remote.write c.dstfd bytes
      some { c with
        remote := remote
        dstfd := dstfd
        processed_size := c.processed_size + bytes.length
        pc := .poll }
  | _ => none

def step (env : Env) : Phase → Label → Option Phase
  | .returned _, _ => none
  | .running job c, .kill =>
    if c.killed then none else some (.running job { c with killed := true })
  | .running job c, .poll => (poll c).map (.running job)
  | .running job c, .read n => (read job n c).map (.running job)
  | .running job c, .write n => (write job n c).map (.running job)
  | .running job c, .conclude =>
    match c.pc with
    | .close => some (.returned (finish env job c))
    | _ => none

/-! ### What a step does -/

section steps

variable {env : Env} {job job' : Job} {c c' : Loop} {l : Label} {left : Left SMBUrl}

lemma bufSize_pos (job : Job) : 0 < bufSize job := by
  have := Transfer.segmentSize_pos job.content.length
  unfold bufSize
  omega

lemma read_some (job : Job) (n : ℕ) (c : Loop) (hpc : c.pc = .read) :
    (job.content.drop c.position = [] ∧ read job (some n) c = some { c with pc := .close }) ∨
      ∃ data, data ≠ [] ∧ data <+: job.content.drop c.position ∧
        read job (some n) c =
          some { c with position := c.position + data.length, pc := .write data } := by
  have hpos : min (n + 1) (bufSize job) ≠ 0 := by
    have := bufSize_pos job
    omega
  simp only [read, hpc]
  cases hd : (job.content.drop c.position).take (min (n + 1) (bufSize job)) with
  | nil =>
    refine Or.inl ⟨?_, rfl⟩
    rw [List.take_eq_nil_iff] at hd
    exact hd.resolve_left hpos
  | cons b data => exact Or.inr ⟨b :: data, by simp, hd ▸ List.take_prefix _ _, rfl⟩

inductive Effect (job : Job) (c : Loop) : Label → Loop → Prop
  | kill (hk : c.killed = false) : Effect job c .kill { c with killed := true }
  | poll (hpc : c.pc = .poll) :
    Effect job c .poll { c with pc := if c.killed then .close else .read }
  | unread (hpc : c.pc = .read) : Effect job c (.read none)
      { c with result := .fail .ERR_CANNOT_READ job.ksrc.toDisplayString, pc := .close }
  | end_ (n : ℕ) (hpc : c.pc = .read) (hnil : job.content.drop c.position = []) :
    Effect job c (.read (some n)) { c with pc := .close }
  | read (n : ℕ) (data : List UInt8) (hpc : c.pc = .read) (hne : data ≠ [])
      (hnext : data <+: job.content.drop c.position) :
    Effect job c (.read (some n))
      { c with position := c.position + data.length, pc := .write data }
  | unwritten (data : List UInt8) (hpc : c.pc = .write data) : Effect job c (.write none)
      { c with result := .fail .ERR_CANNOT_WRITE job.kdst.toDisplayString, pc := .close }
  | write (n : ℕ) (data : List UInt8) (hpc : c.pc = .write data) :
    Effect job c (.write (some n)) { c with
      remote := (c.remote.write c.dstfd (data.take n)).1
      dstfd := (c.remote.write c.dstfd (data.take n)).2
      processed_size := c.processed_size + (data.take n).length
      pc := .poll }

variable {n : Option ℕ}

lemma effect_read (h : read job n c = some c') : Effect job c (.read n) c' := by
  cases hpc : c.pc with
  | read =>
    cases n with
    | none =>
      simp only [read, hpc, Option.some.injEq] at h
      exact h ▸ .unread hpc
    | some n =>
      rcases read_some job n c hpc with ⟨hnil, heq⟩ | ⟨data, hne, hnext, heq⟩
      · obtain rfl := Option.some.inj (heq.symm.trans h)
        exact .end_ n hpc hnil
      · obtain rfl := Option.some.inj (heq.symm.trans h)
        exact .read n data hpc hne hnext
  | _ => simp [read, hpc] at h

lemma effect_write (h : write job n c = some c') : Effect job c (.write n) c' := by
  cases hpc : c.pc with
  | write data =>
    cases n with
    | none =>
      simp only [write, hpc, Option.some.injEq] at h
      exact h ▸ .unwritten data hpc
    | some n =>
      simp only [write, hpc, Option.some.injEq] at h
      exact h ▸ .write n data hpc
  | _ => simp [write, hpc] at h

lemma step_running (h : step env (.running job c) l = some (.running job' c')) :
    job' = job ∧ Effect job c l c' := by
  have hmoved : ∀ {moved : Option Loop},
      moved.map (Phase.running job) = some (.running job' c') → job' = job ∧ moved = some c' := by
    intro moved hmap
    obtain ⟨c1, rfl, hinj⟩ := Option.map_eq_some_iff.mp hmap
    obtain ⟨rfl, rfl⟩ := Phase.running.inj hinj
    exact ⟨rfl, rfl⟩
  cases l with
  | kill =>
    simp only [step] at h
    split_ifs at h with hk
    obtain ⟨rfl, rfl⟩ := Phase.running.inj (Option.some.inj h)
    exact ⟨rfl, .kill (by simpa using hk)⟩
  | poll =>
    obtain ⟨rfl, hpoll⟩ := hmoved h
    cases hpc : c.pc with
    | poll =>
      simp only [poll, hpc, Option.some.injEq] at hpoll
      exact ⟨rfl, hpoll ▸ .poll hpc⟩
    | _ => simp [poll, hpc] at hpoll
  | read n => exact ⟨(hmoved h).1, effect_read (hmoved h).2⟩
  | write n => exact ⟨(hmoved h).1, effect_write (hmoved h).2⟩
  | conclude =>
    simp only [step] at h
    split at h <;> simp at h

lemma step_returned (h : step env (.running job c) l = some (.returned left)) :
    l = .conclude ∧ c.pc = .close ∧ left = finish env job c := by
  cases l with
  | kill => simp [step] at h
  | poll => simp [step] at h
  | read n => simp [step] at h
  | write n => simp [step] at h
  | conclude =>
    simp only [step] at h
    split at h
    · rename_i hpc
      simp only [Option.some.injEq, Phase.returned.injEq] at h
      exact ⟨rfl, hpc, h.symm⟩
    · simp at h

end steps

/-! ### Every run ends -/

section ends

/-- A bound on the steps that are left. -/
def rest : Phase → ℕ
  | .returned _ => 0
  | .running job c =>
    let unread := job.content.length - c.position
    (if c.killed then 0 else 1) + match c.pc with
      | .poll => 3 * unread + 4
      | .read => 3 * unread + 3
      | .write _ => 3 * unread + 5
      | .close => 1

variable {env : Env} {p p' : Phase} {l : Label}

lemma rest_lt (h : step env p l = some p') : rest p' < rest p := by
  cases p with
  | returned left => simp [step] at h
  | running job c =>
    cases p' with
    | returned left =>
      obtain ⟨-, hpc, -⟩ := step_returned h
      simp [rest, hpc]
    | running job' c' =>
      obtain ⟨rfl, heffect⟩ := step_running h
      cases heffect with
      | kill hk => simp [rest, hk]
      | poll hpc => cases hk : c.killed <;> simp [rest, hpc, hk]
      | unread hpc | end_ _ hpc | unwritten _ hpc | write _ _ hpc => simp [rest, hpc]
      | read n data hpc hne hnext =>
        have hlen := hnext.length_le
        have hpos := List.length_pos_of_ne_nil hne
        rw [List.length_drop] at hlen
        simp only [rest, hpc]
        omega

lemma run_length {ls : List Label} (h : run (step env) p ls = some p') : ls.length ≤ rest p := by
  have hle := run_length_le (I := fun _ => True) rest (fun _ : Label => 0)
    (fun s l t _ hst => ⟨trivial, by simpa using rest_lt hst⟩) trivial h
  simp only [List.map_const', List.sum_replicate_nat, Nat.mul_zero] at hle
  omega

end ends

/-! ### What the loop leaves alone -/

section frame

variable {env : Env} {disk : Store String} {remote : Store SMBUrl} {ksrc kdst : SMBUrl}
  {permissions : ℤ} {flags : JobFlags} {job job' : Job} {c c' : Loop} {l : Label}
  {left : Left SMBUrl}

lemma step_remote (h : step env (.running job c) l = some (.running job' c')) :
    (c'.remote = c.remote ∧ c'.dstfd = c.dstfd) ∨
      ∃ bytes, c'.remote = (c.remote.write c.dstfd bytes).1 ∧
        c'.dstfd = (c.remote.write c.dstfd bytes).2 := by
  obtain ⟨-, heffect⟩ := step_running h
  cases heffect with
  | write n data hpc => exact Or.inr ⟨_, rfl, rfl⟩
  | _ => exact Or.inl ⟨rfl, rfl⟩

lemma step_writing {q : SMBUrl} (hw : Store.Writing remote q c.remote c.dstfd)
    (h : step env (.running job c) l = some (.running job' c')) :
    Store.Writing remote q c'.remote c'.dstfd := by
  rcases step_remote h with ⟨h1, h2⟩ | ⟨bytes, h1, h2⟩
  · rw [h1, h2]
    exact hw
  · rw [h1, h2]
    exact hw.write bytes

lemma step_result (h : step env (.running job c) l = some (.running job' c')) :
    c'.result.success = (c.result.success && decide (l ≠ .read none ∧ l ≠ .write none)) := by
  obtain ⟨-, heffect⟩ := step_running h
  cases heffect with
  | _ => simp

lemma openDestination_frame {resume : TransferContext} {t : Store SMBUrl} {fd : Handle SMBUrl}
    {n : ℕ} (h : openDestination env remote resume permissions = .ok (t, fd, n)) :
    ∃ q, remote.target resume.destination = some q ∧ Store.Writing remote q t fd ∧
      n = if resume.resuming then
        ((remote.stat resume.destination).map fun m => m.kind.size).getD 0 else 0 := by
  unfold openDestination at h
  simp only at h
  cases ho : env.smbc_open with
  | some errNum => cases errNum <;> simp [ho] at h
  | none =>
    cases hr : resume.resuming with
    | true =>
      cases hq : remote.openExisting resume.destination with
      | none => simp [ho, hr, hq] at h
      | some q =>
        obtain ⟨hqt, hk⟩ := Store.openExisting_eq_some.mp hq
        simp only [ho, hr, hq, if_true] at h
        split_ifs at h
        simp only [Except.ok.injEq, Prod.mk.injEq] at h
        obtain ⟨rfl, rfl, rfl⟩ := h
        refine ⟨q, hqt, ⟨rfl, hk, fun _ _ => rfl⟩, ?_⟩
        simp [Store.stat, hqt, Store.kindAt, Function.comp_def]
    | false =>
      simp only [ho, hr, Bool.false_eq_true, if_false] at h
      split at h
      · simp at h
      · simp at h
      · rename_i q hq
        split at hq
        · simp at hq
        · rename_i q' t' hopen
          simp only [Except.ok.injEq, Prod.mk.injEq] at hq h
          obtain ⟨rfl, rfl⟩ := hq
          obtain ⟨rfl, rfl, rfl⟩ := h
          obtain ⟨hqt, -, hk, hframe⟩ := Store.openTruncate_some hopen
          exact ⟨q', hqt, ⟨rfl, hk, hframe⟩, rfl⟩

lemma start_returned (h : start env disk remote ksrc kdst permissions flags = .returned left) :
    left.store = remote ∧ left.installed = false := by
  unfold start at h
  split at h
  · simp only [Phase.returned.injEq] at h
    exact h ▸ ⟨rfl, rfl⟩
  · split_ifs at h
    · simp only [Phase.returned.injEq] at h
      exact h ▸ ⟨rfl, rfl⟩
    · split at h
      · simp only [Phase.returned.injEq] at h
        exact h ▸ ⟨rfl, rfl⟩
      · simp only [Phase.returned.injEq] at h
        exact h ▸ ⟨rfl, rfl⟩
      · split at h
        · simp only [Phase.returned.injEq] at h
          exact h ▸ ⟨rfl, rfl⟩
        · split at h
          · simp only [Phase.returned.injEq] at h
            exact h ▸ ⟨rfl, rfl⟩
          · split_ifs at h

structure Started (env : Env) (disk : Store String) (remote : Store SMBUrl) (ksrc kdst : SMBUrl)
    (permissions : ℤ) (flags : JobFlags) (job : Job) (c : Loop) : Prop where
  resume : shouldResume ( SMBResumeIO { env.calls with stat := env.stat }) env.MarkPartial
    env.canResume remote kdst flags = .ok job.resume
  opened : openDestination env remote job.resume permissions =
    .ok (c.remote, c.dstfd, c.processed_size)
  kdst : job.kdst = kdst
  killed : c.killed = false
  sought : (c.processed_size = 0 ∨ env.seek = true) ∧ c.result = .pass ∧ c.pc = .poll ∧
      c.position = c.processed_size ∨
    ¬ (c.processed_size = 0 ∨ env.seek = true) ∧ c.result.success = false

lemma start_running (h : start env disk remote ksrc kdst permissions flags = .running job c) :
    Started env disk remote ksrc kdst permissions flags job c := by
  unfold start at h
  split at h
  · simp at h
  · split_ifs at h
    split at h
    · simp at h
    · simp at h
    · split at h
      · simp at h
      · rename_i resume hresume
        split at h
        · simp at h
        · rename_i t fd n hopen
          simp only at h
          split_ifs at h with hseek
          · simp only [Phase.running.injEq] at h
            obtain ⟨rfl, rfl⟩ := h
            exact ⟨hresume, hopen, rfl, rfl, Or.inl ⟨hseek, rfl, rfl, rfl⟩⟩
          · simp only [Phase.running.injEq] at h
            obtain ⟨rfl, rfl⟩ := h
            exact ⟨hresume, hopen, rfl, rfl, Or.inr ⟨hseek, rfl⟩⟩

end frame

/-! ### The destination after a run -/

section kept

variable {env : Env} {disk : Store String} {remote : Store SMBUrl} {ksrc kdst : SMBUrl}
  {permissions : ℤ} {flags : JobFlags} {job : Job} {c : Loop} {left : Left SMBUrl}

variable {q : SMBUrl} {ls : List Label} {p : Phase} {c' : Loop}

/-- With a partial file the conclusion leaves the final name alone when an error was met before
it, when the close fails, or when the rename does; otherwise it puts the partial file there. -/
lemma finish_spec (hname : kdst.namesFile = true) (hM : env.MarkPartial = true)
    {io : ResumeIO SMBUrl} (hfresh : Fresh io env.MarkPartial env.canResume remote kdst job.resume)
    (hapart : remote.Apart kdst.partUrl kdst) (htarget : remote.target kdst.partUrl = some q)
    (hframe : Store.Writing remote q c.remote c.dstfd) :
    ((env.smbc_close = false ∨ c.result.success = false ∨ env.calls.rename = false ∨
        remote.kindAt kdst = some .dir) ∧ Kept remote kdst (finish env job c)) ∨
      (¬ (env.smbc_close = false ∨ c.result.success = false ∨ env.calls.rename = false ∨
        remote.kindAt kdst = some .dir) ∧ (finish env job c).installed = true) := by
  obtain ⟨hdest, hpart⟩ := hfresh.marked hM
  have hne : kdst.partUrl ≠ kdst := SMBUrl.partUrl_ne hname
  have hne' : job.resume.destination ≠ job.resume.completeDestination := by
    rw [hdest, hfresh.complete]
    exact hne
  have hsame : Untouched remote kdst c.remote := .of_writing hne.symm hapart htarget hframe
  have hkind : c.remote.kindAt kdst = remote.kindAt kdst := Store.kindAt_of_eq hsame.entry
  unfold finish
  cases hclose : env.smbc_close with
  | false => exact Or.inl ⟨Or.inl rfl, rfl, hsame⟩
  | true =>
    simp only [Bool.not_true, Bool.false_eq_true, if_false]
    cases hresult : c.result with
    | fail error text =>
      obtain ⟨t, heq, ht⟩ := conclude_failed ( SMBResumeIO env.calls) kdst.partUrl
        env.DEFAULT_MINIMUM_KEEP_SIZE hne'
        (WorkerResult.success_fail error text) fun p hp => removeIf_ne (by rw [hdest]; exact hp)
      rw [heq]
      refine Or.inl ⟨Or.inr (Or.inl rfl), rfl, ?_⟩
      exact .of_frame hne.symm hapart fun x hx hxt =>
        (ht x hx).trans (hframe.other x fun h => hxt (h ▸ htarget))
    | pass =>
      obtain ⟨k, hk, hdir⟩ := hframe.entry_of_target htarget
      rcases SMB_renameTo_spec env.calls hne hk hdir with
        ⟨hcond, heq⟩ | ⟨⟨hr, hnd⟩, t, heq, -, -⟩
      · rw [conclude_not_renamed env.DEFAULT_MINIMUM_KEEP_SIZE hne'
          (by rw [hpart, hfresh.complete]; exact heq)]
        rw [hkind] at hcond
        exact Or.inl ⟨Or.inr (Or.inr hcond), rfl, hsame⟩
      · rw [conclude_renamed env.DEFAULT_MINIMUM_KEEP_SIZE hne'
          (by rw [hpart, hfresh.complete]; exact heq)]
        rw [hkind] at hnd
        exact Or.inr ⟨by simp [hr, hnd], rfl⟩

lemma run_returned (h : run (step env) (.returned left) ls = some p) : p = .returned left := by
  cases ls with
  | nil => simpa using h.symm
  | cons l ls => simp [step] at h

def Calm (ls : List Label) : Prop := .read none ∉ ls ∧ .write none ∉ ls

/-- **A run of the loop**: it stays in the loop or ends with what `finish` makes of it, and an
error comes from a read or a write that fails. -/
lemma run_spec (hf : Store.Writing remote q c.remote c.dstfd)
    (h : run (step env) (.running job c) ls = some p) :
    ∃ c', (p = .running job c' ∨ p = .returned (finish env job c')) ∧
      Store.Writing remote q c'.remote c'.dstfd ∧
      (c'.result.success = true ↔ c.result.success = true ∧ Calm ls) := by
  induction ls generalizing c with
  | nil =>
    simp only [run_nil, Option.some.injEq] at h
    exact ⟨c, Or.inl h.symm, hf, by simp [Calm]⟩
  | cons l ls ih =>
    obtain ⟨p', hstep, hrest⟩ := run_cons_some (step env) h
    cases p' with
    | returned left =>
      obtain ⟨rfl, -, rfl⟩ := step_returned hstep
      obtain rfl := run_returned hrest
      have hnil : ls = [] := by
        cases ls with
        | nil => rfl
        | cons l ls => simp [step] at hrest
      subst hnil
      exact ⟨c, Or.inr rfl, hf, by simp [Calm]⟩
    | running job' c1 =>
      obtain ⟨rfl, -⟩ := step_running hstep
      obtain ⟨c', hp, hf', hresult⟩ := ih (step_writing hf hstep) hrest
      refine ⟨c', hp, hf', ?_⟩
      rw [hresult, step_result hstep]
      simp only [Bool.and_eq_true, decide_eq_true_eq, Calm, List.mem_cons, not_or, ne_eq,
        eq_comm (a := l)]
      grind

/-- The source cannot be put where the partial file ends. -/
def SeekFails (env : Env) (remote : Store SMBUrl) (kdst : SMBUrl) : Prop :=
  let io := SMBResumeIO { env.calls with stat := env.stat }
  env.seek = false ∧ io.exists_ remote kdst.partUrl = true ∧
    env.canResume (io.size remote kdst.partUrl) = true ∧ io.size remote kdst.partUrl ≠ 0

lemma size_eq {calls : SMBCalls} {share : Store SMBUrl} {url : SMBUrl}
    (h : ( SMBResumeIO calls).exists_ share url = true) :
    ( SMBResumeIO calls).size share url = ((share.stat url).map fun n => n.kind.size).getD 0 := by
  simp only [ SMBResumeIO, Bool.and_eq_true] at h
  simp [ SMBResumeIO, h.1]

/-- With a partial file the loop begins over it, without an error unless the source cannot be put
where it ends. -/
lemma Started.marked (hM : env.MarkPartial = true) (hR : flags.Resume = false)
    (h : Started env disk remote ksrc kdst permissions flags job c) :
    (∃ q, remote.target kdst.partUrl = some q ∧ Store.Writing remote q c.remote c.dstfd) ∧
      (c.result.success = true ↔ ¬ SeekFails env remote kdst) := by
  have hfresh := shouldResume_fresh hR h.resume
  obtain ⟨hdest, -⟩ := hfresh.marked hM
  obtain ⟨q, htarget, hwriting, hsize⟩ := openDestination_frame h.opened
  rw [hdest] at htarget hsize
  refine ⟨⟨q, htarget, hwriting⟩, ?_⟩
  have hseek : (c.processed_size = 0 ∨ env.seek = true) ↔ ¬ SeekFails env remote kdst := by
    unfold SeekFails
    cases hr : job.resume.resuming with
    | true =>
      obtain ⟨-, hexists, hcan, -⟩ := hfresh.resuming hr
      rw [hr, if_pos rfl, ← size_eq hexists] at hsize
      rw [hsize]
      simp only [hexists, hcan, true_and, not_and, not_not, Bool.eq_false_iff, ne_eq]
      grind
    | false =>
      rw [hr] at hsize
      simp only [Bool.false_eq_true, if_false] at hsize
      refine iff_of_true (Or.inl hsize) fun hc => ?_
      have := hfresh.anew hr hM hc.2.1
      simp [hc.2.2.1] at this
  rcases h.sought with ⟨hs, hpass, -⟩ | ⟨hs, hfail⟩
  · exact iff_of_true (by simp [hpass]) (hseek.mp hs)
  · exact iff_of_false (by simp [hfail]) (fun hc => hs (hseek.mpr hc))

/-- What saves the final name from the partial file: an error before the conclusion, or a rename
that fails. -/
def Stops (env : Env) (remote : Store SMBUrl) (kdst : SMBUrl) (ls : List Label) : Prop :=
  SeekFails env remote kdst ∨ ¬ Calm ls ∨ env.smbc_close = false ∨ env.calls.rename = false ∨
    remote.kindAt kdst = some .dir

/-- A run from `first` with a kill before all bytes of the source are written: `c` is the loop at
the kill, `c'` some time after it. -/
structure KilledRun (env : Env) (first : Phase) (before after : List Label) (job : Job)
    (c c' : Loop) : Prop where
  before : run (step env) first before = some (.running job c)
  unwritten : c.processed_size < job.content.length
  after : run (step env) (.running job c) (.kill :: after) = some (.running job c')

lemma KilledRun.whole {first : Phase} {before after : List Label}
    (h : KilledRun env first before after job c c') :
    run (step env) first (before ++ .kill :: after) = some (.running job c') := by
  rw [run_append, h.before, Option.bind_some, h.after]

/-- **The final name after a run with a kill**: it is left alone in the loop, and the conclusion
spares it exactly when something stops the partial file from being renamed, or when all bytes were
written after all and nothing was there before. -/
theorem killed_spared_iff (hname : kdst.namesFile = true) (hM : env.MarkPartial = true)
    (hR : flags.Resume = false) (hapart : remote.Apart kdst.partUrl kdst)
    {before after : List Label}
    (h : KilledRun env (start env disk remote ksrc kdst permissions flags) before after job c c') :
    Untouched remote kdst c'.remote ∧
      ∀ left, step env (.running job c') .conclude = some (.returned left) →
        (Spared remote kdst (job.content.length ≤ c'.processed_size) left ↔
          Stops env remote kdst (before ++ .kill :: after) ∨
            remote kdst = none ∧ job.content.length ≤ c'.processed_size) := by
  have hwhole := h.whole
  cases hstart : start env disk remote ksrc kdst permissions flags with
  | returned left =>
    rw [hstart] at hwhole
    cases run_returned hwhole
  | running job0 c0 =>
    rw [hstart] at hwhole
    have hstarted := start_running hstart
    obtain ⟨⟨q, htarget, hwriting⟩, hsuccess⟩ := hstarted.marked hM hR
    have hfresh := shouldResume_fresh hR hstarted.resume
    obtain ⟨c1, hp, hwriting', hresult⟩ := run_spec hwriting hwhole
    obtain ⟨rfl, rfl⟩ : job = job0 ∧ c' = c1 := by
      rcases hp with hp | hp
      · simpa using hp
      · cases hp
    refine ⟨.of_writing (SMBUrl.partUrl_ne hname).symm hapart htarget hwriting', fun left hl => ?_⟩
    obtain ⟨-, -, rfl⟩ := step_returned hl
    have hstops : (env.smbc_close = false ∨ c'.result.success = false ∨
        env.calls.rename = false ∨ remote.kindAt kdst = some .dir) ↔
          Stops env remote kdst (before ++ .kill :: after) := by
      rw [← Bool.not_eq_true c'.result.success, hresult, hsuccess]
      unfold Stops
      grind
    refine spared_iff ?_
    rw [← hstops]
    exact (finish_spec hname hM hfresh hapart htarget hwriting').imp_right
      fun ⟨h1, h2⟩ => ⟨h1, Or.inl h2⟩

end kept

/-! ### Runs in which nothing fails -/

section complete

variable {env : Env} {disk : Store String} {remote : Store SMBUrl} {ksrc kdst : SMBUrl}
  {permissions : ℤ} {flags : JobFlags} {job job' : Job} {c c' : Loop} {l : Label}
  {left : Left SMBUrl}

structure Succeeds (env : Env) : Prop where
  openSource : env.openSource = none
  stat : ∀ url, env.stat url = true
  smbc_open : env.smbc_open = none
  smbc_lseek : env.smbc_lseek = true
  seek : env.seek = true
  smbc_close : env.smbc_close = true
  rename : env.calls.rename = true

/-- The bytes that were read and are not yet written. -/
def Pc.unwritten : Pc → List UInt8
  | .write data => data
  | _ => []

/-- A step that is no kill and no failure; a write writes all its bytes. -/
def Quiet : Phase → Label → Prop
  | _, .kill | _, .read none | _, .write none => False
  | .running _ c, .write (some n) => c.pc.unwritten.length ≤ n
  | _, _ => True

instance : ∀ p l, Decidable (Quiet p l)
  | .running _ _, .kill | .returned _, .kill => .isFalse id
  | .running _ _, .read none | .returned _, .read none => .isFalse id
  | .running _ _, .write none | .returned _, .write none => .isFalse id
  | .running _ c, .write (some n) => inferInstanceAs (Decidable (c.pc.unwritten.length ≤ n))
  | .returned _, .write (some _) => .isTrue trivial
  | .running _ _, .read (some _) | .returned _, .read (some _) => .isTrue trivial
  | .running _ _, .poll | .returned _, .poll => .isTrue trivial
  | .running _ _, .conclude | .returned _, .conclude => .isTrue trivial

/-- What holds as long as nothing fails: what is in the file and what is to be written are the
source up to its position. -/
structure Good (remote : Store SMBUrl) (q : SMBUrl) (job : Job) (c : Loop) : Prop where
  result : c.result = .pass
  killed : c.killed = false
  named : c.dstfd.path = q
  other : ∀ p, p ≠ q → c.remote p = remote p
  stored : ∃ data, c.remote.AtEnd c.dstfd data ∧
    data ++ c.pc.unwritten = job.content.take c.position
  closed : c.pc = .close → job.content.length ≤ c.position

lemma Good.step {q : SMBUrl} (h : Good remote q job c) (hq : Quiet (.running job c) l)
    (hs : step env (.running job c) l = some (.running job' c')) : Good remote q job c' := by
  obtain ⟨data, hend, hdata⟩ := h.stored
  obtain ⟨-, heffect⟩ := step_running hs
  cases heffect with
  | kill _ => cases hq
  | poll hpc =>
    refine ⟨h.result, h.killed, h.named, h.other, ?_, by simp [h.killed]⟩
    simpa [hpc, h.killed, Pc.unwritten] using h.stored
  | unread _ => cases hq
  | end_ n hpc hnil =>
    simp only [hpc, Pc.unwritten, List.append_nil] at hdata
    refine ⟨h.result, h.killed, h.named, h.other, ⟨data, hend, by simpa [Pc.unwritten]⟩, ?_⟩
    exact fun _ => List.drop_eq_nil_iff.mp hnil
  | read n bytes hpc _ hnext =>
    simp only [hpc, Pc.unwritten, List.append_nil] at hdata
    refine ⟨h.result, h.killed, h.named, h.other, ⟨data, hend, ?_⟩, by simp⟩
    rw [hdata, List.take_add, ← List.prefix_iff_eq_take.mp hnext]
    rfl
  | unwritten _ _ => cases hq
  | write n bytes hpc =>
    have hn : c.pc.unwritten.length ≤ n := hq
    simp only [hpc, Pc.unwritten] at hdata hn
    rw [List.take_of_length_le hn]
    refine ⟨h.result, h.killed, h.named, fun p hp => ?_, ⟨data ++ bytes, hend.write bytes, ?_⟩,
      by simp⟩
    · exact (Store.write_ne (h.named ▸ hp) bytes).trans (h.other p hp)
    · simpa [Pc.unwritten] using hdata

lemma quiet_step (env : Env) (job : Job) (c : Loop) :
    ∃ l, Quiet (.running job c) l ∧ (step env (.running job c) l).isSome = true := by
  cases hpc : c.pc with
  | poll => exact ⟨.poll, trivial, by simp [step, poll, hpc]⟩
  | read =>
    refine ⟨.read (some 0), trivial, ?_⟩
    rcases read_some job 0 c hpc with ⟨-, heq⟩ | ⟨bytes, -, -, heq⟩
    · simp [step, heq]
    · simp [step, heq]
  | write bytes =>
    refine ⟨.write (some bytes.length), ?_, by simp [step, write, hpc]⟩
    simp [Quiet, hpc, Pc.unwritten]
  | close => exact ⟨.conclude, trivial, by simp [step, hpc]⟩

/-- What the caller provides: the source, a destination that is absent or a file that may be
replaced, and a partial file with the start of the source, if any. -/
structure Ready (disk : Store String) (remote : Store SMBUrl) (ksrc kdst : SMBUrl)
    (flags : JobFlags) (content : List UInt8) : Prop where
  name : kdst.namesFile = true
  Resume : flags.Resume = false
  source : disk.content ksrc.path = some content
  dest : remote.kindAt kdst = none ∨
    (∃ data, remote.kindAt kdst = some (.file data)) ∧ flags.Overwrite = true
  part : remote.kindAt kdst.partUrl = none ∨
    ∃ pre, remote.kindAt kdst.partUrl = some (.file pre) ∧ pre <+: content

variable {resume : TransferContext} {p : Phase}

lemma openDestination_good (hs : Succeeds env) (permissions : ℤ) {content : List UInt8}
    (hresumed : resume.resuming = true →
      ∃ pre, remote.kindAt resume.destination = some (.file pre) ∧ pre <+: content)
    (hnew : remote.kindAt resume.destination = none ∨
      ∃ data, remote.kindAt resume.destination = some (.file data)) :
    ∃ t fd n, openDestination env remote resume permissions = .ok (t, fd, n) ∧
      fd.path = resume.destination ∧ (∀ p, p ≠ resume.destination → t p = remote p) ∧
      t.AtEnd fd (content.take n) := by
  have hlink : remote.linkAt resume.destination = none := by
    rcases hnew with h | ⟨data, h⟩
    · exact Store.linkAt_none h
    · exact Store.linkAt_file h
  have htarget := Store.target_of_linkAt hlink
  cases hr : resume.resuming with
  | true =>
    obtain ⟨pre, hpre, hprefix⟩ := hresumed hr
    refine ⟨remote, ⟨resume.destination, pre.length⟩, pre.length, ?_, rfl, fun _ _ => rfl, ?_⟩
    · simp [openDestination, hs.smbc_open, hs.smbc_lseek, hr,
        Store.openExisting_of_file htarget hpre, hpre, Kind.size]
    · rw [← List.prefix_iff_eq_take.mp hprefix]
      exact ⟨hpre, rfl⟩
  | false =>
    obtain ⟨t, hopen, hend, hframe⟩ := Store.openTruncate_atEnd
      (env.fresh (if permissions = -1 then 0o600 else permissions.toNat ||| 0o600)) htarget hnew
    refine ⟨t, ⟨resume.destination, 0⟩, 0, ?_, rfl, hframe, by simpa using hend⟩
    simp [openDestination, hs.smbc_open, hr, hopen]

lemma Ready.fresh_kind {content : List UInt8} (h : Ready disk remote ksrc kdst flags content)
    {calls : SMBCalls}
    (hfresh : Fresh ( SMBResumeIO calls) env.MarkPartial env.canResume remote kdst resume) :
    (resume.resuming = true →
      ∃ pre, remote.kindAt resume.destination = some (.file pre) ∧ pre <+: content) ∧
      (remote.kindAt resume.destination = none ∨
        ∃ data, remote.kindAt resume.destination = some (.file data)) := by
  constructor
  · intro hr
    obtain ⟨hM, hexists, -⟩ := hfresh.resuming hr
    rw [(hfresh.marked hM).1]
    rcases h.part with hnone | hpre
    · have hstat := Store.stat_of_linkAt (Store.linkAt_none hnone)
      simp [ SMBResumeIO, hstat, Store.kindAt_eq_none.mp hnone] at hexists
    · exact hpre
  · cases hM : env.MarkPartial with
    | true =>
      rw [(hfresh.marked hM).1]
      exact h.part.imp_right fun hpart => hpart.imp fun _ hpre => hpre.1
    | false =>
      rw [(hfresh.unmarked hM).1]
      exact h.dest.imp_right And.left

lemma start_good (hs : Succeeds env) {content : List UInt8}
    (h : Ready disk remote ksrc kdst flags content) (permissions : ℤ) :
    ∃ job c, start env disk remote ksrc kdst permissions flags = .running job c ∧
      job.content = content ∧ job.kdst = kdst ∧
      Fresh ( SMBResumeIO { env.calls with stat := env.stat }) env.MarkPartial env.canResume remote
        kdst job.resume ∧
      Good remote job.resume.destination job c ∧ c.pc = .poll := by
  obtain ⟨a, hstat⟩ := Store.content_eq_some.mp h.source
  have hov : ( SMBResumeIO { env.calls with stat := env.stat }).exists_ remote kdst = true →
      flags.Overwrite = true := by
    intro hexists
    rcases h.dest with hnone | ⟨-, hO⟩
    · have hstat := Store.stat_of_linkAt (Store.linkAt_none hnone)
      simp [ SMBResumeIO, hstat, Store.kindAt_eq_none.mp hnone] at hexists
    · exact hO
  obtain ⟨resume, hresume⟩ := shouldResume_ok
    ( SMBResumeIO { env.calls with stat := env.stat }) env.MarkPartial env.canResume h.Resume hov
  have hfresh := shouldResume_fresh h.Resume hresume
  obtain ⟨h1, h2⟩ := h.fresh_kind hfresh
  obtain ⟨t, fd, n, hopen, hn, hother, hend⟩ := openDestination_good hs permissions h1 h2
  refine ⟨⟨resume, ksrc, kdst, content⟩, ⟨t, fd, n, n, .pass, false, .poll⟩, ?_, rfl, rfl, hfresh,
    ⟨rfl, rfl, hn, hother, ⟨content.take n, hend, by simp [Pc.unwritten]⟩, by simp⟩, rfl⟩
  simp [start, hstat, Kind.isDir, hs.openSource, hresume, hopen, hs.seek, Kind.data]

lemma applyMTimeSMBC_kindAt (share : Store SMBUrl) (url p : SMBUrl) :
    (applyMTimeSMBC env share url).kindAt p = share.kindAt p := by
  unfold applyMTimeSMBC
  split
  · rfl
  · split_ifs
    · exact Store.getD_setAttrs_kindAt _ _ _ _
    · rfl

lemma finish_complete (hs : Succeeds env) {content : List UInt8}
    (h : Ready disk remote ksrc kdst flags content) {io : ResumeIO SMBUrl}
    (hfresh : Fresh io env.MarkPartial env.canResume remote kdst job.resume)
    (hcontent : job.content = content) (hgood : Good remote job.resume.destination job c)
    (hpc : c.pc = .close) :
    Complete env.MarkPartial remote kdst kdst.partUrl content (finish env job c) := by
  obtain ⟨data, hend, hdata⟩ := hgood.stored
  have hne : kdst.partUrl ≠ kdst := SMBUrl.partUrl_ne h.name
  have hall : data = content := by
    rw [← hcontent, ← List.take_of_length_le (hgood.closed hpc), ← hdata, hpc]
    simp [Pc.unwritten]
  subst hall
  have hkind := hgood.named ▸ hend.1
  cases hM : env.MarkPartial with
  | false =>
    obtain ⟨hdest, -⟩ := hfresh.unmarked hM
    have hplace : job.resume.destination = job.resume.completeDestination := by
      rw [hdest, hfresh.complete]
    rw [hdest] at hkind
    simp only [finish, hs.smbc_close, hgood.result, conclude_in_place _ _ _ _ hplace]
    refine ⟨rfl, ?_, ?_⟩
    · exact (Store.content_congr (applyMTimeSMBC_kindAt _ _) _).trans
        (Store.content_of_file hkind)
    · refine (applyMTimeSMBC_kindAt _ _ _).trans (Store.kindAt_of_eq ?_)
      exact hgood.other _ (by rw [hdest]; exact hne)
  | true =>
    obtain ⟨hdest, hpart⟩ := hfresh.marked hM
    have hne' : job.resume.destination ≠ job.resume.completeDestination := by
      rw [hdest, hfresh.complete]
      exact hne
    rw [hdest] at hkind
    have hdir : c.remote.kindAt kdst ≠ some .dir := by
      rw [Store.kindAt_of_eq (hgood.other kdst (by rw [hdest]; exact hne.symm))]
      rcases h.dest with hnone | ⟨⟨old, hold⟩, -⟩
      · simp [hnone]
      · simp [hold]
    rcases SMB_renameTo_spec env.calls hne hkind rfl with
      ⟨hr | hd, -⟩ | ⟨-, t, heq, h1, h2⟩
    · simp [hs.rename] at hr
    · exact absurd hd hdir
    · have hleft := conclude_renamed env.DEFAULT_MINIMUM_KEEP_SIZE hne'
        (by rw [hpart, hfresh.complete]; exact heq)
      simp only [finish, hs.smbc_close, hgood.result, hleft]
      refine ⟨rfl, ?_, ?_⟩
      · exact (Store.content_congr (applyMTimeSMBC_kindAt _ _) _).trans
          (Store.content_of_file h1)
      · exact (applyMTimeSMBC_kindAt _ _ _).trans h2

/-- The state of the loop, or what it returned, as long as nothing fails. -/
def GoodPhase (env : Env) (remote : Store SMBUrl) (job : Job) : Phase → Prop
  | .running job' c => job' = job ∧ Good remote job.resume.destination job c
  | .returned left => ∃ c, Good remote job.resume.destination job c ∧ c.pc = .close ∧
      left = finish env job c

lemma goodPhase_step {p' : Phase} (h : GoodPhase env remote job p) (hq : Quiet p l)
    (hs : step env p l = some p') : GoodPhase env remote job p' := by
  cases p with
  | returned left => simp [step] at hs
  | running job1 c =>
    obtain ⟨rfl, hgood⟩ := h
    cases p' with
    | running job2 c' => exact ⟨(step_running hs).1, hgood.step hq hs⟩
    | returned left =>
      obtain ⟨-, hpc, hleft⟩ := step_returned hs
      exact ⟨c, hgood, hpc, hleft⟩

/-- **A run in which nothing fails** is no longer than a bound, can go on until it returns, and
then the copy is complete. -/
theorem quiet_run (hs : Succeeds env) {content : List UInt8}
    (h : Ready disk remote ksrc kdst flags content) {ls : List Label}
    (hquiet : AllSteps (step env) Quiet (start env disk remote ksrc kdst permissions flags) ls)
    (hrun : run (step env) (start env disk remote ksrc kdst permissions flags) ls = some p) :
    ls.length ≤ 3 * content.length + 5 ∧
      ((∃ l, Quiet p l ∧ (step env p l).isSome = true) ∨
        ∃ left, p = .returned left ∧
          Complete env.MarkPartial remote kdst kdst.partUrl content left) := by
  obtain ⟨job, c, hstart, hcontent, -, hfresh, hgood, hpc⟩ := start_good hs h permissions
  rw [hstart] at hquiet hrun
  have hbound : rest (.running job c) ≤ 3 * content.length + 5 := by
    simp only [rest, hgood.killed, hpc, hcontent, Bool.false_eq_true, if_false]
    omega
  refine ⟨Nat.le_trans (run_length hrun) hbound, ?_⟩
  have hphase : GoodPhase env remote job p :=
    run_inv (I := GoodPhase env remote job) (fun s l t hi hq hst => goodPhase_step hi hq hst) hquiet
      ⟨rfl, hgood⟩ hrun
  cases p with
  | running job' c' => exact Or.inl (quiet_step env job' c')
  | returned left =>
    obtain ⟨c', hgood', hclosed, rfl⟩ := hphase
    exact Or.inr ⟨_, rfl, finish_complete hs h hfresh hcontent hgood' hclosed⟩

end complete

end KioExtras.Smb.CopyPut
