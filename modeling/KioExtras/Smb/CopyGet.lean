import KioExtras.Smb.Resume
import KioExtras.Smb.Transfer

/-!
A file of a share copied to the disk: `SMBWorker::smbCopyGet`.

The reader thread and the writing loop share the ring buffer; in between any two of their steps
the kill flag may be raised. What comes before the threads start and after they are joined is a
function.
-/

namespace KioExtras.Smb.CopyGet

open KioExtras.Kio KioExtras.Lib.Run KioExtras.Lib.FileStore Resume Transfer

inductive FileError
  | OpenError
  | PermissionsError
  | other
  deriving DecidableEq

structure Env where
  MarkPartial : Bool
  canResume : ℕ → Bool
  setPermissions : Bool
  openFile : Option FileError
  fresh : Attrs
  stat : Option Errno
  smbc_open : Option Errno
  smbc_lseek : Bool
  flush : Bool
  futimens : Bool
  calls : QFileCalls
  DEFAULT_MINIMUM_KEEP_SIZE : ℕ

/-- `size` is what `smbc_read` returned. -/
structure Segment where
  size : ℤ
  data : List UInt8

structure Job where
  resume : TransferContext
  ksrc : SMBUrl
  kdst : SMBUrl
  content : List UInt8
  sourceMTime : ℤ

/-- The ring buffer with the two threads, the position in the source, the file with its disk, the
result of each thread and the kill flag. -/
structure Copy where
  ring : Transfer.Ring Segment
  offset : ℕ
  disk : Store String
  file : Handle String
  processed_size : ℕ
  result : WorkerResult
  readResult : Option Error
  killed : Bool

inductive Phase
  | running (job : Job) (c : Copy)
  | returned (left : Left String)

def Phase.left? : Phase → Option (Left String)
  | .running _ _ => none
  | .returned left => some left

lemma Phase.left?_eq_some {p : Phase} {left : Left String} :
    p.left? = some left ↔ p = .returned left := by
  cases p <;> simp [Phase.left?]

/-! ### Before the threads start -/

def setPermissions (env : Env) (disk : Store String) (path : String) (permissions : ℤ) :
    Store String :=
  -- the permissions of the owner are the least; `WriteOwner` is none of the bits of a mode
  let perms := if permissions = -1 then 0o600 else permissions.toNat % 0o1000
  if env.setPermissions then (disk.chmod path perms).getD disk else disk

variable (env : Env)

def openOutput (disk : Store String) (resume : TransferContext) (kdst : SMBUrl) :
    Except WorkerResult (Store String × Handle String) :=
  let path := resume.destination.path
  let cannotOpen : Error := if resume.resuming then .ERR_CANNOT_RESUME
    else .ERR_CANNOT_OPEN_FOR_WRITING
  match env.openFile with
  | some .OpenError => .error (.fail cannotOpen kdst.toDisplayString)
  | some .PermissionsError => .error (.fail .ERR_WRITE_ACCESS_DENIED kdst.toDisplayString)
  | some .other => .error (.fail .ERR_CANNOT_OPEN_FOR_WRITING kdst.toDisplayString)
  | none =>
    let existing := if resume.resuming then disk.openExisting path else none
    match existing with
    | some q => .ok (disk, ⟨q, ((disk.kindAt q).map Kind.size).getD 0⟩)
    | none =>
      match disk.openTruncate path env.fresh with
      | some (q, disk) => .ok (disk, ⟨q, 0⟩)
      | none => .error (.fail cannotOpen kdst.toDisplayString)

def openSource (remote : Store SMBUrl) (src : SMBUrl) (resume : TransferContext) :
    Except WorkerResult (List UInt8 × ℤ) :=
  let failed (errNum : Errno) : WorkerResult :=
    if errNum = .EACCES then .fail .ERR_ACCESS_DENIED src.toDisplayString
    else .fail .ERR_DOES_NOT_EXIST src.toDisplayString
  match env.stat, remote.stat src with
  | some errNum, _ => .error (failed errNum)
  | none, none => .error (failed .ENOENT)
  | none, some st =>
    if st.kind.isDir then .error (.fail .ERR_IS_DIRECTORY src.toDisplayString)
    else match env.smbc_open with
    | some errNum => .error (failed errNum)
    | none =>
      if resume.resuming && !env.smbc_lseek then
        .error (.fail .ERR_CANNOT_SEEK src.toDisplayString)
      else .ok (st.kind.data.getD [], st.attrs.mtime)

/-- Everything up to the start of the reader thread. -/
def start (disk : Store String) (remote : Store SMBUrl) (ksrc kdst : SMBUrl) (permissions : ℤ)
    (flags : JobFlags) : Phase :=
  let dstInfo := disk.stat kdst.path
  if dstInfo.isSome && (dstInfo.map fun n => n.kind.isDir).getD false then
    .returned ⟨.fail .ERR_IS_DIRECTORY kdst.toDisplayString, disk, false⟩
  else if dstInfo.isSome && !flags.Overwrite then
    .returned ⟨.fail .ERR_FILE_ALREADY_EXIST kdst.toDisplayString, disk, false⟩
  else
    match shouldResume ( QFileResumeIO env.calls) env.MarkPartial env.canResume disk kdst flags with
    | .error result => .returned ⟨result, disk, false⟩
    | .ok resume =>
      let disk := if resume.resuming then disk
        else setPermissions env disk resume.destination.path permissions
      match openOutput env disk resume kdst with
      | .error result => .returned ⟨result, disk, false⟩
      | .ok (disk, file) =>
        match openSource env remote ksrc resume with
        | .error result => .returned ⟨result, disk, false⟩
        | .ok (content, sourceMTime) =>
          let offset := if resume.resuming then resume.destinationOffset.toNat else 0
          .running ⟨resume, ksrc, kdst, content, sourceMTime⟩
            ⟨init ⟨0, []⟩, offset, disk, file, offset, .pass, none, false⟩

/-! ### The two threads -/

/-- The moves of the threads that concern the ring buffer alone. -/
inductive Move
  | check
  | nextFree
  | push
  | done
  | pop
  | wakeProducer
  | wakeConsumer
  deriving DecidableEq

def Move.label : Move → Transfer.Label Segment
  | .check => .check
  | .nextFree => .nextFree
  | .push => .push
  | .done => .done
  | .pop => .pop
  | .wakeProducer => .wakeProducer
  | .wakeConsumer => .wakeConsumer

/-- What happens next. A read returns at most `n + 1` bytes or fails, a write writes at most `n`
bytes or fails; the writing loop skips a segment when it sees the kill flag. That it looks at the
flag and then writes is one step, because a kill in between does what one after the write does. -/
inductive Label
  | kill
  | move (m : Move)
  | poll
  | read (n : Option ℕ)
  | skip
  | write (n : Option ℕ)
  | setErr
  | unpop
  | conclude
  deriving DecidableEq

variable (job : Job)

/-- `buf.capacity()`: at least what the array has on the stack. -/
def capacity : ℕ :=
  (max c_minSegmentSize (segmentSizeForFileSize job.content.length)).toNat

def readSegment (offset : ℕ) : Option ℕ → Segment
  | none => ⟨-1, []⟩
  | some n =>
    let data := (job.content.drop offset).take (min (n + 1) (capacity job))
    ⟨data.length, data⟩

def onRing (c : Copy) (l : Transfer.Label Segment) : Option Copy :=
  (Transfer.step c.ring l).map fun ring => { c with ring := ring }

def read (n : Option ℕ) (c : Copy) : Option Copy :=
  let segment := readSegment job c.offset n
  (Transfer.step c.ring (.fill segment (decide (segment.size ≤ 0)))).map fun ring =>
    { c with
      ring := ring
      offset := c.offset + segment.data.length
      readResult := if segment.size < 0 then some .ERR_CANNOT_READ else none }

/-- `file.write`; a negative size is an error. -/
def write (job : Job) (n : Option ℕ) (c : Copy) : Option Copy :=
  match c.ring.consumer, n with
  | .use _, none =>
    (Transfer.step c.ring .use).map fun ring =>
      { c with ring := ring, result := .fail .ERR_CANNOT_WRITE job.kdst.toDisplayString }
  | .use slot, some n =>
    let segment := c.ring.m_buffer slot
    if segment.size < 0 then none
    else
      let bytes := segment.data.take n
      let (disk, file) := c.disk.write c.file bytes
      (Transfer.step c.ring .use).map fun ring =>
        { c with
          ring := ring
          disk := disk
          file := file
          processed_size := c.processed_size + bytes.length }
  | _, _ => none

/-! ### After the threads are joined -/

def setMTime (disk : Store String) (file : Handle String) (mtime : ℤ) : Store String :=
  if env.futimens then (disk.setAttrs file.path fun a => { a with mtime := mtime }).getD disk
  else disk

def finish (job : Job) (c : Copy) : Left String :=
  let result :=
    if !c.result.success then c.result
    else match c.readResult with
    | some readResult =>
      if !c.killed then .fail readResult job.ksrc.toDisplayString else c.result
    | none => c.result
  let (result, disk) :=
    if !result.success then (result, c.disk)
    else if !env.flush then (.fail .ERR_CANNOT_WRITE job.kdst.toDisplayString, c.disk)
    else (result, setMTime env c.disk c.file job.sourceMTime)
  concludeResumeHasError ( QFileResumeIO env.calls) env.DEFAULT_MINIMUM_KEEP_SIZE disk result
    job.resume

def step : Phase → Label → Option Phase
  | .returned _, _ => none
  | .running job c, .kill =>
    if c.killed then none else some (.running job { c with killed := true })
  | .running job c, .move m => (onRing c m.label).map (.running job)
  | .running job c, .poll => (onRing c (.poll !c.killed)).map (.running job)
  | .running job c, .read n => (read job n c).map (.running job)
  | .running job c, .skip => if c.killed then (onRing c .use).map (.running job) else none
  | .running job c, .write n => if c.killed then none else (write job n c).map (.running job)
  | .running job c, .setErr =>
    if c.result.success then none else (onRing c .setErr).map (.running job)
  | .running job c, .unpop =>
    if c.result.success || c.ring.isErr then (onRing c .unpop).map (.running job) else none
  | .running job c, .conclude =>
    match c.ring.producer, c.ring.consumer with
    | .finished, .finished _ => some (.returned (finish env job c))
    | _, _ => none

/-! ### What a step does -/

section steps

variable {env : Env} {job job' : Job} {c c' : Copy} {l : Label} {left : Left String}

/-- The move of the ring buffer in a step. -/
def ringLabel (job : Job) (c : Copy) : Label → Option (Transfer.Label Segment)
  | .move m => some m.label
  | .poll => some (.poll !c.killed)
  | .read n => some (.fill (readSegment job c.offset n)
      (decide ((readSegment job c.offset n).size ≤ 0)))
  | .skip | .write _ => some .use
  | .setErr => some .setErr
  | .unpop => some .unpop
  | .kill | .conclude => none

/-- The guard of a step and what it does beside the ring buffer. -/
inductive Effect (job : Job) (c c' : Copy) : Label → Prop
  | kill (hk : c.killed = false) (h : c' = { c with killed := true }) : Effect job c c' .kill
  | move (m : Move) (h : c' = { c with ring := c'.ring }) : Effect job c c' (.move m)
  | poll (h : c' = { c with ring := c'.ring }) : Effect job c c' .poll
  | read (n : Option ℕ) (h : c' = { c with
      ring := c'.ring
      offset := c.offset + (readSegment job c.offset n).data.length
      readResult := if (readSegment job c.offset n).size < 0 then some .ERR_CANNOT_READ
        else none }) : Effect job c c' (.read n)
  | skip (hk : c.killed = true) (h : c' = { c with ring := c'.ring }) : Effect job c c' .skip
  | failed (hk : c.killed = false) (h : c' = { c with
      ring := c'.ring
      result := .fail .ERR_CANNOT_WRITE job.kdst.toDisplayString }) :
    Effect job c c' (.write none)
  | write (n slot : ℕ) (hk : c.killed = false) (hslot : c.ring.consumer = .use slot)
    (hsize : 0 ≤ (c.ring.m_buffer slot).size) (h : c' = { c with
      ring := c'.ring
      disk := (c.disk.write c.file ((c.ring.m_buffer slot).data.take n)).1
      file := (c.disk.write c.file ((c.ring.m_buffer slot).data.take n)).2
      processed_size := c.processed_size + ((c.ring.m_buffer slot).data.take n).length }) :
    Effect job c c' (.write (some n))
  | setErr (hr : c.result.success = false) (h : c' = { c with ring := c'.ring }) :
    Effect job c c' .setErr
  | unpop (hr : (c.result.success || c.ring.isErr) = true) (h : c' = { c with ring := c'.ring }) :
    Effect job c c' .unpop

lemma onRing_some {rl : Transfer.Label Segment} (h : onRing c rl = some c') :
    Transfer.step c.ring rl = some c'.ring ∧ c' = { c with ring := c'.ring } := by
  obtain ⟨ring, h1, rfl⟩ := Option.map_eq_some_iff.mp h
  exact ⟨h1, rfl⟩

/-- **A step of the copy** is a move of the ring buffer, or none, with its effect. -/
lemma step_running (h : step env (.running job c) l = some (.running job' c')) :
    job' = job ∧ Effect job c c' l ∧
      (match ringLabel job c l with
        | some rl => Transfer.step c.ring rl = some c'.ring
        | none => c'.ring = c.ring) := by
  cases l with
  | kill =>
    simp only [step] at h
    split_ifs at h with hk
    simp only [Option.some.injEq, Phase.running.injEq] at h
    obtain ⟨rfl, rfl⟩ := h
    exact ⟨rfl, .kill (by simpa using hk) rfl, rfl⟩
  | move m =>
    obtain ⟨c1, h1, h2⟩ := Option.map_eq_some_iff.mp h
    obtain ⟨rfl, rfl⟩ := Phase.running.inj h2
    exact ⟨rfl, .move m (onRing_some h1).2, (onRing_some h1).1⟩
  | poll =>
    obtain ⟨c1, h1, h2⟩ := Option.map_eq_some_iff.mp h
    obtain ⟨rfl, rfl⟩ := Phase.running.inj h2
    exact ⟨rfl, .poll (onRing_some h1).2, (onRing_some h1).1⟩
  | read n =>
    obtain ⟨c1, h1, h2⟩ := Option.map_eq_some_iff.mp h
    obtain ⟨rfl, rfl⟩ := Phase.running.inj h2
    obtain ⟨ring, h3, rfl⟩ := Option.map_eq_some_iff.mp h1
    exact ⟨rfl, .read n rfl, h3⟩
  | skip =>
    simp only [step] at h
    split_ifs at h with hk
    obtain ⟨c1, h1, h2⟩ := Option.map_eq_some_iff.mp h
    obtain ⟨rfl, rfl⟩ := Phase.running.inj h2
    exact ⟨rfl, .skip hk (onRing_some h1).2, (onRing_some h1).1⟩
  | write n =>
    simp only [step] at h
    split_ifs at h with hk
    obtain ⟨c1, h1, h2⟩ := Option.map_eq_some_iff.mp h
    obtain ⟨rfl, rfl⟩ := Phase.running.inj h2
    unfold write at h1
    split at h1
    · obtain ⟨ring, h3, rfl⟩ := Option.map_eq_some_iff.mp h1
      exact ⟨rfl, .failed (by simpa using hk) rfl, h3⟩
    · rename_i slot n hslot
      simp only at h1
      split_ifs at h1 with hsize
      obtain ⟨ring, h3, rfl⟩ := Option.map_eq_some_iff.mp h1
      exact ⟨rfl, .write n slot (by simpa using hk) hslot (by omega) rfl, h3⟩
    · simp at h1
  | setErr =>
    simp only [step] at h
    split_ifs at h with hr
    obtain ⟨c1, h1, h2⟩ := Option.map_eq_some_iff.mp h
    obtain ⟨rfl, rfl⟩ := Phase.running.inj h2
    exact ⟨rfl, .setErr (by simpa using hr) (onRing_some h1).2, (onRing_some h1).1⟩
  | unpop =>
    simp only [step] at h
    split_ifs at h with hr
    obtain ⟨c1, h1, h2⟩ := Option.map_eq_some_iff.mp h
    obtain ⟨rfl, rfl⟩ := Phase.running.inj h2
    exact ⟨rfl, .unpop hr (onRing_some h1).2, (onRing_some h1).1⟩
  | conclude =>
    simp only [step] at h
    split at h <;> simp at h

lemma step_returned (h : step env (.running job c) l = some (.returned left)) :
    l = .conclude ∧ c.ring.producer = .finished ∧ c.ring.consumer.Finished ∧
      left = finish env job c := by
  cases l with
  | conclude =>
    simp only [step] at h
    split at h
    · rename_i null hp hc
      simp only [Option.some.injEq, Phase.returned.injEq] at h
      exact ⟨rfl, hp, ⟨null, hc⟩, h.symm⟩
    · simp at h
  | kill | move | poll | read => simp [step] at h
  | skip | write | setErr | unpop =>
    simp only [step] at h
    split_ifs at h
    simp at h

end steps

/-! ### Every run ends

Each thread has a number that its own moves lower, and by three where they call `notify_all`,
which raises the number of the other thread by one at most. A thread that wakes up for no reason
raises its own by one. -/

section ends

/-- What the reader thread has left to do, with `unread` bytes left in the source. -/
def producerRest (unread : ℕ) : Producer → ℕ
  | .top => 12 + 9 * unread
  | .poll => 11 + 9 * unread
  | .nextFree => 10 + 9 * unread
  | .fill _ => 7 + 9 * unread
  | .push false => 15 + 9 * unread
  | .pushWait false => 14 + 9 * unread
  | .push true => 6
  | .pushWait true => 5
  | .done => 3
  | .finished => 0

/-- How many segments the reader thread will push at most. -/
def toPush (unread : ℕ) : Producer → ℕ
  | .top | .poll | .nextFree | .fill _ => unread + 1
  | .push false | .pushWait false => unread + 2
  | .push true | .pushWait true => 1
  | .done | .finished => 0

variable (n : ℕ)

/-- What the writing loop has left to do, with `n` segments to come. -/
def consumerRest : Consumer → ℕ
  | .pop => 8 * n + 2
  | .popWait => 8 * n + 1
  | .use _ => 8 * n - 1
  | .used _ => 8 * n + 5
  | .failed _ => 8 * n + 4
  | .finished _ => 0

def ringRest (unread : ℕ) (r : Transfer.Ring Segment) : ℕ :=
  producerRest unread r.producer +
    consumerRest (r.pushed.length + toPush unread r.producer - r.used.length) r.consumer

/-- A bound on the steps that are left, apart from those that waking up for no reason adds. -/
def rest : Phase → ℕ
  | .returned _ => 0
  | .running job c =>
    (if c.killed then 0 else 1) + ringRest (job.content.length - c.offset) c.ring + 1

/-- A thread that wakes up for no reason has two more steps to do. -/
def cost : Label → ℕ
  | .move .wakeProducer | .move .wakeConsumer => 2
  | _ => 0

lemma consumerRest_mono {m n : ℕ} (h : m ≤ n) (k : Consumer) :
    consumerRest m k ≤ consumerRest n k := by
  cases k <;> simp only [consumerRest] <;> omega

lemma consumerRest_notify (r : Transfer.Ring Segment) :
    consumerRest n (notify_all r).consumer ≤ consumerRest n r.consumer + 1 := by
  simp only [notify_all]
  cases r.consumer <;> simp [consumerRest]

lemma producerRest_notify (unread : ℕ) (r : Transfer.Ring Segment) :
    producerRest unread (notify_all r).producer ≤ producerRest unread r.producer + 1 := by
  simp only [notify_all]
  rcases r.producer with _ | _ | _ | _ | ⟨_ | _⟩ | ⟨_ | _⟩ | _ | _ <;>
    simp only [producerRest] <;> omega

lemma toPush_notify (unread : ℕ) (r : Transfer.Ring Segment) :
    toPush unread (notify_all r).producer = toPush unread r.producer := by
  simp only [notify_all]
  rcases r.producer with _ | _ | _ | _ | ⟨_ | _⟩ | ⟨_ | _⟩ | _ | _ <;> rfl

variable {unread : ℕ} {r r' : Transfer.Ring Segment}

variable {unread' : ℕ}

/-- A move of the reader thread that lowers its number by `d` and promises no more segments,
while the writing loop may be woken up. -/
lemma ringRest_producer {d : ℕ} (hu : r'.used = r.used)
    (hc : consumerRest (r.pushed.length + toPush unread r.producer - r.used.length) r'.consumer ≤
      consumerRest (r.pushed.length + toPush unread r.producer - r.used.length) r.consumer + d)
    (hpush : r'.pushed.length + toPush unread' r'.producer ≤
      r.pushed.length + toPush unread r.producer)
    (hp : producerRest unread' r'.producer + d < producerRest unread r.producer) :
    ringRest unread' r' < ringRest unread r := by
  have hmono := consumerRest_mono (n := r.pushed.length + toPush unread r.producer - r.used.length)
    (m := r'.pushed.length + toPush unread' r'.producer - r'.used.length)
    (by rw [hu]; omega) r'.consumer
  unfold ringRest
  omega

lemma ringRest_check (hs : check r = some r') : ringRest unread r' < ringRest unread r := by
  obtain ⟨hp, rfl⟩ := check_some hs
  refine ringRest_producer (d := 0) rfl (Nat.le_refl _) ?_ ?_
  · cases he : r.isErr <;> simp [hp, toPush]
  · cases he : r.isErr <;> simp only [hp, producerRest, if_true, Bool.false_eq_true, if_false] <;>
      omega

lemma ringRest_poll (unread : ℕ) {go : Bool} (hs : Transfer.poll go r = some r') :
    ringRest unread r' < ringRest unread r := by
  obtain ⟨hp, rfl⟩ := poll_some hs
  refine ringRest_producer (d := 0) rfl (Nat.le_refl _) ?_ ?_
  · cases go <;> simp [hp, toPush]
  · cases go <;> simp only [hp, producerRest, if_true, Bool.false_eq_true, if_false] <;> omega

lemma ringRest_nextFree (hs : nextFree r = some r') : ringRest unread r' < ringRest unread r := by
  obtain ⟨hp, rfl⟩ := nextFree_some hs
  refine ringRest_producer (d := 1) rfl (consumerRest_notify _ r) ?_ ?_
  · simp [hp, toPush]
  · simp only [hp, producerRest]
    omega

lemma ringRest_push (hs : Transfer.push r = some r') : ringRest unread r' < ringRest unread r := by
  obtain ⟨last, hp, rfl | rfl⟩ := push_some hs
  · refine ringRest_producer (d := 0) rfl (Nat.le_refl _) ?_ ?_
    · cases last <;> simp [hp, toPush]
    · cases last <;> simp [hp, producerRest]
  · refine ringRest_producer (d := 1) rfl (consumerRest_notify _ r) ?_ ?_
    · cases last <;> simp only [hp, toPush, List.length_append, List.length_singleton, if_true,
        Bool.false_eq_true, if_false] <;> omega
    · cases last <;> simp only [hp, producerRest, if_true, Bool.false_eq_true, if_false] <;> omega

lemma ringRest_done (hs : Transfer.done r = some r') : ringRest unread r' < ringRest unread r := by
  obtain ⟨hp, rfl⟩ := done_some hs
  refine ringRest_producer (d := 1) rfl (consumerRest_notify _ r) ?_ ?_
  · simp [hp, toPush]
  · simp [hp, producerRest]

lemma ringRest_fill {a : Segment} {last : Bool} (hs : fill a last r = some r')
    (h : (last = false ∧ unread' < unread) ∨ last = true) :
    ringRest unread' r' < ringRest unread r := by
  obtain ⟨slot, hp, rfl⟩ := fill_some hs
  refine ringRest_producer (d := 0) rfl (Nat.le_refl _) ?_ ?_
  · rcases h with ⟨rfl, h⟩ | rfl
    · simp only [hp, toPush]
      omega
    · simp [hp, toPush]
  · rcases h with ⟨rfl, h⟩ | rfl
    · simp only [hp, producerRest]
      omega
    · simp only [hp, producerRest]
      omega

lemma ringRest_pop (hs : Transfer.pop r = some r') : ringRest unread r' < ringRest unread r := by
  obtain ⟨hc, rfl | rfl | rfl⟩ := pop_some hs
  · simp [ringRest, hc, consumerRest]
  · simp [ringRest, hc, consumerRest]
  · have h1 := producerRest_notify unread r
    simp only [ringRest, hc, toPush_notify, notify_all_pushed, notify_all_used, consumerRest]
    omega

lemma ringRest_use (unread : ℕ) (hi : Inv r) (hs : Transfer.use r = some r') :
    ringRest unread r' < ringRest unread r := by
  obtain ⟨slot, hc, rfl⟩ := use_some hs
  have hheld := (hi.held slot (by simp [hc, Consumer.slot])).2
  simp only [freed, hc] at hheld
  simp only [ringRest, hc, consumerRest, List.length_append, List.length_singleton]
  omega

lemma ringRest_setErr (unread : ℕ) (hs : Transfer.setErr r = some r') :
    ringRest unread r' < ringRest unread r := by
  obtain ⟨slot, hc, rfl⟩ := setErr_some hs
  simp [ringRest, hc, consumerRest]

lemma ringRest_unpop (unread : ℕ) (hs : Transfer.unpop r = some r') :
    ringRest unread r' < ringRest unread r := by
  have h1 := producerRest_notify unread r
  obtain ⟨slot, ⟨hc, rfl⟩ | ⟨hc, rfl⟩⟩ := unpop_some hs
  · simp only [ringRest, hc, toPush_notify, notify_all_pushed, notify_all_used, consumerRest]
    omega
  · simp only [ringRest, hc, consumerRest]
    omega

lemma ringRest_wakeProducer (hs : wakeProducer r = some r') :
    ringRest unread r' < ringRest unread r + 2 := by
  obtain ⟨last, hp, rfl⟩ := wakeProducer_some hs
  cases last <;> simp only [ringRest, hp, producerRest, toPush] <;> omega

lemma ringRest_wakeConsumer (hs : wakeConsumer r = some r') :
    ringRest unread r' < ringRest unread r + 2 := by
  obtain ⟨hc, rfl⟩ := wakeConsumer_some hs
  simp only [ringRest, hc, consumerRest]
  omega

variable {env : Env} {p p' : Phase} {l : Label}

def RingInv : Phase → Prop
  | .returned _ => True
  | .running _ c => Inv c.ring

lemma ringInv_step (h : RingInv p) (hs : step env p l = some p') : RingInv p' := by
  cases p with
  | returned left => simp [step] at hs
  | running job c =>
    cases p' with
    | returned left => trivial
    | running job' c' =>
      obtain ⟨-, -, hring⟩ := step_running hs
      cases hl : ringLabel job c l with
      | some rl =>
        rw [hl] at hring
        exact step_inv rl h hring
      | none =>
        rw [hl] at hring
        have hsame : c'.ring = c.ring := hring
        show Inv c'.ring
        rw [hsame]
        exact h

lemma readSegment_spec (job : Job) (offset : ℕ) (n : Option ℕ) :
    ((readSegment job offset n).size ≤ 0 ∧ (readSegment job offset n).data = []) ∨
      (0 < (readSegment job offset n).size ∧
        job.content.length - (offset + (readSegment job offset n).data.length) <
          job.content.length - offset) := by
  cases n with
  | none => exact Or.inl ⟨by simp [readSegment], rfl⟩
  | some n =>
    cases hd : (readSegment job offset (some n)).data with
    | nil =>
      refine Or.inl ⟨?_, rfl⟩
      have hsize : (readSegment job offset (some n)).size =
          ((readSegment job offset (some n)).data.length : ℤ) := rfl
      simp [hsize, hd]
    | cons b data =>
      refine Or.inr ⟨?_, ?_⟩
      · have hsize : (readSegment job offset (some n)).size =
            ((readSegment job offset (some n)).data.length : ℤ) := rfl
        rw [hsize, hd]
        simp
      · have hle : (readSegment job offset (some n)).data.length ≤
            (job.content.drop offset).length := by
          simp only [readSegment, List.length_take]
          omega
        rw [hd, List.length_drop] at hle
        simp only [List.length_cons] at hle ⊢
        omega

lemma rest_lt (hi : RingInv p) (hs : step env p l = some p') : rest p' < rest p + cost l := by
  cases p with
  | returned left => simp [step] at hs
  | running job c =>
    cases p' with
    | returned left => simp only [rest]; omega
    | running job' c' =>
      obtain ⟨rfl, heffect, hring⟩ := step_running hs
      cases heffect with
      | kill hk h =>
        rw [h]
        simp [rest, hk, cost]
      | move m h =>
        have hlt : ringRest (job'.content.length - c.offset) c'.ring <
            ringRest (job'.content.length - c.offset) c.ring + cost (.move m) := by
          cases m with
          | check => exact ringRest_check hring
          | nextFree => exact ringRest_nextFree hring
          | push => exact ringRest_push hring
          | done => exact ringRest_done hring
          | pop => exact ringRest_pop hring
          | wakeProducer => exact ringRest_wakeProducer hring
          | wakeConsumer => exact ringRest_wakeConsumer hring
        rw [h]
        simp only [rest]
        omega
      | poll h =>
        have hlt := ringRest_poll (job'.content.length - c.offset) hring
        rw [h]
        simp only [rest, cost]
        omega
      | read n h =>
        have hlt : ringRest (job'.content.length -
            (c.offset + (readSegment job' c.offset n).data.length)) c'.ring <
            ringRest (job'.content.length - c.offset) c.ring := by
          refine ringRest_fill hring ?_
          rcases readSegment_spec job' c.offset n with ⟨hsize, -⟩ | ⟨hsize, hlt⟩
          · exact Or.inr (by simpa using hsize)
          · exact Or.inl ⟨by simpa using hsize, hlt⟩
        rw [h]
        simp only [rest, cost]
        omega
      | skip hk h =>
        have hlt := ringRest_use (job'.content.length - c.offset) hi hring
        rw [h]
        simp only [rest, cost]
        omega
      | failed hk h =>
        have hlt := ringRest_use (job'.content.length - c.offset) hi hring
        rw [h]
        simp only [rest, cost]
        omega
      | write n slot hk hslot hsize h =>
        have hlt := ringRest_use (job'.content.length - c.offset) hi hring
        rw [h]
        simp only [rest, cost]
        omega
      | setErr hr h =>
        have hlt := ringRest_setErr (job'.content.length - c.offset) hring
        rw [h]
        simp only [rest, cost]
        omega
      | unpop hr h =>
        have hlt := ringRest_unpop (job'.content.length - c.offset) hring
        rw [h]
        simp only [rest, cost]
        omega

/-- How often a thread woke up for no reason. -/
def wakes (ls : List Label) : ℕ := (ls.filter fun l => decide (cost l ≠ 0)).length

lemma run_length {ls : List Label} (hi : RingInv p) (h : run (step env) p ls = some p') :
    ls.length ≤ rest p + 2 * wakes ls := by
  have hle := run_length_le (I := RingInv) rest cost
    (fun s l t hi hst => ⟨ringInv_step hi hst, rest_lt hi hst⟩) hi h
  have hsum : (ls.map cost).sum = 2 * wakes ls := by
    clear h hle
    induction ls with
    | nil => rfl
    | cons l ls ih =>
      have hcost : cost l = 0 ∨ cost l = 2 := by
        cases l with
        | move m => cases m <;> simp [cost]
        | _ => simp [cost]
      rcases hcost with hc | hc <;> simp [wakes, hc] at ih ⊢ <;> omega
  omega

end ends

/-! ### What the threads leave alone -/

section frame

variable {env : Env} {disk : Store String} {remote : Store SMBUrl} {ksrc kdst : SMBUrl}
  {permissions : ℤ} {flags : JobFlags} {job job' : Job} {c c' : Copy} {l : Label}
  {left : Left String}

/-- The disk with nothing changed but the file that is written, which is no link. -/
structure Framed (disk : Store String) (q : String) (c : Copy) : Prop where
  writing : Store.Writing disk q c.disk c.file
  link : c.disk.linkAt q = none

lemma step_framed {q : String} (hf : Framed disk q c)
    (h : step env (.running job c) l = some (.running job' c')) : Framed disk q c' := by
  obtain ⟨-, heffect, -⟩ := step_running h
  cases heffect with
  | write n slot hk hslot hsize hc =>
    rw [hc]
    exact ⟨hf.writing.write _, (Store.write_linkAt _ _ _ _).trans hf.link⟩
  | kill _ hc | move _ hc | poll hc | read _ hc | skip _ hc | failed _ hc | setErr _ hc
  | unpop _ hc =>
    rw [hc]
    exact ⟨hf.writing, hf.link⟩

lemma step_result (h : step env (.running job c) l = some (.running job' c')) :
    c'.result.success = (c.result.success && decide (l ≠ .write none)) := by
  obtain ⟨-, heffect, -⟩ := step_running h
  cases heffect with
  | failed _ hc =>
    rw [hc]
    simp
  | kill _ hc | move _ hc | poll hc | read _ hc | skip _ hc | write _ _ _ _ _ hc | setErr _ hc
  | unpop _ hc =>
    rw [hc]
    simp

lemma step_killed (h : step env (.running job c) l = some (.running job' c')) :
    c'.killed = (c.killed || decide (l = .kill)) := by
  obtain ⟨-, heffect, -⟩ := step_running h
  cases heffect with
  | kill _ hc =>
    rw [hc]
    simp
  | move _ hc | poll hc | read _ hc | skip _ hc | failed _ hc | write _ _ _ _ _ hc
  | setErr _ hc | unpop _ hc =>
    rw [hc]
    simp

lemma setPermissions_kindAt (env : Env) (disk : Store String) (path : String) (permissions : ℤ)
    (p : String) : (setPermissions env disk path permissions).kindAt p = disk.kindAt p := by
  unfold setPermissions
  cases env.setPermissions with
  | true => exact Store.getD_setAttrs_kindAt _ _ _ _
  | false => rfl

variable {p : String} {resume : TransferContext} {t : Store String}

lemma setPermissions_ne {path : String} (hp : disk.target path ≠ some p) :
    setPermissions env disk path permissions p = disk p := by
  unfold setPermissions
  cases env.setPermissions with
  | true => exact Store.getD_setAttrs_ne _ hp
  | false => rfl

lemma setMTime_kindAt (env : Env) (disk : Store String) (file : Handle String) (mtime : ℤ)
    (p : String) : (setMTime env disk file mtime).kindAt p = disk.kindAt p := by
  unfold setMTime
  split_ifs
  · exact Store.getD_setAttrs_kindAt _ _ _ _
  · rfl

lemma setMTime_ne {file : Handle String} {mtime : ℤ} (hp : disk.target file.path ≠ some p) :
    setMTime env disk file mtime p = disk p := by
  unfold setMTime
  split_ifs
  · exact Store.getD_setAttrs_ne _ hp
  · rfl

lemma openOutput_framed {file : Handle String}
    (h : openOutput env disk resume kdst = .ok (t, file)) :
    ∃ q, disk.target resume.destination.path = some q ∧ Store.Writing disk q t file ∧
      t.linkAt q = none := by
  unfold openOutput at h
  simp only at h
  split at h
  · simp at h
  · simp at h
  · simp at h
  · split at h
    · rename_i q hq
      split_ifs at hq
      simp only [Except.ok.injEq, Prod.mk.injEq] at h
      obtain ⟨rfl, rfl⟩ := h
      obtain ⟨hqt, hk⟩ := Store.openExisting_eq_some.mp hq
      exact ⟨q, hqt, ⟨rfl, hk, fun _ _ => rfl⟩, Store.target_linkAt hqt⟩
    · split at h
      · rename_i q t' hopen
        simp only [Except.ok.injEq, Prod.mk.injEq] at h
        obtain ⟨rfl, rfl⟩ := h
        obtain ⟨hqt, -, hk, hframe⟩ := Store.openTruncate_some hopen
        exact ⟨q, hqt, ⟨rfl, hk, hframe⟩, Store.openTruncate_linkAt hopen⟩
      · simp at h

/-- The disk before the output is opened. -/
def prepared (env : Env) (disk : Store String) (resume : TransferContext) (permissions : ℤ) :
    Store String :=
  if resume.resuming then disk else setPermissions env disk resume.destination.path permissions

lemma prepared_kindAt (env : Env) (disk : Store String) (resume : TransferContext)
    (permissions : ℤ) (p : String) :
    (prepared env disk resume permissions).kindAt p = disk.kindAt p := by
  unfold prepared
  split_ifs
  · rfl
  · exact setPermissions_kindAt env disk _ permissions p

lemma prepared_ne (hp : disk.target resume.destination.path ≠ some p) :
    prepared env disk resume permissions p = disk p := by
  unfold prepared
  split_ifs
  · rfl
  · exact setPermissions_ne hp

lemma prepared_target (env : Env) (disk : Store String) (resume : TransferContext)
    (permissions : ℤ) (p : String) :
    (prepared env disk resume permissions).target p = disk.target p :=
  Store.target_congr
    (fun x => Store.linkAt_of_kindAt (prepared_kindAt env disk resume permissions x)) p

lemma openOutput_prepared {file : Handle String}
    (h : openOutput env (prepared env disk resume permissions) resume kdst = .ok (t, file)) :
    ∃ q, disk.target resume.destination.path = some q ∧ Store.Writing disk q t file ∧
      t.linkAt q = none := by
  obtain ⟨q, htarget, hwriting, hlink⟩ := openOutput_framed h
  rw [prepared_target] at htarget
  refine ⟨q, htarget, ⟨hwriting.named, hwriting.entry, fun p hp => ?_⟩, hlink⟩
  refine (hwriting.other p hp).trans (prepared_ne fun heq => hp ?_)
  rw [htarget, Option.some.injEq] at heq
  exact heq.symm

lemma start_returned (hname : kdst.namesFile = true) (hM : env.MarkPartial = true)
    (hR : flags.Resume = false) (hapart : disk.Apart kdst.partUrl.path kdst.path)
    (h : start env disk remote ksrc kdst permissions flags = .returned left) :
    Kept disk kdst.path left := by
  have hne : kdst.path ≠ kdst.partUrl.path := by
    rw [SMBUrl.partUrl_path hname]
    exact (partName_ne _).symm
  unfold start at h
  simp only at h
  split_ifs at h with h1 h2
  · simp only [Phase.returned.injEq] at h
    exact h ▸ ⟨rfl, .refl _ _⟩
  · simp only [Phase.returned.injEq] at h
    exact h ▸ ⟨rfl, .refl _ _⟩
  · split at h
    · simp only [Phase.returned.injEq] at h
      exact h ▸ ⟨rfl, .refl _ _⟩
    · rename_i resume hresume
      obtain ⟨hdest, -⟩ := (shouldResume_fresh hR hresume).marked hM
      split at h
      · simp only [Phase.returned.injEq] at h
        subst h
        exact ⟨rfl, .of_frame hne hapart fun x _ hx => prepared_ne (by rw [hdest]; exact hx)⟩
      · rename_i t file hopen
        obtain ⟨q, htarget, hwriting, -⟩ := openOutput_prepared hopen
        rw [hdest] at htarget
        split at h
        · simp only [Phase.returned.injEq] at h
          subst h
          exact ⟨rfl, .of_writing hne hapart htarget hwriting⟩
        · simp at h

structure Started (env : Env) (disk : Store String) (kdst : SMBUrl) (flags : JobFlags)
    (job : Job) (c : Copy) : Prop where
  resume : shouldResume ( QFileResumeIO env.calls) env.MarkPartial env.canResume disk kdst flags =
    .ok job.resume
  dest : disk.kindAt kdst.path ≠ some .dir
  result : c.result = .pass
  framed : ∃ q, disk.target job.resume.destination.path = some q ∧ Framed disk q c

lemma start_running (h : start env disk remote ksrc kdst permissions flags = .running job c) :
    Started env disk kdst flags job c := by
  unfold start at h
  simp only at h
  split_ifs at h with h1 h2
  split at h
  · simp at h
  · rename_i resume hresume
    split at h
    · simp at h
    · rename_i t file hopen
      split at h
      · simp at h
      · simp only [Phase.running.injEq] at h
        obtain ⟨rfl, rfl⟩ := h
        refine ⟨hresume, fun hdir => h1 ?_, rfl, ?_⟩
        · have hl : disk.linkAt kdst.path = none := by simp [Store.linkAt, hdir, Kind.link]
          obtain ⟨a, ha⟩ := Store.kindAt_eq_some.mp hdir
          simp [Store.stat_of_linkAt hl, ha, Kind.isDir]
        · obtain ⟨q, htarget, hwriting, hlink⟩ := openOutput_prepared hopen
          exact ⟨q, htarget, hwriting, hlink⟩

end frame

/-! ### The destination after a run -/

section kept

variable {env : Env} {disk : Store String} {remote : Store SMBUrl} {ksrc kdst : SMBUrl}
  {permissions : ℤ} {flags : JobFlags} {job : Job} {c : Copy} {left : Left String}

variable {q : String} {ls : List Label} {p : Phase} {c' : Copy}

/-- With a partial file a killed copy leaves the final name alone when a write or the flush
failed, or when the partial file could not be put there and nothing was removed for it; otherwise
it puts the partial file there, or loses what was there. -/
lemma finish_spec (hname : kdst.namesFile = true) (hM : env.MarkPartial = true)
    (hdir : disk.kindAt kdst.path ≠ some .dir) {io : ResumeIO String}
    (hfresh : Fresh io env.MarkPartial env.canResume disk kdst job.resume)
    (hapart : disk.Apart kdst.partUrl.path kdst.path)
    (htarget : disk.target kdst.partUrl.path = some q) (hframed : Framed disk q c)
    (hkilled : c.killed = true) :
    ((c.result.success = false ∨ env.flush = false ∨ env.calls.Refuse disk kdst.path) ∧
        Kept disk kdst.path (finish env job c)) ∨
      (¬ (c.result.success = false ∨ env.flush = false ∨ env.calls.Refuse disk kdst.path) ∧
        ((finish env job c).installed = true ∨ disk kdst.path ≠ none ∧
          (finish env job c).store kdst.path ≠ disk kdst.path)) := by
  obtain ⟨hdest, hpart⟩ := hfresh.marked hM
  have hpath : kdst.partUrl.path ≠ kdst.path := by
    rw [SMBUrl.partUrl_path hname]
    exact partName_ne _
  have hne : job.resume.destination ≠ job.resume.completeDestination := by
    rw [hdest, hfresh.complete]
    exact SMBUrl.partUrl_ne hname
  have hremove : ∀ p, p ≠ kdst.partUrl.path →
      ( QFileResumeIO env.calls).remove c.disk job.resume.destination p = c.disk p :=
    fun p hp => removeIf_ne (by rw [hdest]; exact hp)
  have hfailed : ∀ error text, Kept disk kdst.path (concludeResumeHasError
      ( QFileResumeIO env.calls) env.DEFAULT_MINIMUM_KEEP_SIZE c.disk (.fail error text)
      job.resume) := by
    intro error text
    obtain ⟨t, heq, ht⟩ := conclude_failed _ _ env.DEFAULT_MINIMUM_KEEP_SIZE hne
      (WorkerResult.success_fail error text) hremove
    rw [heq]
    exact ⟨rfl, .of_frame hpath.symm hapart fun x hx hxt =>
      (ht x hx).trans (hframed.writing.other x fun h => hxt (h ▸ htarget))⟩
  unfold finish
  cases hresult : c.result with
  | fail error text => exact Or.inl ⟨Or.inl rfl, hfailed error text⟩
  | pass =>
    have hread : (match c.readResult with
        | some readResult => if !c.killed then
            WorkerResult.fail readResult job.ksrc.toDisplayString else .pass
        | none => .pass) = .pass := by
      cases c.readResult <;> simp [hkilled]
    simp only [WorkerResult.success_pass, Bool.not_true, Bool.false_eq_true, if_false, hread]
    cases hflush : env.flush with
    | false => exact Or.inl ⟨Or.inr (Or.inl rfl), hfailed _ _⟩
    | true =>
      simp only [Bool.not_true, Bool.false_eq_true, if_false]
      -- the time is set at the file that was written
      have hother : ∀ x, disk.target kdst.partUrl.path ≠ some x →
          setMTime env c.disk c.file job.sourceMTime x = disk x := by
        intro x hx
        refine (setMTime_ne ?_).trans (hframed.writing.other x fun h => hx (h ▸ htarget))
        rw [hframed.writing.named, Store.target_of_linkAt hframed.link, ← htarget]
        exact hx
      have hsame : Untouched disk kdst.path (setMTime env c.disk c.file job.sourceMTime) :=
        .of_frame hpath.symm hapart fun x _ => hother x
      obtain ⟨k, hk, -⟩ := hframed.writing.entry_of_target htarget
      have hk' : (setMTime env c.disk c.file job.sourceMTime).kindAt kdst.partUrl.path = some k :=
        (setMTime_kindAt _ _ _ _ _).trans hk
      have hdir' : (setMTime env c.disk c.file job.sourceMTime).kindAt kdst.path ≠ some .dir := by
        rw [Store.kindAt_of_eq hsame.entry]
        exact hdir
      have hrefuse : env.calls.Refuse (setMTime env c.disk c.file job.sourceMTime) kdst.path ↔
          env.calls.Refuse disk kdst.path := by
        simp only [QFileCalls.Refuse, hsame.entry]
      simp only [Bool.true_eq_false, false_or]
      rcases QFile_renameTo_spec env.calls hpath hk' hdir' with
        ⟨hcond, heq⟩ | ⟨hcond, hmoved⟩
      · rw [hrefuse] at hcond
        rw [conclude_not_renamed env.DEFAULT_MINIMUM_KEEP_SIZE hne
          (by rw [hpart, hfresh.complete]; exact heq)]
        exact Or.inl ⟨hcond, rfl, hsame⟩
      · rw [hrefuse] at hcond
        refine Or.inr ⟨hcond, ?_⟩
        rw [hsame.entry] at hmoved
        cases hio : ( QFileResumeIO env.calls).renameTo
          (setMTime env c.disk c.file job.sourceMTime) kdst.partUrl kdst with
        | mk t ok =>
          rw [hio] at hmoved
          rw [← hpart, ← hfresh.complete] at hio
          cases ok with
          | true =>
            rw [conclude_renamed env.DEFAULT_MINIMUM_KEEP_SIZE hne hio]
            exact Or.inl rfl
          | false =>
            rw [conclude_not_renamed env.DEFAULT_MINIMUM_KEEP_SIZE hne hio]
            exact hmoved

lemma run_returned (h : run (step env) (.returned left) ls = some p) :
    ls = [] ∧ p = .returned left := by
  cases ls with
  | nil => exact ⟨rfl, by simpa using h.symm⟩
  | cons l ls => simp [step] at h

/-- **A run of the threads**: it goes on or ends with what `finish` makes of it; an error comes
from a write that fails. -/
lemma run_spec (hf : Framed disk q c) (h : run (step env) (.running job c) ls = some p) :
    ∃ c', (p = .running job c' ∨ p = .returned (finish env job c')) ∧ Framed disk q c' ∧
      (c'.result.success = true ↔ c.result.success = true ∧ .write none ∉ ls) ∧
      (c'.killed = true ↔ c.killed = true ∨ .kill ∈ ls) := by
  induction ls generalizing c with
  | nil =>
    simp only [run_nil, Option.some.injEq] at h
    exact ⟨c, Or.inl h.symm, hf, by simp, by simp⟩
  | cons l ls ih =>
    obtain ⟨p', hstep, hrest⟩ := run_cons_some (step env) h
    cases p' with
    | returned left =>
      obtain ⟨rfl, -, -, rfl⟩ := step_returned hstep
      obtain ⟨rfl, rfl⟩ := run_returned hrest
      exact ⟨c, Or.inr rfl, hf, by simp, by simp⟩
    | running job' c1 =>
      obtain ⟨rfl, -⟩ := step_running hstep
      obtain ⟨c', hp, hf', hresult, hkilled⟩ := ih (step_framed hf hstep) hrest
      refine ⟨c', hp, hf', ?_, ?_⟩
      · rw [hresult, step_result hstep]
        simp only [Bool.and_eq_true, decide_eq_true_eq, List.mem_cons, not_or, ne_eq,
          eq_comm (a := l)]
        grind
      · rw [hkilled, step_killed hstep]
        simp only [Bool.or_eq_true, decide_eq_true_eq, List.mem_cons, eq_comm (a := l)]
        grind

/-- What saves the final name from the partial file of a killed copy: a write or the flush that
fails, or a rename that fails with nothing removed before it. -/
def Stops (env : Env) (disk : Store String) (kdst : SMBUrl) (ls : List Label) : Prop :=
  .write none ∈ ls ∨ env.flush = false ∨ env.calls.Refuse disk kdst.path

/-- A run from `first` with a kill before all bytes of the source are written: `c` is the copy at
the kill, `c'` some time after it. -/
structure KilledRun (env : Env) (first : Phase) (before after : List Label) (job : Job)
    (c c' : Copy) : Prop where
  before : run (step env) first before = some (.running job c)
  unwritten : c.processed_size < job.content.length
  after : run (step env) (.running job c) (.kill :: after) = some (.running job c')

lemma KilledRun.whole {first : Phase} {before after : List Label}
    (h : KilledRun env first before after job c c') :
    run (step env) first (before ++ .kill :: after) = some (.running job c') := by
  rw [run_append, h.before, Option.bind_some, h.after]

/-- **The final name after a run with a kill**: it is left alone while the threads run, and the
conclusion spares it exactly when something stops the partial file from being put there, or when
all bytes were written after all and nothing was there before. -/
theorem killed_spared_iff (hname : kdst.namesFile = true) (hM : env.MarkPartial = true)
    (hR : flags.Resume = false) (hapart : disk.Apart kdst.partUrl.path kdst.path)
    {before after : List Label}
    (h : KilledRun env (start env disk remote ksrc kdst permissions flags) before after job c c') :
    Untouched disk kdst.path c'.disk ∧
      ∀ left, step env (.running job c') .conclude = some (.returned left) →
        (Spared disk kdst.path (job.content.length ≤ c'.processed_size) left ↔
          Stops env disk kdst (before ++ .kill :: after) ∨
            disk kdst.path = none ∧ job.content.length ≤ c'.processed_size) := by
  have hwhole := h.whole
  cases hstart : start env disk remote ksrc kdst permissions flags with
  | returned left =>
    rw [hstart] at hwhole
    cases (run_returned hwhole).2
  | running job0 c0 =>
    rw [hstart] at hwhole
    have hstarted := start_running hstart
    have hfresh := shouldResume_fresh hR hstarted.resume
    obtain ⟨q, htarget, hframed⟩ := hstarted.framed
    rw [(hfresh.marked hM).1] at htarget
    obtain ⟨c1, hp, hframed', hresult, hkilled⟩ := run_spec hframed hwhole
    obtain ⟨rfl, rfl⟩ : job = job0 ∧ c' = c1 := by
      rcases hp with hp | hp
      · simpa using hp
      · cases hp
    have hpath : kdst.partUrl.path ≠ kdst.path := by
      rw [SMBUrl.partUrl_path hname]
      exact partName_ne _
    refine ⟨.of_writing hpath.symm hapart htarget hframed'.writing, fun left hl => ?_⟩
    obtain ⟨-, -, -, rfl⟩ := step_returned hl
    have hstops : (c'.result.success = false ∨ env.flush = false ∨
        env.calls.Refuse disk kdst.path) ↔ Stops env disk kdst (before ++ .kill :: after) := by
      rw [← Bool.not_eq_true c'.result.success, hresult, hstarted.result]
      unfold Stops
      simp only [WorkerResult.success_pass, true_and, not_not]
    refine spared_iff ?_
    rw [← hstops]
    exact finish_spec hname hM hstarted.dest hfresh hapart htarget hframed'
      (hkilled.mpr (Or.inr (by simp)))

end kept

/-! ### Runs in which nothing fails -/

section complete

variable {env : Env} {disk : Store String} {remote : Store SMBUrl} {ksrc kdst : SMBUrl}
  {permissions : ℤ} {flags : JobFlags} {job job' : Job} {c c' : Copy} {l : Label}
  {left : Left String}

/-- No call outside the threads fails. Whether the permissions and the time of the file can be
set is not looked at. -/
structure Succeeds (env : Env) : Prop where
  openFile : env.openFile = none
  stat : env.stat = none
  smbc_open : env.smbc_open = none
  smbc_lseek : env.smbc_lseek = true
  flush : env.flush = true
  removeDest : env.calls.removeDest = true
  rename : env.calls.rename = true

/-- The bytes of the segment that the writing loop got from `pop()`. -/
def inHand (c : Copy) : List UInt8 :=
  match c.ring.consumer with
  | .use slot => (c.ring.m_buffer slot).data
  | _ => []

/-- A step that is no kill and no failure; a write writes all its bytes. -/
def Quiet : Phase → Label → Prop
  | _, .kill | _, .read none | _, .write none => False
  | .running _ c, .write (some n) => (inHand c).length ≤ n
  | _, _ => True

instance : ∀ p l, Decidable (Quiet p l)
  | .running _ _, .kill | .returned _, .kill => .isFalse id
  | .running _ _, .read none | .returned _, .read none => .isFalse id
  | .running _ _, .write none | .returned _, .write none => .isFalse id
  | .running _ c, .write (some n) => inferInstanceAs (Decidable ((inHand c).length ≤ n))
  | .returned _, .write (some _) => .isTrue trivial
  | .running _ _, .read (some _) | .returned _, .read (some _) => .isTrue trivial
  | .running _ _, .move _ | .returned _, .move _ => .isTrue trivial
  | .running _ _, .poll | .returned _, .poll => .isTrue trivial
  | .running _ _, .skip | .returned _, .skip => .isTrue trivial
  | .running _ _, .setErr | .returned _, .setErr => .isTrue trivial
  | .running _ _, .unpop | .returned _, .unpop => .isTrue trivial
  | .running _ _, .conclude | .returned _, .conclude => .isTrue trivial

def bytes (segments : List Segment) : List UInt8 := segments.flatMap Segment.data

/-- What holds as long as nothing fails: the file holds what it held at first and the segments
that were used; with all segments that were filled it is the source up to the position of the
reader thread. -/
structure Good (disk : Store String) (q : String) (job : Job) (c : Copy) : Prop where
  ring : Inv c.ring
  isErr : c.ring.isErr = false
  result : c.result = .pass
  readResult : c.readResult = none
  killed : c.killed = false
  named : c.file.path = q
  other : ∀ p, p ≠ q → c.disk p = disk p
  stored : ∃ base, c.disk.AtEnd c.file (base ++ bytes c.ring.used) ∧
    base ++ bytes (stream c.ring) = job.content.take c.offset
  sizes : ∀ segment ∈ stream c.ring, segment.size = segment.data.length
  ended : c.ring.producer.ending = true → job.content.length ≤ c.offset

variable {q : String}

variable {r : Transfer.Ring Segment} {n : ℕ} {resume : TransferContext} {p : Phase}

lemma Good.onRing {rl : Transfer.Label Segment} (h : Good disk q job c)
    (hs : Transfer.step c.ring rl = some r) (hfilled : rl.filled = []) (huse : rl ≠ .use)
    (herr : rl ≠ .setErr) (hpoll : rl ≠ .poll false) : Good disk q job { c with ring := r } := by
  have hstream : stream r = stream c.ring := by
    rw [step_stream h.ring hs, hfilled, List.append_nil]
  refine ⟨step_inv rl h.ring hs, (step_isErr herr hs).trans h.isErr, h.result, h.readResult,
    h.killed, h.named, h.other, ?_, ?_, fun he => ?_⟩
  · simpa only [step_used huse hs, hstream] using h.stored
  · simpa only [hstream] using h.sizes
  · rcases step_ending hs he with he | ⟨a, rfl⟩ | rfl | he
    · exact h.ended he
    · simp [Transfer.Label.filled] at hfilled
    · exact absurd rfl hpoll
    · simp [h.isErr] at he

lemma capacity_pos (job : Job) : 0 < capacity job := by
  unfold capacity c_minSegmentSize
  omega

lemma Good.read (h : Good disk q job c)
    (hs : Transfer.step c.ring (.fill (readSegment job c.offset (some n))
      (decide ((readSegment job c.offset (some n)).size ≤ 0))) = some r) :
    Good disk q job { c with
      ring := r
      offset := c.offset + (readSegment job c.offset (some n)).data.length
      readResult := if (readSegment job c.offset (some n)).size < 0 then some .ERR_CANNOT_READ
        else none } := by
  have hdata : (readSegment job c.offset (some n)).data =
      (job.content.drop c.offset).take (min (n + 1) (capacity job)) := rfl
  have hsize : (readSegment job c.offset (some n)).size =
      ((readSegment job c.offset (some n)).data.length : ℤ) := rfl
  have hstream := step_stream h.ring hs
  obtain ⟨base, hend, htake⟩ := h.stored
  refine ⟨step_inv _ h.ring hs, (step_isErr (by simp) hs).trans h.isErr, h.result, ?_,
    h.killed, h.named, h.other, ⟨base, ?_, ?_⟩, ?_, fun he => ?_⟩
  · rw [if_neg (by omega)]
  · simpa only [step_used (by simp) hs] using hend
  · have hprefix : (readSegment job c.offset (some n)).data <+: job.content.drop c.offset :=
      hdata ▸ List.take_prefix _ _
    rw [List.take_add, ← htake, ← List.prefix_iff_eq_take.mp hprefix]
    simp [hstream, bytes, Transfer.Label.filled]
  · intro segment hmem
    simp only [hstream, Transfer.Label.filled, List.mem_append, List.mem_singleton] at hmem
    rcases hmem with hmem | rfl
    · exact h.sizes segment hmem
    · exact hsize
  · rcases step_ending hs he with he | ⟨a, ha⟩ | ha | he
    · exact Nat.le_trans (h.ended he) (Nat.le_add_right _ _)
    · simp only [Transfer.Label.fill.injEq, decide_eq_true_eq] at ha
      -- a read of nothing is one at the end of the source
      have hnil : (readSegment job c.offset (some n)).data = [] := by
        rw [← List.length_eq_zero_iff]
        omega
      rw [hdata, List.take_eq_nil_iff, List.drop_eq_nil_iff] at hnil
      have := capacity_pos job
      simp only
      omega
    · cases ha
    · simp [h.isErr] at he

lemma Good.use_mem {slot : ℕ} (h : Good disk q job c) (hc : c.ring.consumer = .use slot) :
    c.ring.m_buffer slot ∈ stream c.ring :=
  List.mem_append_left _ (List.mem_of_getElem? (h.ring.use_eq hc))

lemma Good.write {slot : ℕ} (h : Good disk q job c) (hc : c.ring.consumer = .use slot)
    (hn : (c.ring.m_buffer slot).data.length ≤ n) (hs : Transfer.step c.ring .use = some r) :
    Good disk q job { c with
      ring := r
      disk := (c.disk.write c.file ((c.ring.m_buffer slot).data.take n)).1
      file := (c.disk.write c.file ((c.ring.m_buffer slot).data.take n)).2
      processed_size := c.processed_size + ((c.ring.m_buffer slot).data.take n).length } := by
  rw [List.take_of_length_le hn]
  have hstream : stream r = stream c.ring := by
    rw [step_stream h.ring hs]
    exact List.append_nil _
  have hused : r.used = c.ring.used ++ [c.ring.m_buffer slot] := by
    obtain ⟨slot', hc', rfl⟩ := use_some hs
    obtain rfl : slot = slot' := by simpa [hc] using hc'
    rfl
  obtain ⟨base, hend, htake⟩ := h.stored
  refine ⟨step_inv _ h.ring hs, (step_isErr (by simp) hs).trans h.isErr, h.result, h.readResult,
    h.killed, h.named, fun p hp => ?_, ⟨base, ?_, ?_⟩, ?_, fun he => ?_⟩
  · exact (Store.write_ne (h.named ▸ hp) _).trans (h.other p hp)
  · have hall : base ++ bytes r.used =
        base ++ bytes c.ring.used ++ (c.ring.m_buffer slot).data := by
      simp [hused, bytes]
    rw [hall]
    exact hend.write _
  · rw [hstream]
    exact htake
  · rw [hstream]
    exact h.sizes
  · rcases step_ending hs he with he | ⟨a, ha⟩ | ha | he
    · exact h.ended he
    · cases ha
    · cases ha
    · simp [h.isErr] at he

lemma Good.step (h : Good disk q job c) (hq : Quiet (.running job c) l)
    (hs : step env (.running job c) l = some (.running job' c')) : Good disk q job c' := by
  obtain ⟨-, heffect, hring⟩ := step_running hs
  cases heffect with
  | kill hk hc => cases hq
  | move m hc =>
    rw [hc]
    cases m <;> exact h.onRing hring rfl (by simp [Move.label]) (by simp [Move.label])
      (by simp [Move.label])
  | poll hc =>
    rw [hc]
    exact h.onRing hring rfl (by simp) (by simp) (by simp [h.killed])
  | read n hc =>
    rw [hc]
    cases n with
    | none => cases hq
    | some n => exact h.read hring
  | skip hk hc => simp [h.killed] at hk
  | failed hk hc => cases hq
  | write n slot hk hslot hsize hc =>
    rw [hc]
    refine h.write hslot ?_ hring
    simpa [Quiet, inHand, hslot] using hq
  | setErr hr hc => simp [h.result] at hr
  | unpop hr hc =>
    rw [hc]
    exact h.onRing hring rfl (by simp) (by simp) (by simp)

/-- The reader thread can move unless it has left or waits. -/
lemma producer_step (env : Env) (job : Job) (hp : c.ring.producer ≠ .finished)
    (hb : ¬ c.ring.producer.Blocked) :
    ∃ l, Quiet (.running job c) l ∧ cost l = 0 ∧ (step env (.running job c) l).isSome = true := by
  cases hcase : c.ring.producer with
  | top =>
    exact ⟨.move .check, trivial, rfl,
      by simp [CopyGet.step, CopyGet.onRing, Move.label, Transfer.step, check, hcase]⟩
  | poll =>
    exact ⟨.poll, trivial, rfl,
      by simp [CopyGet.step, CopyGet.onRing, Transfer.step, Transfer.poll, hcase]⟩
  | nextFree =>
    exact ⟨.move .nextFree, trivial, rfl,
      by simp [CopyGet.step, CopyGet.onRing, Move.label, Transfer.step, nextFree, hcase]⟩
  | fill slot =>
    exact ⟨.read (some 0), trivial, rfl,
      by simp [CopyGet.step, CopyGet.read, Transfer.step, fill, hcase]⟩
  | push last =>
    refine ⟨.move .push, trivial, rfl, ?_⟩
    simp only [CopyGet.step, CopyGet.onRing, Move.label, Transfer.step, Transfer.push, hcase]
    split_ifs <;> rfl
  | pushWait last => exact absurd ⟨last, hcase⟩ hb
  | done =>
    exact ⟨.move .done, trivial, rfl,
      by simp [CopyGet.step, CopyGet.onRing, Move.label, Transfer.step, Transfer.done, hcase]⟩
  | finished => exact absurd hcase hp

lemma quiet_step (env : Env) (h : Good disk q job c) :
    ∃ l, Quiet (.running job c) l ∧ cost l = 0 ∧ (step env (.running job c) l).isSome = true := by
  rcases h.ring.progress with ⟨hp, null, hc⟩ | ⟨hp, hb⟩ | ⟨hw, hf⟩
  · exact ⟨.conclude, trivial, rfl, by simp [CopyGet.step, hp, hc]⟩
  · exact producer_step env job hp hb
  · cases hcase : c.ring.consumer with
    | pop =>
      refine ⟨.move .pop, trivial, rfl, ?_⟩
      simp only [CopyGet.step, CopyGet.onRing, Move.label, Transfer.step, Transfer.pop, hcase]
      split_ifs <;> rfl
    | popWait => exact absurd hcase hw
    | use slot =>
      refine ⟨.write (some (c.ring.m_buffer slot).data.length), ?_, rfl, ?_⟩
      · simp [Quiet, inHand, hcase]
      · have hsize := h.sizes _ (h.use_mem hcase)
        have hnn : ¬ (c.ring.m_buffer slot).size < 0 := by omega
        simp [CopyGet.step, CopyGet.write, h.killed, hcase, hnn, Transfer.step, Transfer.use]
    | used slot =>
      exact ⟨.unpop, trivial, rfl,
        by simp [CopyGet.step, CopyGet.onRing, h.result, Transfer.step, Transfer.unpop, hcase]⟩
    | failed slot =>
      have := h.ring.isErr.mpr (Or.inl ⟨slot, hcase⟩)
      simp [h.isErr] at this
    | finished null => exact absurd ⟨null, hcase⟩ hf

lemma Good.whole (h : Good disk q job c) (hp : c.ring.producer = .finished)
    (hc : c.ring.consumer.Finished) : c.disk.kindAt q = some (.file job.content) := by
  obtain ⟨base, hend, htake⟩ := h.stored
  obtain ⟨null, hc⟩ := hc
  cases null with
  | false =>
    have := h.ring.isErr.mpr (Or.inr hc)
    simp [h.isErr] at this
  | true =>
    have hstream : stream c.ring = c.ring.used := by
      simp [stream, pending, hp, h.ring.used_eq_pushed hc]
    rw [hstream, List.take_of_length_le (h.ended (by simp [hp, Producer.ending]))] at htake
    rw [← h.named, ← htake]
    exact hend.1

/-- What the caller provides: the source, a destination that is absent or a file that may be
replaced, and a partial file with the start of the source, if any. -/
structure Ready (disk : Store String) (remote : Store SMBUrl) (ksrc kdst : SMBUrl)
    (flags : JobFlags) (content : List UInt8) : Prop where
  name : kdst.namesFile = true
  Resume : flags.Resume = false
  source : remote.content ksrc = some content
  dest : disk.kindAt kdst.path = none ∨
    (∃ data, disk.kindAt kdst.path = some (.file data)) ∧ flags.Overwrite = true
  part : disk.kindAt kdst.partUrl.path = none ∨
    ∃ pre, disk.kindAt kdst.partUrl.path = some (.file pre) ∧ pre <+: content

lemma openOutput_good (disk : Store String) (kdst : SMBUrl) (hs : Succeeds env)
    {content : List UInt8} (hresumed : resume.resuming = true →
      ∃ pre, disk.kindAt resume.destination.path = some (.file pre) ∧ pre <+: content ∧
        resume.destinationOffset = pre.length) (hnew : disk.kindAt resume.destination.path = none ∨
      ∃ data, disk.kindAt resume.destination.path = some (.file data)) :
    ∃ t file, openOutput env disk resume kdst = .ok (t, file) ∧
      file.path = resume.destination.path ∧
      (∀ p, p ≠ resume.destination.path → t p = disk p) ∧
      t.AtEnd file
        (content.take (if resume.resuming then resume.destinationOffset.toNat else 0)) := by
  have hlink : disk.linkAt resume.destination.path = none := by
    rcases hnew with h | ⟨data, h⟩
    · exact Store.linkAt_none h
    · exact Store.linkAt_file h
  have htarget := Store.target_of_linkAt hlink
  cases hr : resume.resuming with
  | true =>
    obtain ⟨pre, hpre, hprefix, hoffset⟩ := hresumed hr
    refine ⟨disk, ⟨resume.destination.path, pre.length⟩, ?_, rfl, fun _ _ => rfl, ?_⟩
    · simp [openOutput, hs.openFile, hr, Store.openExisting_of_file htarget hpre, hpre, Kind.size]
    · rw [if_pos rfl, hoffset, Int.toNat_natCast, ← List.prefix_iff_eq_take.mp hprefix]
      exact ⟨hpre, rfl⟩
  | false =>
    obtain ⟨t, hopen, hend, hframe⟩ := Store.openTruncate_atEnd env.fresh htarget hnew
    refine ⟨t, ⟨resume.destination.path, 0⟩, ?_, rfl, hframe, by simpa using hend⟩
    simp [openOutput, hs.openFile, hr, hopen]

lemma Ready.fresh_kind {content : List UInt8} (h : Ready disk remote ksrc kdst flags content)
    (hfresh : Fresh ( QFileResumeIO env.calls) env.MarkPartial env.canResume disk kdst resume) :
    (resume.resuming = true →
      ∃ pre, disk.kindAt resume.destination.path = some (.file pre) ∧ pre <+: content ∧
        resume.destinationOffset = pre.length) ∧
      (disk.kindAt resume.destination.path = none ∨
        ∃ data, disk.kindAt resume.destination.path = some (.file data)) := by
  constructor
  · intro hr
    obtain ⟨hM, hexists, -, hoffset⟩ := hfresh.resuming hr
    rw [(hfresh.marked hM).1]
    rcases h.part with hnone | ⟨pre, hpre, hprefix⟩
    · have hstat := Store.stat_of_linkAt (Store.linkAt_none hnone)
      simp [ QFileResumeIO, hstat, Store.kindAt_eq_none.mp hnone] at hexists
    · obtain ⟨a, ha⟩ := Store.kindAt_eq_some.mp hpre
      have hstat := Store.stat_of_linkAt (Store.linkAt_file hpre)
      refine ⟨pre, hpre, hprefix, ?_⟩
      rw [hoffset]
      simp [ QFileResumeIO, hstat, ha, Kind.size]
  · cases hM : env.MarkPartial with
    | true =>
      rw [(hfresh.marked hM).1]
      exact h.part.imp_right fun hpart => hpart.imp fun _ hpre => hpre.1
    | false =>
      rw [(hfresh.unmarked hM).1]
      exact h.dest.imp_right And.left

lemma start_good (hs : Succeeds env) {content : List UInt8}
    (h : Ready disk remote ksrc kdst flags content) (permissions : ℤ) :
    ∃ job c, start env disk remote ksrc kdst permissions flags = .running job c ∧
      job.content = content ∧
      Fresh ( QFileResumeIO env.calls) env.MarkPartial env.canResume disk kdst job.resume ∧
      Good disk job.resume.destination.path job c ∧ c.ring = init ⟨0, []⟩ := by
  obtain ⟨a, hsource⟩ := Store.content_eq_some.mp h.source
  have hdest : disk.stat kdst.path = none ∨
      ∃ data a, disk.stat kdst.path = some ⟨.file data, a⟩ ∧ flags.Overwrite = true := by
    rcases h.dest with hnone | ⟨⟨data, hfile⟩, hO⟩
    · exact Or.inl ((Store.stat_of_linkAt (Store.linkAt_none hnone)).trans
        (Store.kindAt_eq_none.mp hnone))
    · obtain ⟨a, ha⟩ := Store.kindAt_eq_some.mp hfile
      exact Or.inr ⟨data, a, (Store.stat_of_linkAt (Store.linkAt_file hfile)).trans ha, hO⟩
  have hov : ( QFileResumeIO env.calls).exists_ disk kdst = true → flags.Overwrite = true := by
    rcases hdest with hstat | ⟨data, a, -, hO⟩
    · simp [ QFileResumeIO, hstat]
    · exact fun _ => hO
  obtain ⟨resume, hresume⟩ := shouldResume_ok ( QFileResumeIO env.calls) env.MarkPartial
    env.canResume h.Resume hov
  have hfresh := shouldResume_fresh h.Resume hresume
  obtain ⟨h1, h2⟩ := h.fresh_kind hfresh
  have hlink : disk.linkAt resume.destination.path = none := by
    rcases h2 with hnone | ⟨data, hfile⟩
    · exact Store.linkAt_none hnone
    · exact Store.linkAt_file hfile
  have hkind := prepared_kindAt env disk resume permissions
  obtain ⟨t, file, hopen, hn, hother, hend⟩ := openOutput_good
    (prepared env disk resume permissions) kdst hs
    (by simpa only [hkind] using h1) (by simpa only [hkind] using h2)
  have hopenSource : openSource env remote ksrc resume = .ok (content, a.mtime) := by
    simp [openSource, hs.stat, hsource, Kind.isDir, hs.smbc_open, hs.smbc_lseek, Kind.data]
  have hopen' : openOutput env (if resume.resuming then disk
      else setPermissions env disk resume.destination.path permissions) resume kdst =
      .ok (t, file) := hopen
  refine ⟨⟨resume, ksrc, kdst, content, a.mtime⟩, ⟨init ⟨0, []⟩,
    if resume.resuming then resume.destinationOffset.toNat else 0, t, file,
    if resume.resuming then resume.destinationOffset.toNat else 0, .pass, none, false⟩, ?_, rfl,
    hfresh, ⟨init_inv _, rfl, rfl, rfl, rfl, hn, fun p hp => ?_,
      ⟨_, by simpa [bytes, init] using hend, by simp [bytes, stream, pending, init]⟩,
      by simp [stream, pending, init], by simp [init, Producer.ending]⟩, rfl⟩
  · rcases hdest with hstat | ⟨data, a, hstat, hO⟩
    · simp [start, hstat, hresume, hopen', hopenSource]
    · simp [start, hstat, Kind.isDir, hO, hresume, hopen', hopenSource]
  · refine (hother p hp).trans (prepared_ne ?_)
    rw [Store.target_of_linkAt hlink]
    exact fun heq => hp (Option.some.inj heq).symm

lemma finish_complete (hs : Succeeds env) {content : List UInt8}
    (h : Ready disk remote ksrc kdst flags content) {io : ResumeIO String}
    (hfresh : Fresh io env.MarkPartial env.canResume disk kdst job.resume)
    (hcontent : job.content = content) (hgood : Good disk job.resume.destination.path job c)
    (hp : c.ring.producer = .finished) (hc : c.ring.consumer.Finished) :
    Complete env.MarkPartial disk kdst.path kdst.partUrl.path content (finish env job c) := by
  have hne : kdst.partUrl ≠ kdst := SMBUrl.partUrl_ne h.name
  have hpath : kdst.partUrl.path ≠ kdst.path := by
    rw [SMBUrl.partUrl_path h.name]
    exact partName_ne _
  have hkind := (setMTime_kindAt env c.disk c.file job.sourceMTime _).trans (hgood.whole hp hc)
  have hother : ∀ p, p ≠ job.resume.destination.path →
      (setMTime env c.disk c.file job.sourceMTime).kindAt p = disk.kindAt p :=
    fun p hp => (setMTime_kindAt _ _ _ _ _).trans (Store.kindAt_of_eq (hgood.other p hp))
  rw [hcontent] at hkind
  cases hM : env.MarkPartial with
  | false =>
    obtain ⟨hdest, -⟩ := hfresh.unmarked hM
    have hplace : job.resume.destination = job.resume.completeDestination := by
      rw [hdest, hfresh.complete]
    rw [hdest] at hkind hother
    simp only [finish, hgood.result, hgood.readResult, hs.flush, conclude_in_place _ _ _ _ hplace]
    exact ⟨rfl, Store.content_of_file hkind, hother _ hpath⟩
  | true =>
    obtain ⟨hdest, hpart⟩ := hfresh.marked hM
    have hne' : job.resume.destination ≠ job.resume.completeDestination := by
      rw [hdest, hfresh.complete]
      exact hne
    rw [hdest] at hkind hother
    have hdir : (setMTime env c.disk c.file job.sourceMTime).kindAt kdst.path ≠ some .dir := by
      rw [hother _ hpath.symm]
      rcases h.dest with hnone | ⟨⟨old, hold⟩, -⟩
      · simp [hnone]
      · simp [hold]
    obtain ⟨t, heq, h1, h2⟩ := QFile_renameTo_moves hpath hkind hdir hs.removeDest hs.rename
    have hleft := conclude_renamed env.DEFAULT_MINIMUM_KEEP_SIZE hne'
      (by rw [hpart, hfresh.complete]; exact heq)
    simp only [finish, hgood.result, hgood.readResult, hs.flush, WorkerResult.success_pass,
      Bool.not_true, Bool.false_eq_true, if_false, hleft]
    exact ⟨rfl, Store.content_of_file h1, h2⟩

/-- The state of the threads, or what was returned, as long as nothing fails. -/
def GoodPhase (env : Env) (disk : Store String) (job : Job) : Phase → Prop
  | .running job' c => job' = job ∧ Good disk job.resume.destination.path job c
  | .returned left => ∃ c, Good disk job.resume.destination.path job c ∧
      c.ring.producer = .finished ∧ c.ring.consumer.Finished ∧ left = finish env job c

lemma goodPhase_step {p' : Phase} (h : GoodPhase env disk job p) (hq : Quiet p l)
    (hs : step env p l = some p') : GoodPhase env disk job p' := by
  cases p with
  | returned left => simp [CopyGet.step] at hs
  | running job1 c =>
    obtain ⟨rfl, hgood⟩ := h
    cases p' with
    | running job2 c' => exact ⟨(step_running hs).1, hgood.step hq hs⟩
    | returned left =>
      obtain ⟨-, hp, hc, hleft⟩ := step_returned hs
      exact ⟨c, hgood, hp, hc, hleft⟩

/-- **A run in which nothing fails** is no longer than a bound, apart from the steps that waking
up for no reason adds, can go on until it returns, and then the copy is complete. -/
theorem quiet_run (hs : Succeeds env) {content : List UInt8}
    (h : Ready disk remote ksrc kdst flags content) {ls : List Label}
    (hquiet : AllSteps (step env) Quiet (start env disk remote ksrc kdst permissions flags) ls)
    (hrun : run (step env) (start env disk remote ksrc kdst permissions flags) ls = some p) :
    ls.length ≤ 17 * content.length + 24 + 2 * wakes ls ∧
      ((∃ l, Quiet p l ∧ cost l = 0 ∧ (step env p l).isSome = true) ∨
        ∃ left, p = .returned left ∧
          Complete env.MarkPartial disk kdst.path kdst.partUrl.path content left) := by
  obtain ⟨job, c, hstart, hcontent, hfresh, hgood, hring⟩ := start_good hs h permissions
  rw [hstart] at hquiet hrun
  have hbound : rest (.running job c) ≤ 17 * content.length + 24 := by
    simp only [rest, ringRest, hgood.killed, hring, hcontent, init, producerRest, consumerRest,
      toPush, Bool.false_eq_true, if_false, List.length_nil]
    omega
  have hlength := run_length (p := .running job c) hgood.ring hrun
  refine ⟨by omega, ?_⟩
  have hphase : GoodPhase env disk job p :=
    run_inv (I := GoodPhase env disk job) (fun s l t hi hq hst => goodPhase_step hi hq hst) hquiet
      ⟨rfl, hgood⟩ hrun
  cases p with
  | running job' c' =>
    obtain ⟨rfl, hgood'⟩ := hphase
    exact Or.inl (quiet_step env hgood')
  | returned left =>
    obtain ⟨c', hgood', hp, hc, rfl⟩ := hphase
    exact Or.inr ⟨_, rfl, finish_complete hs h hfresh hcontent hgood' hp hc⟩

lemma running_step (env : Env) (job : Job) (hi : Inv c.ring) :
    ∃ l, l ≠ .kill ∧ cost l = 0 ∧ (step env (.running job c) l).isSome = true := by
  rcases hi.progress with ⟨hp, null, hc⟩ | ⟨hp, hb⟩ | ⟨hw, hf⟩
  · exact ⟨.conclude, by simp, rfl, by simp [CopyGet.step, hp, hc]⟩
  · obtain ⟨l, hq, hcost, hs⟩ := producer_step env job hp hb
    refine ⟨l, ?_, hcost, hs⟩
    rintro rfl
    exact hq
  · cases hcase : c.ring.consumer with
    | pop =>
      refine ⟨.move .pop, by simp, rfl, ?_⟩
      simp only [CopyGet.step, CopyGet.onRing, Move.label, Transfer.step, Transfer.pop, hcase]
      split_ifs <;> rfl
    | popWait => exact absurd hcase hw
    | use slot =>
      cases hk : c.killed with
      | true =>
        exact ⟨.skip, by simp, rfl,
          by simp [CopyGet.step, CopyGet.onRing, hk, hcase, Transfer.step, Transfer.use]⟩
      | false =>
        exact ⟨.write none, by simp, rfl,
          by simp [CopyGet.step, CopyGet.write, hk, hcase, Transfer.step, Transfer.use]⟩
    | used slot =>
      cases hr : c.result.success with
      | true =>
        exact ⟨.unpop, by simp, rfl,
          by simp [CopyGet.step, CopyGet.onRing, hr, hcase, Transfer.step, Transfer.unpop]⟩
      | false =>
        exact ⟨.setErr, by simp, rfl,
          by simp [CopyGet.step, CopyGet.onRing, hr, hcase, Transfer.step, Transfer.setErr]⟩
    | failed slot =>
      have herr := hi.isErr.mpr (Or.inl ⟨slot, hcase⟩)
      exact ⟨.unpop, by simp, rfl,
        by simp [CopyGet.step, CopyGet.onRing, herr, hcase, Transfer.step, Transfer.unpop]⟩
    | finished null => exact absurd ⟨null, hcase⟩ hf

/-- **The copy always returns**, whatever fails and whenever it is killed: no run is longer than a
bound, apart from the steps that waking up for no reason adds, and none gets stuck before. -/
theorem copyGet_returns (env : Env) (disk : Store String) (remote : Store SMBUrl)
    (ksrc kdst : SMBUrl) (permissions : ℤ) (flags : JobFlags) : ∃ N, ∀ ls p,
      run (step env) (start env disk remote ksrc kdst permissions flags) ls = some p →
        ls.length ≤ N + 2 * wakes ls ∧ ((∃ left, p = .returned left) ∨
          ∃ l, l ≠ .kill ∧ cost l = 0 ∧ (step env p l).isSome = true) := by
  have hi : RingInv (start env disk remote ksrc kdst permissions flags) := by
    unfold start
    simp only
    split_ifs
    · trivial
    · trivial
    split
    · trivial
    split
    · trivial
    split
    · trivial
    · exact init_inv _
  refine ⟨_, fun ls p hrun => ⟨run_length hi hrun, ?_⟩⟩
  have hinv : RingInv p := Reaches.inv (fun s l t h hs => ringInv_step h hs) hi ⟨ls, hrun⟩
  cases p with
  | returned left => exact Or.inl ⟨left, rfl⟩
  | running job c => exact Or.inr (running_step env job hinv)

end complete

end KioExtras.Smb.CopyGet
