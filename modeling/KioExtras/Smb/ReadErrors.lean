import KioExtras.Smb.Copy

/-!
Reads that fail. The size that `smbc_read` returns goes into the segment, and the segment is pushed
before anyone looks at the size; what the writing loop then gets from `pop()` has a negative size.
Both functions with a reader thread do so: `smbCopyGet`, which writes a file, and `get`, which
sends the data to the application.
-/

namespace KioExtras.Smb.ReadErrors

open KioExtras.Kio KioExtras.Lib.Run KioExtras.Lib.FileStore
open KioExtras.Smb.Transfer hiding step Label
open KioExtras.Smb.CopyGet KioExtras.Smb.Resume

/-- A failed read ends as it should: with its error, after nothing but bytes that were read. -/
structure EndsRight (result : WorkerResult) (passed : List (ℤ × List UInt8)) : Prop where
  result : ∃ text, result = .fail .ERR_CANNOT_READ text
  sizes : ∀ block ∈ passed, 0 < block.1 ∧ block.1 = block.2.length

/-- The result of `smbc_read` was an error. -/
def Failed (s : Segment) : Prop := s.size < 0

variable {α : Type*}

/-- A segment that is filled is used by the time that both threads have left, unless the writing
loop gave up. -/
lemma used_of_filled {r : Transfer.Ring α} {P : α → Prop} (h : Inv r) (hp : r.producer = .finished)
    (hc : r.consumer.Finished) (hfilled : ∃ a ∈ stream r, P a) :
    (∃ a ∈ r.used, P a) ∨ r.isErr = true := by
  obtain ⟨null, hnull⟩ := hc
  cases null with
  | true =>
    rw [stream, pending, hp, List.append_nil, ← h.used_eq_pushed hnull] at hfilled
    exact Or.inl hfilled
  | false => exact Or.inr (h.isErr.mpr (Or.inr hnull))

lemma filled_step {r r' : Transfer.Ring α} {P : α → Prop} {l : Transfer.Label α} (h : Inv r)
    (hs : Transfer.step r l = some r') (hfilled : ∃ a ∈ stream r, P a) : ∃ a ∈ stream r', P a := by
  obtain ⟨a, ha, hP⟩ := hfilled
  rw [step_stream h hs]
  exact ⟨a, List.mem_append_left _ ha, hP⟩

/-! ### The copy to the disk -/

section copy

variable {env : CopyGet.Env} {p p' : Phase} {job : Job} {c : Copy} {l : Label}

def writes (c : Copy) : List (ℤ × List UInt8) := c.ring.used.map fun s => (s.size, s.data)

/-- The writing loop has a failed segment from `pop()`. -/
def failedInHand : Phase → Bool
  | .running _ c =>
    match c.ring.consumer with
    | .use slot => (c.ring.m_buffer slot).size < 0
    | _ => false
  | .returned _ => false

/-- Nobody kills the worker, and a write fails only for a segment of negative size, which no file
takes. -/
def Writes (p : Phase) (l : Label) : Prop :=
  l ≠ .kill ∧ (l = .write none → failedInHand p = true)

instance (p : Phase) (l : Label) : Decidable (Writes p l) :=
  inferInstanceAs (Decidable (_ ∧ (_ → _)))

/-- The writing loop has failed just if it has used a failed segment. -/
structure Writing (job : Job) (c : Copy) : Prop where
  ring : Inv c.ring
  killed : c.killed = false
  result : c.result = .pass ∨ c.result = .fail .ERR_CANNOT_WRITE job.kdst.toDisplayString
  failed : (∃ s ∈ c.ring.used, Failed s) ↔ c.result.success = false
  isErr : c.ring.isErr = true → c.result.success = false

def WritingPhase : Phase → Prop
  | .running job c => Writing job c
  | .returned _ => True

def ReadFailed : Phase → Prop
  | .running _ c => ∃ s ∈ stream c.ring, Failed s
  | .returned _ => True

lemma writing_step (h : WritingPhase p) (hl : Writes p l) (hs : step env p l = some p') :
    WritingPhase p' := by
  cases p with
  | returned left => exact nomatch hs
  | running job c =>
    cases p' with
    | returned left => trivial
    | running job' c' =>
      obtain ⟨rfl, heffect, hring⟩ := step_running hs
      -- a move of the ring buffer that uses no segment and sets no flag
      have hplain : ∀ rl, rl ≠ .use → rl ≠ .setErr → Transfer.step c.ring rl = some c'.ring →
          c'.killed = c.killed → c'.result = c.result → Writing job' c' := by
        intro rl huse herr hrl hkilled hresult
        refine ⟨step_inv rl h.ring hrl, hkilled.trans h.killed, hresult ▸ h.result, ?_, ?_⟩
        · rw [step_used huse hrl, hresult]
          exact h.failed
        · rw [step_isErr herr hrl, hresult]
          exact h.isErr
      cases heffect with
      | kill hk heq => exact absurd rfl hl.1
      | move m heq =>
        have huse : m.label ≠ .use := by cases m <;> simp [Move.label]
        have herr : m.label ≠ .setErr := by cases m <;> simp [Move.label]
        apply hplain m.label huse herr hring <;> rw [heq]
      | poll heq => apply hplain (.poll !c.killed) (by simp) (by simp) hring <;> rw [heq]
      | read n heq => apply hplain (.fill _ _) (by simp) (by simp) hring <;> rw [heq]
      | skip hk heq => exact absurd hk (by rw [h.killed]; exact Bool.false_ne_true)
      | failed hk heq =>
        obtain ⟨slot, hslot, hused⟩ := use_some hring
        have hfailed : Failed (c.ring.m_buffer slot) := by
          have hhand := hl.2 rfl
          simp only [failedInHand, hslot, decide_eq_true_eq] at hhand
          exact hhand
        have hresult : c'.result = .fail .ERR_CANNOT_WRITE job'.kdst.toDisplayString := by rw [heq]
        have hkilled : c'.killed = c.killed := by rw [heq]
        refine ⟨step_inv .use h.ring hring, hkilled.trans h.killed, Or.inr hresult, ?_, ?_⟩
        · rw [hresult, hused]
          exact iff_of_true ⟨_, List.mem_append_right _ (List.mem_singleton_self _), hfailed⟩ rfl
        · rw [hresult]
          exact fun _ => rfl
      | write n slot hk hslot hsize heq =>
        obtain ⟨slot', hslot', hused⟩ := use_some hring
        obtain rfl : slot = slot' := by
          rw [hslot] at hslot'
          exact Consumer.use.inj hslot'
        have hresult : c'.result = c.result := by rw [heq]
        have hkilled : c'.killed = c.killed := by rw [heq]
        refine ⟨step_inv .use h.ring hring, hkilled.trans h.killed, hresult ▸ h.result, ?_, ?_⟩
        · rw [hresult, ← h.failed, hused]
          constructor
          · rintro ⟨s, hs, hfailed⟩
            rcases List.mem_append.mp hs with hs | hs
            · exact ⟨s, hs, hfailed⟩
            · rw [List.mem_singleton.mp hs] at hfailed
              exact absurd hsize (Int.not_le.mpr hfailed)
          · rintro ⟨s, hs, hfailed⟩
            exact ⟨s, List.mem_append_left _ hs, hfailed⟩
        · rw [hresult, step_isErr (l := .use) (by simp) hring]
          exact h.isErr
      | setErr hr heq =>
        have hresult : c'.result = c.result := by rw [heq]
        have hkilled : c'.killed = c.killed := by rw [heq]
        refine ⟨step_inv .setErr h.ring hring, hkilled.trans h.killed, hresult ▸ h.result, ?_, ?_⟩
        · rw [hresult, step_used (l := .setErr) (by simp) hring]
          exact h.failed
        · rw [hresult]
          exact fun _ => hr
      | unpop hr heq => apply hplain .unpop (by simp) (by simp) hring <;> rw [heq]

lemma readFailed_step (h : WritingPhase p) (hfailed : ReadFailed p)
    (hs : step env p l = some p') : ReadFailed p' := by
  cases p with
  | returned left => exact nomatch hs
  | running job c =>
    cases p' with
    | returned left => trivial
    | running job' c' =>
      obtain ⟨-, -, hring⟩ := step_running hs
      split at hring
      · exact filled_step h.ring hring hfailed
      · exact (show ∃ s ∈ stream c'.ring, _ from hring ▸ hfailed)

lemma read_fails (h : WritingPhase p) (hs : step env p (.read none) = some p') : ReadFailed p' := by
  cases p with
  | returned left => exact nomatch hs
  | running job c =>
    cases p' with
    | returned left => trivial
    | running job' c' =>
      obtain ⟨-, -, hring⟩ := step_running hs
      have hstream := step_stream h.ring hring
      refine ⟨⟨-1, []⟩, ?_, show (-1 : ℤ) < 0 by decide⟩
      rw [hstream]
      exact List.mem_append_right _ (List.mem_singleton_self _)

variable {disk : Store String} {flags : JobFlags} {kdst ksrc : SMBUrl} {permissions : ℤ}
  {remote : Store SMBUrl}

lemma start_fresh (h : start env disk remote ksrc kdst permissions flags = .running job c) :
    c.ring = init ⟨0, []⟩ ∧ c.result = .pass ∧ c.killed = false := by
  unfold start at h
  dsimp only at h
  split at h
  · cases h
  split at h
  · cases h
  split at h
  · cases h
  split at h
  · cases h
  split at h
  · cases h
  obtain ⟨-, rfl⟩ := CopyGet.Phase.running.inj h
  exact ⟨rfl, rfl, rfl⟩

lemma conclude_result {P : Type*} (io : ResumeIO P) (keep : ℕ) (store : Store P)
    {result : WorkerResult} (resume : TransferContext) (h : result.success = false) :
    (concludeResumeHasError io keep store result resume).result = result := by
  unfold concludeResumeHasError
  rw [h, Bool.not_false, if_pos rfl]
  split
  · rfl
  · split <;> rfl

lemma finish_failed (env : CopyGet.Env) (job : Job) {c : Copy} (h : c.result.success = false) :
    (CopyGet.finish env job c).result = c.result := by
  unfold CopyGet.finish
  simp only [h, Bool.not_false, if_true]
  exact conclude_result _ _ _ _ h

/-- **A failed read in a copy** is reported as a failed write. -/
lemma copy_reports_write {ls : List Label} {left : Left String}
    (hsteps : AllSteps (step env) Writes (start env disk remote ksrc kdst permissions flags) ls)
    (hread : .read none ∈ ls)
    (hrun : run (step env) (start env disk remote ksrc kdst permissions flags) ls =
      some (.running job c)) (hend : step env (.running job c) .conclude = some (.returned left)) :
    left.result = .fail .ERR_CANNOT_WRITE job.kdst.toDisplayString ∧
      ∃ s ∈ c.ring.used, Failed s := by
  have hstart : WritingPhase (start env disk remote ksrc kdst permissions flags) := by
    cases heq : start env disk remote ksrc kdst permissions flags with
    | returned left => trivial
    | running job c =>
      obtain ⟨hring, hresult, hkilled⟩ := start_fresh heq
      refine ⟨hring ▸ init_inv _, hkilled, Or.inl hresult, ?_, ?_⟩
      · rw [hring, hresult]
        exact iff_of_false (fun ⟨s, hs, _⟩ => nomatch hs) (by simp)
      · rw [hring]
        exact fun h => nomatch h
  obtain ⟨before, after, rfl⟩ := List.append_of_mem hread
  rw [run_append, Option.bind_eq_some_iff] at hrun
  obtain ⟨p1, h1, h2⟩ := hrun
  obtain ⟨p2, hfail, h3⟩ := run_cons_some (step env) h2
  obtain ⟨hbefore, hafter⟩ := allSteps_append hsteps h1
  have hp1 : WritingPhase p1 :=
    run_inv (fun _ _ _ h hl hs => writing_step h hl hs) hbefore hstart h1
  have hp2 := writing_step hp1 hafter.1 hfail
  obtain ⟨hwriting, hfailed⟩ : WritingPhase (.running job c) ∧ ReadFailed (.running job c) := by
    apply run_inv (I := fun p => WritingPhase p ∧ ReadFailed p) _ (hafter.2 p2 hfail)
      ⟨hp2, read_fails hp1 hfail⟩ h3
    rintro p l p' ⟨hp, hf⟩ hl hs
    exact ⟨writing_step hp hl hs, readFailed_step hp hf hs⟩
  obtain ⟨-, hp, hc, rfl⟩ := step_returned hend
  have hsuccess : c.result.success = false := by
    rcases used_of_filled hwriting.ring hp hc hfailed with hused | herr
    · exact hwriting.failed.mp hused
    · exact hwriting.isErr herr
  refine ⟨?_, hwriting.failed.mpr hsuccess⟩
  rw [finish_failed env job hsuccess]
  rcases hwriting.result with hpass | hfail
  · rw [hpass] at hsuccess
    exact nomatch hsuccess
  · exact hfail

end copy

/-! ### `SMBWorker::get` -/

namespace Get

/-- What the worker sends to the application. The size of a block of data is the one that it is
made with. -/
inductive Message
  | totalSize (size : ℤ)
  | mimeType (name : String)
  | data (size : ℤ) (bytes : List UInt8)
  | processedSize (bytes : ℕ)

structure Env where
  checkURL : SMBUrl → SMBUrl
  isValid : Bool
  cache_stat : Option Errno
  smbc_open : Bool
  mimeTypeForFileNameAndData : List Char → ℤ → List UInt8 → String

/-- The source, once it is open; `st_size` is what was stated before. -/
structure Source where
  url : SMBUrl
  content : List UInt8
  st_size : ℕ

structure State where
  ring : Transfer.Ring Segment
  offset : ℕ
  totalbytesread : ℕ
  isFirstPacket : Bool
  sent : List Message
  readResult : Option Error
  killed : Bool

inductive Phase
  | running (source : Source) (g : State)
  | returned (result : WorkerResult) (sent : List Message)

/-- Everything up to the start of the reader thread. -/
def start (env : Env) (remote : Store SMBUrl) (kurl : SMBUrl) : Phase :=
  if env.checkURL kurl ≠ kurl then .returned .pass []
  else if env.isValid = false then
    .returned (.fail .ERR_INTERNAL "libsmbclient failed to create context") []
  else
    match env.cache_stat, remote.stat kurl with
    | some .EACCES, _ => .returned (.fail .ERR_ACCESS_DENIED kurl.toDisplayString) []
    | some _, _ | none, none => .returned (.fail .ERR_DOES_NOT_EXIST kurl.toDisplayString) []
    | none, some st =>
      if st.kind.isDir then .returned (.fail .ERR_IS_DIRECTORY kurl.toDisplayString) []
      else
        let sent : List Message := [.totalSize st.kind.size]
        if env.smbc_open = false then
          .returned (.fail .ERR_CANNOT_OPEN_FOR_READING kurl.toDisplayString) sent
        else
          .running ⟨kurl, st.kind.data.getD [], st.kind.size⟩
            ⟨init ⟨0, []⟩, 0, 0, true, sent, none, false⟩

/-- The moves of the threads. They are those of the copy, apart from the delivery of a segment,
and from `isErr`, which is not there: the reader thread goes on for ever. -/
inductive Label
  | kill
  | move (m : Move)
  | poll
  | read (n : Option ℕ)
  | skip
  | deliver
  | unpop
  | conclude
  deriving DecidableEq

def capacity (source : Source) : ℕ :=
  (max c_minSegmentSize (segmentSizeForFileSize source.st_size)).toNat

/-- What `smbc_read` returns and puts into the segment: at most `n + 1` bytes, or an error. -/
def readSegment (source : Source) (offset : ℕ) : Option ℕ → Segment
  | none => ⟨-1, []⟩
  | some n =>
    let data := (source.content.drop offset).take (min (n + 1) (capacity source))
    ⟨data.length, data⟩

def onRing (g : State) (l : Transfer.Label Segment) : Option State :=
  (Transfer.step g.ring l).map fun ring => { g with ring := ring }

def read (source : Source) (n : Option ℕ) (g : State) : Option State :=
  let segment := readSegment source g.offset n
  (Transfer.step g.ring (.fill segment (decide (segment.size ≤ 0)))).map fun ring =>
    { g with
      ring := ring
      offset := g.offset + segment.data.length
      readResult := if segment.size < 0 then some .ERR_CANNOT_READ else none }

/-- The mimetype with the first segment, then the data; `KIO::filesize_t` has 64 bits. -/
def deliver (env : Env) (source : Source) (g : State) : Option State :=
  match g.ring.consumer with
  | .use slot =>
    let s := g.ring.m_buffer slot
    let totalbytesread := ((g.totalbytesread + s.size) % 18446744073709551616).toNat
    let type := env.mimeTypeForFileNameAndData source.url.fileName s.size s.data
    (Transfer.step g.ring .use).map fun ring =>
      { g with
        ring := ring
        totalbytesread := totalbytesread
        isFirstPacket := false
        sent := g.sent ++ (if g.isFirstPacket then [.mimeType type] else []) ++
          [.data s.size s.data, .processedSize totalbytesread] }
  | _ => none

/-- After the threads are joined: the end of the data, unless something failed. -/
def finish (source : Source) (g : State) : WorkerResult × List Message :=
  if g.killed then (.pass, g.sent)
  else
    match g.readResult with
    | some readResult => (.fail readResult source.url.toDisplayString, g.sent)
    | none => (.pass, g.sent ++ [.data 0 [], .processedSize source.st_size])

def step (env : Env) : Phase → Label → Option Phase
  | .returned _ _, _ => none
  | .running source g, .kill =>
    if g.killed then none else some (.running source { g with killed := true })
  | .running source g, .move m => (onRing g m.label).map (.running source)
  | .running source g, .poll => (onRing g (.poll !g.killed)).map (.running source)
  | .running source g, .read n => (read source n g).map (.running source)
  | .running source g, .skip =>
    if g.killed then (onRing g .use).map (.running source) else none
  | .running source g, .deliver =>
    if g.killed then none else (deliver env source g).map (.running source)
  | .running source g, .unpop => (onRing g .unpop).map (.running source)
  | .running source g, .conclude =>
    match g.ring.producer, g.ring.consumer with
    | .finished, .finished _ =>
      let (result, sent) := finish source g
      some (.returned result sent)
    | _, _ => none

/-- The data that was passed on, with the sizes that it was passed on with. -/
def blocks : List Message → List (ℤ × List UInt8)
  | [] => []
  | .data size bytes :: messages => (size, bytes) :: blocks messages
  | _ :: messages => blocks messages

lemma blocks_append (a b : List Message) : blocks (a ++ b) = blocks a ++ blocks b := by
  induction a with
  | nil => rfl
  | cons m a ih => cases m <;> simp [blocks, ih]

section

variable {env : Env} {p p' : Phase} {source : Source} {g : State} {l : Label}

def Alive (l : Label) : Prop := l ≠ .kill

instance : DecidablePred Alive := fun l => inferInstanceAs (Decidable (l ≠ .kill))

structure Sending (g : State) : Prop where
  ring : Inv g.ring
  isErr : g.ring.isErr = false
  killed : g.killed = false
  sent : ∀ s ∈ g.ring.used, (s.size, s.data) ∈ blocks g.sent

def SendingPhase : Phase → Prop
  | .running _ g => Sending g
  | .returned _ _ => True

def ReadFailed : Phase → Prop
  | .running _ g => ∃ s ∈ stream g.ring, Failed s
  | .returned _ _ => True

variable {g' : State}

lemma Sending.onRing {rl : Transfer.Label Segment} (h : Sending g) (huse : rl ≠ .use)
    (herr : rl ≠ .setErr) (hs : Transfer.step g.ring rl = some g'.ring)
    (hkilled : g'.killed = g.killed) (hsent : g'.sent = g.sent) : Sending g' := by
  refine ⟨step_inv rl h.ring hs, (step_isErr herr hs).trans h.isErr, hkilled.trans h.killed, ?_⟩
  rw [step_used huse hs, hsent]
  exact h.sent

lemma Sending.deliver (h : Sending g) (hs : deliver env source g = some g') :
    Sending g' ∧ Transfer.step g.ring .use = some g'.ring := by
  unfold Get.deliver at hs
  split at hs
  · rename_i slot hslot
    obtain ⟨ring, hring, rfl⟩ := Option.map_eq_some_iff.mp hs
    obtain ⟨slot', hslot', hused⟩ := use_some hring
    obtain rfl : slot = slot' := by
      rw [hslot] at hslot'
      exact Consumer.use.inj hslot'
    refine ⟨⟨step_inv .use h.ring hring, (step_isErr (by simp) hring).trans h.isErr, h.killed, ?_⟩,
      hring⟩
    intro s hmem
    rw [hused] at hmem
    dsimp only
    rw [blocks_append, blocks_append]
    rcases List.mem_append.mp hmem with hmem | hmem
    · exact List.mem_append_left _ (List.mem_append_left _ (h.sent s hmem))
    · rw [List.mem_singleton.mp hmem]
      exact List.mem_append_right _ List.mem_cons_self
  · cases hs

lemma conclude_some (h : step env (.running source g) .conclude = some p') :
    g.ring.producer = .finished ∧ g.ring.consumer.Finished ∧
      p' = .returned (finish source g).1 (finish source g).2 := by
  simp only [step] at h
  split at h
  · rename_i null hp hc
    exact ⟨hp, ⟨null, hc⟩, (Option.some.inj h).symm⟩
  · cases h

lemma sending_step (h : SendingPhase p) (hl : Alive l) (hs : step env p l = some p') :
    SendingPhase p' ∧ (ReadFailed p → ReadFailed p') ∧ (l = .read none → ReadFailed p') := by
  cases p with
  | returned result sent => cases hs
  | running source g =>
    cases l with
    | kill => exact absurd rfl hl
    | move m =>
      obtain ⟨g', hg, rfl⟩ := Option.map_eq_some_iff.mp hs
      obtain ⟨ring, hring, rfl⟩ := Option.map_eq_some_iff.mp hg
      have huse : m.label ≠ .use := by cases m <;> simp [Move.label]
      have herr : m.label ≠ .setErr := by cases m <;> simp [Move.label]
      exact ⟨h.onRing huse herr hring rfl rfl, filled_step h.ring hring, by simp⟩
    | poll =>
      obtain ⟨g', hg, rfl⟩ := Option.map_eq_some_iff.mp hs
      obtain ⟨ring, hring, rfl⟩ := Option.map_eq_some_iff.mp hg
      refine ⟨h.onRing ?_ ?_ hring rfl rfl, filled_step h.ring hring, ?_⟩ <;> simp
    | read n =>
      obtain ⟨g', hg, rfl⟩ := Option.map_eq_some_iff.mp hs
      obtain ⟨ring, hring, rfl⟩ := Option.map_eq_some_iff.mp hg
      have hstream := step_stream h.ring hring
      refine ⟨h.onRing ?_ ?_ hring rfl rfl, filled_step h.ring hring, ?_⟩
      · simp
      · simp
      rintro ⟨⟩
      refine ⟨⟨-1, []⟩, ?_, show (-1 : ℤ) < 0 by decide⟩
      dsimp only
      rw [hstream]
      exact List.mem_append_right _ (List.mem_singleton_self _)
    | skip =>
      simp only [step, h.killed] at hs
      cases hs
    | deliver =>
      simp only [step, h.killed, Bool.false_eq_true, if_false] at hs
      obtain ⟨g', hg, rfl⟩ := Option.map_eq_some_iff.mp hs
      obtain ⟨hsend, hring⟩ := h.deliver hg
      exact ⟨hsend, filled_step h.ring hring, by simp⟩
    | unpop =>
      obtain ⟨g', hg, rfl⟩ := Option.map_eq_some_iff.mp hs
      obtain ⟨ring, hring, rfl⟩ := Option.map_eq_some_iff.mp hg
      refine ⟨h.onRing ?_ ?_ hring rfl rfl, filled_step h.ring hring, ?_⟩ <;> simp
    | conclude =>
      obtain ⟨-, -, rfl⟩ := conclude_some hs
      exact ⟨trivial, fun _ => trivial, by simp⟩

lemma start_sending (env : Env) (remote : Store SMBUrl) (kurl : SMBUrl) :
    SendingPhase (start env remote kurl) := by
  unfold start
  split
  · trivial
  split
  · trivial
  split
  · trivial
  · trivial
  · trivial
  · split
    · trivial
    dsimp only
    split
    · trivial
    · exact ⟨init_inv _, rfl, rfl, fun s hs => nomatch hs⟩

/-- **A failed read in `get`** sends a block of negative size. -/
lemma get_sends_negative {remote : Store SMBUrl} {kurl : SMBUrl} {ls : List Label}
    {result : WorkerResult} {sent : List Message}
    (hsteps : AllSteps (step env) (fun _ => Alive) (start env remote kurl) ls)
    (hread : .read none ∈ ls)
    (hrun : run (step env) (start env remote kurl) ls = some (.running source g))
    (hend : step env (.running source g) .conclude = some (.returned result sent)) :
    ∃ block ∈ blocks sent, block.1 < 0 := by
  obtain ⟨before, after, rfl⟩ := List.append_of_mem hread
  rw [run_append, Option.bind_eq_some_iff] at hrun
  obtain ⟨p1, h1, h2⟩ := hrun
  obtain ⟨p2, hfail, h3⟩ := run_cons_some (step env) h2
  obtain ⟨hbefore, hafter⟩ := allSteps_append hsteps h1
  have hp1 : SendingPhase p1 := run_inv (fun _ _ _ h hl hs => (sending_step h hl hs).1) hbefore
    (start_sending env remote kurl) h1
  obtain ⟨hp2, -, hfailed⟩ := sending_step hp1 hafter.1 hfail
  obtain ⟨hsend, hfailed⟩ : SendingPhase (.running source g) ∧ ReadFailed (.running source g) := by
    apply run_inv (I := fun p => SendingPhase p ∧ ReadFailed p) _ (hafter.2 p2 hfail)
      ⟨hp2, hfailed rfl⟩ h3
    rintro p l p' ⟨hp, hf⟩ hl hs
    obtain ⟨hp', hf', -⟩ := sending_step hp hl hs
    exact ⟨hp', hf' hf⟩
  obtain ⟨hp, hc, hend⟩ := conclude_some hend
  obtain ⟨-, rfl⟩ := Phase.returned.inj hend
  rcases used_of_filled hsend.ring hp hc hfailed with ⟨s, hs, hneg⟩ | herr
  · refine ⟨(s.size, s.data), ?_, hneg⟩
    have hmem := hsend.sent s hs
    unfold finish
    rw [hsend.killed, if_neg Bool.false_ne_true]
    split
    · exact hmem
    · dsimp only
      rw [blocks_append]
      exact List.mem_append_left _ hmem
  · rw [hsend.isErr] at herr
    exact nomatch herr

end

end Get

/-- **A failed read never ends right**: the copy reports a failed write, after it has passed a
negative size to the file, and `get` sends a block of negative size. -/
theorem read_error_never_right (copyEnv : CopyGet.Env) (getEnv : Get.Env) (remote : Store SMBUrl) :
    (∀ (disk : Store String) (ksrc kdst : SMBUrl) (permissions : ℤ) (flags : JobFlags)
      (ls : List CopyGet.Label) (job : Job) (c : Copy) (left : Left String),
      AllSteps (CopyGet.step copyEnv) Writes
        (CopyGet.start copyEnv disk remote ksrc kdst permissions flags) ls →
      .read none ∈ ls →
      run (CopyGet.step copyEnv)
        (CopyGet.start copyEnv disk remote ksrc kdst permissions flags) ls =
          some (.running job c) →
      CopyGet.step copyEnv (.running job c) .conclude = some (.returned left) →
      ¬ EndsRight left.result (writes c)) ∧
    ∀ (kurl : SMBUrl) (ls : List Get.Label) (source : Get.Source) (g : Get.State)
      (result : WorkerResult) (sent : List Get.Message),
      AllSteps (Get.step getEnv) (fun _ => Get.Alive) (Get.start getEnv remote kurl) ls →
      .read none ∈ ls →
      run (Get.step getEnv) (Get.start getEnv remote kurl) ls = some (.running source g) →
      Get.step getEnv (.running source g) .conclude = some (.returned result sent) →
      ¬ EndsRight result (Get.blocks sent) := by
  constructor
  · intro disk ksrc kdst permissions flags ls job c left hsteps hread hrun hend h
    obtain ⟨-, s, hs, hneg⟩ := copy_reports_write hsteps hread hrun hend
    have hpos := (h.sizes _ (List.mem_map_of_mem hs)).1
    exact absurd hpos (Int.not_lt.mpr (Int.le_of_lt hneg))
  · intro kurl ls source g result sent hsteps hread hrun hend h
    obtain ⟨block, hblock, hneg⟩ := Get.get_sends_negative hsteps hread hrun hend
    have hpos := (h.sizes block hblock).1
    exact absurd hpos (Int.not_lt.mpr (Int.le_of_lt hneg))

def copyFailing : List CopyGet.Label :=
  [.move .check, .poll, .move .nextFree, .read none, .move .push, .move .done, .move .pop,
    .write none, .setErr, .unpop]

def getFailing : List Get.Label :=
  [.move .check, .poll, .move .nextFree, .read none, .move .push, .move .done, .move .pop,
    .deliver, .unpop, .move .pop]

def plainGet : Get.Env where
  checkURL url := url
  isValid := true
  cache_stat := none
  smbc_open := true
  mimeTypeForFileNameAndData _ _ _ := "application/octet-stream"

open Store (ofFiles)
open KioExtras.Smb.Copy (getEnv localFile remoteFile)

set_option maxRecDepth 4000 in
/-- A file of one byte that cannot be read. -/
theorem first_read_fails :
    (¬ ∀ (env : CopyGet.Env) (disk : Store String) (remote : Store SMBUrl) (ksrc kdst : SMBUrl)
      (permissions : ℤ) (flags : JobFlags) (ls : List CopyGet.Label) (job : Job) (c : Copy)
      (left : Left String),
      AllSteps (CopyGet.step env) Writes
        (CopyGet.start env disk remote ksrc kdst permissions flags) ls →
      .read none ∈ ls →
      run (CopyGet.step env) (CopyGet.start env disk remote ksrc kdst permissions flags) ls =
        some (.running job c) →
      CopyGet.step env (.running job c) .conclude = some (.returned left) →
      EndsRight left.result (writes c)) ∧
    ¬ ∀ (env : Get.Env) (remote : Store SMBUrl) (kurl : SMBUrl) (ls : List Get.Label)
      (source : Get.Source) (g : Get.State) (result : WorkerResult) (sent : List Get.Message),
      AllSteps (Get.step env) (fun _ => Get.Alive) (Get.start env remote kurl) ls →
      .read none ∈ ls →
      run (Get.step env) (Get.start env remote kurl) ls = some (.running source g) →
      Get.step env (.running source g) .conclude = some (.returned result sent) →
      EndsRight result (Get.blocks sent) := by
  constructor
  · intro h
    have hright := h (getEnv true) (ofFiles []) (ofFiles [(remoteFile, [1])]) remoteFile localFile
      (-1) DefaultFlags copyFailing _ _ _ (by decide) (by decide) rfl rfl
    exact absurd (hright.sizes (-1, []) (by decide)).1 (by decide)
  · intro h
    have hright := h plainGet (ofFiles [(remoteFile, [1])]) remoteFile getFailing _ _ _ _
      (by decide) (by decide) rfl rfl
    exact absurd (hright.sizes (-1, []) (by decide)).1 (by decide)

end KioExtras.Smb.ReadErrors
