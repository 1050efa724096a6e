import KioExtras.Kio
import KioExtras.Lib.Run
import KioExtras.Lib.Stream

/-!
The filter worker: `get` reads a compressed file into one buffer and sends what the filter writes
into another.

The filter is any machine with the interface of `KFilterBase`. Beside the variables of the loop
the state has a log of what was read from the file, handed to the filter and written by it.
-/

namespace KioExtras.Filter

open KioExtras.Kio KioExtras.Lib.Run KioExtras.Lib.Stream

abbrev Path := List Char

/-! ### The filter, the file and the mime types -/

inductive Outcome
  | Ok
  | End
  | Error
  deriving DecidableEq

/-- `uncompress` is given the room in the output buffer and writes no more than that. -/
structure KFilterBase (σ : Type) where
  init : σ
  inBufferEmpty : σ → Bool
  setInBuffer : Bytes → σ → σ
  readHeader : σ → Bool × σ
  uncompress : ℕ → σ → Outcome × Bytes × σ
  room : ∀ avail s, (uncompress avail s).2.1.length ≤ avail

def BufferSize : ℕ := 8 * 1024

def Buffer := { buffer : Bytes // buffer.length = BufferSize }

/-- An open file, as what its reads give. Behind the last one a read gives nothing. -/
structure LocalFile where
  reads : List Bytes
  fits : ∀ r ∈ reads, r ≠ [] ∧ r.length ≤ BufferSize

def LocalFile.content (file : LocalFile) : Bytes := file.reads.flatten

structure QMimeDatabase where
  mimeTypeForFileNameAndData : Path → Bytes → String
  mimeTypeForData : Bytes → String

/-- What follows the last dot in the name of the file. -/
def suffix (path : Path) : Path :=
  let name := path.reverse.takeWhile (· ≠ '/')
  if '.' ∈ name then (name.takeWhile (· ≠ '.')).reverse else []

def extensions : List Path := ["gz".toList, "bz".toList, "bz2".toList, "zst".toList]

def mimeName (db : QMimeDatabase) (path : Path) (outputBuffer : Bytes) : String :=
  let extension := suffix path
  if extensions.contains extension then
    let baseName := path.take (path.length - extension.length - 1)
    db.mimeTypeForFileNameAndData baseName outputBuffer
  else db.mimeTypeForData outputBuffer

/-! ### The loop -/

inductive Message
  | mimeType (name : String)
  | data (bytes : Bytes)

/-- Everything that was sent. -/
def payload (messages : List Message) : Bytes :=
  messages.flatMap fun
    | .mimeType _ => []
    | .data bytes => bytes

/-- `ended` says that the filter has come to its end marker. -/
structure Log where
  read : Bytes
  handed : Bytes
  written : Bytes
  ended : Bool

/-- `filled` bytes of the output buffer are written since `setOutBuffer`. -/
structure State (σ : Type) where
  filter : σ
  reads : List Bytes
  bNeedHeader : Bool
  bNeedMimetype : Bool
  bError : Bool
  inputBuffer : Bytes
  outputBuffer : Bytes
  filled : ℕ
  messages : List Message
  /-- The loop is left. -/
  left : Bool
  log : Log

section

variable {σ : Type} (F : KFilterBase σ) (db : QMimeDatabase) (path : Path)

namespace State

def outBufferAvailable (s : State σ) : ℕ := s.outputBuffer.length - s.filled

def leave (s : State σ) : State σ := { s with left := true }

/-- The whole buffer is handed over. -/
def refill (s : State σ) : Option (State σ) :=
  match s.reads with
  | [] => none
  | r :: reads =>
    let inputBuffer := r ++ s.inputBuffer.drop r.length
    some { s with
      reads := reads
      inputBuffer := inputBuffer
      filter := F.setInBuffer inputBuffer s.filter
      log := { s.log with read := s.log.read ++ r, handed := s.log.handed ++ inputBuffer } }

def write (s : State σ) (bytes : Bytes) : State σ :=
  { s with
    outputBuffer := s.outputBuffer.take s.filled ++ bytes ++
      s.outputBuffer.drop (s.filled + bytes.length)
    filled := s.filled + bytes.length
    log := { s.log with written := s.log.written ++ bytes } }

/-- The output buffer is sent, without its unused space. -/
def flush (s : State σ) : State σ :=
  let outputBuffer :=
    if s.outBufferAvailable ≠ 0 then
      s.outputBuffer.take (s.outputBuffer.length - s.outBufferAvailable)
    else s.outputBuffer
  let mime :=
    if s.bNeedMimetype = true then [.mimeType (mimeName db path outputBuffer)] else []
  { s with
    outputBuffer := outputBuffer
    bNeedMimetype := false
    messages := s.messages ++ mime ++ [.data outputBuffer]
    filled := 0 }

def uncompress (s : State σ) : State σ :=
  let (result, bytes, filter) := F.uncompress s.outBufferAvailable s.filter
  let s := { s with filter := filter }.write bytes
  let s := if s.outBufferAvailable = 0 ∨ result = .End then s.flush db path else s
  match result with
  | .End => { s with log := { s.log with ended := true } }.leave
  | .Ok => s
  | .Error => { s with bError := true }.leave

/-- From `if (bNeedHeader)` on. -/
def header (s : State σ) : State σ :=
  if s.bNeedHeader = true then
    let (ok, filter) := F.readHeader s.filter
    if ok = true then
      { s with filter := filter, bError := false, bNeedHeader := false }.uncompress F db path
    else { s with filter := filter, bError := true }.leave
  else s.uncompress F db path

end State

def turn (s : State σ) (wasKilled : Bool) : Option (State σ) :=
  if s.left = true then none
  else if wasKilled = true then some s.leave
  else if F.inBufferEmpty s.filter = true then
    match s.refill F with
    | none => some { s with bError := true }.leave
    | some s => some (s.header F db path)
  else some (s.header F db path)

/-- What stands before the loop. -/
def start (file : LocalFile) (inputBuffer outputBuffer : Buffer) : State σ where
  filter := F.init
  reads := file.reads
  bNeedHeader := true
  bNeedMimetype := true
  bError := true
  inputBuffer := inputBuffer.1
  outputBuffer := outputBuffer.1
  filled := 0
  messages := []
  left := false
  log := ⟨[], [], [], false⟩

/-- What stands behind the loop: an end of data, and the result. -/
def State.finish (s : State σ) (url : String) : List Message × WorkerResult :=
  if s.bError = true then (s.messages, .fail .ERR_CANNOT_READ url)
  else (s.messages ++ [.data []], .pass)

/-- A run of the loop that is left, and what stands before and behind it. -/
def get (filter : Option (KFilterBase σ)) (localFile : Option LocalFile) (m_protocol url : String)
    (inputBuffer outputBuffer : Buffer) (wasKilled : List Bool) :
    Option (List Message × WorkerResult) :=
  match localFile with
  | none => some ([], .fail .ERR_CANNOT_READ m_protocol)
  | some file =>
    match filter with
    | none => some ([], .fail .ERR_INTERNAL m_protocol)
    | some F => do
      let s ← run (turn F db path) (start F file inputBuffer outputBuffer) wasKilled
      if s.left = true then some (s.finish url) else none

end

/-! ### What is to hold in every state -/

/-- The filter is handed what was read, from the front of the file on; a success has sent all that
the filter wrote up to its end marker; and without the end marker there is neither a success nor an
end of data. -/
structure Served {σ : Type} (file : LocalFile) (url : String) (s : State σ) : Prop where
  handed : s.log.handed = s.log.read
  inOrder : s.log.read <+: file.content
  complete : s.left = true → (s.finish url).2 = .pass →
    s.log.ended = true ∧ payload (s.finish url).1 = s.log.written
  early : s.left = true → s.log.ended = false →
    s.finish url = (s.messages, .fail .ERR_CANNOT_READ url)

/-- A turn whose read, if there is one, fills the buffer, and that is killed only before the header
is read. -/
def Fits {σ : Type} (F : KFilterBase σ) (s : State σ) (wasKilled : Bool) : Prop :=
  s.left = false →
    if wasKilled = true then s.bNeedHeader = true
    else F.inBufferEmpty s.filter = true → ∀ r ∈ s.reads.head?, r.length = BufferSize

/-! ### The invariant -/

/-- What holds in every state but for the bytes that are handed to the filter. -/
structure Buffered {σ : Type} (file : LocalFile) (s : State σ) : Prop where
  input : s.inputBuffer.length = BufferSize
  reads : ∀ r ∈ s.reads, r ≠ [] ∧ r.length ≤ BufferSize
  content : s.log.read ++ s.reads.flatten = file.content
  filled : s.filled ≤ s.outputBuffer.length
  written : payload s.messages ++ s.outputBuffer.take s.filled = s.log.written
  running : s.left = false → s.log.ended = false ∧ s.bError = s.bNeedHeader
  finished : s.log.ended = true → s.filled = 0

section

variable {σ : Type} {F : KFilterBase σ} {db : QMimeDatabase} {path : Path} {file : LocalFile}
  {s : State σ}

lemma payload_append (a b : List Message) : payload (a ++ b) = payload a ++ payload b :=
  List.flatMap_append

lemma take_write {bytes : Bytes} (hfilled : s.filled ≤ s.outputBuffer.length) :
    (s.write bytes).outputBuffer.take (s.write bytes).filled =
      s.outputBuffer.take s.filled ++ bytes := by
  have hlen : (s.outputBuffer.take s.filled ++ bytes).length = s.filled + bytes.length := by
    rw [List.length_append, List.length_take, Nat.min_eq_left hfilled]
  change (s.outputBuffer.take s.filled ++ bytes ++ _).take (s.filled + bytes.length) = _
  rw [← hlen, List.take_left]

lemma length_write {bytes : Bytes} (hroom : s.filled + bytes.length ≤ s.outputBuffer.length) :
    (s.write bytes).outputBuffer.length = s.outputBuffer.length := by
  simp only [State.write, List.length_append, List.length_take, List.length_drop]
  omega

lemma flush_sends (hfilled : s.filled ≤ s.outputBuffer.length) :
    payload (s.flush db path).messages = payload s.messages ++ s.outputBuffer.take s.filled := by
  have hbuffer : (if s.outBufferAvailable ≠ 0 then
      s.outputBuffer.take (s.outputBuffer.length - s.outBufferAvailable)
    else s.outputBuffer) = s.outputBuffer.take s.filled := by
    unfold State.outBufferAvailable
    split_ifs with h
    · rw [Nat.sub_sub_self hfilled]
    · rw [List.take_of_length_le (by omega)]
  have hmime : payload (if s.bNeedMimetype = true then
      [Message.mimeType (mimeName db path (s.outputBuffer.take s.filled))] else []) = [] := by
    split_ifs <;> rfl
  rw [State.flush]
  dsimp only
  rw [hbuffer, payload_append, payload_append, hmime, List.append_nil]
  simp [payload]

/-- A state that only the filter and its output have changed. -/
structure Kept (s t : State σ) : Prop where
  handed : t.log.handed = s.log.handed
  read : t.log.read = s.log.read
  early : t.left = true → t.log.ended = false → t.bError = true

namespace Buffered

variable (h : Buffered file s)

include h

lemma leave (hended : s.log.ended = true → s.filled = 0) : Buffered file s.leave :=
  ⟨h.input, h.reads, h.content, h.filled, h.written, nofun, hended⟩

lemma write {bytes : Bytes} (hended : s.log.ended = false)
    (hroom : bytes.length ≤ s.outBufferAvailable) : Buffered file (s.write bytes) := by
  have hfilled := h.filled
  have hlen : s.filled + bytes.length ≤ s.outputBuffer.length := by
    unfold State.outBufferAvailable at hroom
    omega
  refine ⟨h.input, h.reads, h.content, ?_, ?_, h.running, ?_⟩
  · rw [length_write hlen]
    exact hlen
  · rw [take_write hfilled]
    change payload s.messages ++ (s.outputBuffer.take s.filled ++ bytes) = s.log.written ++ bytes
    rw [← List.append_assoc, h.written]
  · intro hend
    exact absurd (hended.symm.trans hend) nofun

lemma flush : Buffered file (s.flush db path) := by
  refine ⟨h.input, h.reads, h.content, Nat.zero_le _, ?_, h.running, fun _ => rfl⟩
  rw [flush_sends h.filled]
  change _ ++ List.take 0 _ = s.log.written
  rw [List.take_zero, List.append_nil, h.written]

lemma uncompress (hleft : s.left = false) :
    Buffered file (s.uncompress F db path) ∧ Kept s (s.uncompress F db path) := by
  obtain ⟨hended, -⟩ := h.running hleft
  obtain ⟨⟨result, bytes, filter⟩, hcall⟩ :
      ∃ r, F.uncompress s.outBufferAvailable s.filter = r := ⟨_, rfl⟩
  have hroom : bytes.length ≤ s.outBufferAvailable := by
    have hroom := F.room s.outBufferAvailable s.filter
    rwa [hcall] at hroom
  have hset : Buffered file { s with filter := filter } :=
    ⟨h.input, h.reads, h.content, h.filled, h.written, h.running, h.finished⟩
  have hwrite := hset.write hended hroom
  rw [State.uncompress, hcall]
  dsimp only
  generalize hs' : ({ s with filter := filter } : State σ).write bytes = s' at hwrite ⊢
  have hlog : s'.log.handed = s.log.handed ∧ s'.log.read = s.log.read ∧ s'.left = false ∧
      s'.log.ended = false := by
    rw [← hs']
    exact ⟨rfl, rfl, hleft, hended⟩
  obtain ⟨hhanded, hread, hleft', hended'⟩ := hlog
  have hflush : Buffered file (s'.flush db path) := hwrite.flush
  cases result with
  | Ok =>
    by_cases hfull : s'.outBufferAvailable = 0 ∨ Outcome.Ok = .End
    · rw [if_pos hfull]
      exact ⟨hflush, hhanded, hread, fun hl => absurd (hleft'.symm.trans hl) nofun⟩
    · rw [if_neg hfull]
      exact ⟨hwrite, hhanded, hread, fun hl => absurd (hleft'.symm.trans hl) nofun⟩
  | End =>
    rw [if_pos (Or.inr rfl)]
    exact ⟨⟨hflush.input, hflush.reads, hflush.content, hflush.filled, hflush.written, nofun,
      fun _ => rfl⟩, hhanded, hread, nofun⟩
  | Error =>
    by_cases hfull : s'.outBufferAvailable = 0 ∨ Outcome.Error = .End
    · rw [if_pos hfull]
      exact ⟨⟨hflush.input, hflush.reads, hflush.content, hflush.filled, hflush.written, nofun,
        hflush.finished⟩, hhanded, hread, fun _ _ => rfl⟩
    · rw [if_neg hfull]
      exact ⟨⟨hwrite.input, hwrite.reads, hwrite.content, hwrite.filled, hwrite.written, nofun,
        hwrite.finished⟩, hhanded, hread, fun _ _ => rfl⟩

lemma header (hleft : s.left = false) :
    Buffered file (s.header F db path) ∧ Kept s (s.header F db path) := by
  have hrunning := h.running hleft
  obtain ⟨⟨ok, filter⟩, hcall⟩ : ∃ r, F.readHeader s.filter = r := ⟨_, rfl⟩
  rw [State.header, hcall]
  dsimp only
  by_cases hheader : s.bNeedHeader = true
  · rw [if_pos hheader]
    cases ok with
    | true =>
      have hread : Buffered file { s with
          filter := filter, bError := false, bNeedHeader := false } :=
        ⟨h.input, h.reads, h.content, h.filled, h.written, fun _ => ⟨hrunning.1, rfl⟩, h.finished⟩
      obtain ⟨hbuffered, hkept⟩ := hread.uncompress hleft
      exact ⟨hbuffered, hkept.handed, hkept.read, hkept.early⟩
    | false =>
      exact ⟨⟨h.input, h.reads, h.content, h.filled, h.written, nofun, h.finished⟩, rfl, rfl,
        fun _ _ => rfl⟩
  · rw [if_neg hheader]
    exact h.uncompress hleft

lemma refill {t : State σ} (ht : s.refill F = some t) :
    Buffered file t ∧ t.left = s.left ∧ ∃ r stale, s.reads.head? = some r ∧
      r.length ≤ BufferSize ∧ r.length + stale.length = BufferSize ∧
        t.log.read = s.log.read ++ r ∧ t.log.handed = s.log.handed ++ (r ++ stale) := by
  unfold State.refill at ht
  split at ht
  · exact absurd ht (by simp)
  · next r reads hreads =>
    obtain rfl := Option.some.inj ht
    obtain ⟨hne, hle⟩ := h.reads r (by simp [hreads])
    have hinput := h.input
    have hlen : r.length + (s.inputBuffer.drop r.length).length = BufferSize := by
      rw [List.length_drop]
      omega
    refine ⟨⟨?_, ?_, ?_, h.filled, h.written, h.running, h.finished⟩, rfl, r,
      s.inputBuffer.drop r.length, by rw [hreads, List.head?_cons], hle, hlen, rfl, rfl⟩
    · rw [← hlen, List.length_append]
    · exact fun r' hr' => h.reads r' (by simp [hreads, hr'])
    · have hcontent := h.content
      rw [hreads, List.flatten_cons] at hcontent
      rw [← hcontent]
      simp

lemma turn {t : State σ} {wasKilled : Bool} (ht : Filter.turn F db path s wasKilled = some t) :
    Buffered file t := by
  unfold Filter.turn at ht
  split_ifs at ht with hleft hkilled hempty
  · obtain rfl := Option.some.inj ht
    exact h.leave h.finished
  · split at ht
    · obtain rfl := Option.some.inj ht
      exact ⟨h.input, h.reads, h.content, h.filled, h.written, nofun, h.finished⟩
    · next u hu =>
      obtain rfl := Option.some.inj ht
      obtain ⟨hbuffered, hleft', -⟩ := h.refill hu
      exact (hbuffered.header (hleft'.trans (by simpa using hleft))).1
  · obtain rfl := Option.some.inj ht
    exact (h.header (by simpa using hleft)).1

end Buffered

/-- What holds in every state of a run whose turns all fit. -/
structure Good (file : LocalFile) (s : State σ) : Prop where
  buffered : Buffered file s
  handed : s.log.handed = s.log.read
  early : s.left = true → s.log.ended = false → s.bError = true

lemma good_start (F : KFilterBase σ) (file : LocalFile) (inputBuffer outputBuffer : Buffer) :
    Good file (start F file inputBuffer outputBuffer) :=
  ⟨⟨inputBuffer.2, file.fits, rfl, Nat.zero_le _, rfl, fun _ => ⟨rfl, rfl⟩, fun _ => rfl⟩, rfl,
    nofun⟩

lemma Good.served (h : Good file s) (url : String) : Served file url s := by
  have hcontent := h.buffered.content
  refine ⟨h.handed, ⟨_, hcontent⟩, fun hleft hpass => ?_, fun hleft hended => ?_⟩
  · have herror : ¬ s.bError = true := by
      intro herror
      rw [State.finish, if_pos herror] at hpass
      exact absurd hpass (by simp)
    have hended : s.log.ended = true := by
      by_contra hended
      exact herror (h.early hleft (by simpa using hended))
    have hwritten := h.buffered.written
    rw [h.buffered.finished hended, List.take_zero, List.append_nil] at hwritten
    refine ⟨hended, ?_⟩
    rw [State.finish, if_neg herror, payload_append, hwritten]
    exact List.append_nil _
  · rw [State.finish, if_pos (h.early hleft hended)]

lemma Good.turn {t : State σ} {wasKilled : Bool} (h : Good file s) (hfits : Fits F s wasKilled)
    (ht : Filter.turn F db path s wasKilled = some t) : Good file t := by
  have hbuffered := h.buffered.turn ht
  unfold Filter.turn at ht
  split_ifs at ht with hleft hkilled hempty
  · obtain rfl := Option.some.inj ht
    have hrunning := h.buffered.running (by simpa using hleft)
    have hheader := hfits (by simpa using hleft)
    rw [if_pos hkilled] at hheader
    exact ⟨hbuffered, h.handed, fun _ _ => hrunning.2.trans hheader⟩
  · have hfull := hfits (by simpa using hleft)
    rw [if_neg hkilled] at hfull
    split at ht
    · obtain rfl := Option.some.inj ht
      exact ⟨hbuffered, h.handed, fun _ _ => rfl⟩
    · next u hu =>
      obtain rfl := Option.some.inj ht
      obtain ⟨hrefilled, hleft', r, stale, hr, -, hlen, hread, hhanded⟩ := h.buffered.refill hu
      have hkept : Kept u (u.header F db path) :=
        (hrefilled.header (hleft'.trans (by simpa using hleft))).2
      refine ⟨hbuffered, ?_, hkept.early⟩
      have hstale : stale = [] := by
        have hsize := hfull hempty r hr
        rw [← List.length_eq_zero_iff]
        omega
      rw [hkept.handed, hkept.read, hread, hhanded, h.handed, hstale, List.append_nil]
  · obtain rfl := Option.some.inj ht
    have hkept : Kept s (s.header F db path) := (h.buffered.header (by simpa using hleft)).2
    exact ⟨hbuffered, by rw [hkept.handed, hkept.read, h.handed], hkept.early⟩

lemma Good.not_served {wasKilled : Bool} (h : Good file s) (hfits : ¬ Fits F s wasKilled)
    (url : String) : ∃ t, Filter.turn F db path s wasKilled = some t ∧ ¬ Served file url t := by
  unfold Fits at hfits
  obtain ⟨hleft, hfits⟩ := Classical.not_imp.mp hfits
  have hleft' : ¬ s.left = true := by simp [hleft]
  obtain ⟨hended, herror⟩ := h.buffered.running hleft
  unfold Filter.turn
  rw [if_neg hleft']
  by_cases hkilled : wasKilled = true
  · rw [if_pos hkilled] at hfits ⊢
    refine ⟨_, rfl, fun hserved => ?_⟩
    have hfail := hserved.early rfl hended
    have hnone : ¬ s.leave.bError = true := by
      change ¬ s.bError = true
      rw [herror]
      exact hfits
    rw [State.finish, if_neg hnone] at hfail
    exact absurd (congrArg Prod.snd hfail) (by simp)
  · rw [if_neg hkilled] at hfits ⊢
    obtain ⟨hempty, hfits⟩ := Classical.not_imp.mp hfits
    rw [if_pos hempty]
    cases hrefill : s.refill F with
    | none =>
      unfold State.refill at hrefill
      split at hrefill
      · next hreads => exact absurd (fun r hr => by simp [hreads] at hr) hfits
      · exact absurd hrefill (by simp)
    | some u =>
      obtain ⟨hrefilled, hleft'', r, stale, hr, hle, hlen, hread, hhanded⟩ :=
        h.buffered.refill hrefill
      have hkept : Kept u (u.header F db path) := (hrefilled.header (hleft''.trans hleft)).2
      refine ⟨_, rfl, fun hserved => ?_⟩
      have hsame := hserved.handed
      rw [hkept.handed, hkept.read, hread, hhanded, h.handed] at hsame
      have hstale := congrArg List.length hsame
      simp only [List.length_append] at hstale
      refine hfits fun r' hr' => ?_
      obtain rfl := Option.some.inj (hr.symm.trans hr')
      omega

end

/-- What `get` returns of a run whose turns fit. -/
theorem get_result {σ : Type} {F : KFilterBase σ} {db : QMimeDatabase} {path : Path}
    {file : LocalFile} {m_protocol url : String} {inputBuffer outputBuffer : Buffer}
    {wasKilled : List Bool} {r : List Message × WorkerResult}
    (hfits : AllSteps (turn F db path) (Fits F) (start F file inputBuffer outputBuffer) wasKilled)
    (h : get db path (some F) (some file) m_protocol url inputBuffer outputBuffer wasKilled =
      some r) : ∃ s : State σ, s.left = true ∧ r = s.finish url ∧ Served file url s := by
  obtain ⟨s, hs, hleft⟩ := Option.bind_eq_some_iff.mp h
  have hgood := run_inv (fun _ _ _ hi hP ht => hi.turn hP ht) hfits
    (good_start F file inputBuffer outputBuffer) hs
  split_ifs at hleft with hl
  exact ⟨s, hl, (Option.some.inj hleft).symm, hgood.served url⟩

/-- **The loop serves the file** in every state of a run, for any filter, if and only if every read
fills the buffer and the transfer is killed only before the header is read. -/
theorem get_serves_iff {σ : Type} (F : KFilterBase σ) (db : QMimeDatabase) (path : Path)
    (file : LocalFile) (url : String) (inputBuffer outputBuffer : Buffer) (wasKilled : List Bool) :
    (∀ ks s, ks <+: wasKilled →
      run (turn F db path) (start F file inputBuffer outputBuffer) ks = some s →
        Served file url s) ↔
      AllSteps (turn F db path) (Fits F) (start F file inputBuffer outputBuffer) wasKilled :=
  prefixes_iff (fun _ h => h.served url) (fun _ _ _ h hfits ht => h.turn hfits ht)
    (fun _ _ h hfits => h.not_served hfits url) (good_start F file inputBuffer outputBuffer)
    wasKilled

/-- Takes all that it is handed, and writes nothing. -/
def idle : KFilterBase Unit where
  init := ()
  inBufferEmpty _ := true
  setInBuffer _ _ := ()
  readHeader _ := (true, ())
  uncompress _ _ := (.Ok, [], ())
  room _ _ := Nat.zero_le _

def zeros : Buffer := ⟨List.replicate BufferSize 0, List.length_replicate⟩

/-- For a file of one byte the filter is handed a whole buffer. -/
theorem one_byte_hands_buffer :
    ¬ ∀ (file : LocalFile) (wasKilled : List Bool) (s : State Unit) (db : QMimeDatabase),
      run (turn idle db []) (start idle file zeros zeros) wasKilled = some s →
        Served file "file:///a.gz" s := by
  intro h
  obtain ⟨file, hfile⟩ : ∃ file : LocalFile, file.reads = [[7]] := by
    refine ⟨⟨[[7]], fun r hr => ?_⟩, rfl⟩
    obtain rfl := List.mem_singleton.mp hr
    exact ⟨List.cons_ne_nil _ _, by decide⟩
  have hfits : ¬ Fits idle (start idle file zeros zeros) false := by
    intro hfits
    have hsize : [(7 : UInt8)].length = BufferSize :=
      hfits rfl rfl [7] (by simp [start, hfile])
    exact absurd hsize (by decide)
  obtain ⟨s, hs, hnot⟩ := (good_start idle file zeros zeros).not_served hfits "file:///a.gz"
  exact hnot (h file [false] s ⟨fun _ _ => "", fun _ => ""⟩ (by rw [run_cons, hs]; rfl))

end KioExtras.Filter
