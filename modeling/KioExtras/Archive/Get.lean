import KioExtras.Archive.CheckNewFile
import KioExtras.Lib.Stream
import Mathlib.Data.Stream.Init

/-!
The archive worker: `get` reads an entry chunk by chunk and sends it.

The loop ends when the device says that it is at its end, or when as many bytes have come as the
archive announces.
-/

namespace KioExtras.Archive

open KioExtras.Kio KioExtras.Lib.Stream

/-- A file in an archive, with the content that it should have. -/
structure KArchiveFile where
  symLinkTarget : String
  content : Bytes

def KArchiveFile.size (f : KArchiveFile) : ℕ := f.content.length

inductive KArchiveEntry
  | directory
  | file (f : KArchiveFile)

/-- What the worker asks of the libraries: the text of a URL, a URL for the target of a link, the
mime type by name and first bytes, and an entry of an archive. -/
structure Libraries (Content : Type*) where
  toDisplayString : Url → String
  resolved : Url → String → Url
  mimeTypeForFileNameAndData : Path → Bytes → String
  entry : Content → Path → Option KArchiveEntry

/-- One turn of the loop: what `atEnd()` and `wasKilled()` say, and how many bytes a read offers at
most, or that it fails. -/
structure Turn where
  atEnd : Bool
  killed : Bool
  read : Option ℕ

structure Device where
  created : Bool
  opened : Bool
  allocated : Bool
  turns : Stream' Turn

inductive Message
  | redirection (url : Url)
  | totalSize (size : ℕ)
  | mimeType (name : String)
  | data (bytes : Bytes)
  | processedSize (size : ℕ)

def Message.bytes : Message → Bytes
  | .data bytes => bytes
  | _ => []

/-- Everything that was sent. -/
def payload (messages : List Message) : Bytes := messages.flatMap Message.bytes

/-- `killed` says that the loop was left for it. -/
structure Got where
  result : WorkerResult
  killed : Bool
  messages : List Message

def maxSize : ℕ := 0x100000

section

variable {Content : Type*} (libs : Libraries Content)

def getLoop (url : Url) (path : Path) (content : Bytes) (turns : Stream' Turn) (firstRead : Bool)
    (fileSize processed : ℕ) (messages : List Message) : Got :=
  if hmore : turns.head.atEnd = false ∧ 0 < fileSize then
    if turns.head.killed then ⟨.pass, true, messages ++ [.data []]⟩
    else
      let bufferSize := min maxSize fileSize
      match turns.head.read with
      | none => ⟨.fail .ERR_CANNOT_READ (libs.toDisplayString url), false, messages⟩
      | some offered =>
        let buffer := (content.drop processed).take (min bufferSize offered)
        if buffer.length ≠ bufferSize then
          ⟨.fail .ERR_CANNOT_READ (libs.toDisplayString url), false, messages⟩
        else
          let messages :=
            if firstRead then messages ++ [.mimeType (libs.mimeTypeForFileNameAndData path buffer)]
            else messages
          let processed := processed + buffer.length
          getLoop url path content turns.tail false (fileSize - bufferSize) processed
            (messages ++ [.data buffer, .processedSize processed])
  else ⟨.pass, false, messages ++ [.data []]⟩
termination_by fileSize
decreasing_by
  have hpos : 0 < maxSize := by decide
  omega

def getFile (url : Url) (path : Path) (archiveFileEntry : KArchiveFile) (io : Device) : Got :=
  if archiveFileEntry.symLinkTarget ≠ "" then
    ⟨.pass, false, [.redirection (libs.resolved url archiveFileEntry.symLinkTarget)]⟩
  else if io.created = false then
    ⟨.fail .ERR_WORKER_DEFINED ("The archive file could not be opened, perhaps because the" ++
      " format is unsupported.\n" ++ libs.toDisplayString url), false, []⟩
  else if io.opened = false then
    ⟨.fail .ERR_CANNOT_OPEN_FOR_READING (libs.toDisplayString url), false, []⟩
  else if io.allocated = false ∧ 0 < min maxSize archiveFileEntry.size then
    ⟨.fail .ERR_OUT_OF_MEMORY (libs.toDisplayString url), false,
      [.totalSize archiveFileEntry.size]⟩
  else
    getLoop libs url path archiveFileEntry.content io.turns true archiveFileEntry.size 0
      [.totalSize archiveFileEntry.size]

def get (fs : FileSystem Content) (w : Worker Content) (url : Url) (io : Device) :
    Worker Content × Got :=
  match checkNewFile fs w url with
  | (w, .error .ERR_CANNOT_OPEN_FOR_READING) =>
    (w, ⟨.fail .ERR_WORKER_DEFINED ("Could not open the file, probably due to an unsupported" ++
      " file format.\n" ++ libs.toDisplayString url), false, []⟩)
  | (w, .error errorNum) => (w, ⟨.fail errorNum (libs.toDisplayString url), false, []⟩)
  | (w, .ok path) =>
    match w.m_archiveFile.bind fun opened => libs.entry opened.2 path with
    | none => (w, ⟨.fail .ERR_DOES_NOT_EXIST (libs.toDisplayString url), false, []⟩)
    | some .directory => (w, ⟨.fail .ERR_IS_DIRECTORY (libs.toDisplayString url), false, []⟩)
    | some (.file archiveFileEntry) => (w, getFile libs url path archiveFileEntry io)

end

/-! ### The chunks -/

/-- In this turn a chunk is read, if so many bytes are left at the start. -/
structure Turn.Whole (turn : Turn) (left : ℕ) : Prop where
  more : turn.atEnd = false
  alive : turn.killed = false
  read : ∃ offered, turn.read = some offered ∧ min maxSize left ≤ offered

/-- The device does not come to its end between two chunks. -/
def Lasts (turns : Stream' Turn) (size : ℕ) : Prop :=
  ∀ k, k * maxSize < size → (∀ j < k, (turns.get j).Whole (size - j * maxSize)) →
    (turns.get k).atEnd = false

lemma maxSize_pos : 0 < maxSize := by decide

lemma lasts_succ {turns : Stream' Turn} {size : ℕ} (hsize : 0 < size) :
    Lasts turns size ↔ turns.head.atEnd = false ∧
      (turns.head.Whole size → Lasts turns.tail (size - min maxSize size)) := by
  have hrest : ∀ k, size - min maxSize size - k * maxSize = size - (k + 1) * maxSize := by
    intro k
    rw [Nat.succ_mul]
    omega
  constructor
  · intro hlasts
    refine ⟨hlasts 0 (by omega) fun j hj => absurd hj (Nat.not_lt_zero j), fun hwhole k hk hturns =>
      ?_⟩
    apply hlasts (k + 1)
    · rw [Nat.succ_mul]
      omega
    · intro j hj
      cases j with
      | zero => simpa using hwhole
      | succ j =>
        rw [← hrest]
        exact hturns j (by omega)
  · rintro ⟨hmore, hlasts⟩ k hk hturns
    cases k with
    | zero => exact hmore
    | succ k =>
      rw [Nat.succ_mul] at hk
      have hwhole : turns.head.Whole size := by simpa using hturns 0 (by omega)
      apply hlasts hwhole k
      · omega
      · intro j hj
        rw [hrest]
        exact hturns (j + 1) (by omega)

section

variable {Content : Type*} {libs : Libraries Content} {url : Url} {path : Path} {content : Bytes}
  {turns : Stream' Turn} {firstRead : Bool} {fileSize processed : ℕ} {messages : List Message}

lemma payload_append (messages more : List Message) :
    payload (messages ++ more) = payload messages ++ payload more := by
  simp [payload]

/-- The property of a run of the loop: what it sends after these messages is what is left. -/
def Sends (content : Bytes) (processed : ℕ) (messages : List Message) (got : Got) : Prop :=
  got.result.success = true → got.killed = false →
    payload got.messages = payload messages ++ content.drop processed

lemma getLoop_whole (libs : Libraries Content) (url : Url) (path : Path) (firstRead : Bool)
    (messages : List Message) (hwhole : turns.head.Whole fileSize) (hsize : 0 < fileSize)
    (hleft : processed + fileSize = content.length) :
    ∃ more, payload more = (content.drop processed).take (min maxSize fileSize) ∧
      getLoop libs url path content turns firstRead fileSize processed messages =
        getLoop libs url path content turns.tail false (fileSize - min maxSize fileSize)
          (processed + min maxSize fileSize) (messages ++ more) := by
  obtain ⟨hmore, halive, offered, hread, hoffered⟩ := hwhole
  have hlen : ((content.drop processed).take (min maxSize fileSize)).length =
      min maxSize fileSize := by
    rw [List.length_take, List.length_drop]
    omega
  rw [getLoop, dif_pos ⟨hmore, hsize⟩]
  simp only [halive, hread, Bool.false_eq_true, if_false, Nat.min_eq_left hoffered, hlen, ne_eq,
    not_true_eq_false]
  generalize hchunk : (content.drop processed).take (min maxSize fileSize) = buffer
  cases firstRead with
  | true =>
    refine ⟨[.mimeType (libs.mimeTypeForFileNameAndData path buffer), .data buffer,
      .processedSize (processed + min maxSize fileSize)], ?_, ?_⟩
    · simp [payload, Message.bytes]
    · rw [if_pos rfl, List.append_assoc, List.singleton_append]
  | false =>
    refine ⟨[.data buffer, .processedSize (processed + min maxSize fileSize)], ?_, ?_⟩
    · simp [payload, Message.bytes]
    · rw [if_neg Bool.false_ne_true]

lemma getLoop_stop (hwhole : ¬ turns.head.Whole fileSize) (hmore : turns.head.atEnd = false)
    (hsize : 0 < fileSize) (hleft : processed + fileSize = content.length) :
    Sends content processed messages
      (getLoop libs url path content turns firstRead fileSize processed messages) := by
  rw [getLoop, dif_pos ⟨hmore, hsize⟩]
  by_cases hkilled : turns.head.killed
  · rw [if_pos hkilled]
    intro _ halive
    cases halive
  · rw [if_neg hkilled]
    cases hread : turns.head.read with
    | none =>
      intro hsuccess
      cases hsuccess
    | some offered =>
      have hshort : ¬ min maxSize fileSize ≤ offered := fun hle =>
        hwhole ⟨hmore, by simpa using hkilled, offered, hread, hle⟩
      have hne : ((content.drop processed).take (min (min maxSize fileSize) offered)).length ≠
          min maxSize fileSize := by
        rw [List.length_take, List.length_drop]
        omega
      dsimp only
      rw [if_pos hne]
      intro hsuccess
      cases hsuccess

lemma getLoop_sends_iff (hleft : processed + fileSize = content.length) :
    Sends content processed messages
        (getLoop libs url path content turns firstRead fileSize processed messages) ↔
      Lasts turns fileSize := by
  induction hn : fileSize using Nat.strong_induction_on generalizing turns firstRead fileSize
    processed messages with
  | _ n ih =>
    subst hn
    rcases Nat.eq_zero_or_pos fileSize with rfl | hsize
    · have hdone : content.drop processed = [] := List.drop_eq_nil_of_le (by omega)
      rw [getLoop, dif_neg (by omega)]
      constructor
      · intro _ k hk
        exact absurd hk (Nat.not_lt_zero _)
      · intro _ _ _
        rw [payload_append, hdone]
        rfl
    · rw [lasts_succ hsize]
      cases hend : turns.head.atEnd with
      | true =>
        have hlen : (content.drop processed).length = fileSize := by
          rw [List.length_drop]
          omega
        rw [getLoop, dif_neg (by simp [hend])]
        constructor
        · intro hsends
          have hpayload := congrArg List.length (hsends rfl rfl)
          simp only [payload_append, List.length_append, hlen] at hpayload
          simp only [payload, Message.bytes, List.flatMap_cons, List.flatMap_nil, List.append_nil,
            List.length_nil] at hpayload
          omega
        · rintro ⟨hno, -⟩
          cases hno
      | false =>
        by_cases hwhole : turns.head.Whole fileSize
        · obtain ⟨more, hpayload, hturn⟩ := getLoop_whole libs url path firstRead messages hwhole
            hsize hleft
          have hpos := maxSize_pos
          have hsame : ∀ got, Sends content processed messages got ↔
              Sends content (processed + min maxSize fileSize) (messages ++ more) got := by
            intro got
            rw [Sends, Sends, payload_append, hpayload, ← List.drop_drop, List.append_assoc,
              List.take_append_drop]
          rw [hturn, hsame, ih _ (by omega) (by omega) rfl]
          exact ⟨fun hlasts => ⟨rfl, fun _ => hlasts⟩, fun h => h.2 hwhole⟩
        · constructor
          · intro _
            exact ⟨rfl, fun h => absurd h hwhole⟩
          · intro _
            exact getLoop_stop hwhole hend hsize hleft

end

/-! ### The operation -/

section

variable {Content : Type*} {libs : Libraries Content} {fs : FileSystem Content}
  {w : Worker Content} {url : Url} {io : Device}

structure Serves (libs : Libraries Content) (fs : FileSystem Content) (w : Worker Content)
    (url : Url) (path : Path) (f : KArchiveFile) : Prop where
  checked : (checkNewFile fs w url).2 = .ok path
  entry : ((checkNewFile fs w url).1.m_archiveFile.bind fun opened =>
    libs.entry opened.2 path) = some (.file f)

lemma get_serves {path : Path} {f : KArchiveFile} (h : Serves libs fs w url path f) :
    (get libs fs w url io).2 = getFile libs url path f io := by
  obtain ⟨hchecked, hentry⟩ := h
  rcases hcheck : checkNewFile fs w url with ⟨w', found⟩
  rw [hcheck] at hchecked hentry
  dsimp only at hchecked hentry
  subst hchecked
  simp only [get, hcheck, hentry]

/-- What is promised of a file: what was sent is what it should hold. -/
def GetKept (f : KArchiveFile) (got : Got) : Prop :=
  got.result.success = true → got.killed = false → payload got.messages = f.content

lemma getFile_kept_iff (path : Path) (f : KArchiveFile) : GetKept f (getFile libs url path f io) ↔
    (f.symLinkTarget ≠ "" → f.content = []) ∧
      (f.symLinkTarget = "" → io.created = true → io.opened = true → io.allocated = true →
        Lasts io.turns f.size) := by
  have hpos := maxSize_pos
  have hvoid : f.size = 0 → Lasts io.turns f.size := by
    intro hzero k hk
    omega
  unfold getFile
  by_cases hlink : f.symLinkTarget = ""
  · have hno : ¬ f.symLinkTarget ≠ "" := fun h => h hlink
    rw [if_neg hno]
    simp only [hlink, ne_eq, not_true_eq_false, false_imp_iff, true_and, true_imp_iff]
    split_ifs with hcreated hopened hallocated
    · simp [GetKept, hcreated]
    · simp [GetKept, hopened]
    · simp [GetKept, hallocated.1]
    · have hloop : Sends f.content 0 [.totalSize f.size] (getLoop libs url path f.content io.turns
          true f.size 0 [.totalSize f.size]) ↔ Lasts io.turns f.size :=
        getLoop_sends_iff (Nat.zero_add _)
      have hkept : ∀ got, GetKept f got ↔ Sends f.content 0 [.totalSize f.size] got := by
        intro got
        simp [GetKept, Sends, payload, Message.bytes]
      rw [hkept, hloop]
      constructor
      · exact fun hlasts _ _ _ => hlasts
      · intro hlasts
        cases hgot : io.allocated with
        | true => exact hlasts (by simpa using hcreated) (by simpa using hopened) hgot
        | false =>
          apply hvoid
          have hnone : ¬ 0 < min maxSize f.size := fun h => hallocated ⟨hgot, h⟩
          omega
  · rw [if_pos hlink]
    constructor
    · intro hkept
      exact ⟨fun _ => (hkept rfl rfl).symm, fun h => absurd h hlink⟩
    · rintro ⟨hempty, -⟩ _ _
      rw [hempty hlink]
      rfl

/-- **`get` sends a whole file** just if the device does not come to its end before it. A link,
which is redirected, is to have no content. -/
theorem get_whole_iff (libs : Libraries Content) (fs : FileSystem Content) (w : Worker Content)
    (url : Url) (io : Device) :
    (∀ path f, Serves libs fs w url path f → GetKept f (get libs fs w url io).2) ↔
      ∀ path f, Serves libs fs w url path f →
        (f.symLinkTarget ≠ "" → f.content = []) ∧
          (f.symLinkTarget = "" → io.created = true → io.opened = true → io.allocated = true →
            Lasts io.turns f.size) := by
  apply forall_congr'
  intro path
  apply forall_congr'
  intro f
  apply imp_congr_right
  intro hserves
  rw [get_serves hserves, getFile_kept_iff]

end

/-! A file that is one byte longer than a chunk, and a device at its end behind the first chunk. -/

def longFile : KArchiveFile := ⟨"", List.replicate (maxSize + 1) 0⟩

def shortDevice : Device where
  created := true
  opened := true
  allocated := true
  turns := Stream'.cons ⟨false, false, some maxSize⟩ (Stream'.const ⟨true, false, some 0⟩)

def oneEntry : Libraries Unit where
  toDisplayString url := url.scheme
  resolved url _ := url
  mimeTypeForFileNameAndData _ _ := "application/octet-stream"
  entry _ _ := some (.file longFile)

/-- A success without the last byte. -/
theorem truncated_file_served : ¬ ∀ (libs : Libraries Unit) (fs : FileSystem Unit)
    (w : Worker Unit) (url : Url) (io : Device) (path : Path) (f : KArchiveFile),
    Serves libs fs w url path f → f.symLinkTarget = "" → GetKept f (get libs fs w url io).2 := by
  intro h
  have hserves : Serves oneEntry oneFile initial ⟨"tar", "/a.tar/b".toList⟩ ['b'] longFile :=
    ⟨rfl, rfl⟩
  have hkept := h _ _ _ _ shortDevice _ _ hserves rfl
  rw [get_serves hserves, getFile_kept_iff] at hkept
  have hlasts : Lasts shortDevice.turns longFile.size := hkept.2 rfl rfl rfl rfl
  have hsize : longFile.size = maxSize + 1 := List.length_replicate
  rw [hsize] at hlasts
  have hend := hlasts 1 (by omega) fun j hj => by
    obtain rfl : j = 0 := by omega
    exact ⟨rfl, rfl, maxSize, rfl, Nat.min_le_left _ _⟩
  cases hend

end KioExtras.Archive
