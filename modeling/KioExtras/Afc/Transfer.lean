import KioExtras.Afc.Device
import KioExtras.Lib.Pieces
import Mathlib.Algebra.GroupWithZero.Nat

/-!
Copying within a container and putting data into a file. The device may offer fewer bytes than are
asked for and take fewer than it is given; the worker looks at neither count.
-/

namespace KioExtras.Afc

open KioExtras.Kio KioExtras.Lib KioExtras.Lib.Paths KioExtras.Lib.Directories

def intMax : ℕ := 2 ^ 31 - 1

/-- How the device answers in one turn of the loop of a copy: it offers so many bytes, and leaves
so many of those it is given. -/
structure Round where
  read : afc_error_t
  offered : ℕ
  write : afc_error_t
  left : ℕ

structure AfcFileReader where
  handle : Handle
  m_remainingSize : ℕ

def AfcFileReader.hasMore (reader : AfcFileReader) : Bool := 0 < reader.m_remainingSize

def AfcFileReader.read (reader : AfcFileReader) (c : Container) (ret : afc_error_t)
    (offered : ℕ) : WorkerResult × Bytes × AfcFileReader :=
  if reader.m_remainingSize = 0 then (.pass, [], reader)
  else
    let bytesToRead := min reader.m_remainingSize intMax
    let (data, handle) := afc_file_read c reader.handle bytesToRead offered
    if ret.passes then (.pass, data, ⟨handle, reader.m_remainingSize - data.length⟩)
    else (Result.from ret, data, ⟨handle, reader.m_remainingSize⟩)

inductive Ending
  | finished
  | killed
  | failed (result : WorkerResult)

/-- The loop of `copy` with the turns that it makes. `killed` is what it finds after them. -/
def copyLoop (killed : Bool) : Container → AfcFileReader → Handle → List Round →
    Option (Container × Ending)
  | c, reader, _, [] =>
    if killed then some (c, .killed)
    else if reader.hasMore then none
    else some (c, .finished)
  | c, reader, destFile, round :: rounds =>
    if reader.hasMore then
      let (result, chunk, reader) := reader.read c round.read round.offered
      if result.success then
        let (c, destFile) := afc_file_write c destFile chunk round.left
        let result := Result.from round.write
        if result.success then copyLoop killed c reader destFile rounds
        else if rounds.isEmpty && !killed then some (c, .failed result)
        else none
      else if rounds.isEmpty && !killed then some (c, .failed result)
      else none
    else none

structure CopyAnswers where
  client : ClientAnswers
  srcInfo : InfoAnswer
  destInfo : InfoAnswer
  srcOpen : afc_error_t
  destOpen : afc_error_t
  rounds : List Round
  killed : Bool
  del : afc_error_t

/-- The end of `copy`: what was written is removed again if the loop has failed. -/
def afterCopy (dest : Text) (del : afc_error_t) : Container × Ending → Outcome Container
  | (c, .finished) => ⟨.pass, false, c⟩
  | (c, .killed) => ⟨.pass, true, c⟩
  | (c, .failed result) => ⟨result, false, afc_remove_path c (placeOf dest) del⟩

def copyIn (src dest : Text) (flags : JobFlags) (answers : CopyAnswers) (c : Container) :
    Option (Outcome Container) :=
  let (result, srcEntry) := AfcClient.entry src answers.srcInfo
  if result.success = false then some ⟨result, false, c⟩
  else
    let (result, destEntry) := AfcClient.entry dest answers.destInfo
    if taken result && !flags.Overwrite then some ⟨alreadyExists destEntry dest, false, c⟩
    else
      match AfcFile.open c src .ReadOnly answers.srcOpen with
      | .error result => some ⟨result, false, c⟩
      | .ok (srcFile, c) =>
        match AfcFile.open c dest (if flags.Resume then .Append else .WriteOnly)
            answers.destOpen with
        | .error result => some ⟨result, false, c⟩
        | .ok (destFile, c) =>
          (copyLoop answers.killed c ⟨srcFile, srcEntry.size⟩ destFile answers.rounds).map
            (afterCopy dest answers.del)

def AfcWorker.copy (worker : AfcWorker) (src dest : QUrl) (flags : JobFlags)
    (answers : CopyAnswers) : Option (Outcome AfcWorker) :=
  let srcAfcUrl := AfcUrl.of src
  let destAfcUrl := AfcUrl.of dest
  if srcAfcUrl.device ≠ destAfcUrl.device then
    some ⟨.fail .ERR_UNSUPPORTED_ACTION "", false, worker⟩
  else
    worker.clientForUrl srcAfcUrl answers.client
      (copyIn srcAfcUrl.path destAfcUrl.path flags answers)

/-! ### Putting -/

/-- One chunk from `readData`, or its negative result, and how the device takes it. -/
structure PutRound where
  data : Except ℤ Bytes
  write : afc_error_t
  left : ℕ

def putLoop : Container → Handle → List PutRound → Option (WorkerResult × Container)
  | _, _, [] => none
  | c, file, round :: rounds =>
    match round.data with
    | .error readDataResult =>
      if rounds.isEmpty then
        some (.fail .ERR_CANNOT_READ ("readData result was " ++ toString readDataResult), c)
      else none
    | .ok buffer =>
      let (c, file) := afc_file_write c file buffer round.left
      let result := Result.from round.write
      if result.success then
        if buffer.isEmpty then
          if rounds.isEmpty then some (.pass, c) else none
        else putLoop c file rounds
      else if rounds.isEmpty then some (result, c)
      else none

structure PutAnswers where
  client : ClientAnswers
  info : InfoAnswer
  fileOpen : afc_error_t
  rounds : List PutRound

def putIn (path : Text) (flags : JobFlags) (answers : PutAnswers) (c : Container) :
    Option (Outcome Container) :=
  let (result, entry) := AfcClient.entry path answers.info
  if taken result && !flags.Overwrite && !flags.Resume then
    some ⟨alreadyExists entry path, false, c⟩
  else
    match AfcFile.open c path (if flags.Resume then .Append else .WriteOnly) answers.fileOpen with
    | .error result => some ⟨result, false, c⟩
    | .ok (file, c) => (putLoop c file answers.rounds).map fun p => ⟨p.1, false, p.2⟩

def AfcWorker.put (worker : AfcWorker) (url : QUrl) (flags : JobFlags) (answers : PutAnswers) :
    Option (Outcome AfcWorker) :=
  let afcUrl := AfcUrl.of url
  worker.clientForUrl afcUrl answers.client (putIn afcUrl.path flags answers)

/-! ### What is stored -/

section

variable {c c' : Container} {place : Key}

lemma file?_set_self (hfits : c.Fits place) (data : Bytes) :
    (c.set hfits (some data)).file? place = some data := by
  rw [Tree.file?_eq_some, Tree.objects_set, Function.update_self]
  rfl

lemma file?_set_of_ne (hfits : c.Fits place) (data : Option Bytes) {other : Key}
    (hne : other ≠ place) : (c.set hfits data).file? other = c.file? other := by
  simp only [Tree.file?, Tree.objects_set, Function.update_of_ne hne]

lemma set_set (hfits : c.Fits place) (data : Bytes) (hfits' : (c.set hfits (some data)).Fits place)
    (data' : Option Bytes) : (c.set hfits (some data)).set hfits' data' = c.set hfits data' := by
  ext p : 1
  simp

lemma write_opened (hfits : c.Fits place) {old : Bytes} {h : Handle} (hplace : h.place = place)
    (hend : h.append ∨ h.offset = old.length) (data : Bytes) (left : ℕ) :
    afc_file_write (c.set hfits (some old)) h data left =
      (c.set hfits (some (old ++ data.take (data.length - left))),
        { h with offset := h.offset + (data.take (data.length - left)).length }) := by
  subst hplace
  obtain ⟨hfits', hwrite⟩ := write_end (file?_set_self hfits old) hend data left
  rw [hwrite, set_set]

end

/-- The device does as it is told: no turn fails, and the operation is not killed. -/
structure CopyAnswers.Undisturbed (answers : CopyAnswers) : Prop where
  killed : answers.killed = false
  read : ∀ round ∈ answers.rounds, round.read.passes
  write : ∀ round ∈ answers.rounds, round.write.passes

variable {destFile : Handle} {killed : Bool} {r : Container × Ending}

variable {c c' : Container} {old : Bytes} {src : Key} {answers : CopyAnswers} {flags : JobFlags}
  {o : Outcome Container}

lemma copyLoop_cons {reader : AfcFileReader} {round : Round} {rounds : List Round}
    (h : copyLoop killed c reader destFile (round :: rounds) = some r) :
    ∃ chunk srcFile, afc_file_read c reader.handle (min reader.m_remainingSize intMax)
        round.offered = (chunk, srcFile) ∧ 0 < reader.m_remainingSize ∧
      ((round.read.passes ∧ round.write.passes ∧
          copyLoop killed (afc_file_write c destFile chunk round.left).1
            ⟨srcFile, reader.m_remainingSize - chunk.length⟩
            (afc_file_write c destFile chunk round.left).2 rounds = some r) ∨
        (round.read.passes ∧ round.write.passes = false ∧ rounds = [] ∧ killed = false ∧
          r = ((afc_file_write c destFile chunk round.left).1, .failed (Result.from round.write))) ∨
        (round.read.passes = false ∧ rounds = [] ∧ killed = false ∧
          r = (c, .failed (Result.from round.read)))) := by
  unfold copyLoop at h
  by_cases hmore : 0 < reader.m_remainingSize
  · have hne : reader.m_remainingSize ≠ 0 := by omega
    refine ⟨_, _, rfl, hmore, ?_⟩
    simp only [AfcFileReader.hasMore, hmore, decide_true, if_true, AfcFileReader.read, hne,
      if_false] at h
    cases hread : round.read.passes with
    | false =>
      right; right
      simp only [hread, Bool.false_eq_true, if_false, success_from] at h
      split at h
      · next hlast =>
        simp only [Bool.and_eq_true, List.isEmpty_iff, Bool.not_eq_true'] at hlast
        exact ⟨rfl, hlast.1, hlast.2, (Option.some.inj h).symm⟩
      · cases h
    | true =>
      simp only [hread, if_true, WorkerResult.success_pass, success_from] at h
      cases hwrite : round.write.passes with
      | true =>
        left
        simp only [hwrite, if_true] at h
        exact ⟨rfl, rfl, h⟩
      | false =>
        right; left
        simp only [hwrite, Bool.false_eq_true, if_false] at h
        split at h
        · next hlast =>
          simp only [Bool.and_eq_true, List.isEmpty_iff, Bool.not_eq_true'] at hlast
          exact ⟨rfl, rfl, hlast.1, hlast.2, (Option.some.inj h).symm⟩
        · cases h
  · simp [AfcFileReader.hasMore, hmore] at h

lemma copyLoop_nil {reader : AfcFileReader} (h : copyLoop killed c reader destFile [] = some r) :
    (killed = true ∧ r = (c, .killed)) ∨
      (killed = false ∧ reader.m_remainingSize = 0 ∧ r = (c, .finished)) := by
  unfold copyLoop at h
  cases killed with
  | true => exact Or.inl ⟨rfl, by simpa using h.symm⟩
  | false =>
    by_cases hmore : 0 < reader.m_remainingSize
    · simp [AfcFileReader.hasMore, hmore] at h
    · refine Or.inr ⟨rfl, by omega, ?_⟩
      simpa [AfcFileReader.hasMore, hmore] using h.symm

lemma copyLoop_stored {place : Key} (hfits : c.Fits place) {rounds : List Round}
    {reader : AfcFileReader} (hplace : destFile.place = place)
    (hend : destFile.append ∨ destFile.offset = old.length)
    (h : copyLoop killed (c.set hfits (some old)) reader destFile rounds = some r) :
    ∃ stored, r.1 = c.set hfits (some stored) := by
  induction rounds generalizing old reader destFile with
  | nil =>
    rcases copyLoop_nil h with ⟨-, rfl⟩ | ⟨-, -, rfl⟩
    · exact ⟨old, rfl⟩
    · exact ⟨old, rfl⟩
  | cons round rounds ih =>
    obtain ⟨chunk, srcFile, -, -, hturn⟩ := copyLoop_cons h
    rw [write_opened hfits hplace hend] at hturn
    rcases hturn with ⟨-, -, hrest⟩ | ⟨-, -, -, -, rfl⟩ | ⟨-, -, -, rfl⟩
    · refine ih ?_ ?_ hrest
      · exact hplace
      · rw [List.length_append]
        exact hend.imp id fun hoff => by simpa using hoff
    · exact ⟨_, rfl⟩
    · exact ⟨old, rfl⟩

lemma copyLoop_ending {rounds : List Round} {reader : AfcFileReader}
    (h : copyLoop killed c reader destFile rounds = some r) :
    (r.2 = .finished ∧ killed = false ∧ (∀ round ∈ rounds, round.read.passes) ∧
        ∀ round ∈ rounds, round.write.passes) ∨
      (r.2 = .killed ∧ killed = true) ∨
      ∃ result, r.2 = .failed result ∧ result.success = false ∧
        ∃ round ∈ rounds, round.read.passes = false ∨ round.write.passes = false := by
  induction rounds generalizing c reader destFile with
  | nil =>
    rcases copyLoop_nil h with ⟨hkilled, rfl⟩ | ⟨hkilled, -, rfl⟩
    · exact Or.inr (Or.inl ⟨rfl, hkilled⟩)
    · exact Or.inl ⟨rfl, hkilled, by simp, by simp⟩
  | cons round rounds ih =>
    obtain ⟨chunk, srcFile, -, -, hturn⟩ := copyLoop_cons h
    rcases hturn with ⟨hread, hwrite, hrest⟩ | ⟨-, hwrite, -, -, rfl⟩ | ⟨hread, -, -, rfl⟩
    · rcases ih hrest with ⟨hend, hkilled, hreads, hwrites⟩ | hkilled | ⟨result, hend, hfail, hex⟩
      · exact Or.inl ⟨hend, hkilled, List.forall_mem_cons.mpr ⟨hread, hreads⟩,
          List.forall_mem_cons.mpr ⟨hwrite, hwrites⟩⟩
      · exact Or.inr (Or.inl hkilled)
      · obtain ⟨bad, hmem, hbad⟩ := hex
        exact Or.inr (Or.inr ⟨result, hend, hfail, bad, List.mem_cons_of_mem _ hmem, hbad⟩)
    · exact Or.inr (Or.inr ⟨_, rfl, by simpa using hwrite, round, List.mem_cons_self,
        Or.inr hwrite⟩)
    · exact Or.inr (Or.inr ⟨_, rfl, by simpa using hread, round, List.mem_cons_self,
        Or.inl hread⟩)

/-- **A loop that finishes with whole writes** has copied what was to be read. -/
lemma copyLoop_whole {place : Key} (hfits : c.Fits place) (hne : src ≠ place) {content : Bytes}
    (hcontent : c.file? src = some content) {rounds : List Round} {reader : AfcFileReader}
    (hsrc : reader.handle.place = src) (hplace : destFile.place = place)
    (hend : destFile.append ∨ destFile.offset = old.length)
    (hwhole : ∀ round ∈ rounds, round.offered = 0 ∨ round.left = 0)
    (h : copyLoop false (c.set hfits (some old)) reader destFile rounds = some (c', .finished)) :
    c' = c.set hfits (some (old ++
      (content.drop reader.handle.offset).take reader.m_remainingSize)) := by
  induction rounds generalizing old reader destFile with
  | nil =>
    rcases copyLoop_nil h with ⟨hkilled, -⟩ | ⟨-, hzero, heq⟩
    · cases hkilled
    · obtain ⟨rfl, -⟩ := Prod.mk.inj heq
      rw [hzero, List.take_zero, List.append_nil]
  | cons round rounds ih =>
    obtain ⟨chunk, srcFile, hread, -, hturn⟩ := copyLoop_cons h
    rw [write_opened hfits hplace hend] at hturn
    rcases hturn with ⟨-, -, hrest⟩ | ⟨-, -, -, -, heq⟩ | ⟨-, -, -, heq⟩
    · unfold afc_file_read at hread
      rw [hsrc, file?_set_of_ne hfits _ hne, hcontent, Option.getD_some] at hread
      obtain ⟨rfl, rfl⟩ := Prod.mk.inj hread
      -- the chunk and what is read after it are what was to be read
      set chunk := (content.drop reader.handle.offset).take
        (min (min reader.m_remainingSize intMax) round.offered) with hchunk
      have htaken : chunk.take (chunk.length - round.left) = chunk := by
        apply List.take_of_length_le
        rcases hwhole round List.mem_cons_self with hnone | hall
        · have : chunk.length ≤ round.offered := by
            rw [hchunk, List.length_take]
            omega
          omega
        · omega
      rw [htaken] at hrest
      have hprefix : chunk = ((content.drop reader.handle.offset).take
          reader.m_remainingSize).take chunk.length := by
        rw [hchunk, List.take_take, List.length_take]
        apply List.take_eq_take_iff.mpr
        omega
      have hsplit : (content.drop reader.handle.offset).take reader.m_remainingSize =
          chunk ++ (content.drop (reader.handle.offset + chunk.length)).take
            (reader.m_remainingSize - chunk.length) := by
        conv_lhs => rw [← List.take_append_drop chunk.length
          ((content.drop reader.handle.offset).take reader.m_remainingSize)]
        rw [← hprefix, List.drop_take, List.drop_drop]
      refine (ih ?_ ?_ ?_ ?_ hrest).trans ?_
      · rfl
      · exact hplace
      · rw [List.length_append]
        exact hend.imp id fun hoff => by simp [hoff]
      · exact fun r hr => hwhole r (List.mem_cons_of_mem _ hr)
      · rw [hsplit, List.append_assoc]
    · cases congrArg Prod.snd heq
    · cases congrArg Prod.snd heq

/-! ### Copying in a container -/

lemma taken_entry (path : Text) (answer : InfoAnswer) :
    taken (AfcClient.entry path answer).1 = true ↔ answer.ret ≠ .AFC_E_OBJECT_NOT_FOUND := by
  obtain ⟨ret, info⟩ := answer
  cases ret <;> cases info <;> simp [AfcClient.entry, taken, Result.from]

lemma success_entry (path : Text) (answer : InfoAnswer) :
    (AfcClient.entry path answer).1.success = answer.ret.passes := by
  obtain ⟨ret, info⟩ := answer
  cases ret <;> cases info <;> rfl

/-- The size that the device gives for the source, or none. -/
def CopyAnswers.size (answers : CopyAnswers) : ℕ := (answers.srcInfo.info.bind Info.st_size).getD 0

lemma size_entry {path : Text} (h : answers.srcInfo.ret.passes = true) :
    (AfcClient.entry path answers.srcInfo).2.size = answers.size := by
  unfold CopyAnswers.size
  cases hinfo : answers.srcInfo.info <;> simp [AfcClient.entry, UDSEntry.size, h, hinfo]

structure Opens (c : Container) (src dest : Text) (flags : JobFlags) (answers : CopyAnswers) :
    Prop where
  srcInfo : answers.srcInfo.ret.passes
  allowed : answers.destInfo.ret = .AFC_E_OBJECT_NOT_FOUND ∨ flags.Overwrite
  srcOpen : answers.srcOpen.passes
  srcFile : ∃ content, c.file? (placeOf src) = some content
  destOpen : answers.destOpen.passes
  fits : c.Fits (placeOf dest)

section

variable {c : Container} {src dest : Text} {flags : JobFlags} {answers : CopyAnswers}
  {o : Outcome Container}

lemma copyIn_cases (h : copyIn src dest flags answers c = some o) :
    (¬ Opens c src dest flags answers ∧ o.result.success = false ∧ o.state = c) ∨
      Opens c src dest flags answers ∧ ∃ (hfits : c.Fits (placeOf dest)) (r : Container × Ending),
        copyLoop answers.killed (c.set hfits (some (opened c (placeOf dest) flags.Resume)))
          ⟨⟨placeOf src, false, 0⟩, answers.size⟩ ⟨placeOf dest, flags.Resume, 0⟩
          answers.rounds = some r ∧ o = afterCopy dest answers.del r := by
  unfold copyIn at h
  dsimp only at h
  split at h
  · next hinfo =>
    rw [success_entry] at hinfo
    obtain rfl := Option.some.inj h
    refine Or.inl ⟨fun hopens => ?_, by simpa [success_entry] using hinfo, rfl⟩
    simp [hopens.srcInfo] at hinfo
  · next hinfo =>
    have hpasses : answers.srcInfo.ret.passes = true := by
      rw [success_entry] at hinfo
      simpa using hinfo
    split at h
    · next hexists =>
      obtain rfl := Option.some.inj h
      refine Or.inl ⟨fun hopens => ?_, success_alreadyExists _ _, rfl⟩
      rw [Bool.and_eq_true, taken_entry, Bool.not_eq_true'] at hexists
      rcases hopens.allowed with hfound | hover
      · exact hexists.1 hfound
      · rw [hover] at hexists
        cases hexists.2
    · next hexists =>
      have hallowed : answers.destInfo.ret = .AFC_E_OBJECT_NOT_FOUND ∨ flags.Overwrite := by
        rw [Bool.and_eq_true, taken_entry, Bool.not_eq_true', not_and_or, not_not] at hexists
        exact hexists.imp id (by simp)
      rcases hsrc : AfcFile.open c src .ReadOnly answers.srcOpen with result | ⟨srcFile, c₁⟩
      · rw [hsrc] at h
        obtain rfl := Option.some.inj h
        obtain ⟨hfail, hnot⟩ := open_read_error hsrc
        exact Or.inl ⟨fun hopens => hnot ⟨hopens.srcOpen, hopens.srcFile⟩, hfail, rfl⟩
      · rw [hsrc] at h
        obtain ⟨hsrcOpen, rfl, rfl, hcontent⟩ := open_read hsrc
        dsimp only at h
        rcases hdest : AfcFile.open c₁ dest (if flags.Resume then .Append else .WriteOnly)
          answers.destOpen with result | ⟨destFile, c₂⟩
        · rw [hdest] at h
          obtain rfl := Option.some.inj h
          obtain ⟨hfail, hnot⟩ := open_write_error hdest
          exact Or.inl ⟨fun hopens => hnot ⟨hopens.destOpen, hopens.fits⟩, hfail, rfl⟩
        · rw [hdest] at h
          obtain ⟨hdestOpen, hfits, rfl, rfl⟩ := open_write hdest
          obtain ⟨r, hr, rfl⟩ := Option.map_eq_some_iff.mp h
          rw [size_entry hpasses] at hr
          exact Or.inr
            ⟨⟨hpasses, hallowed, hsrcOpen, hcontent, hdestOpen, hfits⟩, hfits, r, hr, rfl⟩

lemma copyIn_opens (h : Opens c src dest flags answers) :
    copyIn src dest flags answers c =
      (copyLoop answers.killed (c.set h.fits (some (opened c (placeOf dest) flags.Resume)))
        ⟨⟨placeOf src, false, 0⟩, answers.size⟩ ⟨placeOf dest, flags.Resume, 0⟩
        answers.rounds).map (afterCopy dest answers.del) := by
  obtain ⟨content, hcontent⟩ := h.srcFile
  have hallowed : (taken (AfcClient.entry dest answers.destInfo).1 && !flags.Overwrite) ≠ true := by
    rw [Ne, Bool.and_eq_true, taken_entry, Bool.not_eq_true', not_and_or, not_not]
    exact h.allowed.imp id (by simp)
  have hinfo : ¬ (AfcClient.entry src answers.srcInfo).1.success = false := by
    rw [success_entry, h.srcInfo]
    decide
  unfold copyIn
  dsimp only
  rw [if_neg hinfo, if_neg hallowed, open_read_ok h.srcOpen hcontent]
  dsimp only
  rw [open_write_ok h.destOpen h.fits]
  dsimp only
  rw [size_entry h.srcInfo]

lemma afterCopy_cases {killed : Bool} {c₀ : Container} {reader : AfcFileReader} {file : Handle}
    {r : Container × Ending} (h : copyLoop killed c₀ reader file answers.rounds = some r)
    (hkilled : killed = answers.killed) (ho : o = afterCopy dest answers.del r) :
    (answers.Undisturbed ∧ r.2 = .finished ∧ o = ⟨.pass, false, r.1⟩) ∨
      (¬ answers.Undisturbed ∧ o = ⟨.pass, true, r.1⟩) ∨
      ¬ answers.Undisturbed ∧ o.result.success = false ∧
        o.state = afc_remove_path r.1 (placeOf dest) answers.del := by
  obtain ⟨c₁, ending⟩ := r
  rcases copyLoop_ending h with ⟨hend, hnot, hread, hwrite⟩ | ⟨hend, hyes⟩ |
    ⟨result, hend, hfail, round, hmem, hbad⟩
  · obtain rfl : ending = .finished := hend
    exact Or.inl ⟨⟨hkilled ▸ hnot, hread, hwrite⟩, rfl, ho⟩
  · obtain rfl : ending = .killed := hend
    refine Or.inr (Or.inl ⟨fun hund => ?_, ho⟩)
    rw [hkilled, hund.killed] at hyes
    cases hyes
  · obtain rfl : ending = .failed result := hend
    refine Or.inr (Or.inr ⟨fun hund => ?_, ho ▸ hfail, ho ▸ rfl⟩)
    rcases hbad with hbad | hbad
    · rw [hund.read round hmem] at hbad
      cases hbad
    · rw [hund.write round hmem] at hbad
      cases hbad

lemma append_or_offset (c : Container) (place : Key) (append : Bool) :
    append = true ∨ 0 = (opened c place append).length := by
  cases append <;> simp [opened]

lemma copyIn_frame (h : copyIn src dest flags answers c = some o) {key : Key}
    (hne : key ≠ placeOf dest) : o.state.objects key = c.objects key := by
  rcases copyIn_cases h with ⟨-, -, hstate⟩ | ⟨-, hfits, r, hloop, rfl⟩
  · rw [hstate]
  · obtain ⟨stored, hr⟩ := copyLoop_stored hfits rfl (append_or_offset c _ _) hloop
    have hset : r.1.objects key = c.objects key := by
      rw [hr, Tree.objects_set, Function.update_of_ne hne]
    obtain ⟨c₁, ending⟩ := r
    cases ending with
    | finished => exact hset
    | killed => exact hset
    | failed result =>
      change (afc_remove_path c₁ _ _).objects key = _
      unfold afc_remove_path
      split_ifs
      · rw [Tree.objects_set, Function.update_of_ne hne, hset]
      · exact hset
      · exact hset

lemma copyIn_file (h : copyIn src dest flags answers c = some o)
    (hsuccess : o.result.success = true) :
    Opens c src dest flags answers ∧ ∃ data, o.state.file? (placeOf dest) = some data := by
  rcases copyIn_cases h with ⟨-, hfail, -⟩ | ⟨hopens, hfits, r, hloop, ho⟩
  · rw [hfail] at hsuccess
    cases hsuccess
  · obtain ⟨stored, hr⟩ := copyLoop_stored hfits rfl (append_or_offset c _ _) hloop
    refine ⟨hopens, stored, ?_⟩
    rcases afterCopy_cases hloop rfl ho with ⟨-, -, rfl⟩ | ⟨-, rfl⟩ | ⟨-, hfail, -⟩
    · exact hr ▸ file?_set_self hfits stored
    · exact hr ▸ file?_set_self hfits stored
    · rw [hfail] at hsuccess
      cases hsuccess

end

/-- What is promised of a copy: the whole content if it succeeds, else what was there before; and
in any case the source. -/
structure CopyRight (c : Container) (src dest : Key) (result : WorkerResult) (killed : Bool)
    (c' : Container) : Prop where
  copied : result.success = true → killed = false →
    ∃ content, c.file? src = some content ∧ c'.file? dest = some content
  spared : result.success = false ∨ killed = true →
    ∀ object, c.objects dest = some object → c'.objects dest = some object
  source : c'.objects src = c.objects src

/-- The destination is another file, which is new if anything goes wrong; and if nothing does, it
is emptied by opening it, the size that the device has given is that of the source, and all the
bytes that are offered are taken. -/
structure Careful (c : Container) (src dest : Key) (flags : JobFlags) (answers : CopyAnswers) :
    Prop where
  apart : src ≠ dest
  fresh : ¬ answers.Undisturbed → c.objects dest = none
  emptied : answers.Undisturbed → opened c dest flags.Resume = []
  sized : answers.Undisturbed → ∀ content, c.file? src = some content →
    answers.size = content.length
  whole : answers.Undisturbed → ∀ round ∈ answers.rounds, round.offered = 0 ∨ round.left = 0

lemma copyIn_right {src dest : Text} (h : copyIn src dest flags answers c = some o)
    (hcareful : Opens c src dest flags answers →
      Careful c (placeOf src) (placeOf dest) flags answers) :
    CopyRight c (placeOf src) (placeOf dest) o.result o.killed o.state := by
  by_cases hopens : Opens c src dest flags answers
  · have hcareful := hcareful hopens
    have hsource := copyIn_frame h hcareful.apart
    rcases copyIn_cases h with ⟨hnot, -, -⟩ | ⟨-, hfits, r, hloop, ho⟩
    · exact absurd hopens hnot
    · rcases afterCopy_cases hloop rfl ho with ⟨hund, hfin, rfl⟩ | ⟨hdist, rfl⟩ |
        ⟨hdist, hfail, -⟩
      · obtain ⟨content, hcontent⟩ := hopens.srcFile
        obtain ⟨c₁, ending⟩ := r
        obtain rfl : ending = .finished := hfin
        rw [hund.killed, hcareful.emptied hund, hcareful.sized hund content hcontent] at hloop
        have hfinal := copyLoop_whole hfits hcareful.apart hcontent rfl rfl (Or.inr rfl)
          (hcareful.whole hund) hloop
        refine ⟨fun _ _ => ⟨content, hcontent, ?_⟩, by simp, hsource⟩
        dsimp only
        rw [hfinal, file?_set_self]
        simp
      · refine ⟨by simp, fun _ object hobject => ?_, hsource⟩
        rw [hcareful.fresh hdist] at hobject
        cases hobject
      · refine ⟨fun hsuccess => ?_, fun _ object hobject => ?_, hsource⟩
        · rw [hfail] at hsuccess
          cases hsuccess
        · rw [hcareful.fresh hdist] at hobject
          cases hobject
  · rcases copyIn_cases h with ⟨-, hfail, hstate⟩ | ⟨hyes, -⟩
    · refine ⟨fun hsuccess => ?_, fun _ object hobject => hstate ▸ hobject, by rw [hstate]⟩
      rw [hfail] at hsuccess
      cases hsuccess
    · exact absurd hyes hopens

/-! ### Putting into a file -/

/-- What is given to the device in a turn, and what it takes of it. -/
def PutRound.given (round : PutRound) : Bytes :=
  match round.data with
  | .ok buffer => buffer
  | .error _ => []

def PutRound.accepted (round : PutRound) : Bytes :=
  round.given.take (round.given.length - round.left)

structure PutAnswers.Undisturbed (answers : PutAnswers) : Prop where
  read : ∀ round ∈ answers.rounds, ∃ buffer, round.data = .ok buffer
  write : ∀ round ∈ answers.rounds, round.write.passes

lemma putLoop_stored {place : Key} (hfits : c.Fits place) {rounds : List PutRound} {file : Handle}
    {result : WorkerResult} (hplace : file.place = place)
    (hend : file.append ∨ file.offset = old.length)
    (h : putLoop (c.set hfits (some old)) file rounds = some (result, c')) :
    c' = c.set hfits (some (old ++ rounds.flatMap PutRound.accepted)) ∧
      (result.success = true ↔ (∀ round ∈ rounds, ∃ buffer, round.data = .ok buffer) ∧
        ∀ round ∈ rounds, round.write.passes) := by
  induction rounds generalizing old file with
  | nil => simp [putLoop] at h
  | cons round rounds ih =>
    unfold putLoop at h
    cases hdata : round.data with
    | error readDataResult =>
      simp only [hdata] at h
      split_ifs at h with hlast
      obtain ⟨rfl, rfl⟩ := Prod.mk.inj (Option.some.inj h)
      obtain rfl := List.isEmpty_iff.mp hlast
      simp [PutRound.accepted, PutRound.given, hdata]
    | ok buffer =>
      simp only [hdata, write_opened hfits hplace hend, success_from] at h
      have haccepted : round.accepted = buffer.take (buffer.length - round.left) := by
        simp [PutRound.accepted, PutRound.given, hdata]
      cases hwrite : round.write.passes with
      | false =>
        simp only [hwrite, Bool.false_eq_true, if_false] at h
        split_ifs at h with hlast
        obtain ⟨rfl, rfl⟩ := Prod.mk.inj (Option.some.inj h)
        obtain rfl := List.isEmpty_iff.mp hlast
        simp [haccepted, hwrite]
      | true =>
        simp only [hwrite, if_true] at h
        split_ifs at h with hbuffer hlast
        · obtain ⟨rfl, rfl⟩ := Prod.mk.inj (Option.some.inj h)
          obtain rfl := List.isEmpty_iff.mp hlast
          simp [haccepted, hwrite, hdata]
        · have hend' : file.append = true ∨ file.offset +
              (buffer.take (buffer.length - round.left)).length =
                (old ++ buffer.take (buffer.length - round.left)).length :=
            hend.imp id fun hoff => by rw [List.length_append, hoff]
          obtain ⟨hstate, hsuccess⟩ := ih (by exact hplace) hend' h
          constructor
          · rw [hstate, List.flatMap_cons, haccepted, List.append_assoc]
          · rw [hsuccess]
            simp [hwrite, hdata]

/-- The put comes to the point where it opens the file. -/
structure PutOpens (c : Container) (path : Text) (flags : JobFlags) (answers : PutAnswers) :
    Prop where
  allowed : answers.info.ret = .AFC_E_OBJECT_NOT_FOUND ∨ flags.Overwrite ∨ flags.Resume
  fileOpen : answers.fileOpen.passes
  fits : c.Fits (placeOf path)

/-- What is promised of a put: what was there, if that is to be kept, and all the data. -/
def PutRight (c : Container) (place : Key) (flags : JobFlags) (answers : PutAnswers)
    (result : WorkerResult) (c' : Container) : Prop :=
  result.success = true → c'.file? place =
    some (opened c place flags.Resume ++ answers.rounds.flatMap PutRound.given)

lemma putIn_right {path : Text} {answers : PutAnswers} (h : putIn path flags answers c = some o) :
    PutRight c (placeOf path) flags answers o.result o.state ↔
      (PutOpens c path flags answers → answers.Undisturbed →
        ∀ round ∈ answers.rounds, round.accepted = round.given) := by
  have hrefused : o.result.success = false → ¬ PutOpens c path flags answers →
      (PutRight c (placeOf path) flags answers o.result o.state ↔
        (PutOpens c path flags answers → answers.Undisturbed →
          ∀ round ∈ answers.rounds, round.accepted = round.given)) := by
    intro hfail hnot
    simp [PutRight, hfail, hnot]
  unfold putIn at h
  dsimp only at h
  split at h
  · next hexists =>
    obtain rfl := Option.some.inj h
    rw [Bool.and_eq_true, Bool.and_eq_true, taken_entry, Bool.not_eq_true',
      Bool.not_eq_true'] at hexists
    refine hrefused (success_alreadyExists _ _) fun hopens => ?_
    rcases hopens.allowed with hfound | hover | hres
    · exact hexists.1.1 hfound
    · simp [hover] at hexists
    · simp [hres] at hexists
  · next hexists =>
    have hallowed : answers.info.ret = .AFC_E_OBJECT_NOT_FOUND ∨ flags.Overwrite ∨
        flags.Resume := by
      rw [Bool.and_eq_true, Bool.and_eq_true, taken_entry, Bool.not_eq_true',
        Bool.not_eq_true'] at hexists
      by_contra hnone
      simp only [not_or, Bool.not_eq_true] at hnone
      exact hexists ⟨⟨hnone.1, hnone.2.1⟩, hnone.2.2⟩
    rcases hopen : AfcFile.open c path (if flags.Resume then .Append else .WriteOnly)
      answers.fileOpen with result | ⟨file, c₁⟩
    · rw [hopen] at h
      obtain rfl := Option.some.inj h
      obtain ⟨hfail, hnot⟩ := open_write_error hopen
      exact hrefused hfail fun hopens => hnot ⟨hopens.fileOpen, hopens.fits⟩
    · rw [hopen] at h
      obtain ⟨hfileOpen, hfits, rfl, rfl⟩ := open_write hopen
      obtain ⟨⟨result, c'⟩, hloop, rfl⟩ := Option.map_eq_some_iff.mp h
      obtain ⟨rfl, hsuccess⟩ := putLoop_stored hfits rfl (append_or_offset c _ _) hloop
      have hund : result.success = true ↔ answers.Undisturbed :=
        hsuccess.trans ⟨fun h => ⟨h.1, h.2⟩, fun h => ⟨h.read, h.write⟩⟩
      have hprefix : ∀ round : PutRound, round.accepted <+: round.given := fun round =>
        List.take_prefix _ _
      unfold PutRight
      rw [file?_set_self, Option.some.injEq, List.append_cancel_left_eq,
        Pieces.flatMap_prefix_iff hprefix, hund]
      exact ⟨fun h _ => h, fun h => h ⟨hallowed, hfileOpen, hfits⟩⟩

/-! ### The operations of the worker -/

/-- Two URLs name places in one container. -/
structure Together (src dest : AfcUrl) : Prop where
  device : src.device = dest.device
  appId : src.appId = dest.appId

/-- The promise about copies within a container. -/
def CopyKept (worker : AfcWorker) (src dest : QUrl) (o : Outcome AfcWorker) : Prop :=
  Together (AfcUrl.of src) (AfcUrl.of dest) → ∀ c c',
    worker.container (AfcUrl.of dest).device (AfcUrl.of dest).appId = some c →
    o.state.container (AfcUrl.of dest).device (AfcUrl.of dest).appId = some c' →
    CopyRight c (AfcUrl.of src).place (AfcUrl.of dest).place o.result o.killed c'

/-- The promise about putting data into a file. -/
def PutKept (worker : AfcWorker) (url : QUrl) (flags : JobFlags) (answers : PutAnswers)
    (o : Outcome AfcWorker) : Prop :=
  ∀ c c', worker.container (AfcUrl.of url).device (AfcUrl.of url).appId = some c →
    o.state.container (AfcUrl.of url).device (AfcUrl.of url).appId = some c' →
    PutRight c (AfcUrl.of url).place flags answers o.result c'

lemma CopyRight.refused {dest : Key} {result : WorkerResult} (h : result.success = false) :
    CopyRight c src dest result killed c where
  copied hsuccess := by
    rw [h] at hsuccess
    cases hsuccess
  spared _ _ hobject := hobject
  source := rfl

/-- **Transfers on a device.** A copy keeps its promise when it is careful; a put does just if the
device takes all that it is given. -/
theorem copies_and_puts_right (worker : AfcWorker) (flags : JobFlags) :
    (∀ src dest answers o, worker.copy src dest flags answers = some o →
      (∀ c, worker.Connects (AfcUrl.of src) answers.client →
        worker.container (AfcUrl.of src).device (AfcUrl.of src).appId = some c →
        Opens c (AfcUrl.of src).path (AfcUrl.of dest).path flags answers →
        Careful c (AfcUrl.of src).place (AfcUrl.of dest).place flags answers) →
      CopyKept worker src dest o) ∧
    ∀ url answers o, worker.put url flags answers = some o →
      (PutKept worker url flags answers o ↔
        ∀ c, worker.Connects (AfcUrl.of url) answers.client →
          worker.container (AfcUrl.of url).device (AfcUrl.of url).appId = some c →
          PutOpens c (AfcUrl.of url).path flags answers → answers.Undisturbed →
          ∀ round ∈ answers.rounds, round.accepted = round.given) := by
  constructor
  · intro src dest answers o h hcareful htogether c c' hc hc'
    unfold AfcWorker.copy at h
    dsimp only at h
    rw [if_neg (by simpa using htogether.device)] at h
    rw [← htogether.device, ← htogether.appId] at hc hc'
    rcases clientForUrl_cases h with ⟨-, hfail, hsame⟩ |
      ⟨hconnects, c₀, o', hc₀, ho', hres, hkilled, hput⟩
    · obtain rfl := Option.some.inj (hc'.symm.trans ((hsame _ _).trans hc))
      exact CopyRight.refused hfail
    · obtain rfl := Option.some.inj (hc.symm.trans hc₀)
      rw [hput, if_pos rfl] at hc'
      obtain rfl := Option.some.inj hc'
      rw [hres, hkilled]
      exact copyIn_right ho' fun hopens => hcareful c hconnects hc hopens
  · intro url answers o h
    rcases clientForUrl_cases h with ⟨hnot, hfail, hsame⟩ |
      ⟨hconnects, c, o', hc, ho', hres, -, hput⟩
    · constructor
      · exact fun _ c hconnects => absurd hconnects hnot
      · intro _ c c' _ _ hsuccess
        rw [hfail] at hsuccess
        cases hsuccess
    · have hiff := putIn_right ho'
      constructor
      · intro hkept c₁ _ hc₁
        obtain rfl := Option.some.inj (hc.symm.trans hc₁)
        apply hiff.mp
        have hright := hkept c o'.state hc (by rw [hput, if_pos rfl])
        rwa [hres] at hright
      · intro hwhole c₁ c' hc₁ hc'
        obtain rfl := Option.some.inj (hc.symm.trans hc₁)
        rw [hput, if_pos rfl] at hc'
        obtain rfl := Option.some.inj hc'
        rw [hres]
        exact hiff.mpr (hwhole c hconnects hc)

/-! A phone with one file, and copies of it. -/

def nameA : Name '/' := ⟨['a'], by decide, by decide⟩

def oneFile : Container := (Tree.empty : Container).set (p := [nameA]) (by decide) (some [1, 2])

def phone : AfcWorker := fun id =>
  if id = "PHONE".toList then some ⟨fun _ => oneFile, true, none⟩ else none

def fileA : QUrl := ⟨true, "afc".toList, "phone".toList, "/a".toList⟩

def fileB : QUrl := ⟨true, "afc".toList, "phone".toList, "/b".toList⟩

lemma of_fileA : (AfcUrl.of fileA).device = "PHONE".toList ∧ (AfcUrl.of fileA).appId = [] ∧
    (AfcUrl.of fileA).place = [nameA] := by
  decide

lemma of_fileB : (AfcUrl.of fileB).device = "PHONE".toList ∧ (AfcUrl.of fileB).appId = [] ∧
    (AfcUrl.of fileB).place ≠ [nameA] := by
  decide

lemma container_phone (appId : Text) : phone.container "PHONE".toList appId = some oneFile := by
  simp [AfcWorker.container, phone]

lemma file?_oneFile : oneFile.file? [nameA] = some [1, 2] := by decide

/-- The device offers all of the file, and leaves some of what it is given. -/
def leaving (left : ℕ) : CopyAnswers where
  client := ⟨none, none⟩
  srcInfo := ⟨.AFC_E_SUCCESS, some ⟨some 2, false⟩⟩
  destInfo := ⟨.AFC_E_OBJECT_NOT_FOUND, none⟩
  srcOpen := .AFC_E_SUCCESS
  destOpen := .AFC_E_SUCCESS
  rounds := [⟨.AFC_E_SUCCESS, 2, .AFC_E_SUCCESS, left⟩]
  killed := false
  del := .AFC_E_SUCCESS

/-- The copy with whole writes. -/
theorem whole_copy_right : ∃ o, phone.copy fileA fileB DefaultFlags (leaving 0) = some o ∧
    CopyKept phone fileA fileB o := by
  have hsome : (phone.copy fileA fileB DefaultFlags (leaving 0)).isSome := by decide
  obtain ⟨o, ho⟩ := Option.isSome_iff_exists.mp hsome
  refine ⟨o, ho, (copies_and_puts_right phone DefaultFlags).1 _ _ _ _ ho fun c _ hc _ => ?_⟩
  have hund : (leaving 0).Undisturbed := ⟨rfl, by decide, by decide⟩
  rw [of_fileA.1, container_phone] at hc
  obtain rfl := Option.some.inj hc
  rw [of_fileA.2.2]
  refine ⟨of_fileB.2.2.symm, fun hnot => absurd hund hnot, fun _ => ?_,
    fun _ content hcontent => ?_, fun _ => by decide⟩
  · rfl
  · rw [file?_oneFile] at hcontent
    rw [← Option.some.inj hcontent]
    rfl

/-- The device takes the first byte only, and the copy reports success. -/
theorem short_write_lost : ¬ ∀ (worker : AfcWorker) (src dest : QUrl) (flags : JobFlags)
    (answers : CopyAnswers) (o : Outcome AfcWorker),
    worker.copy src dest flags answers = some o → CopyKept worker src dest o := by
  intro h
  have hrun : ((phone.copy fileA fileB DefaultFlags (leaving 1)).map fun o =>
      (o.result, o.killed, (o.state.container "PHONE".toList []).map fun c =>
        c.file? (AfcUrl.of fileB).place)) = some (.pass, false, some (some [1])) := by
    decide
  obtain ⟨o, ho, heq⟩ := Option.map_eq_some_iff.mp hrun
  obtain ⟨hres, hrest⟩ := Prod.mk.inj heq
  obtain ⟨hkilled, hstate⟩ := Prod.mk.inj hrest
  obtain ⟨c', hc', hdest⟩ := Option.map_eq_some_iff.mp hstate
  have htogether : Together (AfcUrl.of fileA) (AfcUrl.of fileB) :=
    ⟨of_fileA.1.trans of_fileB.1.symm, of_fileA.2.1.trans of_fileB.2.1.symm⟩
  have hright := h _ _ _ _ _ o ho htogether oneFile c'
  rw [of_fileB.1, of_fileB.2.1] at hright
  obtain ⟨content, hsrc, hcopied⟩ :=
    (hright (container_phone []) hc').copied (by rw [hres]; rfl) hkilled
  rw [of_fileA.2.2, file?_oneFile] at hsrc
  rw [hdest] at hcopied
  have heq : ([1, 2] : Bytes) = [1] := (Option.some.inj hsrc).trans (Option.some.inj hcopied).symm
  exact absurd heq (by decide)

end KioExtras.Afc
