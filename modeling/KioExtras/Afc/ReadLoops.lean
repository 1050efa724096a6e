import KioExtras.Afc.Transfer
import Mathlib.Data.Stream.Init

/-!
The loops over `AfcFileReader::read`: those of `get` and `read`, which send what they read, and that
of `copy`.

A read that finds the end of the file is a success without bytes. The reader goes on until it has
got as many bytes as it was told there are.
-/

namespace KioExtras.Afc

open KioExtras.Kio KioExtras.Lib KioExtras.Lib.Directories

/-- A successful `afc_file_read`: how many bytes it offers of those that are asked for. -/
structure Answer where
  ret : afc_error_t
  passes : ret.passes = true
  offered : ℕ

/-! ### Sending -/

/-- The loop of `get` and `read`, for at most so many looks at `hasMore`. -/
def dataLoop (c : Container) : ℕ → Stream' Answer → AfcFileReader → List Bytes →
    Option (WorkerResult × List Bytes)
  | 0, _, _, _ => none
  | fuel + 1, answers, reader, sent =>
    if reader.hasMore then
      let (result, data, reader) := reader.read c answers.head.ret answers.head.offered
      if result.success then dataLoop c fuel answers.tail reader (sent ++ [data])
      else some (result, sent)
    else some (.pass, sent)

def AfcWorker.read (c : Container) (m_openFile : Option Handle) (bytesRequested : ℕ)
    (answers : Stream' Answer) (fuel : ℕ) : Option (WorkerResult × List Bytes) :=
  match m_openFile with
  | none => some (.fail .ERR_CANNOT_READ "Cannot read without opening file first", [])
  | some file => dataLoop c fuel answers ⟨file, bytesRequested⟩ []

def afc_file_seek (h : Handle) (offset : ℕ) (ret : afc_error_t) : Handle :=
  if ret.passes then { h with offset := offset } else h

variable (c : Container)

/-- The file behind the look at its first bytes. -/
def guessMimeType (file : Handle) (answer : Answer) (seek : afc_error_t) : Handle :=
  let (_, _, reader) := AfcFileReader.read ⟨file, 1024⟩ c answer.ret answer.offered
  afc_file_seek reader.handle 0 seek

structure GetAnswers where
  info : InfoAnswer
  fileOpen : afc_error_t
  mime : Answer
  seek : afc_error_t
  reads : Stream' Answer

def getIn (path : Text) (answers : GetAnswers) (c : Container) (fuel : ℕ) :
    Option (WorkerResult × List Bytes) :=
  let (result, entry) := AfcClient.entry path answers.info
  if result.success then
    match AfcFile.open c path .ReadOnly answers.fileOpen with
    | .error result => some (result, [])
    | .ok (file, c) =>
      dataLoop c fuel answers.reads ⟨guessMimeType c file answers.mime answers.seek, entry.size⟩ []
  else some (result, [])

/-! ### Copying -/

/-- The loop of `copy`, by what `wasKilled()` and the calls for both files return. -/
def copyTurns : ℕ → Stream' Bool → Stream' Answer → Stream' afc_error_t → ℕ → Option Ending
  | 0, _, _, _, _ => none
  | fuel + 1, killed, reads, writes, m_remainingSize =>
    if killed.head then some .killed
    else if 0 < m_remainingSize then
      let bytesRead := min (min m_remainingSize intMax) reads.head.offered
      if writes.head.passes then
        copyTurns fuel killed.tail reads.tail writes.tail (m_remainingSize - bytesRead)
      else some (.failed (Result.from writes.head))
    else some .finished

/-! ### What is offered -/

variable (answers : Stream' Answer)

/-- What a reader takes at most of the first answers. -/
def offeredBy (k : ℕ) : ℕ :=
  ((answers.take k).map fun a => min a.offered intMax).sum

@[simp] lemma offeredBy_zero : offeredBy answers 0 = 0 := rfl

lemma offeredBy_succ (k : ℕ) : offeredBy answers (k + 1) =
    min answers.head.offered intMax + offeredBy answers.tail k := by
  simp [offeredBy, Stream'.take_succ]

/-- The file is as long as announced, and its bytes are offered. -/
def Delivers (content : Bytes) (offset size : ℕ) (answers : Stream' Answer) : Prop :=
  size = 0 ∨ (offset + size ≤ content.length ∧ ∃ k, size ≤ offeredBy answers k)

def chunkOf (content : Bytes) (offset size : ℕ) (answer : Answer) : Bytes :=
  (content.drop offset).take (min (min size intMax) answer.offered)

lemma length_chunkOf (content : Bytes) (offset size : ℕ) (answer : Answer) :
    (chunkOf content offset size answer).length =
      min (min (min size intMax) answer.offered) (content.length - offset) := by
  rw [chunkOf, List.length_take, List.length_drop]

lemma chunkOf_append (content : Bytes) (offset size : ℕ) (answer : Answer) :
    chunkOf content offset size answer ++
        (content.drop (offset + (chunkOf content offset size answer).length)).take
          (size - (chunkOf content offset size answer).length) =
      (content.drop offset).take size := by
  have hle : (chunkOf content offset size answer).length ≤ size := by
    rw [length_chunkOf]
    omega
  have hchunk : chunkOf content offset size answer =
      (content.drop offset).take (chunkOf content offset size answer).length := by
    rw [length_chunkOf, chunkOf, ← List.length_drop, ← List.take_eq_take_min]
  generalize (chunkOf content offset size answer).length = n at hle hchunk
  rw [hchunk, ← List.drop_drop]
  obtain ⟨rest, rfl⟩ := Nat.exists_eq_add_of_le hle
  rw [Nat.add_sub_cancel_left, ← List.take_add]

def Handle.moved (h : Handle) (count : ℕ) : Handle := { h with offset := h.offset + count }

@[simp] lemma moved_offset (h : Handle) (count : ℕ) : (h.moved count).offset = h.offset + count :=
  rfl

section

variable {c : Container} {content : Bytes} {h : Handle} {answers : Stream' Answer}
  {sent : List Bytes} {size fuel : ℕ}

lemma dataLoop_more (hcontent : (c.file? h.place).getD [] = content) (hsize : 0 < size) :
    dataLoop c (fuel + 1) answers ⟨h, size⟩ sent = dataLoop c fuel answers.tail
      ⟨h.moved (chunkOf content h.offset size answers.head).length,
        size - (chunkOf content h.offset size answers.head).length⟩
      (sent ++ [chunkOf content h.offset size answers.head]) := by
  have hne : size ≠ 0 := Nat.ne_of_gt hsize
  rw [dataLoop]
  simp [AfcFileReader.hasMore, hsize, AfcFileReader.read, hne, afc_file_read, hcontent,
    answers.head.passes, WorkerResult.success, Handle.moved, chunkOf]

lemma dataLoop_done : dataLoop c (fuel + 1) answers ⟨h, 0⟩ sent = some (.pass, sent) := by
  rw [dataLoop]
  simp [AfcFileReader.hasMore]

lemma dataLoop_sent (hcontent : (c.file? h.place).getD [] = content)
    {r : WorkerResult × List Bytes} (hrun : dataLoop c fuel answers ⟨h, size⟩ sent = some r) :
    Delivers content h.offset size answers ∧ r.1 = .pass ∧
      r.2.flatten = sent.flatten ++ (content.drop h.offset).take size := by
  induction fuel generalizing answers h size sent with
  | zero => cases hrun
  | succ fuel ih =>
    rcases Nat.eq_zero_or_pos size with rfl | hsize
    · rw [dataLoop_done] at hrun
      obtain rfl := Option.some.inj hrun
      exact ⟨Or.inl rfl, rfl, by simp⟩
    · rw [dataLoop_more hcontent hsize] at hrun
      have hplace : (c.file? (h.moved
          (chunkOf content h.offset size answers.head).length).place).getD [] = content := hcontent
      obtain ⟨hrest, hpass, hflat⟩ := ih hplace hrun
      have hlen := length_chunkOf content h.offset size answers.head
      refine ⟨Or.inr ?_, hpass, ?_⟩
      · rw [moved_offset] at hrest
        rcases hrest with hzero | ⟨hle, k, hk⟩
        · -- the last turn has read all that was left
          refine ⟨by omega, 1, ?_⟩
          rw [offeredBy_succ, offeredBy_zero]
          omega
        · refine ⟨by omega, k + 1, ?_⟩
          rw [offeredBy_succ]
          omega
      · rw [hflat, moved_offset, List.flatten_append, List.append_assoc]
        congr 1
        rw [List.flatten_singleton]
        exact chunkOf_append content h.offset size answers.head

lemma dataLoop_ends (hcontent : (c.file? h.place).getD [] = content)
    (hdelivers : Delivers content h.offset size answers) :
    ∃ fuel, (dataLoop c fuel answers ⟨h, size⟩ sent).isSome := by
  rcases Nat.eq_zero_or_pos size with rfl | hsize
  · exact ⟨1, by rw [dataLoop_done]; rfl⟩
  obtain ⟨hlong, k, hk⟩ := hdelivers.resolve_left (Nat.ne_of_gt hsize)
  induction k generalizing answers h size sent with
  | zero =>
    rw [offeredBy_zero] at hk
    omega
  | succ k ih =>
    rw [offeredBy_succ] at hk
    have hlen := length_chunkOf content h.offset size answers.head
    generalize hn : (chunkOf content h.offset size answers.head).length = n at hlen
    rcases Nat.eq_zero_or_pos (size - n) with hzero | hmore
    · refine ⟨2, ?_⟩
      rw [dataLoop_more hcontent hsize, hn, hzero, dataLoop_done]
      rfl
    · have hplace : (c.file? (h.moved n).place).getD [] = content := hcontent
      have hlong' : (h.moved n).offset + (size - n) ≤ content.length := by
        rw [moved_offset]
        omega
      have hk' : size - n ≤ offeredBy answers.tail k := by omega
      obtain ⟨fuel, hfuel⟩ := ih hplace (Or.inr ⟨hlong', k, hk'⟩) hmore hlong' hk'
      refine ⟨fuel + 1, ?_⟩
      rw [dataLoop_more hcontent hsize, hn]
      exact hfuel

lemma dataLoop_isSome_iff (hcontent : (c.file? h.place).getD [] = content) :
    (∃ fuel, (dataLoop c fuel answers ⟨h, size⟩ sent).isSome) ↔
      Delivers content h.offset size answers := by
  constructor
  · rintro ⟨fuel, hfuel⟩
    obtain ⟨r, hrun⟩ := Option.isSome_iff_exists.mp hfuel
    exact (dataLoop_sent hcontent hrun).1
  · exact dataLoop_ends hcontent

end

/-! ### Getting -/

def startOf (content : Bytes) (mime : Answer) (seek : afc_error_t) : ℕ :=
  if seek.passes then 0 else (chunkOf content 0 1024 mime).length

lemma guessMimeType_handle {c : Container} {content : Bytes} {h : Handle} (mime : Answer)
    (seek : afc_error_t) (hcontent : (c.file? h.place).getD [] = content) (hstart : h.offset = 0) :
    (guessMimeType c h mime seek).place = h.place ∧
      (guessMimeType c h mime seek).offset = startOf content mime seek := by
  have hmime : min 1024 intMax = 1024 := rfl
  cases hseek : seek.passes with
  | true =>
    simp [guessMimeType, afc_file_seek, hseek, startOf, AfcFileReader.read, mime.passes,
      afc_file_read]
  | false =>
    simp [guessMimeType, afc_file_seek, hseek, startOf, AfcFileReader.read, mime.passes,
      afc_file_read, hcontent, hstart, chunkOf]

lemma getIn_isSome_iff (path : Text) (answers : GetAnswers) :
    (∃ fuel, (getIn path answers c fuel).isSome) ↔
      ((AfcClient.entry path answers.info).1.success → answers.fileOpen.passes →
        ∀ content, c.file? (placeOf path) = some content →
          Delivers content (startOf content answers.mime answers.seek)
            (AfcClient.entry path answers.info).2.size answers.reads) := by
  cases hentry : (AfcClient.entry path answers.info).1.success with
  | false => simp [getIn, hentry]
  | true =>
    rcases hopen : AfcFile.open c path .ReadOnly answers.fileOpen with result | ⟨file, c'⟩
    · obtain ⟨-, hnot⟩ := open_read_error hopen
      have hvacuous : answers.fileOpen.passes = true →
          ∀ content, c.file? (placeOf path) ≠ some content :=
        fun hpasses content hfile => hnot ⟨hpasses, content, hfile⟩
      simp only [getIn, hentry, hopen, if_true, Option.isSome_some, exists_const, true_iff]
      exact fun _ hpasses content hfile => absurd hfile (hvacuous hpasses content)
    · obtain ⟨hpasses, rfl, rfl, content, hfile⟩ := open_read hopen
      have hcontent : (c'.file? (placeOf path)).getD [] = content := by
        rw [hfile, Option.getD_some]
      obtain ⟨hplace, hoffset⟩ := guessMimeType_handle (h := ⟨placeOf path, false, 0⟩)
        answers.mime answers.seek hcontent rfl
      have hplace' : (c'.file? (guessMimeType c' ⟨placeOf path, false, 0⟩ answers.mime
          answers.seek).place).getD [] = content := by rw [hplace, hcontent]
      simp only [getIn, hentry, hopen, if_true]
      rw [dataLoop_isSome_iff hplace', hoffset]
      constructor
      · intro hdelivers _ _ content' hfile'
        obtain rfl := Option.some.inj (hfile'.symm.trans hfile)
        exact hdelivers
      · intro hdelivers
        exact hdelivers trivial hpasses content hfile

/-! ### The loop of a copy -/

section

variable {killed : Stream' Bool} {reads : Stream' Answer} {writes : Stream' afc_error_t}
  {size : ℕ}

/-- What ends the loop of a copy. -/
def Stops (killed : Stream' Bool) (reads : Stream' Answer) (writes : Stream' afc_error_t)
    (size k : ℕ) : Prop :=
  killed.get k = true ∨ (writes.get k).passes = false ∨ size ≤ offeredBy reads k

lemma stops_succ (k : ℕ) : Stops killed reads writes size (k + 1) ↔
    Stops killed.tail reads.tail writes.tail (size - min (min size intMax) reads.head.offered)
      k := by
  unfold Stops
  rw [offeredBy_succ, ← Stream'.get_tail, ← Stream'.get_tail]
  apply or_congr Iff.rfl
  apply or_congr Iff.rfl
  omega

lemma copyTurns_stops {fuel : ℕ} {ending : Ending}
    (h : copyTurns fuel killed reads writes size = some ending) :
    ∃ k, Stops killed reads writes size k := by
  induction fuel generalizing killed reads writes size with
  | zero => cases h
  | succ fuel ih =>
    rw [copyTurns] at h
    split_ifs at h with hkilled hmore hwrite
    · exact ⟨0, Or.inl hkilled⟩
    · obtain ⟨k, hk⟩ := ih h
      exact ⟨k + 1, (stops_succ k).mpr hk⟩
    · exact ⟨0, Or.inr (Or.inl (by simpa using hwrite))⟩
    · exact ⟨0, Or.inr (Or.inr (by simpa using hmore))⟩

lemma copyTurns_ends {k : ℕ} (hstops : Stops killed reads writes size k) :
    (copyTurns (k + 1) killed reads writes size).isSome := by
  induction k generalizing killed reads writes size with
  | zero =>
    rw [copyTurns]
    split_ifs with hkilled hmore hwrite
    · rfl
    · rcases hstops with hyes | hyes | hyes
      · exact absurd hyes hkilled
      · have hfails : writes.head.passes = false := hyes
        rw [hwrite] at hfails
        cases hfails
      · rw [offeredBy_zero] at hyes
        omega
    · rfl
    · rfl
  | succ k ih =>
    rw [copyTurns]
    split_ifs with hkilled hmore hwrite
    · rfl
    · exact ih ((stops_succ k).mp hstops)
    · rfl
    · rfl

/-- **The loop of a copy** ends just if it is killed, if a write fails, or if the device offers as
many bytes as announced. -/
lemma copyTurns_isSome_iff : (∃ fuel, (copyTurns fuel killed reads writes size).isSome) ↔
    ∃ k, Stops killed reads writes size k := by
  constructor
  · rintro ⟨fuel, hfuel⟩
    obtain ⟨ending, hrun⟩ := Option.isSome_iff_exists.mp hfuel
    exact copyTurns_stops hrun
  · rintro ⟨k, hstops⟩
    exact ⟨k + 1, copyTurns_ends hstops⟩

end

def nothing : Answer := ⟨.AFC_E_END_OF_DATA, rfl, 0⟩

lemma copyLoop_turns {killed : Bool} {c : Container} {reader : AfcFileReader} {destFile : Handle}
    {rounds : List Round} {r : Container × Ending}
    (hreads : ∀ round ∈ rounds, round.read.passes = true)
    (h : copyLoop killed c reader destFile rounds = some r) :
    ∃ reads writes, copyTurns (rounds.length + 1)
      (List.replicate rounds.length false ++ₛ Stream'.const killed) reads writes
        reader.m_remainingSize = some r.2 := by
  induction rounds generalizing c reader destFile with
  | nil =>
    refine ⟨Stream'.const nothing, Stream'.const .AFC_E_SUCCESS, ?_⟩
    rcases copyLoop_nil h with ⟨rfl, rfl⟩ | ⟨rfl, hzero, rfl⟩
    · rfl
    · rw [hzero]
      rfl
  | cons round rounds ih =>
    obtain ⟨hpass, hreads⟩ := List.forall_mem_cons.mp hreads
    obtain ⟨chunk, srcFile, hread, hmore, hturn⟩ := copyLoop_cons h
    have hlen : chunk.length ≤ min reader.m_remainingSize intMax := by
      rw [← (Prod.mk.inj hread).1, List.length_take]
      omega
    have hstep : ∀ reads writes, copyTurns ((round :: rounds).length + 1)
        (List.replicate (round :: rounds).length false ++ₛ Stream'.const killed)
        (Stream'.cons ⟨round.read, hpass, chunk.length⟩ reads) (Stream'.cons round.write writes)
          reader.m_remainingSize =
        if round.write.passes then copyTurns (rounds.length + 1)
          (List.replicate rounds.length false ++ₛ Stream'.const killed) reads writes
            (reader.m_remainingSize - chunk.length)
        else some (.failed (Result.from round.write)) := by
      intro reads writes
      rw [List.length_cons, copyTurns]
      simp only [List.replicate_succ, Stream'.cons_append_stream, Stream'.head_cons,
        Stream'.tail_cons, Bool.false_eq_true, if_false, hmore, if_true, Nat.min_eq_right hlen]
    rcases hturn with ⟨-, hwrite, hrest⟩ | ⟨-, hwrite, -, -, rfl⟩ | ⟨hfail, -⟩
    · obtain ⟨reads, writes, hrun⟩ := ih hreads hrest
      exact ⟨_, _, by rw [hstep reads writes, if_pos hwrite]; exact hrun⟩
    · refine ⟨_, _, (hstep (Stream'.const nothing) (Stream'.const .AFC_E_SUCCESS)).trans ?_⟩
      rw [hwrite]
      rfl
    · rw [hpass] at hfail
      cases hfail

/-! ### The three loops -/

/-- What is promised of reading so many bytes from an open file. -/
def ReadKept (file : Handle) (bytesRequested : ℕ) (answers : Stream' Answer) :
    Prop :=
  ∃ fuel sent, AfcWorker.read c (some file) bytesRequested answers fuel = some (.pass, sent) ∧
    sent.flatten = (((c.file? file.place).getD []).drop file.offset).take bytesRequested

/-- **The loops over the reader** end just if the device goes on to offer bytes until there are as
many as were announced or asked for, and then a read has sent what it should. -/
theorem read_loops_end_iff (c : Container) :
    (∀ path answers, (∃ fuel, (getIn path answers c fuel).isSome) ↔
      ((AfcClient.entry path answers.info).1.success → answers.fileOpen.passes →
        ∀ content, c.file? (placeOf path) = some content →
          Delivers content (startOf content answers.mime answers.seek)
            (AfcClient.entry path answers.info).2.size answers.reads)) ∧
    (∀ file bytesRequested answers, ReadKept c file bytesRequested answers ↔
      Delivers ((c.file? file.place).getD []) file.offset bytesRequested answers) ∧
    ∀ killed reads writes size, (∃ fuel, (copyTurns fuel killed reads writes size).isSome) ↔
      ∃ k, killed.get k = true ∨ (writes.get k).passes = false ∨ size ≤ offeredBy reads k := by
  refine ⟨fun path answers => getIn_isSome_iff c path answers, fun file n answers => ?_,
    fun killed reads writes size => copyTurns_isSome_iff⟩
  constructor
  · rintro ⟨fuel, sent, hrun, -⟩
    exact (dataLoop_sent rfl hrun).1
  · intro hdelivers
    obtain ⟨fuel, hends⟩ := dataLoop_ends rfl hdelivers
    have hsome : (dataLoop c fuel answers ⟨file, n⟩ []).isSome := hends
    obtain ⟨⟨result, sent⟩, hrun⟩ := Option.isSome_iff_exists.mp hsome
    obtain ⟨-, hpass, hflat⟩ := dataLoop_sent rfl hrun
    refine ⟨fuel, sent, ?_, by simpa using hflat⟩
    rw [← show result = .pass from hpass]
    exact hrun

/-- Three bytes are asked for and the file has two: the read goes on without end. -/
theorem short_file_endless : ¬ ∀ (c : Container) (file : Handle) (bytesRequested : ℕ)
    (answers : Stream' Answer), ReadKept c file bytesRequested answers := by
  intro h
  obtain ⟨fuel, sent, hrun, -⟩ := h oneFile ⟨[nameA], false, 0⟩ 3
    (Stream'.cons ⟨.AFC_E_SUCCESS, rfl, 2⟩ (Stream'.const nothing))
  have hcontent : (oneFile.file? [nameA]).getD [] = [1, 2] := by rw [file?_oneFile]; rfl
  obtain ⟨hdelivers, -⟩ := dataLoop_sent hcontent hrun
  rcases hdelivers with hthree | ⟨hlong, -⟩
  · cases hthree
  · exact absurd hlong (by decide)

end KioExtras.Afc
