import KioExtras.Sftp.Read
import Mathlib.Data.List.TakeDrop

/-!
Reading a remote file without the `aio` functions of the library: `asyncRead` over `GetRequest`.

The requests in flight lie one behind the other in the file, from the next byte to yield up to
the position of the handle. An answer that falls short leaves the rest of its request at the
head of the queue. The reader goes on until the library has seen the end of the file, whatever
size it was given, where `asyncRead` with `aio` reads the size it was given and takes an answer
that falls short for an error. So what the two have in common is that they yield the file from
the position on and leave nothing out.
-/

namespace KioExtras.Sftp.PreAio

open KioExtras.Kio

structure Request where
  index : ℕ
  expectedLength : ℕ
  startOffset : ℕ

/-- `GetRequest` with the position and the end flag of its file handle; `sent` counts the
requests. -/
structure State where
  offset : ℕ
  eof : Bool
  pendingRequests : List Request
  sent : ℕ

section generator

variable (srv : ReadServer) (content : List UInt8) (size : ℕ)

/-- `sftp_async_read_begin`: the position moves on by what is asked for. -/
def begin_read (length : ℕ) (st : State) : Option (ℕ × State) :=
  if srv.begin_read st.sent then
    some (st.sent, { st with offset := st.offset + length, sent := st.sent + 1 })
  else none

/-- `none` when nothing is in flight and nothing can be sent. -/
def enqueueChunks : ℕ → State → Option State
  | 0, st => some st
  | n + 1, st =>
    if st.pendingRequests.length < MAX_PENDING_REQUESTS then
      match begin_read srv MAX_XFER_BUF_SIZE st with
      | none => if st.pendingRequests = [] then none else some st
      | some (index, st') =>
        let st' := { st' with
          pendingRequests := st.pendingRequests ++ [⟨index, MAX_XFER_BUF_SIZE, st.offset⟩] }
        if size ≤ st'.offset then some st' else enqueueChunks n st'
    else some st

/-- `sftp_async_read`: after the end of the file nothing is waited for, and the position goes
back by what an answer lacks. `none` is `SSH_ERROR`. -/
def async_read (r : Request) (st : State) : Option (List UInt8 × State) :=
  if st.eof then some ([], st)
  else match srv.wait_read r.index with
    | none => none
    | some n =>
      if content.length ≤ r.startOffset then some ([], { st with eof := true })
      else
        let bytes := (content.drop r.startOffset).take (min n r.expectedLength)
        some (bytes, { st with offset := st.offset - (r.expectedLength - bytes.length) })

def seek (offset : ℕ) (st : State) : State := { st with offset := offset, eof := false }

/-- The rest of a request is asked for again, in its place. -/
def requeue (initialOffset : ℕ) (r : Request) (rest : List Request) (n : ℕ) (st : State) :
    Option State :=
  match begin_read srv (r.expectedLength - n) (seek (r.startOffset + n) st) with
  | none => none
  | some (index, st') =>
    some { seek initialOffset st' with
      pendingRequests := ⟨index, r.expectedLength - n, r.startOffset + n⟩ :: rest }

/-- `none` is the return of -1; the data read until then is not looked at. -/
def readChunks (initialOffset : ℕ) :
    List Request → State → List UInt8 → Option (List UInt8 × State)
  | [], st, data => some (data, { st with pendingRequests := [] })
  | r :: rest, st, data =>
    match async_read srv content r st with
    | none => none
    | some ([], st') => some (data, { st' with pendingRequests := rest })
    | some (b :: bytes, st') =>
      if (b :: bytes).length < r.expectedLength then
        (requeue srv initialOffset r rest (b :: bytes).length st').map
          fun st'' => (data ++ b :: bytes, st'')
      else readChunks initialOffset rest st' (data ++ b :: bytes)

/-- The loop of the generator, at most `fuel` rounds; `none` when there are more. -/
def readLoop : ℕ → State → Option (List ReadResponse)
  | 0, _ => none
  | fuel + 1, st =>
    match enqueueChunks srv size MAX_PENDING_REQUESTS st with
    | none => some [⟨[], some .ERR_CANNOT_READ⟩]
    | some st' =>
      match readChunks srv content st'.offset st'.pendingRequests st' [] with
      | none => some [⟨[], some .ERR_CANNOT_READ⟩]
      | some ([], st'') => if st''.eof then some [] else readLoop fuel st''
      | some (b :: filedata, st'') =>
        (readLoop fuel st'').map fun rs => ⟨b :: filedata, none⟩ :: rs

end generator

/-- The responses for a file of `content` from the position `start` of its handle; every round
that goes on yields a byte, see `asyncRead_spec`. -/
def asyncRead (srv : ReadServer) (content : List UInt8) (start size : ℕ) :
    Option (List ReadResponse) :=
  readLoop srv content size (content.length + 2) ⟨start, false, [], 0⟩

/-! ### The requests in flight -/

/-- The requests lie one behind the other from `pos` to `stop`. -/
def Tiles : ℕ → List Request → ℕ → Prop
  | pos, [], stop => pos = stop
  | pos, r :: rest, stop =>
    r.startOffset = pos ∧ 0 < r.expectedLength ∧ Tiles (pos + r.expectedLength) rest stop

lemma Tiles.snoc {pos stop : ℕ} {rs : List Request} (h : Tiles pos rs stop) {r : Request}
    (hr : r.startOffset = stop) (hlen : 0 < r.expectedLength) :
    Tiles pos (rs ++ [r]) (stop + r.expectedLength) := by
  induction rs generalizing pos with
  | nil =>
    obtain rfl : pos = stop := h
    exact ⟨hr, hlen, rfl⟩
  | cons s rs ih =>
    obtain ⟨hs, hpos, hrest⟩ := h
    exact ⟨hs, hpos, ih hrest⟩

/-- The bytes before `pos` have been yielded: those from there on are asked for, or there are
none. -/
def Pending (content : List UInt8) (pos : ℕ) (st : State) : Prop :=
  if st.eof then content.length ≤ pos else Tiles pos st.pendingRequests st.offset

section invariant

variable {srv : ReadServer} {content : List UInt8} {size pos : ℕ}

variable {st st' : State} {r : Request} {rs : List Request}

lemma enqueueChunks_spec {n : ℕ} (hn : 0 < n) (h : enqueueChunks srv size n st = some st')
    (hp : Pending content pos st) :
    Pending content pos st' ∧ st'.pendingRequests ≠ [] ∧ st'.eof = st.eof := by
  induction n generalizing st with
  | zero => omega
  | succ n ih =>
    rw [enqueueChunks] at h
    by_cases hroom : st.pendingRequests.length < MAX_PENDING_REQUESTS
    · rw [if_pos hroom] at h
      unfold begin_read at h
      by_cases hb : srv.begin_read st.sent = true
      · rw [if_pos hb] at h
        have hstep : Pending content pos
            ⟨st.offset + MAX_XFER_BUF_SIZE, st.eof,
              st.pendingRequests ++ [⟨st.sent, MAX_XFER_BUF_SIZE, st.offset⟩], st.sent + 1⟩ := by
          unfold Pending at hp ⊢
          by_cases heof : st.eof = true
          · simpa [heof] using hp
          · rw [if_neg heof] at hp ⊢
            exact hp.snoc rfl (show 0 < MAX_XFER_BUF_SIZE by decide)
        by_cases hstop : size ≤ st.offset + MAX_XFER_BUF_SIZE
        · simp only [hstop, if_true, Option.some.injEq] at h
          obtain rfl := h
          exact ⟨hstep, by simp, rfl⟩
        · simp only [hstop, if_false] at h
          rcases Nat.eq_zero_or_pos n with rfl | hpos
          · obtain rfl : _ = st' := by simpa [enqueueChunks] using h
            exact ⟨hstep, by simp, rfl⟩
          · have hrest := ih hpos h hstep
            exact hrest
      · rw [if_neg hb] at h
        by_cases hempty : st.pendingRequests = []
        · simp [hempty] at h
        · obtain rfl : st = st' := by simpa [hempty] using h
          exact ⟨hp, hempty, rfl⟩
    · rw [if_neg hroom] at h
      obtain rfl := Option.some.inj h
      refine ⟨hp, ?_, rfl⟩
      intro hempty
      rw [hempty] at hroom
      exact hroom (by decide)

lemma take_append_drop_take (pos n : ℕ) :
    (content.drop pos).take n ++ content.drop (pos + ((content.drop pos).take n).length) =
      content.drop pos := by
  rw [← List.drop_drop, List.length_take]
  rcases Nat.le_total n (content.drop pos).length with hle | hle
  · rw [Nat.min_eq_left hle, List.take_append_drop]
  · rw [Nat.min_eq_right hle, List.take_of_length_le hle, List.drop_length, List.append_nil]

lemma async_read_cases (hdata : ∀ k, srv.wait_read k ≠ some 0) {bytes : List UInt8}
    (heof : st.eof = false) (hlen : 0 < r.expectedLength)
    (h : async_read srv content r st = some (bytes, st')) :
    (bytes = [] ∧ st'.eof = true ∧ content.length ≤ r.startOffset) ∨
      (bytes ≠ [] ∧ bytes.length ≤ r.expectedLength ∧
        bytes ++ content.drop (r.startOffset + bytes.length) = content.drop r.startOffset ∧
        st'.eof = false ∧ st'.offset = st.offset - (r.expectedLength - bytes.length)) := by
  unfold async_read at h
  rw [heof] at h
  cases hans : srv.wait_read r.index with
  | none => simp [hans] at h
  | some n =>
    have hn : n ≠ 0 := fun hzero => hdata r.index (by rw [hans, hzero])
    simp only [hans] at h
    by_cases hend : content.length ≤ r.startOffset
    · left
      obtain ⟨rfl, rfl⟩ : [] = bytes ∧ { st with eof := true } = st' := by simpa [hend] using h
      exact ⟨rfl, rfl, hend⟩
    · right
      simp only [Bool.false_eq_true, if_false, hend, Option.some.injEq, Prod.mk.injEq] at h
      obtain ⟨rfl, rfl⟩ := h
      have hlength : ((content.drop r.startOffset).take (min n r.expectedLength)).length =
          min (min n r.expectedLength) (content.length - r.startOffset) := by
        rw [List.length_take, List.length_drop]
      refine ⟨?_, by omega, take_append_drop_take _ _, rfl, rfl⟩
      intro hnil
      rw [hnil, List.length_nil] at hlength
      omega

lemma readChunks_spec (hdata : ∀ k, srv.wait_read k ≠ some 0) {acc data : List UInt8} {start : ℕ}
    (hrs : rs ≠ [] ∨ acc ≠ []) (heof : st.eof = false) (htiles : Tiles pos rs st.offset)
    (hacc : acc ++ content.drop pos = content.drop start) (hpos : pos = start + acc.length)
    (h : readChunks srv content st.offset rs st acc = some (data, st')) :
    data <+: content.drop start ∧ Pending content (start + data.length) st' ∧
      (data ≠ [] ∨ st'.eof = true) := by
  induction rs generalizing st acc pos with
  | nil =>
    obtain ⟨rfl, rfl⟩ : acc = data ∧ { st with pendingRequests := [] } = st' := by
      simpa [readChunks] using h
    refine ⟨⟨_, hacc⟩, ?_, Or.inl (by simpa using hrs)⟩
    unfold Pending
    rw [if_neg (by simp [heof]), ← hpos]
    exact htiles
  | cons r rest ih =>
    obtain ⟨hstart, hlen, hrest⟩ := htiles
    rw [readChunks] at h
    cases hread : async_read srv content r st with
    | none => simp [hread] at h
    | some res =>
      obtain ⟨bytes, st₁⟩ := res
      rcases async_read_cases hdata heof hlen hread with
        ⟨rfl, heof₁, hend⟩ | ⟨hne, hle, hbytes, heof₁, hoffset⟩
      · -- the end of the file
        obtain ⟨rfl, rfl⟩ : acc = data ∧ { st₁ with pendingRequests := rest } = st' := by
          simpa [hread] using h
        refine ⟨⟨_, hacc⟩, ?_, Or.inr heof₁⟩
        unfold Pending
        rw [if_pos heof₁, ← hpos, ← hstart]
        exact hend
      · obtain ⟨b, bytes, rfl⟩ := List.exists_cons_of_ne_nil hne
        have hacc' : (acc ++ b :: bytes) ++ content.drop (pos + (b :: bytes).length) =
            content.drop start := by
          rw [← hacc, List.append_assoc, ← hstart, hbytes]
        have hpos' : pos + (b :: bytes).length = start + (acc ++ b :: bytes).length := by
          rw [hpos, List.length_append]
          omega
        simp only [hread] at h
        by_cases hshort : (b :: bytes).length < r.expectedLength
        · -- the rest is asked for again
          rw [if_pos hshort] at h
          obtain ⟨st₂, hrequeue, heq⟩ := Option.map_eq_some_iff.mp h
          obtain ⟨rfl, rfl⟩ : acc ++ b :: bytes = data ∧ st₂ = st' := by simpa using heq
          refine ⟨⟨_, hacc'⟩, ?_, Or.inl (by simp)⟩
          unfold requeue begin_read at hrequeue
          split at hrequeue
          · simp at hrequeue
          · next index st₃ hbegin =>
            obtain rfl := Option.some.inj hrequeue
            unfold Pending
            rw [if_neg (by simp [seek]), ← hpos']
            refine ⟨by rw [hstart], by simp only; omega, ?_⟩
            have htotal : pos + (b :: bytes).length + (r.expectedLength - (b :: bytes).length) =
                pos + r.expectedLength := by omega
            show Tiles (_ + (r.expectedLength - (b :: bytes).length)) rest st.offset
            rwa [htotal]
        · rw [if_neg hshort] at h
          have hfull : (b :: bytes).length = r.expectedLength := by omega
          have hoffset₁ : st₁.offset = st.offset := by
            rw [hoffset, hfull, Nat.sub_self, Nat.sub_zero]
          rw [← hoffset₁] at h
          rw [← hfull, ← hoffset₁] at hrest
          exact ih (Or.inr (by simp)) heof₁ hrest hacc' hpos' h

lemma readChunks_eof {initialOffset : ℕ} (heof : st.eof = true) :
    readChunks srv content initialOffset (r :: rs) st [] =
      some ([], { st with pendingRequests := rs }) := by
  simp [readChunks, async_read, heof]

end invariant

/-! ### What the two versions yield -/

def bytes (rs : List ReadResponse) : List UInt8 := (rs.map ReadResponse.filedata).flatten

def NoError (rs : List ReadResponse) : Prop := ∀ r ∈ rs, r.error = none

@[simp] lemma bytes_cons (r : ReadResponse) (rs : List ReadResponse) :
    bytes (r :: rs) = r.filedata ++ bytes rs := rfl

@[simp] lemma noError_cons (r : ReadResponse) (rs : List ReadResponse) :
    NoError (r :: rs) ↔ r.error = none ∧ NoError rs := by
  simp [NoError]

@[simp] lemma noError_nil : NoError [] := by simp [NoError]

section run

variable {srv : ReadServer} {content : List UInt8} {size pos : ℕ}

variable {fuel : ℕ} {st : State}

/-- The loop ends, and what it yields is all of the file from `pos` on unless it ends with an
error. -/
lemma readLoop_spec (size : ℕ) (hdata : ∀ k, srv.wait_read k ≠ some 0) (hp : Pending content pos st)
    (hfuel : (st.eof = true ∧ 1 ≤ fuel) ∨ content.length - pos + 2 ≤ fuel) :
    ∃ rs, readLoop srv content size fuel st = some rs ∧ bytes rs <+: content.drop pos ∧
      (NoError rs → bytes rs = content.drop pos) := by
  induction fuel generalizing st pos with
  | zero => omega
  | succ fuel ih =>
    have hfailed : bytes [⟨[], some .ERR_CANNOT_READ⟩] <+: content.drop pos ∧
        (NoError [⟨[], some .ERR_CANNOT_READ⟩] →
          bytes [⟨[], some .ERR_CANNOT_READ⟩] = content.drop pos) :=
      ⟨List.nil_prefix, by simp⟩
    rw [readLoop]
    cases henqueue : enqueueChunks srv size MAX_PENDING_REQUESTS st with
    | none => exact ⟨_, rfl, hfailed⟩
    | some st₁ =>
      obtain ⟨hp₁, hne, heof⟩ := enqueueChunks_spec (by decide) henqueue hp
      obtain ⟨r, rest, hrs⟩ := List.exists_cons_of_ne_nil hne
      simp only
      by_cases hend : st₁.eof = true
      · -- the end has been seen: nothing more is read
        have hlast : content.drop pos = [] := by
          unfold Pending at hp₁
          rw [if_pos hend] at hp₁
          exact List.drop_eq_nil_of_le hp₁
        rw [hrs, readChunks_eof hend]
        simp only [hend, if_true]
        exact ⟨[], rfl, List.nil_prefix, fun _ => hlast.symm⟩
      · have hfuel' : content.length - pos + 2 ≤ fuel + 1 := by
          rcases hfuel with ⟨h, -⟩ | h
          · exact absurd (heof.trans h) hend
          · exact h
        have hend : st₁.eof = false := by simpa using hend
        have htiles : Tiles pos st₁.pendingRequests st₁.offset := by
          unfold Pending at hp₁
          rwa [if_neg (by simp [hend])] at hp₁
        cases hread : readChunks srv content st₁.offset st₁.pendingRequests st₁ [] with
        | none => exact ⟨_, rfl, hfailed⟩
        | some res =>
          obtain ⟨filedata, st₂⟩ := res
          obtain ⟨hfront, hp₂, hprogress⟩ := readChunks_spec hdata (Or.inl hne) hend htiles
            (List.nil_append (content.drop pos)) rfl hread
          cases filedata with
          | nil =>
            have hend₂ : st₂.eof = true := by simpa using hprogress
            have hlast : content.drop pos = [] := by
              unfold Pending at hp₂
              rw [if_pos hend₂] at hp₂
              exact List.drop_eq_nil_of_le hp₂
            simp only [hend₂, if_true]
            exact ⟨[], rfl, List.nil_prefix, fun _ => hlast.symm⟩
          | cons b filedata =>
            have hlength := hfront.length_le
            rw [List.length_drop, List.length_cons] at hlength
            have hsplit : (b :: filedata) ++ content.drop (pos + (b :: filedata).length) =
                content.drop pos := by
              obtain ⟨tail, htail⟩ := hfront
              rw [← List.drop_drop, ← htail, List.drop_left]
            obtain ⟨rs, hrs, hbytes, hall⟩ := ih hp₂ (by
              rcases Bool.eq_false_or_eq_true st₂.eof with h | h
              · exact Or.inl ⟨h, by omega⟩
              · right
                rw [List.length_cons]
                omega)
            refine ⟨⟨b :: filedata, none⟩ :: rs, ?_, ?_, ?_⟩
            · simp only [hrs, Option.map_some]
            · rw [bytes_cons, ← hsplit]
              exact (List.prefix_append_right_inj _).mpr hbytes
            · intro hno
              rw [bytes_cons, hall (noError_cons _ _ |>.mp hno).2, hsplit]

lemma readLoop_noError (hbegin : ∀ k, srv.begin_read k = true) (hwait : ∀ k, srv.wait_read k ≠ none)
    {rs : List ReadResponse} (h : readLoop srv content size fuel st = some rs) : NoError rs := by
  have henqueue (n : ℕ) (st : State) : enqueueChunks srv size n st ≠ none := by
    induction n generalizing st with
    | zero => simp [enqueueChunks]
    | succ n ih =>
      rw [enqueueChunks]
      split
      · simp only [begin_read, hbegin, if_true]
        split
        · simp
        · exact ih _
      · simp
  have hchunks (initialOffset : ℕ) (requests : List Request) (st : State) (acc : List UInt8) :
      readChunks srv content initialOffset requests st acc ≠ none := by
    induction requests generalizing st acc with
    | nil => simp [readChunks]
    | cons r rest ih =>
      rw [readChunks]
      cases hread : async_read srv content r st with
      | none =>
        unfold async_read at hread
        split at hread
        · simp at hread
        · cases hans : srv.wait_read r.index with
          | none => exact absurd hans (hwait _)
          | some n =>
            simp only [hans] at hread
            split at hread <;> simp at hread
      | some res =>
        obtain ⟨_ | ⟨b, bytes⟩, st'⟩ := res
        · simp
        · simp only
          split
          · simp [requeue, begin_read, hbegin]
          · exact ih _ _
  induction fuel generalizing st rs with
  | zero => simp [readLoop] at h
  | succ fuel ih =>
    rw [readLoop] at h
    cases hst : enqueueChunks srv size MAX_PENDING_REQUESTS st with
    | none => exact absurd hst (henqueue _ _)
    | some st₁ =>
      simp only [hst] at h
      cases hread : readChunks srv content st₁.offset st₁.pendingRequests st₁ [] with
      | none => exact absurd hread (hchunks _ _ _ _)
      | some res =>
        obtain ⟨_ | ⟨b, filedata⟩, st₂⟩ := res
        · simp only [hread] at h
          split at h
          · obtain rfl := Option.some.inj h
            exact noError_nil
          · exact ih h
        · simp only [hread] at h
          obtain ⟨rest, hrest, rfl⟩ := Option.map_eq_some_iff.mp h
          exact (noError_cons _ _).mpr ⟨rfl, ih hrest⟩

end run

section versions

open Read

variable {srv : ReadServer} {content : List UInt8} {start size c k : ℕ} {rs : List ReadResponse}

lemma reads_past (h : Reads srv content start size c k rs) (hk : size ≤ k * c) : rs = [] := by
  cases h with
  | done _ _ => rfl
  | error _ hlt _ => omega
  | data _ _ hlt _ _ => omega

/-- The version with `aio` yields the file from the position on, and the size asked for unless
it ends with an error. -/
lemma reads_bytes (h : Reads srv content start size c k rs) :
    bytes rs <+: content.drop (start + k * c) ∧
      (NoError rs → bytes rs = (content.drop (start + k * c)).take (size - k * c) ∧
        (bytes rs).length = size - k * c) := by
  induction h with
  | done k hk =>
    have hzero : size - k * c = 0 := by omega
    exact ⟨List.nil_prefix, fun _ => by rw [hzero]; exact ⟨rfl, rfl⟩⟩
  | error k hk hf => exact ⟨List.nil_prefix, by simp⟩
  | data k rs hk hf hrs ih =>
    have hfull : Full srv content start size c k := by
      by_contra hnot
      exact hf (Or.inl hnot)
    obtain ⟨-, hlen⟩ := answer_full hfull
    by_cases hlast : size ≤ (k + 1) * c
    · -- the last request
      obtain rfl := reads_past hrs hlast
      rw [Nat.succ_mul] at hlast
      have hmin : min c (size - k * c) = size - k * c := by omega
      have hbytes : bytes [⟨chunk content start size c k, none⟩] =
          (content.drop (start + k * c)).take (size - k * c) := by
        rw [bytes_cons, ← hmin]
        exact List.append_nil _
      refine ⟨hbytes ▸ List.take_prefix _ _, fun _ => ⟨hbytes, ?_⟩⟩
      rw [bytes_cons, ← hmin, ← hlen]
      exact congrArg List.length (List.append_nil _)
    · obtain ⟨hfront, hall⟩ := ih
      rw [Nat.succ_mul] at hlast
      have hmin : min c (size - k * c) = c := by omega
      have hchunk : chunk content start size c k = (content.drop (start + k * c)).take c := by
        rw [chunk, hmin]
      have hdrop : content.drop (start + (k + 1) * c) = (content.drop (start + k * c)).drop c := by
        rw [List.drop_drop, Nat.succ_mul, Nat.add_assoc]
      rw [bytes_cons, hchunk]
      refine ⟨?_, ?_⟩
      · rw [hdrop] at hfront
        conv_rhs => rw [← List.take_append_drop c (content.drop (start + k * c))]
        exact (List.prefix_append_right_inj _).mpr hfront
      · intro hno
        obtain ⟨hbytes, hlength⟩ := hall ((noError_cons _ _).mp hno).2
        have hsize : size - k * c = c + (size - (k + 1) * c) := by
          rw [Nat.succ_mul]
          omega
        refine ⟨?_, ?_⟩
        · rw [hbytes, hdrop, hsize, List.take_add]
        · rw [← hchunk, List.length_append, hlen, hlength, hmin, ← hsize]

lemma reads_noError_iff (h : Reads srv content start size c k rs) :
    NoError rs ↔ ∀ i, k ≤ i → i * c < size → ¬ Fault srv content start size c i := by
  induction h with
  | done k hk =>
    refine ⟨fun _ i hi hlt => ?_, fun _ => noError_nil⟩
    have hle := Nat.mul_le_mul_right c hi
    omega
  | error k hk hf => exact ⟨fun hno => by simp at hno, fun h => absurd hf (h k (Nat.le_refl _) hk)⟩
  | data k rs hk hf hrs ih =>
    rw [noError_cons, ih]
    constructor
    · rintro ⟨-, hrest⟩ i hi hlt
      rcases Nat.eq_or_lt_of_le hi with rfl | hgt
      · exact hf
      · exact hrest i hgt hlt
    · intro hall
      exact ⟨rfl, fun i hi => hall i (Nat.le_of_succ_le hi)⟩

/-- Every request of the version with `aio` is answered in full. -/
def InFull (srv : ReadServer) (content : List UInt8) (start size : ℕ) : Prop :=
  ∃ m, srv.max_read_length = some m ∧ ∀ k, k * min m MAX_XFER_BUF_SIZE < size →
    0 < m ∧ Full srv content start size (min m MAX_XFER_BUF_SIZE) k

lemma aio_bytes (srv : ReadServer) (content : List UInt8) (start size : ℕ) :
    bytes (Sftp.asyncRead srv content start size) <+: content.drop start ∧
      (NoError (Sftp.asyncRead srv content start size) →
        bytes (Sftp.asyncRead srv content start size) = (content.drop start).take size ∧
          (bytes (Sftp.asyncRead srv content start size)).length = size) := by
  cases hmax : srv.max_read_length with
  | none =>
    simp only [Sftp.asyncRead, hmax]
    exact ⟨List.nil_prefix, by simp⟩
  | some m =>
    have h := reads_bytes (asyncRead_reads hmax content start size)
    rwa [Nat.zero_mul, Nat.add_zero, Nat.sub_zero] at h

lemma aio_noError_iff (hbegin : ∀ k, srv.begin_read k = true) (content : List UInt8)
    (start size : ℕ) :
    NoError (Sftp.asyncRead srv content start size) ↔ InFull srv content start size := by
  cases hmax : srv.max_read_length with
  | none =>
    simp only [Sftp.asyncRead, hmax, InFull]
    simp
  | some m =>
    have hunsent (k : ℕ) : Unsent srv size (min m MAX_XFER_BUF_SIZE) k ↔
        k * min m MAX_XFER_BUF_SIZE < size ∧ m = 0 := by
      have hmax : 0 < MAX_XFER_BUF_SIZE := by decide
      have hzero : min m MAX_XFER_BUF_SIZE = 0 ↔ m = 0 := by omega
      simp [Unsent, hbegin, hzero]
    rw [reads_noError_iff (asyncRead_reads hmax content start size)]
    constructor
    · intro hall
      refine ⟨m, hmax, fun k hk => ?_⟩
      have hfault := hall k (Nat.zero_le _) hk
      refine ⟨?_, by_contra fun hnot => hfault (Or.inl hnot)⟩
      by_contra hm
      have hm : m = 0 := by omega
      refine hall 0 (Nat.le_refl _) (by omega) (Or.inr (Or.inr ⟨rfl, 0, by decide, ?_⟩))
      exact (hunsent 0).mpr ⟨by omega, hm⟩
    · rintro ⟨m', hm', hall⟩ i - hi hfault
      obtain rfl : m = m' := Option.some.inj (hmax.symm.trans hm')
      obtain ⟨hpos, hfull⟩ := hall i hi
      rcases hfault with hnot | hlate | ⟨-, j, -, hj⟩
      · exact hnot hfull
      · exact absurd ((hunsent _).mp hlate).2 (by omega)
      · exact absurd ((hunsent _).mp hj).2 (by omega)

/-- **The two versions**, on a server whose answers carry a byte at least. Both yield the file
from the position on; without an error the version with `aio` yields the size asked for and the
other all there is, which is the same if and only if the file ends there. Where every request
is sent and answered, only the version with `aio` can report an error, and does so unless it is
answered in full. -/
theorem asyncRead_versions (srv : ReadServer) (content : List UInt8) (start size : ℕ)
    (hdata : ∀ k, srv.wait_read k ≠ some 0) :
    ∃ pre, asyncRead srv content start size = some pre ∧
      bytes (Sftp.asyncRead srv content start size) <+: content.drop start ∧
      bytes pre <+: content.drop start ∧
      (NoError (Sftp.asyncRead srv content start size) →
        bytes (Sftp.asyncRead srv content start size) = (content.drop start).take size ∧
          (bytes (Sftp.asyncRead srv content start size)).length = size) ∧
      (NoError pre → bytes pre = content.drop start) ∧
      (NoError (Sftp.asyncRead srv content start size) → NoError pre →
        (bytes (Sftp.asyncRead srv content start size) = bytes pre ↔
          content.length ≤ start + size)) ∧
      ((∀ k, srv.begin_read k = true) → (∀ k, srv.wait_read k ≠ none) → NoError pre ∧
        (NoError (Sftp.asyncRead srv content start size) ↔ InFull srv content start size)) := by
  have hinit : Pending content start ⟨start, false, [], 0⟩ := rfl
  have hfuel : content.length - start + 2 ≤ content.length + 2 := by omega
  obtain ⟨pre, hpre, hfront, hall⟩ :=
    readLoop_spec size hdata hinit (Or.inr hfuel)
  obtain ⟨haio, haioAll⟩ := aio_bytes srv content start size
  refine ⟨pre, hpre, haio, hfront, haioAll, hall, ?_, ?_⟩
  · intro hno hno'
    rw [(haioAll hno).1, hall hno', List.take_eq_self_iff, List.length_drop]
    omega
  · intro hbegin hwait
    exact ⟨readLoop_noError hbegin hwait hpre, aio_noError_iff hbegin content start size⟩

/-- A server that sends and answers everything. -/
def goodServer : ReadServer :=
  ⟨some MAX_XFER_BUF_SIZE, fun _ => true, fun _ => some MAX_XFER_BUF_SIZE⟩

theorem asyncRead_versions_two : ∃ pre, asyncRead goodServer [1, 2] 0 2 = some pre ∧
    (NoError (Sftp.asyncRead goodServer [1, 2] 0 2) → NoError pre →
      (bytes (Sftp.asyncRead goodServer [1, 2] 0 2) = bytes pre ↔ 2 ≤ 0 + 2)) := by
  obtain ⟨pre, hpre, -, -, -, -, heq, -⟩ := asyncRead_versions goodServer [1, 2] 0 2
    (fun _ => by simp [goodServer, MAX_XFER_BUF_SIZE])
  exact ⟨pre, hpre, heq⟩

/-- A file of one byte, of which two are asked for: the one version reports an error and yields
nothing, the other yields the byte. -/
theorem versions_differ :
    Sftp.asyncRead goodServer [1] 0 2 = [⟨[], some .ERR_CANNOT_READ⟩] ∧
      asyncRead goodServer [1] 0 2 = some [⟨[1], none⟩] := by
  decide

end versions

end KioExtras.Sftp.PreAio
