import KioExtras.Sftp.Read
import Mathlib.Algebra.GroupWithZero.Nat
import Mathlib.Algebra.Ring.Int.Defs

/-!
`asyncRead` over a handle that need not block: a wait may answer `SSH_AGAIN`.

The loop around a wait uses one variable for the bytes received and for the place in the buffer
where the next wait stores. After `SSH_AGAIN` it holds `-2`, and the span from there on does not
exist. The limit of the server is an unsigned number that is narrowed to a signed one.
-/

namespace KioExtras.Sftp.Aio

open KioExtras.Kio KioExtras.Sftp.Read

def SSH_AGAIN : ℤ := -2

def size_t (n : ℤ) : ℕ := (n % 2 ^ 64).toNat

/-- `narrow<ssize_t>`: what it checks holds of every number, since the way back wraps as well. -/
def narrow (n : ℕ) : ℤ := (n : ℤ).bmod (2 ^ 64)

/-- The `k`-th answer comes after `again k` times `SSH_AGAIN`. -/
structure AioServer extends ReadServer where
  again : ℕ → ℕ

/-- What the generator yields, a payload with the bytes its wait has stored. `undefined` stands
for a step that the language leaves undefined. -/
inductive Yield
  | data (filedata received : List UInt8)
  | error (e : Error)
  | undefined
  deriving DecidableEq

/-- The response, as far as the language says. -/
def Yield.response : Yield → ReadResponse
  | .data filedata _ => ⟨filedata, none⟩
  | .error e => ⟨[], some e⟩
  | .undefined => ⟨[], none⟩

/-- The size of `span.subspan(offset)`, which is undefined behind the end. -/
def subspan (size offset : ℕ) : Option ℕ :=
  if offset ≤ size then some (size - offset) else none

/-- The buffer after `bytes` have been stored at `offset`. -/
def stored (buffer : List UInt8) (offset : ℕ) (bytes : List UInt8) : List UInt8 :=
  buffer.take offset ++ bytes ++ buffer.drop (offset + bytes.length)

inductive Waited
  | undefined
  | error
  | received (offset : ℕ) (bytes : List UInt8)

section generator

variable (srv : AioServer) (content : List UInt8) (start size : ℕ)

/-- `sftp_aio_wait_read` into a span of `spanSize` bytes, when it has an answer. -/
def sftp_aio_wait_read (r : Request) (spanSize : ℕ) : Option (List UInt8) :=
  (srv.wait_read r.index).map fun n => (content.drop r.offset).take (min n (min r.length spanSize))

/-- The loop around the wait, with the number of times it is told to try again. -/
def waitLoop (r : Request) : ℕ → ℤ → Waited
  | 0, readBytes =>
    match subspan MAX_XFER_BUF_SIZE (size_t readBytes) with
    | none => .undefined
    | some spanSize =>
      match sftp_aio_wait_read srv content r spanSize with
      | none => .error
      | some bytes => .received (size_t readBytes) bytes
  | again + 1, readBytes =>
    match subspan MAX_XFER_BUF_SIZE (size_t readBytes) with
    | none => .undefined
    | some _ => waitLoop r again SSH_AGAIN

/-- The pop-read-queue loop; `size` rounds are enough. -/
def readLoop (chunkSize : ℤ) : ℕ → State → List UInt8 → List Yield
  | 0, _, _ => []
  | fuel + 1, st, buffer =>
    match st.pendingRequests with
    | [] => []
    | aio :: rest =>
      match queueChunkMaybe srv.toReadServer start size (size_t chunkSize)
          { st with pendingRequests := rest } with
      | none => [.error .ERR_CANNOT_READ]
      | some st =>
        match waitLoop srv content aio (srv.again aio.index) 0 with
        | .undefined => [.undefined]
        | .error => [.error .ERR_CANNOT_READ]
        | .received offset bytes =>
          let buffer := stored buffer offset bytes
          let receivedBytes := st.receivedBytes + bytes.length
          if (bytes.length : ℤ) ≠ chunkSize ∧ receivedBytes ≠ size then
            [.error .ERR_CANNOT_READ]
          else
            .data (buffer.take bytes.length) bytes ::
              readLoop chunkSize fuel { st with receivedBytes := receivedBytes } buffer

def chunkSize (max_read_length : ℕ) : ℤ := min (narrow max_read_length) MAX_XFER_BUF_SIZE

/-- What is yielded for `size` bytes of `content` from the position `start` of the handle. -/
def asyncRead : List Yield :=
  match srv.max_read_length with
  | none => [.error .ERR_CANNOT_READ]
  | some max_read_length =>
    let chunkSize := chunkSize max_read_length
    match queueBunch srv.toReadServer start size (size_t chunkSize) MAX_PENDING_REQUESTS
        ⟨0, [], 0, 0⟩ with
    | none => [.error .ERR_CANNOT_READ]
    | some st =>
      readLoop srv content start size chunkSize size st (List.replicate MAX_XFER_BUF_SIZE 0)

end generator

/-! ### The limit of the server -/

lemma size_t_zero : size_t 0 = 0 := by decide

/-- The length of a request that is not the last: the limit, or `MAX_XFER_BUF_SIZE`. A limit that
does not fit into a signed number is taken as it is, and is then no length a wait can return. -/
lemma chunkSize_cases {m : ℕ} (hm : 1 ≤ m) (hm' : m < 2 ^ 64) :
    0 < size_t (chunkSize m) ∧
      (chunkSize m = size_t (chunkSize m) ∧ size_t (chunkSize m) ≤ MAX_XFER_BUF_SIZE ∨
        chunkSize m < 0 ∧ MAX_XFER_BUF_SIZE < size_t (chunkSize m)) := by
  have hmax : (MAX_XFER_BUF_SIZE : ℤ) = 61440 := rfl
  rcases Nat.lt_or_ge m (2 ^ 63) with hlt | hge
  · have hnarrow : narrow m = m := by
      unfold narrow
      rw [Int.bmod_def]
      omega
    have hle : 0 < chunkSize m ∧ chunkSize m ≤ 61440 := by
      unfold chunkSize
      omega
    have hsize : (size_t (chunkSize m) : ℤ) = chunkSize m := by
      unfold size_t
      omega
    exact ⟨by omega, Or.inl ⟨by omega, by omega⟩⟩
  · have hnarrow : narrow m = m - 2 ^ 64 := by
      unfold narrow
      rw [Int.bmod_def]
      omega
    have hneg : chunkSize m = m - 2 ^ 64 := by
      unfold chunkSize
      omega
    have hsize : (size_t (chunkSize m) : ℤ) = m := by
      unfold size_t
      omega
    exact ⟨by omega, Or.inr ⟨by omega, by omega⟩⟩

/-! ### The sequential reader -/

section sequential

variable (srv : AioServer) (content : List UInt8) (start size c : ℕ)

/-- Without `SSH_AGAIN` the response to the `k`-th request is an error. An answer must also fit
into the buffer. -/
def Fault (k : ℕ) : Prop :=
  Read.Fault srv.toReadServer content start size c k ∨ MAX_XFER_BUF_SIZE < min c (size - k * c)

/-- The queue is filled as far as the `k`-th answer needs it. -/
def Queued (k : ℕ) : Prop :=
  ¬ Unsent srv.toReadServer size c (k + MAX_PENDING_REQUESTS) ∧
    (k = 0 → ∀ j < MAX_PENDING_REQUESTS, ¬ Unsent srv.toReadServer size c j)

/-- What is yielded from the `k`-th request on. -/
inductive Reads : ℕ → List Yield → Prop
  | done (k : ℕ) (h : size ≤ k * c) : Reads k []
  | undefined (k : ℕ) (h : k * c < size) (hq : Queued srv size c k) (ha : srv.again k ≠ 0) :
    Reads k [.undefined]
  | error (k : ℕ) (h : k * c < size) (hf : Fault srv content start size c k)
    (ha : Queued srv size c k → srv.again k = 0) : Reads k [.error .ERR_CANNOT_READ]
  | data (k : ℕ) (ys : List Yield) (h : k * c < size) (hf : ¬ Fault srv content start size c k)
    (ha : srv.again k = 0) (hys : Reads (k + 1) ys) :
    Reads k (.data (chunk content start size c k) (chunk content start size c k) :: ys)

end sequential

section simulation

variable {srv : AioServer} {content : List UInt8} {start size c : ℕ}

variable {k : ℕ}

lemma not_queued_fault (h : ¬ Queued srv size c k) : Fault srv content start size c k := by
  by_cases hu : Unsent srv.toReadServer size c (k + MAX_PENDING_REQUESTS)
  · exact Or.inl (Or.inr (Or.inl hu))
  · have h0 : ¬ (k = 0 → ∀ j < MAX_PENDING_REQUESTS, ¬ Unsent srv.toReadServer size c j) :=
      fun hall => h ⟨hu, hall⟩
    push Not at h0
    obtain ⟨hk, j, hj, hju⟩ := h0
    exact Or.inl (Or.inr (Or.inr ⟨hk, j, hj, hju⟩))

/-- **After `SSH_AGAIN` there is no span to wait into.** -/
lemma waitLoop_again (r : Request) {again : ℕ} (h : again ≠ 0) :
    waitLoop srv content r again 0 = .undefined := by
  obtain ⟨n, rfl⟩ := Nat.exists_eq_succ_of_ne_zero h
  have hfirst : subspan MAX_XFER_BUF_SIZE (size_t 0) = some MAX_XFER_BUF_SIZE := by decide
  have hnext : subspan MAX_XFER_BUF_SIZE (size_t SSH_AGAIN) = none := by decide
  cases n with
  | zero => simp only [waitLoop, hfirst, hnext]
  | succ n => simp only [waitLoop, hfirst, hnext]

lemma waitLoop_zero (r : Request) :
    waitLoop srv content r 0 0 =
      match sftp_aio_wait_read srv content r MAX_XFER_BUF_SIZE with
      | none => .error
      | some bytes => .received 0 bytes := by
  have hfirst : subspan MAX_XFER_BUF_SIZE 0 = some MAX_XFER_BUF_SIZE := by decide
  simp only [waitLoop, size_t_zero, hfirst]

lemma take_stored (buffer bytes : List UInt8) :
    (stored buffer 0 bytes).take bytes.length = bytes := by
  simp [stored]

lemma wait_full (hf : Full srv.toReadServer content start size c k)
    (hfit : min c (size - k * c) ≤ MAX_XFER_BUF_SIZE) :
    sftp_aio_wait_read srv content (request start size c k) MAX_XFER_BUF_SIZE =
        some (chunk content start size c k) ∧
      (chunk content start size c k).length = min c (size - k * c) := by
  obtain ⟨hans, hlen⟩ := answer_full hf
  refine ⟨?_, hlen⟩
  have hspan : min (request start size c k).length MAX_XFER_BUF_SIZE =
      (request start size c k).length := Nat.min_eq_left hfit
  simpa only [answer, sftp_aio_wait_read, hspan] using hans

lemma wait_short {bytes : List UInt8} (hk : k * c < size) (hc : 0 < c)
    (h : ¬ (Full srv.toReadServer content start size c k ∧
      min c (size - k * c) ≤ MAX_XFER_BUF_SIZE))
    (hb : sftp_aio_wait_read srv content (request start size c k) MAX_XFER_BUF_SIZE =
      some bytes) : (bytes.length ≠ c ∨ MAX_XFER_BUF_SIZE < c) ∧ k * c + bytes.length ≠ size := by
  simp only [sftp_aio_wait_read, request, Option.map_eq_some_iff] at hb
  obtain ⟨n, hn, rfl⟩ := hb
  have hlen : min (min n (min (min c (size - k * c)) MAX_XFER_BUF_SIZE))
      (content.length - (start + k * c)) ≠ min c (size - k * c) := by
    intro heq
    exact h ⟨⟨n, hn, by omega, by omega⟩, by omega⟩
  simp only [List.length_take, List.length_drop]
  omega

variable {chunkSize : ℤ}

lemma readLoop_reads (hsz : size_t chunkSize = c) (hpos : 0 < c)
    (hcases : chunkSize = c ∧ c ≤ MAX_XFER_BUF_SIZE ∨ chunkSize < 0 ∧ MAX_XFER_BUF_SIZE < c)
    {fuel q : ℕ} {buffer : List UInt8} (hw : Window size c k q)
    (hz : k = 0 → ∀ j < MAX_PENDING_REQUESTS, ¬ Unsent srv.toReadServer size c j)
    (hfuel : size ≤ k * c + fuel) :
    Reads srv content start size c k
      (readLoop srv content start size chunkSize fuel (stateAt start size c k k q) buffer) := by
  induction fuel generalizing k q buffer with
  | zero => exact Reads.done k hfuel
  | succ fuel ih =>
    by_cases hk : k * c < size
    · have hpending : (stateAt start size c k k q).pendingRequests =
          request start size c k :: (List.range' (k + 1) (q - (k + 1))).map
            (request start size c) := stateAt_pending hw hk
      have hpop : { stateAt start size c k k q with
          pendingRequests := (List.range' (k + 1) (q - (k + 1))).map (request start size c) } =
          stateAt start size c k (k + 1) q := rfl
      simp only [readLoop, hpending, hpop, hsz]
      by_cases hu : Unsent srv.toReadServer size c (k + MAX_PENDING_REQUESTS)
      · rw [queueChunkMaybe_window_unsent hw hu]
        exact Reads.error k hk (Or.inl (Or.inr (Or.inl hu))) (fun hq => absurd hu hq.1)
      obtain ⟨q', hq', hw'⟩ := queueChunkMaybe_window start hw hk hu
      rw [hq']
      have hindex : (request start size c k).index = k := rfl
      have hrec : (stateAt start size c k (k + 1) q').receivedBytes = k * c := by
        simp only [stateAt]; omega
      simp only [hindex]
      by_cases ha : srv.again k = 0
      · rw [ha, waitLoop_zero]
        by_cases hf : Full srv.toReadServer content start size c k ∧
            min c (size - k * c) ≤ MAX_XFER_BUF_SIZE
        · obtain ⟨hans, hlen⟩ := wait_full hf.1 hf.2
          have hnext : k * c + (chunk content start size c k).length = min ((k + 1) * c) size := by
            rw [hlen, Nat.succ_mul]; omega
          have hok : ¬ (((chunk content start size c k).length : ℤ) ≠ chunkSize ∧
              min ((k + 1) * c) size ≠ size) := by
            rw [hlen, Nat.succ_mul]; omega
          simp only [hans, hrec, hnext, hok, if_false, take_stored]
          refine Reads.data k _ hk ?_ ha ?_
          · rintro ((h | h | ⟨h, j, hj, hju⟩) | h)
            · exact h hf.1
            · exact hu h
            · exact hz h j hj hju
            · omega
          · refine ih hw' (by simp) ?_
            rw [Nat.succ_mul]; omega
        · have hfault : Fault srv content start size c k := by
            by_cases hfull : Full srv.toReadServer content start size c k
            · exact Or.inr (Nat.lt_of_not_le fun hle => hf ⟨hfull, hle⟩)
            · exact Or.inl (Or.inl hfull)
          cases hans : sftp_aio_wait_read srv content (request start size c k)
              MAX_XFER_BUF_SIZE with
          | none => exact Reads.error k hk hfault (fun _ => ha)
          | some bytes =>
            have hshort := wait_short hk hpos hf hans
            have hne : (bytes.length : ℤ) ≠ chunkSize := by omega
            simp only [hrec]
            rw [if_pos ⟨hne, hshort.2⟩]
            exact Reads.error k hk hfault (fun _ => ha)
      · rw [waitLoop_again _ ha]
        exact Reads.undefined k hk ⟨hu, hz⟩ ha
    · have hempty : q - k = 0 := by
        by_contra hne
        have := hw.needed k (by omega)
        exact hk this
      have hpending : (stateAt start size c k k q).pendingRequests = [] := by
        simp [stateAt, hempty]
      simp only [readLoop, hpending]
      exact Reads.done k (by omega)

lemma asyncRead_reads {m : ℕ} (hmax : srv.max_read_length = some m) (hm : 1 ≤ m)
    (hm' : m < 2 ^ 64) :
    Reads srv content start size (size_t (Aio.chunkSize m)) 0
      (asyncRead srv content start size) := by
  obtain ⟨hpos, hcases⟩ := chunkSize_cases hm hm'
  have hinit : (⟨0, [], 0, 0⟩ : State) = stateAt start size (size_t (Aio.chunkSize m)) 0 0 0 := by
    simp [stateAt]
  simp only [asyncRead, hmax, hinit]
  rcases queueBunch_spec srv.toReadServer start size (size_t (Aio.chunkSize m))
      (Nat.zero_add MAX_PENDING_REQUESTS) (by simp) with
    ⟨hnone, j, hj, hu⟩ | ⟨q, hq, hw, hall⟩
  · rw [hnone]
    have hsize : 0 * size_t (Aio.chunkSize m) < size := by
      have := hu.1
      omega
    refine Reads.error 0 hsize (Or.inl (Or.inr (Or.inr ⟨rfl, j, hj, hu⟩))) ?_
    exact fun hqueued => absurd hu (hqueued.2 rfl j hj)
  · rw [hq]
    exact readLoop_reads rfl hpos hcases hw (fun _ j hj => hall j (Nat.zero_le _) hj) (by omega)

/-- Without `SSH_AGAIN` this is the reader of a blocking handle. -/
lemma Reads.blocking {ys : List Yield} (h : Reads srv content start size c k ys)
    (ha : ∀ i, srv.again i = 0) (hc : c ≤ MAX_XFER_BUF_SIZE) :
    Read.Reads srv.toReadServer content start size c k (ys.map Yield.response) := by
  have hfault {k : ℕ} : Fault srv content start size c k ↔
      Read.Fault srv.toReadServer content start size c k := by
    refine ⟨fun hf => ?_, Or.inl⟩
    rcases hf with hf | hf
    · exact hf
    · omega
  induction h with
  | done k h => exact Read.Reads.done k h
  | undefined k h hq hne => exact absurd (ha k) hne
  | error k h hf _ => exact Read.Reads.error k h (hfault.mp hf)
  | data k ys h hf _ _ ih => exact Read.Reads.data k _ h (fun hf' => hf (hfault.mpr hf')) ih

end simulation

/-- **One reader**: over a blocking handle with a limit that fits into a signed number, the
responses are those of the blocking reader. -/
theorem asyncRead_blocking {srv : AioServer} (ha : ∀ k, srv.again k = 0)
    (hmax : ∀ m, srv.max_read_length = some m → 1 ≤ m ∧ m < 2 ^ 63) (content : List UInt8)
    (start size : ℕ) :
    (asyncRead srv content start size).map Yield.response =
      Sftp.asyncRead srv.toReadServer content start size := by
  cases hlimit : srv.max_read_length with
  | none => simp [asyncRead, Sftp.asyncRead, hlimit, Yield.response]
  | some m =>
    obtain ⟨hm, hm'⟩ := hmax m hlimit
    have hchunk : size_t (chunkSize m) = min m MAX_XFER_BUF_SIZE := by
      have hmaxlen : (MAX_XFER_BUF_SIZE : ℤ) = 61440 := rfl
      have hnarrow : narrow m = m := by
        unfold narrow
        rw [Int.bmod_def]
        omega
      unfold size_t chunkSize
      omega
    have hreads : Reads srv content start size (size_t (Aio.chunkSize m)) 0
        (asyncRead srv content start size) := asyncRead_reads hlimit hm (by omega)
    have hread := hreads.blocking ha (by omega)
    rw [hchunk] at hread
    exact hread.unique (Read.asyncRead_reads hlimit content start size)

/-! ### What the reader of the stream gets -/

/-- The payloads before the first error. -/
def payloads : List Yield → List (List UInt8)
  | .data filedata _ :: ys => filedata :: payloads ys
  | _ => []

/-- The stream is the file from the start position on: in order, never padded, and short only
with an error. -/
structure Faithful (content : List UInt8) (start size : ℕ) (ys : List Yield) : Prop where
  defined : Yield.undefined ∉ ys
  inOrder : (payloads ys).flatten <+: content.drop start
  length : ∀ filedata received, Yield.data filedata received ∈ ys →
    filedata.length = received.length
  complete : (∀ e, Yield.error e ∉ ys) → (payloads ys).flatten.length = size

section consequences

variable {srv : AioServer} {content : List UInt8} {start size c : ℕ}

variable {i k : ℕ} {ys : List Yield}

lemma chunk_append_prefix {rest : List UInt8} (hk : k * c < size)
    (hrest : rest <+: content.drop (start + (k + 1) * c)) (hlast : size ≤ (k + 1) * c → rest = []) :
    chunk content start size c k ++ rest <+: content.drop (start + k * c) := by
  by_cases hl : size ≤ (k + 1) * c
  · rw [hlast hl, List.append_nil]
    exact List.take_prefix _ _
  · have hmin : min c (size - k * c) = c := by
      rw [Nat.succ_mul] at hl; omega
    have hdrop : content.drop (start + (k + 1) * c) = (content.drop (start + k * c)).drop c := by
      rw [List.drop_drop, Nat.succ_mul, Nat.add_assoc]
    rw [hdrop] at hrest
    have happ := (List.prefix_append_right_inj ((content.drop (start + k * c)).take c)).mpr hrest
    have hchunk : chunk content start size c k = (content.drop (start + k * c)).take c := by
      rw [chunk, hmin]
    rw [List.take_append_drop] at happ
    rwa [hchunk]

lemma Reads.faithful (h : Reads srv content start size c k ys) (hdef : Yield.undefined ∉ ys) :
    Faithful content (start + k * c) (size - k * c) ys := by
  induction h with
  | done k h =>
    refine ⟨hdef, List.nil_prefix, by simp, fun _ => ?_⟩
    simp only [payloads, List.flatten_nil, List.length_nil]
    omega
  | undefined k h hq ha => simp at hdef
  | error k h hf ha =>
    refine ⟨hdef, List.nil_prefix, by simp, fun hno => ?_⟩
    exact absurd (List.mem_singleton_self _) (hno .ERR_CANNOT_READ)
  | data k ys h hf ha hys ih =>
    have hrest := ih (fun hm => hdef (List.mem_cons_of_mem _ hm))
    have hfull : Full srv.toReadServer content start size c k := by
      by_contra hnot
      exact hf (Or.inl (Or.inl hnot))
    have hlen := (answer_full hfull).2
    refine ⟨hdef, ?_, ?_, ?_⟩
    · refine chunk_append_prefix h hrest.inOrder (fun hl => ?_)
      cases hys with
      | done _ _ => rfl
      | undefined _ h' _ _ => exact absurd h' (by omega)
      | error _ h' _ _ => rfl
      | data _ _ h' _ _ _ => exact absurd h' (by omega)
    · intro filedata received hm
      rcases List.mem_cons.mp hm with heq | hm
      · cases heq
        rfl
      · exact hrest.length filedata received hm
    · intro hno
      have hcomplete := hrest.complete (fun e he => hno e (List.mem_cons_of_mem _ he))
      simp only [payloads, List.flatten_cons, List.length_append, hlen, hcomplete, Nat.succ_mul]
      omega

lemma Reads.undefined_mem (h : Reads srv content start size c i ys) (hik : i ≤ k)
    (hk : k * c < size) (hq : ∀ j ≤ k, Queued srv size c j)
    (hf : ∀ j < k, ¬ Fault srv content start size c j) (ha : srv.again k ≠ 0) :
    Yield.undefined ∈ ys := by
  induction h with
  | done i h =>
    have := Nat.mul_le_mul_right c hik
    omega
  | undefined i h hq' ha' => simp
  | error i h hf' ha' =>
    rcases Nat.eq_or_lt_of_le hik with rfl | hlt
    · exact absurd (ha' (hq i (Nat.le_refl i))) ha
    · exact absurd hf' (hf i hlt)
  | data i ys h hf' ha' hys ih =>
    rcases Nat.eq_or_lt_of_le hik with rfl | hlt
    · exact absurd ha' ha
    · exact List.mem_cons_of_mem _ (ih hlt)

lemma Reads.again_of_undefined (h : Reads srv content start size c i ys)
    (hdef : Yield.undefined ∈ ys) :
    ∃ k, i ≤ k ∧ k * c < size ∧ Queued srv size c k ∧
      (∀ j, i ≤ j → j < k → ¬ Fault srv content start size c j) ∧ srv.again k ≠ 0 := by
  induction h with
  | done i h => simp at hdef
  | undefined i h hq ha =>
    exact ⟨i, Nat.le_refl i, h, hq, fun j hij hji => by omega, ha⟩
  | error i h hf ha => simp at hdef
  | data i ys h hf ha hys ih =>
    obtain ⟨k, hik, hk, hq, hall, hne⟩ := ih (by simpa using hdef)
    refine ⟨k, by omega, hk, hq, fun j hij hjk => ?_, hne⟩
    rcases Nat.eq_or_lt_of_le hij with rfl | hlt
    · exact hf
    · exact hall j hlt hjk

end consequences

/-- The generator comes to wait for the `k`-th answer: it is needed, the requests that join the
queue before are sent, and the answers before it are in full. -/
def Awaited (srv : AioServer) (content : List UInt8) (start size k : ℕ) : Prop :=
  ∃ m, srv.max_read_length = some m ∧ k * size_t (chunkSize m) < size ∧
    Queued srv size (size_t (chunkSize m)) k ∧
    ∀ j < k, ¬ Fault srv content start size (size_t (chunkSize m)) j

/-- **When the stream is the file**: exactly when no answer that is waited for comes after
`SSH_AGAIN`. -/
theorem asyncRead_faithful_iff (srv : AioServer) (content : List UInt8) (start size : ℕ)
    (hmax : ∀ m, srv.max_read_length = some m → 1 ≤ m ∧ m < 2 ^ 64) :
    Faithful content start size (asyncRead srv content start size) ↔
      ∀ k, Awaited srv content start size k → srv.again k = 0 := by
  cases hlimit : srv.max_read_length with
  | none =>
    refine iff_of_true ?_ ?_
    · have hread : asyncRead srv content start size = [.error .ERR_CANNOT_READ] := by
        simp [asyncRead, hlimit]
      rw [hread]
      exact ⟨by simp, List.nil_prefix, by simp, fun hno => absurd (by simp) (hno .ERR_CANNOT_READ)⟩
    · rintro k ⟨m, hm, -⟩
      simp [hlimit] at hm
  | some m =>
    obtain ⟨hm, hm'⟩ := hmax m hlimit
    have hreads : Reads srv content start size (size_t (Aio.chunkSize m)) 0
        (asyncRead srv content start size) := asyncRead_reads hlimit hm hm'
    constructor
    · rintro hfaithful k ⟨m', hlimit', hk, hq, hf⟩
      obtain rfl : m = m' := by simpa [hlimit] using hlimit'
      by_contra ha
      refine hfaithful.defined (hreads.undefined_mem (Nat.zero_le k) hk ?_ hf ha)
      intro j hj
      rcases Nat.eq_or_lt_of_le hj with rfl | hlt
      · exact hq
      · by_contra hnot
        exact hf j hlt (not_queued_fault hnot)
    · intro hagain
      have hdef : Yield.undefined ∉ asyncRead srv content start size := by
        intro hmem
        obtain ⟨k, -, hk, hq, hf, hne⟩ := hreads.again_of_undefined hmem
        exact hne (hagain k ⟨m, hlimit, hk, hq, fun j hj => hf j (Nat.zero_le j) hj⟩)
      simpa using hreads.faithful hdef

/-- A server of a file of three bytes that hands out two at a time; the second answer comes
after `SSH_AGAIN` when `busy`. -/
def twoChunks (busy : Bool) : AioServer where
  max_read_length := some 2
  begin_read _ := true
  wait_read _ := some 2
  again k := if busy ∧ k = 1 then 1 else 0

theorem asyncRead_faithful_twoChunks :
    Faithful [1, 2, 3] 0 3 (asyncRead (twoChunks false) [1, 2, 3] 0 3) :=
  (asyncRead_faithful_iff (twoChunks false) [1, 2, 3] 0 3 (by
    intro m hm
    obtain rfl : 2 = m := by simpa [twoChunks] using hm
    decide)).mpr (fun k _ => by simp [twoChunks])

/-- With one `SSH_AGAIN` the step after it is undefined. -/
theorem asyncRead_unfaithful_twoChunks :
    ¬ Faithful [1, 2, 3] 0 3 (asyncRead (twoChunks true) [1, 2, 3] 0 3) := by
  have hread : asyncRead (twoChunks true) [1, 2, 3] 0 3 = [.data [1, 2] [1, 2], .undefined] := by
    decide
  intro h
  exact h.defined (by simp [hread])

theorem asyncRead_blocking_twoChunks :
    (asyncRead (twoChunks false) [1, 2, 3] 0 3).map Yield.response =
      [⟨[1, 2], none⟩, ⟨[3], none⟩] := by
  have hmax : ∀ m, (twoChunks false).max_read_length = some m → 1 ≤ m ∧ m < 2 ^ 63 := by
    intro m hm
    obtain rfl : 2 = m := by simpa [twoChunks] using hm
    decide
  rw [asyncRead_blocking (by simp [twoChunks]) hmax]
  decide

end KioExtras.Sftp.Aio
