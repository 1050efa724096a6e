import KioExtras.Kio
import Mathlib.Data.List.Basic
import Mathlib.Tactic.Common

/-!
Reading a remote file with many requests in flight: `asyncRead`.

The file does not change and its handle blocks, so an answer is some of the bytes asked for or
an error. The generator is the list of the responses it yields. Seen from outside it is a
sequential reader: the queue only decides how early a request that cannot be sent is noticed.
-/

namespace KioExtras.Sftp

open KioExtras.Kio

def MAX_PENDING_REQUESTS : ℕ := 128
def MAX_XFER_BUF_SIZE : ℕ := 60 * 1024

structure ReadResponse where
  filedata : List UInt8
  error : Option Error
  deriving DecidableEq

/-- What the calls of `asyncRead` return: the limit (`none` when it cannot be had), whether the
`k`-th request can be sent, and how many bytes its answer carries at most. -/
structure ReadServer where
  max_read_length : Option ℕ
  begin_read : ℕ → Bool
  wait_read : ℕ → Option ℕ

namespace Read

structure Request where
  index : ℕ
  offset : ℕ
  length : ℕ

/-- The locals of the generator; `sent` counts the requests. -/
structure State where
  queuedBytes : ℕ
  pendingRequests : List Request
  receivedBytes : ℕ
  sent : ℕ

section generator

variable (srv : ReadServer) (content : List UInt8) (start size chunkSize : ℕ)

/-- `none` stands for the error `ERR_CANNOT_READ`. A request for no bytes is refused. -/
def queueChunkMaybe (st : State) : Option State :=
  if size ≤ st.queuedBytes then some st
  else
    let requestLength := min chunkSize (size - st.queuedBytes)
    if requestLength = 0 ∨ srv.begin_read st.sent = false then none
    else some { st with
      pendingRequests := st.pendingRequests ++ [⟨st.sent, start + st.queuedBytes, requestLength⟩]
      queuedBytes := st.queuedBytes + requestLength
      sent := st.sent + 1 }

/-- The requests before the first answer, at most `n` of them. -/
def queueBunch : ℕ → State → Option State
  | 0, st => some st
  | n + 1, st =>
    if st.pendingRequests.length < MAX_PENDING_REQUESTS ∧ st.queuedBytes < size then
      (queueChunkMaybe srv start size chunkSize st).bind (queueBunch n)
    else some st

/-- The bytes that come back for a request. -/
def answer (r : Request) : Option (List UInt8) :=
  (srv.wait_read r.index).map fun n => (content.drop r.offset).take (min n r.length)

/-- The pop-read-queue loop. Every round but the last asks for a byte at least, so `size` rounds
are enough. -/
def readLoop : ℕ → State → List ReadResponse
  | 0, _ => []
  | fuel + 1, st =>
    match st.pendingRequests with
    | [] => []
    | aio :: rest =>
      match queueChunkMaybe srv start size chunkSize { st with pendingRequests := rest } with
      | none => [⟨[], some .ERR_CANNOT_READ⟩]
      | some st =>
        match answer srv content aio with
        | none => [⟨[], some .ERR_CANNOT_READ⟩]
        | some bytes =>
          let receivedBytes := st.receivedBytes + bytes.length
          if bytes.length ≠ chunkSize ∧ receivedBytes ≠ size then
            [⟨[], some .ERR_CANNOT_READ⟩]
          else ⟨bytes, none⟩ :: readLoop fuel { st with receivedBytes := receivedBytes }

end generator

end Read

open Read in
/-- The responses for `size` bytes of `content` from the position `start` of the file handle. -/
def asyncRead (srv : ReadServer) (content : List UInt8) (start size : ℕ) : List ReadResponse :=
  match srv.max_read_length with
  | none => [⟨[], some .ERR_CANNOT_READ⟩]
  | some max_read_length =>
    let chunkSize := min max_read_length MAX_XFER_BUF_SIZE
    match queueBunch srv start size chunkSize MAX_PENDING_REQUESTS ⟨0, [], 0, 0⟩ with
    | none => [⟨[], some .ERR_CANNOT_READ⟩]
    | some st => readLoop srv content start size chunkSize size st

namespace Read

/-! ### The sequential reader -/

section sequential

variable (srv : ReadServer) (content : List UInt8) (start size c : ℕ)

/-- The bytes of the `k`-th request. -/
def chunk (k : ℕ) : List UInt8 := (content.drop (start + k * c)).take (min c (size - k * c))

/-- The answer to the `k`-th request carries all it was asked for. -/
def Full (k : ℕ) : Prop :=
  ∃ n, srv.wait_read k = some n ∧ min c (size - k * c) ≤ n ∧
    start + k * c + min c (size - k * c) ≤ content.length

/-- The `k`-th request is needed and cannot be sent. -/
def Unsent (k : ℕ) : Prop := k * c < size ∧ (c = 0 ∨ srv.begin_read k = false)

/-- The response to the `k`-th request is an error: its answer is one or falls short, or a
request cannot be sent that joins the queue at this point. -/
def Fault (k : ℕ) : Prop :=
  ¬ Full srv content start size c k ∨ Unsent srv size c (k + MAX_PENDING_REQUESTS) ∨
    (k = 0 ∧ ∃ j < MAX_PENDING_REQUESTS, Unsent srv size c j)

/-- The responses from the `k`-th request on, one request after the other. -/
inductive Reads : ℕ → List ReadResponse → Prop
  | done (k : ℕ) (h : size ≤ k * c) : Reads k []
  | error (k : ℕ) (h : k * c < size) (hf : Fault srv content start size c k) :
    Reads k [⟨[], some .ERR_CANNOT_READ⟩]
  | data (k : ℕ) (rs : List ReadResponse) (h : k * c < size)
    (hf : ¬ Fault srv content start size c k) (hrs : Reads (k + 1) rs) :
    Reads k (⟨chunk content start size c k, none⟩ :: rs)

end sequential

lemma Reads.unique {srv : ReadServer} {content : List UInt8} {start size c k : ℕ}
    {rs rs' : List ReadResponse} (h : Reads srv content start size c k rs)
    (h' : Reads srv content start size c k rs') : rs = rs' := by
  induction h generalizing rs' with
  | done k h =>
    cases h' with
    | done _ _ => rfl
    | error _ hk _ => omega
    | data _ _ hk _ _ => omega
  | error k h hf =>
    cases h' with
    | done _ hk => omega
    | error _ _ _ => rfl
    | data _ _ _ hf' _ => exact absurd hf hf'
  | data k rs h hf hrs ih =>
    cases h' with
    | done _ hk => omega
    | error _ _ hf' => exact absurd hf' hf
    | data _ _ _ _ hrs' => rw [ih hrs']

section simulation

variable {srv : ReadServer} {content : List UInt8} {start size c : ℕ}

def request (start size c i : ℕ) : Request := ⟨i, start + i * c, min c (size - i * c)⟩

/-- The locals when `r` answers have come, the requests before `k` have been popped and `q` were
sent. -/
def stateAt (start size c r k q : ℕ) : State :=
  ⟨min (q * c) size, (List.range' k (q - k)).map (request start size c), min (r * c) size, q⟩

variable {k q : ℕ}

lemma queueChunkMaybe_done {r : ℕ} (h : size ≤ q * c) :
    queueChunkMaybe srv start size c (stateAt start size c r k q) =
      some (stateAt start size c r k q) := by
  simp [queueChunkMaybe, stateAt, h]

lemma queueChunkMaybe_unsent {r : ℕ} (h : Unsent srv size c q) :
    queueChunkMaybe srv start size c (stateAt start size c r k q) = none := by
  obtain ⟨hq, hc⟩ := h
  have hmin : min (q * c) size = q * c := by omega
  rcases hc with rfl | hb
  · simp only [Nat.mul_zero] at hq
    simp [queueChunkMaybe, stateAt, Nat.not_le.mpr hq]
  · simp [queueChunkMaybe, stateAt, hmin, Nat.not_le.mpr hq, hb]

lemma queueChunkMaybe_sent {r : ℕ} (hkq : k ≤ q) (hq : q * c < size) (h : ¬ Unsent srv size c q) :
    queueChunkMaybe srv start size c (stateAt start size c r k q) =
      some (stateAt start size c r k (q + 1)) := by
  have hmin : min (q * c) size = q * c := by omega
  have hpos : c ≠ 0 := fun hc => h ⟨hq, Or.inl hc⟩
  have hb : srv.begin_read q ≠ false := fun hb => h ⟨hq, Or.inr hb⟩
  have hlen : ¬ (min c (size - q * c) = 0 ∨ srv.begin_read q = false) := by
    rintro (h0 | h0)
    · omega
    · exact hb h0
  have hnext : q * c + min c (size - q * c) = min ((q + 1) * c) size := by
    rw [Nat.succ_mul]; omega
  have hrange : List.range' k (q + 1 - k) = List.range' k (q - k) ++ [q] := by
    rw [Nat.succ_sub hkq, List.range'_concat]
    congr 2
    omega
  simp only [queueChunkMaybe, stateAt, hmin, Nat.not_le.mpr hq, if_false, hlen, hnext, hrange,
    List.map_append, List.map_cons, List.map_nil, request]

/-- The queue holds the requests from `k` to `q`: as many as fit, or all that are left. -/
structure Window (size c k q : ℕ) : Prop where
  le : k ≤ q
  needed : ∀ i < q, i * c < size
  room : q ≤ k + MAX_PENDING_REQUESTS
  full : q = k + MAX_PENDING_REQUESTS ∨ size ≤ q * c

lemma queueBunch_spec (srv : ReadServer) (start size c : ℕ) {n : ℕ}
    (hn : q + n = MAX_PENDING_REQUESTS) (hneed : ∀ i < q, i * c < size) :
    (queueBunch srv start size c n (stateAt start size c 0 0 q) = none ∧
      ∃ j < MAX_PENDING_REQUESTS, Unsent srv size c j) ∨
    ∃ q', queueBunch srv start size c n (stateAt start size c 0 0 q) =
        some (stateAt start size c 0 0 q') ∧ Window size c 0 q' ∧
      ∀ j, q ≤ j → j < MAX_PENDING_REQUESTS → ¬ Unsent srv size c j := by
  induction n generalizing q with
  | zero =>
    refine Or.inr ⟨q, rfl, ⟨Nat.zero_le _, hneed, by omega, Or.inl (by omega)⟩, ?_⟩
    intro j hj hlt
    omega
  | succ n ih =>
    have hlen : (stateAt start size c 0 0 q).pendingRequests.length = q := by simp [stateAt]
    by_cases hq : q * c < size
    · have hgo : q < MAX_PENDING_REQUESTS ∧ (stateAt start size c 0 0 q).queuedBytes < size :=
        ⟨by omega, by simp only [stateAt]; omega⟩
      by_cases hu : Unsent srv size c q
      · left
        simp only [queueBunch, hlen, hgo, and_self, if_true, queueChunkMaybe_unsent hu,
          Option.bind_none, true_and]
        exact ⟨q, hgo.1, hu⟩
      · have hneed' : ∀ i < q + 1, i * c < size := by
          intro i hi
          exact Nat.lt_of_le_of_lt (Nat.mul_le_mul_right c (Nat.le_of_lt_succ hi)) hq
        simp only [queueBunch, hlen, hgo, and_self, if_true,
          queueChunkMaybe_sent (Nat.zero_le _) hq hu, Option.bind_some]
        rcases ih (by omega) hneed' with hnone | ⟨q', heq, hw, hall⟩
        · exact Or.inl hnone
        · refine Or.inr ⟨q', heq, hw, ?_⟩
          intro j hj hlt
          rcases Nat.eq_or_lt_of_le hj with rfl | hgt
          · exact hu
          · exact hall j hgt hlt
    · have hstop : ¬ (q < MAX_PENDING_REQUESTS ∧
          (stateAt start size c 0 0 q).queuedBytes < size) := by
        simp only [stateAt]; omega
      refine Or.inr ⟨q, by simp only [queueBunch, hlen, hstop, if_false], ?_, ?_⟩
      · exact ⟨Nat.zero_le _, hneed, by omega, Or.inr (by omega)⟩
      · intro j hj _ hu
        have := Nat.mul_le_mul_right c hj
        have := hu.1
        omega

lemma queueChunkMaybe_window (start : ℕ) (hw : Window size c k q) (hk : k * c < size)
    (hu : ¬ Unsent srv size c (k + MAX_PENDING_REQUESTS)) :
    ∃ q', queueChunkMaybe srv start size c (stateAt start size c k (k + 1) q) =
      some (stateAt start size c k (k + 1) q') ∧ Window size c (k + 1) q' := by
  have hlt : k < q := by
    rcases hw.full with h | h
    · unfold MAX_PENDING_REQUESTS at h; omega
    · by_contra hge
      have := Nat.mul_le_mul_right c (Nat.not_lt.mp hge)
      omega
  by_cases hq : q * c < size
  · have hqe : q = k + MAX_PENDING_REQUESTS := by
      rcases hw.full with h | h
      · exact h
      · omega
    refine ⟨q + 1, queueChunkMaybe_sent hlt hq (hqe ▸ hu), ?_⟩
    refine ⟨by omega, ?_, by omega, Or.inl (by omega)⟩
    intro i hi
    exact Nat.lt_of_le_of_lt (Nat.mul_le_mul_right c (Nat.le_of_lt_succ hi)) hq
  · refine ⟨q, queueChunkMaybe_done (by omega), ?_⟩
    have := hw.room
    exact ⟨hlt, hw.needed, by omega, Or.inr (by omega)⟩

lemma queueChunkMaybe_window_unsent (hw : Window size c k q)
    (hu : Unsent srv size c (k + MAX_PENDING_REQUESTS)) :
    queueChunkMaybe srv start size c (stateAt start size c k (k + 1) q) = none := by
  have hqe : q = k + MAX_PENDING_REQUESTS := by
    rcases hw.full with h | h
    · exact h
    · have := Nat.mul_le_mul_right c hw.room
      have := hu.1
      omega
  exact queueChunkMaybe_unsent (hqe ▸ hu)

lemma answer_full (h : Full srv content start size c k) :
    answer srv content (request start size c k) = some (chunk content start size c k) ∧
      (chunk content start size c k).length = min c (size - k * c) := by
  obtain ⟨n, hn, hle, hlen⟩ := h
  refine ⟨?_, ?_⟩
  · simp only [answer, request, hn, Option.map_some, chunk, Nat.min_eq_right hle]
  · simp only [chunk, List.length_take, List.length_drop]
    omega

lemma answer_short {bytes : List UInt8} (hk : k * c < size) (hc : 0 < c)
    (h : ¬ Full srv content start size c k)
    (hb : answer srv content (request start size c k) = some bytes) :
    bytes.length ≠ c ∧ k * c + bytes.length ≠ size := by
  simp only [answer, request, Option.map_eq_some_iff] at hb
  obtain ⟨n, hn, rfl⟩ := hb
  have hlen : min (min n (min c (size - k * c))) (content.length - (start + k * c)) ≠
      min c (size - k * c) := by
    intro heq
    exact h ⟨n, hn, by omega, by omega⟩
  simp only [List.length_take, List.length_drop]
  omega

lemma stateAt_pending (hw : Window size c k q) (hk : k * c < size) :
    (stateAt start size c k k q).pendingRequests =
      request start size c k :: (List.range' (k + 1) (q - (k + 1))).map (request start size c) := by
  have hlt : 0 < q - k := by
    rcases hw.full with h | h
    · unfold MAX_PENDING_REQUESTS at h; omega
    · by_contra hge
      have := Nat.mul_le_mul_right c (show q ≤ k by omega)
      omega
  have hsucc : q - k = q - (k + 1) + 1 := by omega
  simp only [stateAt, hsucc, List.range'_succ, List.map_cons]

lemma readLoop_reads {fuel : ℕ} (hw : Window size c k q) (hc : k * c < size → 0 < c)
    (hz : k = 0 → ∀ j < MAX_PENDING_REQUESTS, ¬ Unsent srv size c j) (hfuel : size ≤ k * c + fuel) :
    Reads srv content start size c k
      (readLoop srv content start size c fuel (stateAt start size c k k q)) := by
  induction fuel generalizing k q with
  | zero => exact Reads.done k hfuel
  | succ fuel ih =>
    by_cases hk : k * c < size
    · have hpos := hc hk
      have hpending : (stateAt start size c k k q).pendingRequests = _ := stateAt_pending hw hk
      have hpop : { stateAt start size c k k q with
          pendingRequests := (List.range' (k + 1) (q - (k + 1))).map (request start size c) } =
          stateAt start size c k (k + 1) q := rfl
      simp only [readLoop, hpending, hpop]
      by_cases hu : Unsent srv size c (k + MAX_PENDING_REQUESTS)
      · rw [queueChunkMaybe_window_unsent hw hu]
        exact Reads.error k hk (Or.inr (Or.inl hu))
      obtain ⟨q', hq', hw'⟩ := queueChunkMaybe_window start hw hk hu
      rw [hq']
      by_cases hf : Full srv content start size c k
      · obtain ⟨hans, hlen⟩ := answer_full hf
        have hrec : (stateAt start size c k (k + 1) q').receivedBytes +
            (chunk content start size c k).length = min ((k + 1) * c) size := by
          simp only [stateAt, hlen, Nat.succ_mul]; omega
        have hok : ¬ ((chunk content start size c k).length ≠ c ∧
            min ((k + 1) * c) size ≠ size) := by
          rw [hlen, Nat.succ_mul]; omega
        simp only [hans, hrec, hok, if_false]
        refine Reads.data k _ hk ?_ ?_
        · rintro (h | h | ⟨h, j, hj, hju⟩)
          · exact h hf
          · exact hu h
          · exact hz h j hj hju
        · refine ih hw' (fun _ => hpos) (by simp) ?_
          rw [Nat.succ_mul]; omega
      · have hfault : Fault srv content start size c k := Or.inl hf
        cases hans : answer srv content (request start size c k) with
        | none => exact Reads.error k hk hfault
        | some bytes =>
          have hshort := answer_short hk hpos hf hans
          have hrec : (stateAt start size c k (k + 1) q').receivedBytes = k * c := by
            simp only [stateAt]; omega
          simp only [hrec]
          rw [if_pos ⟨hshort.1, hshort.2⟩]
          exact Reads.error k hk hfault
    · have hempty : q - k = 0 := by
        by_contra hne
        have := hw.needed k (by omega)
        exact hk this
      have hpending : (stateAt start size c k k q).pendingRequests = [] := by
        simp [stateAt, hempty]
      simp only [readLoop, hpending]
      exact Reads.done k (by omega)

end simulation

/-- **The queue does not show**: the responses are those of the sequential reader. -/
theorem asyncRead_reads {srv : ReadServer} {m : ℕ} (hm : srv.max_read_length = some m)
    (content : List UInt8) (start size : ℕ) :
    Reads srv content start size (min m MAX_XFER_BUF_SIZE) 0 (asyncRead srv content start size) := by
  have hinit : (⟨0, [], 0, 0⟩ : State) =
      stateAt start size (min m MAX_XFER_BUF_SIZE) 0 0 0 := by
    simp [stateAt]
  simp only [asyncRead, hm, hinit]
  rcases queueBunch_spec srv start size (min m MAX_XFER_BUF_SIZE)
      (Nat.zero_add MAX_PENDING_REQUESTS) (by simp) with
    ⟨hnone, j, hj, hu⟩ | ⟨q, hq, hw, hall⟩
  · rw [hnone]
    have hsize : 0 * min m MAX_XFER_BUF_SIZE < size := by
      have := hu.1
      have := Nat.zero_le (j * min m MAX_XFER_BUF_SIZE)
      omega
    exact Reads.error 0 hsize (Or.inr (Or.inr ⟨rfl, j, hj, hu⟩))
  · rw [hq]
    refine readLoop_reads hw ?_ (fun _ j hj => hall j (Nat.zero_le _) hj) (by omega)
    intro h0
    by_contra hc
    exact hall 0 (Nat.le_refl _) (by decide) ⟨h0, Or.inl (by omega)⟩

end Read

end KioExtras.Sftp
