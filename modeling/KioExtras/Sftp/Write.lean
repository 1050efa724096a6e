import KioExtras.Lib.FileStore
import KioExtras.Lib.Poll
import KioExtras.Sftp.Read
import Mathlib.Algebra.GroupWithZero.Nat

/-!
Writing a remote file with many requests in flight: `asyncWrite`.

The server carries out the requests in the order in which they are sent; what it answers is
waited for later. The generator is the list of the responses it yields, each with the store as
it is then, because whoever consumes them may stop at any of them.
-/

namespace KioExtras.Sftp

open KioExtras.Kio KioExtras.Lib.FileStore

structure WriteResponse where
  bytes : ℕ
  error : Option Error
  deriving DecidableEq

/-- What the calls of `asyncWrite` return: the limit (`none` when it cannot be had), whether the
`k`-th request can be sent, and how many bytes of it are written at most (`none` when its answer
is an error and nothing is written). -/
structure WriteServer where
  max_write_length : Option ℕ
  begin_write : ℕ → Bool
  wait_write : ℕ → Option ℕ

namespace Write

structure Request where
  index : ℕ
  length : ℕ

/-- The remote file and the locals of the generator; `sent` counts the requests. -/
structure State where
  store : Store String
  file : Handle String
  pendingRequests : List Request
  sent : ℕ

/-- The spans of at most `w` bytes that a buffer is cut into; `fuel` is its length. -/
def spans (w : ℕ) : ℕ → List UInt8 → List (List UInt8)
  | 0, _ => []
  | fuel + 1, buffer =>
    match buffer with
    | [] => []
    | _ => buffer.take w :: spans w fuel (buffer.drop w)

section generator

variable (srv : WriteServer) (w : ℕ)

def answer (r : Request) : Option ℕ := (srv.wait_write r.index).map fun n => min n r.length

/-- `sftp_aio_begin_write`. A request for no bytes is refused. -/
def beginWrite (st : State) (span : List UInt8) : Option State :=
  if span = [] ∨ srv.begin_write st.sent = false then none
  else
    let request : Request := ⟨st.sent, span.length⟩
    let store := match answer srv request with
      | some n => (st.store.write st.file (span.take n)).1
      | none => st.store
    some ⟨store, { st.file with offset := st.file.offset + span.length },
      st.pendingRequests ++ [request], st.sent + 1⟩

/-- The requests for one buffer; false when one of them cannot be sent. -/
def beginAll : List (List UInt8) → State → State × Bool
  | [], st => (st, true)
  | span :: rest, st =>
    match beginWrite srv st span with
    | none => (st, false)
    | some st => beginAll rest st

def queueChunkMaybe (readResponse : ReadResponse) (st : State) : State × Option Error :=
  match readResponse.error with
  | some error => (st, some error)
  | none =>
    match beginAll srv (spans w readResponse.filedata.length readResponse.filedata) st with
    | (st, true) => (st, none)
    | (st, false) => (st, some .ERR_CANNOT_READ)

/-- The loop that queues a bunch of requests: the state, what is left of the reader and the
error. -/
def queueBunch : List ReadResponse → State → State × List ReadResponse × Option Error
  | [], st => (st, [], none)
  | r :: reader, st =>
    if st.pendingRequests.length < MAX_PENDING_REQUESTS then
      match queueChunkMaybe srv w r st with
      | (st, some error) => (st, reader, some error)
      | (st, none) => queueBunch reader st
    else (st, r :: reader, none)

/-- The responses once the reader is used up. -/
def drain (store : Store String) : List Request → List (WriteResponse × Store String)
  | [] => []
  | aio :: rest =>
    match answer srv aio with
    | none => [(⟨0, some .ERR_CANNOT_WRITE⟩, store)]
    | some n => (⟨n, none⟩, store) :: drain store rest

/-- The pop-queue-wait loop. -/
def writeLoop : List ReadResponse → State → List (WriteResponse × Store String)
  | [], st => drain srv st.store st.pendingRequests
  | r :: reader, st =>
    match st.pendingRequests with
    | [] => []
    | aio :: rest =>
      match queueChunkMaybe srv w r { st with pendingRequests := rest } with
      | (st, some error) => [(⟨0, some error⟩, st.store)]
      | (st, none) =>
        match answer srv aio with
        | none => [(⟨0, some .ERR_CANNOT_WRITE⟩, st.store)]
        | some n => (⟨n, none⟩, st.store) :: writeLoop reader st

end generator

end Write

open Write in
def asyncWrite (srv : WriteServer) (store : Store String) (file : Handle String)
    (reader : List ReadResponse) : List (WriteResponse × Store String) :=
  match srv.max_write_length with
  | none => [(⟨0, some .ERR_CANNOT_READ⟩, store)]
  | some w =>
    match queueBunch srv w reader ⟨store, file, [], 0⟩ with
    | (st, _, some error) => [(⟨0, some error⟩, st.store)]
    | (st, reader, none) => writeLoop srv w reader st

namespace Write

/-! ### Which response is an error -/

section errors

variable (srv : WriteServer) (w : ℕ)

def requests (r : ReadResponse) : ℕ := (spans w r.filedata.length r.filedata).length

/-- How many requests have been sent when the reader is used up. -/
def total (q : ℕ) (reader : List ReadResponse) : ℕ := q + (reader.map (requests w)).sum

/-- The `d`-th response of the reader is an error or one of its requests cannot be sent, when
`q` requests have been sent before. -/
def Fails : ℕ → List ReadResponse → ℕ → Prop
  | _, [], _ => False
  | q, r :: _, 0 => r.error ≠ none ∨
      ∃ k, q ≤ k ∧ k < q + requests w r ∧ (w = 0 ∨ srv.begin_write k = false)
  | q, r :: reader, d + 1 => Fails (q + requests w r) reader d

/-- How many responses of the reader the first loop takes, with `q` requests in the queue. -/
def bunch : ℕ → List ReadResponse → ℕ
  | _, [] => 0
  | q, r :: reader => if q < MAX_PENDING_REQUESTS then bunch (q + requests w r) reader + 1 else 0

/-- All responses of a reader carry bytes, except that the last one may be empty. -/
inductive Filled : List ReadResponse → Prop
  | nil : Filled []
  | last (r : ReadResponse) (h : r.filedata = []) : Filled [r]
  | cons (r : ReadResponse) (reader : List ReadResponse) (hd : r.filedata ≠ [])
    (he : r.error = none) (h : Filled reader) : Filled (r :: reader)

/-- There is an `i`-th response, unless one before it ends the loop. A response of the reader
that fails shows up late by as many responses as the first loop took. -/
def Needed (reader : List ReadResponse) (i : ℕ) : Prop :=
  i < total w 0 reader ∨ ∃ d, Fails srv w 0 reader d ∧ i = d - bunch w 0 reader

/-- The `i`-th response is an error. -/
def Bad (reader : List ReadResponse) (i : ℕ) : Prop :=
  (i < total w 0 reader ∧ srv.wait_write i = none) ∨
    ∃ d, Fails srv w 0 reader d ∧ i = d - bunch w 0 reader

/-- Responses that are errors exactly where they should be. -/
inductive Responses (needed bad : ℕ → Prop) : ℕ → List (WriteResponse × Store String) → Prop
  | done (i : ℕ) (h : ¬ needed i) : Responses needed bad i []
  | error (i : ℕ) (error : Error) (store : Store String) (hn : needed i) (hb : bad i) :
    Responses needed bad i [(⟨0, some error⟩, store)]
  | next (i n : ℕ) (store : Store String) (rest : List (WriteResponse × Store String))
    (hn : needed i) (hb : ¬ bad i) (h : Responses needed bad (i + 1) rest) :
    Responses needed bad i ((⟨n, none⟩, store) :: rest)

end errors

section indices

variable {srv : WriteServer} {w : ℕ}

@[simp] lemma spans_nil (w fuel : ℕ) : spans w fuel [] = [] := by
  cases fuel <;> rfl

lemma spans_cons (w : ℕ) {buffer : List UInt8} (h : buffer ≠ []) (fuel : ℕ) :
    spans w (fuel + 1) buffer = buffer.take w :: spans w fuel (buffer.drop w) := by
  cases buffer with
  | nil => exact absurd rfl h
  | cons b buffer => rfl

variable {r : ReadResponse}

lemma requests_pos (w : ℕ) (h : r.filedata ≠ []) : 0 < requests w r := by
  have hlen : r.filedata.length = r.filedata.length - 1 + 1 := by
    have := List.length_pos_of_ne_nil h
    omega
  unfold requests
  rw [hlen, spans_cons w h]
  simp

variable {fuel i q : ℕ} {st : State} {bad needed : ℕ → Prop}

lemma spans_ne_nil (hw : 0 < w) {buffer span : List UInt8} (h : span ∈ spans w fuel buffer) :
    span ≠ [] := by
  induction fuel generalizing buffer with
  | zero => simp [spans] at h
  | succ fuel ih =>
    by_cases hb : buffer = []
    · simp [hb] at h
    · rw [spans_cons w hb, List.mem_cons] at h
      rcases h with rfl | h
      · simp only [ne_eq, List.take_eq_nil_iff, hb, or_false]
        omega
      · exact ih h

lemma spans_flatten (hw : 0 < w) {buffer : List UInt8} (h : buffer.length ≤ fuel) :
    (spans w fuel buffer).flatten = buffer := by
  induction fuel generalizing buffer with
  | zero =>
    have : buffer = [] := by simpa using h
    simp [this, spans]
  | succ fuel ih =>
    by_cases hb : buffer = []
    · simp [hb]
    · have hlen := List.length_pos_of_ne_nil hb
      rw [spans_cons w hb, List.flatten_cons, ih (by simp; omega), List.take_append_drop]

lemma beginAll_ok (chunks : List (List UInt8)) (st : State) (hne : ∀ span ∈ chunks, span ≠ [])
    (hb : ∀ k, st.sent ≤ k → k < st.sent + chunks.length → srv.begin_write k = true) :
    ∃ st', beginAll srv chunks st = (st', true) ∧ st'.sent = st.sent + chunks.length ∧
      st'.pendingRequests.map Request.index =
        st.pendingRequests.map Request.index ++ List.range' st.sent chunks.length := by
  induction chunks generalizing st with
  | nil => exact ⟨st, rfl, by simp, by simp⟩
  | cons span rest ih =>
    have hspan : ¬ (span = [] ∨ srv.begin_write st.sent = false) := by
      simp [hne span (by simp), hb st.sent (Nat.le_refl _) (by simp)]
    simp only [beginAll, beginWrite, hspan, if_false]
    obtain ⟨st', heq, hsent, hidx⟩ := ih ⟨_, { st.file with
        offset := st.file.offset + span.length }, st.pendingRequests ++
        [⟨st.sent, span.length⟩], st.sent + 1⟩ (fun s hs => hne s (by simp [hs])) (by
      intro k hk hlt
      exact hb k (by simp only at hk; omega) (by simp only [List.length_cons] at hlt ⊢; omega))
    refine ⟨st', heq, by rw [hsent]; simp; omega, ?_⟩
    rw [hidx]
    simp [List.range'_succ]

lemma beginAll_fails {chunks : List (List UInt8)} {k : ℕ} (hk : st.sent ≤ k)
    (hlt : k < st.sent + chunks.length) (hb : srv.begin_write k = false) :
    (beginAll srv chunks st).2 = false := by
  induction chunks generalizing st with
  | nil => simp at hlt; omega
  | cons span rest ih =>
    simp only [beginAll]
    cases hst : beginWrite srv st span with
    | none => rfl
    | some st' =>
      have hsent : st'.sent = st.sent + 1 ∧ srv.begin_write st.sent ≠ false := by
        unfold beginWrite at hst
        split_ifs at hst with hcond
        simp only [not_or] at hcond
        simp only [Option.some.injEq] at hst
        exact ⟨by rw [← hst], hcond.2⟩
      have hne : st.sent ≠ k := fun h => hsent.2 (h ▸ hb)
      simp only [List.length_cons] at hlt
      exact ih (by rw [hsent.1]; omega) (by rw [hsent.1]; omega)

lemma queueChunkMaybe_fails {reader : List ReadResponse} (st : State)
    (h : Fails srv w st.sent (r :: reader) 0) :
    ∃ st' error, queueChunkMaybe srv w r st = (st', some error) := by
  unfold queueChunkMaybe
  cases he : r.error with
  | some error => exact ⟨st, error, rfl⟩
  | none =>
    have hfalse : (beginAll srv (spans w r.filedata.length r.filedata) st).2 = false := by
      rcases h with h | ⟨k, hk, hlt, hw | hb⟩
      · exact absurd he h
      · -- a limit of no bytes makes the first request one for no bytes
        subst hw
        unfold requests at hlt
        rcases hfuel : r.filedata.length with _ | fuel
        · simp [hfuel, spans] at hlt; omega
        · have hne : r.filedata ≠ [] := by
            intro h
            simp [h] at hfuel
          rw [spans_cons 0 hne]
          simp [beginAll, beginWrite]
      · exact beginAll_fails hk hlt hb
    refine ⟨(beginAll srv (spans w r.filedata.length r.filedata) st).1, .ERR_CANNOT_READ, ?_⟩
    simp only
    split
    · rename_i heq
      simp [heq] at hfalse
    · rename_i heq
      simp [heq]

lemma queueChunkMaybe_ok {reader : List ReadResponse} (st : State)
    (h : ¬ Fails srv w st.sent (r :: reader) 0) :
    ∃ st', queueChunkMaybe srv w r st = (st', none) ∧ st'.sent = st.sent + requests w r ∧
      st'.pendingRequests.map Request.index =
        st.pendingRequests.map Request.index ++ List.range' st.sent (requests w r) := by
  simp only [Fails, not_or, not_exists, not_and, not_not] at h
  obtain ⟨he, hb⟩ := h
  have hw : requests w r ≠ 0 → 0 < w := by
    intro hne
    have := (hb st.sent (Nat.le_refl _) (by omega)).1
    omega
  obtain ⟨st', heq, hsent, hidx⟩ := beginAll_ok
    (spans w r.filedata.length r.filedata) st
    (fun span hs => spans_ne_nil (hw (by
      unfold requests
      intro h0
      rw [List.length_eq_zero_iff.mp h0] at hs
      simp at hs)) hs)
    (fun k hk hlt => by simpa using (hb k hk hlt).2)
  exact ⟨st', by simp [queueChunkMaybe, he, heq], hsent, hidx⟩

lemma total_cons (q : ℕ) (r : ReadResponse) (reader : List ReadResponse) :
    total w q (r :: reader) = total w (q + requests w r) reader := by
  simp [total]; omega

lemma le_total (q : ℕ) (reader : List ReadResponse) : q ≤ total w q reader := by
  simp [total]

lemma fails_shift (q : ℕ) {reader : List ReadResponse} {j : ℕ} (hj : i + 1 ≤ j) :
    (∃ d, Fails srv w q (r :: reader) d ∧ j = i + d) ↔
      ∃ d, Fails srv w (q + requests w r) reader d ∧ j = i + 1 + d := by
  constructor
  · rintro ⟨d, hd, rfl⟩
    cases d with
    | zero => omega
    | succ d => exact ⟨d, hd, by omega⟩
  · rintro ⟨d, hd, rfl⟩
    exact ⟨d + 1, hd, by omega⟩

lemma drain_responses (store : Store String) {pending : List Request} (hi : i ≤ q)
    (hidx : pending.map Request.index = List.range' i (q - i))
    (hn : ∀ j, i ≤ j → (needed j ↔ j < q))
    (hb : ∀ j, i ≤ j → (bad j ↔ j < q ∧ srv.wait_write j = none)) :
    Responses needed bad i (drain srv store pending) := by
  induction pending generalizing i with
  | nil =>
    have hlen := congrArg List.length hidx
    simp only [List.map_nil, List.length_nil, List.length_range'] at hlen
    refine Responses.done i ?_
    rw [hn i (Nat.le_refl _)]
    omega
  | cons aio rest ih =>
    have hlen := congrArg List.length hidx
    simp only [List.map_cons, List.length_cons, List.length_range'] at hlen
    have hsplit : q - i = q - (i + 1) + 1 := by omega
    rw [hsplit, List.range'_succ, List.map_cons, List.cons.injEq] at hidx
    have hneed : needed i := (hn i (Nat.le_refl _)).mpr (by omega)
    simp only [drain, answer, hidx.1]
    cases hwait : srv.wait_write i with
    | none => exact Responses.error i _ store hneed ((hb i (Nat.le_refl _)).mpr ⟨by omega, hwait⟩)
    | some n =>
      refine Responses.next i _ store _ hneed ?_ ?_
      · rw [hb i (Nat.le_refl _), hwait]
        simp
      · exact ih (by omega) hidx.2 (fun j hj => hn j (by omega)) (fun j hj => hb j (by omega))

/-- The loop from its `i`-th response on, with part of the reader left. -/
lemma writeLoop_responses {reader : List ReadResponse} (hf : Filled reader) (hi : i ≤ st.sent)
    (hidx : st.pendingRequests.map Request.index = List.range' i (st.sent - i))
    (hlive : reader ≠ [] → i < st.sent) (hn : ∀ j, i ≤ j → (needed j ↔ j < total w st.sent reader ∨
      ∃ d, Fails srv w st.sent reader d ∧ j = i + d))
    (hb : ∀ j, i ≤ j → (bad j ↔ (j < total w st.sent reader ∧ srv.wait_write j = none) ∨
      ∃ d, Fails srv w st.sent reader d ∧ j = i + d)) :
    Responses needed bad i (writeLoop srv w reader st) := by
  induction reader generalizing st i with
  | nil =>
    refine drain_responses st.store hi hidx (fun j hj => ?_) (fun j hj => ?_)
    · simpa [Fails, total] using hn j hj
    · simpa [Fails, total] using hb j hj
  | cons r reader ih =>
    have hlt : i < st.sent := hlive (by simp)
    have hneed : needed i := by
      rw [hn i (Nat.le_refl _)]
      exact Or.inl (Nat.lt_of_lt_of_le hlt (le_total _ _))
    have hsplit : st.sent - i = st.sent - (i + 1) + 1 := by omega
    rw [hsplit, List.range'_succ] at hidx
    obtain ⟨aio, rest, hpending, hindex, hrest⟩ : ∃ aio rest,
        st.pendingRequests = aio :: rest ∧ aio.index = i ∧
        rest.map Request.index = List.range' (i + 1) (st.sent - (i + 1)) :=
      List.map_eq_cons_iff.mp hidx
    simp only [writeLoop, hpending]
    by_cases hfail : Fails srv w st.sent (r :: reader) 0
    · obtain ⟨st', error, heq⟩ := queueChunkMaybe_fails { st with pendingRequests := rest } hfail
      rw [heq]
      exact Responses.error i error _ hneed
        ((hb i (Nat.le_refl _)).mpr (Or.inr ⟨0, hfail, rfl⟩))
    obtain ⟨st', heq, hsent, hidx'⟩ := queueChunkMaybe_ok { st with pendingRequests := rest } hfail
    rw [heq]
    simp only at hsent hidx'
    simp only [answer, hindex]
    cases hwait : srv.wait_write i with
    | none =>
      refine Responses.error i _ _ hneed ((hb i (Nat.le_refl _)).mpr (Or.inl ⟨?_, hwait⟩))
      exact Nat.lt_of_lt_of_le hlt (le_total _ _)
    | some n =>
      refine Responses.next i _ _ _ hneed ?_ ?_
      · rw [hb i (Nat.le_refl _), hwait]
        rintro (⟨-, h⟩ | ⟨d, hd, hid⟩)
        · cases h
        · obtain rfl : d = 0 := by omega
          exact hfail hd
      · have hfilled : Filled reader ∧ (reader ≠ [] → 0 < requests w r) := by
          cases hf with
          | last r h => exact ⟨Filled.nil, fun h => absurd rfl h⟩
          | cons r reader hd he h => exact ⟨h, fun _ => requests_pos w hd⟩
        refine ih hfilled.1 (by omega) ?_ ?_ ?_ ?_
        · rw [hidx', hrest, hsent]
          have hcat := List.range'_append_1 (s := i + 1) (m := st.sent - (i + 1)) (n := requests w r)
          have h1 : i + 1 + (st.sent - (i + 1)) = st.sent := by omega
          have h2 : st.sent - (i + 1) + requests w r = st.sent + requests w r - (i + 1) := by omega
          rw [h1, h2] at hcat
          exact hcat
        · intro h
          have := hfilled.2 h
          omega
        · intro j hj
          rw [hn j (by omega), fails_shift _ hj, total_cons, hsent]
        · intro j hj
          rw [hb j (by omega), fails_shift _ hj, total_cons, hsent]

lemma queueBunch_spec (srv : WriteServer) (w : ℕ) (reader : List ReadResponse) (st : State)
    (hidx : st.pendingRequests.map Request.index = List.range' 0 st.sent) :
    (∃ st' rest error d, queueBunch srv w reader st = (st', rest, some error) ∧
      d < bunch w st.sent reader ∧ Fails srv w st.sent reader d) ∨
    ∃ st' rest, queueBunch srv w reader st = (st', rest, none) ∧
      rest = reader.drop (bunch w st.sent reader) ∧
      st'.pendingRequests.map Request.index = List.range' 0 st'.sent ∧
      (rest ≠ [] → 0 < st'.sent) ∧ total w st'.sent rest = total w st.sent reader ∧
      ∀ d, Fails srv w st.sent reader d ↔
        ∃ e, d = bunch w st.sent reader + e ∧ Fails srv w st'.sent rest e := by
  induction reader generalizing st with
  | nil =>
    refine Or.inr ⟨st, [], rfl, rfl, hidx, by simp, rfl, fun d => ?_⟩
    simp [Fails]
  | cons r reader ih =>
    have hlen : st.pendingRequests.length = st.sent := by
      simpa using congrArg List.length hidx
    by_cases hroom : st.sent < MAX_PENDING_REQUESTS
    · simp only [queueBunch, hlen, hroom, if_true, bunch]
      by_cases hfail : Fails srv w st.sent (r :: reader) 0
      · obtain ⟨st', error, heq⟩ := queueChunkMaybe_fails st hfail
        exact Or.inl ⟨st', reader, error, 0, by rw [heq], by omega, hfail⟩
      obtain ⟨st', heq, hsent, hidx'⟩ := queueChunkMaybe_ok st hfail
      have hidx'' : st'.pendingRequests.map Request.index = List.range' 0 st'.sent := by
        have hcat := List.range'_append_1 (s := 0) (m := st.sent) (n := requests w r)
        rw [Nat.zero_add] at hcat
        rw [hidx', hidx, hsent, hcat]
      rw [heq, ← hsent]
      simp only
      rcases ih st' hidx'' with ⟨st'', rest, error, d, hq, hd, hf⟩ |
        ⟨st'', rest, hq, hrest, h1, h2, h3, h4⟩
      · refine Or.inl ⟨st'', rest, error, d + 1, hq, by omega, ?_⟩
        rw [hsent] at hf
        exact hf
      · refine Or.inr ⟨st'', rest, hq, by simpa using hrest, h1, h2, ?_, ?_⟩
        · rw [h3, total_cons, hsent]
        · intro d
          cases d with
          | zero =>
            refine iff_of_false hfail ?_
            rintro ⟨e, he, -⟩
            omega
          | succ d =>
            show Fails srv w (st.sent + requests w r) reader d ↔ _
            rw [← hsent, h4 d]
            constructor
            · rintro ⟨e, rfl, he⟩
              exact ⟨e, by omega, he⟩
            · rintro ⟨e, hde, he⟩
              exact ⟨e, by omega, he⟩
    · refine Or.inr ⟨st, r :: reader, ?_, ?_, hidx, ?_, rfl, ?_⟩
      · simp [queueBunch, hlen, hroom]
      · simp [bunch, hroom]
      · intro _
        unfold MAX_PENDING_REQUESTS at hroom
        omega
      · intro d
        simp [bunch, hroom]

lemma filled_drop {reader : List ReadResponse} (h : Filled reader) (n : ℕ) :
    Filled (reader.drop n) := by
  induction n generalizing reader with
  | zero => exact h
  | succ n ih =>
    cases h with
    | nil => exact Filled.nil
    | last r h => simpa using Filled.nil
    | cons r reader hd he h => exact ih h

lemma fails_le {reader : List ReadResponse} (h : Filled reader) {d : ℕ}
    (hd : Fails srv w q reader d) : q + d ≤ total w q reader := by
  induction reader generalizing q d with
  | nil => simp [Fails] at hd
  | cons r reader ih =>
    cases d with
    | zero => exact le_total q _
    | succ d =>
      rw [total_cons]
      have hpos : 0 < requests w r ∧ Filled reader := by
        cases h with
        | last r h => simp [Fails] at hd
        | cons r reader hr he h => exact ⟨requests_pos w hr, h⟩
      have := ih hpos.2 hd
      omega

lemma needed_down {reader : List ReadResponse} (h : Filled reader) :
    ∀ i j, i ≤ j → Needed srv w reader j → Needed srv w reader i := by
  rintro i j hij (hj | ⟨d, hd, rfl⟩)
  · exact Or.inl (Nat.lt_of_le_of_lt hij hj)
  · rcases Nat.eq_or_lt_of_le hij with rfl | hlt
    · exact Or.inr ⟨d, hd, rfl⟩
    · have := fails_le h hd
      exact Or.inl (by omega)

end indices

end Write

variable {srv : WriteServer} {w : ℕ}

open Write in
/-- **Errors are not lost in the queue**: the responses are errors exactly where a request is
answered with one, or where a response of the reader fails. -/
theorem asyncWrite_responses (hw : srv.max_write_length = some w) (store : Store String)
    (file : Handle String) {reader : List ReadResponse} (hf : Filled reader) :
    Responses (Needed srv w reader) (Bad srv w reader) 0 (asyncWrite srv store file reader) := by
  simp only [asyncWrite, hw]
  rcases queueBunch_spec srv w reader ⟨store, file, [], 0⟩ rfl with
    ⟨st', rest, error, d, hq, hd, hfail⟩ | ⟨st', rest, hq, hrest, hidx, hlive, htotal, hfails⟩
  · rw [hq]
    have h0 : 0 = d - bunch w 0 reader := by
      simp only at hd
      omega
    exact Responses.error 0 error _ (Or.inr ⟨d, hfail, h0⟩) (Or.inr ⟨d, hfail, h0⟩)
  · rw [hq]
    simp only at htotal hfails hrest
    have hshift : ∀ j, (∃ d, Fails srv w 0 reader d ∧ j = d - bunch w 0 reader) ↔
        ∃ d, Fails srv w st'.sent rest d ∧ j = 0 + d := by
      intro j
      constructor
      · rintro ⟨d, hd, rfl⟩
        obtain ⟨e, rfl, he⟩ := (hfails d).mp hd
        exact ⟨e, he, by omega⟩
      · rintro ⟨e, he, rfl⟩
        exact ⟨_, (hfails _).mpr ⟨e, rfl, he⟩, by omega⟩
    refine writeLoop_responses (hrest ▸ filled_drop hf _) (Nat.zero_le _) (by simpa using hidx)
      hlive (fun j _ => ?_) (fun j _ => ?_)
    · rw [Needed, htotal, hshift]
    · rw [Bad, htotal, hshift]

namespace Write

/-! ### What every store on the way has in common -/

section stores

variable {srv : WriteServer} {w : ℕ} {I : Store String → Prop}

variable {st : State}

lemma beginAll_inv (srv : WriteServer) (hI : ∀ s h bytes, I s → I (s.write h bytes).1)
    (chunks : List (List UInt8)) (h : I st.store) : I (beginAll srv chunks st).1.store := by
  induction chunks generalizing st with
  | nil => exact h
  | cons span rest ih =>
    simp only [beginAll]
    cases hst : beginWrite srv st span with
    | none => exact h
    | some st' =>
      refine ih ?_
      unfold beginWrite at hst
      split_ifs at hst
      simp only [Option.some.injEq] at hst
      subst hst
      simp only
      split
      · exact hI _ _ _ h
      · exact h

lemma queueChunkMaybe_inv (srv : WriteServer) (w : ℕ)
    (hI : ∀ s h bytes, I s → I (s.write h bytes).1) (r : ReadResponse) (h : I st.store) :
    I (queueChunkMaybe srv w r st).1.store := by
  have hall := beginAll_inv srv hI (spans w r.filedata.length r.filedata) h
  unfold queueChunkMaybe
  split
  · exact h
  · split <;> simp_all

lemma queueBunch_inv (srv : WriteServer) (w : ℕ) (hI : ∀ s h bytes, I s → I (s.write h bytes).1)
    (reader : List ReadResponse) (h : I st.store) : I (queueBunch srv w reader st).1.store := by
  induction reader generalizing st with
  | nil => exact h
  | cons r reader ih =>
    have hq := queueChunkMaybe_inv srv w hI r h
    simp only [queueBunch]
    split_ifs
    · split
      · simp_all
      · exact ih (by simp_all)
    · exact h

lemma drain_inv {store : Store String} {pending : List Request} (h : I store) :
    ∀ x ∈ drain srv store pending, I x.2 := by
  induction pending with
  | nil => simp [drain]
  | cons aio rest ih =>
    simp only [drain]
    split
    · simpa using h
    · simpa using ⟨h, fun a b => ih (a, b)⟩

lemma writeLoop_inv (hI : ∀ s h bytes, I s → I (s.write h bytes).1) {reader : List ReadResponse}
    (h : I st.store) : ∀ x ∈ writeLoop srv w reader st, I x.2 := by
  induction reader generalizing st with
  | nil => exact drain_inv h
  | cons r reader ih =>
    simp only [writeLoop]
    split
    · simp
    · rename_i aio rest _
      have hpop : I ({ st with pendingRequests := rest } : State).store := h
      have hq := queueChunkMaybe_inv srv w hI r hpop
      split
      · simp_all
      · rename_i st' heq
        have hst' : I st'.store := by simpa [heq] using hq
        split
        · simpa using hst'
        · simpa using ⟨hst', fun a b => ih hst' (a, b)⟩

end stores

end Write

open Write in
lemma asyncWrite_inv {I : Store String → Prop} (hI : ∀ s h bytes, I s → I (s.write h bytes).1)
    {store : Store String} {file : Handle String} {reader : List ReadResponse} (h : I store) :
    ∀ x ∈ asyncWrite srv store file reader, I x.2 := by
  unfold asyncWrite
  split
  · simpa using h
  · rename_i w _
    have hinit : I (⟨store, file, [], 0⟩ : State).store := h
    have hq := queueBunch_inv srv w hI reader hinit
    split
    · simp_all
    · rename_i heq
      exact writeLoop_inv hI (by simpa [heq] using hq)

namespace Write

/-! ### What is stored -/

section stored

variable {srv : WriteServer} {w : ℕ}

structure Succeeds (srv : WriteServer) (w : ℕ) : Prop where
  max_write_length : srv.max_write_length = some w
  pos : 0 < w
  begin_write : ∀ k, srv.begin_write k = true
  wait_write : ∀ k, ∃ n, srv.wait_write k = some n ∧ w ≤ n

def lastStore (store : Store String) : List (WriteResponse × Store String) → Store String
  | [] => store
  | (_, store) :: rest => lastStore store rest

/-- The file holds `data`, the next request goes behind it and nothing else was changed. -/
structure Holds (before : Store String) (path : String) (data : List UInt8) (store : Store String)
    (file : Handle String) : Prop where
  named : file.path = path
  atEnd : store.AtEnd file data
  frame : ∀ p, p ≠ path → store p = before p

variable {before : Store String} {path : String} {data : List UInt8}

variable {st : State}

variable {span : List UInt8} {r : ReadResponse}

lemma beginWrite_holds (hs : Succeeds srv w) (hne : span ≠ []) (hlen : span.length ≤ w)
    (h : Holds before path data st.store st.file) :
    ∃ st', beginWrite srv st span = some st' ∧
      Holds before path (data ++ span) st'.store st'.file := by
  obtain ⟨n, hn, hwn⟩ := hs.wait_write st.sent
  have hcond : ¬ (span = [] ∨ srv.begin_write st.sent = false) := by
    simp [hne, hs.begin_write]
  have hall : span.take (min n span.length) = span := by
    rw [Nat.min_eq_right (by omega), List.take_length]
  refine ⟨⟨(st.store.write st.file span).1, (st.store.write st.file span).2,
    st.pendingRequests ++ [⟨st.sent, span.length⟩], st.sent + 1⟩, ?_, h.named, ?_, ?_⟩
  · simp only [beginWrite, hcond, if_false, answer, hn, Option.map_some, hall]
    rfl
  · exact h.atEnd.write span
  · intro p hp
    exact (Store.write_ne (h.named ▸ hp) span).trans (h.frame p hp)

lemma spans_length {fuel : ℕ} {buffer : List UInt8} (h : span ∈ spans w fuel buffer) :
    span.length ≤ w := by
  induction fuel generalizing buffer with
  | zero => simp [spans] at h
  | succ fuel ih =>
    by_cases hb : buffer = []
    · simp [hb] at h
    · rw [spans_cons w hb, List.mem_cons] at h
      rcases h with rfl | h
      · rw [List.length_take]
        exact Nat.min_le_left _ _
      · exact ih h

lemma beginAll_holds (hs : Succeeds srv w) {chunks : List (List UInt8)}
    (hne : ∀ span ∈ chunks, span ≠ [] ∧ span.length ≤ w)
    (h : Holds before path data st.store st.file) :
    ∃ st', beginAll srv chunks st = (st', true) ∧
      Holds before path (data ++ chunks.flatten) st'.store st'.file := by
  induction chunks generalizing st data with
  | nil => exact ⟨st, rfl, by simpa using h⟩
  | cons span rest ih =>
    obtain ⟨h1, h2⟩ := hne span (by simp)
    obtain ⟨st1, heq, hst1⟩ := beginWrite_holds hs h1 h2 h
    obtain ⟨st2, heq2, hst2⟩ := ih (fun s hs => hne s (by simp [hs])) hst1
    refine ⟨st2, by simp [beginAll, heq, heq2], ?_⟩
    simpa using hst2

lemma queueChunkMaybe_holds (hs : Succeeds srv w) (st : State) (he : r.error = none)
    (h : Holds before path data st.store st.file) :
    ∃ st', queueChunkMaybe srv w r st = (st', none) ∧
      Holds before path (data ++ r.filedata) st'.store st'.file := by
  have hspans : ∀ span ∈ spans w r.filedata.length r.filedata, span ≠ [] ∧ span.length ≤ w :=
    fun span hspan => ⟨spans_ne_nil hs.pos hspan, spans_length hspan⟩
  obtain ⟨st', heq, hst'⟩ := beginAll_holds hs hspans h
  rw [spans_flatten hs.pos (Nat.le_refl _)] at hst'
  exact ⟨st', by simp [queueChunkMaybe, he, heq], hst'⟩

lemma Succeeds.not_fails (hs : Succeeds srv w) (reader : List ReadResponse) (he : r.error = none)
    (q : ℕ) : ¬ Fails srv w q (r :: reader) 0 := by
  rintro (h | ⟨k, -, -, h | h⟩)
  · exact h he
  · have := hs.pos
    omega
  · simp [hs.begin_write k] at h

lemma Succeeds.queued (hs : Succeeds srv w) {st' : State} (hd : r.filedata ≠ [])
    (he : r.error = none) (heq : queueChunkMaybe srv w r st = (st', none)) :
    st'.pendingRequests ≠ [] := by
  obtain ⟨st'', heq', -, hidx⟩ :=
    queueChunkMaybe_ok st (hs.not_fails [] he st.sent)
  rw [heq, Prod.mk.injEq] at heq'
  rw [← heq'.1] at hidx
  intro hnil
  have hlen := congrArg List.length hidx
  have := requests_pos w hd
  simp only [hnil, List.map_nil, List.length_nil, List.length_append, List.length_range'] at hlen
  omega

lemma lastStore_drain (store : Store String) (pending : List Request) :
    lastStore store (drain srv store pending) = store := by
  induction pending with
  | nil => rfl
  | cons aio rest ih =>
    simp only [drain]
    cases answer srv aio with
    | none => rfl
    | some n => exact ih

lemma Holds.nil_of_no_request {store : Store String} {file : Handle String}
    {reader : List ReadResponse} (h : Holds before path data store file)
    (hnone : ¬ 0 < total w 0 reader) :
    ∃ file', Holds before path (data ++ (reader.map ReadResponse.filedata).flatten) store file' := by
  have hempty : (reader.map ReadResponse.filedata).flatten = [] := by
    induction reader with
    | nil => rfl
    | cons r reader ih =>
      simp only [total, List.map_cons, List.sum_cons] at hnone ih
      have hr : r.filedata = [] := by
        by_contra hd
        have := requests_pos w hd
        omega
      simp [hr, ih (by omega)]
  exact ⟨file, by simpa [hempty] using h⟩

lemma writeLoop_holds (hs : Succeeds srv w) {reader : List ReadResponse} (hf : Filled reader)
    (he : ∀ r ∈ reader, r.error = none) (hlive : reader ≠ [] → st.pendingRequests ≠ [])
    (h : Holds before path data st.store st.file) :
    ∃ file, Holds before path (data ++ (reader.map ReadResponse.filedata).flatten)
      (lastStore st.store (writeLoop srv w reader st)) file := by
  induction reader generalizing st data with
  | nil => exact ⟨st.file, by simpa [writeLoop, lastStore_drain] using h⟩
  | cons r reader ih =>
    obtain ⟨aio, rest, hpending⟩ := List.exists_cons_of_ne_nil (hlive (by simp))
    obtain ⟨n, hn, -⟩ := hs.wait_write aio.index
    obtain ⟨st', heq, hst'⟩ :=
      queueChunkMaybe_holds hs { st with pendingRequests := rest } (he r (by simp)) h
    have hnext : Filled reader ∧ (reader ≠ [] → st'.pendingRequests ≠ []) := by
      cases hf with
      | last r hr => exact ⟨Filled.nil, fun h => absurd rfl h⟩
      | cons r reader hd _ hf => exact ⟨hf, fun _ => hs.queued hd (he r (by simp)) heq⟩
    obtain ⟨file, hfile⟩ := ih hnext.1 (fun r hr => he r (by simp [hr])) hnext.2 hst'
    refine ⟨file, ?_⟩
    simpa [writeLoop, hpending, heq, answer, hn, lastStore] using hfile

lemma queueBunch_holds (hs : Succeeds srv w) {reader : List ReadResponse} (st : State)
    (hf : Filled reader) (he : ∀ r ∈ reader, r.error = none)
    (h : Holds before path data st.store st.file) :
    ∃ st' rest data', queueBunch srv w reader st = (st', rest, none) ∧ Filled rest ∧
      (∀ r ∈ rest, r.error = none) ∧ (rest ≠ [] → st'.pendingRequests ≠ []) ∧
      Holds before path data' st'.store st'.file ∧
      data' ++ (rest.map ReadResponse.filedata).flatten =
        data ++ (reader.map ReadResponse.filedata).flatten := by
  induction reader generalizing st data with
  | nil => exact ⟨st, [], data, rfl, hf, he, fun h => absurd rfl h, h, rfl⟩
  | cons r reader ih =>
    by_cases hroom : st.pendingRequests.length < MAX_PENDING_REQUESTS
    · obtain ⟨st1, heq, hst1⟩ := queueChunkMaybe_holds hs st (he r (by simp)) h
      have hfilled : Filled reader := by
        cases hf with
        | last r hr => exact Filled.nil
        | cons r reader hd _ hf => exact hf
      obtain ⟨st', rest, data', hq, h1, h2, h3, h4, h5⟩ :=
        ih st1 hfilled (fun r hr => he r (by simp [hr])) hst1
      exact ⟨st', rest, data', by simp [queueBunch, hroom, heq, hq], h1, h2, h3, h4, by simp [h5]⟩
    · refine ⟨st, r :: reader, data, by simp [queueBunch, hroom], hf, he, fun _ hnil => ?_, h, rfl⟩
      simp [hnil, MAX_PENDING_REQUESTS] at hroom

end stored

end Write

open Write in
/-- **All bytes are stored**: when no call fails or writes short, the file holds what it held
and behind it all that the reader delivered. -/
theorem asyncWrite_holds (hs : Succeeds srv w) {store : Store String} {file : Handle String}
    {data : List UInt8} {reader : List ReadResponse} (hf : Filled reader)
    (he : ∀ r ∈ reader, r.error = none) (h : store.AtEnd file data) :
    ∃ file', Holds store file.path (data ++ (reader.map ReadResponse.filedata).flatten)
      (lastStore store (asyncWrite srv store file reader)) file' := by
  have hinit : Holds store file.path data store file := ⟨rfl, h, fun _ _ => rfl⟩
  obtain ⟨st', rest, data', hq, h1, h2, h3, h4, h5⟩ :=
    queueBunch_holds hs ⟨store, file, [], 0⟩ hf he hinit
  obtain ⟨file', hfile⟩ := writeLoop_holds hs h1 h2 h3 h4
  have heq : asyncWrite srv store file reader = writeLoop srv w rest st' := by
    simp [asyncWrite, hs.max_write_length, hq]
  rw [heq]
  cases hl : writeLoop srv w rest st' with
  | cons response responses =>
    rw [hl, h5] at hfile
    exact ⟨file', hfile⟩
  | nil =>
    have hnone := asyncWrite_responses hs.max_write_length store file hf
    rw [heq, hl] at hnone
    have hlt : ¬ 0 < total w 0 reader := by
      cases hnone with
      | done _ hn => exact fun hlt => hn (Or.inl hlt)
    exact hinit.nil_of_no_request hlt

end KioExtras.Sftp
