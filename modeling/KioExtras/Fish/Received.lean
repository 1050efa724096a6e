import KioExtras.Fish.Worker
import Mathlib.Data.List.TakeDrop
import Mathlib.Data.List.Infix

/-!
Reading the responses: `received` and the buffer of `run`.

The bytes come in chunks, and `received` goes through them in runs of its own: lines, the first
kilobyte of raw data, the rest of it. What it does is told byte by byte by `eat`, which knows
nothing of chunks.
-/

namespace KioExtras.Fish

open KioExtras.Kio

/-- The size of the buffer of `run`. -/
def BUFSIZE : ℕ := 32768

namespace State

variable (env : Env)

def data (s : State) (bytes : Bytes) : State :=
  { s with signals := s.signals ++ bytes.map Signal.data }

variable (s : State)

/-- The first raw bytes go to the buffer for the mime type, which is cut when they are all. -/
def collect (bytes : Bytes) : State :=
  let dataRead := s.dataRead + bytes.length
  let rawRead := s.rawRead - bytes.length
  let mimeBuffer := s.mimeBuffer.take s.dataRead ++ bytes ++ s.mimeBuffer.drop dataRead
  { s with
    dataRead := dataRead
    rawRead := rawRead
    mimeBuffer := if rawRead = 0 then mimeBuffer.take dataRead else mimeBuffer }

def sendMime : State :=
  let s := { s.emit (.mimeType (env.mimeTypeForFileNameAndData s.url s.mimeBuffer)) with
    mimeTypeSent := true }
  let s :=
    if s.fishCommand ≠ .READ then (s.emit (.totalSize (s.dataRead + s.rawRead))).data s.mimeBuffer
    else s
  { s with mimeBuffer := s.mimeBuffer.take 1024 ++ List.replicate (1024 - s.mimeBuffer.length) 0 }

/-- Raw bytes behind the first kilobyte. -/
def takeData (bytes : Bytes) : State :=
  { s.data bytes with
    dataRead := s.dataRead + bytes.length
    rawRead := s.rawRead - bytes.length }

/-- How the part of a round goes that takes raw data: the round ends the loop, the next one
follows, or the round goes on with a line. -/
inductive Raw
  | wait (s : State) (rest : Bytes)
  | again (s : State) (rest : Bytes)
  | line (s : State) (rest : Bytes)

def takeRaw (buffer : Bytes) : Raw :=
  if 0 < s.rawRead then
    let dataSize := min s.rawRead.toNat buffer.length
    if s.mimeTypeSent = false then
      let mimeSize := min dataSize (s.mimeBuffer.length - s.dataRead)
      let s := s.collect (buffer.take mimeSize)
      if s.dataRead < s.mimeBuffer.length then .wait s (buffer.drop mimeSize)
      else .again (s.sendMime env) (buffer.drop mimeSize)
    else
      let s := s.takeData (buffer.take dataSize)
      if s.rawRead ≤ 0 then .line s (buffer.drop dataSize) else .wait s []
  else .line s buffer

/-- The bytes before the first newline and those behind it. -/
def splitLine : Bytes → Option (Bytes × Bytes)
  | [] => none
  | b :: buffer =>
    if b = 10 then some ([], buffer)
    else (splitLine buffer).map fun (line, rest) => (b :: line, rest)

def manageLine (line : Bytes) : State × WorkerResult :=
  (s.emit (.line (env.decode line))).manageConnection env (env.decode line)

/-- The rounds of `received`. A round takes a byte or ends the collecting for the mime type, so
that twice the number of bytes is enough. -/
def receivedLoop : ℕ → State → Bytes → State × Bytes × WorkerResult
  | 0, s, buffer => (s, buffer, .pass)
  | fuel + 1, s, buffer =>
    if buffer = [] then (s, buffer, .pass)
    else
      match s.takeRaw env buffer with
      | .wait s rest => (s, rest, .pass)
      | .again s rest =>
        if s.childPid = true ∧ rest ≠ [] then receivedLoop fuel s rest else (s, rest, .pass)
      | .line s rest =>
        match splitLine rest with
        | none => (s, rest, .pass)
        | some (line, rest) =>
          let (s, result) := s.manageLine env line
          if result.success = false then (s, rest, result)
          else if s.childPid = true ∧ rest ≠ [] ∧ (0 < s.rawRead ∨ 10 ∈ rest) then
            receivedLoop fuel s rest
          else (s, rest, .pass)

def received (buffer : Bytes) : State × Bytes × WorkerResult :=
  receivedLoop env (2 * buffer.length + 2) s buffer

end State

/-- The worker with what `run` keeps of the bytes read, and the failure that ends it. -/
structure Reading where
  worker : State
  buf : Bytes
  failed : Option WorkerResult

namespace Reading

variable (env : Env) (connectionHost : String)

variable (r : Reading)

/-- A call of `read`, which finds room for at least one byte, and `received`. -/
def read (chunk : Bytes) : Reading :=
  if r.failed.isSome then r
  else if BUFSIZE ≤ r.buf.length then
    { r with
      worker := r.worker.shutdownConnection
      failed := some (.fail .ERR_CONNECTION_BROKEN connectionHost) }
  else
    match r.worker.received env (r.buf ++ chunk) with
    | (worker, buf, .pass) => ⟨worker, buf, none⟩
    | (worker, buf, result) => ⟨worker, buf, some result⟩

/-- The chunks one after the other. -/
def feed (chunks : List Bytes) : Reading :=
  chunks.foldl (read env connectionHost) r

/-- One byte. -/
def eat (b : UInt8) : Reading :=
  if r.failed.isSome then r
  else if 0 < r.worker.rawRead then
    if r.worker.mimeTypeSent = false then
      let s := r.worker.collect [b]
      { r with worker := if s.dataRead < s.mimeBuffer.length then s else s.sendMime env }
    else { r with worker := r.worker.takeData [b] }
  else if b = 10 then
    match r.worker.manageLine env r.buf with
    | (worker, .pass) => ⟨worker, [], none⟩
    | (worker, result) => ⟨worker, [], some result⟩
  else { r with buf := r.buf ++ [b] }

def eatAll (bytes : Bytes) : Reading := bytes.foldl (eat env) r

@[simp] lemma eatAll_nil : r.eatAll env [] = r := rfl

@[simp] lemma eatAll_cons (b : UInt8) (bytes : Bytes) :
    r.eatAll env (b :: bytes) = (r.eat env b).eatAll env bytes := rfl

lemma eatAll_append (u v : Bytes) :
    r.eatAll env (u ++ v) = (r.eatAll env u).eatAll env v := List.foldl_append

lemma eatAll_failed {r : Reading} (h : r.failed.isSome) (bytes : Bytes) :
    r.eatAll env bytes = r := by
  induction bytes with
  | nil => rfl
  | cons b bytes ih =>
    have heat : r.eat env b = r := by simp only [eat, h, if_true]
    rw [eatAll_cons, heat, ih]

end Reading

/-! ### A round takes what its bytes do one by one -/

namespace State

variable (env : Env)

/-- The buffer for the mime type has its size, and room for the bytes it waits for. -/
structure Ready (s : State) : Prop where
  childPid : s.childPid = true
  size : s.mimeBuffer.length = 1024
  room : 0 < s.rawRead → s.mimeTypeSent = false → s.dataRead < 1024

variable {env}

variable {s : State}

lemma Ready.of_sameReading {t : State} (h : Ready s) (hst : SameReading s t) : Ready t := by
  obtain ⟨hchild, hbuf, hread⟩ := hst
  refine ⟨hchild.trans h.childPid, by rw [hbuf, h.size], fun hraw hsent => ?_⟩
  rcases hread with h0 | ⟨hraw', hdata, hsent'⟩
  · omega
  · have := h.room (hraw' ▸ hraw) (hsent' hsent)
    omega

lemma finished_ready (h : Ready s) : Ready (s.finished env) := by
  unfold finished
  split
  · exact ⟨h.childPid, h.size, h.room⟩
  · exact ⟨h.childPid, h.size, fun hraw => absurd hraw (by simp)⟩

variable (env) in
lemma manageLine_ready (h : Ready s) (line : Bytes) :
    ((s.manageLine env line).2 = .pass ∧ Ready (s.manageLine env line).1) ∨
      (s.manageLine env line).2.success = false := by
  have hs : Ready (s.emit (.line (env.decode line))) := ⟨h.childPid, h.size, h.room⟩
  have hrespond := respond_reading env (s.emit (.line (env.decode line))) (env.decode line)
  unfold manageLine manageConnection
  rcases hr : (s.emit (.line (env.decode line))).respond env (env.decode line) with ⟨t, next⟩
  rw [hr] at hrespond
  cases next with
  | go => exact Or.inl ⟨rfl, hs.of_sameReading hrespond⟩
  | finished => exact Or.inl ⟨rfl, finished_ready (hs.of_sameReading hrespond)⟩
  | fail result => exact Or.inr hrespond.1

lemma collect_append {a b : Bytes} (hraw : (a.length : ℤ) < s.rawRead)
    (hroom : s.dataRead + a.length ≤ s.mimeBuffer.length) :
    (s.collect a).collect b = s.collect (a ++ b) := by
  have hne : s.rawRead - a.length ≠ 0 := by omega
  have hlen : (s.mimeBuffer.take s.dataRead ++ a).length = s.dataRead + a.length := by
    simp only [List.length_append, List.length_take]; omega
  have htake : (s.mimeBuffer.take s.dataRead ++ a ++ s.mimeBuffer.drop (s.dataRead + a.length)).take
      (s.dataRead + a.length) = s.mimeBuffer.take s.dataRead ++ a := by
    rw [← hlen, List.take_left]
  have hdrop : (s.mimeBuffer.take s.dataRead ++ a ++ s.mimeBuffer.drop (s.dataRead + a.length)).drop
      (s.dataRead + a.length + b.length) =
      s.mimeBuffer.drop (s.dataRead + a.length + b.length) := by
    rw [← List.drop_drop, ← hlen, List.drop_left, hlen, List.drop_drop]
  have hraw' : s.rawRead - a.length - b.length = s.rawRead - (a ++ b).length := by
    rw [List.length_append]; omega
  have hdata : s.dataRead + a.length + b.length = s.dataRead + (a ++ b).length := by
    rw [List.length_append]; omega
  simp only [collect, hne, if_false, htake, hdrop, hraw']
  simp only [hdata, List.append_assoc]

lemma takeData_append (s : State) (a b : Bytes) :
    (s.takeData a).takeData b = s.takeData (a ++ b) := by
  have hraw : s.rawRead - a.length - b.length = s.rawRead - (a ++ b).length := by
    rw [List.length_append]; omega
  simp only [takeData, data, hraw, List.map_append, List.append_assoc, List.length_append,
    Nat.add_assoc]

variable (env) in
lemma sendMime_spec (s : State) :
    (s.sendMime env).rawRead = s.rawRead ∧ (s.sendMime env).mimeTypeSent = true ∧
      (s.sendMime env).signals = s.signals ++
        .mimeType (env.mimeTypeForFileNameAndData s.url s.mimeBuffer) ::
          if s.fishCommand ≠ .READ then
            .totalSize (s.dataRead + s.rawRead) :: s.mimeBuffer.map Signal.data else [] := by
  by_cases hread : s.fishCommand = .READ
  · simp [sendMime, emit, hread]
  · simp [sendMime, emit, data, hread]

lemma sendMime_ready (h : s.childPid = true) : Ready (s.sendMime env) := by
  refine ⟨?_, ?_, ?_⟩
  · unfold sendMime
    dsimp only
    split_ifs <;> exact h
  · unfold sendMime
    dsimp only
    split_ifs
    · simp only [List.length_append, List.length_take, List.length_replicate]; omega
    · simp only [List.length_append, List.length_take, List.length_replicate]; omega
  · unfold sendMime
    dsimp only
    split_ifs
    · intro _ hsent
      exact absurd hsent (by simp [data, emit])
    · intro _ hsent
      exact absurd hsent (by simp)

end State

namespace Reading

variable {env : Env}

variable {s : State}

variable (env) in
lemma eatAll_collect (hs : s.Ready) {bytes : Bytes} (hne : bytes ≠ [])
    (hsent : s.mimeTypeSent = false) (hraw : (bytes.length : ℤ) ≤ s.rawRead)
    (hroom : s.dataRead + bytes.length ≤ 1024) :
    (⟨s, [], none⟩ : Reading).eatAll env bytes =
      ⟨if (s.collect bytes).dataRead < (s.collect bytes).mimeBuffer.length then s.collect bytes
        else (s.collect bytes).sendMime env, [], none⟩ := by
  induction bytes generalizing s with
  | nil => exact absurd rfl hne
  | cons b bytes ih =>
    have hpos : 0 < s.rawRead := by
      simp only [List.length_cons] at hraw; omega
    have heat : (⟨s, [], none⟩ : Reading).eat env b =
        ⟨if (s.collect [b]).dataRead < (s.collect [b]).mimeBuffer.length then s.collect [b]
          else (s.collect [b]).sendMime env, [], none⟩ := by
      simp only [eat, Option.isSome_none, Bool.false_eq_true, if_false, hpos, if_true, hsent]
    rw [eatAll_cons, heat]
    by_cases hnil : bytes = []
    · subst hnil
      rfl
    · have hlen : 0 < bytes.length := List.length_pos_iff.mpr hnil
      simp only [List.length_cons] at hraw hroom
      have hsize : (s.collect [b]).mimeBuffer.length = 1024 := by
        have hraw1 : s.rawRead - (1 : ℕ) ≠ 0 := by omega
        simp only [State.collect, List.length_singleton, hraw1, if_false, List.length_append,
          List.length_take, List.length_drop, hs.size]
        omega
      have hdata : (s.collect [b]).dataRead = s.dataRead + 1 := rfl
      have hready : (s.collect [b]).Ready := ⟨hs.childPid, hsize, fun _ _ => by omega⟩
      have hwait : (s.collect [b]).dataRead < (s.collect [b]).mimeBuffer.length := by omega
      rw [if_pos hwait, ih hready hnil hsent ?_ (by omega)]
      · have happ : (s.collect [b]).collect bytes = s.collect (b :: bytes) :=
          State.collect_append (by simp only [List.length_singleton]; omega)
            (by simp only [List.length_singleton, hs.size]; omega)
        rw [happ]
      · simp only [State.collect, List.length_singleton]; omega

variable (env) in
lemma eatAll_takeData {bytes : Bytes} (hsent : s.mimeTypeSent = true)
    (hraw : (bytes.length : ℤ) ≤ s.rawRead) :
    (⟨s, [], none⟩ : Reading).eatAll env bytes =
      if bytes = [] then ⟨s, [], none⟩ else ⟨s.takeData bytes, [], none⟩ := by
  induction bytes generalizing s with
  | nil => simp
  | cons b bytes ih =>
    simp only [List.length_cons] at hraw
    have hpos : 0 < s.rawRead := by omega
    have heat : (⟨s, [], none⟩ : Reading).eat env b = ⟨s.takeData [b], [], none⟩ := by
      simp only [eat, Option.isSome_none, Bool.false_eq_true, if_false, hpos, if_true, hsent,
        Bool.true_eq_false]
    have hrest : (bytes.length : ℤ) ≤ (s.takeData [b]).rawRead := by
      simp only [State.takeData, List.length_singleton]; omega
    rw [eatAll_cons, heat, ih (s := s.takeData [b]) hsent hrest]
    by_cases hnil : bytes = []
    · simp [hnil]
    · rw [if_neg hnil, if_neg (by simp), State.takeData_append, List.singleton_append]

lemma eatAll_line {buf line : Bytes} (hraw : s.rawRead ≤ 0) (hline : 10 ∉ line) :
    (⟨s, buf, none⟩ : Reading).eatAll env line = ⟨s, buf ++ line, none⟩ := by
  induction line generalizing buf with
  | nil => simp
  | cons b line ih =>
    simp only [List.mem_cons, not_or] at hline
    have hb : b ≠ 10 := fun h => hline.1 h.symm
    have heat : (⟨s, buf, none⟩ : Reading).eat env b = ⟨s, buf ++ [b], none⟩ := by
      simp only [eat, Option.isSome_none, Bool.false_eq_true, if_false, Int.not_lt.mpr hraw, hb]
    rw [eatAll_cons, heat, ih hline.2, List.append_assoc, List.singleton_append]

end Reading

/-! ### `received` is the bytes one by one -/

namespace State

variable {env : Env}

lemma splitLine_none {buffer : Bytes} (h : splitLine buffer = none) : 10 ∉ buffer := by
  induction buffer with
  | nil => simp
  | cons b buffer ih =>
    by_cases hb : b = 10
    · simp [splitLine, hb] at h
    · simp only [splitLine, hb, if_false, Option.map_eq_none_iff] at h
      simp only [List.mem_cons, not_or]
      exact ⟨fun h' => hb h'.symm, ih h⟩

lemma splitLine_some {buffer line rest : Bytes} (h : splitLine buffer = some (line, rest)) :
    buffer = line ++ 10 :: rest ∧ 10 ∉ line := by
  induction buffer generalizing line with
  | nil => simp [splitLine] at h
  | cons b buffer ih =>
    by_cases hb : b = 10
    · simp only [splitLine, hb, if_true, Option.some.injEq, Prod.mk.injEq] at h
      obtain ⟨rfl, rfl⟩ := h
      simp [hb]
    · simp only [splitLine, hb, if_false, Option.map_eq_some_iff, Prod.mk.injEq] at h
      obtain ⟨⟨line', rest'⟩, hsplit, rfl, rfl⟩ := h
      obtain ⟨rfl, hnot⟩ := ih hsplit
      refine ⟨rfl, ?_⟩
      simp only [List.mem_cons, not_or]
      exact ⟨fun h' => hb h'.symm, hnot⟩

/-- What a round has done with raw data when it goes on. -/
def Raw.Eats (env : Env) (s : State) (buffer : Bytes) : Raw → Prop
  | .wait t rest =>
    rest = [] ∧ (⟨s, [], none⟩ : Reading).eatAll env buffer = ⟨t, [], none⟩ ∧ t.Ready
  | .again t rest =>
    ∃ taken, buffer = taken ++ rest ∧ taken ≠ [] ∧
      (⟨s, [], none⟩ : Reading).eatAll env taken = ⟨t, [], none⟩ ∧ t.Ready
  | .line t rest =>
    ∃ taken, buffer = taken ++ rest ∧
      (⟨s, [], none⟩ : Reading).eatAll env taken = ⟨t, [], none⟩ ∧ t.Ready ∧ t.rawRead ≤ 0

variable {s : State}

variable (env) in
lemma takeRaw_eats (hs : s.Ready) {buffer : Bytes} (hne : buffer ≠ []) :
    (s.takeRaw env buffer).Eats env s buffer := by
  have hbuf : 0 < buffer.length := List.length_pos_iff.mpr hne
  unfold takeRaw
  dsimp only
  by_cases hraw : 0 < s.rawRead
  · rw [if_pos hraw]
    by_cases hsent : s.mimeTypeSent = false
    · -- the first kilobyte
      rw [if_pos hsent]
      have hroom := hs.room hraw hsent
      set n := min (min s.rawRead.toNat buffer.length) (s.mimeBuffer.length - s.dataRead) with hn
      have hsize := hs.size
      have htaken : (buffer.take n).length = n := by
        rw [List.length_take]; omega
      have htaken_ne : buffer.take n ≠ [] := by
        rw [← List.length_pos_iff, htaken]; omega
      have heat := Reading.eatAll_collect env hs htaken_ne hsent (by omega) (by omega)
      by_cases hwait : (s.collect (buffer.take n)).dataRead <
          (s.collect (buffer.take n)).mimeBuffer.length
      · rw [if_pos hwait] at heat ⊢
        have hdata : (s.collect (buffer.take n)).dataRead = s.dataRead + n := by
          simp only [collect, htaken]
        have hrest : (s.collect (buffer.take n)).rawRead = s.rawRead - n := by
          simp only [collect, htaken]
        have hlen : (s.collect (buffer.take n)).mimeBuffer.length =
            if s.rawRead - n = 0 then s.dataRead + n else 1024 := by
          simp only [collect, htaken]
          split_ifs
          · simp only [List.length_take, List.length_append, List.length_drop]; omega
          · simp only [List.length_take, List.length_append, List.length_drop]; omega
        have hmore : s.rawRead - n ≠ 0 := by
          intro h0
          rw [hdata, hlen, if_pos h0] at hwait
          omega
        rw [hdata, hlen, if_neg hmore] at hwait
        have hall : n = buffer.length := by omega
        have htake : buffer.take n = buffer := by rw [hall, List.take_length]
        refine ⟨by rw [hall, List.drop_length], ?_, hs.childPid, ?_, fun _ _ => ?_⟩
        · rw [htake] at heat ⊢
          exact heat
        · rw [hlen, if_neg hmore]
        · rw [hdata]
          omega
      · rw [if_neg hwait] at heat ⊢
        exact ⟨buffer.take n, (List.take_append_drop n buffer).symm, htaken_ne, heat,
          sendMime_ready hs.childPid⟩
    · -- the rest
      rw [if_neg hsent]
      have hsent' : s.mimeTypeSent = true := by simpa using hsent
      set n := min s.rawRead.toNat buffer.length with hn
      have htaken : (buffer.take n).length = n := by
        rw [List.length_take]; omega
      have htaken_ne : buffer.take n ≠ [] := by
        rw [← List.length_pos_iff, htaken]; omega
      have hle : ((buffer.take n).length : ℤ) ≤ s.rawRead := by omega
      have heat := Reading.eatAll_takeData env hsent' hle
      rw [if_neg htaken_ne] at heat
      have hready : (s.takeData (buffer.take n)).Ready := by
        refine ⟨hs.childPid, hs.size, fun _ hsent'' => ?_⟩
        exact absurd (hsent'.symm.trans hsent'') (by decide)
      have hrest : (s.takeData (buffer.take n)).rawRead = s.rawRead - n := by
        simp only [takeData, htaken]
      by_cases hend : (s.takeData (buffer.take n)).rawRead ≤ 0
      · rw [if_pos hend]
        exact ⟨buffer.take n, (List.take_append_drop n buffer).symm, heat, hready, hend⟩
      · rw [if_neg hend]
        have hall : n = buffer.length := by omega
        have htake : buffer.take n = buffer := by rw [hall, List.take_length]
        rw [htake] at heat hready ⊢
        exact ⟨rfl, heat, hready⟩
  · rw [if_neg hraw]
    exact ⟨[], rfl, rfl, hs, Int.not_lt.mp hraw⟩

/-- What `received` makes of its bytes: it stops at a failure, or keeps what is not a line. -/
def Received (env : Env) (s : State) (buffer : Bytes) (x : State × Bytes × WorkerResult) : Prop :=
  (x.2.2 = .pass ∧ (⟨s, [], none⟩ : Reading).eatAll env buffer = ⟨x.1, x.2.1, none⟩ ∧ x.1.Ready ∧
    (x.2.1 = [] ∨ (x.1.rawRead ≤ 0 ∧ 10 ∉ x.2.1))) ∨
  (x.2.2.success = false ∧
    (⟨s, [], none⟩ : Reading).eatAll env buffer = ⟨x.1, [], some x.2.2⟩)

lemma Received.after {t : State} {taken rest : Bytes} {x : State × Bytes × WorkerResult}
    (heat : (⟨s, [], none⟩ : Reading).eatAll env taken = ⟨t, [], none⟩)
    (h : Received env t rest x) : Received env s (taken ++ rest) x := by
  unfold Received
  rw [Reading.eatAll_append, heat]
  exact h

lemma receivedLoop_received {fuel : ℕ} (hs : s.Ready) {buffer : Bytes}
    (hfuel : buffer.length < fuel) : Received env s buffer (receivedLoop env fuel s buffer) := by
  induction fuel generalizing s buffer with
  | zero => omega
  | succ fuel ih =>
    by_cases hnil : buffer = []
    · subst hnil
      exact Or.inl ⟨by simp [receivedLoop], by simp [receivedLoop], by simpa [receivedLoop] using hs,
        Or.inl (by simp [receivedLoop])⟩
    · have hraw := takeRaw_eats env hs hnil
      simp only [receivedLoop, if_neg hnil]
      cases htake : s.takeRaw env buffer with
      | wait t rest =>
        rw [htake] at hraw
        obtain ⟨rfl, heat, hready⟩ := hraw
        exact Or.inl ⟨rfl, heat, hready, Or.inl rfl⟩
      | again t rest =>
        rw [htake] at hraw
        obtain ⟨taken, rfl, hne, heat, hready⟩ := hraw
        have hlen : 0 < taken.length := List.length_pos_iff.mpr hne
        rw [List.length_append] at hfuel
        refine Received.after heat ?_
        by_cases hrest : rest = []
        · subst hrest
          simp only [ne_eq, not_true_eq_false, and_false, if_false]
          exact Or.inl ⟨rfl, rfl, hready, Or.inl rfl⟩
        · simp only [hready.childPid, ne_eq, hrest, not_false_eq_true, and_self, if_true]
          exact ih hready (by omega)
      | line t rest =>
        rw [htake] at hraw
        obtain ⟨taken, rfl, heat, hready, hraw0⟩ := hraw
        rw [List.length_append] at hfuel
        refine Received.after heat ?_
        cases hsplit : splitLine rest with
        | none =>
          have hline := splitLine_none hsplit
          simp only [hsplit]
          exact Or.inl ⟨rfl, Reading.eatAll_line hraw0 hline, hready,
            Or.inr ⟨hraw0, hline⟩⟩
        | some found =>
          obtain ⟨line, rest'⟩ := found
          obtain ⟨rfl, hline⟩ := splitLine_some hsplit
          have hbuf : (⟨t, [], none⟩ : Reading).eatAll env line = ⟨t, line, none⟩ :=
            Reading.eatAll_line hraw0 hline
          simp only [List.length_append, List.length_cons] at hfuel
          rcases hmanage : t.manageLine env line with ⟨u, result⟩
          simp only [hsplit, hmanage]
          have hcases := manageLine_ready env hready line
          rw [hmanage] at hcases
          rcases hcases with ⟨hpass, hready'⟩ | hfail
          · have hpass' : result = .pass := hpass
            subst hpass'
            have heat' : (⟨t, [], none⟩ : Reading).eatAll env (line ++ [10]) = ⟨u, [], none⟩ := by
              rw [Reading.eatAll_append, hbuf]
              simp only [Reading.eatAll_cons, Reading.eatAll_nil, Reading.eat, Option.isSome_none,
                Bool.false_eq_true, if_false, Int.not_lt.mpr hraw0, if_true, hmanage]
            have happ : line ++ 10 :: rest' = (line ++ [10]) ++ rest' := by simp
            rw [happ]
            refine Received.after heat' ?_
            have hchild : u.childPid = true := hready'.childPid
            simp only [WorkerResult.success_pass, Bool.true_eq_false, if_false, hchild, true_and]
            by_cases hagain : rest' ≠ [] ∧ (0 < u.rawRead ∨ 10 ∈ rest')
            · rw [if_pos hagain]
              exact ih hready' (by omega)
            · rw [if_neg hagain]
              by_cases hrest : rest' = []
              · subst hrest
                exact Or.inl ⟨rfl, rfl, hready', Or.inl rfl⟩
              · have hno : ¬ (0 < u.rawRead ∨ 10 ∈ rest') := fun h => hagain ⟨hrest, h⟩
                have hraw' : u.rawRead ≤ 0 := Int.not_lt.mp fun h => hno (Or.inl h)
                have hline' : 10 ∉ rest' := fun h => hno (Or.inr h)
                exact Or.inl ⟨rfl, Reading.eatAll_line hraw' hline', hready',
                  Or.inr ⟨hraw', hline'⟩⟩
          · have hfail' : result.success = false := hfail
            simp only [hfail', if_true]
            refine Or.inr ⟨hfail', ?_⟩
            rw [Reading.eatAll_append, hbuf]
            have heat' : (⟨t, line, none⟩ : Reading).eat env 10 = ⟨u, [], some result⟩ := by
              cases result with
              | pass => simp at hfail'
              | fail e text =>
                simp only [Reading.eat, Option.isSome_none, Bool.false_eq_true, if_false,
                  Int.not_lt.mpr hraw0, if_true, hmanage]
            rw [Reading.eatAll_cons, heat']
            exact Reading.eatAll_failed env rfl rest'

variable (env) in
lemma received_received (hs : s.Ready) (buffer : Bytes) :
    Received env s buffer (s.received env buffer) :=
  receivedLoop_received hs (by omega)

end State

namespace Reading

variable {env : Env}

/-- Equal, but for bytes that remain behind a failure. -/
structure Same (r r' : Reading) : Prop where
  worker : r.worker = r'.worker
  failed : r.failed = r'.failed
  buf : r.failed = none → r.buf = r'.buf

variable {r : Reading}

variable {r' : Reading} {raw : Bytes} {s : State}

lemma Same.symm (h : Same r r') : Same r' r :=
  ⟨h.worker.symm, h.failed.symm, fun hf => (h.buf (h.failed.trans hf)).symm⟩

lemma Same.trans {r'' : Reading} (h : Same r r') (h' : Same r' r'') : Same r r'' :=
  ⟨h.worker.trans h'.worker, h.failed.trans h'.failed,
    fun hf => (h.buf hf).trans (h'.buf (h.failed ▸ hf))⟩

lemma Same.eq (h : Same r r') (hf : r.failed = none) : r = r' := by
  obtain ⟨worker, buf, failed⟩ := r
  obtain ⟨worker', buf', failed'⟩ := r'
  obtain ⟨hworker, hfailed, hbuf⟩ := h
  simp only at hf hworker hfailed hbuf
  rw [hworker, hfailed, hbuf hf]

/-- As `run` finds it before a `read`: what is kept is the beginning of a line. -/
structure Clean (r : Reading) : Prop where
  ready : r.worker.Ready
  line : r.buf = [] ∨ (r.worker.rawRead ≤ 0 ∧ 10 ∉ r.buf)

lemma Clean.eatAll_buf (h : Clean r) (hf : r.failed = none) :
    (⟨r.worker, [], none⟩ : Reading).eatAll env r.buf = r := by
  obtain ⟨worker, buf, failed⟩ := r
  simp only at hf
  subst hf
  rcases h.line with hnil | ⟨hraw, hline⟩
  · simp only at hnil
    subst hnil
    rfl
  · exact eatAll_line hraw hline

variable (env) in
lemma read_same (connectionHost : String) (h : Clean r) (hf : r.failed = none)
    (hroom : r.buf.length < BUFSIZE) (chunk : Bytes) :
    Same (r.read env connectionHost chunk) (r.eatAll env chunk) ∧
      ((r.read env connectionHost chunk).failed = none →
        Clean (r.read env connectionHost chunk)) := by
  have hreceived := State.received_received env h.ready (r.buf ++ chunk)
  have heat : (⟨r.worker, [], none⟩ : Reading).eatAll env (r.buf ++ chunk) = r.eatAll env chunk := by
    rw [eatAll_append, h.eatAll_buf hf]
  unfold State.Received at hreceived
  rw [heat] at hreceived
  have hread : r.read env connectionHost chunk =
      match r.worker.received env (r.buf ++ chunk) with
      | (worker, buf, .pass) => ⟨worker, buf, none⟩
      | (worker, buf, result) => ⟨worker, buf, some result⟩ := by
    simp only [read, hf, Option.isSome_none, Bool.false_eq_true, if_false, Nat.not_le.mpr hroom]
  rw [hread]
  rcases hx : r.worker.received env (r.buf ++ chunk) with ⟨t, rest, result⟩
  rw [hx] at hreceived
  rcases hreceived with ⟨hpass, heq, hready, hline⟩ | ⟨hfail, heq⟩
  · have hpass' : result = .pass := hpass
    subst hpass'
    rw [heq]
    exact ⟨⟨rfl, rfl, fun _ => rfl⟩, fun _ => ⟨hready, hline⟩⟩
  · rw [heq]
    cases result with
    | pass => exact absurd hfail (by simp)
    | fail e text => exact ⟨⟨rfl, rfl, fun h => by simp at h⟩, fun h => by simp at h⟩

/-- The lines of the stream are shorter than the buffer, read from here. -/
def ShortLines (env : Env) (r : Reading) (bytes : Bytes) : Prop :=
  ∀ u, u <+: bytes → (r.eatAll env u).failed = none → (r.eatAll env u).buf.length < BUFSIZE

lemma feed_failed (connectionHost : String) (h : r.failed.isSome) (chunks : List Bytes) :
    r.feed env connectionHost chunks = r := by
  induction chunks with
  | nil => rfl
  | cons chunk chunks ih =>
    have hread : r.read env connectionHost chunk = r := by simp only [read, h, if_true]
    have hfeed : r.feed env connectionHost (chunk :: chunks) =
        (r.read env connectionHost chunk).feed env connectionHost chunks := rfl
    rw [hfeed, hread, ih]

/-- **The chunks do not show**: what is read is what the bytes one by one make of it. -/
theorem feed_same (connectionHost : String) {r : Reading} (h : Clean r) (hf : r.failed = none)
    {chunks : List Bytes} (hshort : ShortLines env r chunks.flatten) :
    Same (r.feed env connectionHost chunks) (r.eatAll env chunks.flatten) := by
  induction chunks generalizing r with
  | nil => exact ⟨rfl, rfl, fun _ => rfl⟩
  | cons chunk chunks ih =>
    have hroom : r.buf.length < BUFSIZE := hshort [] List.nil_prefix hf
    obtain ⟨hsame, hclean⟩ := read_same env connectionHost h hf hroom chunk
    have hfeed : r.feed env connectionHost (chunk :: chunks) =
        (r.read env connectionHost chunk).feed env connectionHost chunks := rfl
    rw [hfeed, List.flatten_cons, eatAll_append]
    cases hread : (r.read env connectionHost chunk).failed with
    | some result =>
      have hsome : (r.read env connectionHost chunk).failed.isSome := by rw [hread]; rfl
      have hsome' : (r.eatAll env chunk).failed.isSome := by rw [← hsame.failed, hread]; rfl
      rw [feed_failed connectionHost hsome, eatAll_failed env hsome']
      exact hsame
    | none =>
      have heq : r.read env connectionHost chunk = r.eatAll env chunk := hsame.eq hread
      rw [← heq]
      refine ih (hclean hread) hread ?_
      intro u hu hnone
      rw [heq, ← eatAll_append] at hnone ⊢
      exact hshort (chunk ++ u) ((List.prefix_append_right_inj chunk).mpr hu) hnone

/-! ### A raw section -/

/-- What the application gets of a raw section: nothing but the mime type for `READ`. -/
def rawSignals (env : Env) (s : State) (raw : Bytes) : List Signal :=
  if raw = [] then [.mimeType "application/x-zerosize".toList]
  else
    .mimeType (env.mimeTypeForFileNameAndData s.url (raw.take 1024)) ::
      if s.fishCommand ≠ .READ then .totalSize raw.length :: raw.map Signal.data
      else (raw.drop 1024).map Signal.data

lemma collect_fresh (hsize : s.mimeBuffer.length = 1024) (hdata : s.dataRead = 0)
    (hle : raw.length ≤ 1024) (hend : (raw.length : ℤ) = s.rawRead ∨ raw.length = 1024) :
    s.collect raw = { s with
      dataRead := raw.length, rawRead := s.rawRead - raw.length, mimeBuffer := raw } := by
  unfold State.collect
  have hbuf : (if s.rawRead - (raw.length : ℤ) = 0 then
      (s.mimeBuffer.take s.dataRead ++ raw ++ s.mimeBuffer.drop (s.dataRead + raw.length)).take
        (s.dataRead + raw.length)
      else s.mimeBuffer.take s.dataRead ++ raw ++
        s.mimeBuffer.drop (s.dataRead + raw.length)) = raw := by
    rw [hdata, List.take_zero, List.nil_append, Nat.zero_add]
    split_ifs with h0
    · rw [List.take_left]
    · have hfull : raw.length = 1024 := by omega
      rw [hfull, ← hsize, List.drop_length, List.append_nil]
  dsimp only
  rw [hbuf]
  simp only [hdata, Nat.zero_add]

variable (env) in
/-- **A raw section is its bytes**: those and no others are taken, and the next line begins right
behind them. -/
lemma eatAll_raw (hs : s.Ready) (hdata : s.dataRead = 0) (hsent : s.mimeTypeSent = false)
    (hraw : s.rawRead = raw.length) (hne : raw ≠ []) :
    ∃ t, (⟨s, [], none⟩ : Reading).eatAll env raw = ⟨t, [], none⟩ ∧ t.Ready ∧ t.rawRead = 0 ∧
      t.signals = s.signals ++ rawSignals env s raw := by
  have hpos : 0 < raw.length := List.length_pos_iff.mpr hne
  have htake : (raw.take 1024).length = min 1024 raw.length := List.length_take
  have hne' : raw.take 1024 ≠ [] := by
    rw [← List.length_pos_iff, htake]; omega
  have heat := eatAll_collect env hs hne' hsent (by omega) (by omega)
  have hfresh : s.collect (raw.take 1024) = _ :=
    collect_fresh hs.size hdata (by omega) (by omega)
  have hnotwait : ¬ (s.collect (raw.take 1024)).dataRead <
      (s.collect (raw.take 1024)).mimeBuffer.length := by
    rw [hfresh]; simp
  rw [if_neg hnotwait] at heat
  set u := (s.collect (raw.take 1024)).sendMime env with hu
  have hready : u.Ready := State.sendMime_ready (by rw [hfresh]; exact hs.childPid)
  have hsplit : raw = raw.take 1024 ++ raw.drop 1024 := (List.take_append_drop 1024 raw).symm
  have hrest : u.rawRead = (raw.drop 1024).length := by
    have hcast : ((raw.drop 1024).length : ℤ) = s.rawRead - (raw.take 1024).length := by
      rw [List.length_drop]; omega
    rw [hcast, hu, (State.sendMime_spec env _).1, hfresh]
  have hsent' : u.mimeTypeSent = true := (State.sendMime_spec env _).2.1
  have hsignals : u.signals = s.signals ++
      .mimeType (env.mimeTypeForFileNameAndData s.url (raw.take 1024)) ::
        if s.fishCommand ≠ .READ then .totalSize raw.length :: (raw.take 1024).map Signal.data
        else [] := by
    have htotal : ((raw.take 1024).length : ℤ) + (s.rawRead - (raw.take 1024).length) =
        raw.length := by omega
    rw [hu, (State.sendMime_spec env _).2.2, hfresh]
    simp only [htotal]
  have hlast : (⟨u, [], none⟩ : Reading).eatAll env (raw.drop 1024) = _ :=
    eatAll_takeData env hsent' (by omega)
  rw [hsplit, eatAll_append, heat, hlast, ← hsplit]
  unfold rawSignals
  rw [if_neg hne]
  by_cases hnil : raw.drop 1024 = []
  · rw [if_pos hnil]
    refine ⟨u, rfl, hready, by rw [hrest, hnil]; rfl, ?_⟩
    have hall : raw.take 1024 = raw := by
      conv_rhs => rw [hsplit, hnil, List.append_nil]
    rw [hsignals, hnil, hall]
    rfl
  · rw [if_neg hnil]
    refine ⟨u.takeData (raw.drop 1024), rfl, ⟨hready.childPid, hready.size, ?_⟩, ?_, ?_⟩
    · intro _ h
      exact absurd (hsent'.symm.trans h) (by decide)
    · simp only [State.takeData, hrest]; omega
    · simp only [State.takeData, State.data, hsignals, List.append_assoc, List.cons_append]
      congr 2
      split_ifs
      · rw [List.cons_append, ← List.map_append, List.take_append_drop]
      · rfl

end Reading

end KioExtras.Fish
