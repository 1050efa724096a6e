import KioExtras.Nfs.Transfer
import Mathlib.Algebra.GroupWithZero.Nat
import Mathlib.Tactic.Common

/-!
`put`: the data of the application is written in pieces of the preferred size, at an offset that
is counted in an `int`.
-/

namespace KioExtras.Nfs

open KioExtras.Kio KioExtras.Lib.FileStore KioExtras.Lib.Stream
open KioExtras.Lib.FileStore.Store (splice)

structure Chunk where
  data : Bytes
  ne_nil : data ≠ []
  lt : data.length < 2 ^ 31

/-- A call of `put`. The answers of the application are chunks, and a last result that is 0 at the
end of the data and negative after an error. All of the data fits the size of an NFS file. -/
structure PutCall where
  destPath : String
  parentExported : Bool
  dest : MaybeNFSFileHandle ℕ
  Overwrite : Bool
  sizes : Sizes
  fsinfo : Option FsInfo
  create : MaybeNFSFileHandle ℕ
  chunks : List Chunk
  result : ℤ
  result_le : result ≤ 0
  fits : (chunks.flatMap Chunk.data).length < 2 ^ 64

def PutCall.data (c : PutCall) : Bytes := c.chunks.flatMap Chunk.data

structure Sending where
  file : Bytes
  bytesWritten : BitVec 32
  calls : ℕ

def Sending.start : Sending := ⟨[], 0, 0⟩

/-- `writeArgs.offset` is the counter, converted to 64 bits. -/
def Sending.offset (s : Sending) : ℕ := (s.bytesWritten.signExtend 64).toNat

section

variable (srv : Server) (m_writeBufferSize : ℕ)

/-- One turn of the inner loop, with what is left of the chunk. -/
def writeNow (s : Sending) (data : Bytes) : Except (WorkerResult × Sending) (Sending × Bytes) :=
  let asked := if data.length > m_writeBufferSize then m_writeBufferSize else data.length
  match srv.write s.calls with
  | .fails error text => .error (.fail error text, s)
  | .serves limit _ =>
    let count := min asked limit
    .ok (⟨splice s.file s.offset (data.take count), s.bytesWritten + BitVec.ofNat 32 count,
      s.calls + 1⟩, data.drop count)

/-- The inner loop, for at most `fuel` turns. -/
def writeChunk : ℕ → Sending → Bytes → Option (Except (WorkerResult × Sending) Sending)
  | 0, _, _ => none
  | fuel + 1, s, data =>
    match writeNow srv m_writeBufferSize s data with
    | .error e => some (.error e)
    | .ok (t, rest) => if rest = [] then some (.ok t) else writeChunk fuel t rest

/-- The outer loop. It ends with the first result that is not positive. -/
def writeChunks (fuel : ℕ) :
    Sending → List Chunk → Option (Except (WorkerResult × Sending) Sending)
  | s, [] => some (.ok s)
  | s, c :: cs =>
    match writeChunk srv m_writeBufferSize fuel s c.data with
    | none => none
    | some (.error e) => some (.error e)
    | some (.ok t) => writeChunks fuel t cs

end

namespace PutCall

/-- The checks before the file is created. -/
def refusal (c : PutCall) : Option WorkerResult :=
  if c.parentExported then some (.fail .ERR_WRITE_ACCESS_DENIED c.destPath)
  else match c.dest with
    | .fails _ _ => none
    | .handle fh =>
      if fh.isBadLink then some (.fail .ERR_DOES_NOT_EXIST c.destPath)
      else if c.Overwrite then none
      else some (.fail .ERR_FILE_ALREADY_EXIST c.destPath)

/-- The preferred sizes are asked for only with the handle of a file that is there. -/
def sizesInUse (c : PutCall) : Sizes :=
  if handleIsValid c.dest ∧ c.sizes.m_writeBufferSize = 0 then initPreferredSizes c.fsinfo
  else c.sizes

end PutCall

/-- The result, with what is in the file if one was created; `none` when the loop has not ended
after `fuel` turns for a chunk. A file is created empty, also in place of another one. -/
def put (srv : Server) (fuel : ℕ) (c : PutCall) : Option (WorkerResult × Option Bytes) :=
  match c.refusal with
  | some res => some (res, none)
  | none =>
    match c.create with
    | .fails error text => some (.fail error text, none)
    | .handle _ =>
      match writeChunks srv c.sizesInUse.m_writeBufferSize fuel .start c.chunks with
      | none => none
      | some (.error (res, s)) => some (res, some s.file)
      | some (.ok s) => some (.pass, some s.file)

/-- The call returns, and where it returns success the data has ended and is what the file
holds. -/
structure PutRight (c : PutCall) : Prop where
  returns : ∀ srv, ∃ fuel, (put srv fuel c).isSome
  success : ∀ srv fuel file, put srv fuel c = some (.pass, file) →
    c.result = 0 ∧ file = some c.data

structure PutCall.Accepted (c : PutCall) : Prop where
  notRefused : c.refusal = none
  created : handleIsValid c.create = true

structure PutCall.Sound (c : PutCall) : Prop where
  size : c.data ≠ [] → c.sizes.m_writeBufferSize ≠ 0 ∨
    handleIsValid c.dest = true ∧ (initPreferredSizes c.fsinfo).m_writeBufferSize ≠ 0
  ended : c.result = 0
  total : c.data.length ≤ 2 ^ 31

/-! ### The offset -/

variable {k : ℕ}

lemma offset_of_lt (h : k < 2 ^ 31) : ((BitVec.ofNat 32 k).signExtend 64).toNat = k := by
  have hk : k % 2 ^ 32 = k := Nat.mod_eq_of_lt (by omega)
  have hmsb : (BitVec.ofNat 32 k).msb = false := by
    rw [BitVec.msb_eq_decide, BitVec.toNat_ofNat, hk]
    simpa using h
  rw [BitVec.toNat_signExtend, hmsb, BitVec.toNat_setWidth, BitVec.toNat_ofNat, hk]
  simp only [Bool.false_eq_true, if_false, Nat.add_zero]
  exact Nat.mod_eq_of_lt (by omega)

/-- From 2 GiB on the counter is negative, and the offset is close to `2 ^ 64`. -/
lemma offset_of_le (h : 2 ^ 31 ≤ k) (hk : k < 2 ^ 32) :
    ((BitVec.ofNat 32 k).signExtend 64).toNat = 2 ^ 64 - 2 ^ 32 + k := by
  have hmod : k % 2 ^ 32 = k := Nat.mod_eq_of_lt hk
  have hmsb : (BitVec.ofNat 32 k).msb = true := by
    rw [BitVec.msb_eq_decide, BitVec.toNat_ofNat, hmod]
    simpa using h
  rw [BitVec.toNat_signExtend, hmsb, BitVec.toNat_setWidth, BitVec.toNat_ofNat, hmod]
  rw [Nat.mod_eq_of_lt (show k < 2 ^ 64 by omega), if_pos rfl]
  omega

/-! ### The inner loop -/

section

variable {srv : Server} {size : ℕ}

lemma writeNow_cases (srv : Server) (hsize : size ≠ 0) {data : Bytes} (hdata : data ≠ [])
    (s : Sending) :
    (∃ error text, writeNow srv size s data = .error (.fail error text, s)) ∨
      ∃ count, 0 < count ∧ count ≤ data.length ∧ writeNow srv size s data =
        .ok (⟨splice s.file s.offset (data.take count), s.bytesWritten + BitVec.ofNat 32 count,
          s.calls + 1⟩, data.drop count) := by
  have hpos := List.length_pos_iff.mpr hdata
  unfold writeNow
  cases srv.write s.calls with
  | fails error text => exact Or.inl ⟨error, text, rfl⟩
  | serves limit hlimit =>
    refine Or.inr ⟨_, ?_, ?_, rfl⟩
    · split_ifs <;> omega
    · split_ifs <;> omega

variable {fuel : ℕ} {s t : Sending} {cs : List Chunk}

lemma writeChunk_isSome (srv : Server) (hsize : size ≠ 0) {data : Bytes} (hdata : data ≠ [])
    (hfuel : data.length ≤ fuel) (s : Sending) : (writeChunk srv size fuel s data).isSome := by
  induction fuel generalizing s data with
  | zero => exact absurd (List.length_eq_zero_iff.mp (Nat.le_zero.mp hfuel)) hdata
  | succ fuel ih =>
    unfold writeChunk
    rcases writeNow_cases srv hsize hdata s with ⟨e, t, h⟩ | ⟨n, hn, hle, h⟩
    · simp [h]
    · simp only [h]
      split_ifs with hrest
      · rfl
      · apply ih hrest
        rw [List.length_drop]
        omega

variable {res : WorkerResult} {u : Sending} {e : WorkerResult × Sending}

lemma writeChunk_error {data : Bytes}
    (h : writeChunk srv size fuel s data = some (.error (res, u))) : res ≠ .pass := by
  induction fuel generalizing s data with
  | zero => simp [writeChunk] at h
  | succ fuel ih =>
    unfold writeChunk writeNow at h
    cases hw : srv.write s.calls with
    | fails error text =>
      simp only [hw, Option.some.injEq, Except.error.injEq, Prod.mk.injEq] at h
      simp [← h.1]
    | serves limit _ =>
      simp only [hw] at h
      split_ifs at h
      all_goals first | exact ih h | simp at h

def Sending.AtEnd (s : Sending) : Prop := s.bytesWritten = BitVec.ofNat 32 s.file.length

lemma Sending.AtEnd.write (h : s.AtEnd) (hlt : s.file.length < 2 ^ 31) (bytes : Bytes) {n : ℕ}
    (hn : bytes.length = n) (calls : ℕ) :
    splice s.file s.offset bytes = s.file ++ bytes ∧
      Sending.AtEnd ⟨s.file ++ bytes, s.bytesWritten + BitVec.ofNat 32 n, calls⟩ := by
  constructor
  · rw [Sending.offset, h, offset_of_lt hlt, Store.splice_end]
  · rw [Sending.AtEnd, h, List.length_append, hn, BitVec.ofNat_add]

lemma writeChunk_file (hsize : size ≠ 0) {data : Bytes} (hdata : data ≠ []) (hs : s.AtEnd)
    (htotal : s.file.length + data.length ≤ 2 ^ 31)
    (h : writeChunk srv size fuel s data = some (.ok t)) : t.file = s.file ++ data ∧ t.AtEnd := by
  induction fuel generalizing s data with
  | zero => simp [writeChunk] at h
  | succ fuel ih =>
    have hpos := List.length_pos_iff.mpr hdata
    unfold writeChunk at h
    rcases writeNow_cases srv hsize hdata s with ⟨e, text, hw⟩ | ⟨n, hn, hle, hw⟩
    · simp [hw] at h
    · obtain ⟨hfile, hend⟩ := hs.write (by omega) (data.take n)
        (List.length_take_of_le hle) (s.calls + 1)
      simp only [hw, hfile] at h
      split_ifs at h with hrest
      · simp only [Option.some.injEq, Except.ok.injEq] at h
        obtain rfl : n = data.length := by
          have hlen := congrArg List.length hrest
          simp only [List.length_drop, List.length_nil] at hlen
          omega
        rw [List.take_length] at h hend
        exact h ▸ ⟨rfl, hend⟩
      · obtain ⟨hall, hlast⟩ := ih hrest hend (by
          simp only [List.length_append, List.length_take, List.length_drop]
          omega) h
        refine ⟨?_, hlast⟩
        rw [hall, List.append_assoc, List.take_append_drop]

lemma writeChunk_zero {data : Bytes} (hdata : data ≠ []) (fuel : ℕ) (s : Sending) :
    writeChunk byteServer 0 fuel s data = none := by
  induction fuel generalizing s with
  | zero => rfl
  | succ fuel ih =>
    have hpos : 0 < data.length := List.length_pos_iff.mpr hdata
    unfold writeChunk writeNow
    simp [byteServer, hpos, hdata]
    exact ih _

lemma writeChunk_bytes (hsize : size ≠ 0) {k : ℕ} {data : Bytes} (hdata : data ≠ [])
    (hs : s.bytesWritten = BitVec.ofNat 32 k)
    (h : writeChunk byteServer size fuel s data = some (.ok t)) :
    t.bytesWritten = BitVec.ofNat 32 (k + data.length) ∧ s.file.length ≤ t.file.length ∧
      ∀ j, k ≤ j → j < k + data.length →
        ((BitVec.ofNat 32 j).signExtend 64).toNat < t.file.length := by
  induction fuel generalizing s data k with
  | zero => simp [writeChunk] at h
  | succ fuel ih =>
    obtain ⟨b, rest, rfl⟩ := List.exists_cons_of_ne_nil hdata
    obtain ⟨u, hone, hcount, hlen⟩ : ∃ u : Sending,
        writeNow byteServer size s (b :: rest) = .ok (u, rest) ∧
        u.bytesWritten = BitVec.ofNat 32 (k + 1) ∧ u.file.length =
          max s.file.length (((BitVec.ofNat 32 k).signExtend 64).toNat + 1) := by
      have hmin : min (if (b :: rest).length > size then size else (b :: rest).length) 1 = 1 := by
        simp only [List.length_cons]
        split_ifs <;> omega
      refine ⟨⟨splice s.file s.offset [b], s.bytesWritten + BitVec.ofNat 32 1, s.calls + 1⟩,
        ?_, ?_, ?_⟩
      · simp only [writeNow, byteServer, hmin, List.take_succ_cons, List.take_zero,
          List.drop_succ_cons, List.drop_zero]
      · rw [hs, BitVec.ofNat_add]
      · rw [splice_length, List.length_singleton, Sending.offset, hs]
    unfold writeChunk at h
    simp only [hone] at h
    split_ifs at h with hrest
    · simp only [Option.some.injEq, Except.ok.injEq] at h
      subst h hrest
      refine ⟨hcount, by omega, fun j hkj hj => ?_⟩
      obtain rfl : j = k := by simp only [List.length_singleton] at hj; omega
      omega
    · obtain ⟨hcount', hmono, hall⟩ := ih hrest hcount h
      simp only [List.length_cons]
      refine ⟨by rw [hcount']; congr 1; omega, by omega, fun j hkj hj => ?_⟩
      by_cases hjk : j = k
      · subst hjk
        omega
      · exact hall j (by omega) (by omega)

/-! ### The outer loop -/

lemma writeChunks_isSome (srv : Server) (hsize : size ≠ 0) (hfuel : ∀ c ∈ cs, c.data.length ≤ fuel)
    (s : Sending) : (writeChunks srv size fuel s cs).isSome := by
  induction cs generalizing s with
  | nil => rfl
  | cons c cs ih =>
    unfold writeChunks
    have hc := writeChunk_isSome srv hsize c.ne_nil (hfuel c (by simp)) s
    obtain ⟨out, hout⟩ := Option.isSome_iff_exists.mp hc
    cases out with
    | error e => simp [hout]
    | ok t => simpa [hout] using ih (fun d hd => hfuel d (List.mem_cons_of_mem _ hd)) t

lemma writeChunks_cons_ok {c : Chunk} (h : writeChunks srv size fuel s (c :: cs) = some (.ok t)) :
    ∃ u, writeChunk srv size fuel s c.data = some (.ok u) ∧
      writeChunks srv size fuel u cs = some (.ok t) := by
  rw [writeChunks] at h
  cases hc : writeChunk srv size fuel s c.data with
  | none => simp [hc] at h
  | some out =>
    cases out with
    | error e => simp [hc] at h
    | ok u => exact ⟨u, rfl, by simpa [hc] using h⟩

lemma writeChunks_error (h : writeChunks srv size fuel s cs = some (.error (res, u))) :
    res ≠ .pass := by
  induction cs generalizing s with
  | nil => simp [writeChunks] at h
  | cons c cs ih =>
    rw [writeChunks] at h
    cases hc : writeChunk srv size fuel s c.data with
    | none => simp [hc] at h
    | some out =>
      cases out with
      | error e =>
        simp only [hc, Option.some.injEq, Except.error.injEq] at h
        exact writeChunk_error (h ▸ hc)
      | ok t => exact ih (by simpa [hc] using h)

lemma writeChunks_file (hsize : size ≠ 0) (hs : s.AtEnd)
    (htotal : s.file.length + (cs.flatMap Chunk.data).length ≤ 2 ^ 31)
    (h : writeChunks srv size fuel s cs = some (.ok t)) :
    t.file = s.file ++ cs.flatMap Chunk.data := by
  induction cs generalizing s with
  | nil =>
    simp only [writeChunks, Option.some.injEq, Except.ok.injEq] at h
    simp [h]
  | cons c cs ih =>
    obtain ⟨u, hu, hrest⟩ := writeChunks_cons_ok h
    rw [List.flatMap_cons, List.length_append] at htotal
    obtain ⟨hfile, hend⟩ := writeChunk_file hsize c.ne_nil hs (by omega) hu
    rw [ih hend (by rw [hfile, List.length_append]; omega) hrest, hfile, List.flatMap_cons,
      List.append_assoc]

lemma writeChunks_bytes (hsize : size ≠ 0) {k : ℕ} (hs : s.bytesWritten = BitVec.ofNat 32 k)
    (h : writeChunks byteServer size fuel s cs = some (.ok t)) :
    s.file.length ≤ t.file.length ∧ ∀ j, k ≤ j → j < k + (cs.flatMap Chunk.data).length →
      ((BitVec.ofNat 32 j).signExtend 64).toNat < t.file.length := by
  induction cs generalizing s k with
  | nil =>
    simp only [writeChunks, Option.some.injEq, Except.ok.injEq] at h
    subst h
    refine ⟨Nat.le_refl _, fun j hkj hj => ?_⟩
    simp only [List.flatMap_nil, List.length_nil] at hj
    omega
  | cons c cs ih =>
    obtain ⟨u, hu, hrest⟩ := writeChunks_cons_ok h
    obtain ⟨hcount, hmono, hall⟩ := writeChunk_bytes hsize c.ne_nil hs hu
    obtain ⟨hmono', hall'⟩ := ih hcount hrest
    refine ⟨by omega, fun j hkj hj => ?_⟩
    rw [List.flatMap_cons, List.length_append] at hj
    by_cases hjk : j < k + c.data.length
    · have := hall j hkj hjk
      omega
    · exact hall' j (by omega) (by omega)

lemma writeChunk_byteServer {data : Bytes} :
    writeChunk byteServer size fuel s data ≠ some (.error e) := by
  induction fuel generalizing s data with
  | zero => simp [writeChunk]
  | succ fuel ih =>
    unfold writeChunk writeNow
    simp only [byteServer]
    split_ifs
    all_goals first | exact ih | simp

lemma writeChunks_byteServer : writeChunks byteServer size fuel s cs ≠ some (.error e) := by
  induction cs generalizing s with
  | nil => simp [writeChunks]
  | cons c cs ih =>
    rw [writeChunks]
    cases hc : writeChunk byteServer size fuel s c.data with
    | none => simp
    | some out =>
      cases out with
      | error e => exact absurd hc writeChunk_byteServer
      | ok t => exact ih

lemma writeChunks_zero (h : writeChunks byteServer 0 fuel s cs = some (.ok t)) : cs = [] := by
  cases cs with
  | nil => rfl
  | cons c cs =>
    obtain ⟨u, hu, -⟩ := writeChunks_cons_ok h
    simp [writeChunk_zero c.ne_nil] at hu

end

/-! ### The whole operation -/

variable {c : PutCall}

lemma put_accepted (h : c.Accepted) (srv : Server) (fuel : ℕ) :
    put srv fuel c =
      match writeChunks srv c.sizesInUse.m_writeBufferSize fuel .start c.chunks with
      | none => none
      | some (.error (res, s)) => some (res, some s.file)
      | some (.ok s) => some (.pass, some s.file) := by
  obtain ⟨hrefusal, hcreate⟩ := h
  unfold put
  cases hc : c.create with
  | fails error text => simp [hc, handleIsValid] at hcreate
  | handle fh => simp only [hrefusal]

lemma put_refused (h : ¬ c.Accepted) :
    ∃ error text, ∀ srv fuel, put srv fuel c = some (.fail error text, none) := by
  unfold put
  cases hr : c.refusal with
  | some res =>
    have hfail : ∃ error text, res = .fail error text := by
      unfold PutCall.refusal at hr
      cases hd : c.dest <;> simp only [hd] at hr <;> split_ifs at hr
      all_goals exact ⟨_, _, (Option.some.inj hr).symm⟩
    obtain ⟨error, text, rfl⟩ := hfail
    exact ⟨error, text, fun _ _ => rfl⟩
  | none =>
    cases hc : c.create with
    | fails error text => exact ⟨error, text, fun _ _ => rfl⟩
    | handle fh => exact absurd ⟨hr, by simp [hc, handleIsValid]⟩ h

lemma PutCall.sizesInUse_ne :
    c.sizesInUse.m_writeBufferSize ≠ 0 ↔ c.sizes.m_writeBufferSize ≠ 0 ∨
      handleIsValid c.dest = true ∧ (initPreferredSizes c.fsinfo).m_writeBufferSize ≠ 0 := by
  unfold sizesInUse
  by_cases hs : c.sizes.m_writeBufferSize = 0 <;> by_cases hv : handleIsValid c.dest = true <;>
    simp [hs, hv]

lemma PutCall.data_eq_nil : c.data = [] ↔ c.chunks = [] := by
  constructor
  · intro h
    cases hc : c.chunks with
    | nil => rfl
    | cons x cs => simp [data, hc, x.ne_nil] at h
  · intro h
    simp [data, h]

lemma chunk_length_le {cs : List Chunk} {x : Chunk} (hx : x ∈ cs) :
    x.data.length ≤ (cs.flatMap Chunk.data).length := by
  obtain ⟨as, bs, rfl⟩ := List.append_of_mem hx
  rw [List.flatMap_append, List.flatMap_cons, List.length_append, List.length_append]
  omega

lemma putRight_of_sound (ha : c.Accepted) (h : c.Sound) : PutRight c := by
  by_cases hdata : c.chunks = []
  · -- there is nothing to write
    have hput : ∀ srv fuel, put srv fuel c = some (.pass, some []) := by
      intro srv fuel
      rw [put_accepted ha, hdata]
      rfl
    refine ⟨fun srv => ⟨0, by rw [hput]; rfl⟩, fun srv fuel file hpass => ⟨h.ended, ?_⟩⟩
    rw [hput] at hpass
    rw [PutCall.data_eq_nil.mpr hdata]
    exact (Prod.mk.inj (Option.some.inj hpass)).2.symm
  · have hsize : c.sizesInUse.m_writeBufferSize ≠ 0 :=
      PutCall.sizesInUse_ne.mpr (h.size fun hnil => hdata (PutCall.data_eq_nil.mp hnil))
    constructor
    · intro srv
      refine ⟨c.data.length, ?_⟩
      have hlen : ∀ x ∈ c.chunks, x.data.length ≤ c.data.length := fun x hx => chunk_length_le hx
      have hsome := writeChunks_isSome srv hsize hlen .start
      obtain ⟨out, hout⟩ := Option.isSome_iff_exists.mp hsome
      rw [put_accepted ha, hout]
      rcases out with ⟨res, s⟩ | s <;> rfl
    · intro srv fuel file hpass
      refine ⟨h.ended, ?_⟩
      rw [put_accepted ha] at hpass
      cases hw : writeChunks srv c.sizesInUse.m_writeBufferSize fuel .start c.chunks with
      | none => simp [hw] at hpass
      | some out =>
        rcases out with ⟨res, s⟩ | s
        · simp only [hw, Option.some.injEq, Prod.mk.injEq] at hpass
          exact absurd hpass.1 (writeChunks_error hw)
        · simp only [hw, Option.some.injEq, Prod.mk.injEq, true_and] at hpass
          have hfile := writeChunks_file hsize (s := .start) rfl
            (by rw [Sending.start, List.length_nil, Nat.zero_add]; exact h.total) hw
          rw [← hpass, hfile]
          rfl

lemma sound_of_putRight (ha : c.Accepted) (h : PutRight c) : c.Sound := by
  obtain ⟨fuel, hsome⟩ := h.returns byteServer
  obtain ⟨⟨res, file⟩, hput⟩ := Option.isSome_iff_exists.mp hsome
  have hrun := hput
  rw [put_accepted ha] at hrun
  cases hw : writeChunks byteServer c.sizesInUse.m_writeBufferSize fuel .start c.chunks with
  | none => simp [hw] at hrun
  | some out =>
    rcases out with e | s
    · exact absurd hw writeChunks_byteServer
    · simp only [hw, Option.some.injEq, Prod.mk.injEq] at hrun
      obtain ⟨rfl, rfl⟩ := hrun
      obtain ⟨hended, hfile⟩ := h.success _ _ _ hput
      have hsize : c.data ≠ [] → c.sizesInUse.m_writeBufferSize ≠ 0 := by
        intro hdata hzero
        rw [hzero] at hw
        exact hdata (PutCall.data_eq_nil.mpr (writeChunks_zero hw))
      refine ⟨fun hdata => PutCall.sizesInUse_ne.mp (hsize hdata), hended, ?_⟩
      by_contra htotal
      have hdata : c.data ≠ [] := by
        intro hnil
        simp [hnil] at htotal
      obtain ⟨-, hall⟩ := writeChunks_bytes (hsize hdata) (s := .start) (k := 0) rfl hw
      have hlen : s.file.length = c.data.length := by rw [Option.some.inj hfile]
      have hfits : c.data.length < 2 ^ 64 := c.fits
      -- the last byte whose offset is negative
      have hlast := hall (min c.data.length (2 ^ 32) - 1) (by omega) (by
        show _ < 0 + c.data.length
        omega)
      rw [offset_of_le (by omega) (by omega)] at hlast
      omega

/-- **When `put` is right.** A call that gets as far as its loop returns for every server, and
returns success only with the whole data in the file, just when there is a size to write with, the
data ends normally and there are at most 2 GiB of it. -/
theorem putRight_iff (c : PutCall) : PutRight c ↔ (c.Accepted → c.Sound) := by
  constructor
  · exact fun h ha => sound_of_putRight ha h
  · intro h
    by_cases ha : c.Accepted
    · exact putRight_of_sound ha (h ha)
    · obtain ⟨error, text, hput⟩ := put_refused ha
      refine ⟨fun srv => ⟨0, by rw [hput]; rfl⟩, fun srv fuel file hpass => ?_⟩
      rw [hput] at hpass
      simp at hpass

/-- One byte for a new file, over a connection on which no size was asked for. -/
def firstPut : PutCall where
  destPath := "/e/new"
  parentExported := false
  dest := .fails .ERR_DOES_NOT_EXIST "/e/new"
  Overwrite := false
  sizes := ⟨0, 0, 0⟩
  fsinfo := some ⟨65536, 65536, 65536⟩
  create := .handle (.ofFH 1)
  chunks := [⟨[97], by decide, by decide⟩]
  result := 0
  result_le := by decide
  fits := by decide

/-- The first upload of a new file writes nothing, for ever. -/
theorem firstPut_not_right : ¬ PutRight firstPut ∧ ∀ fuel, put byteServer fuel firstPut = none := by
  have hnone : ∀ fuel, put byteServer fuel firstPut = none := by
    intro fuel
    have hloop := writeChunk_zero (List.cons_ne_nil 97 []) fuel .start
    simp only [put, firstPut, PutCall.refusal, PutCall.sizesInUse, handleIsValid,
      Bool.false_eq_true, if_false, false_and, writeChunks, hloop]
  refine ⟨fun h => ?_, hnone⟩
  obtain ⟨fuel, hsome⟩ := h.returns byteServer
  simp [hnone] at hsome

end KioExtras.Nfs
