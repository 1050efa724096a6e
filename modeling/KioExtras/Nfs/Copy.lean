import KioExtras.Nfs.Transfer
import Mathlib.Data.List.GetD
import Mathlib.Tactic.Common

/-!
The three copies of a regular file: on the server (`copySame`), from it (`copyFrom`) and to it
(`copyTo`).

A call that does not return, or not within so many turns of its loop, gives no result.
-/

namespace KioExtras.Nfs

open KioExtras.Kio KioExtras.Lib.FileStore KioExtras.Lib.Stream
open KioExtras.Lib.FileStore.Store (splice)

abbrev Failure := Error × String

/-- What a copy starts from. The partial file, if there is one, holds a beginning of the source. -/
structure CopyCall where
  srcPath : String
  destPath : String
  source : Bytes
  dest : Option Bytes
  part : Option Bytes
  part_prefix : ∀ p, part = some p → p <+: source
  Overwrite : Bool
  MarkPartial : Bool
  canResume : ℕ → Bool
  sizes : Sizes
  fsinfo : Option FsInfo

/-- How the calls around the loop go, for a destination on the server: `lookupPart` is true when
the LOOKUP of the partial file succeeds, `partAttributes` when its reply has the attributes. -/
structure RemoteEnv where
  parentExported : Bool
  lookupPart : Bool
  partAttributes : Bool
  getPart : MaybeNFSFileHandle ℕ
  create : MaybeNFSFileHandle ℕ
  remove : Bool
  rename : Bool

namespace CopyCall

variable (c : CopyCall)

def exists_ : Bool := c.dest.isSome && !c.Overwrite

/-- What the partial file holds when the transfer is resumed. -/
def resumed (env : RemoteEnv) : Option Bytes :=
  c.part.filter fun p =>
    env.lookupPart && c.MarkPartial && env.partAttributes && decide (0 < p.length) &&
      c.canResume p.length

/-- The file that is written, as it is before the loop. -/
def start (env : RemoteEnv) : Bytes := (c.resumed env).getD []

def openDest (env : RemoteEnv) : MaybeNFSFileHandle ℕ :=
  if (c.resumed env).isSome then env.getPart else env.create

/-- The partial file gets its name. -/
def finish (remove rename : Bool) (file : Bytes) : WorkerResult × Option Bytes :=
  if c.MarkPartial then
    if rename then (.pass, some file)
    else (.fail .ERR_CANNOT_RENAME_PARTIAL (partName c.destPath), if remove then none else c.dest)
  else (.pass, some file)

/-- After an error the file that was there is left alone if a partial file was written. -/
def giveUp (failure : Failure) (file : Bytes) : WorkerResult × Option Bytes :=
  (.fail failure.1 failure.2, if c.MarkPartial then c.dest else some file)

/-- What surrounds a loop: the checks before it, and the end. -/
def around (checks : Except Failure Unit) (loop : Option (Except (Failure × Bytes) Bytes))
    (remove rename : Bool) : Option (WorkerResult × Option Bytes) :=
  match checks with
  | .error failure => some (.fail failure.1 failure.2, c.dest)
  | .ok _ =>
    match loop with
    | none => none
    | some (.error (failure, file)) => some (c.giveUp failure file)
    | some (.ok file) => some (c.finish remove rename file)

end CopyCall

def usable (path : String) : MaybeNFSFileHandle ℕ → Except Failure Unit
  | .fails error text => .error (error, text)
  | .handle fh => if fh.isInvalid then .error (.ERR_DOES_NOT_EXIST, path) else .ok ()

def opened : MaybeNFSFileHandle ℕ → Except Failure Unit
  | .fails error text => .error (error, text)
  | .handle _ => .ok ()

/-! ### On the server -/

/-- The file that is written and the two offsets. -/
structure Same where
  file : Bytes
  readOffset : ℕ
  writeOffset : ℕ
  calls : ℕ

/-- The loop of `copySame`. The offsets advance by what was read. -/
def sameLoop (srv : Server) (source : Bytes) (bufferSize : ℕ) :
    ℕ → Same → Option (Except (Failure × Bytes) Bytes)
  | 0, _ => none
  | fuel + 1, s =>
    match srv.read s.calls with
    | .fails error text => some (.error ((error, text), s.file))
    | .serves limit _ =>
      let data := (source.drop s.readOffset).take (min bufferSize limit)
      if data = [] then some (.ok s.file)
      else match srv.write s.calls with
        | .fails error text => some (.error ((error, text), s.file))
        | .serves written _ =>
          sameLoop srv source bufferSize fuel
            ⟨splice s.file s.writeOffset (data.take written), s.readOffset + data.length,
              s.writeOffset + data.length, s.calls + 1⟩

structure SameEnv extends RemoteEnv where
  srcParentExported : Bool
  srcFH : MaybeNFSFileHandle ℕ

variable (c : CopyCall)

/-- The smaller one of the sizes that are known; nothing is asked for. -/
def CopyCall.bufferSize : ℕ :=
  if c.sizes.m_readBufferSize < c.sizes.m_writeBufferSize then c.sizes.m_readBufferSize
  else c.sizes.m_writeBufferSize

variable (env : SameEnv)

def sameChecks (c : CopyCall) : Except Failure Unit := do
  if env.srcParentExported then throw (.ERR_ACCESS_DENIED, c.srcPath)
  usable c.srcPath env.srcFH
  if env.parentExported then throw (.ERR_ACCESS_DENIED, c.destPath)
  if c.exists_ then throw (.ERR_FILE_ALREADY_EXIST, c.destPath)
  opened (c.openDest env.toRemoteEnv)

def sameStart (c : CopyCall) : Same :=
  ⟨c.start env.toRemoteEnv, (c.start env.toRemoteEnv).length, (c.start env.toRemoteEnv).length, 0⟩

/-- The size of the buffer is an `int`: no array can have a negative one. -/
def copySame (srv : Server) (fuel : ℕ) (env : SameEnv) (c : CopyCall) :
    Option (WorkerResult × Option Bytes) :=
  c.around (sameChecks env c)
    (if 2 ^ 31 ≤ c.bufferSize then none
      else sameLoop srv c.source c.bufferSize fuel (sameStart env c))
    env.remove env.rename

/-! ### From the server -/

/-- `size` is what `readRes` holds of the attributes. -/
structure From where
  file : Bytes
  offset : ℕ
  size : ℕ
  bytesToRead : ℕ
  calls : ℕ

inductive FileError
  | OpenError
  | PermissionsError
  | OtherError

structure LocalEnv where
  srcFH : MaybeNFSFileHandle ℕ
  open_ : Option FileError
  remove : Bool
  rename : Bool

/-- The loop of `copyFrom`. It goes on until as many bytes were read as the first reply says that
there are. -/
def fromLoop (srv : Server) (c : CopyCall) (m_readBufferSize : ℕ)
    (resume : Option ℕ) : ℕ → From → Option (Except (Failure × Bytes) Bytes)
  | 0, _ => none
  | fuel + 1, s =>
    match srv.read s.calls with
    | .fails error text => some (.error ((error, text), s.file))
    | .serves limit _ =>
      let data := (c.source.drop s.offset).take (min m_readBufferSize limit)
      let size := if srv.attributes s.calls then c.source.length else s.size
      let bytesToRead :=
        if s.offset = 0 ∨ resume = some s.offset then size else s.bytesToRead
      if data ≠ [] ∧ srv.localFile s.calls = false then
        some (.error ((.ERR_CANNOT_WRITE, c.destPath), s.file))
      else if s.offset + data.length < bytesToRead then
        fromLoop srv c m_readBufferSize resume fuel
          ⟨s.file ++ data, s.offset + data.length, size, bytesToRead, s.calls + 1⟩
      else some (.ok (s.file ++ data))

/-- What the local partial file holds when the transfer is resumed. -/
def CopyCall.resumedFrom : Option Bytes :=
  c.part.filter fun p => c.MarkPartial && decide (0 < p.length) && c.canResume p.length

def CopyCall.startFrom : Bytes := c.resumedFrom.getD []

/-- `resumeOffset` is an `unsigned int`. -/
def CopyCall.resumeOffset : Option ℕ :=
  c.resumedFrom.map fun p => p.length % 2 ^ 32

def CopyCall.readSize : ℕ :=
  if c.sizes.m_readBufferSize = 0 then (initPreferredSizes c.fsinfo).m_readBufferSize
  else c.sizes.m_readBufferSize

def fromChecks (env : LocalEnv) (c : CopyCall) : Except Failure Unit := do
  usable c.srcPath env.srcFH
  if c.exists_ then throw (.ERR_FILE_ALREADY_EXIST, c.destPath)
  match env.open_ with
  | none => pure ()
  | some .OpenError =>
    if c.resumedFrom.isSome then throw (.ERR_CANNOT_RESUME, c.destPath)
    else throw (.ERR_CANNOT_OPEN_FOR_WRITING, c.destPath)
  | some .PermissionsError => throw (.ERR_WRITE_ACCESS_DENIED, c.destPath)
  | some .OtherError => throw (.ERR_CANNOT_OPEN_FOR_WRITING, c.destPath)

def fromStart : From := ⟨c.startFrom, c.resumeOffset.getD 0, 0, 0, 0⟩

def copyFrom (srv : Server) (fuel : ℕ) (env : LocalEnv) (c : CopyCall) :
    Option (WorkerResult × Option Bytes) :=
  c.around (fromChecks env c)
    (fromLoop srv c c.readSize c.resumeOffset fuel (fromStart c)) env.remove env.rename

/-! ### To the server -/

/-- The position in the local file, and the offset that is written to. -/
structure To where
  file : Bytes
  pos : ℕ
  offset : ℕ
  calls : ℕ

structure ToEnv extends RemoteEnv where
  srcExists : Bool
  srcOpen : Bool

/-- The loop of `copyTo`. What is read is counted in an `int`. -/
def toLoop (srv : Server) (c : CopyCall) (m_writeBufferSize : ℕ) :
    ℕ → To → Option (Except (Failure × Bytes) Bytes)
  | 0, _ => none
  | fuel + 1, s =>
    let data := (c.source.drop s.pos).take m_writeBufferSize
    if srv.localFile s.calls = false ∨ 2 ^ 31 ≤ data.length then
      some (.error ((.ERR_CANNOT_READ, c.srcPath), s.file))
    else if data = [] then some (.ok s.file)
    else match srv.write s.calls with
      | .fails error text => some (.error ((error, text), s.file))
      | .serves written _ =>
        toLoop srv c m_writeBufferSize fuel
          ⟨splice s.file s.offset (data.take written), s.pos + data.length,
            s.offset + data.length, s.calls + 1⟩

def CopyCall.writeSize : ℕ :=
  if c.sizes.m_writeBufferSize = 0 then (initPreferredSizes c.fsinfo).m_writeBufferSize
  else c.sizes.m_writeBufferSize

def toChecks (env : ToEnv) (c : CopyCall) : Except Failure Unit := do
  if !env.srcExists then throw (.ERR_DOES_NOT_EXIST, c.srcPath)
  if env.parentExported then throw (.ERR_ACCESS_DENIED, c.destPath)
  if c.exists_ then throw (.ERR_FILE_ALREADY_EXIST, c.destPath)
  if !env.srcOpen then throw (.ERR_CANNOT_OPEN_FOR_READING, c.srcPath)
  opened (c.openDest env.toRemoteEnv)

/-- What the loop of `copyTo` starts with. The local file is read from its beginning, also when the
transfer is resumed. -/
def toStart (env : ToEnv) (c : CopyCall) : To :=
  ⟨c.start env.toRemoteEnv, 0, (c.start env.toRemoteEnv).length, 0⟩

def copyTo (srv : Server) (fuel : ℕ) (env : ToEnv) (c : CopyCall) :
    Option (WorkerResult × Option Bytes) :=
  c.around (toChecks env c) (toLoop srv c c.writeSize fuel (toStart env c)) env.remove env.rename

/-! ### What they should do -/

/-- Where the copy returns success the destination holds the source. -/
def Copies (run : Server → ℕ → Option (WorkerResult × Option Bytes)) (srv : Server)
    (source : Bytes) : Prop :=
  ∀ fuel dest, run srv fuel = some (.pass, dest) → dest = some source

/-- A server that writes all that it is given, and whose replies to a READ have the attributes. -/
structure Server.Complete (srv : Server) : Prop where
  write : ∀ n limit pos, srv.write n = .serves limit pos → 2 ^ 32 ≤ limit
  attributes : ∀ n, srv.attributes n = true

lemma fullServer_complete : fullServer.Complete := by
  refine ⟨fun n limit _ h => ?_, fun _ => rfl⟩
  simp only [fullServer, Answer.serves.injEq] at h
  omega

/-! ### Pieces of the source -/

lemma take_append_data (source : Bytes) (o k : ℕ) :
    source.take o ++ (source.drop o).take k =
      source.take (o + ((source.drop o).take k).length) := by
  rw [List.take_add]
  congr 1
  rw [List.take_eq_take_iff, List.length_take]
  omega

lemma data_length (source : Bytes) (o k : ℕ) :
    ((source.drop o).take k).length = min k (source.length - o) := by
  rw [List.length_take, List.length_drop]

variable {source : Bytes} {srv : Server}

lemma data_eq_nil {o k : ℕ} : (source.drop o).take k = [] ↔ k = 0 ∨ source.length ≤ o := by
  rw [← List.length_eq_zero_iff, data_length]
  omega

/-! ### On the server: the loop -/

section same

variable {srv : Server} {source : Bytes} {bufferSize : ℕ}

/-- The file holds the source up to the two offsets. -/
structure Same.At (source : Bytes) (s : Same) : Prop where
  le : s.readOffset ≤ source.length
  writeOffset : s.writeOffset = s.readOffset
  file : s.file = source.take s.readOffset

variable {s : Same}

lemma Same.At.write (h : s.At source) (k calls : ℕ) {written : ℕ}
    (hw : ((source.drop s.readOffset).take k).length ≤ written) :
    Same.At source ⟨splice s.file s.writeOffset
        (((source.drop s.readOffset).take k).take written),
      s.readOffset + ((source.drop s.readOffset).take k).length,
      s.writeOffset + ((source.drop s.readOffset).take k).length, calls⟩ := by
  obtain ⟨hle, hoffset, hfile⟩ := h
  refine ⟨?_, by simp [hoffset], ?_⟩
  · rw [data_length]
    show s.readOffset + _ ≤ _
    omega
  · have hlen : (source.take s.readOffset).length = s.readOffset := List.length_take_of_le hle
    have hend := Store.splice_end (source.take s.readOffset) ((source.drop s.readOffset).take k)
    rw [hlen] at hend
    rw [hoffset, hfile, List.take_of_length_le hw, hend]
    exact take_append_data source s.readOffset k

variable {fuel : ℕ}

/-- **Where all is written that was read, the file is the source** at the end of the loop. -/
lemma sameLoop_file (hsize : bufferSize ≠ 0) (hs : s.At source)
    (hwrite : ∀ n limit pos, srv.write n = .serves limit pos →
      min bufferSize (source.length - s.readOffset) ≤ limit) {file : Bytes}
    (h : sameLoop srv source bufferSize fuel s = some (.ok file)) : file = source := by
  induction fuel generalizing s with
  | zero => simp [sameLoop] at h
  | succ fuel ih =>
    unfold sameLoop at h
    cases hr : srv.read s.calls with
    | fails error text => simp [hr] at h
    | serves limit hlimit =>
      simp only [hr] at h
      split_ifs at h with hdata
      · simp only [Option.some.injEq, Except.ok.injEq] at h
        rw [← h, hs.file]
        apply List.take_of_length_le
        rcases data_eq_nil.mp hdata with hzero | hle
        · omega
        · exact hle
      · cases hw : srv.write s.calls with
        | fails error text => simp [hw] at h
        | serves written hwritten =>
          simp only [hw] at h
          have hall := hwrite s.calls written hwritten hw
          have hlen := data_length source s.readOffset (min bufferSize limit)
          refine ih (hs.write _ _ (by omega)) ?_ h
          intro n limit' pos hn
          have := hwrite n limit' pos hn
          show min bufferSize (source.length - (s.readOffset + _)) ≤ _
          omega

lemma sameLoop_zero {file : Bytes} (h : sameLoop srv source 0 fuel s = some (.ok file)) :
    file = s.file := by
  cases fuel with
  | zero => simp [sameLoop] at h
  | succ fuel =>
    unfold sameLoop at h
    cases hr : srv.read s.calls with
    | fails error text => simp [hr] at h
    | serves limit _ =>
      simp only [hr, Nat.zero_min, List.take_zero, if_true, Option.some.injEq,
        Except.ok.injEq] at h
      exact h.symm

/-- The server gives one byte for each READ but the last, which gets two, and writes one byte. -/
def lastShort (left : ℕ) : Server where
  read n := if n + 2 = left then .serves 2 Nat.two_pos else .serves 1 Nat.one_pos
  write _ := .serves 1 Nat.one_pos
  attributes _ := true
  localFile _ := true

lemma sameLoop_lastShort (source : Bytes) (hsize : 2 ≤ bufferSize) {left : ℕ}
    (hleft : s.calls + (source.length - s.readOffset) = left)
    (htwo : s.readOffset + 2 ≤ source.length) (hoffset : s.writeOffset = s.readOffset)
    (hfile : s.file.length ≤ s.readOffset) (hfuel : source.length - s.readOffset < fuel) :
    ∃ file, sameLoop (lastShort left) source bufferSize fuel s = some (.ok file) ∧
      file.length < source.length := by
  induction fuel generalizing s with
  | zero => omega
  | succ fuel ih =>
    unfold sameLoop
    by_cases hlast : s.calls + 2 = left
    · -- the last two bytes
      obtain ⟨fuel, rfl⟩ : ∃ k, fuel = k + 1 := ⟨fuel - 1, by omega⟩
      have hlen := data_length source s.readOffset (min bufferSize 2)
      have hdata : (source.drop s.readOffset).take (min bufferSize 2) ≠ [] := by
        rw [Ne, data_eq_nil]
        omega
      have hend : ((source.drop (s.readOffset +
          ((source.drop s.readOffset).take (min bufferSize 2)).length)).take (min bufferSize 1)) =
          [] := by
        rw [data_eq_nil, hlen]
        omega
      have hnot : ¬ s.calls + 1 + 2 = left := by omega
      refine ⟨splice s.file s.writeOffset
        (((source.drop s.readOffset).take (min bufferSize 2)).take 1), ?_, ?_⟩
      · simp only [lastShort, hlast, if_true, hdata, if_false, sameLoop, hnot, hend]
      · rw [splice_length, List.length_take, hoffset]
        omega
    · have hlen := data_length source s.readOffset (min bufferSize 1)
      have hdata : (source.drop s.readOffset).take (min bufferSize 1) ≠ [] := by
        rw [Ne, data_eq_nil]
        omega
      simp only [lastShort, hlast, if_false, hdata]
      apply ih
      · show s.calls + 1 + (source.length - (s.readOffset + _)) = left
        omega
      · show s.readOffset + _ + 2 ≤ _
        omega
      · show s.writeOffset + _ = s.readOffset + _
        omega
      · show (splice _ _ _).length ≤ s.readOffset + _
        rw [splice_length, List.length_take]
        omega
      · show source.length - (s.readOffset + _) < fuel
        omega

end same

/-! ### What surrounds the loops -/

/-- The checks are passed, and the partial file can get its name. -/
structure Accepted (c : CopyCall) (checks : Except Failure Unit) (rename : Bool) : Prop where
  checks : checks = .ok ()
  rename : c.MarkPartial = true → rename = true

lemma around_eq_pass {c : CopyCall} {checks : Except Failure Unit} {remove rename : Bool}
    {loop : Option (Except (Failure × Bytes) Bytes)} {dest : Option Bytes} :
    c.around checks loop remove rename = some (.pass, dest) ↔
      Accepted c checks rename ∧ ∃ file, loop = some (.ok file) ∧ dest = some file := by
  have hfinish : ∀ file, c.finish remove rename file = (.pass, dest) ↔
      (c.MarkPartial = true → rename = true) ∧ dest = some file := by
    intro file
    unfold CopyCall.finish
    cases c.MarkPartial <;> cases rename <;> simp [eq_comm]
  unfold CopyCall.around
  rcases checks with failure | ⟨⟩
  · simp only [Option.some.injEq, Prod.mk.injEq, reduceCtorEq, false_and, false_iff]
    rintro ⟨⟨hchecks, -⟩, -⟩
    simp at hchecks
  · rcases loop with _ | ⟨failure, file⟩ | file
    · simp
    · simp [CopyCall.giveUp]
    · simp only [Option.some.injEq, hfinish]
      constructor
      · rintro ⟨hrename, rfl⟩
        exact ⟨⟨rfl, hrename⟩, file, rfl, rfl⟩
      · rintro ⟨⟨-, hrename⟩, file', hfile, rfl⟩
        obtain rfl := Except.ok.inj hfile
        exact ⟨hrename, rfl⟩

lemma copies_around_iff {c : CopyCall} {checks : Except Failure Unit} {remove rename : Bool}
    {loop : Server → ℕ → Option (Except (Failure × Bytes) Bytes)} :
    Copies (fun srv fuel => c.around checks (loop srv fuel) remove rename) srv c.source ↔
      (Accepted c checks rename → ∀ fuel file, loop srv fuel = some (.ok file) →
        file = c.source) := by
  constructor
  · intro h ha fuel file hloop
    exact Option.some.inj (h fuel _ (around_eq_pass.mpr ⟨ha, file, hloop, rfl⟩))
  · intro h fuel dest hpass
    obtain ⟨ha, file, hloop, rfl⟩ := around_eq_pass.mp hpass
    rw [h ha fuel file hloop]

lemma start_isPrefix (env : RemoteEnv) : c.start env <+: c.source := by
  unfold CopyCall.start CopyCall.resumed
  cases hp : c.part with
  | none => simp
  | some p =>
    rw [Option.filter_some]
    split_ifs
    · exact c.part_prefix p hp
    · simp

/-! ### On the server: the copy -/

lemma sameStart_at (c : CopyCall) : (sameStart env c).At c.source where
  le := (start_isPrefix c _).length_le
  writeOffset := rfl
  file := List.prefix_iff_eq_take.mp (start_isPrefix c _)

lemma copies_same_iff {env : SameEnv} {c : CopyCall} :
    Copies (fun srv fuel => copySame srv fuel env c) srv c.source ↔
      (Accepted c (sameChecks env c) env.rename → c.bufferSize < 2 ^ 31 → ∀ fuel file,
        sameLoop srv c.source c.bufferSize fuel (sameStart env c) = some (.ok file) →
          file = c.source) := by
  refine copies_around_iff.trans (imp_congr_right fun _ => ?_)
  by_cases hbig : 2 ^ 31 ≤ c.bufferSize
  · simp only [hbig, if_true, Nat.not_lt.mpr hbig, reduceCtorEq, false_imp_iff, implies_true]
  · simp only [hbig, if_false, Nat.not_le.mp hbig, forall_const]

/-- When `copySame` is right, whatever the server does: nothing is left to copy, or at most one byte
at a time. A size that is no `int` ends the worker. -/
def SameRight (c : CopyCall) : Prop :=
  2 ^ 31 ≤ c.bufferSize ∨ c.start env.toRemoteEnv = c.source ∨
    c.bufferSize ≠ 0 ∧
      (c.bufferSize = 1 ∨ c.source.length ≤ (c.start env.toRemoteEnv).length + 1)

/-- When it is right with a server that writes what it is given. -/
def SameRightComplete (c : CopyCall) : Prop :=
  c.bufferSize ≠ 0 ∨ c.start env.toRemoteEnv = c.source

lemma sameLoop_zero_iff (c : CopyCall) :
    (∀ srv : Server, srv.Complete → ∀ fuel file,
      sameLoop srv c.source 0 fuel (sameStart env c) = some (.ok file) → file = c.source) ↔
      c.start env.toRemoteEnv = c.source := by
  constructor
  · intro h
    refine h fullServer fullServer_complete 1 _ ?_
    simp [sameLoop, fullServer, sameStart]
  · intro h srv _ fuel file hloop
    rw [sameLoop_zero hloop]
    exact h

lemma sameRightComplete_iff (c : CopyCall) :
    (∀ srv : Server, srv.Complete → Copies (fun srv fuel => copySame srv fuel env c) srv c.source) ↔
      (Accepted c (sameChecks env c) env.rename → SameRightComplete env c) := by
  simp only [copies_same_iff]
  constructor
  · intro h ha
    by_cases hsize : c.bufferSize = 0
    · refine Or.inr ((sameLoop_zero_iff env c).mp fun srv hsrv fuel file hloop => ?_)
      exact h srv hsrv ha (by omega) fuel file (hsize ▸ hloop)
    · exact Or.inl hsize
  · intro h srv hsrv ha hsize fuel file hloop
    rcases h ha with hne | heq
    · refine sameLoop_file hne (sameStart_at env c) (fun n limit pos hn => ?_) hloop
      have := hsrv.write n limit pos hn
      omega
    · by_cases hzero : c.bufferSize = 0
      · rw [hzero] at hloop
        exact (sameLoop_zero_iff env c).mpr heq srv hsrv fuel file hloop
      · refine sameLoop_file hzero (sameStart_at env c) (fun n limit pos hn => ?_) hloop
        have := hsrv.write n limit pos hn
        omega

lemma sameRight_iff (c : CopyCall) :
    (∀ srv, Copies (fun srv fuel => copySame srv fuel env c) srv c.source) ↔
      (Accepted c (sameChecks env c) env.rename → SameRight env c) := by
  have hprefix := start_isPrefix c env.toRemoteEnv
  constructor
  · intro h ha
    by_cases hbig : 2 ^ 31 ≤ c.bufferSize
    · exact Or.inl hbig
    rcases (sameRightComplete_iff env c).mp (fun srv _ => h srv) ha with hne | heq
    · refine Or.inr (Or.inr ⟨hne, ?_⟩)
      by_contra hmany
      obtain ⟨file, hloop, hlt⟩ := sameLoop_lastShort c.source
        (s := sameStart env c) (show 2 ≤ c.bufferSize by omega) rfl
        (by show (c.start env.toRemoteEnv).length + 2 ≤ _; omega) rfl (Nat.le_refl _)
        (Nat.lt_succ_self _)
      have hfile := copies_same_iff.mp (h _) ha (Nat.not_le.mp hbig) _ _ hloop
      rw [hfile] at hlt
      omega
    · exact Or.inr (Or.inl heq)
  · intro h srv
    rw [copies_same_iff]
    intro ha hsmall fuel file hloop
    by_cases hzero : c.bufferSize = 0
    · rw [hzero] at hloop
      rw [sameLoop_zero hloop]
      rcases h ha with hbig | heq | ⟨hne, -⟩
      · omega
      · exact heq
      · exact absurd hzero hne
    · refine sameLoop_file hzero (sameStart_at env c) (fun n limit pos hn => ?_) hloop
      show min c.bufferSize (c.source.length - (c.start env.toRemoteEnv).length) ≤ limit
      rcases h ha with hbig | heq | ⟨-, hone | hle⟩
      · omega
      · rw [heq]
        omega
      · omega
      · omega

/-! ### From the server -/

section fromServer

variable {srv : Server} {c : CopyCall} {size : ℕ} {resume : Option ℕ}

variable {fuel : ℕ} {s : From}

/-- **With attributes in the replies all is read** that follows the offset. -/
lemma fromLoop_file (hattr : ∀ n, srv.attributes n = true) (hle : s.offset ≤ c.source.length)
    (hread : s.offset = 0 ∨ resume = some s.offset ∨ s.bytesToRead = c.source.length) {file : Bytes}
    (h : fromLoop srv c size resume fuel s = some (.ok file)) :
    file = s.file ++ c.source.drop s.offset := by
  induction fuel generalizing s with
  | zero => simp [fromLoop] at h
  | succ fuel ih =>
    unfold fromLoop at h
    cases hr : srv.read s.calls with
    | fails error text => simp [hr] at h
    | serves limit _ =>
      have hbytes : (if s.offset = 0 ∨ resume = some s.offset then c.source.length
          else s.bytesToRead) = c.source.length := by
        split_ifs with hfirst
        · rfl
        · rcases hread with hz | hres | hb
          · exact absurd (Or.inl hz) hfirst
          · exact absurd (Or.inr hres) hfirst
          · exact hb
      have hlen := data_length c.source s.offset (min size limit)
      simp only [hr, hattr, if_true, hbytes] at h
      split_ifs at h with hwrite hmore
      · simp at h
      · have hnext := ih (by show s.offset + _ ≤ _; omega) (Or.inr (Or.inr rfl)) h
        simp only [List.append_assoc] at hnext
        rw [hnext, ← List.drop_drop]
        congr 1
        conv_rhs => rw [← List.take_append_drop (min size limit) (c.source.drop s.offset)]
        congr 1
        rw [List.drop_eq_drop_iff, List.length_drop, hlen]
        omega
      · simp only [Option.some.injEq, Except.ok.injEq] at h
        rw [← h, List.take_of_length_le]
        rw [List.length_drop]
        omega

lemma fromLoop_zero {file : Bytes} (h : fromLoop srv c 0 resume fuel s = some (.ok file)) :
    file = s.file := by
  induction fuel generalizing s with
  | zero => simp [fromLoop] at h
  | succ fuel ih =>
    unfold fromLoop at h
    cases hr : srv.read s.calls with
    | fails error text => simp [hr] at h
    | serves limit _ =>
      simp only [hr, Nat.zero_min, List.take_zero, ne_eq, not_true_eq_false, false_and, if_false,
        List.append_nil, List.length_nil, Nat.add_zero] at h
      generalize (if srv.attributes s.calls = true then c.source.length else s.size) = size at h
      generalize (if s.offset = 0 ∨ resume = some s.offset then size else s.bytesToRead) = bytes
        at h
      split_ifs at h
      · have hfile := ih h
        exact hfile
      · simp only [Option.some.injEq, Except.ok.injEq] at h
        exact h.symm

lemma fromLoop_full (resume : Option ℕ) (hsize : size ≠ 0) (hle : s.offset ≤ c.source.length)
    (hfuel : c.source.length - s.offset < fuel)
    (hread : s.offset = 0 ∨ resume = some s.offset ∨ s.bytesToRead = c.source.length) :
    ∃ file, fromLoop fullServer c size resume fuel s = some (.ok file) := by
  induction fuel generalizing s with
  | zero => omega
  | succ fuel ih =>
    have hbytes : (if s.offset = 0 ∨ resume = some s.offset then c.source.length
        else s.bytesToRead) = c.source.length := by
      split_ifs with hfirst
      · rfl
      · rcases hread with hz | hres | hb
        · exact absurd (Or.inl hz) hfirst
        · exact absurd (Or.inr hres) hfirst
        · exact hb
    have hlen := data_length c.source s.offset (min size (2 ^ 32))
    unfold fromLoop
    simp only [fullServer, if_true, hbytes, Bool.true_eq_false, and_false, if_false]
    split_ifs with hmore
    · exact ih (by show s.offset + _ ≤ _; omega) (by show _ - (s.offset + _) < _; omega)
        (Or.inr (Or.inr rfl))
    · exact ⟨_, rfl⟩

lemma fromLoop_byteServer (s : From) (hsize : s.size = 0)
    (hfirst : s.offset = 0 ∨ resume = some s.offset) :
    fromLoop byteServer c size resume 1 s =
      some (.ok (s.file ++ (c.source.drop s.offset).take (min size 1))) := by
  simp [fromLoop, byteServer, hsize, hfirst]

end fromServer

lemma startFrom_isPrefix : c.startFrom <+: c.source := by
  unfold CopyCall.startFrom CopyCall.resumedFrom
  cases hp : c.part with
  | none => simp
  | some p =>
    rw [Option.filter_some]
    split_ifs
    · exact c.part_prefix p hp
    · simp

lemma fromStart_offset : (fromStart c).offset = c.startFrom.length % 2 ^ 32 ∧
    ((fromStart c).offset = 0 ∨ c.resumeOffset = some (fromStart c).offset) := by
  unfold fromStart CopyCall.resumeOffset CopyCall.startFrom
  cases c.resumedFrom with
  | none => simp
  | some p => simp

lemma fromStart_le : (fromStart c).offset ≤ c.source.length := by
  rw [(fromStart_offset c).1]
  exact Nat.le_trans (Nat.mod_le _ _) (startFrom_isPrefix c).length_le

/-- When `copyFrom` is right, whatever the server does: at most one byte is left to copy. -/
def FromRight : Prop :=
  c.readSize = 0 ∧ c.startFrom = c.source ∨
    c.readSize ≠ 0 ∧ c.startFrom.length < 2 ^ 32 ∧ c.source.length ≤ c.startFrom.length + 1

/-- When it is right with a server whose replies have the attributes: without a buffer it does not
return, if it has to copy anything; with one the offset has to fit its type. -/
def FromRightComplete : Prop :=
  c.readSize = 0 ∨ c.startFrom.length < 2 ^ 32

lemma copies_from_iff {env : LocalEnv} {c : CopyCall} :
    Copies (fun srv fuel => copyFrom srv fuel env c) srv c.source ↔
      (Accepted c (fromChecks env c) env.rename → ∀ fuel file,
        fromLoop srv c c.readSize c.resumeOffset fuel (fromStart c) = some (.ok file) →
          file = c.source) :=
  copies_around_iff

lemma prefix_append_drop {p : Bytes} (h : p <+: source) : p ++ source.drop p.length = source := by
  obtain ⟨t, rfl⟩ := h
  simp

lemma fromRightComplete_iff (env : LocalEnv) (c : CopyCall) :
    (∀ srv : Server, srv.Complete → Copies (fun srv fuel => copyFrom srv fuel env c) srv c.source) ↔
      (Accepted c (fromChecks env c) env.rename → FromRightComplete c) := by
  obtain ⟨hoffset, hfirst⟩ := fromStart_offset c
  have hfirst' : (fromStart c).offset = 0 ∨ c.resumeOffset = some (fromStart c).offset ∨
      (fromStart c).bytesToRead = c.source.length := hfirst.imp_right Or.inl
  have hprefix := startFrom_isPrefix c
  simp only [copies_from_iff]
  constructor
  · intro h ha
    by_cases hsize : c.readSize = 0
    · exact Or.inl hsize
    · refine Or.inr ?_
      by_contra hbig
      obtain ⟨file, hloop⟩ := fromLoop_full c.resumeOffset hsize (fromStart_le c)
        (Nat.lt_succ_self _) hfirst'
      have hsource := h fullServer fullServer_complete ha _ _ hloop
      rw [fromLoop_file (fun _ => rfl) (fromStart_le c) hfirst' hloop] at hsource
      have hlen := congrArg List.length hsource
      have hle := fromStart_le c
      rw [List.length_append, List.length_drop] at hlen
      have hstart : (fromStart c).file.length = c.startFrom.length := rfl
      have hmod := Nat.mod_lt c.startFrom.length (show 0 < 2 ^ 32 by omega)
      omega
  · intro h srv hsrv ha fuel file hloop
    have hfile := fromLoop_file hsrv.attributes (fromStart_le c) hfirst' hloop
    rcases h ha with hzero | hsmall
    · rw [hzero] at hloop
      -- nothing was read, so nothing was left
      have hsame := fromLoop_zero hloop
      rw [hfile] at hsame
      have hnil := List.append_right_eq_self.mp hsame
      rw [List.drop_eq_nil_iff, hoffset] at hnil
      have hmod := Nat.mod_le c.startFrom.length (2 ^ 32)
      rw [fromLoop_zero hloop]
      exact hprefix.eq_of_length (Nat.le_antisymm hprefix.length_le (by omega))
    · rw [hfile, hoffset, Nat.mod_eq_of_lt hsmall]
      exact prefix_append_drop hprefix

lemma fromLoop_short {c : CopyCall} (hsize : c.readSize ≠ 0)
    (hoffset : (fromStart c).offset = c.startFrom.length)
    (hone : c.source.length ≤ c.startFrom.length + 1) {fuel : ℕ} {file : Bytes}
    (h : fromLoop srv c c.readSize c.resumeOffset fuel (fromStart c) = some (.ok file)) :
    file = c.source := by
  have hprefix := startFrom_isPrefix c
  have hle := hprefix.length_le
  cases fuel with
  | zero => simp [fromLoop] at h
  | succ fuel =>
    unfold fromLoop at h
    cases hr : srv.read (fromStart c).calls with
    | fails error text => simp [hr] at h
    | serves limit hlimit =>
      have hall : (c.source.drop (fromStart c).offset).take (min c.readSize limit) =
          c.source.drop c.startFrom.length := by
        rw [hoffset, List.take_of_length_le]
        rw [List.length_drop]
        omega
      have hfirst := (fromStart_offset c).2
      have hsize' : (if srv.attributes (fromStart c).calls = true then c.source.length
          else (fromStart c).size) ≤ c.source.length := by
        split_ifs
        · exact Nat.le_refl _
        · exact Nat.zero_le _
      simp only [hr, hall, hfirst, if_true, List.length_drop] at h
      have hend : ¬ (fromStart c).offset + (c.source.length - c.startFrom.length) <
          (if srv.attributes (fromStart c).calls = true then c.source.length
            else (fromStart c).size) := by
        omega
      rw [if_neg hend] at h
      split_ifs at h with hwrite
      · simp at h
      · simp only [Option.some.injEq, Except.ok.injEq] at h
        rw [← h]
        exact prefix_append_drop hprefix

lemma fromRight_iff (env : LocalEnv) (c : CopyCall) :
    (∀ srv, Copies (fun srv fuel => copyFrom srv fuel env c) srv c.source) ↔
      (Accepted c (fromChecks env c) env.rename → FromRight c) := by
  obtain ⟨hoffset, hfirst⟩ := fromStart_offset c
  have hprefix := startFrom_isPrefix c
  constructor
  · intro h ha
    have hcomplete := (fromRightComplete_iff env c).mp (fun srv _ => h srv) ha
    have hbyte := copies_from_iff.mp (h byteServer) ha 1 _
      (fromLoop_byteServer (fromStart c) rfl hfirst)
    by_cases hsize : c.readSize = 0
    · refine Or.inl ⟨hsize, ?_⟩
      rw [hsize, Nat.zero_min, List.take_zero, List.append_nil] at hbyte
      exact hbyte
    · refine Or.inr ⟨hsize, hcomplete.resolve_left hsize, ?_⟩
      have hlen := congrArg List.length hbyte
      rw [List.length_append, data_length] at hlen
      have hstart : (fromStart c).file.length = c.startFrom.length := rfl
      omega
  · intro h srv
    rw [copies_from_iff]
    intro ha fuel file hloop
    rcases h ha with ⟨hzero, heq⟩ | ⟨hsize, hsmall, hone⟩
    · rw [hzero] at hloop
      rw [fromLoop_zero hloop]
      exact heq
    · exact fromLoop_short hsize (by rw [hoffset, Nat.mod_eq_of_lt hsmall]) hone hloop

/-! ### To the server -/

section toServer

variable {srv : Server} {c : CopyCall} {size : ℕ}

variable {fuel : ℕ} {s : To}

/-- **Where all is written that was read, what follows the position is appended.** -/
lemma toLoop_file (hsize : size ≠ 0) (hsrv : srv.Complete) (hle : s.pos ≤ c.source.length)
    (hoffset : s.offset = s.file.length) {file : Bytes}
    (h : toLoop srv c size fuel s = some (.ok file)) : file = s.file ++ c.source.drop s.pos := by
  induction fuel generalizing s with
  | zero => simp [toLoop] at h
  | succ fuel ih =>
    have hlen := data_length c.source s.pos size
    unfold toLoop at h
    simp only at h
    split_ifs at h with hfail hdata
    · simp at h
    · simp only [Option.some.injEq, Except.ok.injEq] at h
      rw [← h, List.drop_eq_nil_of_le ((data_eq_nil.mp hdata).resolve_left hsize), List.append_nil]
    · cases hw : srv.write s.calls with
      | fails error text => simp [hw] at h
      | serves written pos =>
        have hwritten := hsrv.write _ _ _ hw
        have hall : ((c.source.drop s.pos).take size).take written =
            (c.source.drop s.pos).take size := by
          rw [List.take_of_length_le]
          omega
        simp only [hw, hall, hoffset, Store.splice_end] at h
        have hnext := ih (by show s.pos + _ ≤ _; omega) (by simp) h
        simp only [List.append_assoc] at hnext
        rw [hnext, ← List.drop_drop]
        congr 1
        conv_rhs => rw [← List.take_append_drop size (c.source.drop s.pos)]
        congr 1
        rw [List.drop_eq_drop_iff, List.length_drop, hlen]
        omega

lemma toLoop_zero {file : Bytes} (h : toLoop srv c 0 fuel s = some (.ok file)) : file = s.file := by
  cases fuel with
  | zero => simp [toLoop] at h
  | succ fuel =>
    unfold toLoop at h
    simp only [List.take_zero, List.length_nil, if_true] at h
    split_ifs at h
    · simp at h
    · simp only [Option.some.injEq, Except.ok.injEq] at h
      exact h.symm

lemma toLoop_overflow (h : 2 ^ 31 ≤ min size (c.source.length - s.pos)) {file : Bytes} :
    toLoop srv c size fuel s ≠ some (.ok file) := by
  cases fuel with
  | zero => simp [toLoop]
  | succ fuel =>
    have hlen := data_length c.source s.pos size
    unfold toLoop
    rw [if_pos (Or.inr (by omega))]
    simp

lemma toLoop_full (size : ℕ) (hle : s.pos ≤ c.source.length)
    (hfits : min size (c.source.length - s.pos) < 2 ^ 31) (hfuel : c.source.length - s.pos < fuel) :
    ∃ file, toLoop fullServer c size fuel s = some (.ok file) := by
  induction fuel generalizing s with
  | zero => omega
  | succ fuel ih =>
    have hlen := data_length c.source s.pos size
    have hok : ¬ (fullServer.localFile s.calls = false ∨
        2 ^ 31 ≤ ((c.source.drop s.pos).take size).length) := by
      rw [not_or]
      exact ⟨by simp [fullServer], by omega⟩
    unfold toLoop
    simp only [hok, if_false]
    split_ifs with hdata
    · exact ⟨_, rfl⟩
    · rw [data_eq_nil] at hdata
      apply ih
      · show s.pos + _ ≤ _
        omega
      · show min size (_ - (s.pos + _)) < _
        omega
      · show _ - (s.pos + _) < fuel
        omega

/-! Blocks of which only the first byte is sure to be written. -/

variable {o : ℕ}

lemma aligned_add {j w : ℕ} (ho : o % w = 0) (hj : j < w) : (o + j) % w = j := by
  rw [Nat.add_mod, ho, Nat.zero_add, Nat.mod_mod, Nat.mod_eq_of_lt hj]

/-- All blocks are zero behind their first byte, and the last one has no more than that. -/
structure Sparse (source : Bytes) (w : ℕ) : Prop where
  zero : ∀ i, i % w ≠ 0 → source.getD i 0 = 0
  last : (source.length - 1) % w = 0

lemma splice_take {source : Bytes} {k : ℕ} (hk : k ≤ o) (ho : o ≤ source.length)
    (hzero : ∀ i, k ≤ i → i < o → source.getD i 0 = 0) (bytes : Bytes) :
    splice (source.take k) o bytes = source.take o ++ bytes := by
  have hlen : (source.take k).length = k := List.length_take_of_le (Nat.le_trans hk ho)
  have hhole : (source.drop k).take (o - k) = List.replicate (o - k) 0 := by
    rw [List.eq_replicate_iff, data_length]
    refine ⟨by omega, fun b hb => ?_⟩
    obtain ⟨j, hj, rfl⟩ := List.getElem_of_mem hb
    rw [data_length] at hj
    have := hzero (k + j) (by omega) (by omega)
    rw [List.getD_eq_getElem _ _ (by omega)] at this
    rw [List.getElem_take, List.getElem_drop]
    exact this
  have hsplit : source.take o = source.take k ++ List.replicate (o - k) 0 := by
    rw [← hhole, ← List.take_add, Nat.add_sub_cancel' hk]
  rw [splice, hlen, List.take_of_length_le (by omega), List.drop_eq_nil_of_le (by omega), hsplit,
    List.append_nil]

/-- Up to the position the file is the source, but for zeros at its end. -/
structure To.Padded (source : Bytes) (w : ℕ) (s : To) : Prop where
  le : s.pos ≤ source.length
  offset : s.offset = s.pos
  aligned : s.pos % w = 0 ∨ s.pos = source.length
  file : ∃ k ≤ s.pos, s.file = source.take k ∧
    (∀ i, k ≤ i → i < s.pos → source.getD i 0 = 0) ∧ (s.pos = source.length → k = s.pos)

lemma toLoop_sparse (hsize : size ≠ 0) (hsparse : Sparse c.source size)
    (hs : s.Padded c.source size) {file : Bytes} (h : toLoop srv c size fuel s = some (.ok file)) :
    file = c.source := by
  induction fuel generalizing s with
  | zero => simp [toLoop] at h
  | succ fuel ih =>
    obtain ⟨hle, hoffset, haligned, k, hk, hfile, hzero, hend⟩ := hs
    have hlen := data_length c.source s.pos size
    unfold toLoop at h
    simp only at h
    split_ifs at h with hfail hdata
    · simp at h
    · simp only [Option.some.injEq, Except.ok.injEq] at h
      have hpos := (data_eq_nil.mp hdata).resolve_left hsize
      rw [← h, hfile, hend (by omega), List.take_of_length_le hpos]
    · cases hw : srv.write s.calls with
      | fails error text => simp [hw] at h
      | serves written hwritten =>
        rw [data_eq_nil] at hdata
        have halign : s.pos % size = 0 := haligned.resolve_right (by omega)
        have hsplice := splice_take hk hle hzero (((c.source.drop s.pos).take size).take written)
        rw [List.take_take, take_append_data, data_length] at hsplice
        simp only [hw, hfile, hoffset, List.take_take, hsplice] at h
        refine ih ⟨?_, rfl, ?_, _, ?_, rfl, ?_, ?_⟩ h
        · show s.pos + _ ≤ _
          omega
        · show (s.pos + _) % size = 0 ∨ s.pos + _ = _
          rw [hlen]
          by_cases hfull : size ≤ c.source.length - s.pos
          · left
            rw [Nat.min_eq_left hfull, Nat.add_mod_right, halign]
          · right
            omega
        · show _ ≤ s.pos + _
          omega
        · intro i hik hi
          have hi' : i < s.pos + ((c.source.drop s.pos).take size).length := hi
          have hmod := aligned_add (j := i - s.pos) halign (by omega)
          rw [Nat.add_sub_cancel' (by omega)] at hmod
          exact hsparse.zero i (by omega)
        · intro hlast
          have hlast' : s.pos + ((c.source.drop s.pos).take size).length = c.source.length := hlast
          -- the last block has one byte
          have hmod := aligned_add (j := c.source.length - 1 - s.pos) halign (by omega)
          rw [Nat.add_sub_cancel' (by omega), hsparse.last] at hmod
          show s.pos + _ = s.pos + _
          omega

lemma splice_getD {file : Bytes} {i : ℕ} (ho : file.length ≤ o) (hi : i ≠ o) (b : UInt8) :
    (splice file o [b]).getD i 0 = file.getD i 0 := by
  have hsplice : splice file o [b] = file ++ (List.replicate (o - file.length) 0 ++ [b]) := by
    rw [splice, List.take_of_length_le ho, List.drop_eq_nil_of_le (by omega), List.append_nil,
      List.append_assoc]
  rw [hsplice]
  by_cases hlt : i < file.length
  · rw [List.getD_append _ _ _ _ hlt]
  · rw [List.getD_append_right _ _ _ _ (by omega), List.getD_eq_default file 0 (by omega)]
    by_cases hlo : i < o
    · rw [List.getD_append _ _ _ _ (by simp; omega), List.getD_replicate _ (by omega)]
    · rw [List.getD_eq_default]
      simp only [List.length_append, List.length_replicate, List.length_singleton]
      omega

structure To.FirstBytes (source : Bytes) (w : ℕ) (s : To) : Prop where
  le : s.pos ≤ source.length
  offset : s.offset = s.pos
  aligned : s.pos % w = 0 ∨ s.pos = source.length
  length : s.pos = 0 ∧ s.file.length = 0 ∨ ∃ b, b % w = 0 ∧ b < s.pos ∧ s.file.length = b + 1
  zero : ∀ i, i % w ≠ 0 → s.file.getD i 0 = 0

lemma toLoop_byteServer (hsize : size ≠ 0) (hs : s.FirstBytes c.source size)
    (hfits : min size (c.source.length - s.pos) < 2 ^ 31) (hfuel : c.source.length - s.pos < fuel) :
    ∃ file, toLoop byteServer c size fuel s = some (.ok file) ∧
      (file = c.source → Sparse c.source size) := by
  induction fuel generalizing s with
  | zero => omega
  | succ fuel ih =>
    obtain ⟨hle, hoffset, haligned, hlength, hzero⟩ := hs
    have hlen := data_length c.source s.pos size
    have hok : ¬ (byteServer.localFile s.calls = false ∨
        2 ^ 31 ≤ ((c.source.drop s.pos).take size).length) := by
      rw [not_or]
      exact ⟨by simp [byteServer], by omega⟩
    unfold toLoop
    simp only [hok, if_false]
    split_ifs with hdata
    · refine ⟨_, rfl, fun hfile => ⟨fun i hi => hfile ▸ hzero i hi, ?_⟩⟩
      have hpos := (data_eq_nil.mp hdata).resolve_left hsize
      have hfilelen := congrArg List.length hfile
      rcases hlength with ⟨hstart, -⟩ | ⟨b, hb, hlt, hblen⟩
      · have hnil : c.source.length - 1 = 0 := by omega
        rw [hnil, Nat.zero_mod]
      · have hblast : c.source.length - 1 = b := by omega
        rw [hblast, hb]
    · rw [data_eq_nil] at hdata
      have halign : s.pos % size = 0 := haligned.resolve_right (by omega)
      obtain ⟨x, hx⟩ : ∃ x, ((c.source.drop s.pos).take size).take 1 = [x] := by
        rw [← List.length_eq_one_iff, List.length_take]
        omega
      have hfile : s.file.length ≤ s.pos := by
        rcases hlength with ⟨-, h⟩ | ⟨b, -, hlt, h⟩ <;> omega
      clear hlength
      simp only [byteServer, hx]
      apply ih
      · refine ⟨?_, ?_, ?_, Or.inr ⟨s.pos, halign, ?_, ?_⟩, fun i hi => ?_⟩
        · show s.pos + _ ≤ _
          omega
        · show s.offset + _ = s.pos + _
          omega
        · show (s.pos + _) % size = 0 ∨ s.pos + _ = _
          rw [hlen]
          by_cases hfull : size ≤ c.source.length - s.pos
          · left
            rw [Nat.min_eq_left hfull, Nat.add_mod_right, halign]
          · right
            omega
        · show s.pos < s.pos + _
          omega
        · show (splice _ _ _).length = _
          rw [splice_length, List.length_singleton]
          omega
        · show (splice _ _ _).getD i 0 = 0
          have hne : i ≠ s.offset := by
            rintro rfl
            rw [hoffset] at hi
            exact hi halign
          rw [splice_getD (by omega) hne, hzero i hi]
      · show min size (_ - (s.pos + _)) < _
        omega
      · show _ - (s.pos + _) < fuel
        omega

end toServer

/-- When `copyTo` is right, whatever the server does. -/
def ToRight (env : ToEnv) (c : CopyCall) : Prop :=
  2 ^ 31 ≤ min c.writeSize c.source.length ∨
    c.writeSize = 0 ∧ c.start env.toRemoteEnv = c.source ∨
    c.resumed env.toRemoteEnv = none ∧ c.writeSize ≠ 0 ∧ Sparse c.source c.writeSize

/-- When it is right with a server that writes what it is given: a transfer that is resumed is
not. -/
def ToRightComplete (env : ToEnv) (c : CopyCall) : Prop :=
  2 ^ 31 ≤ min c.writeSize c.source.length ∨
    c.writeSize = 0 ∧ c.start env.toRemoteEnv = c.source ∨
    c.resumed env.toRemoteEnv = none ∧ c.writeSize ≠ 0

lemma copies_to_iff {env : ToEnv} {c : CopyCall} :
    Copies (fun srv fuel => copyTo srv fuel env c) srv c.source ↔
      (Accepted c (toChecks env c) env.rename → ∀ fuel file,
        toLoop srv c c.writeSize fuel (toStart env c) = some (.ok file) → file = c.source) :=
  copies_around_iff

lemma start_eq_nil {c : CopyCall} {env : RemoteEnv} : c.start env = [] ↔ c.resumed env = none := by
  unfold CopyCall.start
  cases hr : c.resumed env with
  | none => simp
  | some p =>
    unfold CopyCall.resumed at hr
    obtain ⟨-, hp⟩ := Option.filter_eq_some_iff.mp hr
    simp only [Bool.and_eq_true, decide_eq_true_eq] at hp
    simpa using List.length_pos_iff.mp hp.1.2

lemma toRightComplete_iff (env : ToEnv) (c : CopyCall) :
    (∀ srv : Server, srv.Complete → Copies (fun srv fuel => copyTo srv fuel env c) srv c.source) ↔
      (Accepted c (toChecks env c) env.rename → ToRightComplete env c) := by
  simp only [copies_to_iff]
  constructor
  · intro h ha
    by_cases hbig : 2 ^ 31 ≤ min c.writeSize c.source.length
    · exact Or.inl hbig
    obtain ⟨file, hloop⟩ := toLoop_full c.writeSize (s := toStart env c)
      (Nat.zero_le _) (Nat.not_le.mp hbig) (Nat.lt_succ_self _)
    have hsource := h fullServer fullServer_complete ha _ _ hloop
    by_cases hsize : c.writeSize = 0
    · rw [hsize] at hloop
      exact Or.inr (Or.inl ⟨hsize, (toLoop_zero hloop).symm.trans hsource⟩)
    · have hfile := toLoop_file hsize fullServer_complete (Nat.zero_le _) rfl hloop
      rw [hsource] at hfile
      have hnil : c.start env.toRemoteEnv = [] := List.self_eq_append_left.mp hfile
      exact Or.inr (Or.inr ⟨start_eq_nil.mp hnil, hsize⟩)
  · intro h srv hsrv ha fuel file hloop
    rcases h ha with hbig | ⟨hzero, heq⟩ | ⟨hnone, hsize⟩
    · exact absurd hloop (toLoop_overflow hbig)
    · rw [hzero] at hloop
      rw [toLoop_zero hloop]
      exact heq
    · have hfile := toLoop_file hsize hsrv (Nat.zero_le _) rfl hloop
      rw [hfile]
      show c.start env.toRemoteEnv ++ _ = _
      rw [start_eq_nil.mpr hnone]
      rfl

lemma toRight_iff (env : ToEnv) (c : CopyCall) :
    (∀ srv, Copies (fun srv fuel => copyTo srv fuel env c) srv c.source) ↔
      (Accepted c (toChecks env c) env.rename → ToRight env c) := by
  constructor
  · intro h ha
    rcases (toRightComplete_iff env c).mp (fun srv _ => h srv) ha with hbig | hzero | ⟨hnone, hsize⟩
    · exact Or.inl hbig
    · exact Or.inr (Or.inl hzero)
    · by_cases hbig : 2 ^ 31 ≤ min c.writeSize c.source.length
      · exact Or.inl hbig
      have hnil : (toStart env c).file = [] := start_eq_nil.mpr hnone
      have hoffset : (toStart env c).offset = (toStart env c).file.length := rfl
      obtain ⟨file, hloop, hsparse⟩ := toLoop_byteServer (c := c) (s := toStart env c) hsize
        ⟨Nat.zero_le _, by rw [hoffset, hnil]; rfl, Or.inl (Nat.zero_mod _),
          Or.inl ⟨rfl, by rw [hnil]; rfl⟩, fun i _ => by rw [hnil]; rfl⟩
        (Nat.not_le.mp hbig) (Nat.lt_succ_self _)
      have hsource := copies_to_iff.mp (h byteServer) ha _ _ hloop
      exact Or.inr (Or.inr ⟨hnone, hsize, hsparse hsource⟩)
  · intro h srv
    rw [copies_to_iff]
    intro ha fuel file hloop
    rcases h ha with hbig | ⟨hzero, heq⟩ | ⟨hnone, hsize, hsparse⟩
    · exact absurd hloop (toLoop_overflow hbig)
    · rw [hzero] at hloop
      rw [toLoop_zero hloop]
      exact heq
    · have hnil : (toStart env c).file = [] := start_eq_nil.mpr hnone
      have hoffset : (toStart env c).offset = (toStart env c).file.length := rfl
      refine toLoop_sparse hsize hsparse ⟨Nat.zero_le _, by rw [hoffset, hnil]; rfl,
        Or.inl (Nat.zero_mod _), 0, Nat.le_refl _, by rw [hnil, List.take_zero],
        fun i _ hi => absurd hi (Nat.not_lt_zero i), fun _ => rfl⟩ hloop

/-- Two bytes and a partial file with the first one, copied over a fresh connection. -/
def twoBytes : CopyCall where
  srcPath := "/e/a"
  destPath := "/e/b"
  source := [97, 98]
  dest := none
  part := some [97]
  part_prefix := by simp
  Overwrite := false
  MarkPartial := true
  canResume _ := true
  sizes := ⟨0, 0, 0⟩
  fsinfo := some ⟨65536, 65536, 65536⟩

/-- All calls around a loop succeed. -/
def plainRemote : RemoteEnv where
  parentExported := false
  lookupPart := true
  partAttributes := true
  getPart := .handle (.ofFH 2)
  create := .handle (.ofFH 3)
  remove := true
  rename := true

end KioExtras.Nfs
