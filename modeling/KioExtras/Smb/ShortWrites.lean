import KioExtras.Lib.Pieces
import KioExtras.Smb.CopyPut

/-!
Writes that take fewer bytes than they are given: `SMBWorker::put`, `SMBWorker::smbCopy` and
`SMBWorker::smbCopyPut` look only at whether a write has failed.

The loops of the first two are given by the turns they make: what is read, and how much of it is
written.
-/

namespace KioExtras.Smb.ShortWrites

open KioExtras.Kio KioExtras.Lib KioExtras.Lib.Run KioExtras.Lib.FileStore

/-- `errno` is what a stat that fails leaves there. -/
structure Env extends CopyPut.Env where
  errno : SMBUrl → Errno

/-- A chunk that was read, and what becomes of it: `none` for a write that fails, otherwise a
bound on what it takes. -/
structure Turn where
  data : List UInt8
  write : Option ℕ

/-- Why a loop stops: it sees the kill flag, or a read returns nothing. -/
inductive Stop
  | killed
  | read (n : ℤ)
  deriving DecidableEq

structure Outcome where
  result : WorkerResult
  killed : Bool
  remote : Store SMBUrl

/-- The turns of a loop; `false` for a write that fails, after which there is no other. -/
def writeAll : Store SMBUrl → Handle SMBUrl → List Turn → Option (Store SMBUrl × Bool)
  | remote, _, [] => some (remote, true)
  | remote, fd, turn :: turns =>
    if turn.data.isEmpty then none
    else match turn.write with
      | none => if turns.isEmpty then some (remote, false) else none
      | some n =>
        let (remote, fd) := remote.write fd (turn.data.take n)
        writeAll remote fd turns

def cache_stat (env : Env) (remote : Store SMBUrl) (url : SMBUrl) : Except Errno (Node SMBUrl) :=
  if env.stat url then
    match remote.stat url with
    | some st => .ok st
    | none => .error .ENOENT
  else .error (env.errno url)

/-- After the loop. -/
def close (env : Env) (url : SMBUrl) (killed : Bool) (remote : Store SMBUrl) : Outcome :=
  if env.smbc_close then ⟨.pass, killed, CopyPut.applyMTimeSMBC env.toEnv remote url⟩
  else ⟨.fail .ERR_CANNOT_WRITE url.toDisplayString, killed, remote⟩

/-! ### Putting -/

def beginPut (env : Env) (remote : Store SMBUrl) (url : SMBUrl) (permissions : ℤ)
    (flags : JobFlags) : Except WorkerResult (Store SMBUrl × Handle SMBUrl) :=
  let refused : Option WorkerResult :=
    match cache_stat env remote url with
    | .ok st =>
      if flags.Overwrite || flags.Resume then none
      else if st.kind.isDir then some (.fail .ERR_DIR_ALREADY_EXIST url.toDisplayString)
      else some (.fail .ERR_FILE_ALREADY_EXIST url.toDisplayString)
    | .error _ => none
  let cannot : WorkerResult := .fail .ERR_CANNOT_OPEN_FOR_WRITING url.toDisplayString
  match refused with
  | some result => .error result
  | none =>
    if flags.Resume then
      match env.smbc_open, remote.openExisting url with
      | none, some q =>
        -- the file is written from its start when it cannot be put at its end
        let offset := if env.smbc_lseek then ((remote.kindAt q).map Kind.size).getD 0 else 0
        .ok (remote, ⟨q, offset⟩)
      -- the seek has replaced the error of the opening
      | _, _ => .error cannot
    else
      let mode := if permissions = -1 then 0o600 else permissions.toNat ||| 0o600
      match env.smbc_open with
      | some .EACCES => .error (.fail .ERR_WRITE_ACCESS_DENIED url.toDisplayString)
      | some _ => .error cannot
      | none =>
        match remote.openTruncate url (env.fresh mode) with
        | none => .error cannot
        | some (q, remote) => .ok (remote, ⟨q, 0⟩)

def put (env : Env) (remote : Store SMBUrl) (url : SMBUrl) (permissions : ℤ) (flags : JobFlags)
    (turns : List Turn) (stop : Stop) : Option Outcome :=
  match beginPut env remote url permissions flags with
  | .error result => some ⟨result, false, remote⟩
  | .ok (remote, filefd) =>
    match writeAll remote filefd turns, stop with
    | none, _ => none
    | some (remote, false), _ =>
      some ⟨.fail .ERR_CANNOT_WRITE url.toDisplayString, false, remote⟩
    | some (remote, true), .killed => some (close env url true remote)
    | some (remote, true), .read n => if n ≤ 0 then some (close env url false remote) else none

/-! ### Copying on a server -/

def beginCopy (env : Env) (remote : Store SMBUrl) (src dst : SMBUrl) (permissions : ℤ)
    (flags : JobFlags) : Except WorkerResult (Store SMBUrl × Handle SMBUrl × ℕ) :=
  match cache_stat env remote src with
  | .error .EACCES => .error (.fail .ERR_ACCESS_DENIED src.toDisplayString)
  | .error _ => .error (.fail .ERR_DOES_NOT_EXIST src.toDisplayString)
  | .ok st =>
    if st.kind.isDir then .error (.fail .ERR_IS_DIRECTORY src.toDisplayString)
    else
      let refused : Option WorkerResult :=
        match cache_stat env remote dst with
        | .ok dstSt =>
          if dstSt.kind.isDir then some (.fail .ERR_DIR_ALREADY_EXIST dst.toDisplayString)
          else if flags.Overwrite then none
          else some (.fail .ERR_FILE_ALREADY_EXIST dst.toDisplayString)
        | .error _ => none
      match refused with
      | some result => .error result
      | none =>
        match env.openSource with
        | some true => .error (.fail .ERR_ACCESS_DENIED src.toDisplayString)
        | some false => .error (.fail .ERR_CANNOT_OPEN_FOR_READING src.toDisplayString)
        | none =>
          let initialmode := if permissions = -1 then 0o200 else permissions.toNat ||| 0o200
          let cannot : WorkerResult := .fail .ERR_CANNOT_OPEN_FOR_WRITING dst.toDisplayString
          match env.smbc_open with
          | some .EACCES => .error (.fail .ERR_WRITE_ACCESS_DENIED dst.toDisplayString)
          | some _ => .error cannot
          | none =>
            -- `O_EXCL`
            if !flags.Overwrite && (remote dst).isSome then .error cannot
            else match remote.openTruncate dst (env.fresh initialmode) with
              | none => .error cannot
              | some (q, remote) => .ok (remote, ⟨q, 0⟩, st.kind.size)

/-- The reads are those of the source, of at most a segment each. -/
def smbCopy (env : Env) (remote : Store SMBUrl) (src dst : SMBUrl) (permissions : ℤ)
    (flags : JobFlags) (turns : List Turn) (stop : Stop) : Option Outcome :=
  match beginCopy env remote src dst permissions flags with
  | .error result => some ⟨result, false, remote⟩
  | .ok (remote, dstfd, srcSize) =>
    if ∀ turn ∈ turns, turn.data.length ≤ (Transfer.segmentSizeForFileSize srcSize).toNat then
      match writeAll remote dstfd turns, stop with
      | none, _ => none
      | some (remote, false), _ =>
        some ⟨.fail .ERR_CANNOT_WRITE dst.toDisplayString, false, remote⟩
      | some (remote, true), .killed => some (close env dst true remote)
      | some (remote, true), .read n =>
        if n = 0 then some (close env dst false remote)
        else if n < 0 then some ⟨.fail .ERR_CANNOT_READ src.toDisplayString, false, remote⟩
        else none
    else none

/-! ### What is written -/

def Turn.written (turn : Turn) : List UInt8 := turn.data.take (turn.write.getD 0)

/-- What was read, and what was written of it. -/
def input (turns : List Turn) : List UInt8 := turns.flatMap Turn.data

def output (turns : List Turn) : List UInt8 := turns.flatMap Turn.written

def Unfailing (turns : List Turn) : Prop := ∀ turn ∈ turns, turn.write.isSome

def Whole (turns : List Turn) : Prop := ∀ turn ∈ turns, ∀ n, turn.write = some n →
  turn.data.length ≤ n

variable {fd : Handle SMBUrl} {remote' : Store SMBUrl}

variable {ok : Bool} {remote : Store SMBUrl} {env : Env} {flags : JobFlags} {permissions : ℤ}
  {old : List UInt8} {o : Outcome} {dst src : SMBUrl}

lemma writeAll_spec {turns : List Turn} (h : writeAll remote fd turns = some (remote', ok)) :
    (ok = true ↔ Unfailing turns) ∧ (∀ p, remote'.linkAt p = remote.linkAt p) ∧
      ∀ data, remote.kindAt fd.path = some (.file data) → fd.offset ≤ data.length →
        remote'.kindAt fd.path = some (.file (Store.splice data fd.offset (output turns))) := by
  induction turns generalizing remote fd with
  | nil =>
    obtain ⟨rfl, rfl⟩ := Prod.mk.inj (Option.some.inj h)
    refine ⟨by simp [Unfailing], fun _ => rfl, fun data hdata hle => ?_⟩
    rw [hdata, output, List.flatMap_nil, Store.splice_nil data _ hle]
  | cons turn turns ih =>
    unfold writeAll at h
    split at h
    · cases h
    · cases hw : turn.write with
      | none =>
        simp only [hw] at h
        split at h
        · next hlast =>
          obtain ⟨rfl, rfl⟩ := Prod.mk.inj (Option.some.inj h)
          obtain rfl := List.isEmpty_iff.mp hlast
          refine ⟨by simp [Unfailing, hw], fun _ => rfl, fun data hdata hle => ?_⟩
          simp [output, Turn.written, hw, hdata, hle]
        · cases h
      | some n =>
        simp only [hw] at h
        obtain ⟨hok, hlinks, hdata⟩ := ih h
        refine ⟨?_, fun p => (hlinks p).trans (Store.write_linkAt _ _ _ p),
          fun data hkind hle => ?_⟩
        · rw [hok]
          simp [Unfailing, hw]
        · have hout : output (turn :: turns) = turn.data.take n ++ output turns := by
            simp [output, Turn.written, hw]
          have hwrite : (remote.write fd (turn.data.take n)).1.kindAt fd.path =
              some (.file (Store.splice data fd.offset (turn.data.take n))) :=
            Store.setData_self hkind _
          have hlast := hdata _ hwrite (by
            simp only [Store.write, Store.splice, List.length_append, List.length_take]
            omega)
          rw [Store.write_path] at hlast
          rw [hlast, hout]
          exact congrArg (fun x => some (Kind.file x)) (Store.splice_splice _ _ _ _)

lemma output_eq_iff {turns : List Turn} (h : Unfailing turns) :
    output turns = input turns ↔ Whole turns := by
  have hpre : ∀ turn : Turn, turn.written <+: turn.data := fun turn => List.take_prefix _ _
  rw [output, input, Pieces.flatMap_prefix_iff hpre]
  apply forall₂_congr
  intro turn hmem
  obtain ⟨n, hn⟩ := Option.isSome_iff_exists.mp (h turn hmem)
  rw [Turn.written, hn, Option.getD_some, List.take_eq_self_iff]
  simp

lemma length_output_le (turns : List Turn) : (output turns).length ≤ (input turns).length := by
  have hpre : ∀ turn : Turn, turn.written <+: turn.data := fun turn => List.take_prefix _ _
  exact Pieces.length_flatMap_le hpre turns

lemma close_content {url : SMBUrl} {killed : Bool} (p : SMBUrl) :
    (close env url killed remote).remote.content p = remote.content p := by
  unfold close
  split
  · exact Store.content_congr (CopyPut.applyMTimeSMBC_kindAt _ _) p
  · rfl

/-! ### The promises -/

/-- What is in the file at the end: what was there and is kept, and all that was read. -/
def Stored (url : SMBUrl) (old : List UInt8) (turns : List Turn) (o : Outcome) : Prop :=
  o.result.success = true → o.killed = false → o.remote.content url = some (old ++ input turns)

/-- The promise about putting data; the data must have come to its end as well. -/
def PutRight (remote : Store SMBUrl) (url : SMBUrl) (flags : JobFlags) (turns : List Turn)
    (stop : Stop) (o : Outcome) : Prop :=
  Stored url (if flags.Resume then (remote.content url).getD [] else []) turns o ∧
    (o.result.success = true → o.killed = false → stop = .read 0)

/-- A URL leads to a file or to nothing. -/
def Plain (remote : Store SMBUrl) (url : SMBUrl) : Prop :=
  ∀ q, remote.target url = some q →
    remote.kindAt q = none ∨ ∃ data, remote.kindAt q = some (.file data)

/-- Nothing is refused before the loop, and nothing fails or is killed from then on. -/
structure PutPasses (env : Env) (remote : Store SMBUrl) (url : SMBUrl) (permissions : ℤ)
    (flags : JobFlags) (turns : List Turn) (stop : Stop) : Prop where
  begins : ∃ begun, beginPut env remote url permissions flags = .ok begun
  unfailing : Unfailing turns
  closes : env.smbc_close = true
  stops : stop ≠ .killed

/-- The file is written behind its end, or there is nothing to tell that from its start. -/
def Appends (env : Env) (remote : Store SMBUrl) (url : SMBUrl) (turns : List Turn) : Prop :=
  env.smbc_lseek = true ∨ (remote.content url).getD [] = [] ∨ input turns = []

lemma openTruncate_empty {url q : SMBUrl} {fresh : Attrs} (hplain : Plain remote url)
    (h : remote.openTruncate url fresh = some (q, remote')) :
    remote'.target url = some q ∧ remote'.kindAt q = some (.file []) := by
  obtain ⟨htarget, -, -, hframe⟩ := Store.openTruncate_some h
  have hlinks : ∀ p, remote'.linkAt p = remote.linkAt p := by
    intro p
    by_cases hp : p = q
    · rw [hp, Store.openTruncate_linkAt h, Store.target_linkAt htarget]
    · exact Store.linkAt_of_kindAt (Store.kindAt_of_eq (hframe p hp))
  obtain ⟨t, ht, ⟨hkind, -⟩, -⟩ := Store.openTruncate_atEnd fresh htarget (hplain q htarget)
  obtain ⟨-, rfl⟩ := Prod.mk.inj (Option.some.inj (h.symm.trans ht))
  exact ⟨(Store.target_congr hlinks url).trans htarget, hkind⟩

lemma beginPut_ok {url : SMBUrl} (hplain : Plain remote url)
    (h : beginPut env remote url permissions flags = .ok (remote', fd)) :
    remote'.target url = some fd.path ∧
      ((flags.Resume = false ∧ remote'.kindAt fd.path = some (.file []) ∧ fd.offset = 0) ∨
        flags.Resume = true ∧ ∃ old, remote.content url = some old ∧
          remote'.kindAt fd.path = some (.file old) ∧
          fd.offset = if env.smbc_lseek then old.length else 0) := by
  unfold beginPut at h
  dsimp only at h
  split at h
  · cases h
  · cases hR : flags.Resume with
    | true =>
      simp only [hR, if_true] at h
      split at h
      · next q _ hopen =>
        simp only [Except.ok.injEq, Prod.mk.injEq] at h
        obtain ⟨rfl, rfl⟩ := h
        obtain ⟨htarget, k, hk, -⟩ := Store.openExisting_eq_some.mp hopen
        obtain ⟨old, hold⟩ : ∃ data, remote.kindAt q = some (.file data) := by
          rcases hplain q htarget with hnone | hfile
          · rw [hnone] at hk
            cases hk
          · exact hfile
        refine ⟨htarget, Or.inr ⟨rfl, old, Store.content_of_target htarget hold, hold, ?_⟩⟩
        simp [hold, Kind.size]
      · cases h
    | false =>
      simp only [hR, Bool.false_eq_true, if_false] at h
      split at h
      · cases h
      · cases h
      · split at h
        · cases h
        · next q t hopen =>
          simp only [Except.ok.injEq, Prod.mk.injEq] at h
          obtain ⟨rfl, rfl⟩ := h
          obtain ⟨htarget, hkind⟩ := openTruncate_empty hplain hopen
          exact ⟨htarget, Or.inl ⟨rfl, hkind, rfl⟩⟩

lemma beginPut_error {url : SMBUrl} {result : WorkerResult}
    (h : beginPut env remote url permissions flags = .error result) : result.success = false := by
  unfold beginPut at h
  dsimp only at h
  split at h
  · next hrefused =>
    obtain rfl := Except.error.inj h
    split at hrefused
    · split_ifs at hrefused
      · exact Option.some.inj hrefused ▸ rfl
      · exact Option.some.inj hrefused ▸ rfl
    · cases hrefused
  · split at h
    · split at h
      · cases h
      · exact Except.error.inj h ▸ rfl
    · split at h
      · exact Except.error.inj h ▸ rfl
      · exact Except.error.inj h ▸ rfl
      · split at h
        · exact Except.error.inj h ▸ rfl
        · cases h

/-- Writing over the start of what should be kept gives what should come out only if there is
nothing to keep or nothing to write. -/
lemma splice_start_iff {out data : List UInt8} (hle : out.length ≤ data.length) :
    Store.splice old 0 out = old ++ data ↔ out = data ∧ (old = [] ∨ data = []) := by
  have hsplice : Store.splice old 0 out = out ++ old.drop out.length := by simp [Store.splice]
  rw [hsplice]
  constructor
  · intro heq
    have hlength := congrArg List.length heq
    rw [List.length_append, List.length_append, List.length_drop] at hlength
    by_cases hlt : out.length < old.length
    · have hdata : data = [] := List.length_eq_zero_iff.mp (by omega)
      have hout : out = [] := List.length_eq_zero_iff.mp (by rw [hdata] at hle; simpa using hle)
      exact ⟨hout.trans hdata.symm, Or.inr hdata⟩
    · have hold : old = [] := List.length_eq_zero_iff.mp (by omega)
      subst hold
      exact ⟨by simpa using heq, Or.inl rfl⟩
  · rintro ⟨rfl, rfl | rfl⟩
    · simp
    · simp

lemma content_writeAll {url : SMBUrl} {turns : List Turn} {data : List UInt8}
    (h : writeAll remote fd turns = some (remote', ok)) (htarget : remote.target url = some fd.path)
    (hdata : remote.kindAt fd.path = some (.file data)) (hle : fd.offset ≤ data.length) :
    remote'.content url = some (Store.splice data fd.offset (output turns)) := by
  obtain ⟨-, hlinks, hkind⟩ := writeAll_spec h
  have htarget' := (Store.target_congr hlinks url).trans htarget
  exact Store.content_of_target htarget' (hkind data hdata hle)

lemma close_stored_iff {url : SMBUrl} {turns : List Turn} (hcloses : env.smbc_close = true) :
    Stored url old turns (close env url false remote) ↔
      remote.content url = some (old ++ input turns) := by
  have hresult : (close env url false remote).result.success = true := by
    rw [close, if_pos hcloses]
    rfl
  have hkilled : (close env url false remote).killed = false := by
    rw [close, if_pos hcloses]
  unfold Stored
  rw [close_content]
  exact ⟨fun h => h hresult hkilled, fun h _ _ => h⟩

/-- **Putting** keeps its promise just if the data comes to its end, all of it is taken, and it is
written behind what is kept. -/
lemma put_right_iff {url : SMBUrl} {turns : List Turn} {stop : Stop} (hplain : Plain remote url)
    (h : put env remote url permissions flags turns stop = some o) :
    PutRight remote url flags turns stop o ↔
      (PutPasses env remote url permissions flags turns stop → stop = .read 0 ∧ Whole turns ∧
        (flags.Resume = true → Appends env remote url turns)) := by
  have hrefused : (o.result.success = true → o.killed = false → False) →
      ¬ PutPasses env remote url permissions flags turns stop →
      (PutRight remote url flags turns stop o ↔
        (PutPasses env remote url permissions flags turns stop → stop = .read 0 ∧ Whole turns ∧
          (flags.Resume = true → Appends env remote url turns))) := by
    intro hnever hnot
    exact iff_of_true ⟨fun h1 h2 => (hnever h1 h2).elim, fun h1 h2 => (hnever h1 h2).elim⟩
      fun h => absurd h hnot
  unfold put at h
  cases hbegin : beginPut env remote url permissions flags with
  | error result =>
    simp only [hbegin, Option.some.injEq] at h
    subst h
    refine hrefused (fun hsuccess _ => ?_) fun hpasses => ?_
    · simp [beginPut_error hbegin] at hsuccess
    · obtain ⟨begun, hbegun⟩ := hpasses.begins
      rw [hbegin] at hbegun
      cases hbegun
  | ok begun =>
    obtain ⟨remote₁, fd⟩ := begun
    obtain ⟨htarget, hopened⟩ := beginPut_ok hplain hbegin
    simp only [hbegin] at h
    rcases hall : writeAll remote₁ fd turns with _ | ⟨remote₂, ok⟩
    · simp [hall] at h
    have hok := (writeAll_spec hall).1
    cases ok with
    | false =>
      simp only [hall, Option.some.injEq] at h
      subst h
      refine hrefused (fun hsuccess _ => ?_) fun hpasses => ?_
      · simp at hsuccess
      · simpa using hok.mpr hpasses.unfailing
    | true =>
      have hunfailing := hok.mp rfl
      cases stop with
      | killed =>
        simp only [hall, Option.some.injEq] at h
        subst h
        refine hrefused (fun _ hkilled => ?_) fun hpasses => hpasses.stops rfl
        unfold close at hkilled
        split at hkilled <;> cases hkilled
      | read n =>
        simp only [hall] at h
        split at h
        case isFalse => cases h
        obtain rfl := Option.some.inj h
        cases hcloses : env.smbc_close with
        | false =>
          refine hrefused (fun hsuccess _ => ?_) fun hpasses => ?_
          · simp [close, hcloses] at hsuccess
          · simpa [hcloses] using hpasses.closes
        | true =>
          have hpasses : PutPasses env remote url permissions flags turns (.read n) :=
            ⟨⟨_, hbegin⟩, hunfailing, hcloses, by simp⟩
          have hfile : remote₂.content url =
              some ((if flags.Resume then (remote.content url).getD [] else []) ++ input turns) ↔
                Whole turns ∧ (flags.Resume = true → Appends env remote url turns) := by
            rcases hopened with ⟨hR, hkind, hoff⟩ | ⟨hR, old, hold, hkind, hoff⟩
            · rw [content_writeAll hall htarget hkind (by omega), hoff, hR, Option.some.injEq,
                ← output_eq_iff hunfailing]
              simp [Store.splice]
            · have hle : fd.offset ≤ old.length := by
                rw [hoff]
                split <;> omega
              rw [content_writeAll hall htarget hkind hle, hoff, hR, if_pos rfl, hold,
                Option.getD_some, Option.some.injEq, ← output_eq_iff hunfailing]
              cases hseek : env.smbc_lseek with
              | true =>
                rw [if_pos rfl, Store.splice_end, List.append_cancel_left_eq]
                simp [Appends, hseek]
              | false =>
                rw [if_neg (by decide), splice_start_iff (length_output_le turns)]
                simp [Appends, hseek, hold]
          have hstored : ∀ old, Stored url old turns (close env url false remote₂) ↔
              remote₂.content url = some (old ++ input turns) := fun _ => close_stored_iff hcloses
          rw [PutRight, hstored, hfile]
          constructor
          · rintro ⟨⟨hwhole, happ⟩, hstop⟩ -
            refine ⟨hstop ?_ ?_, hwhole, happ⟩
            · rw [close, if_pos hcloses]
              rfl
            · rw [close, if_pos hcloses]
          · intro hall
            obtain ⟨hstop, hwhole, happ⟩ := hall hpasses
            exact ⟨⟨hwhole, happ⟩, fun _ _ => hstop⟩

/-! ### Copying on a server -/

/-- The promise about copies on a server. -/
def CopyRight (dst : SMBUrl) (turns : List Turn) (o : Outcome) : Prop := Stored dst [] turns o

structure CopyPasses (env : Env) (remote : Store SMBUrl) (src dst : SMBUrl) (permissions : ℤ)
    (flags : JobFlags) (turns : List Turn) (stop : Stop) : Prop where
  begins : ∃ begun, beginCopy env remote src dst permissions flags = .ok begun
  unfailing : Unfailing turns
  closes : env.smbc_close = true
  stops : stop = .read 0

lemma beginCopy_ok {size : ℕ} (hplain : Plain remote dst)
    (h : beginCopy env remote src dst permissions flags = .ok (remote', fd, size)) :
    remote'.target dst = some fd.path ∧ remote'.kindAt fd.path = some (.file []) ∧
      fd.offset = 0 := by
  unfold beginCopy at h
  dsimp only at h
  split at h
  · cases h
  · cases h
  · split at h
    · cases h
    · split at h
      · cases h
      · split at h
        · cases h
        · cases h
        · split at h
          · cases h
          · cases h
          · split at h
            · cases h
            · split at h
              · cases h
              · next q t hopen =>
                simp only [Except.ok.injEq, Prod.mk.injEq] at h
                obtain ⟨rfl, rfl, -⟩ := h
                obtain ⟨htarget, hkind⟩ := openTruncate_empty hplain hopen
                exact ⟨htarget, hkind, rfl⟩

lemma beginCopy_error {result : WorkerResult}
    (h : beginCopy env remote src dst permissions flags = .error result) :
    result.success = false := by
  unfold beginCopy at h
  dsimp only at h
  split at h
  · exact Except.error.inj h ▸ rfl
  · exact Except.error.inj h ▸ rfl
  · split at h
    · exact Except.error.inj h ▸ rfl
    · split at h
      · next hrefused =>
        obtain rfl := Except.error.inj h
        split at hrefused
        · split_ifs at hrefused
          · exact Option.some.inj hrefused ▸ rfl
          · exact Option.some.inj hrefused ▸ rfl
        · cases hrefused
      · split at h
        · exact Except.error.inj h ▸ rfl
        · exact Except.error.inj h ▸ rfl
        · split at h
          · exact Except.error.inj h ▸ rfl
          · exact Except.error.inj h ▸ rfl
          · split at h
            · exact Except.error.inj h ▸ rfl
            · split at h
              · exact Except.error.inj h ▸ rfl
              · cases h

/-- **A copy on a server** keeps its promise just if all that is read is taken. -/
lemma copy_right_iff {turns : List Turn} {stop : Stop} (hplain : Plain remote dst)
    (h : smbCopy env remote src dst permissions flags turns stop = some o) :
    CopyRight dst turns o ↔
      (CopyPasses env remote src dst permissions flags turns stop → Whole turns) := by
  have hrefused : (o.result.success = true → o.killed = false → False) →
      ¬ CopyPasses env remote src dst permissions flags turns stop →
      (CopyRight dst turns o ↔
        (CopyPasses env remote src dst permissions flags turns stop → Whole turns)) := by
    intro hnever hnot
    exact iff_of_true (fun h1 h2 => (hnever h1 h2).elim) fun h => absurd h hnot
  unfold smbCopy at h
  cases hbegin : beginCopy env remote src dst permissions flags with
  | error result =>
    simp only [hbegin, Option.some.injEq] at h
    subst h
    refine hrefused (fun hsuccess _ => ?_) fun hpasses => ?_
    · simp [beginCopy_error hbegin] at hsuccess
    · obtain ⟨begun, hbegun⟩ := hpasses.begins
      rw [hbegin] at hbegun
      cases hbegun
  | ok begun =>
    obtain ⟨remote₁, fd, size⟩ := begun
    obtain ⟨htarget, hkind, hoff⟩ := beginCopy_ok hplain hbegin
    simp only [hbegin] at h
    split at h
    case isFalse => cases h
    rcases hall : writeAll remote₁ fd turns with _ | ⟨remote₂, ok⟩
    · simp [hall] at h
    have hok := (writeAll_spec hall).1
    cases ok with
    | false =>
      simp only [hall, Option.some.injEq] at h
      subst h
      refine hrefused (fun hsuccess _ => ?_) fun hpasses => ?_
      · simp at hsuccess
      · simpa using hok.mpr hpasses.unfailing
    | true =>
      have hunfailing := hok.mp rfl
      cases stop with
      | killed =>
        simp only [hall, Option.some.injEq] at h
        subst h
        refine hrefused (fun _ hkilled => ?_) fun hpasses => by cases hpasses.stops
        unfold close at hkilled
        split at hkilled <;> cases hkilled
      | read n =>
        simp only [hall] at h
        split_ifs at h with hzero hneg
        · subst hzero
          obtain rfl := Option.some.inj h
          cases hcloses : env.smbc_close with
          | false =>
            refine hrefused (fun hsuccess _ => ?_) fun hpasses => ?_
            · simp [close, hcloses] at hsuccess
            · simpa [hcloses] using hpasses.closes
          | true =>
            have hpasses : CopyPasses env remote src dst permissions flags turns (.read 0) :=
              ⟨⟨_, hbegin⟩, hunfailing, hcloses, rfl⟩
            rw [CopyRight, close_stored_iff hcloses, content_writeAll hall htarget hkind (by omega),
              hoff, Option.some.injEq, List.nil_append, ← output_eq_iff hunfailing]
            simp [Store.splice, hpasses]
        · obtain rfl := Option.some.inj h
          refine hrefused (fun hsuccess _ => ?_) fun hpasses => ?_
          · simp at hsuccess
          · exact hzero (Stop.read.inj hpasses.stops)

/-! ### Copying a local file -/

section

open CopyPut (Pc)

variable {env : CopyPut.Env} {job job' : CopyPut.Job} {c c' : CopyPut.Loop} {l : CopyPut.Label}
  {old : List UInt8} {q : SMBUrl}

/-- A step whose write, if it is one, takes all it is given. -/
def WholeStep : CopyPut.Phase → CopyPut.Label → Prop
  | .running _ c, .write (some n) => c.pc.unwritten.length ≤ n
  | _, _ => True

instance : ∀ p l, Decidable (WholeStep p l)
  | .running _ c, .write (some n) => inferInstanceAs (Decidable (c.pc.unwritten.length ≤ n))
  | .running _ _, .write none | .running _ _, .kill | .running _ _, .poll => .isTrue trivial
  | .running _ _, .read _ | .running _ _, .conclude | .returned _, _ => .isTrue trivial

/-- The loop writes behind `old`, and has read the source up to its position. -/
structure Behind (old : List UInt8) (q : SMBUrl) (job : CopyPut.Job) (c : CopyPut.Loop) :
    Prop where
  named : c.dstfd.path = q
  position : old.length ≤ c.position
  position_le : c.position ≤ max old.length job.content.length
  ended : c.pc = .close → c.result.success = true → c.killed = false →
    job.content.length ≤ c.position

/-- All that was read is in the file, or is to be written. -/
def Tight (old : List UInt8) (job : CopyPut.Job) (c : CopyPut.Loop) : Prop :=
  ∃ data, c.remote.AtEnd c.dstfd data ∧ data ++ c.pc.unwritten =
    old ++ (job.content.drop old.length).take (c.position - old.length)

/-- Something that was read is neither. -/
def Lost (c : CopyPut.Loop) : Prop :=
  ∃ data, c.remote.AtEnd c.dstfd data ∧ data.length + c.pc.unwritten.length < c.position

/-- What a step of the loop can be, as long as no call fails. -/
inductive Move (job : CopyPut.Job) (c : CopyPut.Loop) : CopyPut.Label → CopyPut.Loop → Prop
  | kill : Move job c .kill { c with killed := true }
  | poll (pc : c.pc = .poll) :
      Move job c .poll { c with pc := if c.killed then .close else .read }
  | end_ (n : Option ℕ) (pc : c.pc = .read) (unread : job.content.drop c.position = []) :
      Move job c (.read n) { c with pc := .close }
  | read (n : Option ℕ) (bytes : List UInt8) (pc : c.pc = .read) (ne : bytes ≠ [])
      (next : bytes <+: job.content.drop c.position) :
      Move job c (.read n) { c with position := c.position + bytes.length, pc := .write bytes }
  | write (n : ℕ) (bytes : List UInt8) (pc : c.pc = .write bytes) :
      Move job c (.write (some n)) { c with
        remote := (c.remote.write c.dstfd (bytes.take n)).1
        dstfd := (c.remote.write c.dstfd (bytes.take n)).2
        processed_size := c.processed_size + (bytes.take n).length
        pc := .poll }

lemma move_of_step (h : CopyPut.step env (.running job c) l = some (.running job' c'))
    (hresult : c'.result.success = true) : job' = job ∧ Move job c l c' := by
  have hcalls := CopyPut.step_result h
  rw [hresult] at hcalls
  simp only [Bool.true_eq, Bool.and_eq_true, decide_eq_true_eq] at hcalls
  obtain ⟨-, hread, hwrite⟩ := hcalls
  obtain ⟨rfl, heffect⟩ := CopyPut.step_running h
  refine ⟨rfl, ?_⟩
  cases heffect with
  | kill _ => exact .kill
  | poll hpc => exact .poll hpc
  | unread _ => exact absurd rfl hread
  | end_ n hpc hnil => exact .end_ _ hpc hnil
  | read n bytes hpc hne hnext => exact .read _ bytes hpc hne hnext
  | unwritten _ _ => exact absurd rfl hwrite
  | write n bytes hpc => exact .write n bytes hpc

lemma Behind.move (h : Behind old q job c) (hm : Move job c l c') : Behind old q job c' := by
  cases hm with
  | kill => exact ⟨h.named, h.position, h.position_le, by simp⟩
  | poll hpc =>
    refine ⟨h.named, h.position, h.position_le, fun hclose _ hkilled => ?_⟩
    simp [show c.killed = false from hkilled] at hclose
  | end_ n hpc hnil =>
    exact ⟨h.named, h.position, h.position_le, fun _ _ _ => List.drop_eq_nil_iff.mp hnil⟩
  | read n bytes hpc hne hprefix =>
    have hle := hprefix.length_le
    have hpos := List.length_pos_of_ne_nil hne
    rw [List.length_drop] at hle
    have := h.position
    exact ⟨h.named, by dsimp only; omega, by dsimp only; omega, by simp⟩
  | write n bytes hpc => exact ⟨h.named, h.position, h.position_le, by simp⟩

lemma Tight.move (h : Tight old job c) (hb : Behind old q job c) (hm : Move job c l c')
    (hwhole : WholeStep (.running job c) l) : Tight old job c' := by
  obtain ⟨data, hend, hdata⟩ := h
  cases hm with
  | kill => exact ⟨data, hend, hdata⟩
  | poll hpc =>
    refine ⟨data, hend, ?_⟩
    rw [hpc] at hdata
    cases hkilled : c.killed <;> simpa [Pc.unwritten, hkilled] using hdata
  | end_ n hpc hnil =>
    rw [hpc] at hdata
    exact ⟨data, hend, hdata⟩
  | read n bytes hpc hne hprefix =>
    have hposition := hb.position
    refine ⟨data, hend, ?_⟩
    have hnone : Pc.read.unwritten = [] := rfl
    rw [hpc, hnone, List.append_nil] at hdata
    have hsplit : c.position + bytes.length - old.length =
        c.position - old.length + bytes.length := by omega
    have hnext : (job.content.drop old.length).drop (c.position - old.length) =
        job.content.drop c.position := by
      rw [List.drop_drop]
      congr 1
      omega
    rw [Pc.unwritten, hdata, hsplit, List.take_add, hnext, ← List.prefix_iff_eq_take.mp hprefix,
      List.append_assoc]
  | write n bytes hpc =>
    have hle : bytes.length ≤ n := by
      have hle : c.pc.unwritten.length ≤ n := hwhole
      rwa [hpc, Pc.unwritten] at hle
    rw [hpc, Pc.unwritten] at hdata
    refine ⟨data ++ bytes, ?_, by simpa [Pc.unwritten] using hdata⟩
    simpa [List.take_of_length_le hle] using hend.write (bytes.take n)

lemma Tight.short (h : Tight old job c) (hb : Behind old q job c) (hm : Move job c l c')
    (hshort : ¬ WholeStep (.running job c) l) : Lost c' := by
  obtain ⟨data, hend, hdata⟩ := h
  cases hm with
  | write n bytes hpc =>
    have hlt : n < bytes.length := by
      have hnot : ¬ c.pc.unwritten.length ≤ n := hshort
      rw [hpc, Pc.unwritten] at hnot
      omega
    refine ⟨data ++ bytes.take n, hend.write _, ?_⟩
    have hlength := congrArg List.length hdata
    rw [hpc, Pc.unwritten, List.length_append, List.length_append, List.length_take,
      List.length_drop] at hlength
    have := hb.position
    simp only [Pc.unwritten, List.length_append, List.length_take, List.length_nil]
    omega
  | _ => exact absurd trivial hshort

lemma Lost.move (h : Lost c) (hm : Move job c l c') : Lost c' := by
  obtain ⟨data, hend, hlt⟩ := h
  cases hm with
  | kill => exact ⟨data, hend, hlt⟩
  | poll hpc =>
    refine ⟨data, hend, ?_⟩
    rw [hpc] at hlt
    cases hkilled : c.killed <;> simpa [Pc.unwritten, hkilled] using hlt
  | end_ n hpc hnil =>
    rw [hpc] at hlt
    exact ⟨data, hend, hlt⟩
  | read n bytes hpc hne hprefix =>
    have hnone : Pc.read.unwritten = [] := rfl
    rw [hpc, hnone, List.length_nil] at hlt
    refine ⟨data, hend, ?_⟩
    simp only [Pc.unwritten]
    omega
  | write n bytes hpc =>
    rw [hpc, Pc.unwritten] at hlt
    refine ⟨data ++ bytes.take n, hend.write _, ?_⟩
    simp only [Pc.unwritten, List.length_append, List.length_take, List.length_nil]
    omega

variable {ls : List CopyPut.Label} {resume : Resume.TransferContext} {t : Store SMBUrl}

lemma result_of_run (h : run (CopyPut.step env) (.running job c) ls = some (.running job' c'))
    (hresult : c'.result.success = true) : c.result.success = true := by
  induction ls generalizing c with
  | nil =>
    cases Option.some.inj h
    exact hresult
  | cons l ls ih =>
    obtain ⟨p, hstep, hrest⟩ := run_cons_some _ h
    cases p with
    | returned left => cases CopyPut.run_returned hrest
    | running job₁ c₁ =>
      obtain ⟨rfl, -⟩ := CopyPut.step_running hstep
      have hsuccess := ih hrest
      rw [CopyPut.step_result hstep, Bool.and_eq_true] at hsuccess
      exact hsuccess.1

/-- **A run of the loop without an error** has all that was read in the file just if each of its
writes took all it was given. -/
lemma run_cases (hb : Behind old q job c)
    (h : run (CopyPut.step env) (.running job c) ls = some (.running job' c'))
    (hresult : c'.result.success = true) :
    job' = job ∧ Behind old q job c' ∧
      (Tight old job c → AllSteps (CopyPut.step env) WholeStep (.running job c) ls →
        Tight old job c') ∧
      (Tight old job c → ¬ AllSteps (CopyPut.step env) WholeStep (.running job c) ls → Lost c') ∧
      (Lost c → Lost c') := by
  induction ls generalizing c with
  | nil =>
    cases Option.some.inj h
    exact ⟨rfl, hb, fun htight _ => htight, fun _ hnot => absurd trivial hnot, id⟩
  | cons l ls ih =>
    obtain ⟨p, hstep, hrest⟩ := run_cons_some _ h
    cases p with
    | returned left => cases CopyPut.run_returned hrest
    | running job₁ c₁ =>
      obtain ⟨rfl, hmove⟩ := move_of_step hstep (by
        obtain ⟨rfl, -⟩ := CopyPut.step_running hstep
        exact result_of_run hrest hresult)
      obtain ⟨hjob, hb', htight, hshort, hlost⟩ := ih (hb.move hmove) hrest
      refine ⟨hjob, hb', fun ht hall => ?_, fun ht hnot => ?_, fun hl => hlost (hl.move hmove)⟩
      · exact htight (ht.move hb hmove hall.1) (hall.2 _ hstep)
      · by_cases hfirst : WholeStep (.running job₁ c) l
        · exact hshort (ht.move hb hmove hfirst) fun hall =>
            hnot (allSteps_cons hstep hfirst hall)
        · exact hlost (ht.short hb hmove hfirst)

lemma openDestination_offset {remote : Store SMBUrl} {permissions : ℤ} {fd : Handle SMBUrl} {n : ℕ}
    (h : CopyPut.openDestination env remote resume permissions = .ok (t, fd, n)) :
    n = fd.offset := by
  unfold CopyPut.openDestination at h
  dsimp only at h
  split at h
  · cases h
  · cases h
  · split_ifs at h
    · simp only [Except.ok.injEq, Prod.mk.injEq] at h
      obtain ⟨-, rfl, rfl⟩ := h
      rfl
    · simp only [Except.ok.injEq, Prod.mk.injEq] at h
      obtain ⟨-, rfl, rfl⟩ := h
      rfl

variable {disk : Store String} {remote : Store SMBUrl} {ksrc kdst : SMBUrl} {permissions : ℤ}
  {flags : JobFlags}

lemma start_tight (h : CopyPut.start env disk remote ksrc kdst permissions flags = .running job c)
    (hresult : c.result.success = true) (hold : c.remote.AtEnd c.dstfd old) :
    Behind old c.dstfd.path job c ∧ Tight old job c := by
  have hstarted := CopyPut.start_running h
  rcases hstarted.sought with ⟨-, -, hpc, hposition⟩ | ⟨-, hfail⟩
  · have hp : c.position = old.length := by
      rw [hposition, openDestination_offset hstarted.opened, hold.2]
    refine ⟨⟨rfl, by omega, by omega, by simp [hpc]⟩, old, hold, ?_⟩
    have hnone : Pc.poll.unwritten = [] := rfl
    rw [hpc, hnone, hp, Nat.sub_self, List.take_zero]
  · rw [hfail] at hresult
    cases hresult

lemma conclude_success (io : Resume.ResumeIO SMBUrl) (keep : ℕ) (store : Store SMBUrl)
    (resume : Resume.TransferContext) {result : WorkerResult}
    (h : (Resume.concludeResumeHasError io keep store result resume).result.success = true) :
    result.success = true := by
  cases hresult : result with
  | pass => rfl
  | fail error text =>
    rw [hresult] at h
    unfold Resume.concludeResumeHasError at h
    split at h
    · cases h
    · split at h
      · split at h <;> cases h
      · next hnot => exact absurd rfl hnot

lemma finish_success (h : (CopyPut.finish env job c).result.success = true) :
    env.smbc_close = true ∧ c.result.success = true := by
  unfold CopyPut.finish at h
  cases hclose : env.smbc_close with
  | false =>
    simp [hclose] at h
  | true =>
    simp only [hclose, Bool.not_true, Bool.false_eq_true, if_false] at h
    refine ⟨rfl, conclude_success (Resume.SMBResumeIO env.calls) env.DEFAULT_MINIMUM_KEEP_SIZE
      c.remote job.resume ?_⟩
    split at h
    · exact h
    · exact h

lemma rename_kindAt {s : Store SMBUrl} {p q : SMBUrl} (hne : p ≠ q) (h : s.rename p q = some t) :
    t.kindAt q = s.kindAt p := by
  unfold Store.rename at h
  cases hp : s p with
  | none => simp [hp] at h
  | some n =>
    simp only [hp, if_neg hne] at h
    cases hq : s q with
    | none =>
      simp only [hq, Option.some.injEq] at h
      simp [← h, Store.kindAt, hp]
    | some m =>
      simp only [hq] at h
      split_ifs at h
      simp only [Option.some.injEq] at h
      simp [← h, Store.kindAt, hp]

lemma finish_kindAt (hpart : job.resume.destination = job.resume.completeDestination ∨
      job.resume.partDestination = job.resume.destination)
    (h : (CopyPut.finish env job c).result.success = true) :
    (CopyPut.finish env job c).store.kindAt job.resume.completeDestination =
      c.remote.kindAt job.resume.destination := by
  obtain ⟨hclose, hresult⟩ := finish_success h
  have hpass : c.result = .pass := by
    cases hc : c.result with
    | pass => rfl
    | fail error text => simp [hc] at hresult
  unfold CopyPut.finish at h ⊢
  simp only [hclose, Bool.not_true, Bool.false_eq_true, if_false, hpass] at h ⊢
  by_cases hplace : job.resume.destination = job.resume.completeDestination
  · rw [Resume.conclude_in_place _ _ _ _ hplace]
    simp [CopyPut.applyMTimeSMBC_kindAt, hplace]
  · have hdest := hpart.resolve_left hplace
    rcases hren : ( Resume.SMBResumeIO env.calls).renameTo c.remote job.resume.partDestination
      job.resume.completeDestination with ⟨t, ok⟩
    cases ok with
    | false =>
      rw [Resume.conclude_not_renamed _ hplace hren] at h
      simp at h
    | true =>
      rw [Resume.conclude_renamed _ hplace hren]
      simp only [WorkerResult.success_pass, Bool.not_true, Bool.false_eq_true, if_false,
        CopyPut.applyMTimeSMBC_kindAt]
      have hrename : c.remote.rename job.resume.partDestination job.resume.completeDestination =
          some t := by
        unfold Resume.SMBResumeIO at hren
        dsimp only at hren
        split at hren
        · cases congrArg Prod.snd hren
        · next t' ht =>
          obtain rfl : t' = t := congrArg Prod.fst hren
          split at ht
          · exact ht
          · cases ht
      rw [← hdest]
      exact rename_kindAt (by rw [hdest]; exact hplace) hrename

lemma shouldResume_part {calls : Resume.SMBCalls} {MarkPartial : Bool} {canResume : ℕ → Bool}
    (h : Resume.shouldResume ( Resume.SMBResumeIO calls) MarkPartial canResume remote kdst flags =
      .ok resume) :
    resume.completeDestination = kdst ∧ (resume.destination = resume.completeDestination ∨
      resume.partDestination = resume.destination) := by
  unfold Resume.shouldResume at h
  dsimp only at h
  split_ifs at h
  · obtain rfl := Except.ok.inj h
    exact ⟨rfl, Or.inl rfl⟩
  · obtain rfl := Except.ok.inj h
    exact ⟨rfl, Or.inr rfl⟩
  · obtain rfl := Except.ok.inj h
    exact ⟨rfl, Or.inr rfl⟩
  · obtain rfl := Except.ok.inj h
    exact ⟨rfl, Or.inl rfl⟩

/-- **Copying a local file** keeps the promise just if each write of the loop takes all it is
given. -/
lemma copyPut_right_iff
    (hstart : CopyPut.start env disk remote ksrc kdst permissions flags = .running job c)
    (hold : c.remote.AtEnd c.dstfd old)
    (hrun : run (CopyPut.step env) (.running job c) ls = some (.running job' c'))
    (hpc : c'.pc = .close) (hsuccess : (CopyPut.finish env job' c').result.success = true)
    (hkilled : c'.killed = false) :
    c'.remote.kindAt c.dstfd.path = some (.file (old ++ job.content.drop old.length)) ↔
      AllSteps (CopyPut.step env) WholeStep (.running job c) ls := by
  obtain ⟨-, hresult⟩ := finish_success hsuccess
  obtain ⟨hb, ht⟩ := start_tight hstart (result_of_run hrun hresult) hold
  obtain ⟨-, hb', htight, hlost, -⟩ := run_cases hb hrun hresult
  have hended := hb'.ended hpc hresult hkilled
  have hnone : c'.pc.unwritten = [] := by rw [hpc]; rfl
  constructor
  · intro hfile
    by_contra hnot
    obtain ⟨data, ⟨hkind, -⟩, hlt⟩ := hlost ht hnot
    rw [hb'.named, hfile] at hkind
    have hlength := congrArg List.length (Kind.file.inj (Option.some.inj hkind))
    rw [List.length_append, List.length_drop] at hlength
    rw [hnone, List.length_nil] at hlt
    have := hb'.position_le
    omega
  · intro hall
    obtain ⟨data, ⟨hkind, -⟩, hdata⟩ := htight ht hall
    rw [hnone, List.append_nil, List.take_of_length_le (by rw [List.length_drop]; omega)] at hdata
    rw [← hb'.named, hkind, hdata]

end

/-! ### The three operations -/

/-- **Writes that fall short.** A success, without a kill, means that the file holds all that was
read, behind what is kept, just if each write took all it was given; for putting the data must have
come to its end as well, and a file that is kept must be written behind its end. -/
theorem writes_right_iff (env : Env) (remote : Store SMBUrl) (permissions : ℤ) (flags : JobFlags) :
    (∀ url turns stop o, Plain remote url →
      put env remote url permissions flags turns stop = some o →
      (PutRight remote url flags turns stop o ↔
        (PutPasses env remote url permissions flags turns stop → stop = .read 0 ∧ Whole turns ∧
          (flags.Resume = true → Appends env remote url turns)))) ∧
    (∀ src dst turns stop o, Plain remote dst →
      smbCopy env remote src dst permissions flags turns stop = some o →
      (CopyRight dst turns o ↔
        (CopyPasses env remote src dst permissions flags turns stop → Whole turns))) ∧
    ∀ disk ksrc kdst job c old ls c',
      CopyPut.start env.toEnv disk remote ksrc kdst permissions flags = .running job c →
      c.remote.AtEnd c.dstfd old →
      run (CopyPut.step env.toEnv) (.running job c) ls = some (.running job c') →
      c'.pc = .close → (CopyPut.finish env.toEnv job c').result.success = true →
      c'.killed = false →
      (c'.remote.kindAt c.dstfd.path = some (.file (old ++ job.content.drop old.length)) ↔
        AllSteps (CopyPut.step env.toEnv) WholeStep (.running job c) ls) ∧
      (c.dstfd.path = job.resume.destination →
        (CopyPut.finish env.toEnv job c').store.kindAt kdst = c'.remote.kindAt c.dstfd.path) := by
  refine ⟨fun url turns stop o hplain h => put_right_iff hplain h,
    fun src dst turns stop o hplain h => copy_right_iff hplain h, ?_⟩
  intro disk ksrc kdst job c old ls c' hstart hold hrun hpc hsuccess hkilled
  refine ⟨copyPut_right_iff hstart hold hrun hpc hsuccess hkilled, fun hplace => ?_⟩
  obtain ⟨hcomplete, hpart⟩ := shouldResume_part (CopyPut.start_running hstart).resume
  rw [← hcomplete, hplace]
  exact finish_kindAt hpart hsuccess

/-- Calls that all succeed. -/
def calm : Env where
  MarkPartial := false
  canResume _ := true
  openSource := none
  stat _ := true
  smbc_open := none
  fresh mode := ⟨mode, 1000, 1000, 0, 0⟩
  smbc_lseek := true
  seek := true
  smbc_close := true
  calls := ⟨fun _ => true, true, true⟩
  modified := none
  now := 0
  smbc_utime := true
  DEFAULT_MINIMUM_KEEP_SIZE := 5000
  errno _ := .ENOENT

def target : SMBUrl := ⟨"smb", "h", "/s/f", []⟩

lemma plain_nothing (url : SMBUrl) : Plain (Store.ofFiles []) url := fun _ _ => Or.inl rfl

/-- Two bytes that are written at once. -/
theorem put_whole : ∃ o, put calm (Store.ofFiles []) target (-1) DefaultFlags
      [⟨[1, 2], some 2⟩] (.read 0) = some o ∧
    PutRight (Store.ofFiles []) target DefaultFlags [⟨[1, 2], some 2⟩] (.read 0) o :=
  ⟨_, rfl, ((writes_right_iff calm (Store.ofFiles []) (-1) DefaultFlags).1 _ _ _ _
    (plain_nothing target) rfl).mpr fun _ => ⟨rfl, by simp [Whole], by simp [DefaultFlags]⟩⟩

/-- Two bytes of which one is written. -/
theorem put_short : ¬ ∀ (env : Env) (remote : Store SMBUrl) (url : SMBUrl) (permissions : ℤ)
    (flags : JobFlags) (turns : List Turn) (stop : Stop) (o : Outcome), Plain remote url →
    put env remote url permissions flags turns stop = some o →
    PutRight remote url flags turns stop o := by
  intro h
  have hright := h calm _ _ (-1) DefaultFlags [⟨[1, 2], some 1⟩] (.read 0) _
    (plain_nothing target) rfl
  have hpasses : PutPasses calm (Store.ofFiles []) target (-1) DefaultFlags [⟨[1, 2], some 1⟩]
      (.read 0) := ⟨⟨_, rfl⟩, by simp [Unfailing], rfl, by simp⟩
  obtain ⟨-, hwhole, -⟩ := (put_right_iff (plain_nothing target) rfl).mp hright hpasses
  have hle := hwhole _ List.mem_cons_self 1 rfl
  simp at hle

end KioExtras.Smb.ShortWrites
