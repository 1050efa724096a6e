import KioExtras.Fish.WriteLoop

/-!
How the perl server reads a file: `read_loop` of `fish.pl`, for `RETR` and `READ`.

A run is given by what the system calls in it return. The client has been told how many bytes will
come, so what is missing at the end is made up with blanks.
-/

namespace KioExtras.Fish.Perl

/-- What a call of `sysread` returns: bytes, none of them at the end of the file, or undef with a
text in `$!`. -/
inductive Sysread
  | bytes (buffer : Bytes)
  | undef (errno : Bytes) (told : errno ≠ [])

def Sysread.got : Sysread → Bytes
  | .bytes buffer => buffer
  | .undef _ _ => []

def Sysread.failed : Sysread → Bool
  | .bytes _ => false
  | .undef _ _ => true

def allRead (reads : List Sysread) : Bytes := reads.flatMap Sysread.got

/-- What the system calls of a `read_loop` return. `errno` is the text of `$!` behind those before
the first `sysread`. -/
structure ReadCalls where
  isDir : Bool
  stat : Option ℕ
  sysopen : Option Bytes
  sysseek : Option Bytes
  errno : Bytes
  reads : List Sysread

/-- The variables of the loops, and what they have printed. `read` is 0 for undef too. -/
structure Sending where
  size : ℕ
  read : ℕ
  errno : Bytes
  sent : Bytes

namespace Sending

/-- `$read = sysread(FH,$buffer,…)`, and the turn of the loop for what it returns. -/
def sysread (asked : ℕ) (s : Sending) : Sysread → Option Sending
  | .bytes buffer =>
    if buffer.length ≤ asked then
      some { s with
        size := s.size - buffer.length
        read := buffer.length
        sent := s.sent ++ buffer }
    else none
  | .undef errno _ => some { s with read := 0, errno := errno }

/-- The first loop: blocks of a fixed size. -/
def blocks : List Sysread → Sending → Option (Sending × List Sysread)
  | [], s => if 32768 < s.size then none else some (s, [])
  | result :: reads, s =>
    if 32768 < s.size then
      (s.sysread 32768 result).bind fun s => if 0 < s.read then blocks reads s else some (s, reads)
    else some (s, result :: reads)

/-- The second loop: what is left. -/
def rest : List Sysread → Sending → Option Sending
  | [], s => if 0 < s.size then none else some s
  | result :: reads, s =>
    if 0 < s.size then
      (s.sysread s.size result).bind fun s =>
        if 0 < s.read then rest reads s else if reads.isEmpty then some s else none
    else none

/-- The last line of the response. -/
def answer (s : Sending) : Bytes :=
  if s.read = 0 ∧ s.errno ≠ [] then ascii "### 500 " ++ s.errno else ascii "### 200"

end Sending

/-- What the server prints: the size, if it is not known to the client, the bytes behind
`### 100`, and the last line. -/
structure Response where
  size : Option ℕ
  body : Bytes
  last : Bytes
  deriving DecidableEq

/-- `$size`, with the size and the offset of a `READ`. -/
def ReadCalls.size (args : Option (ℕ × ℕ)) (calls : ReadCalls) : ℕ :=
  match args with
  | none => calls.stat.getD 0
  | some (size, _) => if size ≠ 0 then size else calls.stat.getD 0

/-- `$error` in front of the loops. -/
def ReadCalls.error (args : Option (ℕ × ℕ)) (calls : ReadCalls) : Option Bytes :=
  match args with
  | none => calls.sysopen
  | some (_, offset) => calls.sysopen.or (if offset ≠ 0 then calls.sysseek else none)

def read_loop (args : Option (ℕ × ℕ)) (calls : ReadCalls) : Option Response :=
  if calls.isDir then some ⟨none, [], ascii "### 501 Is directory"⟩
  else
    match calls.error args with
    | some error => some ⟨none, [], ascii "### 500 " ++ error⟩
    | none =>
      (Sending.blocks calls.reads ⟨calls.size args, 1, calls.errno, []⟩).bind fun (s, reads) =>
        (s.rest reads).map fun s =>
          { size := if args.isNone then some (calls.size args) else none
            body := s.sent ++ List.replicate s.size 32
            last := s.answer }

namespace Sending

/-- What holds of the loops behind so many of the reads. -/
structure After (size : ℕ) (errno : Bytes) (done : List Sysread) (s : Sending) : Prop where
  sent : s.sent = allRead done
  size : s.sent.length + s.size = size
  errno : s.errno = [] ↔ errno = [] ∧ ∀ result ∈ done, result.failed = false
  nothing : s.read = 0 → ∃ result ∈ done, result.got = []

variable {size asked : ℕ} {errno : Bytes} {done reads : List Sysread} {s t : Sending}
  {result : Sysread}

lemma After.sysread (h : After size errno done s) (hasked : asked ≤ s.size)
    (hread : s.sysread asked result = some t) :
    After size errno (done ++ [result]) t ∧ t.read = result.got.length ∧
      t.size = s.size - t.read := by
  cases result with
  | bytes buffer =>
    simp only [Sending.sysread] at hread
    split_ifs at hread with hfits
    obtain rfl := Option.some.inj hread
    refine ⟨⟨?_, ?_, ?_, fun hzero => ?_⟩, rfl, rfl⟩
    · simp [allRead, h.sent, Sysread.got]
    · have hsize := h.size
      rw [List.length_append]
      dsimp only
      omega
    · rw [List.forall_mem_append, List.forall_mem_singleton]
      dsimp only
      rw [h.errno, Sysread.failed, eq_self_iff_true, and_true]
    · exact ⟨_, List.mem_append_right _ List.mem_cons_self, List.length_eq_zero_iff.mp hzero⟩
  | undef errno' told =>
    obtain rfl := Option.some.inj hread
    refine ⟨⟨?_, h.size, ?_, fun _ => ?_⟩, rfl, rfl⟩
    · simp [allRead, h.sent, Sysread.got]
    · rw [List.forall_mem_append, List.forall_mem_singleton]
      simp [told, Sysread.failed]
    · exact ⟨_, List.mem_append_right _ List.mem_cons_self, rfl⟩

/-- `$read` tells whether bytes are missing. -/
def Tells (s : Sending) : Prop := s.size = 0 → 0 < s.read

lemma blocks_after (h : After size errno done s) (htells : s.Tells)
    {left : List Sysread} (hrun : s.blocks reads = some (t, left)) :
    ∃ more, reads = more ++ left ∧ After size errno (done ++ more) t ∧ t.Tells := by
  induction reads generalizing s done with
  | nil =>
    simp only [blocks] at hrun
    split_ifs at hrun
    obtain ⟨rfl, rfl⟩ := Prod.mk.inj (Option.some.inj hrun)
    exact ⟨[], rfl, by simpa using h, htells⟩
  | cons result reads ih =>
    simp only [blocks] at hrun
    split_ifs at hrun with hbig
    · obtain ⟨u, hread, hnext⟩ := Option.bind_eq_some_iff.mp hrun
      obtain ⟨hu, hcount, husize⟩ := h.sysread (by omega) hread
      split_ifs at hnext with hmore
      · obtain ⟨more, rfl, hafter, ht⟩ := ih hu (fun _ => hmore) hnext
        refine ⟨result :: more, rfl, ?_, ht⟩
        rwa [List.append_assoc, List.singleton_append] at hafter
      · obtain ⟨rfl, rfl⟩ := Prod.mk.inj (Option.some.inj hnext)
        refine ⟨[result], rfl, hu, fun hzero => ?_⟩
        omega
    · obtain ⟨rfl, rfl⟩ := Prod.mk.inj (Option.some.inj hrun)
      exact ⟨[], rfl, by simpa using h, htells⟩

lemma rest_after (h : After size errno done s) (htells : s.Tells) (hrun : s.rest reads = some t) :
    After size errno (done ++ reads) t ∧ (t.read = 0 ↔ 0 < t.size) := by
  induction reads generalizing s done with
  | nil =>
    simp only [rest] at hrun
    split_ifs at hrun with hmore
    obtain rfl := Option.some.inj hrun
    have hread := htells (by omega)
    exact ⟨by simpa using h, by omega⟩
  | cons result reads ih =>
    by_cases hmore : 0 < s.size
    swap
    · rw [rest, if_neg hmore] at hrun
      cases hrun
    rw [rest, if_pos hmore] at hrun
    obtain ⟨u, hread, hnext⟩ := Option.bind_eq_some_iff.mp hrun
    obtain ⟨hu, hcount, husize⟩ := h.sysread (Nat.le_refl _) hread
    split_ifs at hnext with hgot hlast
    · rw [← List.singleton_append, ← List.append_assoc]
      exact ih hu (fun _ => hgot) hnext
    · obtain rfl := Option.some.inj hnext
      obtain rfl := List.isEmpty_iff.mp hlast
      exact ⟨hu, by omega⟩

/-! ### What the system answers -/

/-- The results are what the system returns for so many bytes, given those before. -/
def Answers (sys : List Sysread → ℕ → Sysread) : List Sysread → List Sysread → Prop
  | _, [] => True
  | done, result :: reads =>
    (∃ asked, result = sys done asked) ∧ Answers sys (done ++ [result]) reads

lemma Answers.append {sys : List Sysread → ℕ → Sysread} {done first more : List Sysread}
    (hfirst : Answers sys done first) (hmore : Answers sys (done ++ first) more) :
    Answers sys done (first ++ more) := by
  induction first generalizing done with
  | nil => simpa using hmore
  | cons result first ih =>
    refine ⟨hfirst.1, ih hfirst.2 ?_⟩
    rwa [List.append_assoc, List.singleton_append]

section

variable {sys : List Sysread → ℕ → Sysread}
  (hsys : ∀ done asked, (sys done asked).got.length ≤ asked)
include hsys

lemma sysread_some (asked : ℕ) (done : List Sysread) (s : Sending) :
    ∃ t, s.sysread asked (sys done asked) = some t ∧ t.size = s.size - t.read := by
  have hfits := hsys done asked
  cases hresult : sys done asked with
  | bytes buffer =>
    rw [hresult] at hfits
    exact ⟨_, if_pos hfits, rfl⟩
  | undef errno told => exact ⟨_, rfl, rfl⟩

lemma blocks_runs (done : List Sysread) (s : Sending) : ∃ first t, Answers sys done first ∧
    ∀ more, s.blocks (first ++ more) = some (t, more) := by
  induction hn : s.size using Nat.strong_induction_on generalizing s done with
  | _ n ih =>
    subst hn
    by_cases hbig : 32768 < s.size
    · obtain ⟨u, hread, husize⟩ := sysread_some hsys 32768 done s
      by_cases hmore : 0 < u.read
      · obtain ⟨first, t, hanswers, hrun⟩ := ih u.size (by omega) (done ++ [sys done 32768]) u rfl
        refine ⟨sys done 32768 :: first, t, ⟨⟨_, rfl⟩, hanswers⟩, fun more => ?_⟩
        rw [List.cons_append, blocks, if_pos hbig, hread, Option.bind_some, if_pos hmore]
        exact hrun more
      · refine ⟨[sys done 32768], u, ⟨⟨_, rfl⟩, trivial⟩, fun more => ?_⟩
        rw [List.singleton_append, blocks, if_pos hbig, hread, Option.bind_some, if_neg hmore]
    · refine ⟨[], s, trivial, fun more => ?_⟩
      cases more with
      | nil => rw [List.nil_append, blocks, if_neg hbig]
      | cons result more => rw [List.nil_append, blocks, if_neg hbig]

lemma rest_runs (done : List Sysread) (s : Sending) : ∃ reads t, Answers sys done reads ∧
    s.rest reads = some t := by
  induction hn : s.size using Nat.strong_induction_on generalizing s done with
  | _ n ih =>
    subst hn
    by_cases hpos : 0 < s.size
    · obtain ⟨u, hread, husize⟩ := sysread_some hsys s.size done s
      by_cases hmore : 0 < u.read
      · obtain ⟨reads, t, hanswers, hrun⟩ := ih u.size (by omega) (done ++ [sys done s.size]) u rfl
        refine ⟨sys done s.size :: reads, t, ⟨⟨_, rfl⟩, hanswers⟩, ?_⟩
        rw [rest, if_pos hpos, hread, Option.bind_some, if_pos hmore]
        exact hrun
      · refine ⟨[sys done s.size], u, ⟨⟨_, rfl⟩, trivial⟩, ?_⟩
        rw [rest, if_pos hpos, hread, Option.bind_some, if_neg hmore]
        rfl
    · exact ⟨[], s, trivial, by rw [rest, if_neg hpos]⟩

lemma loops_run (s : Sending) : ∃ reads, Answers sys [] reads ∧
    ((s.blocks reads).bind fun (t, left) => t.rest left).isSome := by
  obtain ⟨first, t, hfirst, hblocks⟩ := blocks_runs hsys [] s
  obtain ⟨more, u, hmore, hrest⟩ := rest_runs hsys first t
  refine ⟨first ++ more, hfirst.append hmore, ?_⟩
  rw [hblocks, Option.bind_some]
  dsimp only
  rw [hrest]
  rfl

end

end Sending

/-! ### The response -/

/-- The loops are reached. -/
structure ReadCalls.Opens (args : Option (ℕ × ℕ)) (calls : ReadCalls) : Prop where
  isDir : calls.isDir = false
  error : calls.error args = none

def ReadCalls.Silent (calls : ReadCalls) : Prop :=
  calls.errno = [] ∧ ∀ result ∈ calls.reads, result.failed = false

lemma ascii_error (text : Bytes) : ascii "### 500 " ++ text ≠ ascii "### 200" := by
  intro h
  have hfifth := congrArg (fun line => (line.drop 4).head?) h
  exact absurd hfifth (by simp [ascii])

lemma answer_iff (s : Sending) : s.answer = ascii "### 200" ↔ s.read ≠ 0 ∨ s.errno = [] := by
  unfold Sending.answer
  split_ifs with hfails
  · simp [ascii_error, hfails]
  · simp only [true_iff]
    by_contra hneither
    rw [not_or, not_not] at hneither
    exact hfails hneither

variable {args : Option (ℕ × ℕ)} {calls : ReadCalls} {o : Response}

lemma read_loop_opens (hopens : calls.Opens args) (h : read_loop args calls = some o) :
    (allRead calls.reads).length ≤ calls.size args ∧
      o.body = allRead calls.reads ++
        List.replicate (calls.size args - (allRead calls.reads).length) 32 ∧
      (o.last = ascii "### 200" ↔
        calls.size args ≤ (allRead calls.reads).length ∨ calls.Silent) ∧
      ((allRead calls.reads).length < calls.size args →
        ∃ result ∈ calls.reads, result.got = []) := by
  obtain ⟨hdir, herror⟩ := hopens
  simp only [read_loop, hdir, Bool.false_eq_true, if_false, herror] at h
  obtain ⟨⟨s, left⟩, hblocks, hend⟩ := Option.bind_eq_some_iff.mp h
  obtain ⟨t, hrest, rfl⟩ := Option.map_eq_some_iff.mp hend
  have hstart : Sending.After (calls.size args) calls.errno []
      ⟨calls.size args, 1, calls.errno, []⟩ :=
    ⟨rfl, Nat.zero_add _, by simp, fun h => absurd h Nat.one_ne_zero⟩
  obtain ⟨more, hmore, hs, htells⟩ := Sending.blocks_after hstart (fun _ => Nat.one_pos) hblocks
  obtain ⟨ht, hread⟩ := Sending.rest_after hs htells hrest
  rw [List.nil_append, ← hmore] at ht
  have hsize := ht.size
  rw [ht.sent] at hsize
  refine ⟨by omega, ?_, ?_, fun hshort => ht.nothing (hread.mpr (by omega))⟩
  · rw [ht.sent, ← hsize, Nat.add_sub_cancel_left]
  · have hsilent : t.errno = [] ↔ calls.Silent := ht.errno
    rw [answer_iff, hsilent]
    apply or_congr_left
    omega

/-- What is promised: a success stands for bytes that were read. -/
def Honest (calls : ReadCalls) (o : Response) : Prop :=
  o.last = ascii "### 200" → o.body = allRead calls.reads

lemma honest_of_not_opens (hopens : ¬ calls.Opens args) (h : read_loop args calls = some o) :
    Honest calls o := by
  intro hlast
  by_cases hdir : calls.isDir
  · rw [read_loop, if_pos hdir] at h
    obtain rfl := Option.some.inj h
    have hfifth := congrArg (fun line => (line.drop 4).head?) hlast
    exact absurd hfifth (by simp [ascii])
  · rw [read_loop, if_neg hdir] at h
    cases herror : calls.error args with
    | some error =>
      rw [herror] at h
      obtain rfl := Option.some.inj h
      exact absurd hlast (ascii_error error)
    | none => exact absurd ⟨by simpa using hdir, herror⟩ hopens

lemma honest_iff (hopens : calls.Opens args) (h : read_loop args calls = some o) :
    Honest calls o ↔ calls.size args ≤ (allRead calls.reads).length ∨ ¬ calls.Silent := by
  obtain ⟨hle, hbody, hlast, -⟩ := read_loop_opens hopens h
  have hwhole : o.body = allRead calls.reads ↔
      calls.size args ≤ (allRead calls.reads).length := by
    rw [hbody, List.append_right_eq_self, List.replicate_eq_nil_iff]
    omega
  rw [Honest, hlast, hwhole]
  tauto

/-! ### A file that does not change -/

/-- The reads of a file from a position on: bytes that are there, and none only at the end. -/
def OfFile (content : Bytes) : ℕ → List Sysread → Prop
  | _, [] => True
  | _, .undef _ _ :: _ => False
  | pos, .bytes buffer :: reads => buffer <+: content.drop pos ∧
      (buffer = [] → content.length ≤ pos) ∧ OfFile content (pos + buffer.length) reads

variable {content : Bytes} {pos : ℕ} {reads : List Sysread}

lemma OfFile.spec (h : OfFile content pos reads) : allRead reads <+: content.drop pos ∧
    (∀ result ∈ reads, result.failed = false) ∧
    ((∃ result ∈ reads, result.got = []) → content.length ≤ pos + (allRead reads).length) := by
  induction reads generalizing pos with
  | nil => simp [allRead]
  | cons result reads ih =>
    cases result with
    | undef errno told => exact absurd h id
    | bytes buffer =>
      obtain ⟨hbuffer, hend, hrest⟩ := h
      obtain ⟨hread, hfailed, hnothing⟩ := ih hrest
      have hall : allRead (.bytes buffer :: reads) = buffer ++ allRead reads := rfl
      rw [hall, List.length_append]
      refine ⟨?_, List.forall_mem_cons.mpr ⟨rfl, hfailed⟩, ?_⟩
      · obtain ⟨behind, hbehind⟩ := hbuffer
        have hdrop : content.drop (pos + buffer.length) = behind := by
          rw [← List.drop_drop, ← hbehind, List.drop_left]
        rw [hdrop] at hread
        rw [← hbehind]
        exact (List.prefix_append_right_inj buffer).mpr hread
      · rintro ⟨result, hmem, hgot⟩
        rcases List.mem_cons.mp hmem with rfl | hmem
        · have hpos := hend hgot
          omega
        · have hpos := hnothing ⟨result, hmem, hgot⟩
          omega

def oneByte (errno : Bytes) : ReadCalls where
  isDir := false
  stat := some 1
  sysopen := none
  sysseek := none
  errno := errno
  reads := [.bytes [65], .bytes []]

end KioExtras.Fish.Perl
