import KioExtras.Fish.Session
import KioExtras.Lib.FileStore
import Mathlib.Data.List.DropRight
import Mathlib.Tactic.Common

/-!
How the perl server reads a command line, and how it writes a file: `MAIN`, `unquote` and
`write_loop` of `fish.pl`.

The system calls of a `write_loop` are given by what the system answers to them.
-/

namespace KioExtras.Fish.Perl

open KioExtras.Lib.FileStore

/-! ### Command lines -/

/-- `\s` -/
def isBlank (b : UInt8) : Bool := b = 32 || (9 ≤ b && b ≤ 13)

/-- `\d` -/
def isDigit (b : UInt8) : Bool := 48 ≤ b && b ≤ 57

/-- `[0-7]` -/
def isOctal (b : UInt8) : Bool := 48 ≤ b && b ≤ 55

/-- `\s+`, and the rest of the line. -/
def blanks (line : Bytes) : Option Bytes :=
  if line.takeWhile isBlank = [] then none else some (line.dropWhile isBlank)

def value (base : ℕ) (digits : Bytes) : ℕ :=
  digits.foldl (fun n b => base * n + (b.toNat - 48)) 0

/-- `(\d+)\s+`, or `([0-7]+)\s+`, and the rest of the line. -/
def digits (isDigit : UInt8 → Bool) (base : ℕ) (line : Bytes) : Option (ℕ × Bytes) :=
  if line.takeWhile isDigit = [] then none
  else (blanks (line.dropWhile isDigit)).map fun rest => (value base (line.takeWhile isDigit), rest)

/-- `(?:\\.|[^\\])*`: a backslash belongs to the byte behind it. -/
def atoms : Bytes → Option (List Bytes)
  | [] => some []
  | [b] => if b = 92 then none else some [[b]]
  | b :: c :: rest =>
    if b = 92 then (atoms rest).map ([b, c] :: ·) else (atoms (c :: rest)).map ([b] :: ·)

/-- `((?:\\.|[^\\])*?)\s*$`: blanks at the end do not belong to the argument. -/
def lastArgument (line : Bytes) : Option Bytes :=
  (atoms line).map fun as => (as.rdropWhile fun a => a.all isBlank).flatten

def unquote : Bytes → Bytes
  | [] => []
  | [b] => [b]
  | b :: c :: rest => if b = 92 then c :: unquote rest else b :: unquote (c :: rest)

/-- The commands that an upload sends. -/
inductive Request
  | LIST (dn : Bytes)
  | WRITE (offset size : ℕ) (fn : Bytes)
  | STOR (size : ℕ) (fn : Bytes)
  | CHMOD (mode : ℕ) (fn : Bytes)
  deriving DecidableEq

/-- What follows the name of a command. -/
def behind (command : String) (line : Bytes) : Option Bytes :=
  if (ascii command).isPrefixOf line then blanks (line.drop command.length) else none

def name (line : Bytes) : Option Bytes := (lastArgument line).map unquote

/-- A line without its `#`. -/
def request (line : Bytes) : Option Request :=
  if let some line := behind "LIST" line then (name line).map .LIST
  else if let some line := behind "WRITE" line then
    (digits isDigit 10 line).bind fun (offset, line) =>
      (digits isDigit 10 line).bind fun (size, line) => (name line).map (.WRITE offset size)
  else if let some line := behind "STOR" line then
    (digits isDigit 10 line).bind fun (size, line) => (name line).map (.STOR size)
  else if let some line := behind "CHMOD" line then
    (digits isOctal 8 line).bind fun (mode, line) => (name line).map (.CHMOD mode)
  else none

/-- The lines that `MAIN` passes over: it is at the start of a line or inside one, and where it
ends up, unless there is a line that starts with `#`. -/
def skips : Bool → Bytes → Option Bool
  | start, [] => some start
  | start, b :: rest => if start = true ∧ b = 35 then none else skips (b = 10) rest

/-- What follows the first `#` at the start of a line. -/
def seek : Bool → Bytes → Option Bytes
  | _, [] => none
  | start, b :: rest => if start = true ∧ b = 35 then some rest else seek (b = 10) rest

lemma skips_append (start : Bool) (u v : Bytes) :
    skips start (u ++ v) = (skips start u).bind fun start => skips start v := by
  induction u generalizing start with
  | nil => rfl
  | cons b u ih =>
    simp only [List.cons_append, skips]
    split_ifs
    · rfl
    · exact ih _

variable {start' : Bool} {u : Bytes}

lemma seek_skips {start : Bool} (h : skips start u = some start') (v : Bytes) :
    seek start (u ++ v) = seek start' v := by
  induction u generalizing start with
  | nil =>
    obtain rfl := Option.some.inj h
    rfl
  | cons b u ih =>
    simp only [skips] at h
    split_ifs at h with hb
    simp only [List.cons_append, seek, hb, if_false]
    exact ih h

lemma seek_none {start : Bool} (h : skips start u = some start') : seek start u = none := by
  have hseek := seek_skips h []
  rw [List.append_nil] at hseek
  exact hseek

/-! ### Writing -/

/-- A call of `syswrite`: how much it takes at most, and the text of `$!` behind it, which a write
that is cut short does not set. -/
structure Syswrite where
  taken : ℕ
  errno : Bytes

/-- What the system answers in one `write_loop`: the errors of `sysopen` and `sysseek`, and to the
calls of `syswrite` one after the other. -/
structure Turn where
  sysopen : Option Bytes
  sysseek : Option Bytes
  syswrite : ℕ → Syswrite

/-- The file is opened, emptied for `STOR`, and the position is set. An error is told with
`### 400`. -/
def Turn.begin (turn : Turn) (truncate : Bool) (offset : ℕ) (file : Option Bytes) :
    Option Bytes × Except Bytes (Bytes × ℕ) :=
  match turn.sysopen with
  | some error => (file, .error error)
  | none =>
    let data := if truncate = true then [] else file.getD []
    if offset = 0 then (some data, .ok (data, 0))
    else
      match turn.sysseek with
      | some error => (some data, .error error)
      | none => (some data, .ok (data, offset))

/-- The variables of `write_loop`, the standard input and the file. The last one is kept for the
proofs: whether a call of `syswrite` has taken less than it was given. -/
structure Writing where
  size : ℕ
  stdin : Bytes
  file : Bytes
  pos : ℕ
  error : Bytes
  calls : ℕ
  short : Bool

namespace Writing

/-- `read` of up to `n` bytes, and `syswrite`. -/
def block (turn : Turn) (n : ℕ) (w : Writing) : Writing :=
  let buffer := w.stdin.take n
  let call := turn.syswrite w.calls
  let taken := min call.taken buffer.length
  { size := w.size - buffer.length
    stdin := w.stdin.drop n
    file := if taken = 0 then w.file else Store.splice w.file w.pos (buffer.take taken)
    pos := w.pos + taken
    error := if taken ≠ buffer.length ∧ w.error = [] then call.errno else w.error
    calls := w.calls + 1
    short := w.short || decide (taken ≠ buffer.length) }

/-- The first loop: blocks of a fixed size. A round reads at least one byte. -/
def blocks (turn : Turn) : ℕ → Writing → Writing
  | 0, w => w
  | fuel + 1, w =>
    if 32768 < w.size ∧ w.stdin ≠ [] then blocks turn fuel (w.block turn 32768) else w

/-- The second loop: what is left. -/
def rest (turn : Turn) : ℕ → Writing → Writing
  | 0, w => w
  | fuel + 1, w => if 0 < w.size ∧ w.stdin ≠ [] then rest turn fuel (w.block turn w.size) else w

def loops (turn : Turn) (w : Writing) : Writing :=
  let w := w.blocks turn w.size
  w.rest turn w.size

/-- The last line of the response. -/
def answer (w : Writing) : Bytes :=
  if w.error = [] then ascii "### 200" else ascii "### 500 " ++ w.error

end Writing

def blockLength (size k : ℕ) : ℕ := min 32768 (size - 32768 * k)

/-- From a call on, each call of `syswrite` for so many bytes takes its whole block. -/
def Turn.Whole (turn : Turn) (calls size : ℕ) : Prop :=
  ∀ k, 32768 * k < size → blockLength size k ≤ (turn.syswrite (calls + k)).taken

/-- From a call on, a call of `syswrite` for so many bytes that is cut short leaves no text in
`$!`. -/
def Turn.Silent (turn : Turn) (calls size : ℕ) : Prop :=
  ∀ k, 32768 * k < size → (turn.syswrite (calls + k)).taken < blockLength size k →
    (turn.syswrite (calls + k)).errno = []

/-- Nothing of a `write_loop` is told as an error. -/
structure Turn.Accepts (turn : Turn) (offset size : ℕ) : Prop where
  sysopen : turn.sysopen = none
  sysseek : offset ≠ 0 → turn.sysseek = none
  silent : turn.Silent 0 size

lemma Turn.begin_cases (turn : Turn) (truncate : Bool) (offset : ℕ) (file : Option Bytes) :
    (∃ error, (turn.begin truncate offset file).2 = .error error ∧
      ¬ (turn.sysopen = none ∧ (offset ≠ 0 → turn.sysseek = none))) ∨
    ((turn.sysopen = none ∧ (offset ≠ 0 → turn.sysseek = none)) ∧
      turn.begin truncate offset file =
        (some (if truncate = true then [] else file.getD []),
          .ok (if truncate = true then [] else file.getD [], offset))) := by
  unfold begin
  cases hopen : turn.sysopen with
  | some error => exact Or.inl ⟨error, rfl, by simp⟩
  | none =>
    by_cases hzero : offset = 0
    · refine Or.inr ⟨⟨rfl, fun h => absurd hzero h⟩, ?_⟩
      simp [hzero]
    · cases hseek : turn.sysseek with
      | some error =>
        refine Or.inl ⟨error, ?_, by simp [hzero]⟩
        simp [hzero]
      | none =>
        refine Or.inr ⟨⟨rfl, fun _ => rfl⟩, ?_⟩
        simp [hzero]

lemma blockLength_succ (size k : ℕ) : blockLength size (k + 1) = blockLength (size - 32768) k := by
  have hrest : size - 32768 * (k + 1) = size - 32768 - 32768 * k := by omega
  unfold blockLength
  rw [hrest]

lemma Turn.whole_zero (turn : Turn) (calls : ℕ) : turn.Whole calls 0 := fun k hk => by omega

lemma Turn.whole_step (turn : Turn) (calls : ℕ) {size : ℕ} (hsize : 0 < size) :
    turn.Whole calls size ↔
      min 32768 size ≤ (turn.syswrite calls).taken ∧ turn.Whole (calls + 1) (size - 32768) := by
  constructor
  · intro h
    refine ⟨h 0 (by omega), fun k hk => ?_⟩
    have hnext := h (k + 1) (by omega)
    rw [blockLength_succ] at hnext
    rwa [Nat.add_right_comm]
  · rintro ⟨hfirst, hrest⟩ k hk
    cases k with
    | zero => exact hfirst
    | succ k =>
      have hnext := hrest k (by omega)
      rw [blockLength_succ]
      rwa [Nat.add_right_comm] at hnext

lemma Turn.silent_step (turn : Turn) (calls : ℕ) {size : ℕ} (hsize : 0 < size) :
    turn.Silent calls size ↔
      ((turn.syswrite calls).taken < min 32768 size → (turn.syswrite calls).errno = []) ∧
        turn.Silent (calls + 1) (size - 32768) := by
  constructor
  · intro h
    refine ⟨h 0 (by omega), fun k hk hshort => ?_⟩
    have hnext := h (k + 1) (by omega)
    rw [blockLength_succ] at hnext
    rw [Nat.add_right_comm] at hshort ⊢
    exact hnext hshort
  · rintro ⟨hfirst, hrest⟩ k hk hshort
    cases k with
    | zero => exact hfirst hshort
    | succ k =>
      rw [blockLength_succ] at hshort
      have hnext := hrest k (by omega)
      rw [Nat.add_right_comm] at hnext
      exact hnext hshort

lemma Turn.Whole.silent {turn : Turn} {calls size : ℕ} (h : turn.Whole calls size) :
    turn.Silent calls size := by
  intro k hk hshort
  have hall := h k hk
  omega

namespace Writing

variable (turn : Turn)

variable {w : Writing}

lemma block_size {n : ℕ} (hn : 0 < n) (hstdin : w.stdin ≠ []) (hsize : 0 < w.size) :
    (w.block turn n).size < w.size := by
  have hlen := List.length_pos_of_ne_nil hstdin
  simp only [block, List.length_take]
  omega

lemma blocks_fuel {f g : ℕ} (hf : w.size ≤ f) (hg : w.size ≤ g) :
    w.blocks turn f = w.blocks turn g := by
  induction f generalizing g w with
  | zero =>
    have hstop : ¬ (32768 < w.size ∧ w.stdin ≠ []) := by omega
    cases g with
    | zero => rfl
    | succ g => simp only [blocks, hstop, if_false]
  | succ f ih =>
    cases g with
    | zero =>
      have hstop : ¬ (32768 < w.size ∧ w.stdin ≠ []) := by omega
      simp only [blocks, hstop, if_false]
    | succ g =>
      simp only [blocks]
      split_ifs with hgo
      · have hless := block_size turn (n := 32768) (by omega) hgo.2 (by omega)
        exact ih (by omega) (by omega)
      · rfl

lemma rest_done (hsize : w.size = 0) (fuel : ℕ) : w.rest turn fuel = w := by
  have hstop : ¬ (0 < w.size ∧ w.stdin ≠ []) := by omega
  cases fuel with
  | zero => rfl
  | succ fuel => simp only [rest, hstop, if_false]

lemma loops_done (hsize : w.size = 0) : w.loops turn = w := by
  unfold loops
  rw [hsize]
  exact rest_done turn hsize _

lemma loops_step (hsize : 0 < w.size) (hstdin : w.size ≤ w.stdin.length) :
    w.loops turn = (w.block turn (min 32768 w.size)).loops turn := by
  have hne : w.stdin ≠ [] := List.ne_nil_of_length_pos (by omega)
  obtain ⟨n, hn⟩ : ∃ n, w.size = n + 1 := ⟨w.size - 1, by omega⟩
  by_cases hbig : 32768 < w.size
  · have hless := block_size turn (n := 32768) (by omega) hne hsize
    have hblocks : w.blocks turn w.size =
        (w.block turn 32768).blocks turn (w.block turn 32768).size := by
      rw [hn]
      simp only [blocks]
      rw [if_pos ⟨hbig, hne⟩]
      exact blocks_fuel turn (by omega) (Nat.le_refl _)
    rw [min_eq_left (by omega)]
    unfold loops
    rw [hblocks]
  · have hblocks : w.blocks turn w.size = w := by
      rw [hn]
      simp only [blocks]
      rw [if_neg (by omega)]
    have hzero : (w.block turn w.size).size = 0 := by
      simp only [block, List.length_take]
      omega
    rw [min_eq_right (by omega), loops_done turn hzero]
    unfold loops
    simp only [hblocks]
    rw [hn]
    simp only [rest]
    rw [if_pos ⟨hsize, hne⟩, ← hn]
    exact rest_done turn hzero n

/-- What the loops leave, for a standard input that brings all bytes of the chunk. -/
structure Done (w v : Writing) : Prop where
  size : v.size = 0
  stdin : v.stdin = w.stdin.drop w.size
  short : v.short = false ↔ w.short = false ∧ turn.Whole w.calls w.size
  error : v.error = [] ↔ w.error = [] ∧ turn.Silent w.calls w.size
  file : v.short = false → w.size ≠ 0 → v.file = Store.splice w.file w.pos (w.stdin.take w.size)
  same : w.size = 0 → v.file = w.file

/-- **The loops write the chunk**, unless a write is cut short; and they tell so unless `$!` is
empty behind all writes that are. -/
theorem loops_spec (hstdin : w.size ≤ w.stdin.length) : Done turn w (w.loops turn) := by
  induction hm : w.size using Nat.strong_induction_on generalizing w with
  | _ m ih =>
    by_cases hzero : w.size = 0
    · have hall : turn.Whole w.calls w.size := hzero ▸ turn.whole_zero w.calls
      rw [loops_done turn hzero]
      exact ⟨hzero, by rw [hzero, List.drop_zero], by simp [hall], by simp [hall.silent],
        fun _ hne => absurd hzero hne, fun _ => rfl⟩
    · have hpos : 0 < w.size := by omega
      set n := min 32768 w.size with hn
      set u := w.block turn n with hu
      have hlen : (w.stdin.take n).length = n := by
        rw [List.length_take]
        omega
      have husize : u.size = w.size - 32768 := by
        simp only [hu, block, hlen]
        omega
      have hustdin : u.stdin = w.stdin.drop n := rfl
      have hsum : n + (w.size - 32768) = w.size := by omega
      have hdone : Done turn u (u.loops turn) := by
        refine ih u.size (by omega) ?_ rfl
        rw [husize, hustdin, List.length_drop]
        omega
      rw [loops_step turn hpos hstdin]
      set taken := min (turn.syswrite w.calls).taken n with htaken
      have hushort : u.short = false ↔
          w.short = false ∧ min 32768 w.size ≤ (turn.syswrite w.calls).taken := by
        simp only [hu, block, hlen, ← htaken, Bool.or_eq_false_iff, decide_eq_false_iff_not]
        refine and_congr_right fun _ => ?_
        omega
      have huerror : u.error = [] ↔ w.error = [] ∧
          ((turn.syswrite w.calls).taken < min 32768 w.size →
            (turn.syswrite w.calls).errno = []) := by
        simp only [hu, block, hlen, ← htaken]
        split_ifs with hcut
        · have hlt : (turn.syswrite w.calls).taken < min 32768 w.size := by omega
          simp [hcut.2, hlt]
        · constructor
          · exact fun herror => ⟨herror, fun hlt => absurd ⟨by omega, herror⟩ hcut⟩
          · exact fun herror => herror.1
      refine ⟨hdone.size, ?_, ?_, ?_, fun hwhole _ => ?_, fun h => absurd h hzero⟩
      · rw [hdone.stdin, husize, hustdin, List.drop_drop, hsum]
      · rw [hdone.short, husize, hushort, turn.whole_step w.calls hpos, and_assoc]
        rfl
      · rw [hdone.error, husize, huerror, turn.silent_step w.calls hpos, and_assoc]
        rfl
      · have hcut : min 32768 w.size ≤ (turn.syswrite w.calls).taken :=
          (hushort.mp (hdone.short.mp hwhole).1).2
        have heq : taken = n := by omega
        have hufile : u.file = Store.splice w.file w.pos (w.stdin.take n) := by
          simp only [hu, block, hlen, ← htaken, heq]
          rw [if_neg (by omega), List.take_of_length_le (by omega)]
        have hupos : u.pos = w.pos + (w.stdin.take n).length := by
          simp only [hu, block, hlen, ← htaken, heq]
        by_cases hlast : u.size = 0
        · have hsame : w.size = n := by omega
          rw [hdone.same hlast, hufile, ← hsame]
        · rw [hdone.file hwhole hlast, hufile, hupos, Store.splice_splice, hustdin]
          rw [← List.take_add, husize, hsum]

end Writing

end KioExtras.Fish.Perl
