import KioExtras.Lib.Simulation
import KioExtras.Man.Converter
import Mathlib

/-!
Where the output of the converter goes: into a line that is given on when it ends, or, inside of a
`scan_troff` with a result, into a buffer on the heap that grows.

What was never written in an array has no value. An access outside of an array, and a size that
`int` does not hold, have no result.
-/

namespace KioExtras.Man.Output

open KioExtras.Lib.Run KioExtras.Reading

def HUGE_STR_MAX : ℕ := 10000
def LARGE_STR_MAX : ℕ := 2000

def NULL_TERMINATED (n : ℕ) : ℕ := n + 1

/-! ### Arrays -/

abbrev Memory := List (Option Char)

namespace Memory

def new (size : ℕ) : Memory := List.replicate size none

variable (m : Memory)

def write (i : ℕ) (ch : Char) : Option Memory :=
  if i < m.length then some (m.set i (some ch)) else none

/-- `memcpy` of `n` bytes into a new array -/
def copied (n size : ℕ) : Option Memory :=
  if n ≤ m.length ∧ n ≤ size then some (m.take n ++ new (size - n)) else none

def string : Memory → Option Text
  | [] => none
  | none :: _ => none
  | some ch :: m => if ch = NUL then some [] else (string m).map (ch :: ·)

lemma write_at (t : Text) (x : Option Char) (rest : Memory) (ch : Char) :
    write (t.map some ++ x :: rest) t.length ch = some (t.map some ++ some ch :: rest) := by
  have hset := List.set_append_right (s := t.map some) (t := x :: rest) t.length (some ch)
    (by simp)
  rw [write, if_pos (by simp), hset]
  simp

lemma write_end (t : Text) (ch : Char) : write (t.map some) t.length ch = none := by
  rw [write, if_neg (by simp)]

lemma string_eq {t : Text} (rest : Memory) (h : NUL ∉ t) :
    string (t.map some ++ some NUL :: rest) = some t := by
  induction t with
  | nil => simp [string]
  | cons ch t ih =>
    have hch : ch ≠ NUL := fun heq => h (heq ▸ List.mem_cons_self)
    have ht := ih fun hmem => h (List.mem_cons_of_mem _ hmem)
    simp [string, hch, ht]

lemma of_string {m : Memory} {t : Text} (h : string m = some t) :
    NUL ∉ t ∧ ∃ rest, m = t.map some ++ some NUL :: rest := by
  induction m generalizing t with
  | nil => cases h
  | cons x m ih =>
    cases x with
    | none => cases h
    | some ch =>
      rw [string] at h
      split_ifs at h with hch
      · obtain rfl := Option.some.inj h
        exact ⟨List.not_mem_nil, m, by rw [hch]; rfl⟩
      · obtain ⟨u, hu, rfl⟩ := Option.map_eq_some_iff.mp h
        obtain ⟨hnul, rest, rfl⟩ := ih hu
        exact ⟨by simp [hnul, Ne.symm hch], rest, rfl⟩

end Memory

/-! ### The buffer of a result -/

structure Buffer where
  buffer : Option Memory
  buffpos : ℕ
  buffmax : ℕ
  scaninbuff : Bool

namespace Buffer

variable (b : Buffer)

/-- `if (buffpos >= buffmax)` -/
def grow : Option Buffer :=
  if b.buffmax ≤ b.buffpos then
    if b.buffmax * 2 < 2 ^ 31 then do
      let buffer ← b.buffer
      let h ← Memory.copied buffer b.buffmax (b.buffmax * 2)
      some { b with buffer := some h, buffmax := b.buffmax * 2 }
    else none
  else some b

def put (ch : Char) : Option Buffer := do
  let b ← b.grow
  let buffer ← b.buffer
  let buffer ← Memory.write buffer b.buffpos ch
  some { b with buffer := some buffer, buffpos := b.buffpos + 1 }

/-- `if (buffer) buffer[buffpos] = '\0';` -/
def terminate : Option Buffer :=
  match b.buffer with
  | none => some b
  | some buffer => do
    let buffer ← Memory.write buffer b.buffpos NUL
    some { b with buffer := some buffer }

end Buffer

/-! ### The line -/

/-- The line that is collected, and those that went to `add_links`. -/
structure Page where
  outbuffer : Memory
  obp : ℕ
  linked : List Text

def Page.put (p : Page) (ch : Char) : Option Page := do
  let outbuffer ← Memory.write p.outbuffer p.obp ch
  if ch = '\n' ∨ p.obp + 1 ≥ HUGE_STR_MAX then do
    let outbuffer ← Memory.write outbuffer (p.obp + 1) NUL
    let line ← Memory.string outbuffer
    some ⟨outbuffer, 0, p.linked ++ [line]⟩
  else some ⟨outbuffer, p.obp + 1, p.linked⟩

/-! ### The converter -/

structure State where
  out : Buffer
  page : Page
  no_newline_output : Bool
  output_possible : Bool
  /-- what the open calls of `scan_troff` saved; those without a result save nothing -/
  calls : List (Option Buffer)
  /-- the strings of earlier calls that were not deleted -/
  results : List Memory

inductive Label
  | out_html (c : Text)
  /-- without a result, with a null result, or with the string of an earlier call -/
  | call (result : Option (Option ℕ))
  | returns
  | delete (k : ℕ)
  /-- the escape `\c` -/
  | noNewline
  | output (possible : Bool)

/-- The first newline is left out. Whether there was none -/
def dropNewline : Text → Text × Bool
  | [] => ([], true)
  | ch :: c =>
    if ch = '\n' then (c, false)
    else
      let (c, no_newline_output) := dropNewline c
      (ch :: c, no_newline_output)

variable (no_newline_output : Bool)

/-- What `out_html` gives out of a string, and `no_newline_output` after it. -/
def emitted (c : Text) : Text × Bool :=
  let c2 := c.takeWhile (· ≠ NUL)
  if c2 = [] then ([], no_newline_output)
  else if no_newline_output = true then dropNewline c2
  else (c2, false)

variable (s : State)

def out_html (c : Text) : Option State :=
  let (c2, no_newline_output) := emitted s.no_newline_output c
  let s := { s with no_newline_output := no_newline_output }
  if s.out.scaninbuff = true then do
    let out ← c2.foldlM Buffer.put s.out
    some { s with out := out }
  else if s.output_possible = true then do
    let page ← c2.foldlM Page.put s.page
    some { s with page := page }
  else some s

/-- The string of an earlier call, which is then in the hands of the new one. -/
def taken {α : Type} (results : List α) (earlier : Option ℕ) : Option (α × List α) :=
  earlier.bind fun k => results[k]?.map fun m => (m, results.eraseIdx k)

def call : Option (Option ℕ) → Option State
  | none => some { s with calls := none :: s.calls }
  | some earlier =>
    match taken s.results earlier with
    | none =>
      some { s with
        out := ⟨some (Memory.new (LARGE_STR_MAX + 1)), 0, LARGE_STR_MAX, true⟩
        calls := some s.out :: s.calls }
    | some (m, results) => do
      let text ← Memory.string m
      some { s with
        out := ⟨some m, text.length, text.length, true⟩
        calls := some s.out :: s.calls
        results := results }

def returns : Option State :=
  match s.calls with
  | [] => some s
  | none :: calls => do
    let out ← s.out.terminate
    some { s with out := out, calls := calls }
  | some ex :: calls => do
    let out ← s.out.terminate
    some { s with out := ex, calls := calls, results := out.buffer.toList ++ s.results }

def step : Label → Option State
  | .out_html c => out_html s c
  | .call result => call s result
  | .returns => returns s
  | .delete k => some { s with results := s.results.eraseIdx k }
  | .noNewline => some { s with no_newline_output := true }
  | .output possible => some { s with output_possible := possible }

def initial : State where
  out := ⟨none, 0, 0, false⟩
  page := ⟨List.replicate (NULL_TERMINATED HUGE_STR_MAX) (some NUL), 0, []⟩
  no_newline_output := false
  output_possible := false
  calls := []
  results := []

/-! ### What the calls are for -/

/-- A call with a result: what it has collected after the earlier result, and the length that
its buffer is doubled from. -/
structure Frame where
  start : ℕ
  text : Text

structure Spec where
  calls : List (Option Frame)
  results : List Text
  page : Text
  no_newline_output : Bool
  output_possible : Bool

def innermost : List (Option Frame) → Option Frame
  | [] => none
  | none :: calls => innermost calls
  | some f :: _ => some f

/-- Output goes to the innermost call with a result. -/
def appendText (e : Text) : List (Option Frame) → List (Option Frame)
  | [] => []
  | none :: calls => none :: appendText e calls
  | some f :: calls => some { f with text := f.text ++ e } :: calls

namespace Spec

variable (a : Spec)

def out_html (c : Text) : Spec :=
  let (e, no_newline_output) := emitted a.no_newline_output c
  { a with
    no_newline_output := no_newline_output
    calls := appendText e a.calls
    page := if innermost a.calls = none ∧ a.output_possible = true then a.page ++ e else a.page }

def call : Option (Option ℕ) → Spec
  | none => { a with calls := none :: a.calls }
  | some earlier =>
    match taken a.results earlier with
    | none => { a with calls := some ⟨LARGE_STR_MAX, []⟩ :: a.calls }
    | some (text, results) =>
      { a with calls := some ⟨text.length, text⟩ :: a.calls, results := results }

def returns : Spec :=
  match a.calls with
  | [] => a
  | none :: calls => { a with calls := calls }
  | some f :: calls => { a with calls := calls, results := f.text :: a.results }

def next : Label → Spec
  | .out_html c => a.out_html c
  | .call result => a.call result
  | .returns => a.returns
  | .delete k => { a with results := a.results.eraseIdx k }
  | .noNewline => { a with no_newline_output := true }
  | .output possible => { a with output_possible := possible }

def initial : Spec := ⟨[], [], [], false, false⟩

end Spec

def Room (start n : ℕ) : Prop := start ≠ 0 ∧ ∀ k, start * 2 ^ k < n → start * 2 ^ (k + 1) < 2 ^ 31

/-- A doubled buffer has no room for the terminator. -/
def Full (f : Frame) : Prop := f.start ≠ 0 ∧ ∃ k, f.text.length = f.start * 2 ^ (k + 1)

def Spec.Fits (a : Spec) : Label → Prop
  | .out_html c =>
    ∀ f ∈ innermost a.calls, (emitted a.no_newline_output c).1 ≠ [] →
      Room f.start (f.text.length + (emitted a.no_newline_output c).1.length)
  | .returns => ∀ f ∈ innermost a.calls, ¬ Full f
  | _ => True

/-! ### Growing -/

/-- What the array of a buffer is after doubling: with the place of the terminator, or of just
the size that the converter knows. -/
inductive Extent (start len : ℕ) : ℕ → ℕ → Prop
  | first {size : ℕ} (h : start < size) : Extent start len start size
  | doubled (k : ℕ) (h : start * 2 ^ k < len) :
    Extent start len (start * 2 ^ (k + 1)) (start * 2 ^ (k + 1))

structure Holding (b : Buffer) (f : Frame) : Prop where
  scaninbuff : b.scaninbuff = true
  contents : ∃ rest, b.buffer = some (f.text.map some ++ rest) ∧
    Extent f.start f.text.length b.buffmax (f.text.length + rest.length)
  buffpos : b.buffpos = f.text.length
  le : b.buffpos ≤ b.buffmax
  small : b.buffmax < 2 ^ 31
  start_le : f.start ≤ b.buffmax
  noNul : NUL ∉ f.text

variable {k len max : ℕ} {ch : Char} {p : Page} {t : Text} {ls : List Label}

lemma Extent.mono {start len' size : ℕ} (h : Extent start len max size) (hle : len ≤ len') :
    Extent start len' max size := by
  cases h with
  | first h => exact .first h
  | doubled k h => exact .doubled k (Nat.lt_of_lt_of_le h hle)

lemma Extent.max_le {start size : ℕ} (h : Extent start len max size) : max ≤ size := by
  cases h with
  | first h => exact Nat.le_of_lt h
  | doubled k h => exact Nat.le_refl _

lemma Extent.power {start size : ℕ} (h : Extent start len max size) : ∃ k, max = start * 2 ^ k := by
  cases h with
  | first h => exact ⟨0, by simp⟩
  | doubled k h => exact ⟨k + 1, rfl⟩

lemma power_lt_iff {start j : ℕ} (h : start ≠ 0) : start * 2 ^ j < start * 2 ^ k ↔ j < k := by
  rw [Nat.mul_lt_mul_left (Nat.pos_of_ne_zero h)]
  exact Nat.pow_lt_pow_iff_right (by decide)

lemma Room.mono {start m n : ℕ} (h : Room start n) (hle : m ≤ n) : Room start m :=
  ⟨h.1, fun k hk => h.2 k (Nat.lt_of_lt_of_le hk hle)⟩

lemma room_full {start : ℕ} (hstart : start ≠ 0) (hsmall : start * 2 ^ k < 2 ^ 31) :
    Room start (start * 2 ^ k + 1) ↔ start * 2 ^ k * 2 < 2 ^ 31 := by
  constructor
  · intro h
    have hk := h.2 k (Nat.lt_succ_self _)
    rwa [Nat.pow_succ, ← Nat.mul_assoc] at hk
  · intro h
    refine ⟨hstart, fun j hj => ?_⟩
    have hle : j ≤ k := by
      by_contra hlt
      have hkj : start * 2 ^ k < start * 2 ^ j := (power_lt_iff hstart).mpr (by omega)
      omega
    have hpow : start * 2 ^ (j + 1) ≤ start * 2 ^ (k + 1) :=
      Nat.mul_le_mul_left _ (Nat.pow_le_pow_right (by decide) (by omega))
    have hdouble : start * 2 ^ (k + 1) = start * 2 ^ k * 2 := by
      rw [Nat.pow_succ, Nat.mul_assoc]
    omega

lemma room_of_lt {start size : ℕ} (hext : Extent start len max size) (hsmall : max < 2 ^ 31)
    (hlt : len < max) : Room start (len + 1) := by
  obtain ⟨k, rfl⟩ := hext.power
  have hstart : start ≠ 0 := by
    rintro rfl
    omega
  refine ⟨hstart, fun j hj => ?_⟩
  have hjk : j < k := (power_lt_iff hstart).mp (by omega)
  have hpow : start * 2 ^ (j + 1) ≤ start * 2 ^ k :=
    Nat.mul_le_mul_left _ (Nat.pow_le_pow_right (by decide) hjk)
  omega

section

variable {b : Buffer} {f : Frame} {ch : Char}

lemma Holding.write {x : Option Char} {rest : Memory} (h : Holding b f) (hch : ch ≠ NUL)
    (hext : Extent f.start (f.text.length + 1) b.buffmax (f.text.length + (x :: rest).length))
    (hlt : f.text.length < b.buffmax) :
    Holding { b with buffer := some (f.text.map some ++ some ch :: rest), buffpos := b.buffpos + 1 }
      { f with text := f.text ++ [ch] } where
  scaninbuff := h.scaninbuff
  contents := by
    refine ⟨rest, by simp, ?_⟩
    rw [List.length_append, List.length_singleton]
    convert hext using 1
    rw [List.length_cons]
    omega
  buffpos := by simp [h.buffpos]
  le := by
    have hpos := h.buffpos
    change b.buffpos + 1 ≤ b.buffmax
    omega
  small := h.small
  start_le := h.start_le
  noNul := by simp [h.noNul, Ne.symm hch]

lemma Holding.put_room (h : Holding b f) (hch : ch ≠ NUL)
    (hroom : Room f.start (f.text.length + 1)) :
    ∃ b', b.put ch = some b' ∧ Holding b' { f with text := f.text ++ [ch] } := by
  obtain ⟨rest, hbuffer, hext⟩ := h.contents
  have hpos := h.buffpos
  have hle := h.le
  have hmax := hext.max_le
  rcases Nat.lt_or_ge b.buffpos b.buffmax with hlt | hge
  · have hgrow : b.grow = some b := if_neg (Nat.not_le.mpr hlt)
    obtain ⟨x, rest, rfl⟩ : ∃ x xs, rest = x :: xs :=
      List.exists_cons_of_ne_nil fun hnil => by
        rw [hnil, List.length_nil] at hmax
        omega
    have hwritten := h.write hch (hext.mono (Nat.le_succ _)) (by omega)
    refine ⟨_, ?_, hwritten⟩
    simp [Buffer.put, hgrow, hbuffer, hpos, Memory.write_at]
  · -- the array is doubled
    obtain ⟨k, hk⟩ := hext.power
    have hlen : f.text.length = f.start * 2 ^ k := by omega
    have hsmall : b.buffmax * 2 < 2 ^ 31 := by
      have hsize : f.start * 2 ^ k < 2 ^ 31 := hk ▸ h.small
      rw [hk]
      exact (room_full hroom.1 hsize).mp (hlen ▸ hroom)
    have hmaxPos : 0 < b.buffmax := by
      have hstart := hroom.1
      have hstartLe := h.start_le
      omega
    have hcopied : Memory.copied (f.text.map some ++ rest) b.buffmax (b.buffmax * 2) =
        some (f.text.map some ++ none :: Memory.new (b.buffmax - 1)) := by
      have htake : (f.text.map some ++ rest).take b.buffmax = f.text.map some := by
        apply List.take_left'
        rw [List.length_map]
        omega
      have hnew : Memory.new (b.buffmax * 2 - b.buffmax) = none :: Memory.new (b.buffmax - 1) := by
        rw [Memory.new, Memory.new, ← List.replicate_succ]
        congr 1
        omega
      rw [Memory.copied, if_pos ⟨by simp; omega, by omega⟩, htake, hnew]
    have hgrow : b.grow = some { b with
        buffer := some (f.text.map some ++ none :: Memory.new (b.buffmax - 1))
        buffmax := b.buffmax * 2 } := by
      rw [Buffer.grow, if_pos hge, if_pos hsmall, hbuffer]
      simp only [Option.bind_eq_bind, Option.bind_some, hcopied]
    refine ⟨⟨some (f.text.map some ++ some ch :: Memory.new (b.buffmax - 1)), f.text.length + 1,
      b.buffmax * 2, b.scaninbuff⟩, by simp [Buffer.put, hgrow, hpos, Memory.write_at], ?_⟩
    have hstartLe := h.start_le
    refine ⟨h.scaninbuff, ⟨Memory.new (b.buffmax - 1), by simp, ?_⟩, by simp, ?_, hsmall, ?_,
      by simp [h.noNul, Ne.symm hch]⟩
    rotate_left
    · change f.text.length + 1 ≤ b.buffmax * 2
      omega
    · change f.start ≤ b.buffmax * 2
      omega
    have hdouble : b.buffmax * 2 = f.start * 2 ^ (k + 1) := by
      rw [hk, Nat.pow_succ, Nat.mul_assoc]
    have hsize : (f.text ++ [ch]).length + (Memory.new (b.buffmax - 1)).length =
        f.start * 2 ^ (k + 1) := by
      rw [← hdouble]
      simp [Memory.new]
      omega
    simp only [hdouble, hsize]
    exact .doubled k (by simp; omega)

lemma Holding.put_none (h : Holding b f) (hroom : ¬ Room f.start (f.text.length + 1)) :
    b.put ch = none := by
  obtain ⟨rest, hbuffer, hext⟩ := h.contents
  have hpos := h.buffpos
  have hle := h.le
  have hge : b.buffmax ≤ b.buffpos := by
    by_contra hlt
    exact hroom (room_of_lt hext h.small (by omega))
  obtain ⟨k, hk⟩ := hext.power
  have hlen : f.text.length = f.start * 2 ^ k := by omega
  by_cases hstart : f.start = 0
  · -- nothing doubled is nothing
    have hmax : b.buffmax = 0 := by rw [hk, hstart, Nat.zero_mul]
    have htext : f.text = [] := List.length_eq_zero_iff.mp (by omega)
    have hgrow : b.grow = some { b with buffer := some [], buffmax := 0 } := by
      rw [Buffer.grow, if_pos hge, hmax, if_pos (by decide), hbuffer]
      simp [Memory.copied, Memory.new]
    simp [Buffer.put, hgrow, Memory.write]
  · have hlarge : ¬ b.buffmax * 2 < 2 ^ 31 := by
      intro hlt
      have hsize : f.start * 2 ^ k < 2 ^ 31 := hk ▸ h.small
      rw [hlen] at hroom
      exact hroom ((room_full hstart hsize).mpr (hk ▸ hlt))
    have hgrow : b.grow = none := by rw [Buffer.grow, if_pos hge, if_neg hlarge]
    simp [Buffer.put, hgrow]

variable {e : Text}

lemma Holding.puts (h : Holding b f) (he : NUL ∉ e)
    (hroom : e ≠ [] → Room f.start (f.text.length + e.length)) :
    ∃ b', e.foldlM Buffer.put b = some b' ∧ Holding b' { f with text := f.text ++ e } := by
  induction e generalizing b f with
  | nil => exact ⟨b, rfl, by simpa using h⟩
  | cons ch e ih =>
    have hch : ch ≠ NUL := fun heq => he (heq ▸ List.mem_cons_self)
    have hall := hroom (List.cons_ne_nil ch e)
    rw [List.length_cons] at hall
    obtain ⟨u, hu, hheld⟩ := h.put_room hch (hall.mono (by omega))
    obtain ⟨v, hv, hlast⟩ := ih hheld (fun hmem => he (List.mem_cons_of_mem _ hmem)) fun _ => by
      rw [List.length_append, List.length_singleton]
      exact hall.mono (by omega)
    refine ⟨v, ?_, ?_⟩
    · rw [List.foldlM_cons, hu]
      exact hv
    · simpa using hlast

lemma Holding.puts_none (h : Holding b f) (he : NUL ∉ e) (hne : e ≠ [])
    (hroom : ¬ Room f.start (f.text.length + e.length)) : e.foldlM Buffer.put b = none := by
  induction e generalizing b f with
  | nil => exact absurd rfl hne
  | cons ch e ih =>
    rw [List.foldlM_cons]
    by_cases hfirst : Room f.start (f.text.length + 1)
    · have hch : ch ≠ NUL := fun heq => he (heq ▸ List.mem_cons_self)
      obtain ⟨u, hu, hheld⟩ := h.put_room hch hfirst
      have hrest : e ≠ [] := by
        rintro rfl
        exact hroom hfirst
      rw [hu]
      refine ih hheld (fun hmem => he (List.mem_cons_of_mem _ hmem)) hrest fun hall => hroom ?_
      refine hall.mono ?_
      simp only [List.length_append, List.length_cons, List.length_nil]
      omega
    · rw [h.put_none hfirst]
      rfl

lemma Holding.terminate (h : Holding b f) (hfull : ¬ Full f) :
    ∃ m, b.terminate = some { b with buffer := some m } ∧ Memory.string m = some f.text ∧
      Holding { b with buffer := some m } f := by
  obtain ⟨rest, hbuffer, hext⟩ := h.contents
  have hpos := h.buffpos
  have hle := h.le
  have hsize : f.text.length < f.text.length + rest.length := by
    revert hext
    generalize hmax : b.buffmax = max
    generalize htotal : f.text.length + rest.length = size
    intro hext
    cases hext with
    | first hlt => omega
    | doubled k hk =>
      have hstart : f.start ≠ 0 := by
        intro hzero
        simp only [hzero, Nat.zero_mul] at *
        omega
      rcases Nat.lt_or_ge f.text.length (f.start * 2 ^ (k + 1)) with hlt | hge
      · omega
      · exact absurd ⟨hstart, k, by omega⟩ hfull
  obtain ⟨x, rest, rfl⟩ : ∃ x xs, rest = x :: xs :=
    List.exists_cons_of_ne_nil fun hnil => by simp [hnil] at hsize
  refine ⟨f.text.map some ++ some NUL :: rest, ?_, Memory.string_eq rest h.noNul, ?_⟩
  · simp [Buffer.terminate, hbuffer, hpos, Memory.write_at]
  · exact ⟨h.scaninbuff, ⟨some NUL :: rest, rfl, hext⟩, hpos, hle, h.small, h.start_le, h.noNul⟩

lemma Holding.terminate_none (h : Holding b f) (hfull : Full f) : b.terminate = none := by
  obtain ⟨rest, hbuffer, hext⟩ := h.contents
  obtain ⟨hstart, j, hj⟩ := hfull
  have hle := h.le
  have hpos := h.buffpos
  have hnil : rest = [] := by
    apply List.length_eq_zero_iff.mp
    revert hext
    generalize hmax : b.buffmax = max
    generalize htotal : f.text.length + rest.length = size
    intro hext
    cases hext with
    | first hlt =>
      have hmore : f.start * 2 ^ 0 < f.start * 2 ^ (j + 1) :=
        (power_lt_iff hstart).mpr (Nat.succ_pos j)
      simp only [Nat.pow_zero, Nat.mul_one] at hmore
      omega
    | doubled k hk =>
      have hkj : k < j + 1 := (power_lt_iff hstart).mp (by omega)
      have hpow : f.start * 2 ^ (k + 1) ≤ f.start * 2 ^ (j + 1) :=
        Nat.mul_le_mul_left _ (Nat.pow_le_pow_right (by decide) (by omega))
      omega
  rw [hnil, List.append_nil] at hbuffer
  simp [Buffer.terminate, hbuffer, hpos, Memory.write_end]

end

/-! ### The page -/

/-- The page is what went to `add_links` and what stands in the line. -/
structure Page.Shows (p : Page) (t : Text) : Prop where
  line : ∃ current rest, p.outbuffer = current.map some ++ rest ∧ p.obp = current.length ∧
    current.length + rest.length = NULL_TERMINATED HUGE_STR_MAX ∧ NUL ∉ current ∧
    t = p.linked.flatten ++ current
  obp_lt : p.obp < HUGE_STR_MAX

lemma Page.Shows.put (h : p.Shows t) (hch : ch ≠ NUL) :
    ∃ p', p.put ch = some p' ∧ p'.Shows (t ++ [ch]) := by
  obtain ⟨⟨current, rest, hout, hobp, hsize, hnul, rfl⟩, hlt⟩ := h
  have hhuge : HUGE_STR_MAX = 10000 := rfl
  have hterm : NULL_TERMINATED HUGE_STR_MAX = 10001 := rfl
  obtain ⟨x, y, rest, rfl⟩ : ∃ x y xs, rest = x :: y :: xs := by
    match rest with
    | [] => simp at hsize; omega
    | [_] => simp at hsize; omega
    | x :: y :: xs => exact ⟨x, y, xs, rfl⟩
  have hwrite := Memory.write_at current x (y :: rest) ch
  have hcurrent : NUL ∉ current ++ [ch] := by simp [hnul, Ne.symm hch]
  have hput : p.put ch = if ch = '\n' ∨ p.obp + 1 ≥ HUGE_STR_MAX then
      some ⟨(current ++ [ch]).map some ++ some NUL :: rest, 0, p.linked ++ [current ++ [ch]]⟩
      else some ⟨(current ++ [ch]).map some ++ y :: rest, p.obp + 1, p.linked⟩ := by
    have hnext := Memory.write_at (current ++ [ch]) y rest NUL
    have hstring := Memory.string_eq rest hcurrent
    simp only [List.map_append, List.map_cons, List.map_nil, List.append_assoc,
      List.singleton_append, List.length_append, List.length_singleton] at hnext hstring
    simp only [Page.put, hout, hobp, hwrite, Option.bind_eq_bind, Option.bind_some, hnext, hstring,
      List.map_append, List.map_cons, List.map_nil, List.append_assoc, List.singleton_append]
  rw [hput]
  simp only [List.length_cons] at hsize
  split_ifs with hend
  · refine ⟨_, rfl, ⟨[], _, rfl, rfl, ?_, List.not_mem_nil, by simp⟩, ?_⟩
    · simp
      omega
    · change 0 < HUGE_STR_MAX
      omega
  · have hmore : ¬ p.obp + 1 ≥ HUGE_STR_MAX := fun hge => hend (Or.inr hge)
    refine ⟨_, rfl, ⟨current ++ [ch], y :: rest, rfl, ?_, ?_, hcurrent, by simp⟩, ?_⟩
    · rw [List.length_append, List.length_singleton, hobp]
    · simp only [List.length_append, List.length_cons, List.length_nil]
      omega
    · exact Nat.not_le.mp hmore

lemma Page.Shows.puts (h : p.Shows t) {e : Text} (he : NUL ∉ e) :
    ∃ p', e.foldlM Page.put p = some p' ∧ p'.Shows (t ++ e) := by
  induction e generalizing p t with
  | nil => exact ⟨p, rfl, by simpa using h⟩
  | cons ch e ih =>
    have hch : ch ≠ NUL := fun heq => he (heq ▸ List.mem_cons_self)
    obtain ⟨q, hq, hshows⟩ := h.put hch
    obtain ⟨r, hr, hlast⟩ := ih hshows fun hmem => he (List.mem_cons_of_mem _ hmem)
    refine ⟨r, ?_, by simpa using hlast⟩
    rw [List.foldlM_cons, hq]
    exact hr

/-! ### Open calls -/

/-- The buffer belongs to the innermost call with a result, and what the calls saved to those
around it. -/
inductive Calls : Buffer → List (Option Buffer) → List (Option Frame) → Prop
  | outside {b : Buffer} (hbuffer : b.buffer = none) (hscan : b.scaninbuff = false) : Calls b [] []
  | pass {b : Buffer} {calls : List (Option Buffer)} {frames : List (Option Frame)}
    (h : Calls b calls frames) : Calls b (none :: calls) (none :: frames)
  | result {b ex : Buffer} {f : Frame} {calls : List (Option Buffer)}
    {frames : List (Option Frame)} (hf : Holding b f) (h : Calls ex calls frames) :
    Calls b (some ex :: calls) (some f :: frames)

section

variable {b b' : Buffer} {calls : List (Option Buffer)} {frames : List (Option Frame)} {f : Frame}

lemma Calls.holding (h : Calls b calls frames) (hf : innermost frames = some f) : Holding b f := by
  induction h with
  | outside => cases hf
  | pass h ih => exact ih hf
  | result hheld h ih =>
    obtain rfl := Option.some.inj hf
    exact hheld

lemma Calls.without (h : Calls b calls frames) (hf : innermost frames = none) :
    b.buffer = none ∧ b.scaninbuff = false := by
  induction h with
  | outside hbuffer hscan => exact ⟨hbuffer, hscan⟩
  | pass h ih => exact ih hf
  | result => cases hf

lemma Calls.append (h : Calls b calls frames) (hf : innermost frames = some f) {e : Text}
    (hb : Holding b' { f with text := f.text ++ e }) : Calls b' calls (appendText e frames) := by
  induction h with
  | outside => cases hf
  | pass h ih => exact .pass (ih hf)
  | result hheld h ih =>
    obtain rfl := Option.some.inj hf
    exact .result hb h

end

lemma appendText_nil (frames : List (Option Frame)) : appendText [] frames = frames := by
  induction frames with
  | nil => rfl
  | cons f frames ih => cases f <;> simp [appendText, ih]

lemma appendText_without {frames : List (Option Frame)} (h : innermost frames = none) (e : Text) :
    appendText e frames = frames := by
  induction frames with
  | nil => rfl
  | cons f frames ih =>
    cases f with
    | none => rw [appendText, ih h]
    | some f => cases h

lemma dropNewline_mem {c : Text} (h : ch ∈ (dropNewline c).1) : ch ∈ c := by
  induction c with
  | nil => exact h
  | cons x c ih =>
    rw [dropNewline] at h
    split_ifs at h
    · exact List.mem_cons_of_mem x h
    · rcases List.mem_cons.mp h with rfl | hmem
      · exact List.mem_cons_self
      · exact List.mem_cons_of_mem x (ih hmem)

lemma emitted_noNul (c : Text) :
    NUL ∉ (emitted no_newline_output c).1 := by
  have hc : NUL ∉ c.takeWhile (· ≠ NUL) := fun h => by simpa using List.mem_takeWhile_imp h
  rw [emitted]
  split_ifs
  · exact List.not_mem_nil
  · exact fun h => hc (dropNewline_mem h)
  · exact hc

/-! ### Steps and runs -/

/-- What the converter is in where the calls have collected and given out what they are for. -/
structure Related (s : State) (a : Spec) : Prop where
  calls : Calls s.out s.calls a.calls
  results : s.results.map Memory.string = a.results.map some
  small : ∀ t ∈ a.results, t.length < 2 ^ 31
  page : s.page.Shows a.page
  no_newline_output : s.no_newline_output = a.no_newline_output
  output_possible : s.output_possible = a.output_possible

section

variable {s : State} {a : Spec}

variable {c : Text} {l : Label}

lemma Related.out_html (h : Related s a) (hfits : a.Fits (.out_html c)) :
    ∃ t, Output.out_html s c = some t ∧ Related t (a.out_html c) := by
  have he := emitted_noNul a.no_newline_output c
  simp only [Output.out_html, Spec.out_html, h.no_newline_output]
  simp only [Spec.Fits] at hfits
  generalize emitted a.no_newline_output c = e at he hfits
  cases hf : innermost a.calls with
  | some f =>
    have hheld := h.calls.holding hf
    obtain ⟨out, hout, hnext⟩ := hheld.puts he (hfits f hf)
    refine ⟨_, by simp only [hheld.scaninbuff, if_true, hout]; rfl, ?_⟩
    exact ⟨h.calls.append hf hnext, h.results, h.small, by simpa using h.page, rfl,
      h.output_possible⟩
  | none =>
    obtain ⟨hbuffer, hscan⟩ := h.calls.without hf
    simp only [hscan, Bool.false_eq_true, if_false, appendText_without hf, true_and,
      ← h.output_possible]
    cases ha : s.output_possible with
    | true =>
      obtain ⟨page, hpage, hshows⟩ := h.page.puts he
      simp only [if_true, hpage]
      exact ⟨_, rfl, h.calls, h.results, h.small, hshows, rfl, rfl⟩
    | false =>
      simp only [Bool.false_eq_true, if_false]
      exact ⟨_, rfl, h.calls, h.results, h.small, h.page, rfl, rfl⟩

lemma Related.out_html_none (h : Related s a) (hfits : ¬ a.Fits (.out_html c)) :
    Output.out_html s c = none := by
  have he := emitted_noNul a.no_newline_output c
  simp only [Output.out_html, h.no_newline_output]
  simp only [Spec.Fits] at hfits
  generalize emitted a.no_newline_output c = e at he hfits
  push Not at hfits
  obtain ⟨f, hf, hne, hroom⟩ := hfits
  have hheld := h.calls.holding hf
  simp only [hheld.scaninbuff, if_true, hheld.puts_none he hne hroom]
  rfl

lemma Related.taken (h : Related s a) (earlier : Option ℕ) :
    (Output.taken s.results earlier = none ∧ Output.taken a.results earlier = none) ∨
      ∃ m results t texts, Output.taken s.results earlier = some (m, results) ∧
        Output.taken a.results earlier = some (t, texts) ∧ Memory.string m = some t ∧
        results.map Memory.string = texts.map some ∧ t ∈ a.results ∧
          ∀ u ∈ texts, u ∈ a.results := by
  cases earlier with
  | none => exact Or.inl ⟨rfl, rfl⟩
  | some k =>
    have hk := congrArg (fun strings => strings[k]?) h.results
    simp only [List.getElem?_map] at hk
    cases hs : s.results[k]? with
    | none =>
      rw [hs, Option.map_none] at hk
      have ha : a.results[k]? = none := Option.map_eq_none_iff.mp hk.symm
      exact Or.inl ⟨by simp [Output.taken, hs], by simp [Output.taken, ha]⟩
    | some m =>
      rw [hs, Option.map_some] at hk
      obtain ⟨t, ht, hm⟩ := Option.map_eq_some_iff.mp hk.symm
      refine Or.inr ⟨m, s.results.eraseIdx k, t, a.results.eraseIdx k, by simp [Output.taken, hs],
        by simp [Output.taken, ht], hm.symm, ?_, List.mem_of_getElem? ht,
        fun u hu => List.mem_of_mem_eraseIdx hu⟩
      rw [← List.eraseIdx_map, ← List.eraseIdx_map, h.results]

lemma Related.call (h : Related s a) (result : Option (Option ℕ)) :
    ∃ t, Output.call s result = some t ∧ Related t (a.call result) := by
  cases result with
  | none =>
    exact ⟨_, rfl, .pass h.calls, h.results, h.small, h.page, h.no_newline_output,
      h.output_possible⟩
  | some earlier =>
    rcases h.taken earlier with ⟨hs, ha⟩ | ⟨m, results, t, texts, hs, ha, hm, hmap, ht, htexts⟩
    · simp only [Output.call, Spec.call, hs, ha]
      refine ⟨_, rfl, .result ?_ h.calls, h.results, h.small, h.page, h.no_newline_output,
        h.output_possible⟩
      refine ⟨rfl, ⟨Memory.new (LARGE_STR_MAX + 1), rfl, .first ?_⟩, rfl, Nat.zero_le _,
        show (2000 : ℕ) < 2 ^ 31 by decide, Nat.le_refl _, List.not_mem_nil⟩
      rw [Memory.new, List.length_replicate, List.length_nil, Nat.zero_add]
      exact Nat.lt_succ_self _
    · simp only [Output.call, Spec.call, hs, ha, hm, Option.bind_eq_bind, Option.bind_some]
      obtain ⟨hnul, rest, rfl⟩ := Memory.of_string hm
      refine ⟨_, rfl, .result ?_ h.calls, hmap, fun u hu => h.small u (htexts u hu), h.page,
        h.no_newline_output, h.output_possible⟩
      refine ⟨rfl, ⟨_, rfl, .first ?_⟩, rfl, Nat.le_refl _, h.small t ht, Nat.le_refl _, hnul⟩
      simp only [List.length_cons]
      omega

lemma Related.terminate (h : Related s a) (hfits : a.Fits .returns) :
    ∃ out, s.out.terminate = some out ∧ Calls out s.calls a.calls ∧
      ∀ f ∈ innermost a.calls, out.buffer.toList.map Memory.string = [some f.text] := by
  cases hf : innermost a.calls with
  | none =>
    obtain ⟨hbuffer, -⟩ := h.calls.without hf
    exact ⟨s.out, by simp [Buffer.terminate, hbuffer], h.calls, by simp⟩
  | some f =>
    obtain ⟨m, hm, hstring, hheld⟩ := (h.calls.holding hf).terminate (hfits f hf)
    have hcalls := h.calls.append (e := []) hf (by simpa using hheld)
    rw [appendText_nil] at hcalls
    refine ⟨_, hm, hcalls, fun g hg => ?_⟩
    obtain rfl := Option.some.inj hg
    simp [hstring]

lemma Related.returns (h : Related s a) (hfits : a.Fits .returns) :
    ∃ t, Output.returns s = some t ∧ Related t a.returns := by
  obtain ⟨out, hout, hcalls, hresult⟩ := h.terminate hfits
  have hold := h.calls
  unfold Output.returns Spec.returns
  generalize hsc : s.calls = sc at hcalls hold ⊢
  generalize hac : a.calls = ac at hcalls hold hresult ⊢
  cases hold with
  | outside => exact ⟨s, rfl, h⟩
  | pass hrest =>
    cases hcalls with
    | pass hcalls =>
      simp only [hout, Option.bind_eq_bind, Option.bind_some]
      exact ⟨_, rfl, hcalls, h.results, h.small, h.page, h.no_newline_output, h.output_possible⟩
  | result hheld hrest =>
    simp only [hout, Option.bind_eq_bind, Option.bind_some]
    refine ⟨_, rfl, hrest, ?_, ?_, h.page, h.no_newline_output, h.output_possible⟩
    · rw [List.map_append, hresult _ rfl, h.results, List.map_cons]
      rfl
    · intro t ht
      rcases List.mem_cons.mp ht with rfl | hmem
      · have hpos := hheld.buffpos
        have hle := hheld.le
        have hsmall := hheld.small
        omega
      · exact h.small t hmem

lemma Related.returns_none (h : Related s a) (hfits : ¬ a.Fits .returns) :
    Output.returns s = none := by
  simp only [Spec.Fits] at hfits
  push Not at hfits
  obtain ⟨f, hf, hfull⟩ := hfits
  have hnone := (h.calls.holding hf).terminate_none hfull
  have hcalls := h.calls
  unfold Output.returns
  generalize s.calls = sc at hcalls ⊢
  generalize a.calls = ac at hcalls hf
  cases hcalls with
  | outside => cases hf
  | pass => rw [hnone]; rfl
  | result => rw [hnone]; rfl

lemma Related.step (h : Related s a) (hfits : a.Fits l) :
    ∃ t, Output.step s l = some t ∧ Related t (a.next l) := by
  cases l with
  | out_html c => exact h.out_html hfits
  | call result => exact h.call result
  | returns => exact h.returns hfits
  | delete k =>
    refine ⟨_, rfl, h.calls, ?_, fun t ht => h.small t (List.mem_of_mem_eraseIdx ht), h.page,
      h.no_newline_output, h.output_possible⟩
    change (s.results.eraseIdx k).map _ = (a.results.eraseIdx k).map _
    rw [← List.eraseIdx_map, ← List.eraseIdx_map, h.results]
  | noNewline => exact ⟨_, rfl, h.calls, h.results, h.small, h.page, rfl, h.output_possible⟩
  | output possible =>
    exact ⟨_, rfl, h.calls, h.results, h.small, h.page, h.no_newline_output, rfl⟩

lemma Related.step_none (h : Related s a) (hfits : ¬ a.Fits l) : Output.step s l = none := by
  cases l with
  | out_html c => exact h.out_html_none hfits
  | returns => exact h.returns_none hfits
  | call result => exact absurd trivial hfits
  | delete k => exact absurd trivial hfits
  | noNewline => exact absurd trivial hfits
  | output possible => exact absurd trivial hfits

end

lemma related_initial : Related initial Spec.initial where
  calls := .outside rfl rfl
  results := rfl
  small := by simp [Spec.initial]
  page := by
    refine ⟨⟨[], List.replicate (NULL_TERMINATED HUGE_STR_MAX) (some NUL), rfl, rfl, ?_,
      List.not_mem_nil, rfl⟩, show 0 < 10000 by omega⟩
    rw [List.length_replicate, List.length_nil, Nat.zero_add]
  no_newline_output := rfl
  output_possible := rfl

/-- No write leaves its array, every returned string is the earlier result with what was given out
behind it, and what went to `add_links` is the page so far. -/
def WritesRight (ls : List Label) : Prop :=
  ∃ s, run step initial ls = some s ∧
    s.results.map Memory.string = (ls.foldl Spec.next Spec.initial).results.map some ∧
    s.page.linked.flatten <+: (ls.foldl Spec.next Spec.initial).page

lemma WritesRight.fits (h : WritesRight ls) : AllNext Spec.next Spec.Fits Spec.initial ls := by
  obtain ⟨s, hs, -⟩ := h
  have hrelated := run_related (fun s a l h => Related.step (s := s) (a := a) h (l := l))
    (fun s a l h => Related.step_none (s := s) (a := a) h (l := l)) related_initial hs
  exact (run_simulates_iff (fun s a l h => Related.step (s := s) (a := a) h (l := l))
    (fun s a l h => Related.step_none (s := s) (a := a) h (l := l)) related_initial ls).mp
    ⟨s, hs, hrelated⟩

lemma writesRight_of_fits (h : AllNext Spec.next Spec.Fits Spec.initial ls) : WritesRight ls := by
  obtain ⟨s, hs, hrelated⟩ :=
    (run_simulates_iff (fun s a l h => Related.step (s := s) (a := a) h (l := l))
      (fun s a l h => Related.step_none (s := s) (a := a) h (l := l)) related_initial ls).mpr h
  obtain ⟨current, rest, -, -, -, -, hpage⟩ := hrelated.page.line
  exact ⟨s, hs, hrelated.results, current, hpage.symm⟩

/-- **Output**: all is written as it should be as long as no output is put behind an empty earlier
result, no call ends with a full buffer, and no size gets too large; and otherwise it is not. -/
theorem writesRight_iff (ls : List Label) :
    WritesRight ls ↔ AllNext Spec.next Spec.Fits Spec.initial ls :=
  ⟨WritesRight.fits, writesRight_of_fits⟩

/-- An empty result that is given to a second call has no room for its output. -/
theorem empty_result_overrun : ¬ ∀ ls, WritesRight ls := by
  intro h
  have hfits := (h [.call (some none), .returns, .call (some (some 0)), .out_html ['x']]).fits
  have hroom := hfits.2.2.2.1 ⟨0, []⟩ rfl (by decide)
  exact hroom.1 rfl

end KioExtras.Man.Output
