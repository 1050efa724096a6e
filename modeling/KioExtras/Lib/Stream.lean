import Mathlib.Algebra.GroupWithZero.Nat
import Mathlib.Data.List.Basic
import Mathlib.Tactic.Common

/-!
Numbers as bytes of a fixed width, the least significant first, and programs that read one
stream, from a position they can move, and append to another.

Nothing can be read behind the end: a block is cut there, and a number that is cut is 0. A
program that fails keeps what it has written until then.
-/

namespace KioExtras.Lib.Stream

abbrev Bytes := List UInt8

def ofBytes : Bytes → ℕ
  | [] => 0
  | b :: bytes => b.toNat + 256 * ofBytes bytes

def toBytes : ℕ → ℕ → Bytes
  | 0, _ => []
  | w + 1, n => UInt8.ofNat n :: toBytes w (n / 256)

@[simp] lemma length_toBytes (w n : ℕ) : (toBytes w n).length = w := by
  induction w generalizing n with
  | zero => rfl
  | succ w ih => simp [toBytes, ih]

lemma ofBytes_toBytes {w n : ℕ} (h : n < 256 ^ w) : ofBytes (toBytes w n) = n := by
  induction w generalizing n with
  | zero =>
    have hzero : n = 0 := by simpa using h
    rw [hzero]
    rfl
  | succ w ih =>
    have hdiv : n / 256 < 256 ^ w := by
      apply Nat.div_lt_of_lt_mul
      calc n < 256 ^ (w + 1) := h
        _ = 256 * 256 ^ w := by rw [pow_succ, Nat.mul_comm]
    have hlow : (UInt8.ofNat n).toNat = n % 256 := by simp
    have hsplit := Nat.mod_add_div n 256
    rw [toBytes, ofBytes, ih hdiv, hlow]
    exact hsplit

lemma toBytes_inj {w m n : ℕ} (hm : m < 256 ^ w) (hn : n < 256 ^ w)
    (h : toBytes w m = toBytes w n) : m = n := by
  rw [← ofBytes_toBytes hm, ← ofBytes_toBytes hn, h]

/-! ### Programs -/

/-- What is read, and whether it can be wound behind its end. -/
structure Device where
  input : Bytes
  seekPastEnd : Bool

structure Streams where
  pos : ℕ
  written : Bytes

/-- The result, if the program does not fail, and what it leaves. -/
def Program (α : Type) := Streams → Option α × Streams

namespace Program

variable {α β γ : Type}

def fail : Program α := fun s => (none, s)

instance : Monad Program where
  pure a := fun s => (some a, s)
  bind x f := fun s => match x s with
    | (none, t) => (none, t)
    | (some a, t) => f a t

instance : LawfulMonad Program :=
  LawfulMonad.mk' Program
    (fun x => by
      funext s
      show (match x s with
        | (none, t) => (none, t)
        | (some a, t) => (some a, t) : Option _ × Streams) = x s
      rcases x s with ⟨_ | a, t⟩ <;> rfl)
    (fun _ _ => rfl)
    (fun x f g => by
      funext s
      show (match (match x s with
          | (none, t) => (none, t)
          | (some a, t) => f a t : Option _ × Streams) with
        | (none, t) => (none, t)
        | (some b, t) => g b t : Option _ × Streams) = match x s with
          | (none, t) => (none, t)
          | (some a, t) => match f a t with
            | (none, t) => (none, t)
            | (some b, t) => g b t
      rcases x s with ⟨_ | a, t⟩ <;> rfl)

def Gives (x : Program α) (s : Streams) (a : α) (t : Streams) : Prop := x s = (some a, t)

variable {a : α} {s t : Streams} {f : α → Program β} {x : Program α} {dev : Device}

@[simp] lemma gives_pure {b : α} : (pure a : Program α).Gives s b t ↔ a = b ∧ s = t := by
  show ((some a, s) : Option α × Streams) = (some b, t) ↔ _
  simp

@[simp] lemma gives_bind {b : β} :
    (x >>= f).Gives s b t ↔ ∃ a u, x.Gives s a u ∧ (f a).Gives u b t := by
  show (match x s with
    | (none, t) => (none, t)
    | (some a, t) => f a t) = (some b, t) ↔ _
  unfold Gives
  rcases x s with ⟨_ | a, u⟩
  · simp
  · constructor
    · intro h
      exact ⟨a, u, rfl, h⟩
    · rintro ⟨_, _, heq, h⟩
      obtain ⟨rfl, rfl⟩ : a = _ ∧ u = _ := by simpa using heq
      exact h

@[simp] lemma gives_fail : ¬ (fail : Program α).Gives s a t := by
  simp [Gives, fail]

lemma Gives.unique {u : Streams} {b : α} (ha : x.Gives s a t) (hb : x.Gives s b u) :
    a = b ∧ t = u := by
  have heq := ha.symm.trans hb
  simpa using heq

def check (p : Prop) [Decidable p] : Program Unit := if p then pure () else fail

@[simp] lemma gives_check {p : Prop} [Decidable p] {a : Unit} :
    (check p).Gives s a t ↔ p ∧ s = t := by
  by_cases hp : p <;> simp [check, hp]

def ofOption : Option α → Program α
  | none => fail
  | some a => pure a

lemma ofOption_map (o : Option α) (f : α → β) :
    ofOption (o.map f) = (do pure (f (← ofOption o)) : Program β) := by
  cases o <;> rfl

@[simp] lemma gives_ofOption {o : Option α} : (ofOption o).Gives s a t ↔ o = some a ∧ s = t := by
  cases o <;> simp [ofOption]

/-! ### Reading and writing -/

def readBlock (dev : Device) (n : ℕ) : Program Bytes := fun s =>
  let block := (dev.input.drop s.pos).take n
  (some block, ⟨s.pos + block.length, s.written⟩)

def readNumber (dev : Device) (w : ℕ) : Program ℕ := do
  let block ← readBlock dev w
  pure (if block.length = w then ofBytes block else 0)

def skip (dev : Device) (n : ℕ) : Program Unit := do
  let _ ← readBlock dev n

def seek (dev : Device) (offset : ℤ) : Program Unit := fun s =>
  if offset < 0 ∨ (dev.seekPastEnd = false ∧ dev.input.length < offset.toNat) then (none, s)
  else (some (), ⟨offset.toNat, s.written⟩)

def write (bytes : Bytes) : Program Unit := fun s => (some (), ⟨s.pos, s.written ++ bytes⟩)

def times (x : Program α) : ℕ → Program (List α)
  | 0 => pure []
  | n + 1 => do
    let a ← x
    let rest ← times x n
    pure (a :: rest)

variable {n : ℕ} {l : List α}

lemma gives_readBlock {block : Bytes} :
    (readBlock dev n).Gives s block t ↔
      block = (dev.input.drop s.pos).take n ∧ t = ⟨s.pos + block.length, s.written⟩ := by
  unfold Gives readBlock
  constructor
  · intro h
    obtain ⟨rfl, rfl⟩ := by simpa using h
    simp
  · rintro ⟨rfl, rfl⟩
    rfl

lemma gives_seek {offset : ℤ} {a : Unit} (h : (seek dev offset).Gives s a t) :
    0 ≤ offset ∧ t = ⟨offset.toNat, s.written⟩ := by
  unfold Gives seek at h
  split at h
  · simp at h
  · next hno =>
    obtain rfl : _ = t := by simpa using h
    exact ⟨by omega, rfl⟩

def CanSeek (dev : Device) (offset : ℤ) : Prop :=
  0 ≤ offset ∧ (dev.seekPastEnd = false → offset ≤ dev.input.length)

lemma gives_seek_iff {offset : ℤ} {a : Unit} :
    (seek dev offset).Gives s a t ↔ CanSeek dev offset ∧ t = ⟨offset.toNat, s.written⟩ := by
  unfold Gives seek CanSeek
  split
  · next hno =>
    refine iff_of_false (by simp) ?_
    rintro ⟨⟨hnonneg, hend⟩, -⟩
    rcases hno with hneg | ⟨hpast, hlt⟩
    · omega
    · have hle := hend hpast
      omega
  · next hno =>
    rw [not_or, not_and] at hno
    constructor
    · intro h
      obtain rfl : _ = t := by simpa using h
      refine ⟨⟨by omega, fun hpast => ?_⟩, rfl⟩
      have hle := hno.2 hpast
      omega
    · rintro ⟨-, rfl⟩
      rfl

lemma gives_seek_from {offset : ℤ} {a : Unit} (h : (seek dev offset).Gives s a t) (pos : ℕ) :
    (seek dev offset).Gives ⟨pos, s.written⟩ a t := by
  unfold Gives seek at h ⊢
  split at h
  · simp at h
  · next hno => rwa [if_neg hno]

@[simp] lemma gives_write {bytes : Bytes} {a : Unit} :
    (write bytes).Gives s a t ↔ t = ⟨s.pos, s.written ++ bytes⟩ := by
  unfold Gives write
  constructor
  · intro h
    obtain rfl : _ = t := by simpa using h
    rfl
  · rintro rfl
    rfl

lemma gives_times_zero : (times x 0).Gives s l t ↔ l = [] ∧ t = s := by
  rw [times, gives_pure]
  constructor <;> rintro ⟨rfl, rfl⟩ <;> exact ⟨rfl, rfl⟩

lemma gives_times_succ :
    (times x (n + 1)).Gives s l t ↔
      ∃ a rest u, l = a :: rest ∧ x.Gives s a u ∧ (times x n).Gives u rest t := by
  rw [times]
  simp only [gives_bind, gives_pure]
  constructor
  · rintro ⟨a, u, ha, rest, _, hrest, rfl, rfl⟩
    exact ⟨a, rest, u, rfl, ha, hrest⟩
  · rintro ⟨a, rest, u, rfl, ha, hrest⟩
    exact ⟨a, u, ha, rest, t, hrest, rfl, rfl⟩

lemma Gives.length_times (h : (times x n).Gives s l t) : l.length = n := by
  induction n generalizing s l with
  | zero =>
    obtain ⟨rfl, -⟩ := gives_times_zero.mp h
    rfl
  | succ n ih =>
    obtain ⟨a, rest, u, rfl, -, hrest⟩ := gives_times_succ.mp h
    rw [List.length_cons, ih hrest]

lemma gives_readNumber_past {w a : ℕ} (hs : dev.input.length ≤ s.pos) :
    (readNumber dev w).Gives s a t ↔ a = 0 ∧ t = s := by
  have hblock : (dev.input.drop s.pos).take w = [] := by simp [List.drop_eq_nil_of_le hs]
  simp only [readNumber, gives_bind, gives_readBlock, gives_pure, hblock]
  constructor
  · rintro ⟨_, _, ⟨rfl, rfl⟩, ha, rfl⟩
    refine ⟨?_, rfl⟩
    rw [← ha]
    split <;> rfl
  · rintro ⟨rfl, rfl⟩
    refine ⟨[], t, ⟨rfl, rfl⟩, ?_, rfl⟩
    split <;> rfl

lemma gives_readNumber_pos {w a : ℕ} (h : (readNumber dev w).Gives s a t) (ha : a ≠ 0) :
    t.pos = s.pos + w ∧ t.pos ≤ dev.input.length ∨ w = 0 := by
  simp only [readNumber, gives_bind, gives_readBlock, gives_pure] at h
  obtain ⟨block, _, ⟨hblock, rfl⟩, hval, rfl⟩ := h
  by_cases hlen : block.length = w
  · have hle : block.length = min w (dev.input.length - s.pos) := by
      rw [hblock, List.length_take, List.length_drop]
    by_cases hw : w = 0
    · exact Or.inr hw
    · left
      refine ⟨by simp [hlen], ?_⟩
      show s.pos + block.length ≤ _
      omega
  · rw [if_neg hlen] at hval
    exact absurd hval.symm ha

/-! ### Programs that only read -/

/-- Nothing is written, and what is written makes no difference. -/
def Reads (x : Program α) : Prop :=
  ∀ pos w w', (x ⟨pos, w⟩).2.written = w ∧ (x ⟨pos, w'⟩).1 = (x ⟨pos, w⟩).1 ∧
    (x ⟨pos, w'⟩).2.pos = (x ⟨pos, w⟩).2.pos

lemma Reads.written (h : Reads x) (s : Streams) :
    (x s).2.written = s.written := (h s.pos s.written s.written).1

lemma Reads.gives (h : Reads x) (hx : x.Gives s a t) (w : Bytes) :
    x.Gives ⟨s.pos, w⟩ a ⟨t.pos, w⟩ := by
  obtain ⟨-, hres, hpos⟩ := h s.pos s.written w
  have hw := (h s.pos w w).1
  unfold Gives at hx ⊢
  rw [show (⟨s.pos, s.written⟩ : Streams) = s from rfl, hx] at hres hpos
  revert hres hpos hw
  rcases x ⟨s.pos, w⟩ with ⟨o, pos, w'⟩
  rintro rfl rfl rfl
  rfl

lemma Reads.silent (h : Reads x) (hx : x.Gives s a t) : t.written = s.written := by
  have hs := h.written s
  rwa [hx] at hs

@[simp] lemma reads_pure (a : α) : Reads (pure a : Program α) := fun _ _ _ => ⟨rfl, rfl, rfl⟩

@[simp] lemma reads_fail : Reads (fail : Program α) := fun _ _ _ => ⟨rfl, rfl, rfl⟩

lemma bind_none (hx : x s = (none, t)) : (x >>= f) s = (none, t) := by
  show (match x s with
    | (none, t) => (none, t)
    | (some a, t) => f a t : Option β × Streams) = _
  rw [hx]

lemma bind_some (hx : x.Gives s a t) : (x >>= f) s = f a t := by
  show (match x s with
    | (none, t) => (none, t)
    | (some a, t) => f a t : Option β × Streams) = _
  rw [show x s = (some a, t) from hx]

lemma Reads.bind (hx : Reads x) (hf : ∀ a, Reads (f a)) : Reads (x >>= f) := by
  intro pos w w'
  rcases hw : x ⟨pos, w⟩ with ⟨_ | a, t⟩
  · have hw' : x ⟨pos, w'⟩ = (none, ⟨t.pos, w'⟩) := by
      obtain ⟨-, hres, hpos⟩ := hx pos w w'
      have hsil := (hx pos w' w').1
      rw [hw] at hres hpos
      revert hres hpos hsil
      rcases x ⟨pos, w'⟩ with ⟨o, p, v⟩
      rintro rfl rfl rfl
      rfl
    have hsil := (hx pos w w).1
    rw [hw] at hsil
    rw [bind_none hw, bind_none hw']
    exact ⟨hsil, rfl, rfl⟩
  · have hgives : x.Gives ⟨pos, w⟩ a t := hw
    have hsil : t = ⟨t.pos, w⟩ := congrArg (Streams.mk t.pos) (hx.silent hgives)
    rw [bind_some hgives, bind_some (hx.gives hgives w'), hsil]
    exact hf a t.pos w w'

@[simp] lemma reads_check (p : Prop) [Decidable p] : Reads (check p) := by
  unfold check
  split <;> simp

@[simp] lemma reads_ofOption (o : Option α) : Reads (ofOption o) := by
  cases o <;> simp [ofOption]

@[simp] lemma reads_readBlock (dev : Device) (n : ℕ) : Reads (readBlock dev n) :=
  fun _ _ _ => ⟨rfl, rfl, rfl⟩

@[simp] lemma reads_seek (dev : Device) (offset : ℤ) : Reads (seek dev offset) := by
  intro pos w w'
  unfold seek
  split <;> exact ⟨rfl, rfl, rfl⟩

@[simp] lemma reads_readNumber (dev : Device) (w : ℕ) : Reads (readNumber dev w) :=
  (reads_readBlock dev w).bind fun _ => reads_pure _

@[simp] lemma reads_skip (dev : Device) (n : ℕ) : Reads (skip dev n) :=
  (reads_readBlock dev n).bind fun _ => reads_pure _

lemma Reads.times (hx : Reads x) (n : ℕ) : Reads (times x n) := by
  induction n with
  | zero => exact reads_pure _
  | succ n ih => exact hx.bind fun _ => ih.bind fun _ => reads_pure _

lemma Reads.foldlM {f : β → α → Program β} (hf : ∀ b a, Reads (f b a)) (l : List α) (b : β) :
    Reads (l.foldlM f b) := by
  induction l generalizing b with
  | nil => exact reads_pure b
  | cons a l ih => exact (hf b a).bind fun c => ih c

/-! ### Programs that go forward -/

/-- The program does not fail and does not go back. -/
def Advances (x : Program α) : Prop := ∀ s, ∃ a t, x.Gives s a t ∧ s.pos ≤ t.pos

@[simp] lemma advances_pure (a : α) : Advances (pure a : Program α) :=
  fun s => ⟨a, s, rfl, Nat.le_refl _⟩

lemma Advances.bind (hx : Advances x) (hf : ∀ a, Advances (f a)) : Advances (x >>= f) := by
  intro s
  obtain ⟨a, t, ha, hst⟩ := hx s
  obtain ⟨b, u, hb, htu⟩ := hf a t
  exact ⟨b, u, gives_bind.mpr ⟨a, t, ha, hb⟩, by omega⟩

lemma Advances.le (hx : Advances x) (h : x.Gives s a t) : s.pos ≤ t.pos := by
  obtain ⟨b, u, hb, hle⟩ := hx s
  obtain ⟨-, rfl⟩ := h.unique hb
  exact hle

@[simp] lemma advances_readBlock (dev : Device) (n : ℕ) : Advances (readBlock dev n) :=
  fun _ => ⟨_, _, rfl, Nat.le_add_right _ _⟩

@[simp] lemma advances_readNumber (dev : Device) (w : ℕ) : Advances (readNumber dev w) :=
  (advances_readBlock dev w).bind fun _ => advances_pure _

lemma Advances.times (hx : Advances x) (n : ℕ) : Advances (times x n) := by
  induction n with
  | zero => exact advances_pure _
  | succ n ih => exact hx.bind fun _ => ih.bind fun _ => advances_pure _

/-! ### Programs that start anywhere -/

/-- What is given depends neither on where the stream stands nor on what is written. -/
def Anywhere (x : Program α) : Prop :=
  ∀ s a t, x.Gives s a t → ∀ s' : Streams, x.Gives s' a ⟨t.pos, s'.written⟩

lemma anywhere_seek (dev : Device) (offset : ℤ) : Anywhere (seek dev offset) := by
  intro s a t h s'
  obtain ⟨-, rfl⟩ := gives_seek h
  unfold Gives seek at h ⊢
  split at h
  · simp at h
  · next hno => rw [if_neg hno]

lemma Anywhere.bind (hx : Anywhere x) (hf : ∀ a, Reads (f a)) : Anywhere (x >>= f) := by
  intro s b t h s'
  obtain ⟨a, u, ha, hb⟩ := gives_bind.mp h
  exact gives_bind.mpr ⟨a, ⟨u.pos, s'.written⟩, hx _ _ _ ha s', (hf a).gives hb s'.written⟩

/-- What is given from the beginning. -/
def result (x : Program α) : Option α := (x ⟨0, []⟩).1

lemma result_eq_some : x.result = some a ↔ ∃ t, x.Gives ⟨0, []⟩ a t := by
  unfold result Gives
  constructor
  · intro h
    exact ⟨(x ⟨0, []⟩).2, by rw [← h]⟩
  · rintro ⟨t, h⟩
    rw [h]

lemma Anywhere.result_eq_some (hx : Anywhere x) (s : Streams) :
    x.result = some a ↔ ∃ t, x.Gives s a t := by
  rw [Program.result_eq_some]
  constructor
  · rintro ⟨t, h⟩
    exact ⟨_, hx _ _ _ h s⟩
  · rintro ⟨t, h⟩
    exact ⟨_, hx _ _ _ h _⟩

end Program

end KioExtras.Lib.Stream
