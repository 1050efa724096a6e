import Mathlib.Data.UInt
import Mathlib.Tactic.Common

/-!
Base64 without padding, for any alphabet of 64 letters: three bytes are four letters, and the last
one or two bytes are two or three. A decoder goes through the letters one by one and skips what is
no letter.
-/

namespace KioExtras.Lib.Base64

/-- 64 letters, and the number of each. -/
structure Alphabet (α : Type*) where
  letter : ℕ → α
  value : α → Option ℕ
  value_letter : ∀ d < 64, value (letter d) = some d

variable {α : Type*} (A : Alphabet α)

/-- The four numbers of six bits in three bytes -/
def sextets (chunk : ℕ) : ℕ × ℕ × ℕ × ℕ :=
  (chunk / 2 ^ 18 % 64, chunk / 2 ^ 12 % 64, chunk / 2 ^ 6 % 64, chunk % 64)

def chunk (a b c : UInt8) : ℕ := a.toNat * 2 ^ 16 + b.toNat * 2 ^ 8 + c.toNat

def encode : List UInt8 → List α
  | [] => []
  | [a] =>
    let (j, k, _, _) := sextets (chunk a 0 0)
    [A.letter j, A.letter k]
  | [a, b] =>
    let (j, k, l, _) := sextets (chunk a b 0)
    [A.letter j, A.letter k, A.letter l]
  | a :: b :: c :: rest =>
    let (j, k, l, m) := sextets (chunk a b c)
    A.letter j :: A.letter k :: A.letter l :: A.letter m :: encode rest

/-- `buf` has the `nbits` bits that were read and are not yet part of a byte. -/
def decodeFrom (buf nbits : ℕ) : List α → List UInt8
  | [] => []
  | ch :: rest =>
    match A.value ch with
    | none => decodeFrom buf nbits rest
    | some d =>
      if 8 ≤ nbits + 6 then
        UInt8.ofNat ((buf * 64 + d) / 2 ^ (nbits + 6 - 8)) ::
          decodeFrom ((buf * 64 + d) % 2 ^ (nbits + 6 - 8)) (nbits + 6 - 8) rest
      else decodeFrom (buf * 64 + d) (nbits + 6) rest

def decode (text : List α) : List UInt8 := decodeFrom A 0 0 text

variable {A}

lemma decodeFrom_short {buf nbits d : ℕ} {rest : List α} (hd : d < 64) (h : nbits + 6 < 8) :
    decodeFrom A buf nbits (A.letter d :: rest) = decodeFrom A (buf * 64 + d) (nbits + 6) rest := by
  rw [decodeFrom, A.value_letter d hd]
  dsimp only
  rw [if_neg (by omega)]

lemma decodeFrom_byte {buf nbits d : ℕ} {rest : List α} {x : UInt8} (hd : d < 64)
    (h : 8 ≤ nbits + 6) (hbyte : (buf * 64 + d) / 2 ^ (nbits + 6 - 8) = x.toNat) :
    decodeFrom A buf nbits (A.letter d :: rest) =
      x :: decodeFrom A ((buf * 64 + d) % 2 ^ (nbits + 6 - 8)) (nbits + 6 - 8) rest := by
  rw [decodeFrom, A.value_letter d hd]
  dsimp only
  rw [if_pos h, hbyte, UInt8.ofNat_toNat]

lemma mod_lt (n : ℕ) : n % 64 < 64 := Nat.mod_lt _ (by decide)

lemma decodeFrom_one (a : UInt8) (rest : List α) :
    decodeFrom A 0 0 (A.letter (chunk a 0 0 / 2 ^ 18 % 64) ::
      A.letter (chunk a 0 0 / 2 ^ 12 % 64) :: rest) = a :: decodeFrom A 0 4 rest := by
  have ha := a.toNat_lt
  have hzero : (0 : UInt8).toNat = 0 := rfl
  rw [decodeFrom_short (mod_lt _) (by omega), decodeFrom_byte (x := a) (mod_lt _) (by omega)]
  · have hbuf : ((0 * 64 + chunk a 0 0 / 2 ^ 18 % 64) * 64 + chunk a 0 0 / 2 ^ 12 % 64) %
        2 ^ (0 + 6 + 6 - 8) = 0 := by
      unfold chunk
      omega
    rw [hbuf]
  · unfold chunk
    omega

lemma decodeFrom_two (a b : UInt8) (rest : List α) :
    decodeFrom A 0 0 (A.letter (chunk a b 0 / 2 ^ 18 % 64) ::
      A.letter (chunk a b 0 / 2 ^ 12 % 64) :: A.letter (chunk a b 0 / 2 ^ 6 % 64) :: rest) =
      a :: b :: decodeFrom A 0 2 rest := by
  have ha := a.toNat_lt
  have hb := b.toNat_lt
  have hzero : (0 : UInt8).toNat = 0 := rfl
  rw [decodeFrom_short (mod_lt _) (by omega), decodeFrom_byte (x := a) (mod_lt _) (by omega),
    decodeFrom_byte (x := b) (mod_lt _) (by omega)]
  · have hbuf : (((0 * 64 + chunk a b 0 / 2 ^ 18 % 64) * 64 + chunk a b 0 / 2 ^ 12 % 64) %
        2 ^ (0 + 6 + 6 - 8) * 64 + chunk a b 0 / 2 ^ 6 % 64) % 2 ^ (0 + 6 + 6 - 8 + 6 - 8) = 0 := by
      unfold chunk
      omega
    rw [hbuf]
  · unfold chunk
    omega
  · unfold chunk
    omega

lemma decodeFrom_three (a b c : UInt8) (rest : List α) :
    decodeFrom A 0 0 (A.letter (chunk a b c / 2 ^ 18 % 64) ::
      A.letter (chunk a b c / 2 ^ 12 % 64) :: A.letter (chunk a b c / 2 ^ 6 % 64) ::
      A.letter (chunk a b c % 64) :: rest) = a :: b :: c :: decodeFrom A 0 0 rest := by
  have ha := a.toNat_lt
  have hb := b.toNat_lt
  have hc := c.toNat_lt
  rw [decodeFrom_short (mod_lt _) (by omega), decodeFrom_byte (x := a) (mod_lt _) (by omega),
    decodeFrom_byte (x := b) (mod_lt _) (by omega),
    decodeFrom_byte (x := c) (mod_lt _) (by omega)]
  · have hbuf : ∀ n : ℕ, n % 2 ^ (0 + 6 + 6 - 8 + 6 - 8 + 6 - 8) = 0 := fun n => Nat.mod_one n
    rw [hbuf]
  · unfold chunk
    omega
  · unfold chunk
    omega
  · unfold chunk
    omega

/-- **Round trip**: what is decoded is what was encoded. -/
theorem decode_encode (bytes : List UInt8) : decode A (encode A bytes) = bytes := by
  unfold decode
  induction bytes using encode.induct with
  | case1 => rfl
  | case2 a =>
    simp only [encode, sextets]
    rw [decodeFrom_one]
    rfl
  | case3 a b =>
    simp only [encode, sextets]
    rw [decodeFrom_two]
    rfl
  | case4 a b c rest _ _ _ _ _ ih =>
    simp only [encode, sextets]
    rw [decodeFrom_three, ih]

lemma mem_encode {bytes : List UInt8} {ch : α} (h : ch ∈ encode A bytes) :
    ∃ d < 64, ch = A.letter d := by
  induction bytes using encode.induct with
  | case1 => exact absurd h List.not_mem_nil
  | case2 a =>
    simp only [encode, sextets, List.mem_cons, List.not_mem_nil, or_false] at h
    rcases h with rfl | rfl
    all_goals exact ⟨_, mod_lt _, rfl⟩
  | case3 a b =>
    simp only [encode, sextets, List.mem_cons, List.not_mem_nil, or_false] at h
    rcases h with rfl | rfl | rfl
    all_goals exact ⟨_, mod_lt _, rfl⟩
  | case4 a b c rest _ _ _ _ _ ih =>
    simp only [encode, sextets, List.mem_cons] at h
    rcases h with rfl | rfl | rfl | rfl | hrest
    · exact ⟨_, mod_lt _, rfl⟩
    · exact ⟨_, mod_lt _, rfl⟩
    · exact ⟨_, mod_lt _, rfl⟩
    · exact ⟨_, mod_lt _, rfl⟩
    · exact ih hrest

end KioExtras.Lib.Base64
