import Mathlib.Data.List.Infix
import Mathlib.Tactic.Common

/-!
Texts as bytes in UTF-8, searched for ASCII characters.

A byte below 128 is the encoding of the ASCII character of that number and of no other, so the last
place of such a character and an ASCII suffix are found in the bytes where they are in the text.
-/

namespace KioExtras.Lib.Utf8

def encode (s : List Char) : List UInt8 := s.flatMap String.utf8EncodeChar

def byte (c : Char) : UInt8 := UInt8.ofNat c.toNat

def Ascii (c : Char) : Prop := c.toNat < 128

instance (c : Char) : Decidable (Ascii c) := inferInstanceAs (Decidable (_ < _))

@[simp] lemma encode_nil : encode [] = [] := rfl

lemma encode_cons (c : Char) (s : List Char) :
    encode (c :: s) = String.utf8EncodeChar c ++ encode s := rfl

lemma encode_append (s t : List Char) : encode (s ++ t) = encode s ++ encode t :=
  List.flatMap_append

variable {c d : Char} {s : List Char}

lemma encodeChar_ascii (h : Ascii c) : String.utf8EncodeChar c = [byte c] := by
  have hle : c.val.toNat ≤ 0x7f := Nat.le_of_lt_succ h
  unfold String.utf8EncodeChar
  exact if_pos hle

lemma encode_ascii (h : ∀ c ∈ s, Ascii c) : encode s = s.map byte := by
  induction s with
  | nil => rfl
  | cons c s ih =>
    rw [encode_cons, encodeChar_ascii (h c List.mem_cons_self),
      ih fun d hd => h d (List.mem_cons_of_mem c hd)]
    rfl

lemma high_byte {n k : ℕ} (hn : n < k) {a : ℕ} (ha : 128 ≤ a) (hfit : a + k ≤ 256) :
    128 ≤ (UInt8.ofNat (n + a)).toNat := by
  rw [UInt8.toNat_ofNat', Nat.mod_eq_of_lt (by omega)]
  omega

lemma encodeChar_high (h : ¬ Ascii c) : ∀ b ∈ String.utf8EncodeChar c, 128 ≤ b.toNat := by
  have hgt : ¬ c.val.toNat ≤ 0x7f := fun hle => h (Nat.lt_succ_of_le hle)
  have hlast : ∀ v : ℕ, 128 ≤ (UInt8.ofNat (v % 0x40 + 0x80)).toNat := fun v =>
    high_byte (Nat.mod_lt v (by decide)) (by decide) (by decide)
  unfold String.utf8EncodeChar
  intro b hb
  rw [if_neg hgt] at hb
  split_ifs at hb
  · simp only [List.mem_cons, List.not_mem_nil, or_false] at hb
    obtain rfl | rfl := hb
    · exact high_byte (Nat.mod_lt _ (by decide)) (by decide) (by decide)
    · exact hlast _
  · simp only [List.mem_cons, List.not_mem_nil, or_false] at hb
    obtain rfl | rfl | rfl := hb
    · exact high_byte (Nat.mod_lt _ (by decide)) (by decide) (by decide)
    · exact hlast _
    · exact hlast _
  · simp only [List.mem_cons, List.not_mem_nil, or_false] at hb
    obtain rfl | rfl | rfl | rfl := hb
    · exact high_byte (Nat.mod_lt _ (by decide)) (by decide) (by decide)
    · exact hlast _
    · exact hlast _
    · exact hlast _

lemma byte_toNat (h : Ascii c) : (byte c).toNat = c.toNat := by
  have hlt : c.toNat < 128 := h
  rw [byte, UInt8.toNat_ofNat', Nat.mod_eq_of_lt (by omega)]

lemma byte_inj (hc : Ascii c) (hd : Ascii d) (h : byte c = byte d) : c = d := by
  have hnat : c.toNat = d.toNat := by rw [← byte_toNat hc, ← byte_toNat hd, h]
  exact Char.toNat_inj.mp hnat

lemma byte_mem (hd : Ascii d) : byte d ∈ String.utf8EncodeChar c ↔ c = d := by
  constructor
  · intro h
    by_cases hc : Ascii c
    · rw [encodeChar_ascii hc, List.mem_singleton] at h
      exact (byte_inj hd hc h).symm
    · have hhigh := encodeChar_high hc _ h
      have hlow : d.toNat < 128 := hd
      rw [byte_toNat hd] at hhigh
      omega
  · rintro rfl
    rw [encodeChar_ascii hd]
    exact List.mem_singleton_self _

/-! ### The last place of a character -/

section

variable {α : Type*} [DecidableEq α]

def lastIndexOf (x : α) : List α → Option ℕ
  | [] => none
  | y :: l =>
    match lastIndexOf x l with
    | some i => some (i + 1)
    | none => if y = x then some 0 else none

variable {l : List α} {x : α}

lemma lastIndexOf_eq_none : lastIndexOf x l = none ↔ x ∉ l := by
  induction l with
  | nil => simp [lastIndexOf]
  | cons y l ih =>
    rw [lastIndexOf]
    cases h : lastIndexOf x l with
    | some i =>
      have hmem : x ∈ l := by
        by_contra hno
        rw [ih.mpr hno] at h
        exact absurd h (by simp)
      simp [hmem]
    | none =>
      have hno := ih.mp h
      by_cases hy : y = x
      · simp [hy]
      · simp [hy, Ne.symm hy, hno]

lemma lastIndexOf_append (x : α) (a b : List α) :
    lastIndexOf x (a ++ b) = match lastIndexOf x b with
      | some i => some (a.length + i)
      | none => lastIndexOf x a := by
  induction a with
  | nil => cases h : lastIndexOf x b <;> simp [lastIndexOf, h]
  | cons y a ih =>
    rw [List.cons_append, lastIndexOf, ih]
    cases lastIndexOf x b with
    | some i =>
      simp only [List.length_cons, Option.some.injEq]
      omega
    | none => rfl

lemma lastIndexOf_eq_some {i : ℕ} (h : lastIndexOf x l = some i) :
    ∃ a b, l = a ++ x :: b ∧ x ∉ b ∧ a.length = i := by
  induction l generalizing i with
  | nil => exact absurd h (by simp [lastIndexOf])
  | cons y l ih =>
    rw [lastIndexOf] at h
    cases hl : lastIndexOf x l with
    | some j =>
      rw [hl] at h
      obtain rfl := Option.some.inj h
      obtain ⟨a, b, rfl, hb, hlen⟩ := ih hl
      exact ⟨y :: a, b, rfl, hb, by simp [hlen]⟩
    | none =>
      rw [hl] at h
      dsimp only at h
      split_ifs at h with hy
      obtain rfl := Option.some.inj h
      exact ⟨[], l, by rw [hy]; rfl, lastIndexOf_eq_none.mp hl, rfl⟩

lemma lastIndexOf_behind {a b : List α} (hb : x ∉ b) :
    lastIndexOf x (a ++ x :: b) = some a.length := by
  rw [lastIndexOf_append, lastIndexOf, lastIndexOf_eq_none.mpr hb]
  simp

end

lemma byte_mem_encode (hd : Ascii d) : byte d ∈ encode s ↔ d ∈ s := by
  rw [encode, List.mem_flatMap]
  constructor
  · rintro ⟨c, hc, hmem⟩
    rwa [← (byte_mem hd).mp hmem]
  · intro hmem
    exact ⟨d, hmem, (byte_mem hd).mpr rfl⟩

lemma lastIndexOf_encode (hd : Ascii d) (s : List Char) :
    lastIndexOf (byte d) (encode s) =
      (lastIndexOf d s).map fun i => (encode (s.take i)).length := by
  cases h : lastIndexOf d s with
  | none =>
    rw [lastIndexOf_eq_none] at h
    rw [Option.map_none, lastIndexOf_eq_none, byte_mem_encode hd]
    exact h
  | some i =>
    obtain ⟨a, b, rfl, hb, rfl⟩ := lastIndexOf_eq_some h
    rw [encode_append, encode_cons, encodeChar_ascii hd, List.singleton_append,
      lastIndexOf_behind ((byte_mem_encode hd).not.mpr hb), Option.map_some, List.take_left]

/-! ### Suffixes -/

lemma encodeChar_last (c : Char) :
    ∃ w b, String.utf8EncodeChar c = w ++ [b] ∧ (Ascii c → w = [] ∧ b = byte c) ∧
      (¬ Ascii c → 128 ≤ b.toNat) := by
  by_cases hc : Ascii c
  · exact ⟨[], byte c, encodeChar_ascii hc, fun _ => ⟨rfl, rfl⟩, fun h => absurd hc h⟩
  · have hne : String.utf8EncodeChar c ≠ [] := String.utf8EncodeChar_ne_nil
    refine ⟨(String.utf8EncodeChar c).dropLast, (String.utf8EncodeChar c).getLast hne,
      (List.dropLast_append_getLast hne).symm, fun h => absurd h hc, fun _ => ?_⟩
    exact encodeChar_high hc _ (List.getLast_mem hne)

lemma suffix_encode {t : List Char} (ht : ∀ c ∈ t, Ascii c) : encode t <:+ encode s ↔ t <:+ s := by
  constructor
  · intro h
    induction t using List.reverseRecOn generalizing s with
    | nil => exact List.nil_suffix
    | append_singleton t d ih =>
      have hd : Ascii d := ht d (by simp)
      obtain ⟨u, hu⟩ := h
      rw [encode_append, encode_cons, encodeChar_ascii hd, encode_nil, List.append_nil,
        ← List.append_assoc] at hu
      cases s using List.reverseRecOn with
      | nil => simp at hu
      | append_singleton s c =>
        obtain ⟨w, b, hw, hascii, hhigh⟩ := encodeChar_last c
        rw [encode_append, encode_cons, encode_nil, List.append_nil, hw, ← List.append_assoc] at hu
        obtain ⟨hfront, hlast⟩ := List.append_inj' hu rfl
        have hb : byte d = b := (List.cons.inj hlast).1
        by_cases hc : Ascii c
        · obtain ⟨rfl, rfl⟩ := hascii hc
          rw [List.append_nil] at hfront
          obtain ⟨v, rfl⟩ := ih (fun e he => ht e (by simp [he])) ⟨u, hfront⟩
          exact ⟨v, by rw [byte_inj hd hc hb, List.append_assoc]⟩
        · have hge := hhigh hc
          have hlow : d.toNat < 128 := hd
          rw [← hb, byte_toNat hd] at hge
          omega
  · rintro ⟨u, rfl⟩
    exact ⟨encode u, (encode_append u t).symm⟩

end KioExtras.Lib.Utf8
