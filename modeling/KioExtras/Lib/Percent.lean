import Mathlib.Data.List.Basic
import Mathlib.Data.List.Forall2
import Mathlib.Data.List.GetD
import Mathlib.Data.Nat.Notation
import Mathlib.Tactic.Common

/-!
Percent-encoding: a text taken apart into characters and escaped bytes, how the pieces are read,
and what escaping some of the characters does to the pieces.
-/

namespace KioExtras.Lib.Percent

lemma forall_mem_of_all {α : Type*} {P : α → Prop} [DecidablePred P] {l : List α}
    (h : (l.all fun a => decide (P a)) = true) : ∀ a ∈ l, P a :=
  fun a ha => of_decide_eq_true (List.all_eq_true.mp h a ha)

def hexValue (c : Char) : Option ℕ :=
  if '0' ≤ c ∧ c ≤ '9' then some (c.toNat - '0'.toNat)
  else if 'a' ≤ c ∧ c ≤ 'f' then some (c.toNat - 'a'.toNat + 10)
  else if 'A' ≤ c ∧ c ≤ 'F' then some (c.toNat - 'A'.toNat + 10)
  else none

def hexByte (a b : Char) : Option UInt8 :=
  match hexValue a, hexValue b with
  | some hi, some lo => some (UInt8.ofNat (16 * hi + lo))
  | _, _ => none

inductive Piece
  | char (c : Char)
  | byte (b : UInt8)
  deriving DecidableEq

/-- A percent sign without two digits stands for itself. -/
def pieces : List Char → List Piece
  | [] => []
  | c :: rest =>
    match c, rest with
    | '%', a :: b :: tail =>
      match hexByte a b with
      | some byte => .byte byte :: pieces tail
      | none => .char '%' :: pieces (a :: b :: tail)
    | c, rest => .char c :: pieces rest

/-- How bytes are read as text: ASCII as it is, and never with more characters than bytes. -/
structure Utf8 where
  decode : List UInt8 → List Char
  ascii : ∀ text : List Char, (∀ c ∈ text, c.toNat < 128) →
    decode (text.map fun c => UInt8.ofNat c.toNat) = text
  length_le : ∀ bytes, (decode bytes).length ≤ bytes.length

/-- Each byte as the character with its number. -/
def latin1 : Utf8 where
  decode bytes := bytes.map fun b => Char.ofNat b.toNat
  ascii text h := by
    rw [List.map_map]
    conv_rhs => rw [← List.map_id text]
    apply List.map_congr_left
    intro c hc
    have hsmall : c.toNat % 2 ^ 8 = c.toNat := Nat.mod_eq_of_lt (Nat.lt_trans (h c hc) (by decide))
    change Char.ofNat (UInt8.ofNat c.toNat).toNat = c
    rw [UInt8.toNat_ofNat', hsmall, Char.ofNat_toNat]
  length_le bytes := Nat.le_of_eq (List.length_map _)

variable (u : Utf8)

/-- Escaped bytes that stand together are read together. -/
def join : List UInt8 → List Piece → List Char
  | bytes, [] => u.decode bytes
  | bytes, .byte b :: ps => join (bytes ++ [b]) ps
  | bytes, .char c :: ps => u.decode bytes ++ c :: join [] ps

def decode (text : List Char) : List Char := join u [] (pieces text)

/-- No percent sign is followed by two digits. -/
def Plain (text : List Char) : Prop :=
  ∀ before a b rest, text = before ++ '%' :: a :: b :: rest → hexByte a b = none

/-! ### Pieces -/

variable {a b c : Char}

lemma pieces_escape {byte : UInt8} (h : hexByte a b = some byte) (rest : List Char) :
    pieces ('%' :: a :: b :: rest) = .byte byte :: pieces rest := by
  simp only [pieces, h]

lemma pieces_char (h : c ≠ '%') (rest : List Char) :
    pieces (c :: rest) = .char c :: pieces rest := by
  rw [pieces]
  intro a b tail hc _
  exact h hc

lemma pieces_percent {rest : List Char}
    (h : ∀ a b tail, rest = a :: b :: tail → hexByte a b = none) :
    pieces ('%' :: rest) = .char '%' :: pieces rest := by
  match rest, h with
  | [], _ => rfl
  | [_], _ => rfl
  | a :: b :: tail, h => simp only [pieces, h a b tail rfl]

/-- A text begins with an escaped byte or with a character that stands for itself. -/
theorem pieces_induction {motive : List Char → Prop} (nil : motive [])
    (escape : ∀ a b byte rest, hexByte a b = some byte → motive rest →
      motive ('%' :: a :: b :: rest))
    (char : ∀ c rest, pieces (c :: rest) = .char c :: pieces rest →
      (∀ a b tail, c :: rest = '%' :: a :: b :: tail → hexByte a b = none) → motive rest →
      motive (c :: rest)) (text : List Char) : motive text := by
  induction hn : text.length using Nat.strongRecOn generalizing text with
  | _ n ih =>
    match text, hn with
    | [], _ => exact nil
    | c :: rest, hn =>
      have hrest : motive rest := ih rest.length (by simp at hn; omega) rest rfl
      by_cases hc : c = '%'
      · subst hc
        by_cases hescaped : ∃ a b tail byte, rest = a :: b :: tail ∧ hexByte a b = some byte
        · obtain ⟨a, b, tail, byte, rfl, hbyte⟩ := hescaped
          exact escape a b byte tail hbyte (ih tail.length (by simp at hn; omega) tail rfl)
        · have hnone : ∀ a b tail, rest = a :: b :: tail → hexByte a b = none := by
            intro a b tail htail
            by_contra hsome
            obtain ⟨byte, hbyte⟩ := Option.ne_none_iff_exists'.mp hsome
            exact hescaped ⟨a, b, tail, byte, htail, hbyte⟩
          refine char '%' rest (pieces_percent hnone) ?_ hrest
          intro a b tail heq
          exact hnone a b tail (List.cons.inj heq).2
      · refine char c rest (pieces_char hc rest) ?_ hrest
        intro a b tail heq
        exact absurd (List.cons.inj heq).1 hc

lemma hexByte_left (h : hexValue a = none) (b : Char) : hexByte a b = none := by
  unfold hexByte
  rw [h]

lemma hexByte_right (h : hexValue b = none) (a : Char) : hexByte a b = none := by
  unfold hexByte
  rw [h]
  cases hexValue a <;> rfl

lemma hexByte_some {byte : UInt8} (h : hexByte a b = some byte) :
    hexValue a ≠ none ∧ hexValue b ≠ none := by
  constructor
  · intro ha
    exact absurd ((hexByte_left ha b).symm.trans h) nofun
  · intro hb
    exact absurd ((hexByte_right hb a).symm.trans h) nofun

lemma head_none {b : List Char} (hhead : b.head? = some c) (hc : hexValue c = none) :
    ∀ d ∈ b.head?, hexValue d = none := by
  intro d hd
  rw [hhead] at hd
  rwa [← Option.some.inj hd]

lemma pieces_append {a b : List Char} (hb : ∀ c ∈ b.head?, hexValue c = none) :
    pieces (a ++ b) = pieces a ++ pieces b := by
  induction a using pieces_induction with
  | nil => rfl
  | escape x y byte rest hbyte ih =>
    rw [pieces_escape hbyte]
    exact (pieces_escape hbyte (rest ++ b)).trans (congrArg _ ih)
  | char c rest hpieces hnone ih =>
    rw [hpieces]
    refine Eq.trans ?_ (congrArg (Piece.char c :: ·) ih)
    by_cases hc : c = '%'
    · subst hc
      apply pieces_percent
      intro x y tail htail
      match rest, htail with
      | [], htail =>
        have htail : b = x :: y :: tail := htail
        exact hexByte_left (hb x (by rw [htail]; rfl)) y
      | [z], htail =>
        have htail : b = y :: tail := (List.cons.inj htail).2
        exact hexByte_right (hb y (by rw [htail]; rfl)) x
      | x' :: y' :: rest, htail =>
        obtain ⟨hx, htail⟩ := List.cons.inj htail
        obtain ⟨hy, _⟩ := List.cons.inj htail
        exact hx ▸ hy ▸ hnone x' y' rest rfl
    · exact pieces_char hc _

lemma pieces_map {a : List Char} (h : '%' ∉ a) (b : List Char) :
    pieces (a ++ b) = a.map .char ++ pieces b := by
  induction a with
  | nil => rfl
  | cons c rest ih =>
    rw [List.mem_cons, not_or] at h
    rw [List.cons_append, pieces_char (Ne.symm h.1), ih h.2]
    rfl

lemma pieces_ne_nil (c : Char) (rest : List Char) : pieces (c :: rest) ≠ [] := by
  induction hn : c :: rest using pieces_induction with
  | nil => exact absurd hn nofun
  | escape a b byte tail hbyte _ =>
    rw [pieces_escape hbyte]
    exact List.cons_ne_nil _ _
  | char d tail hpieces _ _ =>
    rw [hpieces]
    exact List.cons_ne_nil _ _

lemma length_pieces_cons (c : Char) (rest : List Char) :
    (pieces (c :: rest)).length ≤ (pieces rest).length + 1 := by
  by_cases hescaped : ∃ a b tail byte, c = '%' ∧ rest = a :: b :: tail ∧ hexByte a b = some byte
  · obtain ⟨a, b, tail, byte, rfl, rfl, hbyte⟩ := hescaped
    have hdigit : ∀ {d : Char}, hexValue d ≠ none → d ≠ '%' := by
      rintro d hd rfl
      exact hd rfl
    obtain ⟨ha, hb⟩ := hexByte_some hbyte
    rw [pieces_escape hbyte, pieces_char (hdigit ha), pieces_char (hdigit hb)]
    simp only [List.length_cons]
    omega
  · have hpieces : pieces (c :: rest) = .char c :: pieces rest := by
      by_cases hc : c = '%'
      · subst hc
        apply pieces_percent
        intro a b tail htail
        by_contra hsome
        obtain ⟨byte, hbyte⟩ := Option.ne_none_iff_exists'.mp hsome
        exact hescaped ⟨a, b, tail, byte, rfl, htail, hbyte⟩
      · exact pieces_char hc rest
    exact Nat.le_of_eq (by rw [hpieces, List.length_cons])

lemma length_pieces_append (a b : List Char) :
    (pieces (a ++ b)).length ≤ a.length + (pieces b).length := by
  induction a with
  | nil => simp
  | cons c rest ih =>
    have hcons := length_pieces_cons c (rest ++ b)
    rw [List.cons_append, List.length_cons]
    omega

lemma length_pieces (text : List Char) : (pieces text).length ≤ text.length := by
  have happend := length_pieces_append text []
  rw [List.append_nil] at happend
  exact happend

lemma pieces_of_plain {text : List Char} (h : Plain text) : pieces text = text.map .char := by
  induction text using pieces_induction with
  | nil => rfl
  | escape a b byte rest hbyte ih =>
    exact absurd (hbyte.symm.trans (h [] a b rest rfl)) nofun
  | char c rest hpieces _ ih =>
    rw [hpieces, List.map_cons, ih]
    intro before a b tail htail
    exact h (c :: before) a b tail (by rw [htail]; rfl)

lemma plain_of_not_mem {text : List Char} (h : '%' ∉ text) : Plain text := by
  rintro before a b rest rfl
  exact absurd (List.mem_append_right _ List.mem_cons_self) h

lemma length_pieces_lt {text : List Char} (h : ¬ Plain text) :
    (pieces text).length < text.length := by
  simp only [Plain, not_forall] at h
  obtain ⟨before, a, b, rest, rfl, hsome⟩ := h
  obtain ⟨byte, hbyte⟩ := Option.ne_none_iff_exists'.mp hsome
  have happend := length_pieces_append before ('%' :: a :: b :: rest)
  have hrest := length_pieces rest
  rw [pieces_escape hbyte, List.length_cons] at happend
  simp only [List.length_append, List.length_cons]
  omega

/-! ### Reading -/

lemma join_nil : join u [] [] = [] := List.eq_nil_of_length_eq_zero
  (Nat.le_zero.mp (u.length_le []))

lemma length_join (bytes : List UInt8) (ps : List Piece) :
    (join u bytes ps).length ≤ bytes.length + ps.length := by
  induction ps generalizing bytes with
  | nil => exact u.length_le bytes
  | cons p ps ih =>
    cases p with
    | byte b =>
      have hrest := ih (bytes ++ [b])
      rw [List.length_append, List.length_singleton] at hrest
      rw [join, List.length_cons]
      omega
    | char c =>
      have hrest := ih []
      have hbytes := u.length_le bytes
      rw [join, List.length_append, List.length_cons, List.length_cons]
      rw [List.length_nil] at hrest
      omega

lemma join_append (bytes : List UInt8) (ps qs : List Piece) (c : Char) :
    join u bytes (ps ++ .char c :: qs) = join u bytes ps ++ c :: join u [] qs := by
  induction ps generalizing bytes with
  | nil => rfl
  | cons p ps ih =>
    cases p with
    | byte b => exact ih (bytes ++ [b])
    | char d =>
      rw [List.cons_append, join, ih, join, List.append_assoc]
      rfl

lemma decode_append (a b : List Char) (hdigit : hexValue c = none) (hc : c ≠ '%') :
    decode u (a ++ c :: b) = decode u a ++ c :: decode u b := by
  unfold decode
  rw [pieces_append (by simpa using hdigit), pieces_char hc, join_append]

lemma length_decode (text : List Char) : (decode u text).length ≤ (pieces text).length := by
  have hjoin := length_join u [] (pieces text)
  rw [List.length_nil, Nat.zero_add] at hjoin
  exact hjoin

inductive Stands : Char → Piece → Prop
  | char (c : Char) : Stands c (.char c)
  | byte {c : Char} (h : c.toNat < 128) : Stands c (.byte (UInt8.ofNat c.toNat))

lemma join_stands {text : List Char} {ps : List Piece} (h : List.Forall₂ Stands text ps)
    {before : List Char} (hbefore : ∀ c ∈ before, c.toNat < 128) :
    join u (before.map fun c => UInt8.ofNat c.toNat) ps = before ++ text := by
  induction h generalizing before with
  | nil =>
    rw [join, u.ascii before hbefore, List.append_nil]
  | @cons c p text ps hstands _ ih =>
    cases hstands with
    | char =>
      have hrest := @ih [] (by simp)
      rw [join, u.ascii before hbefore]
      exact congrArg (fun rest => before ++ c :: rest) hrest
    | byte hc =>
      have hrest := @ih (before ++ [c]) (by
        intro d hd
        rcases List.mem_append.mp hd with hd | hd
        · exact hbefore d hd
        · rw [List.mem_singleton.mp hd]
          exact hc)
      rw [List.map_append, List.append_assoc] at hrest
      exact hrest

/-- **A text whose pieces stand for its characters is read as it is.** -/
theorem decode_stands {text raw : List Char} (h : List.Forall₂ Stands text (pieces raw)) :
    decode u raw = text :=
  @join_stands u _ _ h [] (by simp)

lemma forall₂_chars (text : List Char) : List.Forall₂ Stands text (text.map .char) := by
  induction text with
  | nil => exact .nil
  | cons c text ih => exact .cons (.char c) ih

lemma decode_plain {text : List Char} (h : Plain text) : decode u text = text := by
  apply decode_stands
  rw [pieces_of_plain h]
  exact forall₂_chars text

/-! ### Escaping -/

def hexDigit (d : ℕ) : Char := "0123456789ABCDEF".toList.getD d '0'

def escapeChar (c : Char) : List Char := ['%', hexDigit (c.toNat / 16), hexDigit (c.toNat % 16)]

def encode (special : Char → Bool) (text : List Char) : List Char :=
  text.flatMap fun c => if special c then escapeChar c else [c]

lemma hexValue_hexDigit : ∀ d < 16, hexValue (hexDigit d) = some d := by decide

lemma hexDigit_mem (d : ℕ) : hexDigit d ∈ "0123456789ABCDEF".toList := by
  unfold hexDigit
  by_cases hd : d < "0123456789ABCDEF".toList.length
  · rw [List.getD_eq_getElem _ _ hd]
    exact List.getElem_mem hd
  · rw [List.getD_eq_default _ _ (Nat.le_of_not_lt hd)]
    decide

lemma hexByte_digits (h : c.toNat < 128) :
    hexByte (hexDigit (c.toNat / 16)) (hexDigit (c.toNat % 16)) = some (UInt8.ofNat c.toNat) := by
  unfold hexByte
  rw [hexValue_hexDigit _ (by omega), hexValue_hexDigit _ (by omega)]
  simp only [Nat.div_add_mod]

lemma pieces_escapeChar (h : c.toNat < 128) (rest : List Char) :
    pieces (escapeChar c ++ rest) = .byte (UInt8.ofNat c.toNat) :: pieces rest :=
  pieces_escape (hexByte_digits h) rest

def encodePiece (special : Char → Bool) : Piece → Piece
  | .char c => if special c then .byte (UInt8.ofNat c.toNat) else .char c
  | .byte b => .byte b

section encode

variable {special : Char → Bool}

@[simp] lemma encode_nil : encode special [] = [] := rfl

lemma encode_cons (c : Char) (rest : List Char) : encode special (c :: rest) =
    (if special c then escapeChar c else [c]) ++ encode special rest := List.flatMap_cons

lemma encode_keep {c : Char} (h : special c = false) (rest : List Char) :
    encode special (c :: rest) = c :: encode special rest := by
  rw [encode_cons, h]
  rfl

lemma encode_escape {c : Char} (h : special c = true) (rest : List Char) :
    encode special (c :: rest) = escapeChar c ++ encode special rest := by
  rw [encode_cons, if_pos h]

lemma encode_self {text : List Char} (h : ∀ c ∈ text, special c = false) :
    encode special text = text := by
  induction text with
  | nil => rfl
  | cons c rest ih =>
    rw [encode_keep (h c List.mem_cons_self), ih fun d hd => h d (List.mem_cons_of_mem _ hd)]

lemma encode_append (a b : List Char) :
    encode special (a ++ b) = encode special a ++ encode special b := List.flatMap_append

lemma mem_encode {text : List Char} {c : Char} (h : c ∈ encode special text)
    (hsign : c ∉ "%0123456789ABCDEF".toList) : c ∈ text ∧ special c = false := by
  obtain ⟨d, hd, hc⟩ := List.mem_flatMap.mp h
  split_ifs at hc with hspecial
  · refine absurd ?_ hsign
    rcases List.mem_cons.mp hc with rfl | hc
    · exact List.mem_cons_self
    · rcases List.mem_cons.mp hc with rfl | hc
      · exact List.mem_cons_of_mem _ (hexDigit_mem _)
      · rw [List.mem_singleton.mp hc]
        exact List.mem_cons_of_mem _ (hexDigit_mem _)
  · obtain rfl := List.mem_singleton.mp hc
    exact ⟨hd, Bool.not_eq_true _ ▸ hspecial⟩

lemma mem_encode_of_keep {text : List Char} {c : Char} (h : c ∈ text) (hc : special c = false) :
    c ∈ encode special text := by
  refine List.mem_flatMap.mpr ⟨c, h, ?_⟩
  rw [hc]
  exact List.mem_singleton.mpr rfl

lemma forall₂_encode (hascii : ∀ c, special c = true → c.toNat < 128)
    (hpercent : special '%' = true) (text : List Char) :
    List.Forall₂ Stands text (pieces (encode special text)) := by
  induction text with
  | nil => exact .nil
  | cons c rest ih =>
    by_cases hc : special c = true
    · rw [encode_escape hc, pieces_escapeChar (hascii c hc)]
      exact .cons (.byte (hascii c hc)) ih
    · rw [encode_keep (Bool.not_eq_true _ ▸ hc), pieces_char]
      · exact .cons (.char c) ih
      · rintro rfl
        exact hc hpercent

theorem decode_encode (hascii : ∀ c, special c = true → c.toNat < 128)
    (hpercent : special '%' = true) (text : List Char) : decode u (encode special text) = text :=
  decode_stands u (forall₂_encode hascii hpercent text)

lemma hexByte_encode {text tail : List Char} {a b : Char}
    (hnone : ∀ x y rest, text = x :: y :: rest → hexByte x y = none)
    (h : encode special text = a :: b :: tail) : hexByte a b = none := by
  have hsign : hexValue '%' = none := rfl
  match text, hnone with
  | [], _ => exact absurd h nofun
  | [x], _ =>
    by_cases hx : special x = true
    · rw [encode_escape hx] at h
      obtain ⟨rfl, _⟩ := List.cons.inj h
      exact hexByte_left hsign b
    · rw [encode_keep (Bool.not_eq_true _ ▸ hx)] at h
      exact absurd (List.cons.inj h).2 nofun
  | x :: y :: rest, hnone =>
    by_cases hx : special x = true
    · rw [encode_escape hx] at h
      obtain ⟨rfl, _⟩ := List.cons.inj h
      exact hexByte_left hsign b
    · rw [encode_keep (Bool.not_eq_true _ ▸ hx)] at h
      obtain ⟨hfirst, h⟩ := List.cons.inj h
      by_cases hy : special y = true
      · rw [encode_escape hy] at h
        obtain ⟨rfl, _⟩ := List.cons.inj h
        exact hexByte_right hsign a
      · rw [encode_keep (Bool.not_eq_true _ ▸ hy)] at h
        obtain ⟨rfl, _⟩ := List.cons.inj h
        exact hfirst ▸ hnone x y rest rfl

/-- **Where the percent sign is left alone**, the escapes of the text stay with the new ones. -/
lemma pieces_encode (hascii : ∀ c, special c = true → c.toNat < 128)
    (hdigit : ∀ c, special c = true → hexValue c = none) (hpercent : special '%' = false)
    (text : List Char) :
    pieces (encode special text) = (pieces text).map (encodePiece special) := by
  have hkept : ∀ {d : Char}, hexValue d ≠ none → special d = false := by
    intro d hd
    by_contra hspecial
    exact hd (hdigit d (Bool.not_eq_false _ ▸ hspecial))
  induction text using pieces_induction with
  | nil => rfl
  | escape a b byte rest hbyte ih =>
    obtain ⟨ha, hb⟩ := hexByte_some hbyte
    rw [encode_keep hpercent, encode_keep (hkept ha), encode_keep (hkept hb),
      pieces_escape hbyte, pieces_escape hbyte, ih]
    rfl
  | char c rest hpieces hnone ih =>
    rw [hpieces, List.map_cons, ← ih, encodePiece]
    by_cases hc : special c = true
    · rw [encode_escape hc, if_pos hc, pieces_escapeChar (hascii c hc)]
    · rw [encode_keep (Bool.not_eq_true _ ▸ hc), if_neg hc]
      by_cases hsign : c = '%'
      · subst hsign
        apply pieces_percent
        intro a b tail htail
        refine hexByte_encode ?_ htail
        rintro x y rest' rfl
        exact hnone x y rest' rfl
      · exact pieces_char hsign _

lemma forall₂_encode_plain (hascii : ∀ c, special c = true → c.toNat < 128)
    (hdigit : ∀ c, special c = true → hexValue c = none) (hpercent : special '%' = false)
    {text : List Char} (h : Plain text) :
    List.Forall₂ Stands text (pieces (encode special text)) := by
  rw [pieces_encode hascii hdigit hpercent, pieces_of_plain h, List.map_map]
  clear h
  induction text with
  | nil => exact .nil
  | cons c rest ih =>
    refine .cons ?_ ih
    change Stands c (if special c then .byte (UInt8.ofNat c.toNat) else .char c)
    split_ifs with hc
    · exact .byte (hascii c hc)
    · exact .char c

end encode

end KioExtras.Lib.Percent
