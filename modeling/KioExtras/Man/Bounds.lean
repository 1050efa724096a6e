import KioExtras.Man.Complete

/-!
The scanners of the escapes read just the complete ones.

For each scanner: on a text that its grammar knows it stops behind what the grammar takes, on all
others it reads outside of the text or returns a position behind the end of it. The escape inside
of another is given by an induction on the bound of the calls.
-/

namespace KioExtras.Man

open Reading

section

attribute [mk_iff] Register Escape Character NamedString Font TwoCharacters Inside Delimited

variable {text : Text} {esc : Char} {single : Bool}

variable {α β : Type}

variable (text esc single) in
/-- The scanner accepts what `G` knows, whatever the variables are apart from the symbols. -/
def Accepts (x : Scan Globals (ℕ × β)) (G : Text → Prop) : Prop :=
  Exact text Globals.symbols (esc, single) x G

variable (text esc single) in
/-- The scanner for the escapes inside of others does its work up to some length. -/
structure Good (escape : ℕ → Scan Globals (ℕ × Text)) (n : ℕ) : Prop where
  accepts : ∀ c t, At text c t → t.length < n → 0 < c →
    Accepts text esc single (escape c) (Escape esc single t)
  outside : ∀ c, text.length < c → Accepts text esc single (escape c) fun _ => False

variable (text esc single) in
/-- A program for the end of a scanner, which returns at the position it gets. -/
structure Leaves {α β : Type} (f : ℕ × α → Scan Globals (ℕ × β)) : Prop where
  inside : ∀ c a rest, At text c rest → Accepts text esc single (f (c, a)) fun r => r = rest
  behind : ∀ c a, text.length < c → Accepts text esc single (f (c, a)) fun _ => False

lemma asked_leaves (value : α → Globals → β) :
    Leaves text esc single fun p : ℕ × α => do
      let g ← get
      leave text p.1 (value p.2 g) where
  inside _ _ _ hat := Exact.asked fun _ _ => Exact.of_leave hat fun _ => Iff.rfl
  behind _ _ hc := Exact.asked fun _ _ => Exact.of_behind hc fun _ h => h

lemma computed_leaves (value : α → Globals → β × Globals)
    (hu : ∀ a g, (value a g).2.symbols = g.symbols) :
    Leaves text esc single fun p : ℕ × α => do
      let b ← modifyGet (value p.2)
      leave text p.1 b where
  inside _ a _ hat := Exact.computed (hu a) fun _ => Exact.of_leave hat fun _ => Iff.rfl
  behind _ a hc := Exact.computed (hu a) fun _ => Exact.of_behind hc fun _ h => h

/-! ### Names -/

section

variable {escape : ℕ → Scan Globals (ℕ × Text)} {n c : ℕ} {t : Text}

lemma Good.outside_bind {β : Type} (hE : Good text esc single escape n)
    (f : ℕ × Text → Scan Globals (ℕ × β)) (hc : text.length < c) :
    Accepts text esc single (escape c >>= f) fun _ => False :=
  (Exact.seq (hE.outside c hc) (K := fun _ _ => False) fun _ _ _ _ h => h.elim).congr
    fun _ => by simp

variable {r : Text}

lemma twoCharacters_nil : ¬ TwoCharacters esc single [] r := nofun

lemma twoCharacters_escape : TwoCharacters esc single (esc :: t) r ↔ Escape esc single t r := by
  rw [twoCharacters_iff]
  simp

variable {x : Char} {fuel : ℕ}

lemma twoCharacters_two (hx : x ≠ esc) : TwoCharacters esc single (x :: t) r ↔ ∃ y, t = y :: r := by
  rw [twoCharacters_iff]
  simp [hx]

lemma twoCharacters_accepts {β : Type} {f : ℕ × Text → Scan Globals (ℕ × β)}
    (hE : Good text esc single escape n) (hat : At text c ('(' :: t))
    (hn : t.length ≤ n) (hf : Leaves text esc single f) :
    Accepts text esc single (twoCharacters text escape c >>= f) (TwoCharacters esc single t) := by
  have hlen := hat.length
  rw [List.length_cons] at hlen
  rw [twoCharacters, bind_assoc]
  cases t with
  | nil =>
    rw [charAt_nil hat.tail, pure_bind, bind_assoc]
    refine Exact.asked fun g _ => ?_
    rw [List.length_nil] at hlen
    by_cases hesc : NUL = g.escapesym
    · rw [if_pos hesc]
      exact (hE.outside_bind f (by omega)).congr fun r => by simp [twoCharacters_nil]
    · rw [if_neg hesc, bind_assoc]
      exact Exact.of_outside (by omega) fun r => twoCharacters_nil
  | cons x t =>
    rw [charAt_cons hat.tail, pure_bind, bind_assoc]
    refine Exact.asked fun g hg => ?_
    have hsym : g.escapesym = esc := congrArg Prod.fst hg
    rw [List.length_cons] at hlen hn
    by_cases hesc : x = g.escapesym
    · rw [if_pos hesc]
      have hinner := hE.accepts (c + 2) t hat.tail.tail (by omega) (by omega)
      have hrun := Exact.seq hinner fun c' cstr rest hat' _ => hf.inside c' cstr rest hat'
      refine hrun.congr fun r => ?_
      rw [hesc, hsym, twoCharacters_escape]
      simp
    · rw [if_neg hesc, bind_assoc]
      rw [hsym] at hesc
      cases t with
      | nil =>
        rw [charAt_nil hat.tail.tail, pure_bind, pure_bind]
        rw [List.length_nil] at hlen
        refine (hf.behind (c + 3) _ (by omega)).congr fun r => ?_
        rw [twoCharacters_two hesc]
        simp
      | cons y t =>
        rw [charAt_cons hat.tail.tail, pure_bind, pure_bind]
        refine (hf.inside (c + 3) _ t hat.tail.tail.tail).congr fun r => ?_
        rw [twoCharacters_two hesc]
        simp [eq_comm]

lemma inside_nil {close : Char} : Inside esc single close [] r ↔ r = [] := by
  rw [inside_iff]
  simp

lemma inside_final {close : Char} (hx : x = close ∨ x = '\n') :
    Inside esc single close (x :: t) r ↔ r = x :: t := by
  constructor
  · intro h
    cases h with
    | final h => rfl
    | escape h hE hr => exact absurd hx h
    | char h hesc hr => exact absurd hx h
  · rintro rfl
    exact .final hx

lemma inside_escape {close : Char} (hx : ¬ (esc = close ∨ esc = '\n')) :
    Inside esc single close (esc :: t) r ↔
      ∃ s, Escape esc single t s ∧ Inside esc single close s r := by
  constructor
  · intro h
    cases h with
    | final h => exact absurd h hx
    | escape h hE hr => exact ⟨_, hE, hr⟩
    | char h hesc hr => exact absurd rfl hesc
  · rintro ⟨s, hE, hr⟩
    exact .escape hx hE hr

lemma inside_char {close : Char} (hx : ¬ (x = close ∨ x = '\n')) (hesc : x ≠ esc) :
    Inside esc single close (x :: t) r ↔ Inside esc single close t r := by
  constructor
  · intro h
    cases h with
    | final h => exact absurd h hx
    | escape h hE hr => exact absurd rfl hesc
    | char h hesc hr => exact hr
  · exact .char hx hesc

lemma longNameLoop_accepts {close : Char} (hE : Good text esc single escape n) (hnul : NUL ∉ text)
    {name : Text} (hat : At text c t) (hn : t.length ≤ n) (hfuel : t.length < fuel) :
    Accepts text esc single (longNameLoop text escape close fuel c name)
      (Inside esc single close t) := by
  induction fuel generalizing c t name with
  | zero => omega
  | succ fuel ih =>
    rw [longNameLoop]
    cases t with
    | nil =>
      rw [charAt_nil hat, pure_bind, if_pos (Or.inl rfl)]
      exact Exact.of_pure hat fun r => inside_nil
    | cons x t =>
      have hx : x ≠ NUL := fun heq => hnul (heq ▸ hat.mem (by simp))
      have hlen : t.length < fuel := Nat.lt_of_succ_lt_succ hfuel
      have hshort : t.length < n := hn
      rw [charAt_cons hat, pure_bind]
      by_cases hfinal : x = close ∨ x = '\n'
      · rw [if_pos (Or.inr hfinal)]
        exact Exact.of_pure hat fun r => inside_final hfinal
      · rw [if_neg (by simp [hx, hfinal])]
        refine Exact.asked fun g hg => ?_
        have hsym : g.escapesym = esc := congrArg Prod.fst hg
        by_cases hesc : x = g.escapesym
        · rw [if_pos hesc]
          have hinner := hE.accepts (c + 1) t hat.tail hshort (by omega)
          obtain rfl : x = esc := hesc.trans hsym
          refine (Exact.seq hinner (K := Inside x single close)
            fun c' cstr rest hat' hrest => ?_).congr fun r => (inside_escape hfinal).symm
          exact ih hat' (Nat.le_trans hrest.length_le (Nat.le_of_lt hshort))
            (Nat.lt_of_le_of_lt hrest.length_le hlen)
        · rw [if_neg hesc]
          rw [hsym] at hesc
          exact (ih hat.tail (Nat.le_of_lt hshort) hlen).congr
            fun r => (inside_char hfinal hesc).symm

lemma longName_accepts {close : Char} (hE : Good text esc single escape n) (hnul : NUL ∉ text)
    (hat : At text c t) (hn : t.length ≤ n) (hfuel : t.length < fuel) :
    Accepts text esc single (longName text escape close fuel c)
      fun r => ∃ s, Inside esc single close t s ∧ r = afterLongName s := by
  refine Exact.seq (longNameLoop_accepts hE hnul hat hn hfuel) fun c' name rest hat' hrest => ?_
  dsimp only
  cases rest with
  | nil =>
    rw [charAt_nil hat', pure_bind, if_pos (Or.inl rfl)]
    exact Exact.of_pure hat' fun r => Iff.rfl
  | cons x rest =>
    have hx : x ≠ NUL := fun heq => hnul (heq ▸ hat'.mem (by simp))
    rw [charAt_cons hat', pure_bind]
    by_cases hline : x = '\n'
    · subst hline
      rw [if_pos (Or.inr rfl)]
      exact Exact.of_pure hat' fun r => Iff.rfl
    · rw [if_neg (by simp [hx, hline])]
      have hafter : afterLongName (x :: rest) = rest := by
        unfold afterLongName
        split
        · next heq => cases heq
        · next heq =>
          cases heq
          exact absurd rfl hline
        · next heq =>
          cases heq
          rfl
      exact Exact.of_pure hat'.tail fun r => by rw [hafter]

lemma longName_outside {β : Type} {close : Char} (hfuel : 0 < fuel)
    {f : ℕ × Option Text → Scan Globals (ℕ × β)} (hc : text.length < c) :
    Accepts text esc single (longName text escape close fuel c >>= f) fun _ => False := by
  obtain ⟨fuel, rfl⟩ : ∃ m, fuel = m + 1 := ⟨fuel - 1, by omega⟩
  rw [longName, longNameLoop, bind_assoc, bind_assoc]
  exact Exact.of_outside hc fun _ h => h

lemma Accepts.leaves {β γ : Type} {x : Scan Globals (ℕ × β)} {G : Text → Prop}
    {f : ℕ × β → Scan Globals (ℕ × γ)} (hx : Accepts text esc single x G)
    (hf : Leaves text esc single f) : Accepts text esc single (x >>= f) G :=
  (Exact.seq hx (K := fun rest r => r = rest)
    fun c b rest hat _ => hf.inside c b rest hat).congr fun r => by simp

lemma character_two : Character esc single ('(' :: t) r ↔ TwoCharacters esc single t r := by
  rw [character_iff]
  simp

lemma character_long :
    Character esc single ('[' :: t) r ↔ ∃ s, Inside esc single ']' t s ∧ r = afterLongName s := by
  rw [character_iff]
  simp

lemma character_quoted {x y : Char} (hx : x = 'C' ∨ (x ≠ '(' ∧ x ≠ '[' ∧ y = '\'')) {r : Text} :
    Character esc single (x :: y :: t) r ↔
      ∃ s, Inside esc single '\'' t s ∧ r = afterLongName s := by
  constructor
  · intro h
    cases h with
    | two h => simp at hx
    | long h => simp at hx
    | quoted hx h => exact ⟨_, h, rfl⟩
    | nothing hx' h =>
      rcases hx with rfl | ⟨-, -, rfl⟩
      · exact absurd rfl hx'.2.2
      · exact absurd rfl h
  · rintro ⟨s, hs, rfl⟩
    exact .quoted hx hs

lemma character_nothing {x : Char} (hx : x ≠ '(' ∧ x ≠ '[' ∧ x ≠ 'C')
    (h : t.head? ≠ some '\'') {r : Text} : Character esc single (x :: t) r ↔ r = x :: t := by
  constructor
  · intro hr
    cases hr with
    | two h => exact absurd rfl hx.1
    | long h => exact absurd rfl hx.2.1
    | quoted hx' hr =>
      rcases hx' with rfl | ⟨-, -, rfl⟩
      · exact absurd rfl hx.2.2
      · exact absurd rfl h
    | nothing hx h => rfl
  · rintro rfl
    exact .nothing hx h

/-- The output of a character with a long name, if the name ends. -/
def longCharacter (name : Option Text) (g : Globals) : Text :=
  (name.map fun name => characterOutput name g).getD []

lemma scan_named_character_accepts (hE : Good text esc single escape n) (hnul : NUL ∉ text)
    (hat : At text c t) (hn : t.length ≤ n + 1) (hfuel : t.length ≤ fuel) :
    Accepts text esc single (scan_named_character text escape fuel c) (Character esc single t) := by
  have hlen := hat.length
  rw [scan_named_character]
  cases t with
  | nil =>
    rw [List.length_nil] at hlen
    rw [charAt_nil hat, pure_bind, if_neg (by decide), if_neg (by decide), if_neg (by decide)]
    exact Exact.of_outside (by omega) fun r h => nomatch h
  | cons x t =>
    rw [List.length_cons] at hlen hn hfuel
    have hless : t.length < fuel := hfuel
    rw [charAt_cons hat, pure_bind]
    by_cases htwo : x = '('
    · subst htwo
      rw [if_pos rfl]
      exact (twoCharacters_accepts hE hat (by omega) (asked_leaves characterOutput)).congr
        fun r => character_two.symm
    rw [if_neg htwo]
    by_cases hlong : x = '['
    · subst hlong
      rw [if_pos rfl]
      exact ((longName_accepts hE hnul hat.tail (by omega) hless).leaves
        (asked_leaves longCharacter)).congr
        fun r => character_long.symm
    rw [if_neg hlong]
    by_cases hC : x = 'C'
    · subst hC
      rw [if_pos rfl, pure_bind]
      beta_reduce
      rw [if_pos rfl]
      cases t with
      | nil =>
        refine (longName_outside hless (by simp at hlen; omega)).congr fun r => ?_
        constructor
        · exact False.elim
        · intro h
          cases h with
          | nothing hx h => simp at hx
      | cons y t =>
        rw [List.length_cons] at hn hless
        have hless' : t.length < fuel := Nat.lt_of_succ_lt hless
        exact ((longName_accepts hE hnul hat.tail.tail (by omega) hless').leaves
          (asked_leaves longCharacter)).congr fun r => (character_quoted (Or.inl rfl)).symm
    rw [if_neg hC]
    cases t with
    | nil =>
      rw [charAt_nil hat.tail, pure_bind, pure_bind]
      beta_reduce
      rw [if_neg (by decide)]
      refine Exact.asked fun g _ => ?_
      exact Exact.of_leave hat fun r => character_nothing ⟨htwo, hlong, hC⟩ (by simp)
    | cons y t =>
      rw [charAt_cons hat.tail, pure_bind, pure_bind]
      beta_reduce
      by_cases hquote : y = '\''
      · subst hquote
        rw [List.length_cons] at hn hless
        have hless' : t.length < fuel := Nat.lt_of_succ_lt hless
        rw [if_pos (by decide)]
        exact ((longName_accepts hE hnul hat.tail.tail (by omega) hless').leaves
          (asked_leaves longCharacter)).congr
          fun r => (character_quoted (Or.inr ⟨htwo, hlong, rfl⟩)).symm
      · rw [if_neg (by simp [hquote])]
        refine Exact.asked fun g _ => ?_
        exact Exact.of_leave hat fun r =>
          character_nothing ⟨htwo, hlong, hC⟩ (by simp [hquote])

lemma longOutput_leaves (value : Text → Globals → Text × Globals)
    (hu : ∀ name g, (value name g).2.symbols = g.symbols) :
    Leaves text esc single fun p : ℕ × Option Text =>
      match p.2 with
      | none => leave text p.1 []
      | some name => do
        let output ← modifyGet (value name)
        leave text p.1 output where
  inside c name rest hat := by
    cases name with
    | none => exact Exact.of_leave hat fun _ => Iff.rfl
    | some name => exact Exact.computed (hu name) fun _ => Exact.of_leave hat fun _ => Iff.rfl
  behind c name hc := by
    cases name with
    | none => exact Exact.of_behind hc fun _ h => h
    | some name => exact Exact.computed (hu name) fun _ => Exact.of_behind hc fun _ h => h

lemma namedString_two : NamedString esc single ('(' :: t) r ↔ TwoCharacters esc single t r := by
  rw [namedString_iff]
  simp

lemma namedString_long :
    NamedString esc single ('[' :: t) r ↔ ∃ s, Inside esc single ']' t s ∧ r = afterLongName s := by
  rw [namedString_iff]
  simp

lemma namedString_one {x : Char} (hx : x ≠ '(' ∧ x ≠ '[') {r : Text} :
    NamedString esc single (x :: t) r ↔ r = t := by
  rw [namedString_iff]
  simp [hx, eq_comm]

lemma scan_named_string_accepts (hE : Good text esc single escape n) (hnul : NUL ∉ text)
    (hat : At text c t) (hn : t.length ≤ n + 1) (hfuel : t.length ≤ fuel) :
    Accepts text esc single (scan_named_string text escape fuel c) (NamedString esc single t) := by
  rw [scan_named_string]
  cases t with
  | nil =>
    rw [charAt_nil hat, pure_bind, if_neg (by decide), if_neg (by decide)]
    exact Exact.computed (stringOutput_symbols _) fun _ =>
      Exact.of_behind hat.behind fun r h => nomatch h
  | cons x t =>
    rw [List.length_cons] at hn hfuel
    have hless : t.length < fuel := hfuel
    rw [charAt_cons hat, pure_bind]
    by_cases htwo : x = '('
    · subst htwo
      rw [if_pos rfl]
      exact (twoCharacters_accepts hE hat (by omega)
        (computed_leaves stringOutput stringOutput_symbols)).congr fun r => namedString_two.symm
    rw [if_neg htwo]
    by_cases hlong : x = '['
    · subst hlong
      rw [if_pos rfl]
      exact ((longName_accepts hE hnul hat.tail (by omega) hless).leaves
        (longOutput_leaves stringOutput stringOutput_symbols)).congr
        fun r => namedString_long.symm
    rw [if_neg hlong]
    exact Exact.computed (stringOutput_symbols _) fun _ =>
      Exact.of_leave hat.tail fun r => namedString_one ⟨htwo, hlong⟩

lemma font_two : Font esc single ('(' :: t) r ↔ TwoCharacters esc single t r := by
  rw [font_iff]
  simp

lemma font_long :
    Font esc single ('[' :: t) r ↔ ∃ s, Inside esc single ']' t s ∧ r = afterLongName s := by
  rw [font_iff]
  simp

lemma font_one {x : Char} (hx : x ≠ '(' ∧ x ≠ '[') {r : Text} :
    Font esc single (x :: t) r ↔ r = t := by
  rw [font_iff]
  simp [hx, eq_comm]

lemma font_nothing : Font esc single [] r ↔ r = [] := by
  rw [font_iff]
  simp

@[simp] lemma setNamedFont_symbols (name : Text) (g : Globals) :
    (setNamedFont name g).2.symbols = g.symbols := by
  unfold setNamedFont
  split_ifs
  · rfl
  · exact set_font_symbols _ g

lemma scan_named_font_accepts (hE : Good text esc single escape n) (hnul : NUL ∉ text)
    (hat : At text c t) (hn : t.length ≤ n + 1) (hfuel : t.length ≤ fuel) :
    Accepts text esc single (scan_named_font text escape fuel c) (Font esc single t) := by
  rw [scan_named_font]
  cases t with
  | nil =>
    rw [charAt_nil hat, pure_bind, if_neg (by decide), if_neg (by decide), if_pos rfl]
    exact Exact.computed (setNamedFont_symbols _) fun _ =>
      Exact.of_leave hat fun r => font_nothing
  | cons x t =>
    rw [List.length_cons] at hn hfuel
    have hless : t.length < fuel := hfuel
    have hx : x ≠ NUL := fun heq => hnul (heq ▸ hat.mem (by simp))
    rw [charAt_cons hat, pure_bind]
    by_cases htwo : x = '('
    · subst htwo
      rw [if_pos rfl]
      exact (twoCharacters_accepts hE hat (by omega)
        (computed_leaves setNamedFont setNamedFont_symbols)).congr fun r => font_two.symm
    rw [if_neg htwo]
    by_cases hlong : x = '['
    · subst hlong
      rw [if_pos rfl]
      exact ((longName_accepts hE hnul hat.tail (by omega) hless).leaves
        (longOutput_leaves setNamedFont setNamedFont_symbols)).congr fun r => font_long.symm
    rw [if_neg hlong, if_neg hx]
    exact Exact.computed (setNamedFont_symbols _) fun _ =>
      Exact.of_leave hat.tail fun r => font_one ⟨htwo, hlong⟩

end

/-! ### Arguments, registers and codes -/

section

variable {c : ℕ} {t : Text}

variable {fuel : ℕ} {i : ℤ} {d : Char}

lemma argumentNumber_at (argno : ℤ) (hat : At text c t) (hfuel : t.length < fuel) :
    ∃ c' argno', argumentNumber text fuel c argno = pure (c', argno') ∧
      At text c' (t.dropWhile Char.isDigit) := by
  induction t generalizing fuel c argno with
  | nil =>
    obtain ⟨fuel, rfl⟩ : ∃ m, fuel = m + 1 := ⟨fuel - 1, by omega⟩
    refine ⟨c, argno, ?_, hat⟩
    rw [argumentNumber, charAt_nil hat, pure_bind, if_neg (by decide)]
  | cons x t ih =>
    obtain ⟨fuel, rfl⟩ : ∃ m, fuel = m + 1 := ⟨fuel - 1, by omega⟩
    have hless : t.length < fuel := Nat.lt_of_succ_lt_succ hfuel
    rw [argumentNumber, charAt_cons hat, pure_bind]
    by_cases hx : x.isDigit = true
    · obtain ⟨c', argno', hrun, hat'⟩ :=
        ih (wrap (argno * 10 + (x.toNat - 48 : ℕ))) hat.tail hless
      refine ⟨c', argno', ?_, ?_⟩
      · rw [if_pos hx]
        exact hrun
      · rwa [List.dropWhile_cons_of_pos hx]
    · refine ⟨c, argno, ?_, ?_⟩
      · rw [if_neg hx]
      · rwa [List.dropWhile_cons_of_neg hx]

lemma afterParameter_char {x : Char} (hx : x ≠ '(' ∧ x ≠ '[') :
    afterParameter (x :: t) = if x.isDigit = true ∨ x = '*' ∨ x = '@' then t else x :: t := by
  unfold afterParameter
  split
  · next heq => cases heq
  · next heq => exact absurd (List.cons.inj heq).1 hx.1
  · next heq => exact absurd (List.cons.inj heq).1 hx.1
  · next heq => exact absurd (List.cons.inj heq).1 hx.2
  · next heq =>
    cases heq
    rfl

lemma afterParameter_long :
    afterParameter ('[' :: t) =
      match t.dropWhile Char.isDigit with
      | ']' :: t => t
      | t => t := rfl

lemma scan_dollar_parameter_accepts (hnul : NUL ∉ text) (hat : At text c t)
    (hfuel : t.length ≤ fuel) :
    Accepts text esc single (scan_dollar_parameter text fuel c) fun r => r = afterParameter t := by
  rw [scan_dollar_parameter]
  cases t with
  | nil =>
    rw [charAt_nil hat, pure_bind]
    refine Exact.asked fun g _ => ?_
    rw [if_neg (by decide), if_neg (by decide), if_neg (by decide), if_neg (by decide),
      if_neg (by decide), if_neg (by decide)]
    exact Exact.of_leave hat fun r => Iff.rfl
  | cons x t =>
    have hless : t.length < fuel := hfuel
    rw [charAt_cons hat, pure_bind]
    refine Exact.asked fun g _ => ?_
    by_cases htwo : x = '('
    · subst htwo
      rw [if_neg (by decide), if_neg (by decide), if_pos rfl]
      cases t with
      | nil =>
        rw [charAt_nil hat.tail, pure_bind, if_pos rfl]
        exact Exact.of_leave hat.tail fun r => Iff.rfl
      | cons y t =>
        have hy : y ≠ NUL := fun heq => hnul (heq ▸ hat.mem (by simp))
        rw [charAt_cons hat.tail, pure_bind, if_neg hy]
        cases t with
        | nil =>
          rw [charAt_nil hat.tail.tail, pure_bind, if_pos rfl]
          exact Exact.of_leave hat.tail.tail fun r => Iff.rfl
        | cons z t =>
          have hz : z ≠ NUL := fun heq => hnul (heq ▸ hat.mem (by simp))
          rw [charAt_cons hat.tail.tail, pure_bind, if_neg hz]
          split_ifs
          · exact Exact.of_leave hat.tail.tail.tail fun r => Iff.rfl
          · exact Exact.of_leave hat.tail.tail.tail fun r => Iff.rfl
    by_cases hlong : x = '['
    · subst hlong
      rw [if_neg (by decide), if_neg (by decide), if_neg (by decide), if_pos rfl]
      obtain ⟨c', argno, hrun, hat'⟩ := argumentNumber_at 0 hat.tail hless
      rw [hrun, pure_bind, afterParameter_long]
      dsimp only
      cases hrest : t.dropWhile Char.isDigit with
      | nil =>
        rw [hrest] at hat'
        rw [charAt_nil hat', pure_bind, if_pos (by decide)]
        exact Exact.of_leave hat' fun r => Iff.rfl
      | cons y u =>
        rw [hrest] at hat'
        rw [charAt_cons hat', pure_bind]
        by_cases hy : y = ']'
        · subst hy
          rw [if_neg (by simp)]
          exact Exact.of_leave hat'.tail fun r => Iff.rfl
        · rw [if_pos hy]
          exact Exact.of_leave hat' fun r => by simp [hy]
    rw [afterParameter_char ⟨htwo, hlong⟩]
    by_cases hzero : x = '0'
    · subst hzero
      rw [if_pos rfl]
      exact Exact.of_leave hat.tail fun r => by simp
    rw [if_neg hzero]
    by_cases hdigit : x.isDigit = true
    · rw [if_pos hdigit]
      exact Exact.of_leave hat.tail fun r => by simp [hdigit]
    rw [if_neg hdigit, if_neg htwo, if_neg hlong]
    by_cases hstar : x = '*'
    · rw [if_pos hstar]
      exact Exact.of_leave hat.tail fun r => by simp [hstar]
    rw [if_neg hstar]
    by_cases hquote : x = '@'
    · rw [if_pos hquote]
      exact Exact.of_leave hat.tail fun r => by simp [hquote]
    rw [if_neg hquote]
    exact Exact.of_leave hat fun r => by simp [hdigit, hstar, hquote]

lemma signAt_at (sign : ℤ) (hat : At text c t) :
    ∃ c' sign', signAt text c sign = pure (c', sign') ∧ At text c' (afterSign t) ∧
      (sign = 0 → (sign' = 0 ↔ afterSign t = t)) := by
  rw [signAt]
  cases t with
  | nil =>
    refine ⟨c, sign, ?_, hat, fun hs => by simp [hs, afterSign]⟩
    rw [charAt_nil hat, pure_bind, if_neg (by decide), if_neg (by decide)]
  | cons x t =>
    rw [charAt_cons hat, pure_bind]
    by_cases hplus : x = '+'
    · subst hplus
      exact ⟨c + 1, 1, by rw [if_pos rfl], hat.tail, fun _ => by simp [afterSign]⟩
    by_cases hminus : x = '-'
    · subst hminus
      exact ⟨c + 1, -1, by rw [if_neg hplus, if_pos rfl], hat.tail, fun _ => by
        simp [afterSign]⟩
    have hafter : afterSign (x :: t) = x :: t := by
      unfold afterSign
      split
      · next heq => exact absurd (List.cons.inj heq).1 hplus
      · next heq => exact absurd (List.cons.inj heq).1 hminus
      · rfl
    refine ⟨c, sign, ?_, ?_, fun hs => by simp [hs, hafter]⟩
    · rw [if_neg hplus, if_neg hminus]
    · rwa [hafter]

variable {x : Char} {cstr r : Text} {j : ℤ}

lemma afterLongName_cons (hx : x ≠ '\n') : afterLongName (x :: t) = t := by
  unfold afterLongName
  split
  · next heq => cases heq
  · next heq => exact absurd (List.cons.inj heq).1 hx
  · next heq =>
    cases heq
    rfl

lemma scan_number_register_accepts (hnul : NUL ∉ text) (hat : At text c t)
    (hfuel : t.length ≤ fuel) :
    Accepts text esc single (scan_number_register text fuel c) (Register t) := by
  rw [scan_number_register]
  obtain ⟨c₁, sign₁, hsign₁, hat₁, -⟩ := signAt_at 0 hat
  have hshort := afterSign_length t
  rw [hsign₁, pure_bind]
  dsimp only
  cases hrest : afterSign t with
  | nil =>
    rw [hrest] at hat₁
    rw [charAt_nil hat₁, pure_bind, if_neg (by decide), if_neg (by decide)]
    refine Exact.computed (getNumberRegisterValue_symbols _ _) fun _ =>
      Exact.of_behind hat₁.behind fun r h => ?_
    simp [register_iff, hrest] at h
  | cons x u =>
    rw [hrest] at hat₁ hshort
    rw [List.length_cons] at hshort
    rw [charAt_cons hat₁, pure_bind]
    by_cases hlong : x = '['
    · subst hlong
      rw [if_pos rfl]
      obtain ⟨c₂, sign₂, hsign₂, hat₂, -⟩ := signAt_at sign₁ hat₁.tail
      have hshort₂ := afterSign_length u
      have hless : (afterSign u).length < fuel := by omega
      rw [hsign₂, pure_bind]
      dsimp only
      obtain ⟨c₃, hname, hat₃⟩ :=
        upTo_at (fun x => x = ']' || x = '\n') [] hnul hat₂ hless
      rw [hname, pure_bind]
      dsimp only
      have hiff : ∀ r, Register t r ↔
          r = afterLongName ((afterSign u).dropWhile fun x => !(x = ']' || x = '\n')) := by
        intro r
        rw [register_iff, hrest]
        simp
      cases hend : (afterSign u).dropWhile fun x => !(x = ']' || x = '\n') with
      | nil =>
        rw [hend] at hat₃ hiff
        rw [charAt_nil hat₃, pure_bind, if_pos (Or.inl rfl)]
        exact Exact.of_leave hat₃ hiff
      | cons y v =>
        rw [hend] at hat₃ hiff
        have hy : y ≠ NUL := fun heq => hnul (heq ▸ hat₃.mem (by simp))
        rw [charAt_cons hat₃, pure_bind]
        by_cases hline : y = '\n'
        · subst hline
          rw [if_pos (Or.inr rfl)]
          exact Exact.of_leave hat₃ hiff
        · rw [if_neg (by simp [hy, hline])]
          rw [afterLongName_cons hline] at hiff
          exact Exact.computed (getNumberRegisterValue_symbols _ _) fun _ =>
            Exact.of_leave hat₃.tail hiff
    rw [if_neg hlong]
    by_cases htwo : x = '('
    · subst htwo
      rw [if_pos rfl]
      obtain ⟨c₂, sign₂, hsign₂, hat₂, -⟩ := signAt_at sign₁ hat₁.tail
      rw [hsign₂, pure_bind]
      dsimp only
      have hiff : ∀ r, Register t r ↔ ∃ y z, afterSign u = y :: z :: r := by
        intro r
        rw [register_iff, hrest]
        simp
      cases hend : afterSign u with
      | nil =>
        rw [hend] at hat₂
        rw [charAt_nil hat₂, pure_bind]
        exact Exact.of_outside hat₂.behind fun r h => by
          obtain ⟨y, z, hu⟩ := (hiff r).mp h
          simp [hend] at hu
      | cons y v =>
        rw [hend] at hat₂
        rw [charAt_cons hat₂, pure_bind]
        cases v with
        | nil =>
          rw [charAt_nil hat₂.tail, pure_bind]
          exact Exact.computed (getNumberRegisterValue_symbols _ _) fun _ =>
            Exact.of_behind hat₂.tail.behind fun r h => by
              obtain ⟨y, z, hu⟩ := (hiff r).mp h
              simp [hend] at hu
        | cons z v =>
          rw [charAt_cons hat₂.tail, pure_bind]
          exact Exact.computed (getNumberRegisterValue_symbols _ _) fun _ =>
            Exact.of_leave hat₂.tail.tail fun r => by
              rw [hiff, hend]
              simp [eq_comm]
    rw [if_neg htwo]
    exact Exact.computed (getNumberRegisterValue_symbols _ _) fun _ =>
      Exact.of_leave hat₁.tail fun r => by
        rw [register_iff, hrest]
        simp [hlong, htwo, eq_comm]

lemma fewCharacters_cons {i : ℕ} {name : Text} (hx : x ≠ NUL ∧ x ≠ '\n')
    (hat : At text c (x :: t)) :
    fewCharacters text (i + 1) c name = fewCharacters text i (c + 1) (name ++ [x]) := by
  rw [fewCharacters, charAt_cons hat, pure_bind, if_neg (by simp [hx])]

lemma fewCharacters_end {i : ℕ} {name : Text} (hat : At text c t)
    (h : i = 0 ∨ t = [] ∨ ∃ u, t = '\n' :: u) : fewCharacters text i c name = pure (c, name) := by
  unfold fewCharacters
  cases t with
  | nil => rw [charAt_nil hat, pure_bind, if_pos (Or.inl rfl)]
  | cons x t =>
    rw [charAt_cons hat, pure_bind]
    split_ifs with hfinal
    · rfl
    · rcases h with rfl | h | ⟨u, h⟩
      · rfl
      · cases h
      · cases h
        exact absurd (Or.inr rfl) hfinal

lemma afterName_two {y : Char} (hx : x ≠ '\n') (hy : y ≠ '\n') :
    afterName ('(' :: x :: y :: t) = t := by
  simp [afterName]

lemma afterName_line (hx : x ≠ '\n') : afterName ('(' :: x :: '\n' :: t) = '\n' :: t := by
  simp [afterName]

lemma afterName_one {x : Char} (hx : x ≠ '(' ∧ x ≠ '[') : afterName (x :: t) = x :: t := by
  unfold afterName
  split
  all_goals
    first
    | rfl
    | next heq =>
      cases heq
      simp at hx

lemma scan_name_accepts (hnul : NUL ∉ text) (hat : At text c t) (hfuel : t.length ≤ fuel) :
    Accepts text esc single (scan_name text fuel c) fun r => r = afterName t := by
  rw [scan_name]
  cases t with
  | nil =>
    rw [charAt_nil hat, pure_bind, if_neg (by decide), if_neg (by decide)]
    exact Exact.of_leave hat fun r => Iff.rfl
  | cons x t =>
    have hless : t.length < fuel := hfuel
    rw [charAt_cons hat, pure_bind]
    by_cases htwo : x = '('
    · subst htwo
      rw [if_pos rfl]
      cases t with
      | nil =>
        rw [fewCharacters_end hat.tail (by simp), pure_bind]
        exact Exact.of_leave hat.tail fun r => Iff.rfl
      | cons y t =>
        have hy : y ≠ NUL := fun heq => hnul (heq ▸ hat.mem (by simp))
        by_cases hline : y = '\n'
        · subst hline
          rw [fewCharacters_end hat.tail (by simp), pure_bind]
          exact Exact.of_leave hat.tail fun r => Iff.rfl
        rw [fewCharacters_cons ⟨hy, hline⟩ hat.tail]
        cases t with
        | nil =>
          rw [fewCharacters_end hat.tail.tail (by simp), pure_bind]
          refine Exact.of_leave hat.tail.tail fun r => ?_
          have hafter : afterName ['(', y] = [] := by
            unfold afterName
            split
            all_goals simp_all
          rw [hafter]
        | cons z t =>
          have hz : z ≠ NUL := fun heq => hnul (heq ▸ hat.mem (by simp))
          by_cases hline' : z = '\n'
          · subst hline'
            rw [fewCharacters_end hat.tail.tail (by simp), pure_bind, afterName_line hline]
            exact Exact.of_leave hat.tail.tail fun r => Iff.rfl
          rw [fewCharacters_cons ⟨hz, hline'⟩ hat.tail.tail,
            fewCharacters_end hat.tail.tail.tail (Or.inl rfl), pure_bind,
            afterName_two hline hline']
          exact Exact.of_leave hat.tail.tail.tail fun r => Iff.rfl
    rw [if_neg htwo]
    by_cases hlong : x = '['
    · subst hlong
      rw [if_pos rfl]
      obtain ⟨c', hname, hat'⟩ :=
        upTo_at (fun x => x = ']' || x = '\n') [] hnul hat.tail hless
      rw [hname, pure_bind]
      exact Exact.of_leave hat' fun r => Iff.rfl
    rw [if_neg hlong, afterName_one ⟨htwo, hlong⟩]
    exact Exact.of_leave hat fun r => Iff.rfl

lemma code_outside (h : ¬ IsCode (t.takeWhile fun x => !(x = '\n' || x = '\''))) :
    Code ('\'' :: t) r ↔ r = t.dropWhile fun x => !(x = '\n' || x = '\'') := by
  constructor
  · intro hr
    cases hr with
    | none h => simp at h
    | outside h => rfl
    | code h' hr => exact absurd h' h
  · rintro rfl
    exact .outside h

lemma code_code (h : IsCode (t.takeWhile fun x => !(x = '\n' || x = '\''))) :
    Code ('\'' :: t) r ↔ ∃ x, t.dropWhile (fun x => !(x = '\n' || x = '\'')) = x :: r := by
  constructor
  · intro hr
    cases hr with
    | none h => simp at h
    | outside h' => exact absurd h h'
    | code h hr => exact ⟨_, hr⟩
  · rintro ⟨x, hr⟩
    exact .code h hr

lemma code_none (h : t.head? ≠ some '\'') : Code t r ↔ r = t := by
  constructor
  · intro hr
    cases hr with
    | none h => rfl
    | outside h' => simp at h
    | code h' hr => simp at h
  · rintro rfl
    exact .none h

lemma scan_number_code_accepts (hnul : NUL ∉ text) (hat : At text c t) (hfuel : t.length ≤ fuel) :
    Accepts text esc single (scan_number_code text fuel c) (Code t) := by
  rw [scan_number_code]
  cases t with
  | nil =>
    rw [charAt_nil hat, pure_bind, if_pos (by decide)]
    exact Exact.of_leave hat fun r => code_none (by simp)
  | cons x t =>
    have hless : t.length < fuel := hfuel
    rw [charAt_cons hat, pure_bind]
    by_cases hquote : x = '\''
    · subst hquote
      obtain ⟨c', hdigits, hat'⟩ :=
        upTo_at (fun x => x = '\n' || x = '\'') [] hnul hat.tail hless
      rw [if_neg (by simp), hdigits, pure_bind]
      dsimp only [List.nil_append]
      by_cases hcode : IsCode (t.takeWhile fun x => !(x = '\n' || x = '\''))
      · have hnine : ¬ (toUInt (t.takeWhile fun x => !(x = '\n' || x = '\''))).getD 0 = 9 := by
          have hge := hcode.1
          omega
        have hrange : ¬ ((toUInt (t.takeWhile fun x => !(x = '\n' || x = '\''))).getD 0 < 32 ∨
            65535 < (toUInt (t.takeWhile fun x => !(x = '\n' || x = '\''))).getD 0) := by
          have hge := hcode.1
          have hle := hcode.2
          omega
        rw [if_neg hrange, if_neg hnine]
        refine Exact.changed (fun _ => rfl) ?_
        cases hend : t.dropWhile fun x => !(x = '\n' || x = '\'') with
        | nil =>
          rw [hend] at hat'
          exact Exact.of_behind hat'.behind fun r h => by
            obtain ⟨x, hx⟩ := (code_code hcode).mp h
            rw [hend] at hx
            cases hx
        | cons y u =>
          rw [hend] at hat'
          exact Exact.of_leave hat'.tail fun r => by
            rw [code_code hcode, hend]
            simp [eq_comm]
      · have hrange : (toUInt (t.takeWhile fun x => !(x = '\n' || x = '\''))).getD 0 < 32 ∨
            65535 < (toUInt (t.takeWhile fun x => !(x = '\n' || x = '\''))).getD 0 := by
          unfold IsCode at hcode
          omega
        rw [if_pos hrange]
        exact Exact.of_leave hat' fun r => code_outside hcode
    · rw [if_pos hquote]
      exact Exact.of_leave hat fun r => code_none (by simp [hquote])

/-! ### Sizes and delimited arguments -/

lemma plusplus_accepts (hnul : NUL ∉ text) (hat : At text c t) :
    Accepts text esc single (plusplus text c cstr) fun r => r = t.tail := by
  rw [plusplus]
  cases t with
  | nil =>
    rw [charAt_nil hat, pure_bind, if_pos rfl]
    exact Exact.of_leave hat fun r => Iff.rfl
  | cons x t =>
    have hx : x ≠ NUL := fun heq => hnul (heq ▸ hat.mem (by simp))
    rw [charAt_cons hat, pure_bind, if_neg hx]
    exact Exact.of_leave hat.tail fun r => Iff.rfl

lemma back_plusplus_accepts (hnul : NUL ∉ text) (hat : At text c t) (hc : 0 < c) :
    Accepts text esc single (back c >>= fun c => plusplus text c cstr) fun r => r = t := by
  obtain ⟨c, rfl⟩ : ∃ m, c = m + 1 := ⟨c - 1, by omega⟩
  obtain ⟨x, hprev⟩ := hat.prev
  exact plusplus_accepts hnul hprev

@[simp] lemma setSize_symbols (i j : ℤ) (cstr : Text) (g : Globals) :
    (setSize i j cstr g).2.symbols = g.symbols := by
  unfold setSize
  dsimp only
  split_ifs <;> simp

lemma sized_accepts (hnul : NUL ∉ text) (hat : At text c t) (hc : 0 < c) :
    Accepts text esc single (sized text c i j cstr) fun r => r = t :=
  Exact.computed (setSize_symbols i j cstr) fun _ => back_plusplus_accepts hnul hat hc

lemma digit_value (hx : x.isDigit = true) (hzero : x ≠ '0') : 1 ≤ x.toNat - 48 := by
  have hlow : 48 ≤ x.toNat := (Char.isDigit_iff_toNat.mp hx).1
  have hne : x.toNat ≠ 48 := fun heq => hzero (Char.toNat_inj.mp heq)
  omega

lemma sizeDigits_step (hat : At text c (x :: t))
    (h : x.isDigit = true ∧ (i = 0 ∨ (j = 0 ∧ i < 4))) : sizeDigits text j (fuel + 1) c i =
      sizeDigits text j fuel (c + 1) (i * 10 + (x.toNat - 48 : ℕ)) := by
  rw [sizeDigits, charAt_cons hat, pure_bind, if_pos h]

lemma sizeDigits_end (hat : At text c t)
    (h : ∀ x ∈ t.head?, ¬ (x.isDigit = true ∧ (i = 0 ∨ (j = 0 ∧ i < 4)))) :
    sizeDigits text j (fuel + 1) c i = pure (c, i) := by
  have hdigit : NUL.isDigit = false := by decide
  rw [sizeDigits]
  cases t with
  | nil => rw [charAt_nil hat, pure_bind, if_neg (by simp [hdigit])]
  | cons x t => rw [charAt_cons hat, pure_bind, if_neg (h x rfl)]

lemma sizeDigits_at (hat : At text c t) (hfuel : t.length < fuel) (hzero : t.head? ≠ some '0') :
    ∃ c' i, sizeDigits text j fuel c 0 = pure (c', i) ∧
      At text c' (afterDigits (decide (j ≠ 0)) t) ∧ c ≤ c' := by
  obtain ⟨fuel, rfl⟩ : ∃ m, fuel = m + 1 := ⟨fuel - 1, by omega⟩
  cases t with
  | nil => exact ⟨c, 0, sizeDigits_end hat (by simp), hat, Nat.le_refl c⟩
  | cons x t =>
    have hx0 : x ≠ '0' := by simpa using hzero
    by_cases hx : x.isDigit = true
    · -- the first digit is not 0, so that a third one is never taken
      have hpos := digit_value hx hx0
      have hless : t.length < fuel := Nat.lt_of_succ_lt_succ hfuel
      obtain ⟨fuel, rfl⟩ : ∃ m, fuel = m + 1 := ⟨fuel - 1, by omega⟩
      rw [sizeDigits_step hat ⟨hx, Or.inl rfl⟩]
      set d : ℤ := 0 * 10 + ((x.toNat - 48 : ℕ) : ℤ) with hd
      cases t with
      | nil =>
        refine ⟨c + 1, d, sizeDigits_end hat.tail (by simp), ?_, by omega⟩
        simpa [afterDigits, hx] using hat.tail
      | cons y t =>
        by_cases hy : y.isDigit = true ∧ j = 0 ∧ x.toNat - 48 < 4
        · obtain ⟨fuel, rfl⟩ : ∃ m, fuel = m + 1 := ⟨fuel - 1, by simp at hless; omega⟩
          rw [sizeDigits_step hat.tail ⟨hy.1, Or.inr ⟨hy.2.1, by omega⟩⟩]
          refine ⟨c + 2, _, sizeDigits_end hat.tail.tail ?_, ?_, by omega⟩
          · rintro z - ⟨-, hi | ⟨-, hi⟩⟩
            · omega
            · omega
          · have hafter : afterDigits (decide (j ≠ 0)) (x :: y :: t) = t := by
              simp [afterDigits, hx, hy]
            rw [hafter]
            exact hat.tail.tail
        · refine ⟨c + 1, d, sizeDigits_end hat.tail ?_, ?_, by omega⟩
          · rintro z hz ⟨hdigit, hi | ⟨hj, hi⟩⟩
            · omega
            · obtain rfl : y = z := by simpa using hz
              exact hy ⟨hdigit, hj, by omega⟩
          · have hafter : afterDigits (decide (j ≠ 0)) (x :: y :: t) = y :: t := by
              have hno : ¬ (y.isDigit = true ∧ decide (j ≠ 0) = false ∧ x.toNat - 48 < 4) := by
                simpa using hy
              rw [afterDigits, if_pos hx, if_neg hno]
            rw [hafter]
            exact hat.tail
    · refine ⟨c, 0, sizeDigits_end hat (by simp [hx]), ?_, Nat.le_refl c⟩
      have hafter : afterDigits (decide (j ≠ 0)) (x :: t) = x :: t := by
        cases t <;> simp [afterDigits, hx]
      rwa [hafter]

lemma escape_size :
    Escape esc single ('s' :: t) r ↔
      afterSign t = '0' :: r ∨ (∃ u, afterSign t = '\\' :: u ∧ Escape esc single u r) ∨
      ((afterSign t).head? ≠ some '0' ∧ (afterSign t).head? ≠ some '\\' ∧
        r = afterDigits (decide (afterSign t ≠ t)) (afterSign t)) := by
  rw [escape_iff]
  simp [longForms, and_assoc]

lemma scanSize_accepts {escape : ℕ → Scan Globals (ℕ × Text)} {n : ℕ}
    (hE : Good text esc single escape n) (hnul : NUL ∉ text) (hat : At text c t) (hc : 0 < c)
    (hn : t.length ≤ n) (hfuel : t.length < fuel) :
    Accepts text esc single (scanSize text escape fuel c)
      fun r => Escape esc single ('s' :: t) r := by
  obtain ⟨c', j, hsign, hat', hj⟩ := signAt_at 0 hat
  have hshort := afterSign_length t
  have hpos : 0 < c' := by
    have hlen := hat.length
    have hlen' := hat'.length
    omega
  have hsigned : decide (j ≠ 0) = decide (afterSign t ≠ t) := by
    rw [decide_eq_decide, not_iff_not]
    exact hj rfl
  rw [scanSize, hsign, pure_bind]
  dsimp only
  cases hrest : afterSign t with
  | nil =>
    rw [hrest] at hat'
    have hless : ([] : Text).length < fuel := by simp; omega
    obtain ⟨c'', i, hdigits, hat'', hle⟩ := sizeDigits_at (j := j) hat' hless (by simp)
    rw [charAt_nil hat', pure_bind, if_neg (by decide), if_neg (by decide), hdigits, pure_bind]
    refine (sized_accepts hnul hat'' (by omega)).congr fun r => ?_
    rw [escape_size, hrest, hsigned, hrest]
    simp
  | cons x u =>
    rw [hrest] at hat' hshort
    rw [List.length_cons] at hshort
    rw [charAt_cons hat', pure_bind]
    by_cases hzero : x = '0'
    · subst hzero
      rw [if_pos rfl]
      refine (sized_accepts hnul hat'.tail (by omega)).congr fun r => ?_
      rw [escape_size, hrest]
      simp [eq_comm]
    rw [if_neg hzero]
    by_cases hescape : x = '\\'
    · subst hescape
      rw [if_pos rfl]
      have hinner := hE.accepts (c' + 1) u hat'.tail (by omega) (by omega)
      refine (Exact.seq hinner (K := fun rest r => r = rest)
        fun c'' cstr rest hat'' hinside => ?_).congr fun r => ?_
      · refine Exact.asked fun g _ => ?_
        have hle := hinside.length_le
        have hlen' := hat'.length
        have hlen'' := hat''.length
        rw [List.length_cons] at hlen'
        exact sized_accepts hnul hat'' (by omega)
      · rw [escape_size, hrest]
        simp
    · rw [if_neg hescape]
      have hless : (x :: u).length < fuel := by
        rw [List.length_cons]
        omega
      obtain ⟨c'', i, hdigits, hat'', hle⟩ :=
        sizeDigits_at (j := j) hat' hless (by simpa using hzero)
      rw [hdigits, pure_bind]
      refine (sized_accepts hnul hat'' (by omega)).congr fun r => ?_
      rw [escape_size, hrest, hsigned, hrest]
      simp [hzero, hescape]

lemma delimited_final : Delimited esc single d (d :: t) r ↔ r = t := by
  constructor
  · intro h
    cases h with
    | final => rfl
    | escape hx h hr => exact absurd rfl hx
    | char hx hesc h => exact absurd rfl hx
  · rintro rfl
    exact .final

lemma delimited_escape (hx : esc ≠ d) :
    Delimited esc single d (esc :: t) r ↔
      ∃ s, Escape esc single t s ∧ Delimited esc single d s r := by
  rw [delimited_iff]
  simp [hx]

lemma delimited_char (hx : x ≠ d) (hesc : x ≠ esc) :
    Delimited esc single d (x :: t) r ↔ Delimited esc single d t r := by
  rw [delimited_iff]
  simp [hx, hesc]

variable {escape : ℕ → Scan Globals (ℕ × Text)} {n : ℕ}

lemma delimitedLoop_outside {i : Char} {turns : ℕ × Text} (hfuel : 0 < fuel)
    (hc : text.length < c) :
    Accepts text esc single (delimitedLoop text escape i fuel c turns) fun _ => False := by
  obtain ⟨fuel, rfl⟩ : ∃ m, fuel = m + 1 := ⟨fuel - 1, by omega⟩
  rw [delimitedLoop]
  exact Exact.of_outside hc fun _ h => h

lemma delimitedLoop_accepts {i : Char} (hi : i ≠ NUL) (hE : Good text esc single escape n)
    {turns : ℕ × Text} (hat : At text c t) (hn : t.length ≤ n) (hfuel : t.length + 1 < fuel) :
    Accepts text esc single (delimitedLoop text escape i fuel c turns)
      fun s => ∃ r, Delimited esc single i t r ∧ s = i :: r := by
  induction fuel generalizing c t turns with
  | zero => omega
  | succ fuel ih =>
    rw [delimitedLoop]
    cases t with
    | nil =>
      have hnone : ∀ s, ¬ ∃ r, Delimited esc single i [] r ∧ s = i :: r := by
        rintro s ⟨r, h, -⟩
        cases h
      have hless : 0 < fuel := by simpa using hfuel
      rw [charAt_nil hat, pure_bind, if_neg hi.symm]
      refine Exact.asked fun g _ => ?_
      by_cases hesc : NUL = g.escapesym
      · rw [if_pos hesc]
        exact (hE.outside_bind _ hat.behind).congr fun r => by simp [hnone]
      · rw [if_neg hesc]
        exact (delimitedLoop_outside hless hat.behind).congr fun r => by simp [hnone]
    | cons x t =>
      have hless : t.length + 1 < fuel := Nat.lt_of_succ_lt_succ hfuel
      have hshort : t.length < n := hn
      rw [charAt_cons hat, pure_bind]
      by_cases hfinal : x = i
      · subst hfinal
        rw [if_pos rfl]
        exact Exact.of_pure hat fun r => by simp [delimited_final]
      · rw [if_neg hfinal]
        refine Exact.asked fun g hg => ?_
        have hsym : g.escapesym = esc := congrArg Prod.fst hg
        by_cases hesc : x = g.escapesym
        · rw [if_pos hesc]
          obtain rfl : x = esc := hesc.trans hsym
          have hinner := hE.accepts (c + 1) t hat.tail hshort (by omega)
          refine (Exact.seq hinner (K := fun s r => ∃ u, Delimited x single i s u ∧ r = i :: u)
            fun c' cstr rest hat' hrest => ?_).congr fun r => ?_
          · have hle := hrest.length_le
            exact ih hat' (by omega) (by omega)
          · constructor
            · rintro ⟨s, hs, u, hu, rfl⟩
              exact ⟨u, (delimited_escape hfinal).mpr ⟨s, hs, hu⟩, rfl⟩
            · rintro ⟨u, hu, rfl⟩
              obtain ⟨s, hs, hu⟩ := (delimited_escape hfinal).mp hu
              exact ⟨s, hs, u, hu, rfl⟩
        · rw [if_neg hesc]
          rw [hsym] at hesc
          refine (ih hat.tail (Nat.le_of_lt hshort) hless).congr fun r => ?_
          simp only [delimited_char hfinal hesc]

lemma delimited_accepts {β : Type} {f : ℕ × ℕ × Text → Scan Globals (ℕ × β)}
    (hE : Good text esc single escape n) (hnul : NUL ∉ text) (hat : At text c t) (hn : t.length ≤ n)
    (hfuel : t.length + 1 < fuel)
    (hf : ∀ c a rest, At text c rest → Accepts text esc single (f (c, a)) fun r => r = rest.tail) :
    Accepts text esc single (delimited text escape cstr fuel c >>= f)
      fun r => ∃ d u, t = d :: u ∧ Delimited esc single d u r := by
  rw [delimited, bind_assoc]
  cases t with
  | nil =>
    rw [charAt_nil hat, pure_bind, bind_assoc]
    refine Exact.asked fun g _ => ?_
    rw [bind_assoc]
    refine Exact.changed (fun _ => rfl) ?_
    rw [bind_assoc]
    refine (Exact.seq (delimitedLoop_outside (by omega) hat.behind) (K := fun _ _ => False)
      fun _ _ _ _ h => h.elim).congr fun r => by simp
  | cons d u =>
    have hd : d ≠ NUL := fun heq => hnul (heq ▸ hat.mem (by simp))
    rw [List.length_cons] at hn hfuel
    have hless : u.length + 1 < fuel := Nat.lt_of_succ_lt hfuel
    rw [charAt_cons hat, pure_bind, bind_assoc]
    refine Exact.asked fun g _ => ?_
    rw [bind_assoc]
    refine Exact.changed (fun _ => rfl) ?_
    rw [bind_assoc]
    refine (Exact.seq (delimitedLoop_accepts hd hE hat.tail (by omega) hless)
      (K := fun rest r => r = rest.tail) fun c' a rest hat' _ => ?_).congr fun r => ?_
    · obtain ⟨j, cstr'⟩ := a
      dsimp only
      rw [bind_assoc]
      refine Exact.changed (fun _ => rfl) ?_
      rw [pure_bind]
      exact hf c' (j, cstr') rest hat'
    · constructor
      · rintro ⟨s, ⟨v, hv, rfl⟩, rfl⟩
        exact ⟨d, u, rfl, hv⟩
      · rintro ⟨d', u', heq, h⟩
        cases heq
        exact ⟨d :: r, ⟨r, h, rfl⟩, rfl⟩

end

/-! ### Escapes -/

section

variable {t : Text}

variable {r : Text}

lemma escape_nothing : Escape esc single [] r ↔ r = [] := by
  rw [escape_iff]
  simp

variable {x : Char}

lemma escape_plain (hx : x ∉ longForms) : Escape esc single (x :: t) r ↔ r = t := by
  constructor
  · intro h
    cases h with
    | plain hx => rfl
    | name hx' => rcases hx' with rfl | rfl | rfl <;> exact absurd (by decide) hx
    | character hx' => rcases hx' with rfl | rfl | rfl <;> exact absurd (by decide) hx
    | delimited hx' =>
      refine absurd ?_ hx
      simp only [List.mem_cons, List.not_mem_nil, or_false] at hx'
      rcases hx' with rfl | rfl | rfl | rfl | rfl | rfl | rfl | rfl <;> decide
    | _ => exact absurd (by decide) hx
  · rintro rfl
    exact .plain hx

lemma escape_comment : Escape esc single ('"' :: t) r ↔ r = t.dropWhile fun x => !(x = '\n') := by
  rw [escape_iff]
  simp [longForms]

lemma escape_parameter : Escape esc single ('$' :: t) r ↔ r = afterParameter t := by
  rw [escape_iff]
  simp [longForms]

lemma escape_zero (h : t.head? ≠ some '\\') : Escape esc single ('z' :: t) r ↔ r = t.tail := by
  constructor
  · intro hr
    cases hr with
    | plain hx => exact absurd (by decide) hx
    | zero h => rfl
    | zeroEscape hr => simp at h
    | name hx => simp at hx
    | character hx => simp at hx
    | delimited hx => simp at hx
  · rintro rfl
    exact .zero h

lemma escape_zeroEscape : Escape esc single ('z' :: '\\' :: t) r ↔ Escape esc single t r := by
  rw [escape_iff]
  simp [longForms]

lemma escape_name (hx : x = 'k' ∨ x = 'F' ∨ x = 'm') :
    Escape esc single (x :: t) r ↔ r = (afterName t).tail := by
  rw [escape_iff]
  rcases hx with rfl | rfl | rfl <;> simp [longForms]

lemma escape_character {x : Char} (hx : x = '(' ∨ x = '[' ∨ x = 'C') {r : Text} :
    Escape esc single (x :: t) r ↔ Character esc single (x :: t) r := by
  rw [escape_iff]
  rcases hx with rfl | rfl | rfl <;> simp [longForms]

lemma escape_string : Escape esc single ('*' :: t) r ↔ NamedString esc single t r := by
  rw [escape_iff]
  simp [longForms]

lemma escape_font : Escape esc single ('f' :: t) r ↔ Font esc single t r := by
  rw [escape_iff]
  simp [longForms]

lemma escape_register : Escape esc single ('n' :: t) r ↔ Register t r := by
  rw [escape_iff]
  simp [longForms]

lemma escape_code : Escape esc single ('N' :: t) r ↔ Code t r := by
  rw [escape_iff]
  simp [longForms]

lemma escape_backslash :
    Escape esc single ('\\' :: t) r ↔ r = if single = true then '\\' :: t else t := by
  rw [escape_iff]
  cases single <;> simp [longForms, eq_comm]

lemma escape_delimited (hx : x ∈ ['w', 'l', 'b', 'v', 'x', 'o', 'L', 'h']) :
    Escape esc single (x :: t) r ↔ ∃ d u, t = d :: u ∧ Delimited esc single d u r := by
  simp only [List.mem_cons, List.not_mem_nil, or_false] at hx
  rw [escape_iff]
  rcases hx with rfl | rfl | rfl | rfl | rfl | rfl | rfl | rfl <;> simp [longForms, and_comm]

end

section

variable {c : ℕ} {t : Text} {fuel : ℕ}

variable {x : Char}

lemma scan_escape_direct_plain (hx : x ∉ longForms)
    (hchar : (charAt text c : Scan Globals Char) = pure x) :
    scan_escape_direct text (fuel + 1) c = modify (fun g => { g with intresult := 0 }) >>= fun _ =>
        modifyGet (oneCharacter x) >>= fun cstr => plusplus text c cstr := by
  rw [scan_escape_direct, hchar]
  simp only [pure_bind]
  split
  all_goals first
    | rfl
    | exact absurd (by decide) hx

lemma oneCharacter_symbols (x : Char) (g : Globals) : (oneCharacter x g).2.symbols = g.symbols := by
  unfold oneCharacter
  dsimp only
  split <;> rfl

lemma scan_escape_direct_outside (hfuel : 0 < fuel) (hc : text.length < c) :
    Accepts text esc single (scan_escape_direct text fuel c) fun _ => False := by
  obtain ⟨fuel, rfl⟩ : ∃ m, fuel = m + 1 := ⟨fuel - 1, by omega⟩
  rw [scan_escape_direct]
  exact Exact.changed (fun _ => rfl) (Exact.of_outside hc fun _ h => h)

lemma scan_delimited_accepts (hx : x ∈ ['w', 'l', 'b', 'v', 'x', 'o', 'L', 'h'])
    (hE : Good text esc single (scan_escape_direct text fuel) (fuel - 2)) (hnul : NUL ∉ text)
    (hat : At text c (x :: t)) (hfuel : t.length + 3 ≤ fuel) :
    Accepts text esc single (scan_escape_direct text (fuel + 1) c)
      (Escape esc single (x :: t)) := by
  have hdelimited : ∀ {cstr : Text} {f : ℕ × ℕ × Text → Scan Globals (ℕ × Text)},
      (∀ c a rest, At text c rest →
        Accepts text esc single (f (c, a)) fun r => r = rest.tail) →
      Accepts text esc single
        (delimited text (scan_escape_direct text fuel) cstr fuel (c + 1) >>= f)
        (Escape esc single (x :: t)) := by
    intro cstr f hf
    exact (delimited_accepts hE hnul hat.tail (by omega) (by omega) hf).congr
      fun r => (escape_delimited hx).symm
  rw [scan_escape_direct]
  refine Exact.changed (fun _ => rfl) ?_
  rw [charAt_cons hat, pure_bind]
  simp only [List.mem_cons, List.not_mem_nil, or_false] at hx
  rcases hx with rfl | rfl | rfl | rfl | rfl | rfl | rfl | rfl
  · exact hdelimited fun c a rest hat' =>
      Exact.changed (fun _ => rfl) (plusplus_accepts hnul hat')
  · exact Exact.changed (fun _ => rfl) (hdelimited fun c a rest hat' => plusplus_accepts hnul hat')
  all_goals exact hdelimited fun c a rest hat' => plusplus_accepts hnul hat'

lemma scan_name_bind_accepts {β : Type} {f : ℕ × Text → Scan Globals (ℕ × β)} (hnul : NUL ∉ text)
    (hat : At text c t) (hfuel : t.length ≤ fuel)
    (hf : ∀ c a rest, At text c rest → Accepts text esc single (f (c, a)) fun r => r = rest.tail) :
    Accepts text esc single (scan_name text fuel c >>= f) fun r => r = (afterName t).tail :=
  (Exact.seq (scan_name_accepts hnul hat hfuel) (K := fun rest r => r = rest.tail)
    fun c a rest hat' _ => hf c a rest hat').congr fun r => by simp

/-- A character of no width: `\\z`, with an escape in place of the character. -/
lemma scan_zero_accepts
    (hE : Good text esc single (scan_escape_direct text fuel) (fuel - 2)) (hnul : NUL ∉ text)
    (hat : At text c ('z' :: t)) (hfuel : t.length + 3 ≤ fuel) :
    Accepts text esc single
      (charAt text (c + 1) >>= fun y =>
        if y = '\\' then scan_escape_direct text fuel (c + 2) >>= fun p =>
          back p.1 >>= fun c => plusplus text c p.2
        else plusplus text (c + 1) [y]) (Escape esc single ('z' :: t)) := by
  cases t with
  | nil =>
    rw [charAt_nil hat.tail, pure_bind, if_neg (by decide)]
    exact (plusplus_accepts hnul hat.tail).congr fun r => (escape_zero (by simp)).symm
  | cons y t =>
    rw [charAt_cons hat.tail, pure_bind]
    by_cases hy : y = '\\'
    · subst hy
      rw [List.length_cons] at hfuel
      rw [if_pos rfl]
      have hinner := hE.accepts (c + 2) t hat.tail.tail (by omega) (by omega)
      refine (Exact.seq hinner (K := fun rest r => r = rest)
        fun c' cstr rest hat' hrest => ?_).congr fun r => ?_
      · have hle := hrest.length_le
        have hlen := hat.length
        have hlen' := hat'.length
        rw [List.length_cons, List.length_cons] at hlen
        exact back_plusplus_accepts hnul hat' (by omega)
      · rw [escape_zeroEscape]
        simp
    · rw [if_neg hy]
      exact (plusplus_accepts hnul hat.tail).congr fun r => (escape_zero (by simp [hy])).symm

/-- Behind the escape character, an escape is read if it is complete, and otherwise the text is
left. The first character may be a backslash that is asked for twice only behind another one. -/
lemma scan_escape_direct_accepts (hnul : NUL ∉ text) (hat : At text c t)
    (hfuel : t.length + 3 ≤ fuel) (hc : 0 < c ∨ ¬ (single = true ∧ t.head? = some '\\')) :
    Accepts text esc single (scan_escape_direct text fuel c) (Escape esc single t) := by
  induction fuel generalizing c t with
  | zero => omega
  | succ fuel ih =>
    have hE : Good text esc single (scan_escape_direct text fuel) (fuel - 2) :=
      ⟨fun c' t' hat' hn hc' => ih hat' (by omega) (Or.inl hc'),
        fun c' hc' => scan_escape_direct_outside (by omega) hc'⟩
    cases t with
    | nil =>
      rw [scan_escape_direct_plain (by decide) (charAt_nil hat)]
      refine Exact.changed (fun _ => rfl) (Exact.computed (oneCharacter_symbols _) fun cstr => ?_)
      exact (plusplus_accepts hnul hat).congr fun r => escape_nothing.symm
    | cons x t =>
      rw [List.length_cons] at hfuel
      have hless : t.length + 3 ≤ fuel := Nat.le_of_succ_le_succ hfuel
      by_cases hdelimited : x ∈ ['w', 'l', 'b', 'v', 'x', 'o', 'L', 'h']
      · exact scan_delimited_accepts hdelimited hE hnul hat hless
      by_cases hlong : x ∈ longForms
      · rw [scan_escape_direct]
        refine Exact.changed (fun _ => rfl) ?_
        rw [charAt_cons hat, pure_bind]
        simp only [longForms, List.mem_cons, List.not_mem_nil, or_false] at hlong hdelimited
        rcases hlong with rfl | rfl | rfl | rfl | rfl | rfl | rfl | rfl | rfl | rfl | rfl | rfl |
          rfl | rfl | rfl | rfl | rfl | rfl | rfl | rfl | rfl | rfl | rfl
        · -- a comment
          have hshort : t.length < fuel := by omega
          obtain ⟨c', hrun, hat'⟩ := upTo_at (fun x => x = '\n') [] hnul hat.tail hshort
          change Accepts text esc single
            (upTo text (fun x => x = '\n') fuel (c + 1) [] >>= fun p => leave text p.1 []) _
          rw [hrun, pure_bind]
          exact (Exact.of_leave hat' fun r => Iff.rfl).congr fun r => escape_comment.symm
        · exact (scan_dollar_parameter_accepts hnul hat.tail (by omega)).congr
            fun r => escape_parameter.symm
        · exact scan_zero_accepts hE hnul hat hless
        · exact (scan_name_bind_accepts hnul hat.tail (by omega)
            fun c a rest hat' => plusplus_accepts hnul hat').congr
            fun r => (escape_name (Or.inl rfl)).symm
        · exact (scan_named_character_accepts hE hnul hat (by simp; omega) (by simp; omega)).congr
            fun r => (escape_character (Or.inl rfl)).symm
        · exact (scan_named_character_accepts hE hnul hat (by simp; omega) (by simp; omega)).congr
            fun r => (escape_character (Or.inr (Or.inl rfl))).symm
        · exact (scan_named_character_accepts hE hnul hat (by simp; omega) (by simp; omega)).congr
            fun r => (escape_character (Or.inr (Or.inr rfl))).symm
        · exact (scan_named_string_accepts hE hnul hat.tail (by omega) (by omega)).congr
            fun r => escape_string.symm
        · exact (scan_named_font_accepts hE hnul hat.tail (by omega) (by omega)).congr
            fun r => escape_font.symm
        · refine Exact.congr (scan_name_bind_accepts hnul hat.tail (by omega)
            fun c a rest hat' => ?_) fun r => (escape_name (Or.inr (Or.inl rfl))).symm
          exact Exact.computed (set_font_symbols _) fun _ => plusplus_accepts hnul hat'
        · exact (scan_name_bind_accepts hnul hat.tail (by omega)
            fun c a rest hat' => plusplus_accepts hnul hat').congr
            fun r => (escape_name (Or.inr (Or.inr rfl))).symm
        · exact scanSize_accepts hE hnul hat.tail (by omega) (by omega) (by omega)
        · -- a register, whose value is kept
          refine Exact.congr (Exact.seq (scan_number_register_accepts hnul hat.tail (by omega))
            (K := fun rest r => r = rest) fun c' value rest hat' _ => ?_) fun r => ?_
          · exact Exact.changed (fun _ => rfl) (Exact.of_pure hat' fun r => Iff.rfl)
          · rw [escape_register]
            simp
        · exact absurd (by simp) hdelimited
        · exact absurd (by simp) hdelimited
        · exact absurd (by simp) hdelimited
        · exact absurd (by simp) hdelimited
        · exact absurd (by simp) hdelimited
        · exact absurd (by simp) hdelimited
        · exact absurd (by simp) hdelimited
        · exact absurd (by simp) hdelimited
        · refine Exact.asked fun g hg => ?_
          have hsingle : g.single_escape = single := congrArg Prod.snd hg
          rw [hsingle]
          by_cases hs : single = true
          · have hpos : 0 < c := hc.resolve_right (by simp [hs])
            rw [if_pos hs]
            exact (back_plusplus_accepts hnul hat hpos).congr fun r => by
              rw [escape_backslash, if_pos hs]
          · rw [if_neg hs]
            exact (plusplus_accepts hnul hat).congr fun r => by
              rw [escape_backslash, if_neg hs, List.tail_cons]
        · exact (scan_number_code_accepts hnul hat.tail (by omega)).congr
            fun r => escape_code.symm
      · rw [scan_escape_direct_plain hlong (charAt_cons hat)]
        refine Exact.changed (fun _ => rfl)
          (Exact.computed (oneCharacter_symbols _) fun cstr => ?_)
        exact (plusplus_accepts hnul hat).congr fun r => (escape_plain hlong).symm

end

end

/-! ### Runs with enough fuel -/

section

variable {β : Type}

/-- With enough fuel a run ends, having read only up to the terminator and returned only positions
that are not behind it. -/
def KeepsInside (text : Text) (x : ℕ → Scan Globals (ℕ × β)) (g : Globals) : Prop :=
  ∃ N, ∀ fuel ≥ N, ∃ c b g', x fuel g = .ok ((c, b), g') ∧ c ≤ text.length

/-- With enough fuel a run ends in one way or another. -/
def Ends (x : ℕ → Scan Globals (ℕ × β)) (g : Globals) : Prop :=
  ∃ N, ∀ fuel ≥ N, x fuel g ≠ .error .unfinished

/-- A scanner always ends, and stays inside of the text under the condition `P` only. -/
structure InsideIff (text : Text) (x : ℕ → Scan Globals (ℕ × β)) (g : Globals) (P : Prop) :
    Prop where
  ends : Ends x g
  inside : KeepsInside text x g ↔ P

lemma insideIff_of_accepts {text : Text} {x : ℕ → Scan Globals (ℕ × β)} {g : Globals}
    {G : Text → Prop} (N : ℕ)
    (h : ∀ fuel ≥ N, Accepts text g.escapesym g.single_escape (x fuel) G) :
    InsideIff text x g (∃ rest, G rest) where
  ends := ⟨N, fun fuel hfuel => Exact.ends (h fuel hfuel) rfl⟩
  inside := by
    constructor
    · rintro ⟨M, hM⟩
      exact (Exact.ok_iff (h (max N M) (Nat.le_max_left _ _)) rfl).mp
        (hM (max N M) (Nat.le_max_right _ _))
    · exact fun hG => ⟨N, fun fuel hfuel => (Exact.ok_iff (h fuel hfuel) rfl).mpr hG⟩

end

/-- A backslash at the very beginning, when it is to be asked for again. -/
def NothingBefore (g : Globals) (text : Text) (c : ℕ) : Prop :=
  c = 0 ∧ g.single_escape = true ∧ text.head? = some '\\'

lemma scan_escape_direct_nothingBefore {text : Text} {g : Globals}
    (h : NothingBefore g text 0) (fuel : ℕ) :
    scan_escape_direct text (fuel + 1) 0 g = .error .outside := by
  obtain ⟨-, hs, hhead⟩ := h
  obtain ⟨t, rfl⟩ : ∃ t, text = '\\' :: t := by
    cases text with
    | nil => cases hhead
    | cons x t =>
      cases hhead
      exact ⟨t, rfl⟩
  have hat : At ('\\' :: t) 0 ('\\' :: t) := ⟨Nat.zero_le _, rfl⟩
  rw [scan_escape_direct, charAt_cons hat]
  change (if g.single_escape = true then back 0 >>= fun c => plusplus ('\\' :: t) c []
    else plusplus ('\\' :: t) 0 ['\\']) { g with intresult := 0 } = _
  rw [if_pos hs]
  rfl

/-- **Escapes and the end of the text.** The scanners of escapes always end, and they stay inside
of the text just on those escapes that are complete in it. -/
theorem scans_inside_iff {text : Text} (hnul : NUL ∉ text) {c : ℕ} (hc : c ≤ text.length)
    (g : Globals) :
    InsideIff text (fun fuel => scan_escape_direct text fuel c) g
      ((∃ rest, Escape g.escapesym g.single_escape (text.drop c) rest) ∧
        ¬ NothingBefore g text c) ∧
    InsideIff text
      (fun fuel => scan_named_character text (scan_escape_direct text fuel) fuel c) g
      (∃ rest, Character g.escapesym g.single_escape (text.drop c) rest) ∧
    InsideIff text (fun fuel => scan_named_string text (scan_escape_direct text fuel) fuel c) g
      (∃ rest, NamedString g.escapesym g.single_escape (text.drop c) rest) ∧
    InsideIff text (fun fuel => scan_named_font text (scan_escape_direct text fuel) fuel c) g
      (∃ rest, Font g.escapesym g.single_escape (text.drop c) rest) ∧
    InsideIff text (fun fuel => scan_number_register text fuel c) g
      (∃ rest, Register (text.drop c) rest) ∧
    InsideIff text (fun fuel => scan_number_code text fuel c) g
      (∃ rest, Code (text.drop c) rest) ∧
    InsideIff text (fun fuel => scan_name text fuel c) g True ∧
    InsideIff text (fun fuel => scan_dollar_parameter text fuel c) g True := by
  have hat : At text c (text.drop c) := At.of_le hc
  have hlen := hat.length
  have hgood : ∀ fuel ≥ text.length + 3,
      Good text g.escapesym g.single_escape (scan_escape_direct text fuel) (fuel - 2) :=
    fun fuel hfuel => ⟨fun c' t' hat' hn hc' =>
      scan_escape_direct_accepts hnul hat' (by omega) (Or.inl hc'),
      fun c' hc' => scan_escape_direct_outside (by omega) hc'⟩
  have hall : ∀ {rest : Text}, (∃ r, r = rest) ↔ True := fun {rest} => by simp
  refine ⟨?_, ?_, ?_, ?_, ?_, ?_, ?_, ?_⟩
  · by_cases hbefore : NothingBefore g text c
    · obtain rfl : c = 0 := hbefore.1
      have hrun : ∀ fuel ≥ 1, scan_escape_direct text fuel 0 g = .error .outside := by
        intro fuel hfuel
        obtain ⟨m, rfl⟩ : ∃ m, fuel = m + 1 := ⟨fuel - 1, by omega⟩
        exact scan_escape_direct_nothingBefore hbefore m
      refine ⟨⟨1, fun fuel hfuel => ?_⟩, ⟨?_, fun h => absurd hbefore h.2⟩⟩
      · change scan_escape_direct text fuel 0 g ≠ _
        rw [hrun fuel hfuel]
        simp
      · rintro ⟨N, hN⟩
        obtain ⟨c', b, g', hok, -⟩ := hN (N + 1) (Nat.le_succ N)
        have hstop := (hrun (N + 1) (by omega)).symm.trans hok
        cases hstop
    · have hfirst : 0 < c ∨ ¬ (g.single_escape = true ∧ (text.drop c).head? = some '\\') := by
        rcases Nat.eq_zero_or_pos c with rfl | hpos
        · exact Or.inr fun h => hbefore ⟨rfl, h⟩
        · exact Or.inl hpos
      have haccepts : ∀ fuel ≥ text.length + 3, Accepts text g.escapesym g.single_escape
          (scan_escape_direct text fuel c) (Escape g.escapesym g.single_escape (text.drop c)) :=
        fun fuel hfuel => scan_escape_direct_accepts hnul hat (by omega) hfirst
      have hiff := insideIff_of_accepts _ haccepts
      exact ⟨hiff.ends, hiff.inside.trans (by simp [hbefore])⟩
  · exact insideIff_of_accepts (text.length + 3) fun fuel hfuel =>
      scan_named_character_accepts (hgood fuel hfuel) hnul hat (by omega) (by omega)
  · exact insideIff_of_accepts (text.length + 3) fun fuel hfuel =>
      scan_named_string_accepts (hgood fuel hfuel) hnul hat (by omega) (by omega)
  · exact insideIff_of_accepts (text.length + 3) fun fuel hfuel =>
      scan_named_font_accepts (hgood fuel hfuel) hnul hat (by omega) (by omega)
  · exact insideIff_of_accepts text.length fun fuel hfuel =>
      scan_number_register_accepts hnul hat (by omega)
  · exact insideIff_of_accepts text.length fun fuel hfuel =>
      scan_number_code_accepts hnul hat (by omega)
  · have haccepts : ∀ fuel ≥ text.length, Accepts text g.escapesym g.single_escape
        (scan_name text fuel c) fun r => r = afterName (text.drop c) :=
      fun fuel hfuel => scan_name_accepts hnul hat (by omega)
    have hiff := insideIff_of_accepts _ haccepts
    exact ⟨hiff.ends, hiff.inside.trans hall⟩
  · have haccepts : ∀ fuel ≥ text.length, Accepts text g.escapesym g.single_escape
        (scan_dollar_parameter text fuel c) fun r => r = afterParameter (text.drop c) :=
      fun fuel hfuel => scan_dollar_parameter_accepts hnul hat (by omega)
    have hiff := insideIff_of_accepts _ haccepts
    exact ⟨hiff.ends, hiff.inside.trans hall⟩

/-- The variables before a page. -/
def initialGlobals : Globals where
  escapesym := '\\'
  single_escape := false
  skip_escape := false
  output_possible := false
  no_newline_output := 0
  newline_for_fun := 0
  intresult := 0
  curpos := 0
  current_font := []
  current_size := 0
  s_nroff := 1
  s_characterDefinitionMap := fun _ => none
  s_stringDefinitionMap := fun _ => none
  s_numberDefinitionMap := fun _ => none
  s_argumentList := []
  s_dollarZero := []
  KDE_VERSION_STRING := "24.12.0".toList

/-- The name of a character is complete. -/
theorem scans_inside_em : KeepsInside ['(', 'e', 'm', ' ', 'x']
    (fun fuel => scan_escape_direct ['(', 'e', 'm', ' ', 'x'] fuel 0) initialGlobals := by
  have hcomplete : Escape '\\' false ['(', 'e', 'm', ' ', 'x'] [' ', 'x'] :=
    .character (Or.inl rfl) (.two (.two (by decide)))
  exact (scans_inside_iff (by decide) (Nat.zero_le _) initialGlobals).1.inside.mpr
    ⟨⟨_, hcomplete⟩, by simp [NothingBefore, initialGlobals]⟩

/-- An argument whose delimiter does not come again is read behind the end of the text. -/
theorem delimiter_leaves_text : ¬ ∀ text : Text, NUL ∉ text → ∀ c ≤ text.length,
    ∀ g : Globals, KeepsInside text (fun fuel => scan_escape_direct text fuel c) g := by
  intro hall
  have hnul : NUL ∉ ['h', '\'', '1'] := by decide
  obtain ⟨N, hN⟩ := hall ['h', '\'', '1'] hnul 0 (Nat.zero_le _) initialGlobals
  have hat : At ['h', '\'', '1'] 0 ['h', '\'', '1'] := ⟨Nat.zero_le _, rfl⟩
  have haccepts : Accepts ['h', '\'', '1'] '\\' false
      (scan_escape_direct ['h', '\'', '1'] (N + 6) 0) (Escape '\\' false ['h', '\'', '1']) :=
    scan_escape_direct_accepts hnul hat (by simp) (Or.inr (by simp))
  obtain ⟨rest, hrest⟩ := (Exact.ok_iff haccepts (s := initialGlobals) rfl).mp
    (hN (N + 6) (by omega))
  obtain ⟨d, u, heq, hdelimited⟩ := (escape_delimited (by simp)).mp hrest
  cases heq
  cases hdelimited with
  | char hx hesc h => cases h

end KioExtras.Man
