import KioExtras.Info.Worker

/-!
The names of files and nodes in a link, read back: as part of an attribute of HTML and as part of
the path of a URL.
-/

namespace KioExtras.Info

open KioExtras.Lib

/-! ### Attributes -/

/-- The character references of HTML: what the one that follows a `&` stands for and how many
characters it has. They consist of letters, digits, `#` and `;`. -/
structure CharacterRefs where
  find : Text → Option (Text × ℕ)
  amp : ∀ rest, find ("amp;".toList ++ rest) = some (['&'], 4)
  lt : ∀ rest, find ("lt;".toList ++ rest) = some (['<'], 3)
  gt : ∀ rest, find ("gt;".toList ++ rest) = some (['>'], 3)
  upTo : ∀ text, find text = find (text.takeWhile (· ≠ '/'))
  shorter : ∀ text s k, find text = some (s, k) → s.length ≤ k ∧ k ≤ text.length
  some_ : ∀ text s k, find text = some (s, k) → s ≠ []
  chars : ∀ text s k, find text = some (s, k) → '/' ∉ text.take k ∧ '%' ∉ text.take k

variable (refs : CharacterRefs)

/-- The number is that of the characters that are passed over. -/
def decodeRefsFrom : ℕ → Text → Text
  | _, [] => []
  | skip + 1, _ :: rest => decodeRefsFrom skip rest
  | 0, c :: rest =>
    if c = '&' then
      match refs.find rest with
      | some (s, k) => s ++ decodeRefsFrom k rest
      | none => c :: decodeRefsFrom 0 rest
    else c :: decodeRefsFrom 0 rest

def decodeRefs (text : Text) : Text := decodeRefsFrom refs 0 text

def hrefMark : Text := "<a href=\"".toList

def firstHref : Text → Option Text
  | [] => none
  | c :: rest =>
    if hrefMark.isPrefixOf (c :: rest) then some ((rest.drop 8).takeWhile (· ≠ '"'))
    else firstHref rest

def NoRefs (text : Text) : Prop := ∀ a b, text = a ++ '&' :: b → refs.find b = none

/-- **The first link of a page leads to the node of a file.** -/
def Leads (qt : Qt) (html page node : Text) : Prop :=
  ∃ href, firstHref html = some href ∧ Opens qt (parseUrl qt (decodeRefs refs href)) page node

/-! ### What can be read back -/

/-- How a name stands in a link: with or without the characters of HTML replaced, and with or
without the escapes of a URL. -/
def written (html url : Bool) (name : Text) : Text :=
  let text := if html then metaCharacters name else name
  if url then escape text else text

def attribute_ (url : Bool) (name : Text) : Text :=
  if url then escape name else name.takeWhile (· ≠ '"')

/-- A name without escapes of its own; no question mark but at the end, where it is escaped; no
character that ends the attribute or the path, where it is not; and no character reference, where
its ampersands are as they are. -/
structure Readable (html url : Bool) (name : Text) : Prop where
  plain : Percent.Plain name
  question : url = true → '?' ∉ name.dropLast
  ends : url = false → '?' ∉ name ∧ '#' ∉ name ∧ '"' ∉ name
  references : html = false → NoRefs refs (attribute_ url name)

def FileFits (html url : Bool) (file : Text) : Prop :=
  Readable refs html url file ∧ '/' ∉ file ∧ '<' ∉ file

def NodeFits (html : Bool) (node : Text) : Prop :=
  Readable refs html true node ∧ '<' ∉ node ∧ node.getLast? ≠ some '/'

structure FileName (file : Text) : Prop where
  ne : file ≠ []
  line : '\n' ∉ file

/-- A node name that Info allows: it has no blanks around it. -/
structure NodeName (qt : Qt) (node : Text) : Prop where
  ne : node ≠ []
  line : '\n' ∉ node
  trim : trimmed qt node = node

/-! ### The encoder -/

/-- The characters that are escaped wherever they stand -/
def isSpecial (c : Char) : Bool := c = ' ' || c = '"' || c = '#'

lemma special_ascii (c : Char) (h : isSpecial c = true) : c.toNat < 128 := by
  unfold isSpecial at h
  simp only [Bool.or_eq_true, decide_eq_true_eq] at h
  rcases h with (rfl | rfl) | rfl <;> decide

lemma special_digit (c : Char) (h : isSpecial c = true) : Percent.hexValue c = none := by
  unfold isSpecial at h
  simp only [Bool.or_eq_true, decide_eq_true_eq] at h
  rcases h with (rfl | rfl) | rfl <;> decide

lemma substitute_cons (c : Char) (text : Text) (d : Char) (rest : Text) :
    substitute c text (d :: rest) = (if d = c then text else [d]) ++ substitute c text rest :=
  List.flatMap_cons

lemma substitute_append (c : Char) (text a b : Text) :
    substitute c text (a ++ b) = substitute c text a ++ substitute c text b :=
  List.flatMap_append

lemma substitute_special (text : Text) : substitute '#' "%23".toList
    (substitute '"' "%22".toList (substitute ' ' "%20".toList text)) =
      Percent.encode isSpecial text := by
  induction text with
  | nil => rfl
  | cons c rest ih =>
    rw [substitute_cons, substitute_append, substitute_append, ih, Percent.encode_cons]
    refine congrArg (· ++ _) ?_
    by_cases hspace : c = ' '
    · subst hspace
      rfl
    · rw [if_neg hspace]
      by_cases hquote : c = '"'
      · subst hquote
        rfl
      · by_cases hhash : c = '#'
        · subst hhash
          rfl
        · simp [substitute, isSpecial, hspace, hquote, hhash]

lemma escapeQuestion_concat (text : Text) :
    escapeQuestion (text ++ ['?']) = text ++ "%3f".toList := by
  induction text with
  | nil => rfl
  | cons c rest ih =>
    have hnot : ¬ (c = '?' ∧ (rest ++ ['?'] = [] ∨ rest ++ ['?'] = ['\n'])) := by
      rintro ⟨_, hnil | hline⟩
      · simp at hnil
      · have hlast := congrArg List.getLast? hline
        rw [List.getLast?_concat] at hlast
        exact absurd (Option.some.inj hlast) (by decide)
    rw [List.cons_append, escapeQuestion, if_neg hnot, ih]
    rfl

lemma escapeQuestion_self {text : Text} (hline : '\n' ∉ text) (hlast : text.getLast? ≠ some '?') :
    escapeQuestion text = text := by
  induction text with
  | nil => rfl
  | cons c rest ih =>
    rw [List.mem_cons, not_or] at hline
    have hnot : ¬ (c = '?' ∧ (rest = [] ∨ rest = ['\n'])) := by
      rintro ⟨rfl, rfl | rfl⟩
      · exact hlast rfl
      · exact hline.2 List.mem_cons_self
    rw [escapeQuestion, if_neg hnot]
    cases rest with
    | nil => rfl
    | cons d rest =>
      rw [List.getLast?_cons_cons] at hlast
      rw [ih hline.2 hlast]

variable {c : Char}

lemma substitute_concat {d : Char} (text rest : Text) (h : d ≠ c) :
    substitute c text (rest ++ [d]) = substitute c text rest ++ [d] := by
  rw [substitute_append, substitute_cons, if_neg h]
  rfl

lemma escape_concat (text : Text) :
    escape (text ++ ['?']) = Percent.encode isSpecial text ++ "%3f".toList := by
  unfold escape
  dsimp only
  rw [substitute_concat _ _ (by decide), escapeQuestion_concat, substitute_append,
    substitute_append, substitute_special]
  rfl

lemma not_mem_substitute {d : Char} {text rest : Text} (htext : d ∉ text) (h : d ∉ rest) :
    d ∉ substitute c text rest := by
  intro hmem
  obtain ⟨e, he, hd⟩ := List.mem_flatMap.mp hmem
  split_ifs at hd
  · exact htext hd
  · exact h (List.mem_singleton.mp hd ▸ he)

lemma escape_other {text : Text} (hline : '\n' ∉ text) (hlast : text.getLast? ≠ some '?') :
    escape text = Percent.encode isSpecial text := by
  unfold escape
  dsimp only
  rw [escapeQuestion_self, substitute_special]
  · exact not_mem_substitute (by decide) hline
  · rcases List.eq_nil_or_concat' text with rfl | ⟨init, c, rfl⟩
    · exact nofun
    · rw [List.getLast?_concat] at hlast
      by_cases hc : c = ' '
      · subst hc
        rw [substitute_append]
        intro hquestion
        have hzero : (substitute ' ' "%20".toList [' ']).getLast? = some '0' := rfl
        rw [List.getLast?_append, hzero] at hquestion
        exact absurd (Option.some.inj hquestion) (by decide)
      · rw [substitute_concat _ _ hc, List.getLast?_concat]
        exact hlast

lemma escape_cases {name : Text} (hline : '\n' ∉ name) :
    (∃ init, name = init ++ ['?'] ∧ escape name = Percent.encode isSpecial init ++ "%3f".toList) ∨
      (name.getLast? ≠ some '?' ∧ escape name = Percent.encode isSpecial name) := by
  by_cases hlast : name.getLast? = some '?'
  · have hname := (List.dropLast_append_getLast? '?' hlast).symm
    refine Or.inl ⟨name.dropLast, hname, ?_⟩
    rw [← escape_concat, ← hname]
  · exact Or.inr ⟨hlast, escape_other hline hlast⟩

/-- What is neither a digit nor a percent sign is in an escaped name only where it is in the
name. -/
lemma mem_escape {name : Text} (hline : '\n' ∉ name) (h : c ∈ escape name)
    (hsign : c ∉ "%0123456789ABCDEFf".toList) : c ∈ name ∧ isSpecial c = false := by
  have hdigit : c ∉ "%0123456789ABCDEF".toList := fun hmem =>
    hsign (List.mem_append_left ['f'] hmem)
  rcases escape_cases hline with ⟨init, rfl, hescape⟩ | ⟨_, hescape⟩
  · rw [hescape] at h
    rcases List.mem_append.mp h with h | h
    · obtain ⟨hmem, hspecial⟩ := Percent.mem_encode h hdigit
      exact ⟨List.mem_append_left _ hmem, hspecial⟩
    · have hmore : ∀ d ∈ "%3f".toList, d ∈ "%0123456789ABCDEFf".toList :=
        Percent.forall_mem_of_all (by decide)
      exact absurd (hmore c h) hsign
  · rw [hescape] at h
    exact Percent.mem_encode h hdigit

lemma escape_escape {name : Text} (hline : '\n' ∉ name) : escape (escape name) = escape name := by
  have hclean : ∀ c ∈ escape name, isSpecial c = false := by
    intro c hc
    by_cases hsign : c ∈ "%0123456789ABCDEFf".toList
    · exact Percent.forall_mem_of_all (P := fun c => isSpecial c = false) (by decide) c hsign
    · exact (mem_escape hline hc hsign).2
  have hlast : (escape name).getLast? ≠ some '?' := by
    rcases escape_cases hline with ⟨init, rfl, hescape⟩ | ⟨hlast, hescape⟩
    · have hthree : "%3f".toList.getLast? = some 'f' := rfl
      rw [hescape, List.getLast?_append, hthree]
      exact fun heq => absurd (Option.some.inj heq) (by decide)
    · rw [hescape]
      intro hquestion
      rcases List.eq_nil_or_concat' name with rfl | ⟨init, c, rfl⟩
      · exact absurd hquestion nofun
      · rw [List.getLast?_concat] at hlast
        have hmem : '?' ∈ Percent.encode isSpecial [c] := by
          rw [Percent.encode_append, List.getLast?_append] at hquestion
          cases hc : (Percent.encode isSpecial [c]).getLast? with
          | none =>
            rw [List.getLast?_eq_none_iff, Percent.encode_cons] at hc
            split_ifs at hc
            · exact absurd hc (List.cons_ne_nil _ _)
            · exact absurd hc (List.cons_ne_nil _ _)
          | some d =>
            rw [hc] at hquestion
            rw [← Option.some.inj hquestion]
            exact List.mem_of_getLast? hc
        have hc := (Percent.mem_encode hmem (by decide)).1
        exact hlast (congrArg some (List.mem_singleton.mp hc).symm)
  have hnewline : '\n' ∉ escape name := fun hmem => hline (mem_escape hline hmem (by decide)).1
  rw [escape_other hnewline hlast, Percent.encode_self hclean]

lemma length_pieces_escape {name : Text} (hline : '\n' ∉ name) :
    (Percent.pieces (escape name)).length = (Percent.pieces name).length := by
  have hencode : ∀ text, (Percent.pieces (Percent.encode isSpecial text)).length =
      (Percent.pieces text).length := by
    intro text
    rw [Percent.pieces_encode special_ascii special_digit rfl, List.length_map]
  rcases escape_cases hline with ⟨init, rfl, hescape⟩ | ⟨_, hescape⟩
  · rw [hescape, Percent.pieces_append (Percent.head_none rfl rfl),
      Percent.pieces_append (Percent.head_none rfl rfl), List.length_append, List.length_append,
      hencode]
    rfl
  · rw [hescape, hencode]

lemma decode_escape (u : Percent.Utf8) {name : Text} (hline : '\n' ∉ name)
    (hplain : Percent.Plain name) : Percent.decode u (escape name) = name := by
  have hencode : ∀ text : Text, Percent.Plain text →
      List.Forall₂ Percent.Stands text (Percent.pieces (Percent.encode isSpecial text)) :=
    fun _ => Percent.forall₂_encode_plain special_ascii special_digit rfl
  apply Percent.decode_stands
  rcases escape_cases hline with ⟨init, rfl, hescape⟩ | ⟨_, hescape⟩
  · rw [hescape, Percent.pieces_append (Percent.head_none rfl rfl)]
    refine List.rel_append (hencode init ?_) (.cons (.byte (by decide)) .nil)
    intro before a b tail heq
    exact hplain before a b (tail ++ ['?']) (by rw [heq]; simp)
  · rw [hescape]
    exact hencode name hplain

/-! ### Character references -/

variable {refs : CharacterRefs}

lemma decodeRefsFrom_drop (k : ℕ) (text : Text) :
    decodeRefsFrom refs k text = decodeRefs refs (text.drop k) := by
  induction k generalizing text with
  | zero => rfl
  | succ k ih =>
    cases text with
    | nil => rfl
    | cons c rest => exact ih rest

lemma decodeRefs_char (h : c ≠ '&') (rest : Text) :
    decodeRefs refs (c :: rest) = c :: decodeRefs refs rest := if_neg h

lemma decodeRefs_none {rest : Text} (h : refs.find rest = none) :
    decodeRefs refs ('&' :: rest) = '&' :: decodeRefs refs rest := by
  unfold decodeRefs
  rw [decodeRefsFrom, if_pos rfl, h]

lemma decodeRefs_some {rest s : Text} {k : ℕ} (h : refs.find rest = some (s, k)) :
    decodeRefs refs ('&' :: rest) = s ++ decodeRefs refs (rest.drop k) := by
  unfold decodeRefs
  rw [decodeRefsFrom, if_pos rfl, h]
  exact congrArg (s ++ ·) (decodeRefsFrom_drop k rest)

lemma decodeRefs_append {a : Text} (h : '&' ∉ a) (b : Text) :
    decodeRefs refs (a ++ b) = a ++ decodeRefs refs b := by
  induction a with
  | nil => rfl
  | cons c rest ih =>
    rw [List.mem_cons, not_or] at h
    rw [List.cons_append, decodeRefs_char (Ne.symm h.1), ih h.2]
    rfl

lemma decodeRefs_self {a : Text} (h : '&' ∉ a) : decodeRefs refs a = a := by
  have happend : decodeRefs refs (a ++ []) = _ := decodeRefs_append h []
  rw [List.append_nil] at happend
  rw [happend]
  exact List.append_nil a

lemma noRefs_of_tail {rest : Text} (hc : c = '&' → refs.find rest = none)
    (hrest : NoRefs refs rest) : NoRefs refs (c :: rest) := by
  rintro (_ | ⟨d, a⟩) b heq
  · obtain ⟨rfl, rfl⟩ := List.cons.inj heq
    exact hc rfl
  · exact hrest a b (List.cons.inj heq).2

lemma noRefs_cons {rest : Text} (hc : c ≠ '&') : NoRefs refs (c :: rest) ↔ NoRefs refs rest := by
  constructor
  · intro h a b heq
    exact h (c :: a) b (by rw [heq]; rfl)
  · exact noRefs_of_tail fun heq => absurd heq hc

lemma decodeRefs_noRefs {text : Text} (h : NoRefs refs text) : decodeRefs refs text = text := by
  induction text with
  | nil => rfl
  | cons c rest ih =>
    have hrest := ih fun a b heq => h (c :: a) b (by rw [heq]; rfl)
    by_cases hc : c = '&'
    · subst hc
      rw [decodeRefs_none (h [] rest rfl), hrest]
    · rw [decodeRefs_char hc, hrest]

lemma decodeRefs_slash (a b : Text) :
    decodeRefs refs (a ++ '/' :: b) = decodeRefs refs a ++ '/' :: decodeRefs refs b := by
  induction hn : a.length using Nat.strongRecOn generalizing a with
  | _ n ih =>
    cases a with
    | nil => exact decodeRefs_char (by decide) b
    | cons c rest =>
      rw [List.length_cons] at hn
      have hrest := ih rest.length (by omega) rest rfl
      by_cases hc : c = '&'
      · subst hc
        have hfind : refs.find (rest ++ '/' :: b) = refs.find rest := by
          rw [refs.upTo (rest ++ '/' :: b), refs.upTo rest]
          exact congrArg refs.find (by
            rcases parts rest with hnot | ⟨first, more, hnot, rfl⟩
            · exact (firstPart_append hnot).trans (firstPart_self hnot).symm
            · rw [List.append_assoc]
              exact (firstPart_append hnot).trans (firstPart_append hnot).symm)
        cases hsome : refs.find rest with
        | none =>
          rw [decodeRefs_none hsome, List.cons_append, decodeRefs_none (hfind.trans hsome), hrest]
          rfl
        | some found =>
          obtain ⟨s, k⟩ := found
          have hk := (refs.shorter rest s k hsome).2
          have hlength := List.length_drop (i := k) (l := rest)
          rw [decodeRefs_some hsome, List.cons_append, decodeRefs_some (hfind.trans hsome),
            List.drop_append_of_le_length hk, ih _ (by omega) (rest.drop k) rfl,
            List.append_assoc]
      · rw [decodeRefs_char hc, List.cons_append, decodeRefs_char hc, hrest]
        rfl

variable (refs) in
/-- **A reference makes a text shorter**, also when what is left is taken apart. -/
lemma length_pieces_decodeRefs (text : Text) :
    (Percent.pieces (decodeRefs refs text)).length ≤ (Percent.pieces text).length ∧
      (¬ NoRefs refs text →
        (Percent.pieces (decodeRefs refs text)).length < (Percent.pieces text).length) := by
  induction hn : text.length using Nat.strongRecOn generalizing text with
  | _ n ih =>
    by_cases hfires : ∃ rest s k, text = '&' :: rest ∧ refs.find rest = some (s, k)
    · obtain ⟨rest, s, k, rfl, hfind⟩ := hfires
      obtain ⟨hs, hk⟩ := refs.shorter rest s k hfind
      have hpercent : '%' ∉ '&' :: rest.take k := by
        rw [List.mem_cons, not_or]
        exact ⟨by decide, (refs.chars rest s k hfind).2⟩
      have hpieces := Percent.pieces_map hpercent (rest.drop k)
      rw [List.cons_append, List.take_append_drop] at hpieces
      have hlength := congrArg List.length hpieces
      rw [List.length_append, List.length_map, List.length_cons, List.length_take,
        Nat.min_eq_left hk] at hlength
      rw [List.length_cons] at hn
      have hdrop := (ih _ (by rw [← hn, List.length_drop]; omega) (rest.drop k) rfl).1
      have happend := Percent.length_pieces_append s (decodeRefs refs (rest.drop k))
      rw [decodeRefs_some hfind]
      constructor
      · omega
      · intro _
        omega
    · induction text using Percent.pieces_induction with
      | nil => exact ⟨Nat.le_refl _, fun hnot => absurd (fun a b heq => by simp at heq) hnot⟩
      | escape a b byte rest hbyte _ =>
        obtain ⟨ha, hb⟩ := Percent.hexByte_some hbyte
        have hne : ∀ {d : Char}, Percent.hexValue d ≠ none → d ≠ '&' := by
          rintro d hd rfl
          exact hd rfl
        rw [decodeRefs_char (by decide), decodeRefs_char (hne ha), decodeRefs_char (hne hb),
          Percent.pieces_escape hbyte, Percent.pieces_escape hbyte, List.length_cons,
          List.length_cons]
        simp only [List.length_cons] at hn
        obtain ⟨hle, hlt⟩ := ih rest.length (by omega) rest rfl
        refine ⟨by omega, fun hnot => ?_⟩
        rw [noRefs_cons (by decide), noRefs_cons (hne ha), noRefs_cons (hne hb)] at hnot
        have := hlt hnot
        omega
      | char c rest hpieces _ _ =>
        have hcons : decodeRefs refs (c :: rest) = c :: decodeRefs refs rest := by
          by_cases hc : c = '&'
          · subst hc
            cases hfind : refs.find rest with
            | none => exact decodeRefs_none hfind
            | some found => exact absurd ⟨rest, found.1, found.2, rfl, hfind⟩ hfires
          · exact decodeRefs_char hc rest
        have hnone : c = '&' → refs.find rest = none := by
          rintro rfl
          cases hfind : refs.find rest with
          | none => rfl
          | some found => exact absurd ⟨rest, found.1, found.2, rfl, hfind⟩ hfires
        rw [List.length_cons] at hn
        obtain ⟨hle, hlt⟩ := ih rest.length (by omega) rest rfl
        have hlength := Percent.length_pieces_cons c (decodeRefs refs rest)
        rw [hcons, hpieces, List.length_cons]
        refine ⟨by omega, fun hnot => ?_⟩
        have := hlt fun hrest => hnot (noRefs_of_tail hnone hrest)
        omega

def metaChar (c : Char) : Text :=
  if c = '&' then "&amp;".toList else if c = '>' then "&gt;".toList
  else if c = '<' then "&lt;".toList else [c]

lemma metaCharacters_cons (c : Char) (rest : Text) :
    metaCharacters (c :: rest) = metaChar c ++ metaCharacters rest := by
  unfold metaCharacters
  rw [substitute_cons, substitute_append, substitute_append]
  refine congrArg (· ++ _) ?_
  unfold metaChar
  by_cases hamp : c = '&'
  · subst hamp
    rfl
  · rw [if_neg hamp, if_neg hamp]
    by_cases hgt : c = '>'
    · subst hgt
      rfl
    · by_cases hlt : c = '<'
      · subst hlt
        rfl
      · simp [substitute, hgt, hlt]

lemma metaCharacters_ne {text : Text} (htext : text ≠ []) : metaCharacters text ≠ [] := by
  obtain ⟨c, rest, rfl⟩ := List.exists_cons_of_ne_nil htext
  rw [metaCharacters_cons]
  refine List.append_ne_nil_of_left_ne_nil ?_ _
  unfold metaChar
  split_ifs
  · decide
  · decide
  · decide
  · exact List.cons_ne_nil _ _

lemma decodeRefs_meta {special : Char → Bool} (hspecial : ∀ c ∈ "&amp;lt;gt;<>".toList,
    special c = false) (name tail : Text) :
    decodeRefs refs (Percent.encode special (metaCharacters name) ++ tail) =
      Percent.encode special name ++ decodeRefs refs tail := by
  have hkept : ∀ text : Text, (∀ c ∈ text, c ∈ "&amp;lt;gt;<>".toList) →
      Percent.encode special text = text :=
    fun text htext => Percent.encode_self fun c hc => hspecial c (htext c hc)
  induction name with
  | nil => rfl
  | cons c rest ih =>
    rw [metaCharacters_cons, Percent.encode_append, List.append_assoc]
    have hentity : ∀ entity : Text, metaChar c = '&' :: entity →
        (∀ rest, refs.find (entity ++ rest) = some ([c], entity.length)) →
        (∀ d ∈ '&' :: entity, d ∈ "&amp;lt;gt;<>".toList) → c ∈ "&amp;lt;gt;<>".toList →
        decodeRefs refs (Percent.encode special (metaChar c) ++
          (Percent.encode special (metaCharacters rest) ++ tail)) =
            Percent.encode special (c :: rest) ++ decodeRefs refs tail := by
      intro entity hmeta hfind hall hc
      rw [hmeta, hkept _ hall, List.cons_append, decodeRefs_some (hfind _), List.drop_left, ih,
        Percent.encode_keep (hspecial c hc)]
      rfl
    by_cases hamp : c = '&'
    · subst hamp
      exact hentity "amp;".toList rfl refs.amp (Percent.forall_mem_of_all (by decide)) (by decide)
    · by_cases hgt : c = '>'
      · subst hgt
        exact hentity "gt;".toList rfl refs.gt (Percent.forall_mem_of_all (by decide)) (by decide)
      · by_cases hlt : c = '<'
        · subst hlt
          exact hentity "lt;".toList rfl refs.lt (Percent.forall_mem_of_all (by decide)) (by decide)
        · have hmeta : metaChar c = [c] := by
            unfold metaChar
            rw [if_neg hamp, if_neg hgt, if_neg hlt]
          have hnone : '&' ∉ Percent.encode special [c] := fun hmem =>
            hamp (List.mem_singleton.mp (Percent.mem_encode hmem (by decide)).1).symm
          rw [hmeta, decodeRefs_append hnone, ih, ← List.append_assoc, ← Percent.encode_append]
          rfl

lemma decodeRefs_metaCharacters (name : Text) : decodeRefs refs (metaCharacters name) = name := by
  have hself : ∀ text : Text, Percent.encode (fun _ => false) text = text :=
    fun text => Percent.encode_self fun _ _ => rfl
  have hmeta : decodeRefs refs (Percent.encode (fun _ => false) (metaCharacters name) ++ []) = _ :=
    decodeRefs_meta (fun _ _ => rfl) name []
  rw [hself, hself, List.append_nil] at hmeta
  rw [hmeta]
  exact List.append_nil name

/-! ### A name in a link -/

lemma metaCharacters_append (a b : Text) :
    metaCharacters (a ++ b) = metaCharacters a ++ metaCharacters b := by
  unfold metaCharacters
  rw [substitute_append, substitute_append, substitute_append]

lemma metaCharacters_other (h : c ∉ "&<>".toList) : metaCharacters [c] = [c] := by
  have hne : ∀ d ∈ "&<>".toList, c ≠ d := fun d hd heq => h (heq ▸ hd)
  rw [metaCharacters_cons, metaChar, if_neg (hne '&' (by decide)), if_neg (hne '>' (by decide)),
    if_neg (hne '<' (by decide))]
  rfl

lemma not_mem_metaCharacters (hc : c ∉ "&amp;lt;gt;".toList) {name : Text} (h : c ∉ name) :
    c ∉ metaCharacters name := by
  have hamp : ∀ d ∈ "&amp;".toList, d ∈ "&amp;lt;gt;".toList :=
    Percent.forall_mem_of_all (by decide)
  have hgt : ∀ d ∈ "&gt;".toList, d ∈ "&amp;lt;gt;".toList := Percent.forall_mem_of_all (by decide)
  have hlt : ∀ d ∈ "&lt;".toList, d ∈ "&amp;lt;gt;".toList := Percent.forall_mem_of_all (by decide)
  refine not_mem_substitute (fun hmem => hc (hlt c hmem)) ?_
  refine not_mem_substitute (fun hmem => hc (hgt c hmem)) ?_
  exact not_mem_substitute (fun hmem => hc (hamp c hmem)) h

lemma decodeRefs_escape {name : Text} (hline : '\n' ∉ name) :
    decodeRefs refs (escape (metaCharacters name)) = escape name := by
  have hkept : ∀ c ∈ "&amp;lt;gt;<>".toList, isSpecial c = false :=
    Percent.forall_mem_of_all (by decide)
  by_cases hlast : name.getLast? = some '?'
  · obtain ⟨init, rfl⟩ : ∃ init, name = init ++ ['?'] :=
      ⟨name.dropLast, (List.dropLast_append_getLast? '?' hlast).symm⟩
    rw [metaCharacters_append, metaCharacters_other (by decide), escape_concat, escape_concat,
      decodeRefs_meta hkept]
    rfl
  · have hmeta : (metaCharacters name).getLast? ≠ some '?' := by
      rcases List.eq_nil_or_concat' name with rfl | ⟨init, c, rfl⟩
      · exact nofun
      · rw [List.getLast?_concat] at hlast
        have hentity : (metaCharacters [c]).getLast? = some ';' ∨ metaCharacters [c] = [c] := by
          by_cases hc : c ∈ "&<>".toList
          · exact Or.inl (Percent.forall_mem_of_all
              (P := fun c => (metaCharacters [c]).getLast? = some ';') (by decide) c hc)
          · exact Or.inr (metaCharacters_other hc)
        rw [metaCharacters_append]
        rcases hentity with hsemicolon | hself
        · rw [List.getLast?_append, hsemicolon]
          exact fun heq => absurd (Option.some.inj heq) (by decide)
        · rw [hself, List.getLast?_concat]
          exact hlast
    rw [escape_other (not_mem_metaCharacters (by decide) hline) hmeta, escape_other hline hlast]
    have happend : decodeRefs refs (Percent.encode isSpecial (metaCharacters name) ++ []) = _ :=
      decodeRefs_meta hkept name []
    rw [List.append_nil] at happend
    rw [happend]
    exact List.append_nil _

/-- What is left of a name in a link after the attribute is read -/
def reading (refs : CharacterRefs) (html url : Bool) (name : Text) : Text :=
  decodeRefs refs ((written html url name).takeWhile (· ≠ '"'))

/-- What is left of it in the path of the URL -/
def readBack (refs : CharacterRefs) (qt : Qt) (html url : Bool) (name : Text) : Text :=
  Percent.decode qt.utf8 (cut (reading refs html url name))

lemma not_mem_escape {name : Text} (hline : '\n' ∉ name) (hc : isSpecial c = true)
    (hsign : c ∉ "%0123456789ABCDEFf".toList) : c ∉ escape name := by
  intro hmem
  have hspecial := (mem_escape hline hmem hsign).2
  rw [hc] at hspecial
  exact Bool.noConfusion hspecial

variable (refs) in
lemma reading_eq (html url : Bool) {name : Text} (hline : '\n' ∉ name) :
    reading refs html url name =
      if html then attribute_ url name else decodeRefs refs (attribute_ url name) := by
  have hquote : ∀ {text : Text}, '\n' ∉ text → (escape text).takeWhile (· ≠ '"') = escape text :=
    fun htext => takeWhile_ne_self (not_mem_escape htext rfl (by decide))
  unfold reading written attribute_
  cases html <;> cases url
  · rfl
  · exact congrArg (decodeRefs refs) (hquote hline)
  · change decodeRefs refs ((metaCharacters name).takeWhile (· ≠ '"')) = _
    have hmeta : (metaCharacters name).takeWhile (· ≠ '"') =
        metaCharacters (name.takeWhile (· ≠ '"')) := by
      have hnot := not_mem_metaCharacters (c := '"') (by decide)
        (not_mem_takeWhile_ne '"' name)
      rcases takeWhile_split '"' name with hself | ⟨rest, hrest⟩
      · rw [← hself] at hnot ⊢
        exact takeWhile_ne_self hnot
      · conv_lhs => rw [hrest]
        rw [metaCharacters_append, takeWhile_ne_append hnot, metaCharacters_cons]
        exact List.append_nil _
    rw [hmeta]
    exact decodeRefs_metaCharacters _
  · change decodeRefs refs ((escape (metaCharacters name)).takeWhile (· ≠ '"')) = _
    rw [hquote (not_mem_metaCharacters (by decide) hline)]
    exact decodeRefs_escape hline

lemma cut_cases (text : Text) : (cut text = text ∧ '#' ∉ text ∧ '?' ∉ text) ∨
    ∃ c rest, Percent.hexValue c = none ∧ text = cut text ++ c :: rest := by
  unfold cut
  rcases takeWhile_split '#' text with hhash | ⟨rest, hhash⟩
  · have hnot := not_mem_takeWhile_ne '#' text
    rw [← hhash] at hnot ⊢
    rcases takeWhile_split '?' text with hquestion | ⟨rest, hquestion⟩
    · have hnone := not_mem_takeWhile_ne '?' text
      rw [← hquestion] at hnone
      exact Or.inl ⟨hquestion.symm, hnot, hnone⟩
    · exact Or.inr ⟨'?', rest, rfl, hquestion⟩
  · right
    generalize text.takeWhile (· ≠ '#') = first at hhash ⊢
    rcases takeWhile_split '?' first with hquestion | ⟨more, hquestion⟩
    · rw [← hquestion]
      exact ⟨'#', rest, rfl, hhash⟩
    · refine ⟨'?', more ++ '#' :: rest, rfl, ?_⟩
      conv_lhs => rw [hhash, hquestion]
      rw [List.append_assoc]
      rfl

lemma length_pieces_cut (text : Text) :
    (Percent.pieces (cut text)).length ≤ (Percent.pieces text).length ∧
      (cut text ≠ text → (Percent.pieces (cut text)).length < (Percent.pieces text).length) := by
  rcases cut_cases text with ⟨hself, _⟩ | ⟨c, rest, hc, htext⟩
  · rw [hself]
    exact ⟨Nat.le_refl _, fun hne => absurd rfl hne⟩
  · have hpieces : (Percent.pieces text).length =
        (Percent.pieces (cut text)).length + (Percent.pieces (c :: rest)).length := by
      conv_lhs => rw [htext]
      rw [Percent.pieces_append (by simpa using hc), List.length_append]
    have hpos : 0 < (Percent.pieces (c :: rest)).length := by
      by_contra hzero
      have hnil := List.eq_nil_of_length_eq_zero (Nat.le_zero.mp (Nat.le_of_not_lt hzero))
      exact Percent.pieces_ne_nil c rest hnil
    omega

lemma length_pieces_attribute (url : Bool) {name : Text} (hline : '\n' ∉ name) :
    (Percent.pieces (attribute_ url name)).length ≤ name.length ∧
      (¬ (Percent.Plain name ∧ (url = false → '"' ∉ name)) →
        (Percent.pieces (attribute_ url name)).length < name.length) := by
  cases url with
  | true =>
    have hlength : (Percent.pieces (attribute_ true name)).length = (Percent.pieces name).length :=
      length_pieces_escape hline
    have hle := Percent.length_pieces name
    refine ⟨by omega, fun hnot => ?_⟩
    have hplain : ¬ Percent.Plain name := fun hplain => hnot ⟨hplain, nofun⟩
    have hlt := Percent.length_pieces_lt hplain
    omega
  | false =>
    change (Percent.pieces (name.takeWhile (· ≠ '"'))).length ≤ _ ∧ (_ →
      (Percent.pieces (name.takeWhile (· ≠ '"'))).length < _)
    have hle := Percent.length_pieces (name.takeWhile (· ≠ '"'))
    rcases takeWhile_split '"' name with hself | ⟨rest, hrest⟩
    · have hnot := not_mem_takeWhile_ne '"' name
      rw [← hself] at hle hnot ⊢
      refine ⟨hle, fun hbad => ?_⟩
      exact Percent.length_pieces_lt fun hplain => hbad ⟨hplain, fun _ => hnot⟩
    · have hlength := congrArg List.length hrest
      rw [List.length_append, List.length_cons] at hlength
      omega

variable (refs) in
lemma length_pieces_reading (html url : Bool) {name : Text} (hline : '\n' ∉ name) :
    (Percent.pieces (reading refs html url name)).length ≤ name.length := by
  have hattribute := (length_pieces_attribute url hline).1
  have hrefs := (length_pieces_decodeRefs refs (attribute_ url name)).1
  rw [reading_eq refs html url hline]
  cases html
  · exact Nat.le_trans hrefs hattribute
  · exact hattribute

lemma written_ne {html url : Bool} {name : Text} (hline : '\n' ∉ name) (hne : name ≠ []) :
    written html url name ≠ [] := by
  have hescape : ∀ text : Text, '\n' ∉ text → text ≠ [] → escape text ≠ [] := by
    intro text htext hnil
    rcases escape_cases htext with ⟨init, _, hescape⟩ | ⟨_, hescape⟩
    · rw [hescape]
      exact List.append_ne_nil_of_right_ne_nil _ (by decide)
    · obtain ⟨d, more, rfl⟩ := List.exists_cons_of_ne_nil hnil
      rw [hescape, Percent.encode_cons]
      refine List.append_ne_nil_of_left_ne_nil ?_ _
      split_ifs
      · exact List.cons_ne_nil _ _
      · exact List.cons_ne_nil _ _
  cases html <;> cases url
  · exact hne
  · exact hescape _ hline hne
  · exact metaCharacters_ne hne
  · exact hescape _ (not_mem_metaCharacters (by decide) hline) (metaCharacters_ne hne)

lemma decodeRefs_ne {text : Text} (h : text ≠ []) : decodeRefs refs text ≠ [] := by
  obtain ⟨c, rest, rfl⟩ := List.exists_cons_of_ne_nil h
  by_cases hc : c = '&'
  · subst hc
    cases hfind : refs.find rest with
    | none =>
      rw [decodeRefs_none hfind]
      exact List.cons_ne_nil _ _
    | some found =>
      rw [decodeRefs_some (s := found.1) (k := found.2) hfind]
      exact List.append_ne_nil_of_left_ne_nil (refs.some_ rest found.1 found.2 hfind) _
  · rw [decodeRefs_char hc]
    exact List.cons_ne_nil _ _

lemma readable_of_length (qt : Qt) {html url : Bool} {name : Text} (hline : '\n' ∉ name)
    (h : name.length ≤ (readBack refs qt html url name).length) : Readable refs html url name := by
  have hdecode := Percent.length_decode qt.utf8 (cut (reading refs html url name))
  have hcut := length_pieces_cut (reading refs html url name)
  have hattribute := length_pieces_attribute url hline
  have hrefs := length_pieces_decodeRefs refs (attribute_ url name)
  have hreading := reading_eq refs html url hline
  change name.length ≤ (Percent.decode qt.utf8 (cut (reading refs html url name))).length at h
  have hfirst : (Percent.pieces (reading refs html url name)).length ≤
      (Percent.pieces (attribute_ url name)).length := by
    rw [hreading]
    cases html
    · exact hrefs.1
    · exact Nat.le_refl _
  have hgood : Percent.Plain name ∧ (url = false → '"' ∉ name) := by
    by_contra hbad
    have hlt := hattribute.2 hbad
    omega
  have hnone : html = false → NoRefs refs (attribute_ url name) := by
    intro hhtml
    by_contra hbad
    have hlt := hrefs.2 hbad
    have hsame : reading refs html url name = decodeRefs refs (attribute_ url name) := by
      rw [hreading, hhtml]
      rfl
    rw [hsame] at h hdecode hcut
    omega
  have hself : reading refs html url name = attribute_ url name := by
    rw [hreading]
    cases html
    · exact decodeRefs_noRefs (hnone rfl)
    · rfl
  have hwhole : '#' ∉ attribute_ url name ∧ '?' ∉ attribute_ url name := by
    rcases cut_cases (attribute_ url name) with ⟨_, hnot⟩ | ⟨c, rest, _, htext⟩
    · exact hnot
    · have hbad : cut (attribute_ url name) ≠ attribute_ url name := by
        intro hsame
        rw [hsame] at htext
        have hlength := congrArg List.length htext
        rw [List.length_append, List.length_cons] at hlength
        omega
      rw [hself] at hcut hdecode h
      have hlt := hcut.2 hbad
      omega
  refine ⟨hgood.1, ?_, ?_, hnone⟩
  · rintro rfl hmem
    apply hwhole.2
    change '?' ∈ escape name
    rcases escape_cases hline with ⟨init, rfl, hescape⟩ | ⟨_, hescape⟩
    · rw [List.dropLast_concat] at hmem
      rw [hescape]
      exact List.mem_append_left _ (Percent.mem_encode_of_keep hmem rfl)
    · rw [hescape]
      exact Percent.mem_encode_of_keep (List.dropLast_subset _ hmem) rfl
  · rintro rfl
    have hname : attribute_ false name = name := takeWhile_ne_self (hgood.2 rfl)
    rw [hname] at hwhole
    exact ⟨hwhole.2, hwhole.1, hgood.2 rfl⟩

lemma Readable.read {html url : Bool} {name : Text} (h : Readable refs html url name)
    (hline : '\n' ∉ name) : reading refs html url name = attribute_ url name ∧
      '#' ∉ attribute_ url name ∧ '?' ∉ attribute_ url name := by
  have hself : reading refs html url name = attribute_ url name := by
    rw [reading_eq refs html url hline]
    cases html
    · exact decodeRefs_noRefs (h.references rfl)
    · rfl
  cases url with
  | true =>
    refine ⟨hself, not_mem_escape hline rfl (by decide), ?_⟩
    intro hmem
    have hquestion := h.question rfl
    change '?' ∈ escape name at hmem
    rcases escape_cases hline with ⟨init, rfl, hescape⟩ | ⟨hlast, hescape⟩
    · rw [List.dropLast_concat] at hquestion
      rw [hescape] at hmem
      rcases List.mem_append.mp hmem with hmem | hmem
      · exact hquestion (Percent.mem_encode hmem (by decide)).1
      · exact absurd hmem (by decide)
    · rw [hescape] at hmem
      have hname := (Percent.mem_encode hmem (by decide)).1
      rcases List.eq_nil_or_concat' name with rfl | ⟨init, c, rfl⟩
      · exact List.not_mem_nil hname
      · rw [List.dropLast_concat] at hquestion
        rw [List.getLast?_concat] at hlast
        rcases List.mem_append.mp hname with hname | hname
        · exact hquestion hname
        · exact hlast (congrArg some (List.mem_singleton.mp hname).symm)
  | false =>
    obtain ⟨hquestion, hhash, hquote⟩ := h.ends rfl
    have hname : attribute_ false name = name := takeWhile_ne_self hquote
    rw [hname] at hself ⊢
    exact ⟨hself, hhash, hquestion⟩

lemma Readable.decode {html url : Bool} {name : Text} (h : Readable refs html url name)
    (hline : '\n' ∉ name) (u : Percent.Utf8) : Percent.decode u (attribute_ url name) = name := by
  cases url with
  | true => exact decode_escape u hline h.plain
  | false =>
    have hname : attribute_ false name = name := takeWhile_ne_self (h.ends rfl).2.2
    rw [hname]
    exact Percent.decode_plain u h.plain

lemma cut_self {text : Text} (hhash : '#' ∉ text) (hquestion : '?' ∉ text) : cut text = text := by
  unfold cut
  rw [takeWhile_ne_self hhash, takeWhile_ne_self hquestion]

lemma Readable.readBack {html url : Bool} {name : Text} (h : Readable refs html url name)
    (hline : '\n' ∉ name) (qt : Qt) : readBack refs qt html url name = name := by
  obtain ⟨hself, hhash, hquestion⟩ := h.read hline
  unfold Info.readBack
  rw [hself, cut_self hhash hquestion, h.decode hline]

variable (refs) in
lemma length_readBack (qt : Qt) (html url : Bool) {name : Text} (hline : '\n' ∉ name) :
    (readBack refs qt html url name).length ≤ name.length := by
  by_contra hlt
  have hself := (readable_of_length qt hline (Nat.le_of_not_le hlt)).readBack hline qt
  rw [hself] at hlt
  exact hlt (Nat.le_refl _)

end KioExtras.Info
