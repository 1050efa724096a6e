import KioExtras.Fish.List
import KioExtras.Fish.WriteLoop
import Mathlib.Tactic.Common

/-!
What the perl server reads of the commands of an upload.

A command is a line with `#` in front and lines for a shell behind it. The server takes the
numbers for the ones that were sent; the name it takes is the same in each command.
-/

namespace KioExtras.Fish

open KioExtras.Kio Text

/-- The encoding of the remote side as C strings: characters one by one, ASCII characters by
themselves, and no other with a newline, a `#` or a backslash. -/
structure EncodesAscii (env : Env) : Prop where
  append : ∀ u v, Char.ofNat 0 ∉ u → env.E (u ++ v) = env.E u ++ env.E v
  ascii : ∀ c : Char, 0 < c.toNat → c.toNat < 128 → env.E [c] = [UInt8.ofNat c.toNat]
  beyond : ∀ c : Char, 128 ≤ c.toNat → ∀ b ∈ env.E [c], b ≠ 10 ∧ b ≠ 35 ∧ b ≠ 92
  fromUtf8 : ∀ text : Text, (∀ c ∈ text, 0 < c.toNat ∧ c.toNat < 128) →
    env.fromUtf8 (bytesOf text) = text
  fromUtf8_nul : ∀ bytes, Char.ofNat 0 ∉ env.fromUtf8 bytes

namespace EncodesAscii

variable {env : Env}

lemma nil (h : EncodesAscii env) : env.E [] = [] := by
  have happ := h.append [] [] (by simp)
  rw [List.nil_append] at happ
  exact List.self_eq_append_left.mp happ

variable {c : Char}

lemma cons (h : EncodesAscii env) (hc : c ≠ Char.ofNat 0) (text : Text) :
    env.E (c :: text) = env.E [c] ++ env.E text :=
  h.append [c] text (by simpa using hc.symm)

lemma cons_ascii (h : EncodesAscii env) (hpos : 0 < c.toNat) (hlt : c.toNat < 128) (text : Text) :
    env.E (c :: text) = UInt8.ofNat c.toNat :: env.E text := by
  have hc : c ≠ Char.ofNat 0 := by
    rintro rfl
    simp at hpos
  rw [h.cons hc, h.ascii c hpos hlt, List.singleton_append]

lemma append_ascii (h : EncodesAscii env) {text : Text}
    (htext : ∀ c ∈ text, 0 < c.toNat ∧ c.toNat < 128) (rest : Text) :
    env.E (text ++ rest) = bytesOf text ++ env.E rest := by
  induction text with
  | nil => rfl
  | cons c text ih =>
    obtain ⟨hpos, hlt⟩ := htext c (by simp)
    rw [List.cons_append, h.cons_ascii hpos hlt, ih fun d hd => htext d (by simp [hd])]
    rfl

lemma eq_bytesOf (h : EncodesAscii env) {text : Text}
    (htext : ∀ c ∈ text, 0 < c.toNat ∧ c.toNat < 128) : env.E text = bytesOf text := by
  have happ := h.append_ascii htext []
  rwa [List.append_nil, h.nil, List.append_nil] at happ

lemma char_cases (h : EncodesAscii env) (hc : c ≠ Char.ofNat 0) :
    (c.toNat < 128 ∧ env.E [c] = [UInt8.ofNat c.toNat]) ∨
      (128 ≤ c.toNat ∧ ∀ b ∈ env.E [c], b ≠ 10 ∧ b ≠ 35 ∧ b ≠ 92) := by
  by_cases hlt : c.toNat < 128
  · have hpos : 0 < c.toNat := by
      rcases Nat.eq_zero_or_pos c.toNat with hzero | hpos
      · refine absurd ?_ hc
        rw [← Char.ofNat_toNat c, hzero]
      · exact hpos
    exact Or.inl ⟨hlt, h.ascii c hpos hlt⟩
  · exact Or.inr ⟨by omega, h.beyond c (by omega)⟩

lemma byte_ne {d : Char} (hc : c.toNat < 128) (hd : d.toNat < 128) (hne : c ≠ d) :
    UInt8.ofNat c.toNat ≠ UInt8.ofNat d.toNat := by
  intro heq
  have hnat := congrArg UInt8.toNat heq
  simp only [UInt8.toNat_ofNat'] at hnat
  refine hne ?_
  rw [← Char.ofNat_toNat c, ← Char.ofNat_toNat d]
  congr 1
  omega

lemma mem_newline (h : EncodesAscii env) {text : Text} (hnul : Char.ofNat 0 ∉ text) :
    10 ∈ env.E text ↔ '\n' ∈ text := by
  induction text with
  | nil => simp [h.nil]
  | cons c text ih =>
    simp only [List.mem_cons, not_or] at hnul
    have hc : c ≠ Char.ofNat 0 := fun heq => hnul.1 heq.symm
    rw [h.cons hc, List.mem_append, ih hnul.2, List.mem_cons]
    refine or_congr_left ?_
    rcases h.char_cases hc with ⟨hlt, hbytes⟩ | ⟨hge, hbytes⟩
    · rw [hbytes, List.mem_singleton]
      constructor
      · intro hten
        by_contra hne
        exact byte_ne (d := '\n') hlt (by decide) (fun heq => hne heq.symm) hten.symm
      · rintro rfl
        rfl
    · constructor
      · intro hten
        exact absurd rfl (hbytes 10 hten).1
      · rintro rfl
        exact absurd hge (by decide)

end EncodesAscii

/-! ### What is sent -/

def commandLine (info : fish_info) (args : List Text) : Text :=
  info.command.toList ++ args.flatMap fun arg => ' ' :: escape arg

def shellLines (info : fish_info) (args : List Text) : Text :=
  ' ' :: ((insertArgs 0 args (info.command.toList, info.alt.toList)).2 ++
    " 2>&1;echo '### 200'\n".toList)

lemma insertArgs_fst (i : ℕ) (args : List Text) (cmds : Text × Text) :
    (insertArgs i args cmds).1 = cmds.1 ++ args.flatMap fun arg => ' ' :: escape arg := by
  induction args generalizing i cmds with
  | nil => simp [insertArgs]
  | cons arg args ih =>
    obtain ⟨realCmd, realAlt⟩ := cmds
    simp only [insertArgs, ih, List.flatMap_cons, List.append_assoc, List.cons_append,
      List.nil_append]

variable {args : List Text} {c x : Char}

lemma commandText_eq {info : fish_info} (hargs : args.length = info.params)
    (hfish : commandLine info args ≠ "FISH".toList) :
    commandText info args = '#' :: (commandLine info args ++ '\n' :: shellLines info args) := by
  have htake : args.take info.params = args := by
    rw [← hargs, List.take_length]
  have hfst : (insertArgs 0 args (info.command.toList, info.alt.toList)).1 =
      commandLine info args := insertArgs_fst 0 args _
  unfold commandText
  rw [htake]
  rcases hins : insertArgs 0 args (info.command.toList, info.alt.toList) with ⟨realCmd, realAlt⟩
  rw [hins] at hfst
  dsimp only at hfst ⊢
  rw [if_neg (hfst ▸ hfish), hfst]
  simp [shellLines, hins]

lemma escape_cons (c : Char) (text : Text) : escape (c :: text) = escapeChar c ++ escape text := by
  simp [escape_eq]

lemma mem_escape (hc : c ≠ '\\') {text : Text} : c ∈ escape text ↔ c ∈ text := by
  rw [escape_eq, List.mem_flatMap]
  constructor
  · rintro ⟨d, hd, hmem⟩
    unfold escapeChar at hmem
    split_ifs at hmem
    · simp only [List.mem_cons, hc, List.not_mem_nil, or_false, false_or] at hmem
      rwa [hmem]
    · rwa [List.mem_singleton.mp hmem]
  · intro hmem
    refine ⟨c, hmem, ?_⟩
    unfold escapeChar
    split_ifs <;> simp

lemma mem_replaceMarker {d : Char} {arg text : Text} (h : x ∈ replaceMarker c d arg text) :
    x ∈ arg ∨ x ∈ text := by
  induction text using replaceMarker.induct (c := c) (d := d) with
  | case1 => exact absurd h (by simp [replaceMarker])
  | case2 y => exact Or.inr h
  | case3 y z rest hif ih =>
    rw [replaceMarker, if_pos hif, List.mem_append] at h
    rcases h with harg | hrest
    · exact Or.inl harg
    · exact (ih hrest).imp_right fun hmem => by simp [hmem]
  | case4 y z rest hif ih =>
    rw [replaceMarker, if_neg hif, List.mem_cons] at h
    rcases h with rfl | hrest
    · exact Or.inr (by simp)
    · exact (ih hrest).imp_right fun hmem => by simp [List.mem_cons.mp hmem]

lemma mem_insertArgs (hx : x ≠ '\\') {i : ℕ} {cmds : Text × Text}
    (h : x ∈ (insertArgs i args cmds).2) : (∃ arg ∈ args, x ∈ arg) ∨ x ∈ cmds.2 := by
  induction args generalizing i cmds with
  | nil => exact Or.inr h
  | cons arg args ih =>
    obtain ⟨realCmd, realAlt⟩ := cmds
    rcases ih h with ⟨a, ha, hmem⟩ | hmem
    · exact Or.inl ⟨a, by simp [ha], hmem⟩
    · rcases mem_replaceMarker hmem with harg | halt
      · exact Or.inl ⟨arg, by simp, (mem_escape hx).mp harg⟩
      · exact Or.inr halt

/-! ### Lines -/

namespace State

lemma splitLine_newline {line : Bytes} (hline : 10 ∉ line) (rest : Bytes) :
    splitLine (line ++ 10 :: rest) = some (line, rest) := by
  induction line with
  | nil => rfl
  | cons b line ih =>
    simp only [List.mem_cons, not_or] at hline
    have hb : ¬ b = 10 := fun heq => hline.1 heq.symm
    simp only [List.cons_append, splitLine, hb, if_false, ih hline.2, Option.map_some]

end State

lemma mem_bytesOf {b : UInt8} {text : Text} (hb : ∀ c ∈ text, UInt8.ofNat c.toNat ≠ b) :
    b ∉ bytesOf text := by
  intro hmem
  obtain ⟨c, hc, heq⟩ := List.mem_map.mp hmem
  exact hb c hc heq

namespace Perl

variable {env : Env}

lemma skips_plain {bytes : Bytes} (h : 35 ∉ bytes) (start : Bool) :
    ∃ inside, skips start bytes = some inside := by
  induction bytes generalizing start with
  | nil => exact ⟨start, rfl⟩
  | cons b bytes ih =>
    simp only [List.mem_cons, not_or] at h
    have hb : ¬ (start = true ∧ b = 35) := fun heq => h.1 heq.2.symm
    simp only [skips, hb, if_false]
    exact ih h.2 _

lemma skips_char (h : EncodesAscii env) {c : Char} (hnul : c ≠ Char.ofNat 0) (hc : c ≠ '#')
    (start : Bool) : ∃ inside, skips start (env.E [c]) = some inside := by
  refine skips_plain ?_ start
  rcases h.char_cases hnul with ⟨hlt, hbytes⟩ | ⟨_, hbytes⟩
  · rw [hbytes, List.mem_singleton]
    intro heq
    exact EncodesAscii.byte_ne hlt (by decide : ('#' : Char).toNat < 128) hc heq.symm
  · exact fun hmem => (hbytes 35 hmem).2.1 rfl

/-- No line of an argument starts with `#`, which has a backslash in front. -/
lemma skips_escape (h : EncodesAscii env) {text : Text} (hnul : Char.ofNat 0 ∉ text)
    (start : Bool) : ∃ inside, skips start (env.E (escape text)) = some inside := by
  induction text generalizing start with
  | nil => exact ⟨start, by rw [escape_eq, List.flatMap_nil, h.nil]; rfl⟩
  | cons c text ih =>
    simp only [List.mem_cons, not_or] at hnul
    have hc : c ≠ Char.ofNat 0 := fun heq => hnul.1 heq.symm
    have hpiece : ∃ inside, skips start (env.E (escapeChar c)) = some inside := by
      unfold escapeChar
      split_ifs with hrx
      · have hslash : env.E ['\\', c] = 92 :: env.E [c] := h.cons_ascii (by decide) (by decide) [c]
        have hfirst : ¬ (start = true ∧ (92 : UInt8) = 35) := fun heq => absurd heq.2 (by decide)
        rw [hslash]
        simp only [skips, hfirst, if_false]
        by_cases hhash : c = '#'
        · have hbyte : env.E ['#'] = [35] := h.ascii '#' (by decide) (by decide)
          rw [hhash, hbyte]
          exact ⟨false, rfl⟩
        · exact skips_char h hc hhash _
      · refine skips_char h hc ?_ start
        rintro rfl
        exact hrx (by decide)
    obtain ⟨inside, hinside⟩ := hpiece
    obtain ⟨last, hlast⟩ := ih hnul.2 inside
    have hnul' : Char.ofNat 0 ∉ escapeChar c := by
      unfold escapeChar
      split_ifs
      · simp only [List.mem_cons, List.not_mem_nil, or_false, not_or]
        exact ⟨by decide, hnul.1⟩
      · simpa using hnul.1
    refine ⟨last, ?_⟩
    rw [escape_cons, h.append _ _ hnul', skips_append, hinside]
    exact hlast

/-- There is no `#` at the start of a line, nor behind a marker, where a line may start. -/
def safe (c d : Char) : Bool → Text → Bool
  | _, [] => true
  | start, [x] => !(start && x == '#')
  | start, x :: y :: rest =>
    if x = c ∧ y = d then safe c d true rest
    else !(start && x == '#') && safe c d (x == '\n') (y :: rest)

lemma skips_replaceMarker (h : EncodesAscii env) {arg : Text} (harg : Char.ofNat 0 ∉ arg)
    {c d : Char} {text : Text} (hascii : ∀ x ∈ text, 0 < x.toNat ∧ x.toNat < 128)
    (start : Bool) {bound : Bool} (hsafe : safe c d bound text = true)
    (hstart : start = true → bound = true) :
    ∃ inside, skips start (env.E (replaceMarker c d (escape arg) text)) = some inside := by
  -- a character of the text itself
  have hone : ∀ {x : Char} {start bound : Bool}, 0 < x.toNat ∧ x.toNat < 128 →
      (!(bound && x == '#')) = true → (start = true → bound = true) →
      skips start [UInt8.ofNat x.toNat] = some (x == '\n') := by
    intro x start bound hx hfirst hstart
    have hno : ¬ (start = true ∧ UInt8.ofNat x.toNat = 35) := by
      rintro ⟨hs, heq⟩
      rw [hstart hs, Bool.true_and, Bool.not_eq_true', beq_eq_false_iff_ne] at hfirst
      exact EncodesAscii.byte_ne hx.2 (by decide : ('#' : Char).toNat < 128) hfirst heq
    simp only [skips, hno, if_false]
    congr 1
    by_cases hnl : x = '\n'
    · rw [hnl]
      rfl
    · have hbyte : UInt8.ofNat x.toNat ≠ 10 :=
        EncodesAscii.byte_ne hx.2 (by decide : ('\n' : Char).toNat < 128) hnl
      rw [decide_eq_false hbyte, (beq_eq_false_iff_ne).mpr hnl]
  induction text using replaceMarker.induct (c := c) (d := d) generalizing start bound with
  | case1 => exact ⟨start, by rw [replaceMarker, h.nil]; rfl⟩
  | case2 x =>
    have hx := hascii x (by simp)
    refine ⟨x == '\n', ?_⟩
    rw [replaceMarker, h.ascii x hx.1 hx.2]
    exact hone hx hsafe hstart
  | case3 x y rest hif ih =>
    rw [safe, if_pos hif] at hsafe
    have hescape : Char.ofNat 0 ∉ escape arg := fun hmem => harg ((mem_escape (by decide)).mp hmem)
    obtain ⟨inside, hinside⟩ := skips_escape h harg start
    obtain ⟨last, hlast⟩ := ih (fun z hz => hascii z (by simp [hz])) inside hsafe
      (fun _ => rfl)
    refine ⟨last, ?_⟩
    rw [replaceMarker, if_pos hif, h.append _ _ hescape, skips_append, hinside]
    exact hlast
  | case4 x y rest hif ih =>
    rw [safe, if_neg hif, Bool.and_eq_true] at hsafe
    have hx := hascii x (by simp)
    obtain ⟨last, hlast⟩ := ih (fun z hz => hascii z (by simp [List.mem_cons.mp hz])) (x == '\n')
      hsafe.2 id
    refine ⟨last, ?_⟩
    rw [replaceMarker, if_neg hif, h.cons_ascii hx.1 hx.2, ← List.singleton_append, skips_append,
      hone hx hsafe.1 hstart]
    exact hlast

/-! ### Names -/

lemma atoms_cons {b : UInt8} (hb : b ≠ 92) (bytes : Bytes) :
    atoms (b :: bytes) = (atoms bytes).map ([b] :: ·) := by
  cases bytes with
  | nil => simp only [atoms, hb, if_false, Option.map_some]
  | cons c rest => simp only [atoms, hb, if_false]

lemma atoms_append {bytes : Bytes} (hbytes : ∀ b ∈ bytes, b ≠ 92) (rest : Bytes) :
    atoms (bytes ++ rest) = (atoms rest).map (bytes.map ([·]) ++ ·) := by
  induction bytes with
  | nil => simp
  | cons b bytes ih =>
    rw [List.cons_append, atoms_cons (hbytes b (by simp)), ih fun c hc => hbytes c (by simp [hc]),
      Option.map_map]
    rfl

lemma rx_ascii : ∀ c ∈ rx, 0 < c.toNat ∧ c.toNat < 128 :=
  forall_mem_of_all (by decide)

lemma atoms_escape (h : EncodesAscii env) {text : Text} (hnul : Char.ofNat 0 ∉ text) :
    ∃ as, ∀ rest, atoms (env.E (escape text) ++ rest) = (atoms rest).map (as ++ ·) := by
  induction text with
  | nil =>
    refine ⟨[], fun rest => ?_⟩
    rw [escape_eq, List.flatMap_nil, h.nil]
    simp
  | cons c text ih =>
    simp only [List.mem_cons, not_or] at hnul
    have hc : c ≠ Char.ofNat 0 := fun heq => hnul.1 heq.symm
    obtain ⟨as, has⟩ := ih hnul.2
    by_cases hrx : c ∈ rx
    · obtain ⟨hpos, hlt⟩ := rx_ascii c hrx
      refine ⟨[92, UInt8.ofNat c.toNat] :: as, fun rest => ?_⟩
      have htext : escape (c :: text) = '\\' :: c :: escape text := by
        simp [escape_cons, escapeChar, hrx]
      rw [htext, h.cons_ascii (by decide) (by decide), h.cons_ascii hpos hlt]
      have hslash : UInt8.ofNat ('\\' : Char).toNat = 92 := by decide
      simp only [List.cons_append, hslash, atoms, if_true, has, Option.map_map]
      rfl
    · have hplain : ∀ b ∈ env.E [c], b ≠ 92 := by
        rcases h.char_cases hc with ⟨hlt, hbytes⟩ | ⟨_, hbytes⟩
        · intro b hb
          rw [hbytes, List.mem_singleton] at hb
          rw [hb]
          refine EncodesAscii.byte_ne (d := '\\') hlt (by decide) ?_
          rintro rfl
          exact hrx (by decide)
        · exact fun b hb => (hbytes b hb).2.2
      refine ⟨(env.E [c]).map ([·]) ++ as, fun rest => ?_⟩
      have htext : escape (c :: text) = c :: escape text := by
        simp [escape_cons, escapeChar, hrx]
      rw [htext, h.cons hc, List.append_assoc, atoms_append hplain, has, Option.map_map]
      congr 1
      funext bs
      exact (List.append_assoc _ _ _).symm

lemma atoms_dropWhile (bytes : Bytes) :
    atoms (bytes.dropWhile isBlank) = none ↔ atoms bytes = none := by
  induction bytes with
  | nil => rfl
  | cons b bytes ih =>
    by_cases hb : isBlank b = true
    · have hne : b ≠ 92 := by
        rintro rfl
        exact absurd hb (by decide)
      rw [List.dropWhile_cons, if_pos hb, ih, atoms_cons hne, Option.map_eq_none_iff]
    · rw [List.dropWhile_cons, if_neg hb]

/-- The name as it is sent. -/
def pathArg (env : Env) (path : Text) : Text := env.fromUtf8 (env.E path)

/-- The rest of a command line from the blank in front of the name on. -/
def nameField (env : Env) (path : Text) : Bytes :=
  32 :: (env.E (escape (pathArg env path))).takeWhile (· ≠ 10)

/-- The file that the server takes a path for, if it can read the command at all. -/
def remoteName (env : Env) (path : Text) : Option Bytes :=
  (blanks (nameField env path)).bind name

lemma blanks_space (bytes : Bytes) : blanks (32 :: bytes) = some (bytes.dropWhile isBlank) := by
  have hspace : isBlank 32 = true := by decide
  simp [blanks, hspace]

lemma remoteName_eq_none (env : Env) (path : Text) : remoteName env path = none ↔
    atoms ((env.E (escape (pathArg env path))).takeWhile (· ≠ 10)) = none := by
  unfold remoteName nameField
  rw [blanks_space, Option.bind_some]
  unfold name lastArgument
  rw [Option.map_eq_none_iff, Option.map_eq_none_iff, atoms_dropWhile]

/-- **The commands can be read if and only if the path has no newline.** -/
theorem remoteName_isSome_iff (h : EncodesAscii env) (path : Text) :
    (remoteName env path).isSome ↔ '\n' ∉ pathArg env path := by
  have hnul : Char.ofNat 0 ∉ pathArg env path := h.fromUtf8_nul _
  have hescape : Char.ofNat 0 ∉ escape (pathArg env path) := fun hmem =>
    hnul ((mem_escape (by decide)).mp hmem)
  rw [Option.isSome_iff_ne_none, Ne, remoteName_eq_none]
  by_cases hnl : '\n' ∈ pathArg env path
  · obtain ⟨before, after, heq, hbefore⟩ := List.eq_append_cons_of_mem hnl
    have hnul' : Char.ofNat 0 ∉ before := fun hmem => hnul (heq ▸ by simp [hmem])
    have hescape' : Char.ofNat 0 ∉ escape before := fun hmem =>
      hnul' ((mem_escape (by decide)).mp hmem)
    have hnewline : ('\n' : Char) ∈ rx := by decide
    have htext : escape (pathArg env path) = escape before ++ '\\' :: '\n' :: escape after := by
      rw [heq, escape_eq, escape_eq, escape_eq, List.flatMap_append, List.flatMap_cons]
      simp [escapeChar, hnewline]
    have hplain : 10 ∉ env.E (escape before) := by
      rw [h.mem_newline hescape', mem_escape (by decide)]
      exact hbefore
    have hcut : (env.E (escape (pathArg env path))).takeWhile (· ≠ 10) =
        env.E (escape before) ++ [92] := by
      have hslash : UInt8.ofNat ('\\' : Char).toNat = 92 := by decide
      have hten : UInt8.ofNat ('\n' : Char).toNat = 10 := by decide
      rw [htext, h.append _ _ hescape', h.cons_ascii (by decide) (by decide),
        h.cons_ascii (by decide) (by decide), hslash, hten, List.takeWhile_append_of_pos]
      · simp
      · intro b hb
        simpa using ne_of_mem_of_not_mem hb hplain
    obtain ⟨as, has⟩ := atoms_escape h hnul'
    rw [hcut, has]
    simp [atoms, hnl]
  · have hplain : 10 ∉ env.E (escape (pathArg env path)) := by
      rw [h.mem_newline hescape, mem_escape (by decide)]
      exact hnl
    have hall : (env.E (escape (pathArg env path))).takeWhile (· ≠ 10) =
        env.E (escape (pathArg env path)) := by
      rw [List.takeWhile_eq_self_iff]
      intro b hb
      simpa using ne_of_mem_of_not_mem hb hplain
    obtain ⟨as, has⟩ := atoms_escape h hnul
    have hlast := has []
    rw [List.append_nil] at hlast
    rw [hall, hlast]
    simp [atoms, hnl]

/-! ### Requests -/

variable {base : ℕ} {stdin : Bytes}

variable {n : ℕ} {CHECKSUM : String}

lemma number_range (hlo : 1 < base) (hhi : base ≤ 10) {c : Char} (h : c ∈ number base n) :
    48 ≤ c.toNat ∧ c.toNat < 48 + base := by
  have hdigit : ∀ d < base, 48 ≤ d.digitChar.toNat ∧ d.digitChar.toNat < 48 + base := by
    intro d hd
    have hall : ∀ d < 10, 48 ≤ d.digitChar.toNat ∧ d.digitChar.toNat = 48 + d := by decide
    obtain ⟨hge, heq⟩ := hall d (by omega)
    omega
  unfold number at h
  induction n using Nat.base_induction base hlo with
  | single m hm =>
    rw [Nat.toDigits_of_lt_base hm, List.mem_singleton] at h
    exact h ▸ hdigit m hm
  | digit m k hk hm ih =>
    rw [← Nat.toDigits_append_toDigits hlo hm hk, List.mem_append] at h
    rcases h with h | h
    · exact ih h
    · rw [Nat.toDigits_of_lt_base hk, List.mem_singleton] at h
      exact h ▸ hdigit k hk

lemma value_bytesOf (base : ℕ) {text : Text} (htext : ∀ c ∈ text, c.toNat < 128) (n : ℕ) :
    (bytesOf text).foldl (fun n b => base * n + (b.toNat - 48)) n =
      Nat.ofDigitChars base text n := by
  induction text generalizing n with
  | nil => rfl
  | cons c text ih =>
    have hbyte : (UInt8.ofNat c.toNat).toNat = c.toNat := by
      have hc := htext c (by simp)
      simp only [UInt8.toNat_ofNat']
      omega
    have hrest := ih (fun d hd => htext d (by simp [hd])) (base * n + (c.toNat - 48))
    have hcons : bytesOf (c :: text) = UInt8.ofNat c.toNat :: bytesOf text := rfl
    rw [hcons, List.foldl_cons, hbyte, hrest]
    exact Nat.ofDigitChars_cons.symm

lemma digits_number (hlo : 1 < base) (hhi : base ≤ 10) {isDigit : UInt8 → Bool}
    (hdigit : ∀ b, isDigit b = true ↔ 48 ≤ b.toNat ∧ b.toNat < 48 + base) (n : ℕ) (rest : Bytes) :
    digits isDigit base (bytesOf (number base n) ++ 32 :: rest) =
      some (n, rest.dropWhile isBlank) := by
  have hall : ∀ b ∈ bytesOf (number base n), isDigit b = true := by
    intro b hb
    obtain ⟨c, hc, rfl⟩ := List.mem_map.mp hb
    obtain ⟨hge, hlt⟩ := number_range hlo hhi hc
    rw [hdigit]
    simp only [UInt8.toNat_ofNat']
    omega
  have hspace : ¬ isDigit 32 = true := by
    rw [hdigit]
    have h32 : (32 : UInt8).toNat = 32 := rfl
    omega
  have htake : (bytesOf (number base n) ++ 32 :: rest).takeWhile isDigit =
      bytesOf (number base n) := by
    rw [List.takeWhile_append_of_pos hall, List.takeWhile_cons, if_neg hspace, List.append_nil]
  have hdrop : (bytesOf (number base n) ++ 32 :: rest).dropWhile isDigit = 32 :: rest := by
    rw [List.dropWhile_append_of_pos hall, List.dropWhile_cons, if_neg hspace]
  have hne : bytesOf (number base n) ≠ [] := by
    unfold bytesOf number
    simp
  have hvalue : value base (bytesOf (number base n)) = n := by
    have hascii : ∀ c ∈ number base n, c.toNat < 128 := fun c hc => by
      have hrange := number_range hlo hhi hc
      omega
    exact (value_bytesOf base hascii 0).trans (Nat.ofDigitChars_toDigits hlo hhi)
  unfold digits
  rw [htake, hdrop, if_neg hne, blanks_space, hvalue]
  rfl

lemma isDigit_iff (b : UInt8) : isDigit b = true ↔ 48 ≤ b.toNat ∧ b.toNat < 48 + 10 := by
  simp only [isDigit, Bool.and_eq_true, decide_eq_true_eq, UInt8.le_iff_toNat_le]
  have hlo : (48 : UInt8).toNat = 48 := rfl
  have hhi : (57 : UInt8).toNat = 57 := rfl
  omega

lemma isOctal_iff (b : UInt8) : isOctal b = true ↔ 48 ≤ b.toNat ∧ b.toNat < 48 + 8 := by
  simp only [isOctal, Bool.and_eq_true, decide_eq_true_eq, UInt8.le_iff_toNat_le]
  have hlo : (48 : UInt8).toNat = 48 := rfl
  have hhi : (55 : UInt8).toNat = 55 := rfl
  omega

lemma dropWhile_number (hlo : 1 < base) (hhi : base ≤ 10) (n : ℕ) (rest : Bytes) :
    (bytesOf (number base n) ++ rest).dropWhile isBlank = bytesOf (number base n) ++ rest := by
  cases hn : number base n with
  | nil => exact absurd hn Nat.toDigits_ne_nil
  | cons c text =>
    obtain ⟨hge, hlt⟩ := number_range hlo hhi (n := n) (c := c) (by simp [hn])
    have hblank : ¬ isBlank (UInt8.ofNat c.toNat) = true := by
      simp only [isBlank, Bool.or_eq_true, Bool.and_eq_true, decide_eq_true_eq,
        UInt8.le_iff_toNat_le, UInt8.toNat_ofNat', ← UInt8.toNat_inj]
      have h32 : (32 : UInt8).toNat = 32 := rfl
      have h9 : (9 : UInt8).toNat = 9 := rfl
      have h13 : (13 : UInt8).toNat = 13 := rfl
      omega
    have hcons : bytesOf (c :: text) ++ rest = UInt8.ofNat c.toNat :: (bytesOf text ++ rest) := rfl
    rw [hcons, List.dropWhile_cons, if_neg hblank]

lemma behind_self {command : String} (hlen : (ascii command).length = command.length)
    (line : Bytes) : behind command (ascii command ++ line) = blanks line := by
  unfold behind
  rw [if_pos (by simp), ← hlen, List.drop_left]

lemma behind_other {command other : String} (h : (ascii command).head? ≠ (ascii other).head?)
    (hne : ascii command ≠ []) (hne' : ascii other ≠ []) (line : Bytes) :
    behind command (ascii other ++ line) = none := by
  unfold behind
  rw [if_neg]
  intro hprefix
  obtain ⟨b, bs, hb⟩ := List.exists_cons_of_ne_nil hne
  obtain ⟨c, cs, hc⟩ := List.exists_cons_of_ne_nil hne'
  rw [hb, hc, List.cons_append] at hprefix
  rw [hb, hc] at h
  simp only [List.isPrefixOf, Bool.and_eq_true, beq_iff_eq] at hprefix
  exact h (congrArg some hprefix.1)

def numberField (base n : ℕ) (rest : Bytes) : Bytes := 32 :: (bytesOf (number base n) ++ rest)

lemma blanks_number (hlo : 1 < base) (hhi : base ≤ 10) (n : ℕ) (rest : Bytes) :
    blanks (numberField base n rest) = some (bytesOf (number base n) ++ rest) := by
  rw [numberField, blanks_space, dropWhile_number hlo hhi]

variable (env : Env) (path : Text)

lemma request_LIST : request (ascii "LIST" ++ nameField env path) =
    (remoteName env path).map .LIST := by
  unfold request
  rw [behind_self (by decide)]
  rw [nameField, blanks_space]
  dsimp only
  rw [remoteName, nameField, blanks_space]
  rfl

lemma request_STOR (size : ℕ) :
    request (ascii "STOR" ++ numberField 10 size (nameField env path)) =
      (remoteName env path).map (.STOR size) := by
  unfold request
  rw [behind_other (by decide) (by decide) (by decide),
    behind_other (by decide) (by decide) (by decide), behind_self (by decide),
    blanks_number (by decide) (by decide)]
  dsimp only
  rw [nameField, digits_number (by decide) (by decide) isDigit_iff, Option.bind_some, remoteName,
    nameField, blanks_space]
  rfl

lemma request_WRITE (offset size : ℕ) :
    request (ascii "WRITE" ++ numberField 10 offset (numberField 10 size (nameField env path))) =
      (remoteName env path).map (.WRITE offset size) := by
  unfold request
  rw [behind_other (by decide) (by decide) (by decide), behind_self (by decide),
    blanks_number (by decide) (by decide)]
  dsimp only
  rw [numberField, digits_number (by decide) (by decide) isDigit_iff, Option.bind_some,
    dropWhile_number (by decide) (by decide)]
  dsimp only
  rw [nameField, digits_number (by decide) (by decide) isDigit_iff, Option.bind_some, remoteName,
    nameField, blanks_space]
  rfl

lemma request_CHMOD (mode : ℕ) :
    request (ascii "CHMOD" ++ numberField 8 mode (nameField env path)) =
      (remoteName env path).map (.CHMOD mode) := by
  unfold request
  rw [behind_other (by decide) (by decide) (by decide),
    behind_other (by decide) (by decide) (by decide),
    behind_other (by decide) (by decide) (by decide), behind_self (by decide),
    blanks_number (by decide) (by decide)]
  dsimp only
  rw [nameField, digits_number (by decide) (by decide) isOctal_iff, Option.bind_some, remoteName,
    nameField, blanks_space]
  rfl

/-! ### Commands -/

variable {env}

lemma skips_split {bytes line rest : Bytes} {start : Bool}
    (hsplit : State.splitLine bytes = some (line, rest))
    (hskips : skips start bytes = some true) : skips true rest = some true := by
  obtain ⟨heq, _⟩ := State.splitLine_some hsplit
  rw [heq, skips_append] at hskips
  obtain ⟨inside, _, hrest⟩ := Option.bind_eq_some_iff.mp hskips
  have hnewline : ¬ (inside = true ∧ (10 : UInt8) = 35) := fun h => absurd h.2 (by decide)
  simpa only [skips, hnewline, if_false, decide_true] using hrest

lemma splitLine_command (h : EncodesAscii env) {front : Text}
    (hfront : ∀ c ∈ front, 0 < c.toNat ∧ c.toNat < 128 ∧ c ≠ '\n') (shell : Text) :
    ∃ rest, State.splitLine
        (env.E (front ++ ' ' :: (escape (pathArg env path) ++ '\n' :: shell))) =
      some (bytesOf front ++ nameField env path, rest) ∧
      ('\n' ∉ pathArg env path → rest = env.E shell) := by
  have hnul : Char.ofNat 0 ∉ pathArg env path := h.fromUtf8_nul _
  have hescape : Char.ofNat 0 ∉ escape (pathArg env path) := fun hmem =>
    hnul ((mem_escape (by decide)).mp hmem)
  set name := env.E (escape (pathArg env path)) with hname
  have htext : env.E (front ++ ' ' :: (escape (pathArg env path) ++ '\n' :: shell)) =
      bytesOf front ++ 32 :: (name ++ 10 :: env.E shell) := by
    rw [h.append_ascii fun c hc => ⟨(hfront c hc).1, (hfront c hc).2.1⟩,
      h.cons_ascii (by decide) (by decide), h.append _ _ hescape,
      h.cons_ascii (by decide) (by decide)]
    rfl
  have hplain : 10 ∉ bytesOf front := mem_bytesOf fun c hc =>
    EncodesAscii.byte_ne (d := '\n') (hfront c hc).2.1 (by decide) (hfront c hc).2.2
  by_cases hnl : '\n' ∈ pathArg env path
  · have hten : 10 ∈ name := by
      rw [hname, h.mem_newline hescape, mem_escape (by decide)]
      exact hnl
    obtain ⟨before, after, heq, hbefore⟩ := List.eq_append_cons_of_mem hten
    have hcut : name.takeWhile (· ≠ 10) = before := by
      rw [heq, List.takeWhile_append_of_pos]
      · simp
      · intro b hb
        simpa using ne_of_mem_of_not_mem hb hbefore
    have hline : 10 ∉ bytesOf front ++ 32 :: before := by
      simp [hplain, hbefore]
    refine ⟨after ++ 10 :: env.E shell, ?_, fun hno => absurd hnl hno⟩
    rw [htext, nameField, ← hname, hcut, heq]
    have hsplit := State.splitLine_newline hline (after ++ 10 :: env.E shell)
    simpa using hsplit
  · have hten : 10 ∉ name := by
      rw [hname, h.mem_newline hescape, mem_escape (by decide)]
      exact hnl
    have hcut : name.takeWhile (· ≠ 10) = name := by
      rw [List.takeWhile_eq_self_iff]
      intro b hb
      simpa using ne_of_mem_of_not_mem hb hten
    have hline : 10 ∉ bytesOf front ++ 32 :: name := by
      simp [hplain, hten]
    refine ⟨env.E shell, ?_, fun _ => rfl⟩
    rw [htext, nameField, ← hname, hcut]
    have hsplit := State.splitLine_newline hline (env.E shell)
    simpa using hsplit

lemma splitLine_shell (h : EncodesAscii env) {info : fish_info} {args : List Text}
    (hinfo : ∀ c ∈ info.alt.toList, c ≠ Char.ofNat 0 ∧ c ≠ '\n')
    (hargs : ∀ arg ∈ args, Char.ofNat 0 ∉ arg ∧ '\n' ∉ arg) :
    ∃ line, State.splitLine (env.E (shellLines info args)) = some (line, []) := by
  set alt := ' ' :: ((insertArgs 0 args (info.command.toList, info.alt.toList)).2 ++
    " 2>&1;echo '### 200'".toList) with halt
  have heq : shellLines info args = alt ++ ['\n'] := by
    have hend : " 2>&1;echo '### 200'\n".toList = " 2>&1;echo '### 200'".toList ++ ['\n'] := by
      decide
    unfold shellLines
    rw [hend, halt]
    simp
  have hnot : ∀ x, x ≠ '\\' → x ∉ " 2>&1;echo '### 200'".toList → x ≠ ' ' →
      (∀ arg ∈ args, x ∉ arg) → x ∉ info.alt.toList → x ∉ alt := by
    intro x hx hsuffix hspace harg hmem hin
    rw [halt, List.mem_cons, List.mem_append] at hin
    rcases hin with hin | hin | hin
    · exact hspace hin
    · rcases mem_insertArgs hx hin with ⟨arg, ha, hxa⟩ | hxm
      · exact harg arg ha hxa
      · exact hmem hxm
    · exact hsuffix hin
  have hnul : Char.ofNat 0 ∉ alt := hnot _ (by decide) (by decide) (by decide)
    (fun arg ha => (hargs arg ha).1) fun hmem => (hinfo _ hmem).1 rfl
  have hnewline : '\n' ∉ alt := hnot _ (by decide) (by decide) (by decide)
    (fun arg ha => (hargs arg ha).2) fun hmem => (hinfo _ hmem).2 rfl
  have hplain : 10 ∉ env.E alt := by
    rw [h.mem_newline hnul]
    exact hnewline
  refine ⟨env.E alt, ?_⟩
  rw [heq, h.append _ _ hnul, h.ascii '\n' (by decide) (by decide)]
  exact State.splitLine_newline hplain []

/-- What `MAIN` comes to behind lines that it passes over. -/
def nextLine (stdin : Bytes) : Option (Bytes × Bytes) := (seek true stdin).bind State.splitLine

lemma nextLine_skips (hstdin : skips true stdin = some true) (bytes : Bytes) :
    nextLine (stdin ++ 35 :: bytes) = State.splitLine bytes := by
  unfold nextLine
  rw [seek_skips hstdin]
  simp [seek]

lemma nextLine_none (hstdin : skips true stdin = some true) : nextLine stdin = none := by
  unfold nextLine
  rw [seek_none hstdin]
  rfl

lemma escape_number (hlo : 1 < base) (hhi : base ≤ 10) (n : ℕ) :
    escape (number base n) = number base n := by
  have hplain : ∀ c ∈ number base n, escapeChar c = [c] := by
    intro c hc
    obtain ⟨hge, hlt⟩ := number_range hlo hhi hc
    have hrx : ∀ d ∈ rx, d.toNat < 48 ∨ 58 ≤ d.toNat := forall_mem_of_all (by decide)
    unfold escapeChar
    rw [if_neg]
    intro hmem
    have hout := hrx c hmem
    omega
  rw [escape_eq, List.flatMap_congr hplain]
  simp

variable (env) in
lemma commandText_front (info : fish_info) {front : Text} (args : List Text)
    (hparams : args.length + 1 = info.params) (hfront : front = commandLine info args) :
    commandText info (args ++ [pathArg env path]) =
      '#' :: (front ++ ' ' :: (escape (pathArg env path) ++
        '\n' :: shellLines info (args ++ [pathArg env path]))) := by
  have hline : commandLine info (args ++ [pathArg env path]) =
      front ++ ' ' :: escape (pathArg env path) := by
    rw [hfront]
    simp [commandLine]
  have hfish : commandLine info (args ++ [pathArg env path]) ≠ "FISH".toList := by
    intro heq
    have hblank : ' ' ∈ "FISH".toList := heq ▸ hline ▸ by simp
    exact absurd hblank (by decide)
  rw [commandText_eq (by simpa using hparams) hfish, hline]
  simp

lemma pathArg_nul (h : EncodesAscii env) : Char.ofNat 0 ∉ pathArg env path := h.fromUtf8_nul _

lemma escape_nul {text : Text} (hnul : Char.ofNat 0 ∉ text) : Char.ofNat 0 ∉ escape text :=
  fun hmem => hnul ((mem_escape (by decide)).mp hmem)

set_option maxRecDepth 2000 in
lemma table_ascii : ∀ c ∈ (fishInfo CHECKSUM .LIST).alt.toList, 0 < c.toNat ∧ c.toNat < 128 := by
  simp only [fishInfo, String.toList_append]
  repeat rw [String.toList_ofList]
  exact forall_mem_of_all (by decide)

set_option maxRecDepth 2000 in
lemma table_safe : safe '%' '1' false (fishInfo CHECKSUM .LIST).alt.toList = true := by
  simp only [fishInfo, String.toList_append]
  repeat rw [String.toList_ofList]
  decide

lemma reads_name (h : EncodesAscii env) {info : fish_info} (hcommand : info.command = "LIST")
    (hparams : info.params = 1) (halt : ∀ c ∈ info.alt.toList, 0 < c.toNat ∧ c.toNat < 128)
    (hsafe : safe '%' '1' false info.alt.toList = true) (hstdin : skips true stdin = some true) :
    ∃ line rest, nextLine (stdin ++ env.E (commandText info [pathArg env path])) =
        some (line, rest) ∧
      request line = (remoteName env path).map .LIST ∧ skips true rest = some true := by
  have hline : "LIST".toList = commandLine info [] := by
    rw [commandLine, hcommand]
    simp
  have hfront : ∀ c ∈ "LIST".toList, 0 < c.toNat ∧ c.toNat < 128 ∧ c ≠ '\n' :=
    forall_mem_of_all (by decide)
  have htext := commandText_front env path info [] hparams.symm hline
  have hsharp : UInt8.ofNat ('#' : Char).toNat = 35 := by decide
  obtain ⟨rest, hsplit, _⟩ := splitLine_command path h hfront (shellLines info [pathArg env path])
  have hnul := escape_nul (pathArg_nul path h)
  -- the lines behind the command
  obtain ⟨inside, hinside⟩ := skips_escape h (pathArg_nul path h) false
  obtain ⟨last, hlast⟩ := skips_replaceMarker h (pathArg_nul path h) halt false hsafe id
  have hskips : skips false (env.E ("LIST".toList ++ ' ' :: (escape (pathArg env path) ++
      '\n' :: shellLines info [pathArg env path]))) = some true := by
    have hshell : shellLines info [pathArg env path] =
        ' ' :: (replaceMarker '%' '1' (escape (pathArg env path)) info.alt.toList ++
          " 2>&1;echo '### 200'\n".toList) := rfl
    have hnul' : Char.ofNat 0 ∉
        replaceMarker '%' '1' (escape (pathArg env path)) info.alt.toList := by
      intro hmem
      rcases mem_replaceMarker hmem with harg | hmem
      · exact hnul harg
      · exact absurd (halt _ hmem).1 (by decide)
    have hsuffix : ∀ start, skips start (bytesOf " 2>&1;echo '### 200'\n".toList) = some true := by
      decide
    have hfirst : skips false (bytesOf "LIST".toList ++ [32]) = some false := by decide
    have hnewline : skips inside [10, 32] = some false := by
      cases inside <;> decide
    rw [h.append_ascii fun c hc => ⟨(hfront c hc).1, (hfront c hc).2.1⟩,
      h.cons_ascii (by decide) (by decide), h.append _ _ hnul,
      h.cons_ascii (by decide) (by decide), hshell, h.cons_ascii (by decide) (by decide),
      h.append _ _ hnul',
      @EncodesAscii.eq_bytesOf env h " 2>&1;echo '### 200'\n".toList
        (forall_mem_of_all (by decide))]
    have hassoc : bytesOf "LIST".toList ++ 32 :: (env.E (escape (pathArg env path)) ++
        10 :: 32 :: (env.E (replaceMarker '%' '1' (escape (pathArg env path)) info.alt.toList) ++
          bytesOf " 2>&1;echo '### 200'\n".toList)) =
        (bytesOf "LIST".toList ++ [32]) ++ (env.E (escape (pathArg env path)) ++
          ([10, 32] ++ (env.E (replaceMarker '%' '1' (escape (pathArg env path))
            info.alt.toList) ++ bytesOf " 2>&1;echo '### 200'\n".toList))) := by
      simp
    calc skips false _
        = skips false ((bytesOf "LIST".toList ++ [32]) ++ (env.E (escape (pathArg env path)) ++
          ([10, 32] ++ (env.E (replaceMarker '%' '1' (escape (pathArg env path))
            info.alt.toList) ++ bytesOf " 2>&1;echo '### 200'\n".toList)))) :=
          congrArg (skips false) hassoc
      _ = some true := by
          rw [skips_append, hfirst, Option.bind_some, skips_append, hinside, Option.bind_some,
            skips_append, hnewline, Option.bind_some, skips_append, hlast, Option.bind_some,
            hsuffix]
  refine ⟨bytesOf "LIST".toList ++ nameField env path, rest, ?_, request_LIST env path,
    skips_split hsplit hskips⟩
  rw [List.nil_append] at htext
  rw [htext, h.cons_ascii (by decide) (by decide), hsharp, nextLine_skips hstdin]
  exact hsplit

theorem reads_LIST (h : EncodesAscii env) {stdin : Bytes} (hstdin : skips true stdin = some true) :
    ∃ line rest, nextLine (stdin ++ env.E (commandText (fishInfo env.CHECKSUM .LIST)
        [pathArg env path])) = some (line, rest) ∧
      request line = (remoteName env path).map .LIST ∧ skips true rest = some true :=
  reads_name path h rfl rfl table_ascii table_safe hstdin

lemma number_plain' (hlo : 1 < base) (hhi : base ≤ 10) :
    ∀ c ∈ number base n, 0 < c.toNat ∧ c.toNat < 128 ∧ c ≠ '\n' := by
  intro c hc
  obtain ⟨hge, hlt⟩ := number_range hlo hhi hc
  refine ⟨by omega, by omega, ?_⟩
  rintro rfl
  exact absurd hge (by decide)

lemma bytesOf_numbers (name : Text) (ns : List ℕ) (rest : Bytes) :
    bytesOf (name ++ ns.flatMap fun n => ' ' :: number base n) ++ rest =
      bytesOf name ++ ns.foldr (numberField base) rest := by
  induction ns generalizing name with
  | nil => simp
  | cons n ns ih =>
    rw [List.flatMap_cons, ← List.append_assoc, ih]
    simp [bytesOf, numberField]

variable (base) in
/-- A command with numbers in front of the name: where the name is read, what is behind the first
line is one line. -/
lemma reads_numbers (h : EncodesAscii env) (info : fish_info) (ns : List ℕ) (hlo : 1 < base)
    (hhi : base ≤ 10) (hparams : ns.length + 1 = info.params)
    (hinfo : (∀ c ∈ info.command.toList, 0 < c.toNat ∧ c.toNat < 128 ∧ c ≠ '\n') ∧
      ∀ c ∈ info.alt.toList, c ≠ Char.ofNat 0 ∧ c ≠ '\n')
    (hpath : (remoteName env path).isSome) (hstdin : skips true stdin = some true) :
    ∃ rest shell, nextLine (stdin ++ env.E (commandText info
        (ns.map (number base) ++ [pathArg env path]))) =
        some (bytesOf info.command.toList ++ ns.foldr (numberField base) (nameField env path),
          rest) ∧ State.splitLine rest = some (shell, []) := by
  rw [remoteName_isSome_iff h] at hpath
  have hfront : (info.command.toList ++ ns.flatMap fun n => ' ' :: number base n) =
      commandLine info (ns.map (number base)) := by
    simp [commandLine, List.flatMap_map, escape_number hlo hhi]
  have hplain : ∀ c ∈ info.command.toList ++ ns.flatMap fun n => ' ' :: number base n,
      0 < c.toNat ∧ c.toNat < 128 ∧ c ≠ '\n' := by
    intro c hc
    rcases List.mem_append.mp hc with hc | hc
    · exact hinfo.1 c hc
    · obtain ⟨n, -, hc⟩ := List.mem_flatMap.mp hc
      rcases List.mem_cons.mp hc with rfl | hc
      · decide
      · exact number_plain' hlo hhi c hc
  have htext := commandText_front env path info (ns.map (number base)) (by simpa using hparams)
    hfront
  have hsharp : UInt8.ofNat ('#' : Char).toNat = 35 := by decide
  obtain ⟨rest, hsplit, hrest⟩ := splitLine_command path h hplain
    (shellLines info (ns.map (number base) ++ [pathArg env path]))
  have hall : ∀ arg ∈ ns.map (number base) ++ [pathArg env path],
      Char.ofNat 0 ∉ arg ∧ '\n' ∉ arg := by
    intro arg harg
    rcases List.mem_append.mp harg with hmem | hmem
    · obtain ⟨n, -, rfl⟩ := List.mem_map.mp hmem
      exact ⟨fun hmem => absurd (number_plain' hlo hhi _ hmem).1 (by decide),
        fun hmem => (number_plain' hlo hhi _ hmem).2.2 rfl⟩
    · rw [List.mem_singleton.mp hmem]
      exact ⟨pathArg_nul path h, hpath⟩
  obtain ⟨shell, hshell⟩ := splitLine_shell h hinfo.2 hall
  refine ⟨rest, shell, ?_, hrest hpath ▸ hshell⟩
  rw [htext, h.cons_ascii (by decide) (by decide), hsharp, nextLine_skips hstdin,
    ← bytesOf_numbers]
  exact hsplit

lemma info_plain {cmd : Command} (hcmd : cmd = .STOR ∨ cmd = .WRITE ∨ cmd = .CHMOD) :
    (∀ c ∈ (fishInfo CHECKSUM cmd).command.toList, 0 < c.toNat ∧ c.toNat < 128 ∧ c ≠ '\n') ∧
      ∀ c ∈ (fishInfo CHECKSUM cmd).alt.toList, c ≠ Char.ofNat 0 ∧ c ≠ '\n' := by
  rcases hcmd with rfl | rfl | rfl <;>
  · simp only [fishInfo, String.toList_append]
    repeat rw [String.toList_ofList]
    exact ⟨forall_mem_of_all (by decide), forall_mem_of_all (by decide)⟩

theorem reads_STOR (h : EncodesAscii env) (size : ℕ) (hpath : (remoteName env path).isSome)
    {stdin : Bytes} (hstdin : skips true stdin = some true) :
    ∃ line rest shell, nextLine (stdin ++ env.E (commandText (fishInfo env.CHECKSUM .STOR)
        [number 10 size, pathArg env path])) = some (line, rest) ∧
      request line = (remoteName env path).map (.STOR size) ∧
      State.splitLine rest = some (shell, []) := by
  obtain ⟨rest, shell, hnext, hshell⟩ := reads_numbers 10 path h
    (fishInfo env.CHECKSUM .STOR) [size] (by decide) (by decide) rfl (info_plain (by simp)) hpath
    hstdin
  exact ⟨_, rest, shell, hnext, request_STOR env path size, hshell⟩

theorem reads_WRITE (h : EncodesAscii env) (offset size : ℕ)
    (hpath : (remoteName env path).isSome) {stdin : Bytes} (hstdin : skips true stdin = some true) :
    ∃ line rest shell, nextLine (stdin ++ env.E (commandText (fishInfo env.CHECKSUM .WRITE)
        [number 10 offset, number 10 size, pathArg env path])) = some (line, rest) ∧
      request line = (remoteName env path).map (.WRITE offset size) ∧
      State.splitLine rest = some (shell, []) := by
  obtain ⟨rest, shell, hnext, hshell⟩ := reads_numbers 10 path h
    (fishInfo env.CHECKSUM .WRITE) [offset, size] (by decide) (by decide) rfl
    (info_plain (by simp)) hpath hstdin
  exact ⟨_, rest, shell, hnext, request_WRITE env path offset size, hshell⟩

theorem reads_CHMOD (h : EncodesAscii env) (mode : ℕ) (hpath : (remoteName env path).isSome)
    {stdin : Bytes} (hstdin : skips true stdin = some true) :
    ∃ line rest, nextLine (stdin ++ env.E (commandText (fishInfo env.CHECKSUM .CHMOD)
        [number 8 mode, pathArg env path])) = some (line, rest) ∧
      request line = (remoteName env path).map (.CHMOD mode) := by
  obtain ⟨rest, _, hnext, _⟩ := reads_numbers 8 path h (fishInfo env.CHECKSUM .CHMOD) [mode]
    (by decide) (by decide) rfl (info_plain (by simp)) hpath hstdin
  exact ⟨_, rest, hnext, request_CHMOD env path mode⟩

/-! ### Round trip -/

/-- Bytes with backslashes in front of some, and without them. -/
inductive Quoted : Bytes → Bytes → Prop
  | nil : Quoted [] []
  | byte {b : UInt8} {quoted bytes : Bytes} (hb : b ≠ 92 ∧ isBlank b = false)
    (h : Quoted quoted bytes) : Quoted (b :: quoted) (b :: bytes)
  | slash (b : UInt8) {quoted bytes : Bytes} (h : Quoted quoted bytes) :
    Quoted (92 :: b :: quoted) (b :: bytes)

section

variable {quoted bytes : Bytes}

lemma Quoted.append {plain : Bytes} (hplain : ∀ b ∈ plain, b ≠ 92 ∧ isBlank b = false)
    (h : Quoted quoted bytes) : Quoted (plain ++ quoted) (plain ++ bytes) := by
  induction plain with
  | nil => exact h
  | cons b plain ih =>
    obtain ⟨hb, hplain⟩ := List.forall_mem_cons.mp hplain
    exact .byte hb (ih hplain)

lemma Quoted.atoms (h : Quoted quoted bytes) :
    ∃ as, Perl.atoms quoted = some as ∧ as.flatten = quoted ∧ ∀ a ∈ as, a.all isBlank = false := by
  induction h with
  | nil => exact ⟨[], rfl, rfl, by simp⟩
  | @byte b _ _ hb _ ih =>
    obtain ⟨as, has, hflat, hall⟩ := ih
    exact ⟨[b] :: as, by rw [atoms_cons hb.1, has]; rfl, by simp [hflat],
      by simpa [hb.2] using hall⟩
  | slash b _ ih =>
    obtain ⟨as, has, hflat, hall⟩ := ih
    have hslash : isBlank 92 = false := by decide
    exact ⟨[92, b] :: as, by rw [Perl.atoms, if_pos rfl, has]; rfl, by simp [hflat],
      by simpa [hslash] using hall⟩

lemma Quoted.unquote (h : Quoted quoted bytes) : Perl.unquote quoted = bytes := by
  induction h with
  | nil => rfl
  | @byte b quoted _ hb _ ih =>
    cases quoted with
    | nil => rw [← ih]; rfl
    | cons c rest => rw [Perl.unquote, if_neg hb.1, ih]
  | slash b _ ih => rw [Perl.unquote, if_pos rfl, ih]

lemma Quoted.name (h : Quoted quoted bytes) : (blanks (32 :: quoted)).bind name = some bytes := by
  have hfirst : quoted.dropWhile isBlank = quoted := by
    cases h with
    | nil => rfl
    | byte hb _ => simp [hb.2]
    | slash b _ => rfl
  obtain ⟨as, has, hflat, hall⟩ := h.atoms
  have hlast : as.rdropWhile (fun a => a.all isBlank) = as :=
    List.rdropWhile_eq_self_iff.mpr fun hne => by simp [hall _ (List.getLast_mem hne)]
  rw [blanks_space, Option.bind_some, hfirst]
  simp only [Perl.name, lastArgument, has, Option.map_some, hlast, hflat, h.unquote]

variable (hbeyond : ∀ c : Char, 128 ≤ c.toNat → ∀ b ∈ env.E [c], isBlank b = false)

include hbeyond

lemma quoted_escape (h : EncodesAscii env) {text : Text} (hnul : Char.ofNat 0 ∉ text)
    (hplain : ∀ c ∈ text, c.toNat < 10 ∨ 13 < c.toNat) :
    Quoted (env.E (escape text)) (env.E text) := by
  induction text with
  | nil => simpa [escape_eq, h.nil] using Quoted.nil
  | cons c text ih =>
    simp only [List.mem_cons, not_or] at hnul
    have hc : c ≠ Char.ofNat 0 := fun heq => hnul.1 heq.symm
    obtain ⟨hcontrol, hplain⟩ := List.forall_mem_cons.mp hplain
    rw [escape_cons, escapeChar]
    by_cases hrx : c ∈ rx
    · obtain ⟨hpos, hlt⟩ := rx_ascii c hrx
      rw [if_pos hrx, List.cons_append, List.singleton_append, h.cons_ascii (by decide) (by decide),
        h.cons_ascii hpos hlt, h.cons_ascii hpos hlt]
      exact .slash _ (ih hnul.2 hplain)
    · rw [if_neg hrx, List.singleton_append, h.cons hc (escape text), h.cons hc text]
      refine (ih hnul.2 hplain).append fun b hb => ?_
      rcases h.char_cases hc with ⟨hlt, hbytes⟩ | ⟨hge, hbytes⟩
      · have hne : ∀ d ∈ rx, c.toNat ≠ d.toNat := fun d hd heq => hrx <| by
          rwa [← Char.ofNat_toNat c, heq, Char.ofNat_toNat]
        have hslash : c.toNat ≠ 92 := hne '\\' (by decide)
        have hspace : c.toNat ≠ 32 := hne ' ' (by decide)
        have htab : c.toNat ≠ 9 := hne '\t' (by decide)
        rw [hbytes, List.mem_singleton] at hb
        subst hb
        simp [isBlank, ← UInt8.toNat_inj, UInt8.le_iff_toNat_le]
        omega
      · exact ⟨(hbytes b hb).2.2, hbeyond c hge b hb⟩

/-- The name is read back but for the control characters that Perl takes for blanks. -/
lemma remoteName_eq (h : EncodesAscii env) {path : Text}
    (hpath : ∀ c ∈ pathArg env path, c.toNat < 10 ∨ 13 < c.toNat) :
    remoteName env path = some (env.E (pathArg env path)) := by
  have hnul : Char.ofNat 0 ∉ pathArg env path := h.fromUtf8_nul _
  have hescape : Char.ofNat 0 ∉ escape (pathArg env path) := fun hmem =>
    hnul ((mem_escape (by decide)).mp hmem)
  have hline : 10 ∉ env.E (escape (pathArg env path)) := by
    rw [h.mem_newline hescape, mem_escape (by decide)]
    intro hmem
    exact absurd (hpath _ hmem) (by decide)
  have hall : (env.E (escape (pathArg env path))).takeWhile (· ≠ 10) =
      env.E (escape (pathArg env path)) := List.takeWhile_eq_self_iff.mpr fun b hb => by
    simpa using ne_of_mem_of_not_mem hb hline
  rw [remoteName, nameField, hall]
  exact (quoted_escape hbeyond h hnul hpath).name

end

def Request.fn : Request → Bytes
  | .LIST fn | .WRITE _ _ fn | .STOR _ fn | .CHMOD _ fn => fn

/-- What `sendCommand` sends for a request about a path. -/
def commandFor (env : Env) (path : Text) : Request → Text
  | .LIST _ => commandText (fishInfo env.CHECKSUM .LIST) [pathArg env path]
  | .WRITE offset size _ => commandText (fishInfo env.CHECKSUM .WRITE)
      [number 10 offset, number 10 size, pathArg env path]
  | .STOR size _ => commandText (fishInfo env.CHECKSUM .STOR) [number 10 size, pathArg env path]
  | .CHMOD mode _ => commandText (fishInfo env.CHECKSUM .CHMOD) [number 8 mode, pathArg env path]

end Perl

end KioExtras.Fish
