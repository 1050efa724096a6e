import KioExtras.Lib.Simulation
import Mathlib.Data.Int.Notation
import Mathlib.Data.List.Infix
import Mathlib.Tactic.Common

/-!
The fixed-size state of the man page converter and what the requests do to it: the depth of the
lists, the tab stops, the stack of conditions and the buffer of `.Xr`.

All other requests leave this state alone. An access outside of an array, and a pop of an empty
stack, has no result.
-/

namespace KioExtras.Man.Indices

open KioExtras.Lib.Run

/-! ### Arrays -/

section array

variable {α : Type} {n : ℕ}

def readAt (array : Vector α n) (i : ℕ) : Option α := array[i]?

def writeAt (array : Vector α n) (i : ℕ) (value : α) : Option (Vector α n) :=
  if h : i < n then some (array.set i value h) else none

end array

/-! ### The state -/

def BL_DESC_LIST : ℕ := 1
def BL_BULLET_LIST : ℕ := 2
def BL_ENUM_LIST : ℕ := 4

structure State where
  itemdepth : ℕ
  dl_set : Vector ℕ 20
  tabstops : Vector ℤ 20
  maxtstop : ℕ
  s_ifelseval : List Bool

/-- The requests that touch it, with what they have found: the evaluated arguments, the options of
a list, the text behind `.Xr` with its quotes replaced, the column of a tabulator. What stands in
an argument and is a request itself comes before. -/
inductive Label
  | startPage
  | endPage
  /-- also `.Rs` -/
  | RS (j : ℤ)
  /-- also `.Re` -/
  | RE
  /-- also `.SS`, `.Sh` and `.Ss` -/
  | SH
  /-- also `.TP` and `.HP` -/
  | IP
  /-- also `.P` and `.LP` -/
  | PP
  | Bl (list_options : List Char)
  | El
  | It
  /-- each stop, and whether it is relative to the one before -/
  | ta (stops : List (ℤ × Bool))
  | DT
  | tabulator (curpos : ℤ)
  | Xr (c : List Char)
  | ie (i : Bool)
  | el

/-! ### Lists -/

/-- `while (itemdepth || dl_set[itemdepth])` -/
def closeLists : ℕ → Vector ℕ 20 → Option (Vector ℕ 20)
  | 0, dl_set => do
    let open_ ← readAt dl_set 0
    if open_ ≠ 0 then writeAt dl_set 0 0 else some dl_set
  | depth + 1, dl_set => do
    let open_ ← readAt dl_set (depth + 1)
    let dl_set ← if open_ ≠ 0 then writeAt dl_set (depth + 1) 0 else some dl_set
    closeLists depth dl_set

variable (s : State)

def scanSH : Option State := do
  let dl_set ← closeLists s.itemdepth s.dl_set
  some { s with itemdepth := 0, dl_set := dl_set }

def scanRS (j : ℤ) : Option State :=
  if j ≥ 0 then do
    let dl_set ← writeAt s.dl_set (s.itemdepth + 1) 0
    some { s with itemdepth := s.itemdepth + 1, dl_set := dl_set }
  else some s

def scanRE : Option State :=
  if s.itemdepth > 0 then do
    let _ ← readAt s.dl_set s.itemdepth
    some { s with itemdepth := s.itemdepth - 1 }
  else some s

def scanIP : Option State := do
  let open_ ← readAt s.dl_set s.itemdepth
  let dl_set ← if open_ = 0 then writeAt s.dl_set s.itemdepth 1 else some s.dl_set
  some { s with dl_set := dl_set }

def scanPP : Option State := do
  let open_ ← readAt s.dl_set s.itemdepth
  let dl_set ← if open_ ≠ 0 then writeAt s.dl_set s.itemdepth 0 else some s.dl_set
  some { s with dl_set := dl_set }

def listKind (list_options : List Char) : ℕ :=
  if "-bullet".toList <:+: list_options then BL_BULLET_LIST
  else if "-enum".toList <:+: list_options then BL_ENUM_LIST
  else BL_DESC_LIST

def scanBl (list_options : List Char) : Option State := do
  let open_ ← readAt s.dl_set s.itemdepth
  let itemdepth := if open_ ≠ 0 then s.itemdepth + 1 else s.itemdepth
  let dl_set ← writeAt s.dl_set itemdepth (listKind list_options)
  some { s with itemdepth := itemdepth, dl_set := dl_set }

def scanEl : Option State := do
  let _ ← readAt s.dl_set s.itemdepth
  let dl_set ← writeAt s.dl_set s.itemdepth 0
  some { s with itemdepth := s.itemdepth - 1, dl_set := dl_set }

def scanIt : Option State := do
  let _ ← readAt s.dl_set s.itemdepth
  some s

/-! ### Tab stops -/

/-- The stops of `.ta` from the `j`-th on, and how many there are then. -/
def setStops : ℕ → List (ℤ × Bool) → Vector ℤ 20 → Option (ℕ × Vector ℤ 20)
  | j, [], tabstops => some (j, tabstops)
  | j, (stop, relative) :: stops, tabstops => do
    let tabstops ← writeAt tabstops j stop
    let tabstops ←
      if j > 0 ∧ relative = true then do
        let before ← readAt tabstops (j - 1)
        writeAt tabstops j (stop + before)
      else some tabstops
    setStops (j + 1) stops tabstops

def scanTa (stops : List (ℤ × Bool)) : Option State := do
  let (j, tabstops) ← setStops 0 stops s.tabstops
  some { s with tabstops := tabstops, maxtstop := j }

/-- The stops from the `j`-th on, as many as are asked for. -/
def defaultStops : ℕ → ℕ → Vector ℤ 20 → Option (Vector ℤ 20)
  | _, 0, tabstops => some tabstops
  | j, left + 1, tabstops => do
    let tabstops ← writeAt tabstops j ((j + 1) * 8)
    defaultStops (j + 1) left tabstops

def scanDT : Option State := do
  let tabstops ← defaultStops 0 20 s.tabstops
  some { s with tabstops := tabstops, maxtstop := 20 }

/-- `while (curtab < maxtstop && tabstops[curtab] <= curpos)`, with so many stops left. -/
def passStops (tabstops : Vector ℤ 20) (maxtstop : ℕ) (curpos : ℤ) : ℕ → Option ℕ
  | 0 => some maxtstop
  | left + 1 => do
    let stop ← readAt tabstops (maxtstop - (left + 1))
    if stop ≤ curpos then passStops tabstops maxtstop curpos left
    else some (maxtstop - (left + 1))

def scanTabulator (curpos : ℤ) : Option State := do
  let tabstops ← writeAt s.tabstops 19 (curpos + 1)
  let curtab ← passStops tabstops s.maxtstop curpos s.maxtstop
  if curtab < s.maxtstop then do
    let _ ← readAt tabstops curtab
    some { s with tabstops := tabstops }
  else some { s with tabstops := tabstops }

/-! ### The buffer of `.Xr` -/

def MED_STR_MAX : ℕ := 500

def NULL_TERMINATED (n : ℕ) : ℕ := n + 1

def isspace (ch : Char) : Bool :=
  ch = ' ' || ch = '\t' || ch = '\n' || ch = '\x0b' || ch = '\x0c' || ch = '\r'

def inName (ch : Char) : Bool :=
  ch.isAlphanum || ch = '.' || ch = ':' || ch = '_' || ch = '-'

/-- `*bufptr = ch; bufptr++` -/
def put (buff : List Char) (ch : Char) : Option (List Char) :=
  if buff.length < NULL_TERMINATED MED_STR_MAX then some (buff ++ [ch]) else none

def skipSpaces (c : List Char) : List Char := c.dropWhile fun ch => isspace ch && ch ≠ '\n'

/-- Where the buffer is full the character is not passed over. -/
def copyWhile (p : Char → Bool) : List Char → List Char → Option (List Char × List Char)
  | buff, [] => some (buff, [])
  | buff, ch :: c =>
    if p ch = true then do
      let buff ← put buff ch
      if buff.length ≥ MED_STR_MAX then some (buff, ch :: c) else copyWhile p buff c
    else some (buff, ch :: c)

def copySection (buff c : List Char) : Option (List Char × List Char) :=
  if (c.head?.any Char.isDigit) = true then do
    let buff ← put buff '('
    if buff.length < MED_STR_MAX then do
      let (buff, c) ← copyWhile Char.isAlphanum buff c
      if buff.length < MED_STR_MAX then do
        let buff ← put buff ')'
        some (buff, c)
      else some (buff, c)
    else some (buff, c)
  else some (buff, c)

/-- The remainder of the line; where the line has no end the text is left. -/
def copyRemainder : List Char → List Char → Option (List Char)
  | _, [] => none
  | buff, ch :: c =>
    if ch = '\n' then some buff
    else if isspace ch = true then copyRemainder buff c
    else do
      let buff ← put buff ch
      if buff.length ≥ MED_STR_MAX then some buff else copyRemainder buff c

/-- The end of the line and of the string -/
def terminate (buff : List Char) : Option (List Char) := do
  let buff ← put buff '\n'
  put buff '\x00'

/-- `if (*c == '\n') c++` -/
def skipNewline : List Char → List Char
  | '\n' :: c => c
  | c => c

def reference (c : List Char) : Option (List Char) := do
  let (buff, c) ← copyWhile inName [] (skipSpaces (skipNewline c))
  let (buff, c) ← copySection buff (skipSpaces c)
  let buff ← copyRemainder buff c
  terminate buff

/-! ### All requests -/

def step : Label → Option State
  | .startPage => some { s with s_ifelseval := [] }
  | .endPage => do
    let s ← scanSH s
    let tabstops ← defaultStops 0 12 s.tabstops
    some { s with dl_set := Vector.replicate 20 0, tabstops := tabstops, maxtstop := 12 }
  | .RS j => scanRS s j
  | .RE => scanRE s
  | .SH => scanSH s
  | .IP => scanIP s
  | .PP => scanPP s
  | .Bl list_options => scanBl s list_options
  | .El => scanEl s
  | .It => scanIt s
  | .ta stops => scanTa s stops
  | .DT => scanDT s
  | .tabulator curpos => scanTabulator s curpos
  | .Xr c => (reference c).map fun _ => s
  | .ie i => some { s with s_ifelseval := (!i) :: s.s_ifelseval }
  | .el =>
    match s.s_ifelseval with
    | [] => none
    | _ :: rest => some { s with s_ifelseval := rest }

/-- The state of a process that has not converted a page. -/
def initial : State where
  itemdepth := 0
  dl_set := Vector.replicate 20 0
  tabstops := #v[8, 16, 24, 32, 40, 48, 56, 64, 72, 80, 88, 96, 0, 0, 0, 0, 0, 0, 0, 0]
  maxtstop := 12
  s_ifelseval := []

/-! ### What fits into the buffer -/

section buffer

variable {p : Char → Bool} {buff c buff' c' : List Char}

/-- The section as it would stand in a buffer without a size. -/
def section_ (c : List Char) : List Char :=
  if (c.head?.any Char.isDigit) = true then '(' :: (c.takeWhile Char.isAlphanum ++ [')']) else []

def behindSection (c : List Char) : List Char :=
  if (c.head?.any Char.isDigit) = true then c.dropWhile Char.isAlphanum else c

def remainder (c : List Char) : List Char :=
  (c.takeWhile (· ≠ '\n')).filter fun ch => !isspace ch

/-- What stands before the section, without the name. -/
def behindName (c : List Char) : List Char :=
  skipSpaces ((skipSpaces (skipNewline c)).dropWhile inName)

/-- All that a buffer without a size would hold. -/
def copied (c : List Char) : List Char :=
  (skipSpaces (skipNewline c)).takeWhile inName ++ section_ (behindName c) ++
    remainder (behindSection (behindName c))

lemma put_of_lt (h : buff.length < 501) (ch : Char) : put buff ch = some (buff ++ [ch]) :=
  if_pos h

lemma put_grows {ch : Char} (h : put buff ch = some buff') : buff.length ≤ buff'.length := by
  unfold put at h
  split_ifs at h
  obtain rfl := Option.some.inj h
  simp

lemma copyWhile_grows (h : copyWhile p buff c = some (buff', c')) : buff.length ≤ buff'.length := by
  induction c generalizing buff with
  | nil =>
    obtain ⟨rfl, rfl⟩ := Prod.mk.inj (Option.some.inj h)
    exact Nat.le_refl _
  | cons ch c ih =>
    rw [copyWhile] at h
    split_ifs at h with hp
    · obtain ⟨b, hb, hrest⟩ := Option.bind_eq_some_iff.mp h
      split_ifs at hrest with hfull
      · obtain ⟨rfl, rfl⟩ := Prod.mk.inj (Option.some.inj hrest)
        exact put_grows hb
      · exact Nat.le_trans (put_grows hb) (ih hrest)
    · obtain ⟨rfl, rfl⟩ := Prod.mk.inj (Option.some.inj h)
      exact Nat.le_refl _

lemma copySection_grows (h : copySection buff c = some (buff', c')) :
    buff.length ≤ buff'.length := by
  unfold copySection at h
  split_ifs at h with hdigit
  · obtain ⟨b, hb, hrest⟩ := Option.bind_eq_some_iff.mp h
    refine Nat.le_trans (put_grows hb) ?_
    split_ifs at hrest with hroom
    · obtain ⟨⟨d, e⟩, hd, hlast⟩ := Option.bind_eq_some_iff.mp hrest
      refine Nat.le_trans (copyWhile_grows hd) ?_
      dsimp only at hlast
      split_ifs at hlast
      · obtain ⟨f, hf, heq⟩ := Option.bind_eq_some_iff.mp hlast
        obtain ⟨rfl, rfl⟩ := Prod.mk.inj (Option.some.inj heq)
        exact put_grows hf
      · obtain ⟨rfl, rfl⟩ := Prod.mk.inj (Option.some.inj hlast)
        exact Nat.le_refl _
    · obtain ⟨rfl, rfl⟩ := Prod.mk.inj (Option.some.inj hrest)
      exact Nat.le_refl _
  · obtain ⟨rfl, rfl⟩ := Prod.mk.inj (Option.some.inj h)
    exact Nat.le_refl _

lemma copyRemainder_grows (h : copyRemainder buff c = some buff') : buff.length ≤ buff'.length := by
  induction c generalizing buff with
  | nil => cases h
  | cons ch c ih =>
    rw [copyRemainder] at h
    split_ifs at h
    · exact Nat.le_of_eq (congrArg List.length (Option.some.inj h))
    · exact ih h
    · obtain ⟨b, hb, hrest⟩ := Option.bind_eq_some_iff.mp h
      refine Nat.le_trans (put_grows hb) ?_
      split_ifs at hrest
      · exact Nat.le_of_eq (congrArg List.length (Option.some.inj hrest))
      · exact ih hrest

lemma terminate_isSome : (terminate buff).isSome ↔ buff.length < 500 := by
  unfold terminate
  rcases Nat.lt_or_ge buff.length 501 with hlt | hge
  · rw [put_of_lt hlt]
    simp only [Option.bind_eq_bind, Option.bind_some, put, NULL_TERMINATED, MED_STR_MAX]
    split_ifs with h <;> simp at h ⊢ <;> omega
  · have hnone : put buff '\n' = none := if_neg (Nat.not_lt.mpr hge)
    simp [hnone]
    omega

lemma copyWhile_room (h : buff.length + (c.takeWhile p).length < 500) :
    copyWhile p buff c = some (buff ++ c.takeWhile p, c.dropWhile p) := by
  induction c generalizing buff with
  | nil => simp [copyWhile]
  | cons ch c ih =>
    cases hp : p ch with
    | false => simp [copyWhile, hp]
    | true =>
      simp only [List.takeWhile_cons, hp, if_true, List.length_cons] at h
      have hnext := @ih (buff ++ [ch]) (by simp; omega)
      have hroom : ¬ (buff ++ [ch]).length ≥ MED_STR_MAX := by
        simp [MED_STR_MAX]
        omega
      rw [copyWhile, if_pos hp, put_of_lt (by omega)]
      simp only [Option.bind_eq_bind, Option.bind_some, if_neg hroom, hnext, hp,
        List.takeWhile_cons, List.dropWhile_cons, if_true]
      simp

lemma copyWhile_full (hb : buff.length < 500) (h : 500 ≤ buff.length + (c.takeWhile p).length) :
    ∀ r, copyWhile p buff c = some r → 500 ≤ r.1.length := by
  induction c generalizing buff with
  | nil => simp at h; omega
  | cons ch c ih =>
    cases hp : p ch with
    | false => simp [hp] at h; omega
    | true =>
      intro r hr
      simp only [List.takeWhile_cons, hp, if_true, List.length_cons] at h
      rw [copyWhile, if_pos hp, put_of_lt (by omega)] at hr
      simp only [Option.bind_eq_bind, Option.bind_some] at hr
      split_ifs at hr with hfull
      · obtain rfl := Option.some.inj hr
        exact hfull
      · refine ih (Nat.not_le.mp hfull) ?_ r hr
        simp
        omega

lemma copySection_room (h : buff.length + (section_ c).length < 500) :
    copySection buff c = some (buff ++ section_ c, behindSection c) := by
  unfold section_ at h
  unfold copySection section_ behindSection
  split_ifs at h ⊢ with hdigit
  · simp only [List.length_cons, List.length_append, List.length_nil] at h
    have hopen : (buff ++ ['(']).length < MED_STR_MAX := by
      simp [MED_STR_MAX]
      omega
    have hcopy : copyWhile Char.isAlphanum (buff ++ ['(']) c =
        some (buff ++ ['('] ++ c.takeWhile Char.isAlphanum, c.dropWhile Char.isAlphanum) :=
      copyWhile_room (by simp; omega)
    have hroom : (buff ++ ['('] ++ c.takeWhile Char.isAlphanum).length < MED_STR_MAX := by
      simp [MED_STR_MAX]
      omega
    have hclose := put_of_lt (Nat.lt_trans hroom (show MED_STR_MAX < 501 by decide)) ')'
    rw [put_of_lt (by omega)]
    simp only [Option.bind_eq_bind, Option.bind_some, if_pos hopen, hcopy, if_pos hroom, hclose]
    simp
  · simp

lemma copySection_full (hb : buff.length < 500) (h : 500 ≤ buff.length + (section_ c).length) :
    ∀ r, copySection buff c = some r → 500 ≤ r.1.length := by
  intro r hr
  unfold section_ at h
  unfold copySection at hr
  split_ifs at h hr with hdigit
  · simp only [List.length_cons, List.length_append, List.length_nil] at h
    rw [put_of_lt (by omega)] at hr
    simp only [Option.bind_eq_bind, Option.bind_some] at hr
    split_ifs at hr with hopen
    · obtain ⟨⟨d, e⟩, hd, hlast⟩ := Option.bind_eq_some_iff.mp hr
      dsimp only at hlast
      split_ifs at hlast with hroom
      · -- only the closing bracket fills the buffer
        have hlen : (buff ++ ['(']).length + (c.takeWhile Char.isAlphanum).length < 500 := by
          by_contra hge
          exact absurd (copyWhile_full hopen (Nat.not_lt.mp hge) _ hd) (Nat.not_le.mpr hroom)
        rw [copyWhile_room hlen] at hd
        obtain ⟨rfl, rfl⟩ := Prod.mk.inj (Option.some.inj hd)
        rw [put_of_lt (Nat.lt_trans hroom (by decide))] at hlast
        obtain rfl := Option.some.inj hlast
        simp
        omega
      · obtain rfl := Option.some.inj hlast
        exact Nat.not_lt.mp hroom
    · obtain rfl := Option.some.inj hr
      exact Nat.not_lt.mp hopen
  · simp at h
    omega

lemma copyRemainder_room (hend : '\n' ∈ c) (h : buff.length + (remainder c).length < 500) :
    copyRemainder buff c = some (buff ++ remainder c) := by
  induction c generalizing buff with
  | nil => cases hend
  | cons ch c ih =>
    by_cases hch : ch = '\n'
    · simp [copyRemainder, remainder, hch]
    · have hrest : '\n' ∈ c := (List.mem_cons.mp hend).resolve_left (Ne.symm hch)
      rw [copyRemainder, if_neg hch]
      cases hspace : isspace ch with
      | true =>
        have heq : remainder (ch :: c) = remainder c := by simp [remainder, hch, hspace]
        rw [if_pos rfl, heq]
        exact ih hrest (heq ▸ h)
      | false =>
        have heq : remainder (ch :: c) = ch :: remainder c := by simp [remainder, hch, hspace]
        rw [heq, List.length_cons] at h
        have hroom : ¬ (buff ++ [ch]).length ≥ MED_STR_MAX := by
          simp [MED_STR_MAX]
          omega
        rw [if_neg (by simp), put_of_lt (by omega), heq]
        simp only [Option.bind_eq_bind, Option.bind_some, if_neg hroom]
        rw [ih hrest (by simp; omega)]
        simp

lemma copyRemainder_full (hb : buff.length < 500)
    (h : '\n' ∈ c → 500 ≤ buff.length + (remainder c).length) :
    ∀ r, copyRemainder buff c = some r → 500 ≤ r.length := by
  induction c generalizing buff with
  | nil => exact nofun
  | cons ch c ih =>
    intro r hr
    by_cases hch : ch = '\n'
    · have hlen := h (by simp [hch])
      simp [remainder, hch] at hlen
      omega
    · rw [copyRemainder, if_neg hch] at hr
      cases hspace : isspace ch with
      | true =>
        have heq : remainder (ch :: c) = remainder c := by simp [remainder, hch, hspace]
        rw [if_pos hspace] at hr
        rw [heq] at h
        exact ih hb (fun hmem => h (List.mem_cons_of_mem ch hmem)) r hr
      | false =>
        have heq : remainder (ch :: c) = ch :: remainder c := by simp [remainder, hch, hspace]
        rw [heq, List.length_cons] at h
        rw [if_neg (by simp [hspace]), put_of_lt (by omega)] at hr
        simp only [Option.bind_eq_bind, Option.bind_some] at hr
        split_ifs at hr with hfull
        · obtain rfl := Option.some.inj hr
          exact hfull
        · refine ih (Nat.not_le.mp hfull) (fun hmem => ?_) r hr
          have hlen := h (List.mem_cons_of_mem ch hmem)
          simp
          omega

/-- The text behind the name of the request has a line in it that ends. -/
def HasLine (c : List Char) : Prop := '\n' ∈ skipNewline c

lemma newline_mem_dropWhile {p : Char → Bool} (hp : p '\n' = false) :
    '\n' ∈ c.dropWhile p ↔ '\n' ∈ c := by
  induction c with
  | nil => rfl
  | cons ch c ih =>
    cases hch : p ch with
    | false => simp [hch]
    | true =>
      have hne : '\n' ≠ ch := by
        rintro rfl
        exact absurd hch (by simp [hp])
      simp [hch, ih, hne]

lemma newline_mem_skipSpaces : '\n' ∈ skipSpaces c ↔ '\n' ∈ c :=
  newline_mem_dropWhile (by decide)

lemma newline_mem_behindName : '\n' ∈ behindName c ↔ HasLine c := by
  rw [behindName, newline_mem_skipSpaces, newline_mem_dropWhile (by decide),
    newline_mem_skipSpaces, HasLine]

lemma newline_mem_behindSection : '\n' ∈ behindSection c ↔ '\n' ∈ c := by
  unfold behindSection
  split_ifs
  · exact newline_mem_dropWhile (by decide)
  · rfl

/-- A reference is copied inside of the buffer just where all of it, with the end of the line and
the terminator, has room. -/
theorem reference_isSome (c : List Char) :
    (reference c).isSome ↔ HasLine c ∧ (copied c).length < 500 := by
  have hline : '\n' ∈ behindSection (behindName c) ↔ HasLine c :=
    newline_mem_behindSection.trans newline_mem_behindName
  unfold reference copied
  simp only [List.length_append]
  by_cases hname : ((skipSpaces (skipNewline c)).takeWhile inName).length < 500
  · rw [copyWhile_room (by simpa using hname)]
    simp only [Option.bind_eq_bind, Option.bind_some, List.nil_append]
    rw [show skipSpaces ((skipSpaces (skipNewline c)).dropWhile inName) = behindName c from rfl]
    generalize (skipSpaces (skipNewline c)).takeWhile inName = name at hname ⊢
    generalize behindName c = d at hline ⊢
    by_cases hsection : name.length + (section_ d).length < 500
    · rw [copySection_room hsection]
      simp only [Option.bind_some]
      by_cases hall : HasLine c ∧
          name.length + (section_ d).length + (remainder (behindSection d)).length < 500
      · have hcopy : copyRemainder (name ++ section_ d) (behindSection d) =
            some (name ++ section_ d ++ remainder (behindSection d)) :=
          copyRemainder_room (hline.mpr hall.1) (by simpa using hall.2)
        simp only [hcopy, Option.bind_some, terminate_isSome, List.length_append, hall, and_self]
      · have hlen : (name ++ section_ d).length < 500 := by simpa using hsection
        have hfull := copyRemainder_full (c := behindSection d) hlen fun hmem => by
          by_contra hlt
          refine hall ⟨hline.mp hmem, ?_⟩
          simp at hlt
          omega
        simp only [hall, iff_false]
        cases hr : copyRemainder (name ++ section_ d) (behindSection d) with
        | none => simp
        | some r =>
          have hlen := hfull r hr
          rw [Option.bind_some, terminate_isSome]
          omega
    · have hno : ¬ (HasLine c ∧
          name.length + (section_ d).length + (remainder (behindSection d)).length < 500) := by
        omega
      simp only [hno, iff_false]
      cases hr : copySection name d with
      | none => simp
      | some r =>
        have hlen := copySection_full hname (Nat.not_lt.mp hsection) r hr
        rw [Option.bind_some]
        cases hr' : copyRemainder r.1 r.2 with
        | none => simp
        | some b =>
          have hgrows := copyRemainder_grows hr'
          rw [Option.bind_some, terminate_isSome]
          omega
  · have hno : ¬ (HasLine c ∧ ((skipSpaces (skipNewline c)).takeWhile inName).length +
        (section_ (behindName c)).length +
        (remainder (behindSection (behindName c))).length < 500) := by
      omega
    simp only [hno, iff_false, Option.bind_eq_bind]
    cases hr : copyWhile inName [] (skipSpaces (skipNewline c)) with
    | none => simp
    | some r =>
      have hlen := copyWhile_full (by simp) (by simpa using hname) r hr
      rw [Option.bind_some]
      cases hr' : copySection r.1 (skipSpaces r.2) with
      | none => simp
      | some r' =>
        have hsection := @copySection_grows _ _ r'.1 r'.2 hr'
        rw [Option.bind_some]
        cases hr'' : copyRemainder r'.1 r'.2 with
        | none => simp
        | some b =>
          have hgrows := copyRemainder_grows hr''
          rw [Option.bind_some, terminate_isSome]
          omega

end buffer

/-! ### What each request leaves in range -/

/-- The open lists and the tab stops are inside of their arrays. -/
structure InRange (s : State) : Prop where
  itemdepth_lt : s.itemdepth < 20
  maxtstop_le : s.maxtstop ≤ 20

/-- What a request needs: no more lists than the array holds, no more tab stops, a reference that
fits into the buffer, and for `.el` an `.ie` that waits for it. -/
def Fits : Label → Prop
  | .RS j => 0 ≤ j → s.itemdepth + 1 < 20
  | .Bl _ => s.dl_set[s.itemdepth]? ≠ some 0 → s.itemdepth + 1 < 20
  | .ta stops => stops.length ≤ 20
  | .Xr c => HasLine c ∧ (copied c).length < 500
  | .el => s.s_ifelseval ≠ []
  | _ => True

/-- A request that goes through, and leaves the state in range. -/
def Keeps (x : Option State) : Prop := ∃ t, x = some t ∧ InRange t

section

variable {α : Type} {n : ℕ} {array : Vector α n} {i : ℕ}

lemma readAt_lt (array : Vector α n) (h : i < n) : ∃ value, readAt array i = some value :=
  ⟨array[i], Vector.getElem?_eq_getElem h⟩

lemma writeAt_lt (h : i < n) (value : α) : writeAt array i value = some (array.set i value h) :=
  dif_pos h

lemma writeAt_ge (h : n ≤ i) (value : α) : writeAt array i value = none :=
  dif_neg (Nat.not_lt.mpr h)

end

lemma closeLists_isSome {depth : ℕ} (h : depth < 20) (dl_set : Vector ℕ 20) :
    ∃ closed, closeLists depth dl_set = some closed := by
  induction depth generalizing dl_set with
  | zero =>
    obtain ⟨value, hvalue⟩ := readAt_lt dl_set h
    rw [closeLists, hvalue]
    simp only [Option.bind_eq_bind, Option.bind_some]
    split_ifs
    · exact ⟨_, writeAt_lt h 0⟩
    · exact ⟨dl_set, rfl⟩
  | succ depth ih =>
    obtain ⟨value, hvalue⟩ := readAt_lt dl_set h
    rw [closeLists, hvalue]
    simp only [Option.bind_eq_bind, Option.bind_some]
    split_ifs
    · rw [writeAt_lt h]
      exact ih (by omega) _
    · exact ih (by omega) _

lemma setStops_iff (stops : List (ℤ × Bool)) (j : ℕ) (hj : j ≤ 20) (tabstops : Vector ℤ 20) :
    (∃ r, setStops j stops tabstops = some (j + stops.length, r)) ∧ j + stops.length ≤ 20 ∨
      setStops j stops tabstops = none ∧ 20 < j + stops.length := by
  induction stops generalizing j tabstops with
  | nil => exact Or.inl ⟨⟨tabstops, rfl⟩, hj⟩
  | cons stop stops ih =>
    obtain ⟨value, relative⟩ := stop
    rw [List.length_cons]
    rcases Nat.lt_or_ge j 20 with hlt | hge
    · have hstep : ∃ t, setStops j ((value, relative) :: stops) tabstops =
          setStops (j + 1) stops t := by
        rw [setStops, writeAt_lt hlt]
        simp only [Option.bind_eq_bind, Option.bind_some]
        split_ifs
        · obtain ⟨before, hbefore⟩ :=
            readAt_lt (tabstops.set j value hlt) (i := j - 1) (by omega)
          rw [hbefore]
          simp only [Option.bind_some, writeAt_lt hlt]
          exact ⟨_, rfl⟩
        · exact ⟨_, rfl⟩
      obtain ⟨t, ht⟩ := hstep
      rw [ht, show j + (stops.length + 1) = j + 1 + stops.length by omega]
      exact ih (j + 1) hlt t
    · refine Or.inr ⟨?_, by omega⟩
      rw [setStops, writeAt_ge hge]
      rfl

lemma defaultStops_isSome {j left : ℕ} (h : j + left ≤ 20) (tabstops : Vector ℤ 20) :
    ∃ t, defaultStops j left tabstops = some t := by
  induction left generalizing j tabstops with
  | zero => exact ⟨tabstops, rfl⟩
  | succ left ih =>
    rw [defaultStops, writeAt_lt (by omega)]
    exact ih (by omega) _

lemma passStops_isSome (tabstops : Vector ℤ 20) {maxtstop left : ℕ} (h : maxtstop ≤ 20)
    (hleft : left ≤ maxtstop) (curpos : ℤ) :
    ∃ curtab, passStops tabstops maxtstop curpos left = some curtab := by
  induction left with
  | zero => exact ⟨maxtstop, rfl⟩
  | succ left ih =>
    obtain ⟨stop, hstop⟩ :=
      readAt_lt tabstops (i := maxtstop - (left + 1)) (by omega)
    rw [passStops, hstop]
    simp only [Option.bind_eq_bind, Option.bind_some]
    split_ifs
    · exact ih (by omega)
    · exact ⟨_, rfl⟩

section

variable {s : State}

lemma InRange.scanSH (h : InRange s) : Keeps (scanSH s) := by
  obtain ⟨closed, hclosed⟩ := closeLists_isSome h.itemdepth_lt s.dl_set
  rw [Indices.scanSH, hclosed]
  exact ⟨_, rfl, by change 0 < 20; decide, h.maxtstop_le⟩

lemma InRange.scanRS (h : InRange s) {j : ℤ} (hfits : Fits s (.RS j)) : Keeps (scanRS s j) := by
  unfold Indices.scanRS
  split_ifs with hj
  · have hlt := hfits hj
    rw [writeAt_lt hlt]
    exact ⟨_, rfl, hlt, h.maxtstop_le⟩
  · exact ⟨s, rfl, h⟩

lemma InRange.scanRE (h : InRange s) : Keeps (scanRE s) := by
  have hlt := h.itemdepth_lt
  unfold Indices.scanRE
  split_ifs
  · obtain ⟨value, hvalue⟩ := readAt_lt s.dl_set hlt
    rw [hvalue]
    exact ⟨_, rfl, show s.itemdepth - 1 < 20 by omega, h.maxtstop_le⟩
  · exact ⟨s, rfl, h⟩

lemma InRange.setList (h : InRange s) (p : ℕ → Prop) [DecidablePred p] (kind : ℕ) :
    Keeps (do
      let open_ ← readAt s.dl_set s.itemdepth
      let dl_set ← if p open_ then writeAt s.dl_set s.itemdepth kind else some s.dl_set
      some { s with dl_set := dl_set }) := by
  have hlt := h.itemdepth_lt
  obtain ⟨value, hvalue⟩ := readAt_lt s.dl_set hlt
  rw [hvalue]
  simp only [Option.bind_eq_bind, Option.bind_some]
  split_ifs
  · rw [writeAt_lt hlt]
    exact ⟨_, rfl, hlt, h.maxtstop_le⟩
  · exact ⟨_, rfl, hlt, h.maxtstop_le⟩

lemma InRange.scanBl (h : InRange s) {list_options : List Char}
    (hfits : Fits s (.Bl list_options)) : Keeps (scanBl s list_options) := by
  have hlt := h.itemdepth_lt
  obtain ⟨value, hvalue⟩ := readAt_lt s.dl_set hlt
  have hget : s.dl_set[s.itemdepth]? = some value := hvalue
  rw [Indices.scanBl, hvalue]
  simp only [Option.bind_eq_bind, Option.bind_some]
  have hdepth : (if value ≠ 0 then s.itemdepth + 1 else s.itemdepth) < 20 := by
    split_ifs with hopen
    · exact hfits (by rw [hget]; simpa using hopen)
    · exact hlt
  rw [writeAt_lt hdepth]
  exact ⟨_, rfl, hdepth, h.maxtstop_le⟩

lemma InRange.scanEl (h : InRange s) : Keeps (scanEl s) := by
  have hlt := h.itemdepth_lt
  obtain ⟨value, hvalue⟩ := readAt_lt s.dl_set hlt
  rw [Indices.scanEl, hvalue]
  simp only [Option.bind_eq_bind, Option.bind_some, writeAt_lt hlt]
  exact ⟨_, rfl, show s.itemdepth - 1 < 20 by omega, h.maxtstop_le⟩

lemma InRange.scanIt (h : InRange s) : Keeps (scanIt s) := by
  obtain ⟨value, hvalue⟩ := readAt_lt s.dl_set h.itemdepth_lt
  rw [Indices.scanIt, hvalue]
  exact ⟨s, rfl, h⟩

lemma InRange.scanTa (h : InRange s) {stops : List (ℤ × Bool)} (hfits : Fits s (.ta stops)) :
    Keeps (scanTa s stops) := by
  have hlen : stops.length ≤ 20 := hfits
  rcases setStops_iff stops 0 (Nat.zero_le _) s.tabstops with ⟨⟨r, hr⟩, -⟩ | ⟨-, hmany⟩
  · rw [Indices.scanTa, hr]
    exact ⟨_, rfl, h.itemdepth_lt, show 0 + stops.length ≤ 20 by omega⟩
  · omega

lemma InRange.scanDT (h : InRange s) : Keeps (scanDT s) := by
  obtain ⟨t, ht⟩ := defaultStops_isSome (show 0 + 20 ≤ 20 by decide) s.tabstops
  rw [Indices.scanDT, ht]
  exact ⟨_, rfl, h.itemdepth_lt, Nat.le_refl _⟩

lemma InRange.scanTabulator (h : InRange s) (curpos : ℤ) : Keeps (scanTabulator s curpos) := by
  have hmax := h.maxtstop_le
  rw [Indices.scanTabulator, writeAt_lt (by decide)]
  simp only [Option.bind_eq_bind, Option.bind_some]
  obtain ⟨curtab, hcurtab⟩ := passStops_isSome (s.tabstops.set 19 (curpos + 1))
    hmax (Nat.le_refl _) curpos
  rw [hcurtab]
  simp only [Option.bind_some]
  split_ifs with hlt
  · obtain ⟨stop, hstop⟩ :=
      readAt_lt (s.tabstops.set 19 (curpos + 1)) (i := curtab) (by omega)
    rw [hstop]
    exact ⟨_, rfl, h.itemdepth_lt, hmax⟩
  · exact ⟨_, rfl, h.itemdepth_lt, hmax⟩

lemma InRange.endPage (h : InRange s) : Keeps (step s .endPage) := by
  obtain ⟨t, ht, hi⟩ := h.scanSH
  obtain ⟨tabstops, htabstops⟩ :=
    defaultStops_isSome (show 0 + 12 ≤ 20 by decide) t.tabstops
  simp only [step, ht, htabstops, Option.bind_eq_bind, Option.bind_some]
  exact ⟨_, rfl, hi.itemdepth_lt, show 12 ≤ 20 by decide⟩

lemma InRange.step (h : InRange s) {l : Label} (hfits : Fits s l) : Keeps (step s l) := by
  cases l with
  | startPage => exact ⟨_, rfl, h.itemdepth_lt, h.maxtstop_le⟩
  | endPage => exact h.endPage
  | RS j => exact h.scanRS hfits
  | RE => exact h.scanRE
  | SH => exact h.scanSH
  | IP => exact h.setList (· = 0) 1
  | PP => exact h.setList (· ≠ 0) 0
  | Bl list_options => exact h.scanBl hfits
  | El => exact h.scanEl
  | It => exact h.scanIt
  | ta stops => exact h.scanTa hfits
  | DT => exact h.scanDT
  | tabulator curpos => exact h.scanTabulator curpos
  | Xr c =>
    obtain ⟨buff, hbuff⟩ := Option.isSome_iff_exists.mp ((reference_isSome c).mpr hfits)
    exact ⟨s, by simp [Indices.step, hbuff], h⟩
  | ie i => exact ⟨_, rfl, h.itemdepth_lt, h.maxtstop_le⟩
  | el =>
    cases hstack : s.s_ifelseval with
    | nil => exact absurd hstack hfits
    | cons i rest =>
      simp only [Indices.step, hstack]
      exact ⟨_, rfl, h.itemdepth_lt, h.maxtstop_le⟩

lemma InRange.step_none (h : InRange s) {l : Label} (hfits : ¬ Fits s l) :
    Indices.step s l = none := by
  cases l with
  | RS j =>
    obtain ⟨hj, hlt⟩ := Classical.not_imp.mp hfits
    simp only [Indices.step, Indices.scanRS, ge_iff_le, hj, if_true,
      writeAt_ge (Nat.not_lt.mp hlt)]
    rfl
  | Bl list_options =>
    obtain ⟨hopen, hlt⟩ := Classical.not_imp.mp hfits
    obtain ⟨value, hvalue⟩ := readAt_lt s.dl_set h.itemdepth_lt
    have hget : s.dl_set[s.itemdepth]? = some value := hvalue
    have hne : value ≠ 0 := by
      rintro rfl
      exact hopen hget
    simp only [Indices.step, Indices.scanBl, hvalue, Option.bind_eq_bind, Option.bind_some, ne_eq,
      hne, not_false_eq_true, if_true, writeAt_ge (Nat.not_lt.mp hlt)]
    rfl
  | ta stops =>
    have hmany : ¬ stops.length ≤ 20 := hfits
    rcases setStops_iff stops 0 (Nat.zero_le _) s.tabstops with ⟨-, hle⟩ | ⟨hnone, -⟩
    · omega
    · simp only [Indices.step, Indices.scanTa, hnone]
      rfl
  | Xr c =>
    have hnone : reference c = none := by
      rw [← Option.not_isSome_iff_eq_none, reference_isSome]
      exact hfits
    simp [Indices.step, hnone]
  | el =>
    have hempty : s.s_ifelseval = [] := Classical.not_not.mp hfits
    simp only [Indices.step, hempty]
  | startPage | endPage | RE | SH | IP | PP | El | It | DT | tabulator | ie =>
    exact absurd trivial hfits

end

lemma inRange_initial : InRange initial := ⟨by decide, by decide⟩

/-- Every access of the run is inside of its array, and so are the indices it leaves. -/
def StaysInside (ls : List Label) : Prop := ∃ s, run step initial ls = some s ∧ InRange s

/-- **Indices**: the requests of any number of pages stay inside of all arrays if and only if each
of them fits where it comes. -/
theorem staysInside_iff (ls : List Label) : StaysInside ls ↔ AllSteps step Fits initial ls :=
  run_progress_iff (fun _ _ h => h.step) (fun _ _ h => h.step_none) inRange_initial ls

/-- An `.el` without an `.ie`. -/
theorem else_without_if : ¬ ∀ ls, StaysInside ls := by
  intro h
  obtain ⟨s, hs, -⟩ := h [.startPage, .el]
  cases hs

end KioExtras.Man.Indices
