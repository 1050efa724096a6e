import KioExtras.Fish.Session

/-!
Lines that are not what `LIST` and `STAT` should answer. A line is read at fixed places, which it
need not have, and it counts as an error if it is not read to the end; the places that are not
looked at hold anything.
-/

namespace KioExtras.Fish

open KioExtras.Kio Text State

namespace Malformed

/-! ### The lines of a listing -/

def isNumber (s : Text) : Bool := !s.isEmpty && s.all Char.isDigit

/-- `<unix permissions> <owner>.<group>`, or with a colon. -/
def isAccess (s : Text) : Bool :=
  match s with
  | kind :: s =>
    "-dcblps".toList.contains kind && (s.take 9).length == 9 &&
      (s.take 9).all ("rwxsStT-".toList.contains ·) && (s.drop 9).head? == some ' ' &&
      (s.drop 10).any (".:".toList.contains ·)
  | [] => false

/-- `<3-letters month name> <day> <year or HH:MM>`. -/
def isLsTime (s : Text) : Bool :=
  match s.splitOn ' ' with
  | [month, day, timeyear] =>
    monthNames.contains month && isNumber day && (timeyear.splitOn ':').all isNumber
  | _ => false

/-- `<year> <month> <day> <hour> <minute> <second>[.1234]`. -/
def isTime (s : Text) : Bool :=
  match s.splitOn ' ' with
  | [year, month, day, hour, minute, second] =>
    [year, month, day, hour, minute].all isNumber && (second.splitOn '.').all isNumber
  | _ => false

/-- `<major-of-device>,<minor>`. -/
def isDevice (s : Text) : Bool := (s.splitOn ',').length == 2 && (s.splitOn ',').all isNumber

/-- A line as a listing should have it: the number of entries, a field of an entry, or the end of
an entry. -/
def wellFormed (line : Text) : Bool :=
  match line with
  | [] => true
  | c :: s =>
    if c.isDigit then isNumber line
    else if c = 'P' then isAccess s
    else if c = 'd' then isLsTime s
    else if c = 'D' then isTime s
    else if c = 'S' then isNumber s
    else if c = 'E' then isDevice s
    else if c = ':' then !s.isEmpty
    else if c = 'M' then s.contains '/'
    else if c = 'L' then !s.isEmpty
    else false

/-! ### What is looked at -/

def length (line : Text) : ℕ := (line.map fun c => if c.toNat < 0x10000 then 1 else 2).sum

/-- The type that a line `P` has at its second place. -/
def hasType (line : Text) : Bool :=
  let line := units 12 line
  at' 1 line = 'd' || (fileType (at' 1 line)).isSome

/-- The places of a line that `line[i]` stands for. -/
def accessed (line : Text) : List ℕ :=
  match units 1 line with
  | [] => []
  | c :: s =>
    if cell c = 'P' then 0 :: 1 :: if hasType (c :: s) then [2, 3, 4, 5, 6, 7, 8, 9, 10] else []
    else [0]

/-- The line is read to its end. -/
def accepted (line : Text) : Bool :=
  match units 1 line with
  | [] => true
  | c :: s =>
    let line := c :: s
    if (cell c).isDigit then 0 < (toLongLong line).getD 0
    else if cell c = 'P' then hasType line && (indexOf ':' 12 (units 12 line)).isSome
    else if cell c = 'd' then
      ((indexOf ' ' 0 line).bind fun pos => indexOf ' ' (pos + 1) line).isSome
    else if cell c = 'D' then
      ((threeInts 1 line true).bind fun (_, _, _, pos) => threeInts (pos + 1) line false).isSome
    else if cell c = 'S' then (toLongLong (line.drop 1)).isSome
    else "E:ML".toList.contains (cell c)

/-- A line `P` that is too short: the type is looked at, and where it is one, so are the nine
places of the permissions. -/
def short (line : Text) : Bool :=
  match units 1 line with
  | [] => false
  | c :: s => cell c = 'P' && length line < if hasType (c :: s) then 11 else 2

/-- A line of output, which the lines that begin with `### ` are not. -/
def isOutput (line : Text) : Bool := !startsWith "### ".toList line

/-- The lines of an answer before its end: output, and `### 100`. -/
def goesOn (line : Text) : Bool := isOutput line || startsWith "### 100".toList line

/-- What an answer should have of a line that is no part of a listing: an error. -/
def malformed (line : Text) : Bool := isOutput line && !wellFormed line

/-- What counts as an error. -/
def refused (line : Text) : Bool := isOutput line && !accepted line

section lines

variable {env : Env} {s : State} {line : Text}

lemma length_pos {line : Text} (h : line ≠ []) : 0 < length line := by
  cases line with
  | nil => exact absurd rfl h
  | cons c s =>
    unfold length
    rw [List.map_cons, List.sum_cons]
    split <;> omega

lemma units_ne_nil {c : Char} {s : Text} (h : units 1 line = c :: s) : line ≠ [] := by
  rintro rfl
  exact nomatch h

lemma accessed_inside_iff : (∀ i ∈ accessed line, i < length line) ↔ short line = false := by
  unfold accessed short
  cases hunits : units 1 line with
  | nil => simp
  | cons c s =>
    have hpos := length_pos (units_ne_nil hunits)
    dsimp only
    by_cases hP : cell c = 'P'
    · rw [if_pos hP, decide_eq_true hP, Bool.true_and, decide_eq_false_iff_not, not_lt]
      cases hasType (c :: s) with
      | true =>
        constructor
        · exact fun h => h 10 (by simp)
        · intro h i hi
          have hle : i ≤ 10 := by
            simp only [if_true, List.mem_cons, List.not_mem_nil, or_false] at hi
            omega
          simp only [if_true] at h
          omega
      | false =>
        simp only [Bool.false_eq_true, if_false, List.forall_mem_cons, List.not_mem_nil,
          IsEmpty.forall_iff, implies_true, and_true]
        omega
    · rw [if_neg hP]
      refine iff_of_true (fun i hi => ?_) ?_
      · rw [List.mem_singleton.mp hi]
        exact hpos
      · rw [decide_eq_false hP, Bool.false_and]

/-! ### The count -/

/-- What the count is lowered by. -/
def taken (b : Bool) : ℤ := if b = true then 1 else 0

lemma lineAccess_count (s : State) (line : Text) :
    (s.lineAccess line).errorCount = s.errorCount + 1 - taken (indexOf ':' 12 line).isSome := by
  unfold lineAccess
  cases indexOf ':' 12 line with
  | none => simp [taken]
  | some pos => simp [taken]

lemma lineP_count (s : State) (line : Text) :
    (s.lineP line).errorCount =
      s.errorCount - taken (hasType line && (indexOf ':' 12 (units 12 line)).isSome) := by
  unfold lineP hasType
  dsimp only
  split_ifs with hdir
  · rw [lineAccess_count]
    simp [hdir]
  · cases htype : fileType (at' 1 (units 12 line)) with
    | some type =>
      dsimp only
      rw [lineAccess_count]
      simp
    | none => simp [hdir, taken]

lemma lineLsTime_count (env : Env) (s : State) (line : Text) :
    (s.lineLsTime env line).errorCount = s.errorCount -
      taken ((indexOf ' ' 0 line).bind fun pos => indexOf ' ' (pos + 1) line).isSome := by
  unfold lineLsTime
  cases indexOf ' ' 0 line with
  | none => simp [taken]
  | some pos =>
    dsimp only
    cases hpos : indexOf ' ' (pos + 1) line with
    | none => simp [taken, hpos]
    | some pos2 => simp [taken, hpos]

lemma lineTime_count (env : Env) (s : State) (line : Text) :
    (s.lineTime env line).errorCount = s.errorCount - taken ((threeInts 1 line true).bind
      fun (_, _, _, pos) => threeInts (pos + 1) line false).isSome := by
  unfold lineTime
  rcases threeInts 1 line true with _ | ⟨year, month, day, pos⟩
  · simp [taken]
  · dsimp only
    rcases hpos : threeInts (pos + 1) line false with _ | ⟨hour, minute, second, pos2⟩
    · simp [taken, hpos]
    · simp [taken, hpos]

lemma lineNumber_count (s : State) (line : Text) :
    (s.lineNumber line).errorCount =
      s.errorCount - taken (decide (0 < (toLongLong line).getD 0)) := by
  unfold lineNumber
  dsimp only
  split_ifs <;> simp [taken, emit, *]

lemma lineSize_count (s : State) (line : Text) :
    (s.lineSize line).errorCount = s.errorCount - taken (toLongLong (line.drop 1)).isSome := by
  unfold lineSize
  cases toLongLong (line.drop 1) with
  | none => simp [taken]
  | some size => simp [taken]

lemma lineEnd_count (s : State) : s.lineEnd.errorCount = s.errorCount - 1 := by
  unfold lineEnd
  dsimp only
  cases s.udsMime with
  | none => split_ifs <;> rfl
  | some mime => split_ifs <;> rfl

lemma lineName_count (env : Env) (s : State) (line : Text) :
    (s.lineName env line).errorCount = s.errorCount - 1 := by
  unfold lineName
  dsimp only
  split_ifs
  · split <;> rfl
  · rfl
  · split <;> rfl
  · rfl

lemma lineMime_count (s : State) (line : Text) :
    (s.lineMime line).errorCount = s.errorCount - 1 := by
  unfold lineMime
  dsimp only
  split_ifs <;> rfl

lemma listLine_count (env : Env) (s : State) (line : Text) :
    (s.listLine env line).errorCount = s.errorCount - taken (accepted line) := by
  unfold listLine listUnits accepted
  cases units 1 line with
  | nil => exact lineEnd_count s
  | cons c rest =>
    dsimp only
    split_ifs with hdigit hP hd hD hS hE hcolon hM hL
    · exact lineNumber_count s _
    · exact lineP_count s _
    · exact lineLsTime_count env s _
    · exact lineTime_count env s _
    · exact lineSize_count s _
    · rw [hE]
      rfl
    · rw [hcolon]
      exact lineName_count env s _
    · rw [hM]
      exact lineMime_count s _
    · rw [hL]
      rfl
    · have hnot : "E:ML".toList.contains (cell c) = false := by
        simp [hE, hcolon, hM, hL]
      rw [hnot]
      simp [taken]

/-! ### The answer -/

/-- The worker behind some lines. -/
def answered (env : Env) (s : State) (lines : List Text) : State :=
  lines.foldl (fun s line => (s.manageConnection env line).1) s

lemma manageConnection_count (env : Env) (hcmd : s.fishCommand = .LIST ∨ s.fishCommand = .STAT)
    (hgoes : goesOn line = true) :
    (s.manageConnection env line).1.fishCommand = s.fishCommand ∧
      (s.manageConnection env line).1.errorCount = s.errorCount + taken (refused line) := by
  unfold manageConnection respond handleResponse
  cases hout : startsWith "### ".toList line with
  | false =>
    have hlisted : ({ s with errorCount := s.errorCount + 1 } : State).respondLine env line =
        (({ s with errorCount := s.errorCount + 1 } : State).listLine env line, .go) := by
      unfold respondLine
      rcases hcmd with hcmd | hcmd <;> rw [hcmd]
    simp only [Bool.false_eq_true, if_false, if_true, hlisted]
    refine ⟨?_, ?_⟩
    · obtain ⟨_, _, _, _, _, _, _, _, h⟩ :=
        listLine_listing env { s with errorCount := s.errorCount + 1 } line
      rw [h]
    · rw [listLine_count, refused, isOutput, hout]
      cases accepted line <;> simp [taken]
  | true =>
    have hgo : startsWith "### 100".toList line = true := by
      have hno : isOutput line = false := by
        rw [isOutput, hout]
        rfl
      rwa [goesOn, hno, Bool.false_or] at hgoes
    obtain ⟨rest, rfl⟩ := List.isPrefixOf_iff_prefix.mp hgo
    have hcode : (toInt (mid 4 3 ("### 100".toList ++ rest))).getD 500 = 100 := rfl
    have hdone : ({ s with errorCount := s.errorCount } : State).respond100 env = (s, .go) := by
      unfold respond100
      rcases hcmd with hcmd | hcmd <;> rw [hcmd]
    have hno : refused ("### 100".toList ++ rest) = false := by
      rw [refused, isOutput, hout]
      rfl
    simp only [if_true, hcode, OfNat.ofNat_ne_zero, if_false, OfNat.ofNat_ne_one, hdone, hno]
    exact ⟨trivial, (add_zero _).symm⟩

lemma answered_count (lines : List Text) (hcmd : s.fishCommand = .LIST ∨ s.fishCommand = .STAT)
    (hgoes : ∀ line ∈ lines, goesOn line = true) :
    (answered env s lines).errorCount = s.errorCount + lines.countP refused := by
  induction lines generalizing s with
  | nil => simp [answered]
  | cons line lines ih =>
    obtain ⟨hline, hlines⟩ := List.forall_mem_cons.mp hgoes
    obtain ⟨hcommand, hcount⟩ := manageConnection_count env hcmd hline
    have hrest := ih (s := (s.manageConnection env line).1) (by rwa [hcommand]) hlines
    have hstep : answered env s (line :: lines) =
        answered env (s.manageConnection env line).1 lines := rfl
    rw [hstep, hrest, hcount, List.countP_cons]
    cases refused line <;> simp [taken]
    omega

/-- What the checks of a listing should come to: no place behind the end of a line is looked at,
and what is malformed counts as an error, so that the answer `### 000` is one. -/
structure Checks (env : Env) (s : State) (lines : List Text) : Prop where
  inside : ∀ line ∈ lines, isOutput line = true → ∀ i ∈ accessed line, i < length line
  counted : (∃ line ∈ lines, malformed line = true) → 0 < (answered env s lines).errorCount ∧
    (handleResponse (answered env s lines).errorCount "### 000".toList).1 = 500

lemma handleResponse_end (count : ℤ) :
    (handleResponse count "### 000".toList).1 = if count ≠ 0 then 500 else 200 := by
  have hcode : (toInt (mid 4 3 "### 000".toList)).getD 500 = 0 := rfl
  have hout : startsWith "### ".toList "### 000".toList = true := rfl
  unfold handleResponse
  simp only [hout, if_true, hcode]
  split_ifs <;> simp_all

/-- **When the checks do it.** Each line `P` is long enough, and next to a malformed line there is
one that is refused. -/
theorem checks_iff (env : Env) {s : State} (hcmd : s.fishCommand = .LIST ∨ s.fishCommand = .STAT)
    (hstart : s.errorCount = -((fishInfo env.CHECKSUM s.fishCommand).lines : ℤ))
    {lines : List Text} (hgoes : ∀ line ∈ lines, goesOn line = true) :
    Checks env s lines ↔
      (∀ line ∈ lines, isOutput line = true → short line = false) ∧
      ((∃ line ∈ lines, malformed line = true) → ∃ line ∈ lines, refused line = true) := by
  have hzero : s.errorCount = 0 := by
    rw [hstart]
    rcases hcmd with hcmd | hcmd <;> rw [hcmd] <;> rfl
  have hcount : (answered env s lines).errorCount = lines.countP refused := by
    rw [answered_count lines hcmd hgoes, hzero, zero_add]
  have hpos : 0 < (answered env s lines).errorCount ↔ ∃ line ∈ lines, refused line = true := by
    rw [hcount, Int.natCast_pos, List.countP_pos_iff]
  constructor
  · intro h
    refine ⟨fun line hline hout => accessed_inside_iff.mp (h.inside line hline hout), ?_⟩
    exact fun hmal => hpos.mp (h.counted hmal).1
  · rintro ⟨hshort, hrefused⟩
    refine ⟨fun line hline hout => accessed_inside_iff.mpr (hshort line hline hout), ?_⟩
    intro hmal
    have hlt := hpos.mpr (hrefused hmal)
    refine ⟨hlt, ?_⟩
    rw [handleResponse_end, if_pos hlt.ne']

end lines

def listing : State := { Session.initialWorker [] with fishCommand := .LIST }

def oneEntry : List Text :=
  ["1", "### 100", "P-rw-r--r-- u:g", "S5", "dJan 1 2020", ":f", ""].map String.toList

theorem oneEntry_checked : Checks asciiEnv listing oneEntry :=
  (checks_iff asciiEnv (Or.inl rfl) rfl (List.all_eq_true.mp rfl)).mpr
    ⟨by decide, fun h => absurd h (by decide)⟩

/-- A line `P` that ends behind the type, and a line `E` without numbers. -/
theorem truncated_unchecked :
    (¬ ∀ (env : Env) (s : State) (lines : List Text), s.fishCommand = .LIST →
      s.errorCount = -((fishInfo env.CHECKSUM s.fishCommand).lines : ℤ) →
      (∀ line ∈ lines, goesOn line = true) →
      ∀ line ∈ lines, isOutput line = true → ∀ i ∈ accessed line, i < length line) ∧
    ¬ ∀ (env : Env) (s : State) (lines : List Text), s.fishCommand = .LIST →
      s.errorCount = -((fishInfo env.CHECKSUM s.fishCommand).lines : ℤ) →
      (∀ line ∈ lines, goesOn line = true) →
      (∃ line ∈ lines, malformed line = true) → 0 < (answered env s lines).errorCount := by
  constructor
  · intro h
    have hinside := h asciiEnv listing ["P-".toList] rfl rfl (by decide) _
      (List.mem_singleton_self _) rfl 2 (by decide)
    exact absurd hinside (by decide)
  · intro h
    have hcount := h asciiEnv listing ["E".toList] rfl rfl (by decide)
      ⟨_, List.mem_singleton_self _, by decide⟩
    rw [answered_count _ (Or.inl rfl) (by decide)] at hcount
    exact absurd hcount (by decide)

end Malformed

end KioExtras.Fish
