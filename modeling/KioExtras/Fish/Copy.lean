import KioExtras.Fish.WriteLoop
import KioExtras.Lib.Inodes

/-!
How the perl server copies a file: `COPY` of `fish.pl`.

The source is opened before the destination is emptied, but the two are not compared, and nothing
has been read yet.
-/

namespace KioExtras.Fish.Perl

open KioExtras.Lib KioExtras.Lib.Inodes

/-- One turn of the loops: whether `sysread` fails, and how many bytes `syswrite` takes at most. -/
structure CopyTurn where
  fails : Bool
  taken : ℕ

/-- What the system answers. Any call may be refused; a directory has some size. -/
structure CopyCalls where
  unlink : Bool
  symlink : Option Bytes
  openSource : Option Bytes
  openDest : Option Bytes
  dirSize : ℕ
  errno : Bytes
  turns : List CopyTurn

/-- How the command ends: with `### 200`, or with `### 500` for the source or for the
destination. -/
inductive CopyEnd
  | done
  | unread (errno : Bytes)
  | unwritten (errno : Bytes)

def CopyEnd.last : CopyEnd → Bytes
  | .done => ascii "### 200"
  | .unread errno => ascii "### 500 " ++ errno
  | .unwritten errno => ascii "### 500 " ++ errno

section

variable {P : Type*}

/-- The files that are open, the source's number missing for a directory, and the variables of the
loops. `cut` says that a `syswrite` has taken too few bytes, which ends the command. -/
structure Copying (P : Type*) where
  store : Store P
  source : Option ℕ
  dest : ℕ
  size : ℕ
  pos : ℕ
  wpos : ℕ
  read : ℕ
  cut : Bool

namespace Copying

def sysread (c : Copying P) (asked : ℕ) (turn : CopyTurn) : Bytes :=
  match c.source with
  | none => []
  | some i => if turn.fails then [] else ((c.store.data i).drop c.pos).take asked

def round (c : Copying P) (asked : ℕ) (turn : CopyTurn) : Copying P :=
  let buffer := c.sysread asked turn
  if buffer = [] then { c with read := 0 }
  else
    let taken := min turn.taken buffer.length
    { c with
      store := c.store.setData c.dest
        (FileStore.Store.splice (c.store.data c.dest) c.wpos (buffer.take taken))
      size := c.size - buffer.length
      pos := c.pos + buffer.length
      wpos := c.wpos + taken
      read := buffer.length
      cut := taken ≠ buffer.length }

/-- The first loop: blocks of a fixed size. -/
def blocks : List CopyTurn → Copying P → Option (Copying P × List CopyTurn)
  | [], c => if 32768 < c.size then none else some (c, [])
  | turn :: turns, c =>
    if 32768 < c.size then
      let c := c.round 32768 turn
      if c.cut = false ∧ 0 < c.read then blocks turns c else some (c, turns)
    else some (c, turn :: turns)

/-- The second loop: what is left. -/
def rest : List CopyTurn → Copying P → Option (Copying P)
  | [], c => if c.cut = false ∧ 0 < c.size then none else some c
  | turn :: turns, c =>
    if c.cut = false ∧ 0 < c.size then
      let c := c.round c.size turn
      if c.cut = false ∧ 0 < c.read then rest turns c
      else if turns.isEmpty then some c else none
    else none

def finish (errno : Bytes) (c : Copying P) : CopyEnd :=
  if c.cut then .unwritten errno
  else if 0 < c.read then .done
  else .unread errno

end Copying

variable [DecidableEq P]

def copyLink (s : Store P) (dest fn : P) (calls : CopyCalls) : Store P × CopyEnd :=
  let s := if calls.unlink then s else (s.unlink fn).getD s
  match calls.symlink with
  | some errno => (s, .unwritten errno)
  | none =>
    match s.symlink dest fn with
    | some s => (s, .done)
    | none => (s, .unwritten calls.errno)

/-- The other branch, for a source of this number and size. -/
def copyFile (s : Store P) (source : Option ℕ) (size : ℕ) (fn : P) (calls : CopyCalls) :
    Option (Store P × CopyEnd) :=
  match calls.openSource with
  | some errno => some (s, .unread errno)
  | none =>
    match calls.openDest with
    | some errno => some (s, .unwritten errno)
    | none =>
      match s.openTruncate fn with
      | none => some (s, .unwritten calls.errno)
      | some (dest, s) =>
        (Copying.blocks calls.turns ⟨s, source, dest, size, 0, 0, 1, false⟩).bind
          fun (c, turns) => (c.rest turns).map fun c => (c.store, c.finish calls.errno)

def COPY (s : Store P) (ofn fn : P) (calls : CopyCalls) : Option (Store P × CopyEnd) :=
  match s.entries ofn with
  | none => some (s, .unread calls.errno)
  | some (.symlink dest) => some (copyLink s dest fn calls)
  | some (.file source) => copyFile s (some source) (s.data source).length fn calls
  | some .dir => copyFile s none calls.dirSize fn calls

end

/-! ### The loops -/

def ReadFails (turns : List CopyTurn) : Prop :=
  ∃ turn, turns.getLast? = some turn ∧ turn.fails = true

/-- How far the source is read by loops that stop in front of their last block. -/
def copied (turns : List CopyTurn) : ℕ := 32768 * turns.countP fun turn => !turn.fails

lemma readFails_snoc (turns : List CopyTurn) (turn : CopyTurn) :
    ReadFails (turns ++ [turn]) ↔ turn.fails = true := by
  simp [ReadFails]

lemma copied_snoc (turns : List CopyTurn) (turn : CopyTurn) :
    copied (turns ++ [turn]) = copied turns + if turn.fails then 0 else 32768 := by
  cases hfails : turn.fails <;> simp [copied, List.countP_append, hfails, Nat.mul_add]

namespace Copying

variable {P : Type*} {t : Store P} {i j : ℕ} {c c' : Copying P} {done turns left : List CopyTurn}
  {turn : CopyTurn} {asked : ℕ}

/-- The loops are under way: what is read so far is in the destination, which was opened in this
store and is another file than the source. -/
structure Going (t : Store P) (i j : ℕ) (c : Copying P) : Prop where
  store : c.store = t.setData j ((t.data i).take c.pos)
  source : c.source = some i
  dest : c.dest = j
  size : c.pos + c.size = (t.data i).length
  wpos : c.wpos = c.pos
  cut : c.cut = false

/-- A `syswrite` has taken too few bytes. -/
structure Cut (t : Store P) (j : ℕ) (c : Copying P) : Prop where
  store : ∃ bytes, c.store = t.setData j bytes
  cut : c.cut = true

lemma Going.sysread (h : Going t i j c) (hne : i ≠ j) :
    c.sysread asked turn = if turn.fails then [] else ((t.data i).drop c.pos).take asked := by
  have hdata : c.store.data i = t.data i := by
    rw [h.store]
    exact Function.update_of_ne hne _ _
  rw [Copying.sysread, h.source]
  dsimp only
  rw [hdata]

lemma Going.round_fails (h : Going t i j c) (hne : i ≠ j) (hfails : turn.fails = true) :
    c.round asked turn = { c with read := 0 } := by
  rw [round, h.sysread hne, if_pos hfails]
  rfl

lemma Going.round (h : Going t i j c) (hne : i ≠ j) (hfails : turn.fails = false)
    (hpos : 0 < asked) (hasked : asked ≤ c.size) :
    Cut t j (c.round asked turn) ∨ (Going t i j (c.round asked turn) ∧
      (c.round asked turn).read = asked ∧ (c.round asked turn).pos = c.pos + asked) := by
  have hsize := h.size
  have hlen : (((t.data i).drop c.pos).take asked).length = asked := by
    rw [List.length_take, List.length_drop]
    omega
  have hbuffer : ((t.data i).drop c.pos).take asked ≠ [] := List.ne_nil_of_length_pos (by omega)
  have hold : c.store.data c.dest = (t.data i).take c.pos := by
    rw [h.store, h.dest]
    exact Function.update_self ..
  have hend : ((t.data i).take c.pos).length = c.pos := List.length_take_of_le (by omega)
  have hread : c.sysread asked turn = ((t.data i).drop c.pos).take asked := by
    rw [h.sysread hne, hfails, if_neg Bool.false_ne_true]
  have hround : c.round asked turn = { c with
      store := t.setData j ((t.data i).take c.pos ++
        (((t.data i).drop c.pos).take asked).take (min turn.taken asked))
      size := c.size - asked
      pos := c.pos + asked
      wpos := c.pos + min turn.taken asked
      read := asked
      cut := min turn.taken asked ≠ asked } := by
    have hsplice := FileStore.Store.splice_end ((t.data i).take c.pos)
      ((((t.data i).drop c.pos).take asked).take (min turn.taken asked))
    rw [hend] at hsplice
    rw [Copying.round, hread]
    dsimp only
    rw [if_neg hbuffer, hlen, hold, h.wpos, hsplice, h.store, h.dest, Store.setData_setData]
  rw [hround]
  by_cases hwhole : min turn.taken asked = asked
  · right
    refine ⟨⟨?_, h.source, h.dest, ?_, ?_, ?_⟩, rfl, rfl⟩
    · dsimp only
      rw [hwhole, List.take_take, Nat.min_self, ← List.take_add]
    · dsimp only
      omega
    · dsimp only
      rw [hwhole]
    · simp [hwhole]
  · left
    exact ⟨⟨_, rfl⟩, by simp [hwhole]⟩

structure Halfway (t : Store P) (i j : ℕ) (done : List CopyTurn) (c : Copying P) : Prop where
  going : Going t i j c
  pos : c.pos = copied done
  tells : c.size = 0 → 0 < c.read
  last : 0 < c.read → ¬ ReadFails done

lemma blocks_spec (hne : i ≠ j) (h : Halfway t i j done c)
    (hrun : blocks turns c = some (c', left)) :
    ∃ more, turns = more ++ left ∧ (Halfway t i j (done ++ more) c' ∨
      (Cut t j c' ∧ ¬ ReadFails (done ++ more))) := by
  induction turns generalizing c done with
  | nil =>
    rw [blocks] at hrun
    split_ifs at hrun
    obtain ⟨rfl, rfl⟩ := Prod.mk.inj (Option.some.inj hrun)
    exact ⟨[], rfl, Or.inl (by simpa using h)⟩
  | cons turn turns ih =>
    by_cases hbig : 32768 < c.size
    swap
    · rw [blocks, if_neg hbig] at hrun
      obtain ⟨rfl, rfl⟩ := Prod.mk.inj (Option.some.inj hrun)
      exact ⟨[], rfl, Or.inl (by simpa using h)⟩
    rw [blocks, if_pos hbig] at hrun
    dsimp only at hrun
    cases hfails : turn.fails with
    | true =>
      rw [h.going.round_fails hne hfails, if_neg (by simp)] at hrun
      obtain ⟨rfl, rfl⟩ := Prod.mk.inj (Option.some.inj hrun)
      refine ⟨[turn], rfl, Or.inl ⟨?_, ?_, ?_, ?_⟩⟩
      · exact ⟨h.going.store, h.going.source, h.going.dest, h.going.size, h.going.wpos, h.going.cut⟩
      · rw [copied_snoc, hfails]
        exact h.pos
      · intro hzero
        dsimp only at hzero
        omega
      · intro hread
        exact absurd hread (Nat.lt_irrefl 0)
    | false =>
      have hlast : ¬ ReadFails (done ++ [turn]) := by
        rw [readFails_snoc, hfails]
        exact Bool.false_ne_true
      rcases h.going.round hne hfails (by omega) (Nat.le_of_lt hbig) with hcut | ⟨hgo, hread, hpos⟩
      · rw [if_neg (by simp [hcut.cut])] at hrun
        obtain ⟨rfl, rfl⟩ := Prod.mk.inj (Option.some.inj hrun)
        exact ⟨[turn], rfl, Or.inr ⟨hcut, hlast⟩⟩
      · rw [if_pos ⟨hgo.cut, by omega⟩] at hrun
        have hnext : Halfway t i j (done ++ [turn]) (c.round 32768 turn) := by
          refine ⟨hgo, ?_, fun _ => by omega, fun _ => hlast⟩
          rw [hpos, h.pos, copied_snoc, hfails]
          rfl
        obtain ⟨more, rfl, hend⟩ := ih hnext hrun
        refine ⟨turn :: more, rfl, ?_⟩
        rwa [List.append_assoc, List.singleton_append] at hend

/-- How the loops end for a file that is not the destination. -/
inductive Finished (t : Store P) (i j : ℕ) (turns : List CopyTurn) (c : Copying P) : Prop
  | cut (h : Cut t j c) (hread : ¬ ReadFails turns)
  | copied (hcut : c.cut = false) (hread : 0 < c.read) (hlast : ¬ ReadFails turns)
      (hstore : c.store = t.setData j (t.data i))
  | failed (hcut : c.cut = false) (hread : c.read = 0) (hlast : ReadFails turns)
      (hstore : c.store = t.setData j ((t.data i).take (Perl.copied turns)))

lemma rest_done {c : Copying P} (hzero : c.size = 0) (hrun : c.rest turns = some c') :
    turns = [] ∧ c' = c := by
  cases turns with
  | nil =>
    rw [rest, if_neg (by omega)] at hrun
    exact ⟨rfl, (Option.some.inj hrun).symm⟩
  | cons turn turns =>
    rw [rest, if_neg (by omega)] at hrun
    cases hrun

lemma Going.copied (h : Going t i j c) (hzero : c.size = 0) : c.store = t.setData j (t.data i) := by
  have hsize := h.size
  rw [h.store, List.take_of_length_le (by omega)]

lemma rest_spec (hne : i ≠ j) (h : Halfway t i j done c) (hrun : c.rest turns = some c') :
    Finished t i j (done ++ turns) c' := by
  rcases Nat.eq_zero_or_pos c.size with hzero | hpos
  · obtain ⟨rfl, rfl⟩ := rest_done hzero hrun
    rw [List.append_nil]
    exact .copied h.going.cut (h.tells hzero) (h.last (h.tells hzero)) (h.going.copied hzero)
  cases turns with
  | nil =>
    rw [rest, if_pos ⟨h.going.cut, hpos⟩] at hrun
    cases hrun
  | cons turn turns =>
    rw [rest, if_pos ⟨h.going.cut, hpos⟩] at hrun
    dsimp only at hrun
    cases hfails : turn.fails with
    | true =>
      rw [h.going.round_fails hne hfails, if_neg (by simp)] at hrun
      split_ifs at hrun with hlast
      obtain rfl := Option.some.inj hrun
      obtain rfl := List.isEmpty_iff.mp hlast
      refine .failed h.going.cut rfl ((readFails_snoc done turn).mpr hfails) ?_
      rw [copied_snoc, hfails, if_pos rfl, Nat.add_zero, ← h.pos]
      exact h.going.store
    | false =>
      have hlast : ¬ ReadFails (done ++ [turn]) := by
        rw [readFails_snoc, hfails]
        exact Bool.false_ne_true
      rcases h.going.round hne hfails hpos (Nat.le_refl _) with hcut | ⟨hgo, hread, hend⟩
      · rw [if_neg (by simp [hcut.cut])] at hrun
        split_ifs at hrun with hnil
        obtain rfl := Option.some.inj hrun
        obtain rfl := List.isEmpty_iff.mp hnil
        exact .cut hcut hlast
      · rw [if_pos ⟨hgo.cut, by omega⟩] at hrun
        have hsize := hgo.size
        have hbefore := h.going.size
        have hzero : (c.round c.size turn).size = 0 := by omega
        obtain ⟨rfl, rfl⟩ := rest_done hzero hrun
        exact .copied hgo.cut (by omega) hlast (hgo.copied hzero)

lemma rest_cut {c : Copying P} (hcut : c.cut = true) (hrun : c.rest turns = some c') :
    turns = [] ∧ c' = c := by
  cases turns with
  | nil =>
    rw [rest, if_neg (by simp [hcut])] at hrun
    exact ⟨rfl, (Option.some.inj hrun).symm⟩
  | cons turn turns =>
    rw [rest, if_neg (by simp [hcut])] at hrun
    cases hrun

lemma loops_finished (hne : i ≠ j) (hempty : t.data j = [])
    (hblocks : blocks turns ⟨t, some i, j, (t.data i).length, 0, 0, 1, false⟩ = some (c, left))
    (hrest : c.rest left = some c') : Finished t i j turns c' := by
  have hstart : Halfway t i j [] ⟨t, some i, j, (t.data i).length, 0, 0, 1, false⟩ := by
    refine ⟨⟨?_, rfl, rfl, Nat.zero_add _, rfl, rfl⟩, rfl, fun _ => Nat.one_pos, ?_⟩
    · rw [List.take_zero, ← hempty, Store.setData_self]
    · rintro - ⟨turn, hturn, -⟩
      cases hturn
  obtain ⟨more, rfl, hhalf | ⟨hcut, hlast⟩⟩ := blocks_spec hne hstart hblocks
  · exact rest_spec hne hhalf hrest
  · obtain ⟨rfl, rfl⟩ := rest_cut hcut.cut hrest
    rw [List.append_nil]
    exact .cut hcut hlast

/-- No read gets anything. -/
def Idle (c : Copying P) : Prop := ∀ asked turn, c.sysread asked turn = []

lemma Idle.round (h : c.Idle) (asked : ℕ) (turn : CopyTurn) :
    c.round asked turn = { c with read := 0 } := by
  rw [Copying.round, h asked turn]
  rfl

lemma Idle.blocks (h : c.Idle) (hrun : Copying.blocks turns c = some (c', left)) :
    c' = c ∨ (0 < c.size ∧ c' = { c with read := 0 }) := by
  cases turns with
  | nil =>
    rw [Copying.blocks] at hrun
    split_ifs at hrun
    exact Or.inl (Prod.mk.inj (Option.some.inj hrun)).1.symm
  | cons turn turns =>
    rw [Copying.blocks] at hrun
    split_ifs at hrun with hbig
    · dsimp only at hrun
      rw [h.round, if_neg (by simp)] at hrun
      exact Or.inr ⟨by omega, (Prod.mk.inj (Option.some.inj hrun)).1.symm⟩
    · exact Or.inl (Prod.mk.inj (Option.some.inj hrun)).1.symm

lemma Idle.rest (h : c.Idle) (hcut : c.cut = false) (hrun : c.rest turns = some c') :
    c' = if c.size = 0 then c else { c with read := 0 } := by
  rcases Nat.eq_zero_or_pos c.size with hzero | hpos
  · rw [if_pos hzero]
    exact (rest_done hzero hrun).2
  rw [if_neg (by omega)]
  cases turns with
  | nil =>
    rw [Copying.rest, if_pos ⟨hcut, hpos⟩] at hrun
    cases hrun
  | cons turn turns =>
    rw [Copying.rest, if_pos ⟨hcut, hpos⟩] at hrun
    dsimp only at hrun
    rw [h.round, if_neg (by simp)] at hrun
    split_ifs at hrun with hlast
    exact (Option.some.inj hrun).symm

lemma Idle.loops (h : c.Idle) (hcut : c.cut = false)
    (hblocks : Copying.blocks turns c = some (c', left)) {d : Copying P}
    (hrest : c'.rest left = some d) : d = if c.size = 0 then c else { c with read := 0 } := by
  rcases h.blocks hblocks with rfl | ⟨hpos, rfl⟩
  · exact h.rest hcut hrest
  · have hidle : Idle { c with read := 0 } := h
    have hend := hidle.rest hcut hrest
    dsimp only at hend
    rw [hend, if_neg (by omega), if_neg (by omega)]

end Copying

/-! ### The command -/

section

variable {P : Type*} [DecidableEq P] {s s' : Store P} {ofn fn : P} {calls : CopyCalls}
  {e : CopyEnd} {i size : ℕ} {source : Option ℕ}

/-- What is promised: the source is as it was, a success stands for a copy, and a destination that
was there is left alone if the source cannot be read. -/
structure CopyKept (s : Store P) (ofn fn : P) (s' : Store P) (e : CopyEnd) : Prop where
  link : ∀ dest, s.linkAt ofn = some dest → s'.linkAt ofn = some dest
  content : ∀ bytes, s.content ofn = some bytes → s'.content ofn = some bytes
  copied : e = .done → (∃ bytes, s.content ofn = some bytes ∧ s'.content fn = some bytes) ∨
    ∃ dest, s.linkAt ofn = some dest ∧ s'.linkAt fn = some dest
  spared : ∀ errno, e = .unread errno → s.entries fn ≠ none →
    s'.entries fn = s.entries fn ∧ s'.content fn = s.content fn

/-- A link is copied to a place that is not on the way that it starts. -/
def LinkCareful (s : Store P) (ofn fn : P) (calls : CopyCalls) : Prop :=
  calls.unlink = false → s.entries fn ≠ none → s.entries fn ≠ some .dir →
    (fn = ofn → calls.symlink = none) ∧
      (fn ≠ ofn → s.Passes ofn fn → s.content ofn = none)

/-- Both files are opened. -/
structure Begins (s : Store P) (fn : P) (calls : CopyCalls) : Prop where
  openSource : calls.openSource = none
  openDest : calls.openDest = none
  dest : (s.openTruncate fn).isSome

/-- A file is not copied to itself, unless it is empty, and it can be read, unless the destination
happens to hold the bytes that are read before. -/
def FileCareful (s : Store P) (i : ℕ) (fn : P) (calls : CopyCalls) : Prop :=
  Begins s fn calls → (s.inode fn = some i → s.data i = []) ∧
    (s.inode fn ≠ some i → ReadFails calls.turns → s.entries fn ≠ none →
      s.content fn = some ((s.data i).take (copied calls.turns)))

/-- A directory has a size, and the destination is new or empty. -/
def DirCareful (s : Store P) (fn : P) (calls : CopyCalls) : Prop :=
  Begins s fn calls → calls.dirSize ≠ 0 ∧ (s.entries fn ≠ none → s.content fn = some [])

def CopyCareful (s : Store P) (ofn fn : P) (calls : CopyCalls) : Prop :=
  match s.entries ofn with
  | none => True
  | some (.symlink _) => LinkCareful s ofn fn calls
  | some (.file i) => FileCareful s i fn calls
  | some .dir => DirCareful s fn calls

omit [DecidableEq P] in
lemma CopyKept.refused (h : e ≠ .done) : CopyKept s ofn fn s e where
  link _ h := h
  content _ h := h
  copied hdone := absurd hdone h
  spared _ _ _ := ⟨rfl, rfl⟩

lemma copyFile_cases (h : copyFile s source size fn calls = some (s', e)) :
    (¬ Begins s fn calls ∧ s' = s ∧ e ≠ .done) ∨
      (Begins s fn calls ∧ ∃ j t c c' left, s.openTruncate fn = some (j, t) ∧
        Copying.blocks calls.turns ⟨t, source, j, size, 0, 0, 1, false⟩ = some (c, left) ∧
        c.rest left = some c' ∧ s' = c'.store ∧ e = c'.finish calls.errno) := by
  unfold copyFile at h
  cases hsource : calls.openSource with
  | some errno =>
    rw [hsource] at h
    obtain ⟨rfl, rfl⟩ := Prod.mk.inj (Option.some.inj h)
    exact Or.inl ⟨fun hb => (by simpa [hsource] using hb.openSource), rfl, CopyEnd.noConfusion⟩
  | none =>
    rw [hsource] at h
    cases hdest : calls.openDest with
    | some errno =>
      rw [hdest] at h
      obtain ⟨rfl, rfl⟩ := Prod.mk.inj (Option.some.inj h)
      exact Or.inl ⟨fun hb => (by simpa [hdest] using hb.openDest), rfl, CopyEnd.noConfusion⟩
    | none =>
      rw [hdest] at h
      rcases hopen : s.openTruncate fn with _ | ⟨j, t⟩
      · rw [hopen] at h
        obtain ⟨rfl, rfl⟩ := Prod.mk.inj (Option.some.inj h)
        exact Or.inl ⟨fun hb => (by simpa [hopen] using hb.dest), rfl, CopyEnd.noConfusion⟩
      · rw [hopen] at h
        obtain ⟨⟨c, left⟩, hblocks, hend⟩ := Option.bind_eq_some_iff.mp h
        obtain ⟨c', hrest, heq⟩ := Option.map_eq_some_iff.mp hend
        obtain ⟨hstore, hfinish⟩ := Prod.mk.inj heq
        exact Or.inr ⟨⟨hsource, hdest, by rw [hopen]; rfl⟩, j, t, c, c', left, rfl, hblocks, hrest,
          hstore.symm, hfinish.symm⟩

omit [DecidableEq P] in
lemma inode_of_file (hentry : s.entries ofn = some (.file i)) : s.inode ofn = some i := by
  have hlink : s.linkAt ofn = none := by
    rw [Store.linkAt, hentry]
    rfl
  have htarget : s.target ofn = some ofn :=
    Store.resolve_eq_some.mpr ⟨0, by decide, rfl, hlink⟩
  rw [Store.inode, htarget, Option.bind_some, hentry]
  rfl

lemma copyFile_file_iff (hentry : s.entries ofn = some (.file i))
    (h : copyFile s (some i) (s.data i).length fn calls = some (s', e)) :
    CopyKept s ofn fn s' e ↔ FileCareful s i fn calls := by
  rcases copyFile_cases h with ⟨hnot, rfl, he⟩ |
    ⟨hbegins, j, t, c, c', left, hopen, hblocks, hrest, rfl, rfl⟩
  · exact ⟨fun _ hb => absurd hb hnot, fun _ => .refused he⟩
  have hopened := Store.openTruncate_opened hopen
  have hsource := inode_of_file hentry
  have hlt := Store.inode_lt hsource
  have hcontent : s.content ofn = some (s.data i) := Store.inode_data hsource
  have hlink : ∀ dest, s.linkAt ofn ≠ some dest := by
    intro dest
    rw [Store.linkAt, hentry]
    intro hdest
    cases hdest
  have hsame : s.inode fn = some i ↔ i = j := by
    rcases hopened.fresh with hold | ⟨hnone, hfree⟩
    · rw [hold, Option.some.injEq, eq_comm]
    · rw [hnone]
      constructor
      · intro hi
        cases hi
      · rintro rfl
        omega
  by_cases hij : i = j
  · -- the source is emptied when the destination is opened
    subst hij
    have hidle : Copying.Idle ⟨t, some i, i, (s.data i).length, 0, 0, 1, false⟩ := by
      intro asked turn
      simp [Copying.sysread, hopened.empty]
    have hend := hidle.loops rfl hblocks hrest
    have hstore : c'.store = t := by
      rw [hend]
      split_ifs <;> rfl
    have hofn : t.content ofn = some [] := by
      rw [Store.inode_data (hopened.kept ofn i hsource), hopened.empty]
    have hfn : t.content fn = some [] := by
      rw [Store.inode_data hopened.inode, hopened.empty]
    have hcareful : FileCareful s i fn calls ↔ s.data i = [] :=
      ⟨fun hcareful => (hcareful hbegins).1 (hsame.mpr rfl),
        fun hdata _ => ⟨fun _ => hdata, fun hne => absurd (hsame.mpr rfl) hne⟩⟩
    rw [hstore, hcareful]
    constructor
    · intro hkept
      have hafter := hkept.content _ hcontent
      rw [hofn] at hafter
      exact (Option.some.inj hafter).symm
    · intro hdata
      have hzero : (s.data i).length = 0 := by rw [hdata]; rfl
      have hdone : c'.finish calls.errno = .done := by
        rw [hend, if_pos hzero]
        rfl
      refine ⟨fun dest hdest => absurd hdest (hlink dest), fun bytes hbytes => ?_, fun _ => ?_,
        fun errno herr => ?_⟩
      · rw [hcontent, hdata] at hbytes
        rw [hofn, hbytes]
      · exact Or.inl ⟨[], by rw [hcontent, hdata], hfn⟩
      · rw [hdone] at herr
        cases herr
  · have hdata : t.data i = s.data i := hopened.data i hlt hij
    rw [← hdata] at hblocks
    have hfinished := Copying.loops_finished hij hopened.empty hblocks hrest
    have hofn : ∀ bytes, (t.setData j bytes).content ofn = some (s.data i) := by
      intro bytes
      have hinode : (t.setData j bytes).inode ofn = some i := hopened.kept ofn i hsource
      rw [Store.inode_data hinode, ← hdata]
      exact congrArg some (Function.update_of_ne hij _ _)
    have hfn : ∀ bytes, (t.setData j bytes).content fn = some bytes := by
      intro bytes
      have hinode : (t.setData j bytes).inode fn = some j := hopened.inode
      rw [Store.inode_data hinode]
      exact congrArg some (Function.update_self ..)
    have hnot : s.inode fn ≠ some i := fun h => hij (hsame.mp h)
    have hcareful : FileCareful s i fn calls ↔ (ReadFails calls.turns → s.entries fn ≠ none →
        s.content fn = some ((s.data i).take (copied calls.turns))) :=
      ⟨fun hcareful => (hcareful hbegins).2 hnot,
        fun hright _ => ⟨fun h => absurd h hnot, fun _ => hright⟩⟩
    rw [hcareful]
    have hkept : ∀ (bytes : Bytes) (e : CopyEnd), c'.store = t.setData j bytes →
        (e = .done → bytes = s.data i) → (∀ errno, e = .unread errno → s.entries fn ≠ none →
          s.content fn = some bytes) → CopyKept s ofn fn c'.store e := by
      intro bytes e hstore hdone hspared
      rw [hstore]
      refine ⟨fun dest hdest => absurd hdest (hlink dest), fun bytes' hbytes' => ?_, fun h => ?_,
        fun errno herr hthere => ?_⟩
      · rw [hofn, ← hcontent, hbytes']
      · exact Or.inl ⟨s.data i, hcontent, by rw [hfn, hdone h]⟩
      · exact ⟨hopened.entries fn hthere, by rw [hfn, hspared errno herr hthere]⟩
    rcases hfinished with ⟨⟨⟨bytes, hstore⟩, hcut⟩, hread⟩ | ⟨hcut, hread, hlast, hstore⟩ |
      ⟨hcut, hread, hlast, hstore⟩
    · have he : c'.finish calls.errno = .unwritten calls.errno := by
        rw [Copying.finish, if_pos hcut]
      rw [he]
      exact ⟨fun _ hfails => absurd hfails hread, fun _ => hkept bytes _ hstore
        (fun h => CopyEnd.noConfusion h) fun _ h => CopyEnd.noConfusion h⟩
    · have he : c'.finish calls.errno = .done := by
        rw [Copying.finish, hcut, if_neg Bool.false_ne_true, if_pos hread]
      rw [he]
      exact ⟨fun _ hfails => absurd hfails hlast, fun _ => hkept _ _ hstore
        (fun _ => hdata) fun _ h => CopyEnd.noConfusion h⟩
    · have he : c'.finish calls.errno = .unread calls.errno := by
        rw [Copying.finish, hcut, if_neg Bool.false_ne_true, if_neg (by omega)]
      rw [he]
      constructor
      · intro hk _ hthere
        rw [← (hk.spared _ rfl hthere).2, hstore, hfn, hdata]
      · intro hright
        refine hkept _ _ hstore (fun h => CopyEnd.noConfusion h) fun _ _ hthere => ?_
        rw [hdata]
        exact hright hlast hthere

lemma copyFile_dir_iff (hentry : s.entries ofn = some .dir)
    (h : copyFile s none calls.dirSize fn calls = some (s', e)) :
    CopyKept s ofn fn s' e ↔ DirCareful s fn calls := by
  rcases copyFile_cases h with ⟨hnot, rfl, he⟩ |
    ⟨hbegins, j, t, c, c', left, hopen, hblocks, hrest, rfl, rfl⟩
  · exact ⟨fun _ hb => absurd hb hnot, fun _ => .refused he⟩
  have hopened := Store.openTruncate_opened hopen
  have hlink : s.linkAt ofn = none := by
    rw [Store.linkAt, hentry]
    rfl
  have htarget : s.target ofn = some ofn :=
    Store.resolve_eq_some.mpr ⟨0, by decide, rfl, hlink⟩
  have hcontent : s.content ofn = none := by
    rw [Store.content, Store.inode, htarget, Option.bind_some, hentry]
    rfl
  have hidle : Copying.Idle ⟨t, none, j, calls.dirSize, 0, 0, 1, false⟩ := fun _ _ => rfl
  have hend := hidle.loops rfl hblocks hrest
  have hstore : c'.store = t := by
    rw [hend]
    split_ifs <;> rfl
  have hfn : t.content fn = some [] := by
    rw [Store.inode_data hopened.inode, hopened.empty]
  have hcareful : DirCareful s fn calls ↔ calls.dirSize ≠ 0 ∧
      (s.entries fn ≠ none → s.content fn = some []) := ⟨fun h => h hbegins, fun h _ => h⟩
  rw [hstore, hcareful]
  by_cases hzero : calls.dirSize = 0
  · have hdone : c'.finish calls.errno = .done := by
      rw [hend, if_pos hzero]
      rfl
    constructor
    · intro hkept
      rcases hkept.copied hdone with ⟨bytes, hbytes, -⟩ | ⟨dest, hdest, -⟩
      · rw [hcontent] at hbytes
        cases hbytes
      · rw [hlink] at hdest
        cases hdest
    · rintro ⟨hne, -⟩
      exact absurd hzero hne
  · have hunread : c'.finish calls.errno = .unread calls.errno := by
      rw [hend, if_neg hzero]
      rfl
    rw [hunread]
    constructor
    · intro hkept
      refine ⟨hzero, fun hthere => ?_⟩
      rw [← (hkept.spared _ rfl hthere).2, hfn]
    · rintro ⟨-, hempty⟩
      refine ⟨fun dest hdest => ?_, fun bytes hbytes => ?_, fun h => CopyEnd.noConfusion h,
        fun _ _ hthere => ⟨hopened.entries fn hthere, by rw [hfn, hempty hthere]⟩⟩
      · rw [hlink] at hdest
        cases hdest
      · rw [hcontent] at hbytes
        cases hbytes

structure Unlinks (s : Store P) (fn : P) (calls : CopyCalls) : Prop where
  allowed : calls.unlink = false
  there : s.entries fn ≠ none
  noDir : s.entries fn ≠ some .dir

variable {dest : P}

lemma copyLink_unlinks (hunlinks : Unlinks s fn calls) (h : copyLink s dest fn calls = (s', e)) :
    Store.AgreeBut fn s s' ∧
      ((calls.symlink = none ∧ e = .done ∧ s'.entries fn = some (.symlink dest)) ∨
        (calls.symlink ≠ none ∧ (∃ errno, e = .unwritten errno) ∧ s'.entries fn = none)) := by
  obtain ⟨u, hu, hagree, hgone⟩ := Store.unlink_some hunlinks.there hunlinks.noDir
  simp only [copyLink, hunlinks.allowed, Bool.false_eq_true, if_false, hu, Option.getD_some] at h
  cases hsymlink : calls.symlink with
  | some errno =>
    rw [hsymlink] at h
    obtain ⟨rfl, rfl⟩ := Prod.mk.inj h
    exact ⟨hagree, Or.inr ⟨Option.some_ne_none _, ⟨_, rfl⟩, hgone⟩⟩
  | none =>
    rw [hsymlink] at h
    cases hput : u.symlink dest fn with
    | none => exact absurd hgone (Store.symlink_none hput)
    | some v =>
      rw [hput] at h
      obtain ⟨rfl, rfl⟩ := Prod.mk.inj h
      obtain ⟨-, hnext, hentry⟩ := Store.symlink_some hput
      exact ⟨hagree.trans hnext, Or.inl ⟨rfl, rfl, hentry⟩⟩

lemma copyLink_else (hunlinks : ¬ Unlinks s fn calls) (h : copyLink s dest fn calls = (s', e)) :
    (s' = s ∧ ∃ errno, e = .unwritten errno) ∨
      (s.entries fn = none ∧ Store.AgreeBut fn s s' ∧ e = .done ∧
        s'.entries fn = some (.symlink dest)) := by
  have hstay : (if calls.unlink = true then s else (s.unlink fn).getD s) = s := by
    split_ifs with hrefused
    · rfl
    · have hnone : s.entries fn = none ∨ s.entries fn = some .dir := by
        by_contra hneither
        rw [not_or] at hneither
        exact hunlinks ⟨by simpa using hrefused, hneither.1, hneither.2⟩
      rw [Store.unlink_none hnone]
      rfl
  rw [copyLink, hstay] at h
  cases hsymlink : calls.symlink with
  | some errno =>
    rw [hsymlink] at h
    obtain ⟨rfl, rfl⟩ := Prod.mk.inj h
    exact Or.inl ⟨rfl, _, rfl⟩
  | none =>
    rw [hsymlink] at h
    cases hput : s.symlink dest fn with
    | none =>
      rw [hput] at h
      obtain ⟨rfl, rfl⟩ := Prod.mk.inj h
      exact Or.inl ⟨rfl, _, rfl⟩
    | some v =>
      rw [hput] at h
      obtain ⟨rfl, rfl⟩ := Prod.mk.inj h
      obtain ⟨hnone, hagree, hentry⟩ := Store.symlink_some hput
      exact Or.inr ⟨hnone, hagree, rfl, hentry⟩

omit [DecidableEq P] in
lemma kept_of_agree (hlink : s.linkAt ofn = some dest) (hne : ofn ≠ fn)
    (hagree : Store.AgreeBut fn s s') (hdone : e = .done → s'.entries fn = some (.symlink dest))
    (hunread : ∀ errno, e ≠ .unread errno) :
    CopyKept s ofn fn s' e ↔ ∀ bytes, s.content ofn = some bytes → s'.content ofn = some bytes := by
  constructor
  · exact CopyKept.content
  · intro hcontent
    refine ⟨fun dest' hdest' => ?_, hcontent, fun h => Or.inr ⟨dest, hlink, ?_⟩,
      fun errno herr => absurd herr (hunread errno)⟩
    · rw [hagree.linkAt hne, hdest']
    · rw [Store.linkAt, hdone h]
      rfl

lemma copyLink_iff (hentry : s.entries ofn = some (.symlink dest))
    (h : copyLink s dest fn calls = (s', e)) :
    CopyKept s ofn fn s' e ↔ LinkCareful s ofn fn calls := by
  have hlink : s.linkAt ofn = some dest := by
    rw [Store.linkAt, hentry]
    rfl
  by_cases hunlinks : Unlinks s fn calls
  · have hcareful : LinkCareful s ofn fn calls ↔ (fn = ofn → calls.symlink = none) ∧
        (fn ≠ ofn → s.Passes ofn fn → s.content ofn = none) :=
      ⟨fun h => h hunlinks.allowed hunlinks.there hunlinks.noDir, fun h _ _ _ => h⟩
    rw [hcareful]
    obtain ⟨hagree, hend⟩ := copyLink_unlinks hunlinks h
    by_cases hsame : fn = ofn
    · subst hsame
      rcases hend with ⟨hsymlink, rfl, hback⟩ | ⟨hsymlink, ⟨errno, rfl⟩, hgone⟩
      · refine ⟨fun _ => ⟨fun _ => hsymlink, fun h => absurd rfl h⟩, fun _ => ?_⟩
        have hlink' : s'.linkAt fn = some dest := by
          rw [Store.linkAt, hback]
          rfl
        refine ⟨fun dest' hdest' => ?_, fun bytes hbytes => ?_,
          fun _ => Or.inr ⟨dest, hlink, hlink'⟩, fun errno h => CopyEnd.noConfusion h⟩
        · rw [hlink', ← hlink, hdest']
        · rw [hagree.restored (by rw [hback, hentry]), hbytes]
      · constructor
        · intro hkept
          have hlost := hkept.link dest hlink
          rw [Store.linkAt, hgone] at hlost
          cases hlost
        · intro hright
          exact absurd (hright.1 rfl) hsymlink
    · have hne : ofn ≠ fn := fun h => hsame h.symm
      have hdone : e = .done → s'.entries fn = some (.symlink dest) := by
        rcases hend with ⟨-, -, hput⟩ | ⟨-, ⟨errno, rfl⟩, -⟩
        · exact fun _ => hput
        · exact fun h => CopyEnd.noConfusion h
      have hunread : ∀ errno, e ≠ .unread errno := by
        rcases hend with ⟨-, rfl, -⟩ | ⟨-, ⟨errno, rfl⟩, -⟩
        · exact fun _ h => CopyEnd.noConfusion h
        · exact fun _ h => CopyEnd.noConfusion h
      rw [kept_of_agree hlink hne hagree hdone hunread]
      by_cases hpass : s.Passes ofn fn
      · have hlost : s'.content ofn = none := by
          rcases hend with ⟨-, -, hput⟩ | ⟨-, -, hgone⟩
          · exact hagree.content_loop hpass hne (by rw [hput, hlink]; rfl)
          · exact hagree.content_gap hpass hgone
        rw [hlost]
        constructor
        · intro hkept
          refine ⟨fun h => absurd h hsame, fun _ _ => ?_⟩
          cases hcontent : s.content ofn with
          | none => rfl
          | some bytes => cases hkept bytes hcontent
        · rintro ⟨-, hnone⟩ bytes hbytes
          rw [hnone hsame hpass] at hbytes
          cases hbytes
      · rw [hagree.content hpass]
        exact ⟨fun _ => ⟨fun h => absurd h hsame, fun _ h => absurd h hpass⟩, fun _ _ h => h⟩
  · have hcareful : LinkCareful s ofn fn calls := fun hallowed hthere hdir =>
      absurd ⟨hallowed, hthere, hdir⟩ hunlinks
    refine ⟨fun _ => hcareful, fun _ => ?_⟩
    rcases copyLink_else hunlinks h with ⟨rfl, errno, rfl⟩ | ⟨hnone, hagree, rfl, hput⟩
    · exact .refused fun h => CopyEnd.noConfusion h
    · have hne : ofn ≠ fn := by
        rintro rfl
        rw [hentry] at hnone
        cases hnone
      rw [kept_of_agree hlink hne hagree (fun _ => hput) fun _ h => CopyEnd.noConfusion h]
      intro bytes hbytes
      -- a way that leads to a file does not end where there is nothing
      have hpass : ¬ s.Passes ofn fn := by
        intro hpass
        rw [(Store.AgreeBut.refl fn s).content_gap hpass hnone] at hbytes
        cases hbytes
      rw [hagree.content hpass, hbytes]

end

def oneLetter : Store String where
  entries p := if p = "a" then some (.file 0) else none
  data _ := [65]
  free := 1
  used p i h := by
    split_ifs at h with hp
    · cases h
      exact Nat.one_pos

def willing (turns : List CopyTurn) : CopyCalls := ⟨false, none, none, none, 0, [], turns⟩

lemma content_oneLetter : oneLetter.entries "a" = some (.file 0) ∧ oneLetter.inode "b" = none := by
  decide

end KioExtras.Fish.Perl
