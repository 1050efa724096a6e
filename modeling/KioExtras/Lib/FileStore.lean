import Mathlib.Data.List.Basic
import Mathlib.Data.Int.Notation
import Mathlib.Logic.Function.Basic
import Mathlib.Tactic.Common

/-!
A store of files under names, with links, in the manner of a POSIX file system.

A name has at most one entry. Names are followed through symbolic links up to a fixed number
of times; what is opened is the entry a name leads to, what is removed or renamed is the entry
itself. Directories are entries without a listing. A handle is the name of an opened entry
and a position.
-/

namespace KioExtras.Lib.FileStore

inductive Kind (P : Type*)
  | file (data : List UInt8)
  | dir
  | symlink (target : P)
  | special
  deriving DecidableEq

structure Attrs where
  perms : ℕ
  uid : ℕ
  gid : ℕ
  atime : ℤ
  mtime : ℤ
  deriving DecidableEq

structure Node (P : Type*) where
  kind : Kind P
  attrs : Attrs
  deriving DecidableEq

abbrev Store (P : Type*) := P → Option (Node P)

variable {P : Type*}

def Kind.isDir : Kind P → Bool
  | .dir => true
  | _ => false

def Kind.isFile : Kind P → Bool
  | .file _ => true
  | _ => false

lemma Kind.isDir_iff {k : Kind P} : k.isDir = true ↔ k = .dir := by
  cases k <;> simp [Kind.isDir]

lemma Kind.isDir_eq_false {k : Kind P} (h : k ≠ .dir) : k.isDir = false := by
  cases k <;> simp_all [Kind.isDir]

def Kind.size : Kind P → ℕ
  | .file data => data.length
  | _ => 0

def Kind.data : Kind P → Option (List UInt8)
  | .file data => some data
  | _ => none

def Kind.link : Kind P → Option P
  | .symlink t => some t
  | _ => none

def maxLinks : ℕ := 40

namespace Store

variable (s : Store P)

/-- What sits at a name, apart from its attributes. -/
def kindAt (p : P) : Option (Kind P) := (s p).map Node.kind

def linkAt (p : P) : Option P := (s.kindAt p).bind Kind.link

/-- The name after at most `n` links, when that many are enough. -/
def resolve (s : Store P) : ℕ → P → Option P
  | 0, _ => none
  | n + 1, p =>
    match s.linkAt p with
    | some t => resolve s n t
    | none => some p

/-- The name that `p` leads to; there may be no entry there. -/
def target (p : P) : Option P := s.resolve maxLinks p

def lstat (p : P) : Option (Node P) := s p

def stat (p : P) : Option (Node P) := (s.target p).bind s

/-- The bytes of the file a name leads to. -/
def content (p : P) : Option (List UInt8) :=
  ((s.target p).bind s.kindAt).bind Kind.data

/-! ### Operations -/

section operations

variable [DecidableEq P]

/-- Bytes written over `data` at a position; a gap before it reads as zeros. -/
def splice (data : List UInt8) (offset : ℕ) (bytes : List UInt8) : List UInt8 :=
  data.take offset ++ List.replicate (offset - data.length) 0 ++ bytes ++
    data.drop (offset + bytes.length)

def setData (s : Store P) (q : P) (f : List UInt8 → List UInt8) : Store P :=
  match s q with
  | some ⟨.file data, a⟩ => Function.update s q (some ⟨.file (f data), a⟩)
  | _ => s

def setAttrs (s : Store P) (p : P) (f : Attrs → Attrs) : Option (Store P) :=
  match s.target p with
  | none => none
  | some q =>
    match s q with
    | none => none
    | some ⟨k, a⟩ => some (Function.update s q (some ⟨k, f a⟩))

def chmod (s : Store P) (p : P) (perms : ℕ) : Option (Store P) :=
  s.setAttrs p fun a => { a with perms := perms }

def chown (s : Store P) (p : P) (uid gid : ℕ) : Option (Store P) :=
  s.setAttrs p fun a => { a with uid := uid, gid := gid }

def utimes (s : Store P) (p : P) (atime mtime : ℤ) : Option (Store P) :=
  s.setAttrs p fun a => { a with atime := atime, mtime := mtime }

def openExisting (s : Store P) (p : P) : Option P :=
  match s.target p with
  | none => none
  | some q =>
    match s q with
    | none => none
    | some n => if n.kind.isDir then none else some q

/-- Open for writing, with the file emptied or created. -/
def openTruncate (s : Store P) (p : P) (fresh : Attrs) : Option (P × Store P) :=
  match s.target p with
  | none => none
  | some q =>
    match s q with
    | none => some (q, Function.update s q (some ⟨.file [], fresh⟩))
    | some n => if n.kind.isDir then none else some (q, s.setData q fun _ => [])

/-- Remove an entry that is not a directory. -/
def unlink (s : Store P) (p : P) : Option (Store P) :=
  match s p with
  | none => none
  | some n => if n.kind.isDir then none else some (Function.update s p none)

/-- Rename, replacing what is at the new name unless it is a directory. -/
def rename (s : Store P) (p q : P) : Option (Store P) :=
  match s p with
  | none => none
  | some n =>
    if p = q then some s
    else match s q with
      | some m => if m.kind.isDir || n.kind.isDir then none
        else some (Function.update (Function.update s p none) q (some n))
      | none => some (Function.update (Function.update s p none) q (some n))

def renameNew (s : Store P) (p q : P) : Option (Store P) :=
  match s q with
  | none => s.rename p q
  | some _ => none

def ofFiles (files : List (P × List UInt8)) : Store P := fun p =>
  (files.lookup p).map fun data => ⟨.file data, ⟨0o644, 1000, 1000, 0, 0⟩⟩

end operations

end Store

/-- An opened entry and the position in it. -/
structure Handle (P : Type*) where
  path : P
  offset : ℕ

def Store.write [DecidableEq P] (s : Store P) (h : Handle P) (bytes : List UInt8) :
    Store P × Handle P :=
  (s.setData h.path fun data => Store.splice data h.offset bytes,
    { h with offset := h.offset + bytes.length })

namespace Store

/-! ### Reading -/

variable {s t : Store P} {p q : P} {k : Kind P}

lemma resolve_congr (h : ∀ p, s.linkAt p = t.linkAt p) (n : ℕ) (p : P) :
    s.resolve n p = t.resolve n p := by
  induction n generalizing p with
  | zero => rfl
  | succ n ih =>
    unfold resolve
    rw [h p]
    cases t.linkAt p with
    | none => rfl
    | some t => exact ih t

lemma target_congr (h : ∀ p, s.linkAt p = t.linkAt p) (p : P) : s.target p = t.target p :=
  resolve_congr h maxLinks p

lemma target_of_linkAt (h : s.linkAt p = none) : s.target p = some p := by
  simp [target, maxLinks, resolve, h]

lemma linkAt_of_kindAt (h : s.kindAt p = t.kindAt p) : s.linkAt p = t.linkAt p := by
  simp [linkAt, h]

lemma linkAt_none (h : s.kindAt p = none) : s.linkAt p = none := by
  simp [linkAt, h]

lemma linkAt_file {data : List UInt8} (h : s.kindAt p = some (.file data)) : s.linkAt p = none := by
  simp [linkAt, h, Kind.link]

lemma resolve_linkAt {n : ℕ} (h : s.resolve n p = some q) : s.linkAt q = none := by
  induction n generalizing p with
  | zero => simp [resolve] at h
  | succ n ih =>
    unfold resolve at h
    cases hp : s.linkAt p with
    | none =>
      simp only [hp, Option.some.injEq] at h
      exact h ▸ hp
    | some t =>
      simp only [hp] at h
      exact ih h

lemma target_linkAt (h : s.target p = some q) : s.linkAt q = none :=
  resolve_linkAt h

lemma resolve_mono {m n : ℕ} (hmn : m ≤ n) (h : s.resolve m p = some q) :
    s.resolve n p = some q := by
  induction m generalizing n p with
  | zero => simp [resolve] at h
  | succ m ih =>
    obtain ⟨n, rfl⟩ : ∃ k, n = k + 1 := ⟨n - 1, by omega⟩
    unfold resolve at h ⊢
    cases hp : s.linkAt p with
    | none => simpa [hp] using h
    | some t =>
      simp only [hp] at h ⊢
      exact ih (by omega) h

lemma target_self (h : s.target p = some q) : s.target q = some q :=
  target_of_linkAt (target_linkAt h)

/-- Two names do not lead to the same place. -/
def Apart (s : Store P) (p p' : P) : Prop := ∀ q, s.target p = some q → s.target p' ≠ some q

lemma content_of_target {data : List UInt8} (ht : s.target p = some q)
    (h : s.kindAt q = some (.file data)) : s.content p = some data := by
  simp [content, ht, h, Kind.data]

lemma content_of_file {data : List UInt8} (h : s.kindAt p = some (.file data)) :
    s.content p = some data :=
  content_of_target (target_of_linkAt (linkAt_file h)) h

lemma kindAt_eq_some : s.kindAt p = some k ↔ ∃ a, s p = some ⟨k, a⟩ := by
  simp only [kindAt, Option.map_eq_some_iff]
  constructor
  · rintro ⟨⟨k', a⟩, h, rfl⟩
    exact ⟨a, h⟩
  · rintro ⟨a, h⟩
    exact ⟨_, h, rfl⟩

lemma kindAt_eq_none : s.kindAt p = none ↔ s p = none := by
  simp [kindAt]

lemma stat_of_linkAt (h : s.linkAt p = none) : s.stat p = s p := by
  simp [stat, target_of_linkAt h]

lemma content_eq_some {data : List UInt8} :
    s.content p = some data ↔ ∃ a, s.stat p = some ⟨.file data, a⟩ := by
  unfold content stat
  cases s.target p with
  | none => simp
  | some q =>
    simp only [Option.bind_some, Option.bind_eq_some_iff, kindAt_eq_some]
    constructor
    · rintro ⟨k, ⟨a, ha⟩, hk⟩
      cases k <;> simp_all [Kind.data]
    · rintro ⟨a, ha⟩
      exact ⟨_, ⟨a, ha⟩, rfl⟩

lemma kindAt_of_eq (h : s p = t p) : s.kindAt p = t.kindAt p := by
  simp [kindAt, h]

lemma content_congr (h : ∀ p, s.kindAt p = t.kindAt p) (p : P) : s.content p = t.content p := by
  have ht : s.target p = t.target p := target_congr (fun p => linkAt_of_kindAt (h p)) p
  have hk : s.kindAt = t.kindAt := funext h
  rw [content, content, ht, hk]

lemma content_of_agree {data : List UInt8} (h : s.content p = some data)
    (hagree : ∀ x, s.target x = s.target p → t x = s x) : t.content p = some data := by
  unfold content at h
  obtain ⟨k, hk, hdata⟩ := Option.bind_eq_some_iff.mp h
  obtain ⟨r, hr, hrk⟩ := Option.bind_eq_some_iff.mp hk
  have hresolve : ∀ n ≤ maxLinks, ∀ x, s.resolve n x = some r → t.resolve n x = some r := by
    intro n
    induction n with
    | zero =>
      intro _ x hx
      simp [resolve] at hx
    | succ n ih =>
      intro hn x hx
      have hsame : t.linkAt x = s.linkAt x :=
        linkAt_of_kindAt (kindAt_of_eq (hagree x ((resolve_mono hn hx).trans hr.symm)))
      unfold resolve at hx ⊢
      rw [hsame]
      cases hl : s.linkAt x with
      | none => simpa [hl] using hx
      | some y =>
        simp only [hl] at hx ⊢
        exact ih (by omega) y hx
  have htarget : t.target p = some r := hresolve maxLinks (Nat.le_refl _) p hr
  have hkind : t.kindAt r = some k :=
    (kindAt_of_eq (hagree r ((target_self hr).trans hr.symm))).trans hrk
  simp [content, htarget, hkind, hdata]

lemma openExisting_of_file {data : List UInt8} (ht : s.target p = some q)
    (hk : s.kindAt q = some (.file data)) : s.openExisting p = some q := by
  obtain ⟨a, ha⟩ := kindAt_eq_some.mp hk
  simp [openExisting, ht, ha, Kind.isDir]

/-- A name that can be opened for writing, if it need not exist. -/
def Openable (s : Store P) (p : P) : Prop := ∃ q, s.target p = some q ∧ s.kindAt q ≠ some .dir

lemma openExisting_eq_some :
    s.openExisting p = some q ↔
      s.target p = some q ∧ ∃ k, s.kindAt q = some k ∧ k.isDir = false := by
  unfold openExisting
  cases ht : s.target p with
  | none => simp
  | some r =>
    simp only [Option.some.injEq]
    cases hr : s r with
    | none =>
      simp only [reduceCtorEq, false_iff]
      rintro ⟨rfl, k, hk, -⟩
      simp [kindAt, hr] at hk
    | some n =>
      cases hd : n.kind.isDir with
      | true =>
        simp only [hd, if_true, reduceCtorEq, false_iff]
        rintro ⟨rfl, k, hk, hkd⟩
        simp only [kindAt, hr, Option.map_some, Option.some.injEq] at hk
        simp [← hk, hd] at hkd
      | false =>
        simp only [hd, Bool.false_eq_true, if_false, Option.some.injEq]
        constructor
        · rintro rfl
          exact ⟨rfl, n.kind, by simp [kindAt, hr], hd⟩
        · exact fun h => h.1

lemma link_of_target_ne (h : s.target p = some q) (hpq : p ≠ q) :
    ∃ k, s.kindAt p = some k ∧ k.isDir = false := by
  cases hl : s.linkAt p with
  | none =>
    rw [target_of_linkAt hl, Option.some.injEq] at h
    exact absurd h hpq
  | some t =>
    unfold linkAt at hl
    obtain ⟨k, hk, hkl⟩ := Option.bind_eq_some_iff.mp hl
    refine ⟨k, hk, ?_⟩
    cases k <;> simp_all [Kind.link, Kind.isDir]

lemma entry_of_target (h : s.target p = some q) (hk : ∃ k, s.kindAt q = some k ∧ k.isDir = false) :
    ∃ k, s.kindAt p = some k ∧ k.isDir = false := by
  by_cases hpq : p = q
  · exact hpq ▸ hk
  · exact link_of_target_ne h hpq

/-- The same names have entries, and the same ones are directories. -/
def SameShape (s t : Store P) : Prop :=
  ∀ p, (s.kindAt p).map Kind.isDir = (t.kindAt p).map Kind.isDir

lemma SameShape.refl (s : Store P) : SameShape s s := fun _ => rfl

lemma SameShape.trans {u : Store P} (h : SameShape s t) (h' : SameShape t u) :
    SameShape s u := fun p => (h p).trans (h' p)

lemma SameShape.isDir (h : SameShape s t) (p : P) :
    s.kindAt p = some .dir ↔ t.kindAt p = some .dir := by
  have hdir : ∀ u : Store P, u.kindAt p = some .dir ↔ (u.kindAt p).map Kind.isDir = some true := by
    intro u
    rcases u.kindAt p with _ | ⟨_ | _ | _ | _⟩ <;> simp [Kind.isDir]
  rw [hdir s, hdir t, h p]

/-! ### Writing -/

variable [DecidableEq P]

lemma setAttrs_kindAt {f : Attrs → Attrs} (h : s.setAttrs p f = some t) (q : P) :
    t.kindAt q = s.kindAt q := by
  unfold setAttrs at h
  split at h
  · simp at h
  · rename_i r _
    split at h
    · simp at h
    · rename_i hr
      simp only [Option.some.injEq] at h
      subst h
      by_cases hq : q = r
      · subst hq; simp [kindAt, hr]
      · simp [kindAt, Function.update_of_ne hq]

lemma getD_setAttrs_kindAt (s : Store P) (p : P) (f : Attrs → Attrs) (q : P) :
    ((s.setAttrs p f).getD s).kindAt q = s.kindAt q := by
  cases h : s.setAttrs p f with
  | none => rfl
  | some t => exact setAttrs_kindAt h q

lemma getD_setAttrs_ne (f : Attrs → Attrs) (hq : s.target p ≠ some q) :
    ((s.setAttrs p f).getD s) q = s q := by
  unfold setAttrs
  cases hp : s.target p with
  | none => rfl
  | some r =>
    have hne : q ≠ r := by
      rintro rfl
      exact hq hp
    cases hr : s r with
    | none => simp [hr]
    | some n => simp [hr, Function.update_of_ne hne]

lemma apart_ofFiles {files : List (P × List UInt8)} {p' : P} (h : p ≠ p') :
    (ofFiles files).Apart p p' := by
  have hlink : ∀ x, (ofFiles files).linkAt x = none := by
    intro x
    cases hx : files.lookup x <;> simp [ofFiles, linkAt, kindAt, hx, Kind.link]
  intro q hp hp'
  rw [target_of_linkAt (hlink p)] at hp
  rw [target_of_linkAt (hlink p'), ← hp] at hp'
  exact h (Option.some.inj hp').symm

@[simp] lemma splice_nil (data : List UInt8) (offset : ℕ) (h : offset ≤ data.length) :
    splice data offset [] = data := by
  simp [splice, Nat.sub_eq_zero_of_le h]

lemma splice_end (data bytes : List UInt8) : splice data data.length bytes = data ++ bytes := by
  simp [splice]

lemma splice_splice (data : List UInt8) (offset : ℕ) (bytes rest : List UInt8) :
    splice (splice data offset bytes) (offset + bytes.length) rest =
      splice data offset (bytes ++ rest) := by
  have hhead : (data.take offset ++ List.replicate (offset - data.length) 0 ++ bytes).length =
      offset + bytes.length := by
    simp only [List.length_append, List.length_take, List.length_replicate]
    omega
  have hlength : offset + bytes.length ≤ (splice data offset bytes).length := by
    rw [splice, List.length_append]
    omega
  have htake : (splice data offset bytes).take (offset + bytes.length) =
      data.take offset ++ List.replicate (offset - data.length) 0 ++ bytes := by
    rw [splice, List.take_append_of_le_length (by omega), List.take_of_length_le (by omega)]
  have hdrop : (splice data offset bytes).drop (offset + bytes.length + rest.length) =
      data.drop (offset + (bytes ++ rest).length) := by
    rw [splice, List.drop_append, hhead, List.drop_of_length_le (by omega), List.nil_append,
      List.drop_drop, List.length_append]
    congr 1
    omega
  have hgap : offset + bytes.length - (splice data offset bytes).length = 0 := by omega
  rw [splice.eq_def (splice data offset bytes), htake, hdrop, hgap]
  simp [splice]

lemma setData_self {data : List UInt8} (h : s.kindAt q = some (.file data))
    (f : List UInt8 → List UInt8) : (s.setData q f).kindAt q = some (.file (f data)) := by
  obtain ⟨a, ha⟩ := kindAt_eq_some.mp h
  simp [setData, ha, kindAt]

lemma setData_ne (h : p ≠ q) (f : List UInt8 → List UInt8) : s.setData q f p = s p := by
  unfold setData
  rcases s q with _ | ⟨_ | _ | _ | _, _⟩ <;> simp [Function.update_of_ne h]

lemma setData_linkAt (s : Store P) (q : P) (f : List UInt8 → List UInt8) (p : P) :
    (s.setData q f).linkAt p = s.linkAt p := by
  by_cases h : p = q
  · subst h
    rcases hs : s p with _ | ⟨_ | _ | _ | _, _⟩ <;>
      simp [setData, linkAt, kindAt, hs, Kind.link]
  · simp [linkAt, kindAt, setData_ne h]

/-! ### Removing, renaming and opening -/

lemma unlink_of_kindAt (h : s.kindAt p = some k) (hk : k.isDir = false) :
    s.unlink p = some (Function.update s p none) := by
  obtain ⟨a, ha⟩ := kindAt_eq_some.mp h
  simp [unlink, ha, hk]

lemma unlink_ne (h : s.unlink p = some t) (hq : q ≠ p) : t q = s q := by
  unfold unlink at h
  cases hp : s p with
  | none => simp [hp] at h
  | some n =>
    simp only [hp] at h
    split at h
    · simp at h
    · simp only [Option.some.injEq] at h
      subst h
      simp [Function.update_of_ne hq]

lemma renameNew_of_none (hp : s.kindAt p = some k) (hq : s.kindAt q = none) (hpq : p ≠ q) :
    ∃ t, s.renameNew p q = some t ∧ t.kindAt q = some k ∧ t.kindAt p = none ∧
      ∀ r, r ≠ p → r ≠ q → t r = s r := by
  obtain ⟨a, ha⟩ := kindAt_eq_some.mp hp
  have hq' := kindAt_eq_none.mp hq
  refine ⟨Function.update (Function.update s p none) q (some ⟨k, a⟩), ?_, ?_, ?_, ?_⟩
  · simp [renameNew, hq', rename, ha, hpq]
  · simp [kindAt]
  · simp [kindAt, Function.update_of_ne hpq]
  · intro r hrp hrq
    simp [Function.update_of_ne hrp, Function.update_of_ne hrq]

lemma renameNew_of_some (hq : s.kindAt q = some k) : s.renameNew p q = none := by
  obtain ⟨a, ha⟩ := kindAt_eq_some.mp hq
  simp [renameNew, ha]

def AtEnd (s : Store P) (h : Handle P) (data : List UInt8) : Prop :=
  s.kindAt h.path = some (.file data) ∧ h.offset = data.length

lemma openTruncate_atEnd (fresh : Attrs) (ht : s.target p = some q)
    (hk : s.kindAt q = none ∨ ∃ data, s.kindAt q = some (.file data)) :
    ∃ t, s.openTruncate p fresh = some (q, t) ∧ t.AtEnd ⟨q, 0⟩ [] ∧ ∀ r, r ≠ q → t r = s r := by
  rcases hk with hk | ⟨data, hk⟩
  · refine ⟨Function.update s q (some ⟨.file [], fresh⟩), ?_, ⟨?_, rfl⟩, ?_⟩
    · simp [openTruncate, ht, kindAt_eq_none.mp hk]
    · simp [kindAt]
    · intro r hr
      simp [Function.update_of_ne hr]
  · obtain ⟨a, ha⟩ := kindAt_eq_some.mp hk
    refine ⟨s.setData q fun _ => [], ?_, ⟨setData_self hk _, rfl⟩, fun r hr => setData_ne hr _⟩
    simp [openTruncate, ht, ha, Kind.isDir]

lemma openTruncate_eq_none {fresh : Attrs} : s.openTruncate p fresh = none ↔ ¬ s.Openable p := by
  unfold openTruncate Openable
  cases ht : s.target p with
  | none => simp
  | some q =>
    simp only [Option.some.injEq, exists_eq_left']
    cases hq : s q with
    | none => simp [kindAt, hq]
    | some n =>
      cases hd : n.kind.isDir with
      | true =>
        have hdir : n.kind = .dir := Kind.isDir_iff.mp hd
        simp [kindAt, hq, hdir, Kind.isDir]
      | false =>
        have hne : n.kind ≠ .dir := fun h => by simp [h, Kind.isDir] at hd
        simp [hd, kindAt, hq, hne]

lemma openTruncate_some {fresh : Attrs} (h : s.openTruncate p fresh = some (q, t)) :
    s.target p = some q ∧ s.kindAt q ≠ some .dir ∧
      (∃ k, t.kindAt q = some k ∧ k.isDir = false) ∧ ∀ r, r ≠ q → t r = s r := by
  unfold openTruncate at h
  cases ht : s.target p with
  | none => simp [ht] at h
  | some q' =>
    simp only [ht] at h
    cases hq : s q' with
    | none =>
      simp only [hq, Option.some.injEq, Prod.mk.injEq] at h
      obtain ⟨rfl, rfl⟩ := h
      refine ⟨rfl, by simp [kindAt, hq], ⟨.file [], by simp [kindAt], rfl⟩, fun r hr => ?_⟩
      simp [Function.update_of_ne hr]
    | some n =>
      cases hd : n.kind.isDir with
      | true => simp [hq, hd] at h
      | false =>
        simp only [hq, hd, Bool.false_eq_true, if_false, Option.some.injEq, Prod.mk.injEq] at h
        obtain ⟨rfl, rfl⟩ := h
        have hk : s.kindAt q' = some n.kind := by simp [kindAt, hq]
        refine ⟨rfl, ?_, ?_, fun r hr => setData_ne hr _⟩
        · rintro hdir
          rw [hk, Option.some.injEq] at hdir
          simp [hdir, Kind.isDir] at hd
        · cases hn : n.kind with
          | file data => exact ⟨_, setData_self (hn ▸ hk) _, rfl⟩
          | dir => simp [hn, Kind.isDir] at hd
          | symlink t =>
            refine ⟨.symlink t, ?_, rfl⟩
            obtain ⟨k, a⟩ := n
            simp only at hn
            simp [setData, hq, hn, kindAt]
          | special =>
            refine ⟨.special, ?_, rfl⟩
            obtain ⟨k, a⟩ := n
            simp only at hn
            simp [setData, hq, hn, kindAt]

lemma openTruncate_linkAt {fresh : Attrs} (h : s.openTruncate p fresh = some (q, t)) :
    t.linkAt q = none := by
  unfold openTruncate at h
  split at h
  · simp at h
  · rename_i q' hq
    split at h
    · simp only [Option.some.injEq, Prod.mk.injEq] at h
      obtain ⟨rfl, rfl⟩ := h
      simp [linkAt, kindAt, Kind.link]
    · split_ifs at h
      simp only [Option.some.injEq, Prod.mk.injEq] at h
      obtain ⟨rfl, rfl⟩ := h
      rw [setData_linkAt]
      exact target_linkAt hq

lemma rename_spec (hpq : p ≠ q) (hp : s.kindAt p = some k) (hk : k.isDir = false) :
    (s.kindAt q = some .dir ∧ s.rename p q = none) ∨
      (s.kindAt q ≠ some .dir ∧ ∃ t, s.rename p q = some t ∧ t.kindAt q = some k) := by
  obtain ⟨a, ha⟩ := kindAt_eq_some.mp hp
  cases hq : s q with
  | none =>
    refine Or.inr ⟨by simp [kindAt, hq],
      Function.update (Function.update s p none) q (some ⟨k, a⟩), ?_, ?_⟩
    · simp [rename, ha, hpq, hq]
    · simp [kindAt]
  | some m =>
    cases hd : m.kind.isDir with
    | true =>
      refine Or.inl ⟨by simp [kindAt, hq, Kind.isDir_iff.mp hd], ?_⟩
      simp [rename, ha, hpq, hq, hd]
    | false =>
      have hne : m.kind ≠ .dir := fun h => by simp [h, Kind.isDir] at hd
      refine Or.inr ⟨by simp [kindAt, hq, hne],
        Function.update (Function.update s p none) q (some ⟨k, a⟩), ?_, ?_⟩
      · simp [rename, ha, hpq, hq, hd, hk]
      · simp [kindAt]

lemma rename_moves (hpq : p ≠ q) (h : s.rename p q = some t) : t p = none := by
  unfold rename at h
  cases hp : s p with
  | none => simp [hp] at h
  | some n =>
    simp only [hp, if_neg hpq] at h
    cases hq : s q with
    | none =>
      simp only [hq, Option.some.injEq] at h
      simp [← h, Function.update_of_ne hpq]
    | some m =>
      simp only [hq] at h
      split_ifs at h
      simp only [Option.some.injEq] at h
      simp [← h, Function.update_of_ne hpq]

lemma AtEnd.write {h : Handle P} {data : List UInt8} (hs : s.AtEnd h data) (bytes : List UInt8) :
    (s.write h bytes).1.AtEnd (s.write h bytes).2 (data ++ bytes) := by
  obtain ⟨hk, ho⟩ := hs
  refine ⟨?_, by simp [Store.write, ho]⟩
  simp only [Store.write]
  rw [setData_self hk, ho, splice_end]

@[simp] lemma write_path (s : Store P) (h : Handle P) (bytes : List UInt8) :
    (s.write h bytes).2.path = h.path := rfl

lemma write_ne {h : Handle P} (hp : p ≠ h.path) (bytes : List UInt8) :
    (s.write h bytes).1 p = s p :=
  setData_ne hp _

lemma write_linkAt (s : Store P) (h : Handle P) (bytes : List UInt8) (p : P) :
    (s.write h bytes).1.linkAt p = s.linkAt p :=
  setData_linkAt s h.path _ p

lemma write_shape (s : Store P) (h : Handle P) (bytes : List UInt8) :
    SameShape (s.write h bytes).1 s := by
  intro p
  by_cases hp : p = h.path
  · subst hp
    rcases hs : s h.path with _ | ⟨_ | _ | _ | _, _⟩ <;>
      simp [Store.write, setData, kindAt, hs, Kind.isDir]
  · simp [kindAt, write_ne hp]

/-- A store in which nothing was changed but the entry that a handle writes. -/
structure Writing (before : Store P) (q : P) (s : Store P) (h : Handle P) : Prop where
  named : h.path = q
  entry : ∃ k, s.kindAt q = some k ∧ k.isDir = false
  other : ∀ p, p ≠ q → s p = before p

lemma Writing.write {before : Store P} {h : Handle P} (hw : Writing before q s h)
    (bytes : List UInt8) : Writing before q (s.write h bytes).1 (s.write h bytes).2 := by
  obtain ⟨hn, ⟨k, hk, hdir⟩, ho⟩ := hw
  refine ⟨hn, ?_, fun p hp => (write_ne (hn ▸ hp) bytes).trans (ho p hp)⟩
  have hshape := write_shape s h bytes q
  rw [hk, Option.map_some, hdir, Option.map_eq_some_iff] at hshape
  exact hshape

lemma Writing.entry_of_target {before : Store P} {h : Handle P} (hw : Writing before q s h)
    (ht : before.target p = some q) : ∃ k, s.kindAt p = some k ∧ k.isDir = false := by
  by_cases hpq : p = q
  · exact hpq ▸ hw.entry
  · rw [kindAt_of_eq (hw.other p hpq)]
    exact link_of_target_ne ht hpq

end Store

end KioExtras.Lib.FileStore
