import KioExtras.Lib.FileStore
import Mathlib.Data.Nat.Find

/-!
A store of files that may have several names: an entry has the number of a file, and the bytes
belong to the number. Names are followed through symbolic links up to a fixed number of times.
-/

namespace KioExtras.Lib.Inodes

inductive Entry (P : Type*)
  | file (inode : ℕ)
  | dir
  | symlink (target : P)
  deriving DecidableEq

/-- The numbers from `free` on are not in use. -/
structure Store (P : Type*) where
  entries : P → Option (Entry P)
  data : ℕ → List UInt8
  free : ℕ
  used : ∀ p i, entries p = some (.file i) → i < free

variable {P : Type*}

def Entry.link : Entry P → Option P
  | .symlink target => some target
  | _ => none

def Entry.inode : Entry P → Option ℕ
  | .file inode => some inode
  | _ => none

namespace Store

def linkAt (s : Store P) (p : P) : Option P := (s.entries p).bind Entry.link

/-- The name behind so many links. -/
def hops (s : Store P) : ℕ → P → Option P
  | 0, p => some p
  | k + 1, p => (s.linkAt p).bind (hops s k)

/-- The name after at most `n` links, when that many are enough. -/
def resolve (s : Store P) : ℕ → P → Option P
  | 0, _ => none
  | n + 1, p =>
    match s.linkAt p with
    | some target => resolve s n target
    | none => some p

def target (s : Store P) (p : P) : Option P := s.resolve FileStore.maxLinks p

/-- The file that a name leads to. -/
def inode (s : Store P) (p : P) : Option ℕ := ((s.target p).bind s.entries).bind Entry.inode

/-- The bytes of the file that a name leads to. -/
def content (s : Store P) (p : P) : Option (List UInt8) := (s.inode p).map s.data

/-! ### Operations -/

def setData (s : Store P) (i : ℕ) (bytes : List UInt8) : Store P :=
  { s with data := Function.update s.data i bytes }

variable [DecidableEq P]

/-- A new file without bytes. -/
def create (s : Store P) (q : P) : Store P where
  entries := Function.update s.entries q (some (.file s.free))
  data := Function.update s.data s.free []
  free := s.free + 1
  used p i h := by
    by_cases hp : p = q
    · subst hp
      rw [Function.update_self] at h
      have hi : s.free = i := by simpa using h
      omega
    · rw [Function.update_of_ne hp] at h
      exact Nat.lt_succ_of_lt (s.used p i h)

def openTruncate (s : Store P) (p : P) : Option (ℕ × Store P) :=
  (s.target p).bind fun q =>
    match s.entries q with
    | none => some (s.free, s.create q)
    | some (.file i) => some (i, s.setData i [])
    | some .dir => none
    | some (.symlink _) => none

def put (s : Store P) (p : P) (entry : Option (Entry P)) (h : ∀ i, entry ≠ some (.file i)) :
    Store P where
  entries := Function.update s.entries p entry
  data := s.data
  free := s.free
  used q i hq := by
    by_cases hp : q = p
    · subst hp
      rw [Function.update_self] at hq
      exact absurd hq (h i)
    · rw [Function.update_of_ne hp] at hq
      exact s.used q i hq

def unlink (s : Store P) (p : P) : Option (Store P) :=
  match s.entries p with
  | none => none
  | some .dir => none
  | some (.file _) => some (s.put p none (by simp))
  | some (.symlink _) => some (s.put p none (by simp))

def symlink (s : Store P) (target p : P) : Option (Store P) :=
  match s.entries p with
  | none => some (s.put p (some (.symlink target)) (by simp))
  | some _ => none

/-! ### Following links -/

omit [DecidableEq P]

variable {s t : Store P} {p q r : P} {i j : ℕ}

def Passes (s : Store P) (p q : P) : Prop := ∃ k, s.hops k p = some q

lemma hops_succ (s : Store P) (k : ℕ) (p : P) : s.hops (k + 1) p = (s.hops k p).bind s.linkAt := by
  induction k generalizing p with
  | zero =>
    rw [hops, hops, Option.bind_some]
    cases s.linkAt p with
    | none => rfl
    | some target => rfl
  | succ k ih =>
    rw [hops]
    cases hlink : s.linkAt p with
    | none => simp [hops, hlink]
    | some target =>
      rw [Option.bind_some, ih, hops, hlink, Option.bind_some]

lemma resolve_eq_some {n : ℕ} :
    s.resolve n p = some q ↔ ∃ k < n, s.hops k p = some q ∧ s.linkAt q = none := by
  induction n generalizing p with
  | zero => simp [resolve]
  | succ n ih =>
    unfold resolve
    cases hlink : s.linkAt p with
    | none =>
      dsimp only
      constructor
      · intro h
        obtain rfl := Option.some.inj h
        exact ⟨0, Nat.succ_pos n, rfl, hlink⟩
      · rintro ⟨k, -, hk, -⟩
        cases k with
        | zero => exact hk
        | succ k =>
          rw [hops, hlink] at hk
          cases hk
    | some target =>
      dsimp only
      rw [ih]
      constructor
      · rintro ⟨k, hk, hq, hend⟩
        exact ⟨k + 1, Nat.succ_lt_succ hk, by rw [hops, hlink]; exact hq, hend⟩
      · rintro ⟨k, hk, hq, hend⟩
        cases k with
        | zero =>
          obtain rfl := Option.some.inj hq
          rw [hlink] at hend
          cases hend
        | succ k =>
          rw [hops, hlink] at hq
          exact ⟨k, Nat.lt_of_succ_lt_succ hk, hq, hend⟩

lemma target_passes (h : s.target p = some q) : s.Passes p q := by
  obtain ⟨k, -, hk, -⟩ := resolve_eq_some.mp h
  exact ⟨k, hk⟩

/-- Two stores agree up to the entry of one name. -/
structure AgreeBut (r : P) (s t : Store P) : Prop where
  entries : ∀ p, p ≠ r → t.entries p = s.entries p
  data : t.data = s.data

lemma AgreeBut.refl (r : P) (s : Store P) : AgreeBut r s s := ⟨fun _ _ => rfl, rfl⟩

lemma AgreeBut.trans {u : Store P} (h : AgreeBut r s t) (h' : AgreeBut r t u) : AgreeBut r s u :=
  ⟨fun p hp => (h'.entries p hp).trans (h.entries p hp), h'.data.trans h.data⟩

lemma AgreeBut.linkAt (h : AgreeBut r s t) (hp : p ≠ r) : t.linkAt p = s.linkAt p := by
  rw [Store.linkAt, Store.linkAt, h.entries p hp]

lemma AgreeBut.hops (h : AgreeBut r s t) {k : ℕ} (hmiss : ∀ j < k, s.hops j p ≠ some r) :
    t.hops k p = s.hops k p := by
  induction k with
  | zero => rfl
  | succ k ih =>
    rw [hops_succ, hops_succ, ih fun j hj => hmiss j (Nat.lt_succ_of_lt hj)]
    cases hk : s.hops k p with
    | none => rfl
    | some q =>
      have hq : q ≠ r := by
        rintro rfl
        exact hmiss k (Nat.lt_succ_self k) hk
      exact h.linkAt hq

lemma AgreeBut.content (h : AgreeBut r s t) (hmiss : ¬ s.Passes p r) :
    t.content p = s.content p := by
  have hhops : ∀ k, t.hops k p = s.hops k p := fun k => h.hops fun j _ hj => hmiss ⟨j, hj⟩
  have hend : ∀ {k q}, s.hops k p = some q → q ≠ r := by
    rintro k q hk rfl
    exact hmiss ⟨k, hk⟩
  have htarget : t.target p = s.target p := by
    apply Option.ext
    intro q
    rw [target, target, resolve_eq_some, resolve_eq_some]
    constructor
    · rintro ⟨k, hk, hq, hlast⟩
      rw [hhops] at hq
      exact ⟨k, hk, hq, by rw [← h.linkAt (hend hq)]; exact hlast⟩
    · rintro ⟨k, hk, hq, hlast⟩
      exact ⟨k, hk, by rw [hhops]; exact hq, by rw [h.linkAt (hend hq)]; exact hlast⟩
  rw [Store.content, Store.content, inode, inode, htarget, h.data]
  cases hq : s.target p with
  | none => rfl
  | some q =>
    obtain ⟨k, hk⟩ := target_passes hq
    rw [Option.bind_some, Option.bind_some, h.entries q (hend hk)]

lemma content_eq_none (h : ∀ q, s.target p = some q → s.entries q = none) : s.content p = none := by
  rw [content, inode]
  cases hq : s.target p with
  | none => rfl
  | some q =>
    rw [Option.bind_some, h q hq]
    rfl

lemma Passes.first (h : s.Passes p r) :
    ∃ k, s.hops k p = some r ∧ ∀ j < k, s.hops j p ≠ some r := by
  classical
  exact ⟨Nat.find h, Nat.find_spec h, fun j hj => Nat.find_min h hj⟩

lemma hops_some_of_le {j k : ℕ} (hjk : j ≤ k) (h : s.hops k p = some q) :
    ∃ q', s.hops j p = some q' := by
  obtain ⟨d, rfl⟩ := Nat.exists_eq_add_of_le hjk
  induction d generalizing q with
  | zero => exact ⟨q, h⟩
  | succ d ih =>
    rw [← Nat.add_assoc, hops_succ] at h
    obtain ⟨q', hq', -⟩ := Option.bind_eq_some_iff.mp h
    exact ih (Nat.le_add_right j d) hq'

/-- **A way is cut** where a name on it has no entry any more. -/
lemma AgreeBut.content_gap (h : AgreeBut r s t) (hpass : s.Passes p r) (hgap : t.entries r = none) :
    t.content p = none := by
  obtain ⟨k, hk, hmiss⟩ := hpass.first
  have hstop : t.linkAt r = none := by rw [Store.linkAt, hgap]; rfl
  apply content_eq_none
  intro q hq
  obtain ⟨n, -, hn, hlast⟩ := resolve_eq_some.mp hq
  rcases Nat.lt_trichotomy n k with hlt | rfl | hgt
  · -- before that every name is a link
    rw [h.hops fun j hj => hmiss j (by omega)] at hn
    obtain ⟨q', hq'⟩ := hops_some_of_le (Nat.succ_le_of_lt hlt) hk
    rw [hops_succ, hn, Option.bind_some, ← h.linkAt fun heq => hmiss n hlt (heq ▸ hn)] at hq'
    rw [hlast] at hq'
    cases hq'
  · rw [h.hops hmiss, hk] at hn
    obtain rfl := Option.some.inj hn
    exact hgap
  · obtain ⟨q', hq'⟩ := hops_some_of_le (Nat.succ_le_of_lt hgt) hn
    rw [hops_succ, h.hops hmiss, hk, Option.bind_some, hstop] at hq'
    cases hq'

/-- **A way is a circle** where a name on it becomes a link back to its second name. -/
lemma AgreeBut.content_loop (h : AgreeBut r s t) (hpass : s.Passes p r) (hne : p ≠ r)
    (hback : t.entries r = (s.linkAt p).map Entry.symlink) : t.content p = none := by
  obtain ⟨k, hk, hmiss⟩ := hpass.first
  have hlink : t.linkAt r = s.linkAt p := by
    rw [Store.linkAt, hback]
    cases s.linkAt p with
    | none => rfl
    | some target => rfl
  have hpos : 0 < k := by
    rcases Nat.eq_zero_or_pos k with rfl | hpos
    · exact absurd (Option.some.inj hk) hne
    · exact hpos
  -- every name on the way is one of the first ones, and these are links
  have hround : ∀ n q, t.hops n p = some q → ∃ j ≤ k, s.hops j p = some q := by
    intro n
    induction n with
    | zero =>
      intro q hq
      exact ⟨0, Nat.zero_le k, hq⟩
    | succ n ih =>
      intro q hq
      rw [hops_succ] at hq
      obtain ⟨q', hq', hstep⟩ := Option.bind_eq_some_iff.mp hq
      obtain ⟨j, hj, hjq⟩ := ih q' hq'
      by_cases hqr : q' = r
      · refine ⟨1, hpos, ?_⟩
        rw [hqr, hlink] at hstep
        rw [hops_succ]
        exact hstep
      · have hjk : j ≠ k := by
          rintro rfl
          exact hqr (Option.some.inj (hjq.symm.trans hk))
        refine ⟨j + 1, by omega, ?_⟩
        rw [hops_succ, hjq, Option.bind_some, ← h.linkAt hqr]
        exact hstep
  apply content_eq_none
  intro q hq
  obtain ⟨n, -, hn, hlast⟩ := resolve_eq_some.mp hq
  obtain ⟨j, hj, hjq⟩ := hround n q hn
  exfalso
  by_cases hqr : q = r
  · obtain ⟨q', hq'⟩ := hops_some_of_le hpos hk
    have hzero : s.hops 0 p = some p := rfl
    rw [hqr, hlink] at hlast
    rw [hops_succ, hzero, Option.bind_some, hlast] at hq'
    cases hq'
  · have hjk : j ≠ k := by
      rintro rfl
      exact hqr (Option.some.inj (hjq.symm.trans hk))
    obtain ⟨q', hq'⟩ := hops_some_of_le (show j + 1 ≤ k by omega) hk
    rw [hops_succ, hjq, Option.bind_some, ← h.linkAt hqr, hlast] at hq'
    cases hq'

/-! ### What the operations leave -/

lemma inode_data (h : s.inode p = some i) : s.content p = some (s.data i) := by
  rw [content, h]
  rfl

lemma setData_setData (s : Store P) (i : ℕ) (bytes bytes' : List UInt8) :
    (s.setData i bytes).setData i bytes' = s.setData i bytes' := by
  simp [setData]

lemma setData_self (s : Store P) (i : ℕ) : s.setData i (s.data i) = s := by
  simp [setData]

lemma inode_lt (h : s.inode p = some i) : i < s.free := by
  obtain ⟨entry, hentry, hi⟩ := Option.bind_eq_some_iff.mp h
  obtain ⟨q, -, hq⟩ := Option.bind_eq_some_iff.mp hentry
  cases entry with
  | file j =>
    obtain rfl := Option.some.inj hi
    exact s.used q j hq
  | dir => cases hi
  | symlink target => cases hi

lemma resolve_congr (h : t.linkAt = s.linkAt) (n : ℕ) (p : P) : t.resolve n p = s.resolve n p := by
  induction n generalizing p with
  | zero => rfl
  | succ n ih =>
    unfold resolve
    rw [h]
    cases s.linkAt p with
    | none => rfl
    | some target => exact ih target

lemma AgreeBut.restored (h : AgreeBut r s t) (hback : t.entries r = s.entries r) (p : P) :
    t.content p = s.content p := by
  have hentries : t.entries = s.entries := by
    funext q
    by_cases hq : q = r
    · rw [hq, hback]
    · exact h.entries q hq
  have hlink : t.linkAt = s.linkAt := by
    funext q
    rw [Store.linkAt, Store.linkAt, hentries]
  have htarget : t.target p = s.target p := resolve_congr hlink _ p
  rw [Store.content, Store.content, inode, inode, htarget, hentries, h.data]

variable [DecidableEq P]

lemma create_linkAt (hq : s.entries q = none) : (s.create q).linkAt = s.linkAt := by
  funext p
  by_cases hp : p = q
  · subst hp
    rw [linkAt, linkAt, create, hq]
    simp [Entry.link]
  · rw [linkAt, linkAt, create]
    dsimp only
    rw [Function.update_of_ne hp]

lemma put_agree (s : Store P) (p : P) (entry : Option (Entry P))
    (h : ∀ i, entry ≠ some (.file i)) : AgreeBut p s (s.put p entry h) :=
  ⟨fun _ hq => Function.update_of_ne hq _ _, rfl⟩

lemma unlink_some (hthere : s.entries p ≠ none) (hdir : s.entries p ≠ some .dir) :
    ∃ t, s.unlink p = some t ∧ AgreeBut p s t ∧ t.entries p = none := by
  cases hentry : s.entries p with
  | none => exact absurd hentry hthere
  | some entry =>
    cases entry with
    | dir => exact absurd hentry hdir
    | file i =>
      refine ⟨s.put p none (by simp), ?_, put_agree .., Function.update_self ..⟩
      rw [unlink, hentry]
    | symlink target =>
      refine ⟨s.put p none (by simp), ?_, put_agree .., Function.update_self ..⟩
      rw [unlink, hentry]

lemma unlink_none (h : s.entries p = none ∨ s.entries p = some .dir) : s.unlink p = none := by
  rcases h with h | h
  · rw [unlink, h]
  · rw [unlink, h]

lemma symlink_some {target : P} (h : s.symlink target p = some t) : s.entries p = none ∧
    AgreeBut p s t ∧ t.entries p = some (.symlink target) := by
  cases hentry : s.entries p with
  | none =>
    rw [symlink, hentry] at h
    obtain rfl := Option.some.inj h
    exact ⟨rfl, put_agree .., Function.update_self ..⟩
  | some entry =>
    rw [symlink, hentry] at h
    cases h

lemma symlink_none {target : P} (h : s.symlink target p = none) : s.entries p ≠ none := by
  intro hentry
  rw [symlink, hentry] at h
  cases h

structure Opened (s : Store P) (p : P) (j : ℕ) (t : Store P) : Prop where
  inode : t.inode p = some j
  empty : t.data j = []
  entries : ∀ p, s.entries p ≠ none → t.entries p = s.entries p
  kept : ∀ p i, s.inode p = some i → t.inode p = some i
  data : ∀ i, i < s.free → i ≠ j → t.data i = s.data i
  fresh : s.inode p = some j ∨ (s.inode p = none ∧ j = s.free)

lemma openTruncate_opened (h : s.openTruncate p = some (j, t)) : Opened s p j t := by
  obtain ⟨q, hq, hopen⟩ := Option.bind_eq_some_iff.mp h
  cases hentry : s.entries q with
  | none =>
    rw [hentry] at hopen
    obtain ⟨rfl, rfl⟩ := Prod.mk.inj (Option.some.inj hopen)
    have htarget : ∀ p, (s.create q).target p = s.target p := fun p =>
      resolve_congr (create_linkAt hentry) _ p
    have hnone : s.inode p = none := by
      rw [Store.inode, hq, Option.bind_some, hentry]
      rfl
    have hnew : (s.create q).entries q = some (.file s.free) := Function.update_self ..
    have hold : ∀ p, p ≠ q → (s.create q).entries p = s.entries p := fun p hp =>
      Function.update_of_ne hp _ _
    refine ⟨?_, Function.update_self .., ?_, ?_, ?_, Or.inr ⟨hnone, rfl⟩⟩
    · rw [Store.inode, htarget, hq, Option.bind_some, hnew]
      rfl
    · intro p hp
      apply hold
      rintro rfl
      exact hp hentry
    · intro p i hi
      obtain ⟨entry, hbind, hi⟩ := Option.bind_eq_some_iff.mp hi
      obtain ⟨q', hq', hentry'⟩ := Option.bind_eq_some_iff.mp hbind
      have hne : q' ≠ q := by
        rintro rfl
        rw [hentry] at hentry'
        cases hentry'
      rw [Store.inode, htarget, hq', Option.bind_some, hold q' hne, hentry', Option.bind_some, hi]
    · intro i hi _
      exact Function.update_of_ne (Nat.ne_of_lt hi) _ _
  | some entry =>
    cases entry with
    | file i =>
      rw [hentry] at hopen
      obtain ⟨rfl, rfl⟩ := Prod.mk.inj (Option.some.inj hopen)
      have hinode : s.inode p = some i := by
        rw [Store.inode, hq, Option.bind_some, hentry]
        rfl
      exact ⟨hinode, Function.update_self .., fun _ _ => rfl, fun _ _ hi => hi,
        fun _ _ hne => Function.update_of_ne hne _ _, Or.inl hinode⟩
    | dir =>
      rw [hentry] at hopen
      cases hopen
    | symlink target =>
      rw [hentry] at hopen
      cases hopen

end Store

end KioExtras.Lib.Inodes
