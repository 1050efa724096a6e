import KioExtras.Lib.Run
import KioExtras.Smb.Url
import Mathlib.Data.List.Nodup

/-!
The watcher of the SMB module of KDED: which directories have a notifier.

Directories are entered and left, and notifiers end, in any order. The table holds a notifier
for each directory that is watched, under the string the directory was entered with.
-/

namespace KioExtras.Smb.Watcher

open KioExtras.Lib.Run SMBUrl

structure Notifier where
  m_url : String
  m_lastEntry : ℕ
  deriving DecidableEq

/-- What Qt does: the parts of a URL that is given as a string, the clean form of a path, and the
order in which a `QHash` is gone through. -/
structure Qt where
  QUrl : String → SMBUrl
  cleanPath : String → String
  order : List Notifier → List Notifier
  order_perm : ∀ watches, (order watches).Perm watches

def m_capacity : ℕ := 10

section watcher

variable (qt : Qt)

def smbUrl (str : String) : SMBUrl :=
  let kurl := qt.QUrl str
  { kurl with
    scheme := if kurl.scheme = "cifs" then "smb" else kurl.scheme
    path := qt.cleanPath kurl.path }

/-- `none` stands for the code marked unreachable. -/
def isInterestingUrl (str : String) : Option Bool :=
  match (smbUrl qt str).getType with
  | .UNKNOWN => some false
  | .ENTIRE_NETWORK => some false
  | .WORKGROUP_OR_SERVER => some false
  | .SHARE_OR_PATH => some true
  | .PRINTER => none

def unwatchDirectory (watches : List Notifier) (url : String) : List Notifier :=
  watches.filter fun notifier => notifier.m_url ≠ url

/-- The notifier entered longest ago, the first of them in the order of the table. -/
def oldest : List Notifier → Option Notifier
  | [] => none
  | notifier :: rest => some (rest.foldl
      (fun old new => if new.m_lastEntry < old.m_lastEntry then new else old) notifier)

def makeSpace (watches : List Notifier) : List Notifier :=
  match oldest (qt.order watches) with
  | none => watches
  | some notifier => unwatchDirectory watches notifier.m_url

def makeSpaces : ℕ → List Notifier → List Notifier
  | 0, watches => watches
  | fuel + 1, watches =>
    if m_capacity ≤ watches.length then makeSpaces fuel (makeSpace qt watches) else watches

def poke (watches : List Notifier) (url : String) (now : ℕ) : List Notifier :=
  watches.map fun notifier =>
    if notifier.m_url = url then { notifier with m_lastEntry := now } else notifier

def watchDirectory (watches : List Notifier) (url : String) (now : ℕ) : Option (List Notifier) :=
  match isInterestingUrl qt url with
  | none => none
  | some false => some watches
  | some true =>
    if (watches.any fun notifier => notifier.m_url = url) = true then some (poke watches url now)
    else some (makeSpaces qt watches.length watches ++ [⟨url, now⟩])

inductive Event
  | enteredDirectory (url : String) (now : ℕ)
  | leftDirectory (url : String)
  | finished (url : String)

def step (watches : List Notifier) : Event → Option (List Notifier)
  | .enteredDirectory url now => watchDirectory qt watches url now
  | .leftDirectory url => some (unwatchDirectory watches url)
  | .finished url => some (unwatchDirectory watches url)

end watcher

/-! ### Room for one more -/

variable (qt : Qt)

variable {watches : List Notifier}

variable {notifier : Notifier}

lemma foldl_mem {f : Notifier → Notifier → Notifier}
    (hf : ∀ old new, f old new = old ∨ f old new = new) :
    watches.foldl f notifier ∈ notifier :: watches := by
  induction watches generalizing notifier with
  | nil => exact List.mem_singleton.mpr rfl
  | cons new rest ih =>
    have hrest : rest.foldl f (f notifier new) ∈ f notifier new :: rest := ih
    rw [List.foldl_cons]
    rcases List.mem_cons.mp hrest with heq | hmem
    · rcases hf notifier new with hold | hnew
      · rw [heq, hold]
        exact List.mem_cons_self
      · rw [heq, hnew]
        exact List.mem_cons_of_mem _ List.mem_cons_self
    · exact List.mem_cons_of_mem _ (List.mem_cons_of_mem _ hmem)

lemma oldest_mem (h : oldest watches = some notifier) : notifier ∈ watches := by
  cases watches with
  | nil => simp [oldest] at h
  | cons first rest =>
    have hmem : rest.foldl
        (fun old new => if new.m_lastEntry < old.m_lastEntry then new else old) first ∈
        first :: rest := foldl_mem fun old new => by
      by_cases hlt : new.m_lastEntry < old.m_lastEntry
      · exact Or.inr (if_pos hlt)
      · exact Or.inl (if_neg hlt)
    rw [Option.some.inj h] at hmem
    exact hmem

lemma unwatchDirectory_sublist (watches : List Notifier) (url : String) :
    (unwatchDirectory watches url).Sublist watches := List.filter_sublist

lemma unwatchDirectory_lt (h : notifier ∈ watches) :
    (unwatchDirectory watches notifier.m_url).length < watches.length := by
  unfold unwatchDirectory
  exact List.length_filter_lt_length_iff_exists.mpr ⟨notifier, h, by simp⟩

lemma makeSpace_sublist (watches : List Notifier) : (makeSpace qt watches).Sublist watches := by
  unfold makeSpace
  cases oldest (qt.order watches) with
  | none => exact List.Sublist.refl watches
  | some notifier => exact unwatchDirectory_sublist watches notifier.m_url

lemma makeSpace_lt (h : watches ≠ []) : (makeSpace qt watches).length < watches.length := by
  have hne : qt.order watches ≠ [] := fun hnil =>
    h (List.nil_perm.mp (hnil ▸ qt.order_perm watches))
  obtain ⟨first, rest, horder⟩ := List.exists_cons_of_ne_nil hne
  have hold : ∃ notifier, oldest (qt.order watches) = some notifier := by
    rw [horder]
    exact ⟨_, rfl⟩
  obtain ⟨notifier, hnotifier⟩ := hold
  have hmem : notifier ∈ watches := (qt.order_perm watches).mem_iff.mp (oldest_mem hnotifier)
  unfold makeSpace
  rw [hnotifier]
  exact unwatchDirectory_lt hmem

/-- **The loop makes room for one more**, and removes notifiers only. -/
lemma makeSpaces_spec {fuel : ℕ} (watches : List Notifier)
    (hfuel : watches.length < m_capacity + fuel) :
    (makeSpaces qt fuel watches).length < m_capacity ∧
      (makeSpaces qt fuel watches).Sublist watches := by
  induction fuel generalizing watches with
  | zero => exact ⟨hfuel, List.Sublist.refl watches⟩
  | succ fuel ih =>
    unfold makeSpaces
    split_ifs with hfull
    · have hne : watches ≠ [] := by
        rintro rfl
        simp [m_capacity] at hfull
      have hlt := makeSpace_lt qt hne
      obtain ⟨hroom, hsub⟩ := ih (makeSpace qt watches) (by omega)
      exact ⟨hroom, hsub.trans (makeSpace_sublist qt watches)⟩
    · exact ⟨by omega, List.Sublist.refl watches⟩

/-! ### What holds of the table -/

/-- At most ten watches, each for a share or a path, no two for the same URL. -/
structure Watches (watches : List Notifier) : Prop where
  capacity : watches.length ≤ m_capacity
  distinct : watches.Pairwise fun a b => qt.QUrl a.m_url ≠ qt.QUrl b.m_url
  share : ∀ notifier ∈ watches, (smbUrl qt notifier.m_url).getType = .SHARE_OR_PATH

/-- The directory entered is no printer, and if it is watched already then under the same
string. -/
def Plain (watches : List Notifier) : Event → Prop
  | .enteredDirectory url _ => (smbUrl qt url).getType ≠ .PRINTER ∧
      ∀ notifier ∈ watches, qt.QUrl notifier.m_url = qt.QUrl url → notifier.m_url = url
  | .leftDirectory _ => True
  | .finished _ => True

variable {qt}

lemma Watches.sublist {rest : List Notifier} (h : Watches qt watches)
    (hsub : rest.Sublist watches) : Watches qt rest :=
  ⟨hsub.length_le.trans h.capacity, h.distinct.sublist hsub,
    fun notifier hmem => h.share notifier (hsub.subset hmem)⟩

lemma Watches.poke (h : Watches qt watches) (url : String) (now : ℕ) :
    Watches qt (poke watches url now) := by
  have hurl : ∀ notifier : Notifier, (if notifier.m_url = url then
      { notifier with m_lastEntry := now } else notifier).m_url = notifier.m_url := by
    intro notifier
    split_ifs <;> rfl
  refine ⟨?_, ?_, ?_⟩
  · unfold Watcher.poke
    rw [List.length_map]
    exact h.capacity
  · unfold Watcher.poke
    rw [List.pairwise_map]
    refine h.distinct.imp ?_
    intro a b hne
    rw [hurl a, hurl b]
    exact hne
  · intro notifier hmem
    obtain ⟨old, hold, rfl⟩ := List.mem_map.mp hmem
    rw [hurl old]
    exact h.share old hold

lemma Watches.join (h : Watches qt watches) {url : String} (now : ℕ)
    (hshare : (smbUrl qt url).getType = .SHARE_OR_PATH)
    (hnew : ∀ notifier ∈ watches, qt.QUrl notifier.m_url ≠ qt.QUrl url) :
    Watches qt (makeSpaces qt watches.length watches ++ [⟨url, now⟩]) := by
  have hfuel : watches.length < m_capacity + watches.length := by
    unfold m_capacity
    omega
  obtain ⟨hroom, hsub⟩ := makeSpaces_spec qt watches hfuel
  have hrest := h.sublist hsub
  refine ⟨?_, ?_, ?_⟩
  · rw [List.length_append, List.length_singleton]
    omega
  · rw [List.pairwise_append]
    refine ⟨hrest.distinct, List.pairwise_singleton _ _, ?_⟩
    intro a ha b hb
    rw [List.mem_singleton.mp hb]
    exact hnew a (hsub.subset ha)
  · intro notifier hmem
    rcases List.mem_append.mp hmem with hold | hone
    · exact hrest.share notifier hold
    · rw [List.mem_singleton.mp hone]
      exact hshare

theorem Watches.step {watches : List Notifier} (h : Watches qt watches) {e : Event}
    (he : Plain qt watches e) : ∃ watches', step qt watches e = some watches' ∧
      Watches qt watches' := by
  cases e with
  | enteredDirectory url now =>
    obtain ⟨hprinter, hsame⟩ := he
    cases htype : (smbUrl qt url).getType with
    | UNKNOWN => exact ⟨watches, by simp [Watcher.step, watchDirectory, isInterestingUrl, htype], h⟩
    | ENTIRE_NETWORK =>
      exact ⟨watches, by simp [Watcher.step, watchDirectory, isInterestingUrl, htype], h⟩
    | WORKGROUP_OR_SERVER =>
      exact ⟨watches, by simp [Watcher.step, watchDirectory, isInterestingUrl, htype], h⟩
    | PRINTER => exact absurd htype hprinter
    | SHARE_OR_PATH =>
      simp only [Watcher.step, watchDirectory, isInterestingUrl, htype]
      split_ifs with hany
      · exact ⟨_, rfl, h.poke url now⟩
      · refine ⟨_, rfl, h.join now htype ?_⟩
        intro notifier hmem heq
        have hwatched : (watches.any fun notifier => notifier.m_url = url) = true :=
          List.any_eq_true.mpr ⟨notifier, hmem, by simpa using hsame notifier hmem heq⟩
        exact hany hwatched
  | leftDirectory url => exact ⟨_, rfl, h.sublist (unwatchDirectory_sublist watches url)⟩
  | finished url => exact ⟨_, rfl, h.sublist (unwatchDirectory_sublist watches url)⟩

/-- **The table stays in order**, and the code marked unreachable is not reached, over every
sequence of events that are plain where they come. -/
theorem watches_run (qt : Qt) (es : List Event) (hplain : AllSteps (step qt) (Plain qt) [] es) :
    ∃ watches, run (step qt) [] es = some watches ∧ Watches qt watches := by
  have hempty : Watches qt [] := ⟨Nat.zero_le _, List.Pairwise.nil, by simp⟩
  exact run_progress (fun _ _ h he => h.step he) hplain hempty

/-- The strings are taken apart as these two are. -/
def printerQt : Qt where
  QUrl str :=
    if str = "smb://host/printer?kio-printer=true" then
      ⟨"smb", "host", "/printer", [("kio-printer", "true")]⟩
    else ⟨"smb", "host", "/share", []⟩
  cleanPath path := path
  order watches := watches
  order_perm watches := List.Perm.refl watches

theorem watches_run_share : ∃ watches,
    run (step printerQt) []
      [.enteredDirectory "smb://host/share" 1, .enteredDirectory "smb://host/share" 2] =
        some watches ∧ Watches printerQt watches :=
  watches_run printerQt _ (by
    refine allSteps_cons (t := [⟨"smb://host/share", 1⟩]) (by decide)
      ⟨by decide, by simp⟩ ?_
    refine allSteps_cons (t := [⟨"smb://host/share", 2⟩]) (by decide)
      ⟨by decide, ?_⟩ trivial
    simp)

/-- A printer brings the watcher to the code marked unreachable. -/
theorem printer_unreachable : ¬ ∀ (qt : Qt) (es : List Event),
    ∃ watches, run (step qt) [] es = some watches ∧ Watches qt watches := by
  intro hall
  obtain ⟨watches, hrun, _⟩ :=
    hall printerQt [.enteredDirectory "smb://host/printer?kio-printer=true" 1]
  have hnone : run (step printerQt) []
      [.enteredDirectory "smb://host/printer?kio-printer=true" 1] = none := by
    decide
  rw [hnone] at hrun
  exact absurd hrun (by simp)

end KioExtras.Smb.Watcher
