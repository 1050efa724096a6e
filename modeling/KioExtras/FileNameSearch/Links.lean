import KioExtras.FileNameSearch.Search
import Mathlib.Algebra.BigOperators.Group.List.Basic
import Mathlib.Data.List.Nodup
import Mathlib.Tactic.ByContra

/-!
Symbolic links: how long the search runs, and how often it lists a file.

What has been seen is told by paths, and the URL a link leads to is made from its text, so a
directory can be searched under as many paths as links give it. Where every link that is
followed names its directory by the path the directory really has, each directory is searched
once: the search ends, and no file is listed twice.
-/

namespace KioExtras.FileNameSearch

open Lib.Run

/-- A file system with finitely many directories: the URL each URL of a directory really stands
for is one of `dirs`. -/
structure Graph extends World where
  canonical : Url → Option Url
  dirs : List Url
  canonical_mem : ∀ u c, canonical u = some c → c ∈ dirs

section

variable (g : Graph) (options : SearchOptions) (base : Url)

/-- A directory that is named by its own path, or will not be searched. -/
def Direct (u : Url) : Prop :=
  (u.isLocalFile = true ∧ g.isReadable u.dir = false) ∨
    ∃ c, g.canonical u = some c ∧ c.dir = u.dir

/-- A link that is followed in this step names its directory by its own path. -/
def DirectStep (st : State) : Label → Prop
  | .entry => ∀ u n rest dest, st.current = some (u, n :: rest) →
      hasBeenVisited (u.entry n).path st.iteratedDirs = false →
      follows g.toWorld options (u.entry n) = some dest → Direct g dest
  | _ => True

def file (p : Url × Path) : Url := ((g.canonical p.1).getD p.1).entry p.2

/-- What the search of a directory costs: each entry, the link it may be, and the directory. -/
def weight (c : Url) : ℕ := 2 * (listing g.toWorld options c).length + 2

/-- The directories whose search has not begun. -/
def unsearched (st : State) : List Url :=
  g.dirs.filter fun c => decide (c.dirPath ∉ st.iteratedDirs ∧
    st.current.map (fun cur => cur.1.dirPath) ≠ some c.dirPath)

def ahead (st : State) : ℕ :=
  ((unsearched g st).map (weight g options)).sum + st.pendingDirs.length +
    (st.current.map fun cur => 2 * cur.2.length + 1).getD 0

/-- The entries before `rest` have been taken, and nothing below the directory is listed from
elsewhere. -/
structure Searching (st : State) (u : Url) (rest : List Path) : Prop where
  direct : ∃ c, g.canonical u = some c ∧ c.dir = u.dir
  fresh : u.dirPath ∉ st.iteratedDirs
  order : ∃ before, (before ++ rest).Perm (listing g.toWorld options u) ∧
    ∀ p ∈ st.listed, p.1.dirPath ∈ st.iteratedDirs ∨ (p.1 = u ∧ p.2 ∈ before)

structure Once (st : State) : Prop where
  pending : ∀ u ∈ st.pendingDirs, Direct g u
  current : ∀ u rest, st.current = some (u, rest) → Searching g options st u rest
  finished : st.current = none → ∀ p ∈ st.listed, p.1.dirPath ∈ st.iteratedDirs
  direct : ∀ p ∈ st.listed, ∃ c, g.canonical p.1 = some c ∧ c.dir = p.1.dir
  nodup : (st.listed.map fun p => (p.1.entry p.2).path).Nodup

end

variable {g : Graph} {options : SearchOptions} {base : Url} {st st' : State}

variable {u v : Url} {α : Type} {n : Path}

lemma listing_dir (h : u.dir = v.dir) :
    listing g.toWorld options u = listing g.toWorld options v := by
  have hpath : u.dirPath = v.dirPath := congrArg Url.path h
  unfold listing guarded
  rw [h, hpath]

lemma entry_dir (h : u.dir = v.dir) (n : Path) : u.entry n = v.entry n := by
  obtain ⟨hsite, hpath⟩ : u.site = v.site ∧ u.dirPath = v.dirPath := by simpa [Url.dir] using h
  unfold Url.entry
  rw [hsite, hpath]

lemma Direct.canonical (h : Direct g u) (hs : searched g.toWorld u st = true) :
    ∃ c, g.canonical u = some c ∧ c.dir = u.dir := by
  rcases h with ⟨hl, hr⟩ | h
  · simp [searched, hl, hr] at hs
  · exact h

/-! ### What one step does to the measure -/

lemma sum_filter_le {l : List α} {p q : α → Bool} (f : α → ℕ)
    (h : ∀ a ∈ l, p a = true → q a = true) :
    ((l.filter p).map f).sum ≤ ((l.filter q).map f).sum := by
  induction l with
  | nil => simp
  | cons a l ih =>
    have hrest := ih fun b hb => h b (List.mem_cons_of_mem _ hb)
    have ha := h a (List.mem_cons_self ..)
    cases hp : p a with
    | true =>
      rw [List.filter_cons_of_pos hp, List.filter_cons_of_pos (ha hp)]
      simp only [List.map_cons, List.sum_cons]
      omega
    | false =>
      rw [List.filter_cons_of_neg (by simp [hp])]
      cases hq : q a with
      | true =>
        rw [List.filter_cons_of_pos hq]
        simp only [List.map_cons, List.sum_cons]
        omega
      | false => rwa [List.filter_cons_of_neg (by simp [hq])]

lemma sum_filter_add_le {l : List α} {p q : α → Bool} (f : α → ℕ) {c : α}
    (h : ∀ a ∈ l, p a = true → q a = true) (hc : c ∈ l) (hp : p c = false) (hq : q c = true) :
    ((l.filter p).map f).sum + f c ≤ ((l.filter q).map f).sum := by
  obtain ⟨l, rest, rfl⟩ := List.append_of_mem hc
  have hfirst := sum_filter_le f fun a ha => h a (List.mem_append_left _ ha)
  have hrest := sum_filter_le f fun a ha => h a (List.mem_append_right _ (List.mem_cons_of_mem c ha))
  rw [List.filter_append, List.filter_append, List.filter_cons_of_neg (by simp [hp]),
    List.filter_cons_of_pos hq]
  simp only [List.map_append, List.map_cons, List.sum_append, List.sum_cons]
  omega

lemma ahead_search {c : Url} {rest : List Url} {order : List Path} (hcur : st.current = none)
    (hp : st.pendingDirs = u :: rest) (hfresh : u.dirPath ∉ st.iteratedDirs) (hc : c ∈ g.dirs)
    (hdir : c.dir = u.dir) (hlen : order.length = (listing g.toWorld options u).length) :
    ahead g options { st with pendingDirs := rest, current := some (u, order) } <
      ahead g options st := by
  have hpath : c.dirPath = u.dirPath := congrArg Url.path hdir
  have hsum : ((unsearched g { st with pendingDirs := rest, current := some (u, order) }).map
      (weight g options)).sum + weight g options c ≤
      ((unsearched g st).map (weight g options)).sum := by
    refine sum_filter_add_le _ ?_ hc ?_ ?_
    · intro d _ hd
      simp only [decide_eq_true_eq, hcur] at hd ⊢
      exact ⟨hd.1, by simp⟩
    · simp [hpath]
    · simp [hpath, hfresh, hcur]
  have hweight : weight g options c = 2 * order.length + 2 := by
    rw [weight, listing_dir hdir, hlen]
  simp only [ahead, hcur, hp, List.length_cons, Option.map_some, Option.map_none,
    Option.getD_some, Option.getD_none]
  omega

lemma ahead_entry {rest : List Path} (hcur : st.current = some (u, n :: rest))
    (hsub : st.iteratedDirs ⊆ st'.iteratedDirs)
    (hpending : st'.pendingDirs.length ≤ st.pendingDirs.length + 1) :
    ahead g options { st' with current := some (u, rest) } < ahead g options st := by
  have hsum : ((unsearched g { st' with current := some (u, rest) }).map
      (weight g options)).sum ≤ ((unsearched g st).map (weight g options)).sum := by
    refine sum_filter_le _ ?_
    intro d _ hd
    simp only [decide_eq_true_eq, hcur] at hd ⊢
    exact ⟨fun hin => hd.1 (hsub hin), hd.2⟩
  simp only [ahead, hcur, Option.map_some, Option.getD_some, List.length_cons]
  omega

lemma ahead_finish (hcur : st.current = some (u, [])) :
    ahead g options { st.insert u.dirPath with current := none } < ahead g options st := by
  have hsum : ((unsearched g { st.insert u.dirPath with current := none }).map
      (weight g options)).sum ≤ ((unsearched g st).map (weight g options)).sum := by
    refine sum_filter_le _ ?_
    intro d _ hd
    simp only [decide_eq_true_eq, hcur, State.insert, List.mem_cons, not_or] at hd ⊢
    refine ⟨hd.1.2, ?_⟩
    simpa using fun h => hd.1.1 h.symm
  have hpending : ({ st.insert u.dirPath with current := none } : State).pendingDirs =
      st.pendingDirs := rfl
  have hcurrent : ({ st.insert u.dirPath with current := none } : State).current = none := rfl
  generalize ({ st.insert u.dirPath with current := none } : State) = st₁ at *
  simp only [ahead, hcur, hpending, hcurrent, Option.map_some, Option.map_none,
    Option.getD_some, Option.getD_none, List.length_nil]
  omega

/-! ### What one step does to the invariant -/

lemma processed_iterated (h : Processed g.toWorld options u n st st') :
    st.iteratedDirs ⊆ st'.iteratedDirs ∧
      ∀ v : Url, n ∈ listing g.toWorld options u → v.dirPath ∈ st'.iteratedDirs →
        v.dirPath ∈ st.iteratedDirs := by
  rw [h.iterated]
  split
  · refine ⟨fun m hm => List.mem_cons_of_mem _ hm, fun v hn hv => ?_⟩
    rcases List.mem_cons.mp hv with heq | hv
    · exact absurd heq.symm (entry_ne_dirPath hn)
    · exact hv
  · exact ⟨fun m hm => hm, fun v _ hv => hv⟩

lemma Once.entry (h : Once g options st) {rest : List Path}
    (hcur : st.current = some (u, n :: rest)) (hdirect : DirectStep g options st .entry) :
    Once g options { processEntry g.toWorld options u n st with current := some (u, rest) } ∧
      ahead g options
        { processEntry g.toWorld options u n st with current := some (u, rest) } <
          ahead g options st := by
  obtain ⟨hcanonical, hfresh, before, hperm, hlisted⟩ := h.current u _ hcur
  have hn : n ∈ listing g.toWorld options u := hperm.mem_iff.mp (by simp)
  have hperm' : ((before ++ [n]) ++ rest).Perm (listing g.toWorld options u) := by
    rwa [List.append_assoc]
  have hnotBefore : n ∉ before := by
    have hnodup := hperm.nodup_iff.mpr (listing_nodup u)
    intro hmem
    exact (List.nodup_append.mp hnodup).2.2 n hmem n (List.mem_cons_self ..) rfl
  cases hv : hasBeenVisited (u.entry n).path st.iteratedDirs with
  | true =>
    rw [processEntry_visited hv]
    refine ⟨⟨h.pending, ?_, by simp, h.direct, h.nodup⟩,
      ahead_entry hcur (fun m hm => hm) (Nat.le_succ _)⟩
    intro v names hc
    obtain ⟨rfl, rfl⟩ : u = v ∧ rest = names := by simpa using hc
    refine ⟨hcanonical, hfresh, before ++ [n], hperm', fun p hp => ?_⟩
    rcases hlisted p hp with hf | ⟨hu, hb⟩
    · exact Or.inl hf
    · exact Or.inr ⟨hu, List.mem_append_left _ hb⟩
  | false =>
    have hfollowed (dest : Url) (hd : follows g.toWorld options (u.entry n) = some dest) :
        Direct g dest := hdirect u n rest dest hcur hv hd
    have hproc : Processed g.toWorld options u n st (processEntry g.toWorld options u n st) :=
      processEntry_processed hv
    generalize processEntry g.toWorld options u n st = st₁ at hproc ⊢
    obtain ⟨hsub, hback⟩ := processed_iterated hproc
    have hlen : st₁.pendingDirs.length ≤ st.pendingDirs.length + 1 := by
      rw [hproc.pending, List.length_append]
      cases follows g.toWorld options (u.entry n) <;> simp
    have hnew : ∀ p ∈ st.listed, (p.1.entry p.2).path ≠ (u.entry n).path := by
      intro p hp heq
      rcases hlisted p hp with hf | ⟨hu, hb⟩
      · -- what is below a finished directory has been visited
        have hbelow : p.1.dirPath <+: (u.entry n).path := heq ▸ List.prefix_append _ _
        have hvisited := hasBeenVisited_iff.mpr ⟨_, hf, hbelow⟩
        rw [hv] at hvisited
        exact absurd hvisited (by simp)
      · rw [hu] at heq
        have hname : p.2 = n := List.append_cancel_left heq
        exact hnotBefore (hname ▸ hb)
    refine ⟨⟨?_, ?_, by simp, ?_, ?_⟩, ahead_entry hcur hsub hlen⟩
    · intro v hv
      have hv : v ∈ st₁.pendingDirs := hv
      rw [hproc.pending] at hv
      rcases List.mem_append.mp hv with hv | hv
      · exact h.pending v hv
      · exact hfollowed v (Option.mem_toList.mp hv)
    · intro v names hc
      obtain ⟨rfl, rfl⟩ : u = v ∧ rest = names := by simpa using hc
      refine ⟨hcanonical, fun hin => hfresh (hback u hn hin), before ++ [n], hperm', ?_⟩
      intro p hp
      have hp : p ∈ st₁.listed := hp
      have hold : p ∈ st.listed ∨ p = (u, n) := by
        rw [hproc.listed] at hp
        split at hp
        · simpa using hp
        · exact Or.inl hp
      rcases hold with hp | rfl
      · rcases hlisted p hp with hf | ⟨hu, hb⟩
        · exact Or.inl (hsub hf)
        · exact Or.inr ⟨hu, List.mem_append_left _ hb⟩
      · exact Or.inr ⟨rfl, List.mem_append_right _ (List.mem_singleton_self _)⟩
    · intro p hp
      have hp : p ∈ st₁.listed := hp
      rw [hproc.listed] at hp
      split at hp
      · rcases List.mem_append.mp hp with hp | hp
        · exact h.direct p hp
        · obtain rfl := List.mem_singleton.mp hp
          exact hcanonical
      · exact h.direct p hp
    · show (st₁.listed.map fun p => (p.1.entry p.2).path).Nodup
      rw [hproc.listed]
      split
      · rw [List.map_append, List.nodup_append]
        refine ⟨h.nodup, by simp, ?_⟩
        intro a ha b hb
        obtain ⟨p, hp, rfl⟩ := List.mem_map.mp ha
        obtain rfl : b = (u.entry n).path := by simpa using hb
        exact hnew p hp
      · exact h.nodup

lemma Once.step (h : Once g options st) {l : Label} (hdirect : DirectStep g options st l)
    (hs : step g.toWorld options st l = some st') :
    Once g options st' ∧ ahead g options st' < ahead g options st := by
  rcases step_cases hs with ⟨u, rest, hc, hp, -, rfl⟩ |
    ⟨u, rest, order, hc, hp, hsearched, hperm, -, rfl⟩ | ⟨u, n, rest, hc, rfl⟩ | ⟨u, hc, rfl⟩
  · -- put aside
    refine ⟨⟨fun v hv => h.pending v (hp ▸ List.mem_cons_of_mem _ hv), ?_, h.finished, h.direct,
      h.nodup⟩, ?_⟩
    · intro v names hcur
      simp [hc] at hcur
    · show ((unsearched g st).map (weight g options)).sum + rest.length + _ < _
      simp only [ahead, hp, List.length_cons]
      omega
  · -- listed
    obtain ⟨c, hcanonical, hdir⟩ :=
      (h.pending u (hp ▸ List.mem_cons_self ..)).canonical hsearched
    have hfresh : u.dirPath ∉ st.iteratedDirs := by
      have hfresh := (Bool.and_eq_true_iff.mp hsearched).1
      simpa using hfresh
    refine ⟨⟨fun v hv => h.pending v (hp ▸ List.mem_cons_of_mem _ hv), ?_, by simp, h.direct,
      h.nodup⟩, ahead_search hc hp hfresh (g.canonical_mem u c hcanonical) hdir
        hperm.length_eq⟩
    intro v names hcur
    obtain ⟨rfl, rfl⟩ : u = v ∧ order = names := by simpa using hcur
    exact ⟨⟨c, hcanonical, hdir⟩, hfresh, [], hperm, fun p hp => Or.inl (h.finished hc p hp)⟩
  · -- an entry
    have hl : l = .entry := by
      cases l with
      | entry => rfl
      | search order => simp [FileNameSearch.step, hc] at hs
      | finish => simp [FileNameSearch.step, hc] at hs
    exact h.entry hc (hl ▸ hdirect)
  · -- finished
    obtain ⟨hcanonical, hfresh, before, hperm, hlisted⟩ := h.current u _ hc
    refine ⟨⟨h.pending, by simp, fun _ p hp => ?_, h.direct, h.nodup⟩, ahead_finish hc⟩
    rcases hlisted p hp with hf | ⟨hu, -⟩
    · exact List.mem_cons_of_mem _ hf
    · rw [hu]
      exact List.mem_cons_self ..

lemma Once.initial (hbase : Direct g base) : Once g options (initial base) := by
  refine ⟨?_, by simp [FileNameSearch.initial], by simp [FileNameSearch.initial],
    by simp [FileNameSearch.initial], by simp [FileNameSearch.initial]⟩
  intro u hu
  obtain rfl := List.mem_singleton.mp hu
  exact hbase

/-! ### The results -/

lemma exists_order (names : List Path) : ∃ order, order.Perm names ∧ FoldersFirst order := by
  refine ⟨names.mergeSort fun a b => decide (a.length ≤ b.length), List.mergeSort_perm _ _, ?_⟩
  have hsorted := @List.pairwise_mergeSort Path (fun a b => decide (a.length ≤ b.length))
    (fun a b c hab hbc => by simp at *; omega) (fun a b => by simp; omega) names
  refine hsorted.imp fun {a b} hab hin => ?_
  have hle : a.length ≤ b.length := by simpa using hab
  have hlen := hin.length_le
  rw [List.length_append, List.length_singleton] at hlen
  omega

lemma canStep_of_left (w : World) (options : SearchOptions) (st : State)
    (h : st.pendingDirs ≠ [] ∨ st.current ≠ none) : CanStep (step w options) st := by
  cases hc : st.current with
  | some cur =>
    obtain ⟨u, _ | ⟨n, rest⟩⟩ := cur
    · exact ⟨.finish, by simp [step, hc]⟩
    · exact ⟨.entry, by simp [step, hc]⟩
  | none =>
    obtain ⟨u, rest, hp⟩ := List.exists_cons_of_ne_nil (h.resolve_right (by simp [hc]))
    obtain ⟨order, hperm, hfirst⟩ := exists_order (listing w options u)
    refine ⟨.search order, ?_⟩
    simp only [step, hc, hp, hperm, hfirst, and_self, if_true]
    split <;> rfl

/-- **Termination.** Where each link that is followed names its directory by its own path, no
file is listed twice, and the search ends: it can go on until nothing is left, but not for
longer than the directories and their entries allow. -/
theorem search_once (g : Graph) (options : SearchOptions) (base : Url) (hbase : Direct g base)
    (ls : List Label) (st : State) (h : run (step g.toWorld options) (initial base) ls = some st)
    (hdirect : AllSteps (step g.toWorld options) (DirectStep g options) (initial base) ls) :
    (st.listed.map (file g)).Nodup ∧
      ls.length ≤ (g.dirs.map (weight g options)).sum + 1 ∧
      (st.pendingDirs ≠ [] ∨ st.current ≠ none → CanStep (step g.toWorld options) st) := by
  have honce : Once g options st :=
    run_inv (fun _ _ _ hi hd hs => (hi.step hd hs).1) hdirect (Once.initial hbase) h
  have hlength := run_length_le_of (ahead g options) (fun _ _ _ hi hd hs => hi.step hd hs)
    hdirect (Once.initial hbase) h
  refine ⟨?_, ?_, canStep_of_left _ _ _⟩
  · have hfile : st.listed.map (file g) = st.listed.map fun p => p.1.entry p.2 := by
      refine List.map_congr_left fun p hp => ?_
      obtain ⟨c, hc, hdir⟩ := honce.direct p hp
      rw [file, hc]
      exact entry_dir hdir p.2
    rw [hfile]
    have hpaths := honce.nodup
    rw [show (fun p : Url × Path => (p.1.entry p.2).path) =
      Url.path ∘ fun p : Url × Path => p.1.entry p.2 from rfl, ← List.map_map] at hpaths
    exact hpaths.of_map _
  · have hstart : ahead g options (initial base) ≤
        (g.dirs.map (weight g options)).sum + 1 := by
      have hall := sum_filter_le (l := g.dirs) (q := fun _ => true) (weight g options)
        (p := fun c => decide (c.dirPath ∉ (initial base).iteratedDirs ∧
          (initial base).current.map (fun cur => cur.1.dirPath) ≠ some c.dirPath)) (by simp)
      rw [List.filter_true] at hall
      show _ + 1 + 0 ≤ _
      exact Nat.add_le_add_right hall 1
    omega

/-! ### Two links to one directory -/

def fileUrl (path : String) : Url := ⟨"file:".toList, path.toList⟩

/-- Two links in `/r` lead to the directory `/x`, the second by the given path; `/z` is another
name of `/x`, and the file in it matches. -/
def twoLinks (second : Path) : Graph where
  names _ u := if u = fileUrl "/r/" then ["a".toList, "b".toList] else ["f".toList]
  item e :=
    if e = fileUrl "/r/a" then ⟨true, true, false, "/x".toList⟩
    else if e = fileUrl "/r/b" then ⟨true, true, false, second⟩
    else ⟨false, true, false, []⟩
  isReadable _ := true
  resolved e dest := ⟨e.site, dest⟩
  isMatch _ e := e.path.getLast? = some 'f'
  names_nodup _ u := by split <;> decide
  names_ne_nil _ u := by split <;> decide
  names_noSlash _ u := by split <;> decide
  canonical u :=
    if u.dir = fileUrl "/r/" then some (fileUrl "/r")
    else if u.dir = fileUrl "/x/" ∨ u.dir = fileUrl "/z/" then some (fileUrl "/x")
    else none
  dirs := [fileUrl "/r", fileUrl "/x"]
  canonical_mem u c h := by
    split at h
    · simp_all
    · split at h
      · simp_all
      · simp at h

def allNames : SearchOptions := ⟨false, false, false⟩

def linkRun : List Label :=
  [.search ["a".toList, "b".toList], .entry, .entry, .finish, .search ["f".toList], .entry,
    .finish, .search ["f".toList]]

theorem search_once_linked : ∃ st,
    run (step (twoLinks "/x".toList).toWorld allNames) (initial (fileUrl "/r")) linkRun = some st ∧
      (st.listed.map (file (twoLinks "/x".toList))).Nodup ∧ linkRun.length ≤ 11 := by
  have hbase : Direct (twoLinks "/x".toList) (fileUrl "/r") := Or.inr ⟨fileUrl "/r", rfl, rfl⟩
  have hdirect (st : State) (l : Label) : DirectStep (twoLinks "/x".toList) allNames st l := by
    cases l with
    | search order => trivial
    | finish => trivial
    | entry =>
      intro u n rest dest _ _ hf
      have hx : Direct (twoLinks "/x".toList) (fileUrl "/x") := Or.inr ⟨fileUrl "/x", rfl, rfl⟩
      have hlink : ∀ e, (e = fileUrl "/r/a" ∨ e = fileUrl "/r/b") →
          follows (twoLinks "/x".toList).toWorld allNames e = some (fileUrl "/x") := by
        rintro e (rfl | rfl) <;> decide
      by_cases he : u.entry n = fileUrl "/r/a" ∨ u.entry n = fileUrl "/r/b"
      · rw [hlink _ he] at hf
        exact Option.some.inj hf ▸ hx
      · obtain ⟨ha, hb⟩ := not_or.mp he
        simp [follows, twoLinks, ha, hb] at hf
  obtain ⟨hnodup, hlength, -⟩ := search_once (twoLinks "/x".toList) allNames (fileUrl "/r") hbase
    linkRun _ rfl (allSteps_of_forall hdirect _ _)
  exact ⟨_, rfl, hnodup, hlength⟩

/-- A file is listed twice when two links lead to its directory by different paths. -/
theorem listed_twice : ∃ st,
    run (step (twoLinks "/z".toList).toWorld allNames) (initial (fileUrl "/r"))
      (linkRun ++ [.entry, .finish]) = some st ∧
      st.listed.map (file (twoLinks "/z".toList)) = [fileUrl "/x/f", fileUrl "/x/f"] :=
  ⟨_, rfl, by decide⟩

end KioExtras.FileNameSearch
