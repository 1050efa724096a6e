import KioExtras.FileNameSearch.Search
import Mathlib.Tactic.ByContra

/-!
What the search skips, and what it finds.

An entry is skipped when its path starts with one of the strings that have been seen. That is
right for a directory whose search is finished, which ends with a slash, but a folder that is
not to be explored stands there without one and hides every sibling whose name goes on. The
other way to lose an entry is a link into a folder that another search leaves unexplored: once
that search is finished everything below its directory counts as seen.

Where neither can happen, nothing is skipped that has not been reached, and whatever the order
of the listings the search finds what the options say.
-/

namespace KioExtras.FileNameSearch

open Lib.Run

section

variable (w : World) (options : SearchOptions) (base : Url)

def Searchable (u : Url) : Prop := u.isLocalFile = false ∨ w.isReadable u.dir = true

/-- An entry below a directory that is in no folder left unexplored. -/
def Explored (u : Url) (n : Path) : Prop :=
  n ∈ listing w options u ∧
    ∀ f ∈ listing w options u, f ++ ['/'] <+: n → excludes w options (u.entry f) = false

/-- The directories to be searched: the one the search is for, and those the links lead to that
are reached. -/
inductive Root : Url → Prop
  | start : Root base
  | link {v dest : Url} {n : Path} (hv : Root v) (hs : Searchable w v)
      (hn : Explored w options v n) (hf : follows w options (v.entry n) = some dest) : Root dest

/-- The entry `n` below `v` is reached by the rules of the options. -/
structure Reach (v : Url) (n : Path) : Prop where
  root : Root w options base v
  searchable : Searchable w v
  explored : Explored w options v n

/-- What the search is to find. -/
def Expected (e : Url) : Prop :=
  ∃ v n, Reach w options base v n ∧ lists w options (v.entry n) = true ∧ e = v.entry n

/-- Nothing is hidden by mistake: the directories are all on one site, the path of a folder left
unexplored starts the path of no entry that is not in it, and an entry that is reached and lies
below another directory to be searched is reached there too. -/
structure Clear : Prop where
  site : ∀ v, Root w options base v → v.site = base.site
  apart : ∀ u f v n, Reach w options base u f → excludes w options (u.entry f) = true →
    Root w options base v → Searchable w v → n ∈ listing w options v →
    (u.entry f).path <+: (v.entry n).path →
    (v.entry n).path = (u.entry f).path ∨ (u.entry f).path ++ ['/'] <+: (v.entry n).path
  coherent : ∀ u n v, Reach w options base u n → Root w options base v → Searchable w v →
    v.dirPath <+: (u.entry n).path → ∃ m, Explored w options v m ∧ v.entry m = u.entry n

/-- The path is below a directory already searched, or it is that of a folder already reached
and left unexplored, or in it. -/
def Justified (st : State) (path : Path) : Prop :=
  (∃ v, Root w options base v ∧ v.dirPath ∈ st.iteratedDirs ∧ v.dirPath <+: path) ∨
    ∃ u f, Reach w options base u f ∧ excludes w options (u.entry f) = true ∧
      (u.entry f).path ∈ st.iteratedDirs ∧
      (path = (u.entry f).path ∨ (u.entry f).path ++ ['/'] <+: path)

/-- A directory that need not be searched any more. -/
def Handled (st : State) (u : Url) : Prop :=
  u.dirPath ∈ st.iteratedDirs ∨ (∃ rest, st.current = some (u, rest)) ∨ ¬ Searchable w u

structure Done (st : State) (e : Url) : Prop where
  listed : lists w options e = true → ∃ p ∈ st.listed, p.1.entry p.2 = e
  followed : ∀ dest, follows w options e = some dest → dest ∈ st.pendingDirs ∨ Handled w st dest
  marked : excludes w options e = true → e.path ∈ st.iteratedDirs

/-- What a string stands for that has been seen. -/
def Mark (st : State) (m : Path) : Prop :=
  (∃ v, Root w options base v ∧ Searchable w v ∧ m = v.dirPath ∧
    ∀ n, Explored w options v n → Done w options st (v.entry n)) ∨
  ∃ u f, Reach w options base u f ∧ excludes w options (u.entry f) = true ∧
    m = (u.entry f).path ∧ Done w options st (u.entry f)

structure Taken (st : State) (u : Url) (rest : List Path) : Prop where
  root : Root w options base u
  searchable : Searchable w u
  order : ∃ before, (before ++ rest).Perm (listing w options u) ∧ FoldersFirst (before ++ rest) ∧
    ∀ n ∈ before, (Explored w options u n → Done w options st (u.entry n)) ∧
      (excludes w options (u.entry n) = true →
        hasBeenVisited (u.entry n).path st.iteratedDirs = true)

structure Inv (st : State) : Prop where
  start : base ∈ st.pendingDirs ∨ Handled w st base
  pending : ∀ u ∈ st.pendingDirs, Root w options base u
  listed : ∀ p ∈ st.listed,
    Reach w options base p.1 p.2 ∧ lists w options (p.1.entry p.2) = true
  marks : ∀ m ∈ st.iteratedDirs, Mark w options base st m
  current : ∀ u rest, st.current = some (u, rest) → Taken w options base st u rest

/-- Nothing that has been done is undone. -/
structure Grows (st st' : State) : Prop where
  iterated : st.iteratedDirs ⊆ st'.iteratedDirs
  listed : st.listed ⊆ st'.listed
  pending : ∀ u ∈ st.pendingDirs, u ∈ st'.pendingDirs ∨ Handled w st' u
  handled : ∀ u, Handled w st u → Handled w st' u

end

variable {w : World} {options : SearchOptions} {base : Url} {st st' : State}

lemma Grows.done {e : Url} (hg : Grows w st st') (h : Done w options st e) :
    Done w options st' e := by
  refine ⟨?_, ?_, fun hm => hg.iterated (h.marked hm)⟩
  · intro hl
    obtain ⟨p, hp, he⟩ := h.listed hl
    exact ⟨p, hg.listed hp, he⟩
  · intro dest hd
    rcases h.followed dest hd with hp | hh
    · exact hg.pending dest hp
    · exact Or.inr (hg.handled dest hh)

lemma Grows.mark {m : Path} (hg : Grows w st st') (h : Mark w options base st m) :
    Mark w options base st' m := by
  rcases h with ⟨v, hv, hs, rfl, hall⟩ | ⟨u, f, hu, hf, rfl, hdone⟩
  · exact Or.inl ⟨v, hv, hs, rfl, fun n hn => hg.done (hall n hn)⟩
  · exact Or.inr ⟨u, f, hu, hf, rfl, hg.done hdone⟩

lemma Grows.start (hg : Grows w st st') (h : base ∈ st.pendingDirs ∨ Handled w st base) :
    base ∈ st'.pendingDirs ∨ Handled w st' base := by
  rcases h with hp | hh
  · exact hg.pending base hp
  · exact Or.inr (hg.handled base hh)

lemma visited_mono {path : Path} (hsub : st.iteratedDirs ⊆ st'.iteratedDirs)
    (h : hasBeenVisited path st.iteratedDirs = true) :
    hasBeenVisited path st'.iteratedDirs = true := by
  obtain ⟨m, hm, hpre⟩ := hasBeenVisited_iff.mp h
  exact hasBeenVisited_iff.mpr ⟨m, hsub hm, hpre⟩

/-! ### The steps -/

variable {u : Url} {n : Path}

lemma handled_of_not_searched (h : searched w u st = false) : Handled w st u := by
  unfold searched at h
  rw [Bool.and_eq_false_iff] at h
  rcases h with hc | hr
  · exact Or.inl (by simpa using hc)
  · refine Or.inr (Or.inr ?_)
    rintro (hl | hl) <;> simp [hl] at hr

lemma searchable_of_searched (h : searched w u st = true) :
    Searchable w u ∧ u.dirPath ∉ st.iteratedDirs := by
  unfold searched at h
  obtain ⟨hc, hr⟩ := Bool.and_eq_true_iff.mp h
  refine ⟨?_, by simpa using hc⟩
  rcases Bool.or_eq_true_iff.mp hr with hl | hl
  · exact Or.inl (by simpa using hl)
  · exact Or.inr hl

lemma Inv.aside (h : Inv w options base st) {rest : List Url} (hp : st.pendingDirs = u :: rest)
    (hs : searched w u st = false) : Inv w options base { st with pendingDirs := rest } := by
  have hg : Grows w st { st with pendingDirs := rest } := by
    refine ⟨fun _ h => h, fun _ h => h, fun v hv => ?_, fun _ h => h⟩
    rw [hp] at hv
    rcases List.mem_cons.mp hv with rfl | hv
    · exact Or.inr (handled_of_not_searched hs)
    · exact Or.inl hv
  refine ⟨hg.start h.start, ?_, h.listed, fun m hm => hg.mark (h.marks m hm), ?_⟩
  · intro v hv
    exact h.pending v (hp ▸ List.mem_cons_of_mem _ hv)
  · intro v names hc
    obtain ⟨hroot, hsearch, before, hperm, hfirst, hall⟩ := h.current v names hc
    exact ⟨hroot, hsearch, before, hperm, hfirst, fun n hn =>
      ⟨fun hx => hg.done ((hall n hn).1 hx), (hall n hn).2⟩⟩

lemma Inv.search (h : Inv w options base st) {rest : List Url} {order : List Path}
    (hc : st.current = none) (hp : st.pendingDirs = u :: rest) (hs : searched w u st = true)
    (hperm : order.Perm (listing w options u)) (hfirst : FoldersFirst order) :
    Inv w options base { st with pendingDirs := rest, current := some (u, order) } := by
  have hg : Grows w st { st with pendingDirs := rest, current := some (u, order) } := by
    refine ⟨fun _ h => h, fun _ h => h, fun v hv => ?_, fun v hv => ?_⟩
    · rw [hp] at hv
      rcases List.mem_cons.mp hv with rfl | hv
      · exact Or.inr (Or.inr (Or.inl ⟨order, rfl⟩))
      · exact Or.inl hv
    · rcases hv with hv | ⟨names, hv⟩ | hv
      · exact Or.inl hv
      · simp [hc] at hv
      · exact Or.inr (Or.inr hv)
  refine ⟨hg.start h.start, ?_, h.listed, fun m hm => hg.mark (h.marks m hm), ?_⟩
  · intro v hv
    exact h.pending v (hp ▸ List.mem_cons_of_mem _ hv)
  · intro v names hv
    obtain ⟨rfl, rfl⟩ : u = v ∧ order = names := by simpa using hv
    exact ⟨h.pending u (hp ▸ List.mem_cons_self ..), (searchable_of_searched hs).1, [], hperm,
      hfirst, by simp⟩

lemma Inv.finish (h : Inv w options base st) (hc : st.current = some (u, [])) :
    Inv w options base { st.insert u.dirPath with current := none } := by
  have hg : Grows w st { st.insert u.dirPath with current := none } := by
    refine ⟨fun m hm => List.mem_cons_of_mem _ hm, fun _ h => h, fun v hv => Or.inl hv,
      fun v hv => ?_⟩
    rcases hv with hv | ⟨names, hv⟩ | hv
    · exact Or.inl (List.mem_cons_of_mem _ hv)
    · obtain ⟨rfl, -⟩ : u = v ∧ [] = names := by simpa [hc] using hv
      exact Or.inl (List.mem_cons_self ..)
    · exact Or.inr (Or.inr hv)
  obtain ⟨hroot, hsearch, before, hperm, hfirst, hall⟩ := h.current u [] hc
  refine ⟨hg.start h.start, h.pending, h.listed, ?_, by simp⟩
  intro m hm
  rcases List.mem_cons.mp hm with rfl | hm
  · refine Or.inl ⟨u, hroot, hsearch, rfl, fun n hn => hg.done ?_⟩
    rw [List.append_nil] at hperm
    exact (hall n (hperm.mem_iff.mpr hn.1)).1 hn
  · exact hg.mark (h.marks m hm)

lemma done_of_visited (hclear : Clear w options base) (h : Inv w options base st)
    (hr : Reach w options base u n) (hv : hasBeenVisited (u.entry n).path st.iteratedDirs = true) :
    Done w options st (u.entry n) := by
  obtain ⟨m, hm, hpre⟩ := hasBeenVisited_iff.mp hv
  rcases h.marks m hm with ⟨v, hvr, hvs, rfl, hall⟩ | ⟨v, f, hf, hx, rfl, hdone⟩
  · -- below a directory whose search is finished
    obtain ⟨k, hk, heq⟩ := hclear.coherent u n v hr hvr hvs hpre
    exact heq ▸ hall k hk
  · rcases hclear.apart v f u n hf hx hr.root hr.searchable hr.explored.1 hpre with heq | hin
    · -- the folder itself
      have hsite : u.site = v.site := (hclear.site u hr.root).trans (hclear.site v hf.root).symm
      have hentry : u.entry n = v.entry f := by
        unfold Url.entry at heq ⊢
        rw [hsite]
        exact congrArg (Url.mk v.site) heq
      rwa [hentry]
    · -- in the folder: it is not reached from there
      have hbelow : v.dirPath <+: (u.entry n).path :=
        (List.prefix_append _ _).trans hpre
      obtain ⟨k, hk, heq⟩ := hclear.coherent u n v hr hf.root hf.searchable hbelow
      rw [← heq] at hin
      have hfk : f ++ ['/'] <+: k := by
        have hin : v.dirPath ++ (f ++ ['/']) <+: v.dirPath ++ k := by
          rw [← List.append_assoc]
          exact hin
        exact (List.prefix_append_right_inj _).mp hin
      have hno := hk.2 f hf.explored.1 hfk
      rw [hx] at hno
      exact absurd hno (by simp)

lemma explored_of_not_visited {rest : List Path} (h : Taken w options base st u (n :: rest))
    (hv : hasBeenVisited (u.entry n).path st.iteratedDirs = false) : Explored w options u n := by
  obtain ⟨-, -, before, hperm, hfirst, hall⟩ := h
  refine ⟨hperm.mem_iff.mp (by simp), fun f hf hin => ?_⟩
  by_contra hx
  have hx : excludes w options (u.entry f) = true := by simpa using hx
  have hbefore : f ∈ before := by
    rcases List.mem_append.mp (hperm.mem_iff.mpr hf) with hb | hr
    · exact hb
    · exfalso
      rcases List.mem_cons.mp hr with rfl | hr
      · have hlen := hin.length_le
        simp only [List.length_append, List.length_singleton] at hlen
        omega
      · have hpair := (List.pairwise_append.mp hfirst).2.1
        exact (List.pairwise_cons.mp hpair).1 f hr hin
  obtain ⟨m, hm, hpre⟩ := hasBeenVisited_iff.mp ((hall f hbefore).2 hx)
  have hfn : (u.entry f).path <+: (u.entry n).path := by
    have hle : f <+: n := (List.prefix_append f ['/']).trans hin
    exact (List.prefix_append_right_inj _).mpr hle
  have hvisited := hasBeenVisited_iff.mpr ⟨m, hm, hpre.trans hfn⟩
  rw [hv] at hvisited
  exact absurd hvisited (by simp)

lemma Inv.entry (hclear : Clear w options base) (h : Inv w options base st) {rest : List Path}
    (hc : st.current = some (u, n :: rest)) :
    Inv w options base { processEntry w options u n st with current := some (u, rest) } := by
  have htaken := h.current u _ hc
  obtain ⟨hroot, hsearch, before, hperm, hfirst, hall⟩ := htaken
  have hperm' : ((before ++ [n]) ++ rest).Perm (listing w options u) := by
    rwa [List.append_assoc]
  have hfirst' : FoldersFirst ((before ++ [n]) ++ rest) := by
    rwa [List.append_assoc]
  cases hv : hasBeenVisited (u.entry n).path st.iteratedDirs with
  | true =>
    rw [processEntry_visited hv]
    have hg : Grows w st { st with current := some (u, rest) } := by
      refine ⟨fun _ h => h, fun _ h => h, fun v hv => Or.inl hv, fun v hv => ?_⟩
      rcases hv with hv | ⟨names, hv⟩ | hv
      · exact Or.inl hv
      · obtain ⟨rfl, -⟩ : u = v ∧ _ := by simpa [hc] using hv
        exact Or.inr (Or.inl ⟨rest, rfl⟩)
      · exact Or.inr (Or.inr hv)
    refine ⟨hg.start h.start, h.pending, h.listed, fun m hm => hg.mark (h.marks m hm), ?_⟩
    intro v names hcur
    obtain ⟨rfl, rfl⟩ : u = v ∧ rest = names := by simpa using hcur
    refine ⟨hroot, hsearch, before ++ [n], hperm', hfirst', fun k hk => ?_⟩
    rcases List.mem_append.mp hk with hk | hk
    · exact ⟨fun hx => hg.done ((hall k hk).1 hx), (hall k hk).2⟩
    · obtain rfl := List.mem_singleton.mp hk
      exact ⟨fun hx => hg.done (done_of_visited hclear h ⟨hroot, hsearch, hx⟩ hv), fun _ => hv⟩
  | false =>
    have hexplored := explored_of_not_visited (h.current u _ hc) hv
    have hreach : Reach w options base u n := ⟨hroot, hsearch, hexplored⟩
    have hproc : Processed w options u n st (processEntry w options u n st) :=
      processEntry_processed hv
    generalize processEntry w options u n st = st₁ at hproc ⊢
    obtain ⟨hiterated, hpending, hlisted⟩ := hproc
    have hsub : st.iteratedDirs ⊆ st₁.iteratedDirs := by
      rw [hiterated]
      split
      · exact fun m hm => List.mem_cons_of_mem _ hm
      · exact fun m hm => hm
    have hg : Grows w st { st₁ with current := some (u, rest) } := by
      refine ⟨hsub, ?_, fun v hv => Or.inl ?_, fun v hv => ?_⟩
      · show st.listed ⊆ st₁.listed
        rw [hlisted]
        split
        · exact fun p hp => List.mem_append_left _ hp
        · exact fun p hp => hp
      · show v ∈ st₁.pendingDirs
        rw [hpending]
        exact List.mem_append_left _ hv
      · rcases hv with hv | ⟨names, hv⟩ | hv
        · exact Or.inl (hsub hv)
        · obtain ⟨rfl, -⟩ : u = v ∧ _ := by simpa [hc] using hv
          exact Or.inr (Or.inl ⟨rest, rfl⟩)
        · exact Or.inr (Or.inr hv)
    have hdone : Done w options { st₁ with current := some (u, rest) } (u.entry n) := by
      refine ⟨fun hl => ⟨(u, n), ?_, rfl⟩, fun dest hd => Or.inl ?_, fun hx => ?_⟩
      · show (u, n) ∈ st₁.listed
        rw [hlisted, if_pos hl]
        exact List.mem_append_right _ (List.mem_singleton_self _)
      · show dest ∈ st₁.pendingDirs
        rw [hpending, hd]
        exact List.mem_append_right _ (List.mem_singleton_self _)
      · show (u.entry n).path ∈ st₁.iteratedDirs
        rw [hiterated, if_pos hx]
        exact List.mem_cons_self ..
    refine ⟨hg.start h.start, ?_, ?_, ?_, ?_⟩
    · intro v hv
      have hv : v ∈ st₁.pendingDirs := hv
      rw [hpending] at hv
      rcases List.mem_append.mp hv with hv | hv
      · exact h.pending v hv
      · exact .link hroot hsearch hexplored (Option.mem_toList.mp hv)
    · intro p hp
      have hp : p ∈ st₁.listed := hp
      rw [hlisted] at hp
      split at hp
      · next hl =>
        rcases List.mem_append.mp hp with hp | hp
        · exact h.listed p hp
        · obtain rfl := List.mem_singleton.mp hp
          exact ⟨hreach, hl⟩
      · exact h.listed p hp
    · intro m hm
      have hm : m ∈ st₁.iteratedDirs := hm
      rw [hiterated] at hm
      split at hm
      · next hx =>
        rcases List.mem_cons.mp hm with rfl | hm
        · exact Or.inr ⟨u, n, hreach, hx, rfl, hdone⟩
        · exact hg.mark (h.marks m hm)
      · exact hg.mark (h.marks m hm)
    · intro v names hcur
      obtain ⟨rfl, rfl⟩ : u = v ∧ rest = names := by simpa using hcur
      refine ⟨hroot, hsearch, before ++ [n], hperm', hfirst', fun k hk => ?_⟩
      rcases List.mem_append.mp hk with hk | hk
      · exact ⟨fun hx => hg.done ((hall k hk).1 hx),
          fun hx => visited_mono hsub ((hall k hk).2 hx)⟩
      · obtain rfl := List.mem_singleton.mp hk
        refine ⟨fun _ => hdone, fun hx => hasBeenVisited_iff.mpr ⟨_, ?_, List.prefix_rfl⟩⟩
        exact hdone.marked hx

lemma Inv.step (hclear : Clear w options base) (h : Inv w options base st) {l : Label}
    (hs : step w options st l = some st') : Inv w options base st' := by
  rcases step_cases hs with ⟨u, rest, -, hp, hsearched, rfl⟩ |
    ⟨u, rest, order, hc, hp, hsearched, hperm, hfirst, rfl⟩ | ⟨u, n, rest, hc, rfl⟩ | ⟨u, hc, rfl⟩
  · exact h.aside hp hsearched
  · exact h.search hc hp hsearched hperm hfirst
  · exact h.entry hclear hc
  · exact h.finish hc

lemma Inv.initial : Inv w options base (initial base) := by
  refine ⟨Or.inl (List.mem_singleton_self _), ?_, by simp [FileNameSearch.initial],
    by simp [FileNameSearch.initial], by simp [FileNameSearch.initial]⟩
  intro u hu
  obtain rfl := List.mem_singleton.mp hu
  exact .start

lemma run_invariant (hclear : Clear w options base) {ls : List Label}
    (h : run (step w options) (initial base) ls = some st) : Inv w options base st :=
  run_inv (fun _ l _ hi _ hs => hi.step hclear hs) (allSteps_of_labels (P := fun _ => True) (by simp))
    Inv.initial h

/-! ### The results -/

lemma same_dir {v : Url} (hsite : u.site = v.site) (hpath : u.dirPath = v.dirPath) :
    u.dir = v.dir := by
  unfold Url.dir
  rw [hsite, hpath]

lemma explored_of_dir {v : Url} (h : u.dir = v.dir) :
    Explored w options u n → Explored w options v n := by
  obtain ⟨hsite, hpath⟩ : u.site = v.site ∧ u.dirPath = v.dirPath := by
    simpa [Url.dir] using h
  have hlisting : listing w options u = listing w options v := by
    unfold listing guarded
    rw [h, hpath]
  have hentry (f : Path) : u.entry f = v.entry f := by
    unfold Url.entry
    rw [hsite, hpath]
  rintro ⟨hn, hall⟩
  refine ⟨hlisting ▸ hn, fun f hf hin => ?_⟩
  rw [← hentry]
  exact hall f (hlisting ▸ hf) hin

lemma handled_of_root (hclear : Clear w options base) (h : Inv w options base st)
    (hp : st.pendingDirs = []) (hc : st.current = none) {v : Url} (hv : Root w options base v) :
    Handled w st v ∧ (Searchable w v → ∀ n, Explored w options v n →
      Done w options st (v.entry n)) := by
  have hdone {v : Url} (hv : Root w options base v) (hh : Handled w st v) :
      Searchable w v → ∀ n, Explored w options v n → Done w options st (v.entry n) := by
    intro hs n hn
    rcases hh with hm | ⟨names, hcur⟩ | hno
    · rcases h.marks _ hm with ⟨u, hu, -, hpath, hall⟩ | ⟨u, f, hf, -, hpath, -⟩
      · have hsite : v.site = u.site := (hclear.site v hv).trans (hclear.site u hu).symm
        have hentry : v.entry n = u.entry n := by
          unfold Url.entry
          rw [hsite, hpath]
        rw [hentry]
        exact hall n (explored_of_dir (same_dir hsite hpath) hn)
      · exact absurd hpath.symm (entry_ne_dirPath hf.explored.1)
    · simp [hc] at hcur
    · exact absurd hs hno
  induction hv with
  | start =>
    have hstart : Handled w st base := by
      rcases h.start with hmem | hh
      · simp [hp] at hmem
      · exact hh
    exact ⟨hstart, hdone .start hstart⟩
  | @link v dest n hv hs hn hf ih =>
    have hdest : Handled w st dest := by
      rcases (ih.2 hs n hn).followed dest hf with hmem | hh
      · simp [hp] at hmem
      · exact hh
    exact ⟨hdest, hdone (.link hv hs hn hf) hdest⟩

/-- **What is found.** Where nothing is hidden by mistake, in every run whatever is skipped has
been reached, and in the end the entries listed are those that the options say, in whatever
order the entries of the directories came. -/
theorem search_finds (w : World) (options : SearchOptions) (base : Url)
    (hclear : Clear w options base) (ls : List Label) (st : State)
    (h : run (step w options) (initial base) ls = some st) :
    (∀ u n rest, st.current = some (u, n :: rest) →
      hasBeenVisited (u.entry n).path st.iteratedDirs = true →
      Justified w options base st (u.entry n).path) ∧
    (st.pendingDirs = [] → st.current = none →
      ∀ e, (∃ p ∈ st.listed, p.1.entry p.2 = e) ↔ Expected w options base e) := by
  have hinv := run_invariant hclear h
  refine ⟨fun u n rest hc hv => ?_, fun hp hc e => ⟨?_, ?_⟩⟩
  · obtain ⟨m, hm, hpre⟩ := hasBeenVisited_iff.mp hv
    obtain ⟨hroot, hsearch, before, hperm, -, -⟩ := hinv.current u _ hc
    rcases hinv.marks m hm with ⟨v, hvr, -, rfl, -⟩ | ⟨v, f, hf, hx, rfl, -⟩
    · exact Or.inl ⟨v, hvr, hm, hpre⟩
    · have hn : n ∈ listing w options u := hperm.mem_iff.mp (by simp)
      exact Or.inr ⟨v, f, hf, hx, hm, hclear.apart v f u n hf hx hroot hsearch hn hpre⟩
  · rintro ⟨p, hp, rfl⟩
    obtain ⟨hreach, hl⟩ := hinv.listed p hp
    exact ⟨p.1, p.2, hreach, hl, rfl⟩
  · rintro ⟨v, n, hr, hl, rfl⟩
    exact ((handled_of_root hclear hinv hp hc hr.root).2 hr.searchable n hr.explored).listed hl

/-! ### A hidden folder and its sibling -/

def git : Path := ".git".toList

/-- A directory with a hidden folder and one more hidden entry; everything matches. -/
def siblings (other : Path) (h : [git, other].Nodup ∧ [] ∉ [git, other] ∧
    ∀ n ∈ [git, other], n.getLast? ≠ some '/') : World where
  names _ _ := [git, other]
  item e := ⟨e.path = "/r/.git".toList, true, true, []⟩
  isReadable _ := true
  resolved _ dest := ⟨[], dest⟩
  isMatch _ _ := true
  names_nodup _ _ := h.1
  names_ne_nil _ _ := h.2.1
  names_noSlash _ _ := h.2.2

def here : Url := ⟨"file:".toList, "/r".toList⟩

def hiddenFiles : SearchOptions := ⟨false, true, false⟩

def withProfile : World := siblings ".profile".toList (by decide)

lemma clear_withProfile : Clear withProfile hiddenFiles here := by
  have hroot : ∀ v, Root withProfile hiddenFiles here v → v = here := by
    intro v hv
    induction hv with
    | start => rfl
    | link _ _ _ hf _ => simp [follows, withProfile, siblings] at hf
  have hlisting : listing withProfile hiddenFiles here = [git, ".profile".toList] := by decide
  have hfolder : ∀ f ∈ listing withProfile hiddenFiles here,
      excludes withProfile hiddenFiles (here.entry f) = true → f = git := by
    rw [hlisting]
    decide
  have hapart : ∀ n ∈ listing withProfile hiddenFiles here,
      (here.entry git).path <+: (here.entry n).path → n = git := by
    rw [hlisting]
    decide
  refine ⟨fun v hv => by rw [hroot v hv], fun u f v n hf hx hv hs hn hpre => ?_,
    fun u n v hr hv hs hin => ?_⟩
  · obtain rfl := hroot u hf.root
    obtain rfl := hroot v hv
    obtain rfl := hfolder f hf.explored.1 hx
    rw [hapart n hn hpre]
    exact Or.inl rfl
  · obtain rfl := hroot u hr.root
    obtain rfl := hroot v hv
    exact ⟨n, hr.explored, rfl⟩

def inOrder (names : List Path) : List Label := [.search names, .entry, .entry, .finish]

theorem search_finds_withProfile : ∃ st,
    run (step withProfile hiddenFiles) (initial here) (inOrder [git, ".profile".toList]) =
      some st ∧
    ∀ e, (∃ p ∈ st.listed, p.1.entry p.2 = e) ↔ Expected withProfile hiddenFiles here e :=
  ⟨_, rfl, (search_finds withProfile hiddenFiles here clear_withProfile
    (inOrder [git, ".profile".toList]) _ rfl).2 rfl rfl⟩

def withIgnore : World := siblings ".gitignore".toList (by decide)

/-- A file is skipped when a hidden folder with a name that starts its own comes first. -/
theorem hidden_by_sibling :
    ((run (step withIgnore hiddenFiles) (initial here)
      (inOrder [git, ".gitignore".toList])).map State.listed = some [(here, git)]) ∧
    (run (step withIgnore hiddenFiles) (initial here)
      (inOrder [".gitignore".toList, git])).map State.listed =
        some [(here, ".gitignore".toList), (here, git)] := by
  decide

end KioExtras.FileNameSearch
