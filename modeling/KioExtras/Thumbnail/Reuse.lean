import KioExtras.Thumbnail.Cache

/-!
Whether a thumbnail that was stored is found when it is wanted again. It is looked for in the pools
that are not smaller than what is wanted, and stored in the smallest one that holds it.
-/

namespace KioExtras.Thumbnail.Cache

open KioExtras.Lib.Run KioExtras.Thumbnail.Preview

/-- The size that the pools are searched for. -/
def Job.wants (job : Job) : ℤ := max job.segmentWidth job.segmentHeight

/-- A worker begins a job and looks in so many pools. -/
def Job.look (job : Job) (i n : ℕ) : List Label :=
  .begins i job.worker job.filePath job.segmentWidth job.segmentHeight ::
    List.replicate n (.load i)

/-- It loads a thumbnail for the job. -/
def FindsAgain (env : Env) (s : State) (i : ℕ) (job : Job) : Prop :=
  ∃ n t image, run (step env) s (job.look i n) = some t ∧ t.workers i = .done job image

/-- A worker is about to begin a job. It is free, the file has a plugin, and the thumbnail may be
cached. -/
structure Fits (env : Env) (s : State) (i : ℕ) (job : Job) : Prop where
  free : s.workers i = .idle ∨ ∃ before image, s.workers i = .done before image
  creator : subCreator env job.worker job.filePath (s.files job.filePath) = some job.subCreator
  fits : fitsCache job.worker job.segmentWidth job.segmentHeight = true

/-- Nothing is cached yet, and the plugin makes a picture of this size, which is to be stored. -/
structure Stores (env : Env) (s : State) (i : ℕ) (job : Job) (width height : ℤ) : Prop
    extends Fits env s i job where
  missing : ∀ pool ∈ poolsFor job.wants, s.cache pool (thumbName env job.filePath) = none
  made : job.subCreator.create
    (subRequest job.worker job.filePath job.segmentWidth job.segmentHeight)
    (s.files job.filePath) = some (width, height)
  caching : job.subCreator.cacheThumbnail = true ∧ job.worker.cache ≠ 0

/-! ### The pools -/

lemma forall_pool {p : CachePool → Prop} :
    (∀ pool, p pool) ↔ p .normal ∧ p .large ∧ p .xlarge ∧ p .xxlarge :=
  ⟨fun h => ⟨h _, h _, h _, h _⟩, fun ⟨h1, h2, h3, h4⟩ pool => by cases pool <;> assumption⟩

variable {pool : CachePool} {n : ℤ}

lemma mem_poolsFor {wants : ℤ} : pool ∈ poolsFor wants ↔ wants ≤ pool.minSize := by
  have hpools : pool ∈ pools := by cases pool <;> decide
  simp [poolsFor, hpools]

lemma head?_poolsFor {wants : ℤ} : (poolsFor wants).head? = some pool ↔
    wants ≤ pool.minSize ∧ ∀ other : CachePool, wants ≤ other.minSize →
      pool.minSize ≤ other.minSize := by
  rw [forall_pool, poolsFor, List.head?_filter, pools]
  cases pool <;> grind [CachePool.minSize]

lemma exists_head?_poolsFor {wants : ℤ} (h : wants ≤ 1024) :
    ∃ pool, (poolsFor wants).head? = some pool := by
  cases hhead : (poolsFor wants).head? with
  | none =>
    have hlast : CachePool.xxlarge ∈ poolsFor wants := mem_poolsFor.mpr h
    rw [List.head?_eq_none_iff.mp hhead] at hlast
    exact absurd hlast List.not_mem_nil
  | some pool => exact ⟨pool, rfl⟩

lemma mem_poolsFor_iff {wants size : ℤ} (h : (poolsFor size).head? = some pool) :
    pool ∈ poolsFor wants ↔ ∀ other : CachePool, other.minSize < wants → other.minSize < size := by
  obtain ⟨hsize, hleast⟩ := head?_poolsFor.mp h
  rw [mem_poolsFor]
  constructor
  · intro hwants other hother
    by_contra hnot
    have := hleast other (by omega)
    omega
  · intro hall
    by_contra hnot
    have := hall pool (by omega)
    omega

/-! ### The size of what is stored -/

lemma scaled_max {image : QImage} (hn : 1 ≤ n) (hlarge : image.width > n ∨ image.height > n) :
    max (image.scaled n n).width (image.scaled n n).height = n := by
  unfold QImage.scaled
  dsimp only
  split_ifs with hfits
  · dsimp only
    omega
  · dsimp only
    have hheight : 0 < image.height := by
      by_contra hneg
      have hquotient := Int.ediv_nonpos_of_nonneg_of_nonpos
        (Int.mul_nonneg (by omega : 0 ≤ n) (by omega : 0 ≤ image.width))
        (by omega : image.height ≤ 0)
      omega
    have hless : (n + 1) * image.height ≤ n * image.width :=
      Int.mul_le_of_le_ediv hheight (by omega)
    have hheights : n * image.height ≤ (n + 1) * image.height :=
      Int.mul_le_mul_of_nonneg_right (by omega) hheight.le
    have hwidth : 0 < image.width := by
      by_contra hneg
      have hpos := Int.mul_pos (by omega : 0 < n + 1) hheight
      have hnonpos := Int.mul_nonpos_of_nonneg_of_nonpos (by omega : 0 ≤ n)
        (by omega : image.width ≤ 0)
      omega
    have hfits' := Int.ediv_le_of_le_mul hwidth (hheights.trans hless)
    omega

lemma scaleDownImage_max (image : QImage) (hn : 1 ≤ n) :
    max (scaleDownImage image n n).width (scaleDownImage image n n).height =
      min (max image.width image.height) n := by
  unfold scaleDownImage
  split_ifs with hlarge
  · rw [scaled_max hn hlarge]
    omega
  · omega

/-! ### The two calls -/

section calls

variable {env : Env} {s : State} {i : ℕ} {job : Job} {width height : ℤ}

lemma setPhase_setPhase (phase next : Phase) :
    setPhase (setPhase s i phase) i next = setPhase s i next := by
  simp [setPhase]

@[simp] lemma setPhase_workers (phase : Phase) : (setPhase s i phase).workers i = phase := by
  simp [setPhase]

lemma step_load {phase next : Phase} (hphase : s.workers i = phase)
    (hload : loadPool env s phase = some next) :
    step env s (.load i) = some (setPhase s i next) := by
  rw [step, hphase, hload, Option.map_some]

lemma loads_making {left : List CachePool} (hphase : s.workers i = .looking job left)
    (hmissing : ∀ pool ∈ left, s.cache pool (thumbName env job.filePath) = none) :
    run (step env) s (List.replicate (left.length + 1) (.load i)) =
      some (setPhase s i (.making job)) := by
  induction left generalizing s with
  | nil => 
    rw [List.length_nil, List.replicate_succ, run_cons, step_load hphase rfl]
    rfl
  | cons pool left ih =>
    have hload : loadPool env s (.looking job (pool :: left)) = some (.looking job left) := by
      rw [loadPool, hmissing pool List.mem_cons_self]
    rw [List.length_cons, List.replicate_succ, run_cons, step_load hphase hload, Option.bind_some,
      ih (setPhase_workers _) fun pool hpool => hmissing pool (List.mem_cons_of_mem _ hpool),
      setPhase_setPhase]

lemma loads_done_iff {left : List CachePool} (hphase : s.workers i = .looking job left) :
    (∃ n t image, run (step env) s (List.replicate n (.load i)) = some t ∧
        t.workers i = .done job image) ↔
      ∃ pool ∈ left, s.cache pool (thumbName env job.filePath) ≠ none := by
  induction left generalizing s with
  | nil =>
    refine iff_of_false ?_ (by simp)
    rintro ⟨n | ⟨_ | n⟩, t, image, hrun, hdone⟩
    · obtain rfl := Option.some.inj hrun
      simp [hphase] at hdone
    · rw [List.replicate_succ, run_cons, step_load hphase rfl] at hrun
      obtain rfl := Option.some.inj hrun
      simp at hdone
    · rw [List.replicate_succ, run_cons, step_load hphase rfl, Option.bind_some,
        List.replicate_succ, run_cons, step, setPhase_workers] at hrun
      exact absurd hrun nofun
  | cons pool left ih =>
    cases hcache : s.cache pool (thumbName env job.filePath) with
    | some image =>
      obtain ⟨loaded, hload⟩ : ∃ loaded, loadPool env s (.looking job (pool :: left)) =
          some (.done job loaded) := ⟨_, by rw [loadPool, hcache]⟩
      have hrun : run (step env) s (List.replicate 1 (.load i)) =
          some (setPhase s i (.done job loaded)) := by
        rw [List.replicate_one, run_cons, step_load hphase hload]
        rfl
      exact iff_of_true ⟨1, _, loaded, hrun, setPhase_workers _⟩
        ⟨pool, List.mem_cons_self, by simp [hcache]⟩
    | none =>
      have hload : loadPool env s (.looking job (pool :: left)) = some (.looking job left) := by
        rw [loadPool, hcache]
      have hrest := ih (s := setPhase s i (.looking job left)) (setPhase_workers _)
      rw [List.exists_mem_cons_iff, hcache, or_iff_right (by simp)]
      refine Iff.trans ⟨?_, ?_⟩ hrest
      · rintro ⟨_ | n, t, image, hrun, hdone⟩
        · obtain rfl := Option.some.inj hrun
          simp [hphase] at hdone
        · rw [List.replicate_succ, run_cons, step_load hphase hload] at hrun
          exact ⟨n, t, image, hrun, hdone⟩
      · rintro ⟨n, t, image, hrun, hdone⟩
        refine ⟨n + 1, t, image, ?_, hdone⟩
        rw [List.replicate_succ, run_cons, step_load hphase hload]
        exact hrun

lemma Fits.begins (h : Fits env s i job) :
    step env s (.begins i job.worker job.filePath job.segmentWidth job.segmentHeight) =
      some (setPhase s i (.looking job (poolsFor job.wants))) := by
  have hbegin : beginJob env s job.worker job.filePath job.segmentWidth job.segmentHeight
      (s.workers i) = some (startJob job) := by
    rcases h.free with hidle | ⟨before, image, hdone⟩
    · rw [hidle, beginJob, h.creator]
    · rw [hdone, beginJob, h.creator]
  rw [step, hbegin, startJob, if_pos h.fits]
  rfl

lemma Fits.findsAgain_iff (h : Fits env s i job) : FindsAgain env s i job ↔
    ∃ pool ∈ poolsFor job.wants, s.cache pool (thumbName env job.filePath) ≠ none := by
  have hloads := @loads_done_iff env (setPhase s i (.looking job (poolsFor job.wants))) i job _
    (setPhase_workers _)
  refine Iff.trans ?_ hloads
  unfold FindsAgain Job.look
  simp only [run_cons, h.begins, Option.bind_some]

def stored (env : Env) (s : State) (i : ℕ) (job : Job) (pool : CachePool) (image : QImage) :
    State :=
  ⟨s.files, store s.cache pool (thumbName env job.filePath) (some image),
    Function.update s.workers i (.done job image)⟩

lemma stored_cache {pool p : CachePool} {image : QImage} :
    (stored env s i job pool image).cache p (thumbName env job.filePath) =
      if p = pool then some image else s.cache p (thumbName env job.filePath) := by
  unfold stored store
  split_ifs with heq <;> simp [heq]

lemma Stores.stored (h : Stores env s i job width height) :
    ∃ wanted pool image, (poolsFor job.wants).head? = some wanted ∧
      max image.width image.height = min (max width height) wanted.minSize ∧
      poolOf image = some pool ∧
      run (step env) s (job.look i ((poolsFor job.wants).length + 1) ++
          [.create i, .stat i true, .commit i true]) = some (stored env s i job pool image) := by
  have hwants : job.wants ≤ 1024 := by
    have hfits := h.fits
    simp only [fitsCache, Bool.and_eq_true, decide_eq_true_eq, le_min_iff] at hfits
    exact max_le (by exact_mod_cast hfits.1.1) (by exact_mod_cast hfits.2.1)
  obtain ⟨wanted, hwanted⟩ := exists_head?_poolsFor hwants
  have hone : 1 ≤ wanted.minSize := by cases wanted <;> decide
  have hsize : subSize job.worker job.segmentWidth job.segmentHeight =
      (wanted.minSize, wanted.minSize) := by
    rw [subSize, if_pos h.fits, cacheSize, ← Job.wants, hwanted]
    rfl
  obtain ⟨image, hthumbnail, hmax⟩ : ∃ image, job.thumbnail (s.files job.filePath) = some image ∧
      max image.width image.height = min (max width height) wanted.minSize := by
    have hmade := h.made
    rw [subRequest, hsize] at hmade
    rw [Job.thumbnail, hsize, createThumbnail, hmade]
    exact ⟨_, rfl, scaleDownImage_max _ hone⟩
  have hscaled := scaleDownImage_max image hone
  have hlimit : wanted.minSize ≤ 1024 := by cases wanted <;> decide
  generalize hthumb : scaleDownImage image wanted.minSize wanted.minSize = thumbnail at hscaled
  obtain ⟨pool, hpool⟩ := exists_head?_poolsFor
    (by omega : max thumbnail.width thumbnail.height ≤ 1024)
  obtain ⟨image', himage⟩ : ∃ image' : QImage, { thumbnail with
    text := some (record env job.filePath (s.files job.filePath)) } = image' := ⟨_, rfl⟩
  have hpool' : poolOf image' = some pool := by rw [← himage]; exact hpool
  refine ⟨wanted, pool, image', hwanted, ?_, hpool', ?_⟩
  · rw [← himage]
    exact hscaled.trans (by omega)
  have hlook : run (step env) s (job.look i ((poolsFor job.wants).length + 1)) =
      some (setPhase s i (.making job)) := by
    rw [Job.look, run_cons, h.begins, Option.bind_some, loads_making (setPhase_workers _) h.missing,
      setPhase_setPhase]
  have hcreate : step env (setPhase s i (.making job)) (.create i) =
      some (setPhase s i (.made job thumbnail)) := by
    have hmake : makeThumbnail s (.making job) = some (.made job thumbnail) := by
      rw [makeThumbnail, hthumbnail]
      dsimp only
      rw [if_pos h.fits, hsize, if_pos h.caching, hthumb]
    rw [step, setPhase_workers]
    change (makeThumbnail s (.making job)).map _ = _
    rw [hmake, Option.map_some, setPhase_setPhase]
  have hstat : step env (setPhase s i (.made job thumbnail)) (.stat i true) =
      some (setPhase s i (.storing job image')) := by
    rw [step, setPhase_workers, setTexts, if_pos rfl, Option.map_some, setPhase_setPhase, ← himage]
    rfl
  have hcommit : step env (setPhase s i (.storing job image')) (.commit i true) =
      some (Cache.stored env s i job pool image') := by
    have hdone : commitThumbnail env (setPhase s i (.storing job image')) true
        (.storing job image') = some (store s.cache pool (thumbName env job.filePath) (some image'),
          .done job image') := by
      simp only [commitThumbnail, hpool']
      rfl
    rw [step, setPhase_workers, hdone, Option.map_some]
    dsimp only
    rw [setPhase_setPhase]
    rfl
  rw [run_append, hlook, Option.bind_some, run_cons, hcreate, Option.bind_some, run_cons, hstat,
    Option.bind_some, run_cons, hcommit, Option.bind_some, run_nil]

lemma Stores.findsAgain_iff (h : Stores env s i job width height) {pool : CachePool}
    {image : QImage} :
    FindsAgain env (Cache.stored env s i job pool image) i job ↔ pool ∈ poolsFor job.wants := by
  have hnext : Fits env (Cache.stored env s i job pool image) i job :=
    ⟨Or.inr ⟨job, image, Function.update_self ..⟩, h.creator, h.fits⟩
  rw [hnext.findsAgain_iff]
  constructor
  · rintro ⟨p, hp, hsome⟩
    by_contra hnot
    rw [stored_cache, if_neg fun heq : p = pool => hnot (heq ▸ hp)] at hsome
    exact hsome (h.missing p hp)
  · exact fun hpool => ⟨pool, hpool, by simp [stored_cache]⟩

/-- **A thumbnail that was stored** is not larger than its pool, and found again just if the picture
that the plugin makes is larger than every pool that is too small for what is wanted. -/
theorem stored_found_iff (h : Stores env s i job width height) :
    ∃ t pool image, run (step env) s (job.look i ((poolsFor job.wants).length + 1) ++
        [.create i, .stat i true, .commit i true]) = some t ∧ t.files = s.files ∧
      t.cache pool (thumbName env job.filePath) = some image ∧ poolOf image = some pool ∧
      image.width ≤ pool.minSize ∧ image.height ≤ pool.minSize ∧
      (FindsAgain env t i job ↔
        ∀ small : CachePool, small.minSize < job.wants → small.minSize < max width height) := by
  obtain ⟨wanted, pool, image, hwanted, hmax, hpool, hrun⟩ := h.stored
  have hcached := @stored_cache env s i job pool pool image
  rw [if_pos rfl] at hcached
  have hholds := (head?_poolsFor.mp hpool).1
  refine ⟨_, pool, image, hrun, rfl, hcached, hpool, by omega, by omega, ?_⟩
  rw [h.findsAgain_iff, mem_poolsFor_iff hpool]
  have hwants := (head?_poolsFor.mp hwanted).1
  exact forall₂_congr fun small hsmall => by omega

end calls

/-! ### A small picture -/

/-- A photo of 100 pixels, wanted with up to so many. -/
def photoJob (size : ℤ) : Job := ⟨photoWorker, photoPath, size, size, photoCreator⟩

def photoStart : State := start fun _ => some oldPhoto

lemma photo_stores {size : ℤ} (hsize : size ≤ 512) :
    Stores photoEnv photoStart 0 (photoJob size) 100 100 := by
  have hfits : fitsCache photoWorker size size = true := by
    have hsize' : (size : ℚ) ≤ 512 := by exact_mod_cast hsize
    have hlimit : (size : ℚ) ≤ min 1024 512 := le_min (hsize'.trans (by norm_num)) hsize'
    simpa [fitsCache, photoWorker] using hlimit
  exact ⟨⟨Or.inl rfl, rfl, hfits⟩, fun _ _ => rfl, rfl, rfl,
    (by decide : (1 : ℤ) ≠ 0)⟩

theorem photo_found_again : ∃ t pool image,
    run (step photoEnv) photoStart ((photoJob 100).look 0 5 ++
      [.create 0, .stat 0 true, .commit 0 true]) = some t ∧ t.files = photoStart.files ∧
      t.cache pool (thumbName photoEnv photoPath) = some image ∧ poolOf image = some pool ∧
      image.width ≤ pool.minSize ∧ image.height ≤ pool.minSize ∧
      (FindsAgain photoEnv t 0 (photoJob 100) ↔
        ∀ small : CachePool, small.minSize < 100 → small.minSize < max (100 : ℤ) 100) :=
  stored_found_iff (photo_stores (by decide : (100 : ℤ) ≤ 512))

/-- With up to 200 pixels it is looked for among the large pictures and stored among the normal
ones. -/
theorem photo_made_again : ¬∀ (env : Env) (s t : State) (i n : ℕ) (job : Job) (width height : ℤ),
    Stores env s i job width height →
    run (step env) s (job.look i n ++ [.create i, .stat i true, .commit i true]) = some t →
    FindsAgain env t i job := by
  intro hall
  have h := photo_stores (by decide : (200 : ℤ) ≤ 512)
  obtain ⟨wanted, pool, image, _, hmax, hpool, hrun⟩ := h.stored
  have hsearched := h.findsAgain_iff.mp (hall _ _ _ _ _ _ _ _ h hrun)
  have hnormal := (head?_poolsFor.mp hpool).2 .normal (by
    rw [hmax]
    exact (min_le_left _ _).trans (by decide))
  exact absurd ((mem_poolsFor.mp hsearched).trans hnormal) (by decide)

end KioExtras.Thumbnail.Cache
