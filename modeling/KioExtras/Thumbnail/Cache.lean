import KioExtras.Lib.Run
import KioExtras.Thumbnail.Preview
import Mathlib.Logic.Function.Basic
import Mathlib.Tactic.NormNum

/-!
The thumbnail cache and the workers that use it, each in the middle of a `createSubThumbnail`:
files change, other programs fill the cache, and the workers look up, make and store thumbnails, in
any order.
-/

namespace KioExtras.Thumbnail.Cache

open KioExtras.Lib.Run KioExtras.Thumbnail.Preview

structure Job where
  worker : ThumbnailProtocol
  filePath : Text
  segmentWidth : ℤ
  segmentHeight : ℤ
  subCreator : ThumbCreatorWithMetadata

inductive Phase
  | idle
  | looking (job : Job) (left : List CachePool)
  | making (job : Job)
  /-- to be stored -/
  | made (job : Job) (thumbnail : QImage)
  /-- with the texts, the file open -/
  | storing (job : Job) (thumbnail : QImage)
  | done (job : Job) (thumbnail : QImage)

structure State where
  files : Text → Option File
  cache : CachePool → Text → Option QImage
  workers : ℕ → Phase

inductive Label
  | change (path : Text) (file : Option File)
  /-- Another program stores a thumbnail, or removes one. -/
  | fill (pool : CachePool) (name : Text) (image : Option QImage)
  | begins (i : ℕ) (worker : ThumbnailProtocol) (filePath : Text) (segmentWidth segmentHeight : ℤ)
  | load (i : ℕ)
  | create (i : ℕ)
  | stat (i : ℕ) (opened : Bool)
  | commit (i : ℕ) (saved : Bool)

section worker

variable (env : Env)

def thumbName (filePath : Text) : Text := env.md5 (env.toEncoded filePath) ++ ".png".toList

/-- What a thumbnail of the file records; of a file that is gone, an invalid time and no size. -/
def record (filePath : Text) (file : Option File) : Texts :=
  ⟨env.toEncoded filePath, (file.map File.lastModified).getD 0, (file.map File.size).getD 0⟩

def startJob (job : Job) : Phase :=
  if fitsCache job.worker job.segmentWidth job.segmentHeight then
    .looking job (poolsFor (max job.segmentWidth job.segmentHeight))
  else .making job

/-- The thumbnail a worker finds in the pool it looks in. -/
def found (s : State) : Phase → Option QImage
  | .looking job (pool :: _) => s.cache pool (thumbName env job.filePath)
  | _ => none

def loadPool (s : State) : Phase → Option Phase
  | .looking job [] => some (.making job)
  | .looking job (pool :: left) =>
    match s.cache pool (thumbName env job.filePath) with
    | some image =>
      some (.done job { image with devicePixelRatio := job.worker.m_devicePixelRatio })
    | none => some (.looking job left)
  | _ => none

def Job.thumbnail (job : Job) (file : Option File) : Option QImage :=
  let size := subSize job.worker job.segmentWidth job.segmentHeight
  createThumbnail job.worker job.subCreator job.filePath size.1 size.2 file

def makeThumbnail (s : State) : Phase → Option Phase
  | .making job =>
    match job.thumbnail (s.files job.filePath) with
    | none => some .idle
    | some image =>
      if fitsCache job.worker job.segmentWidth job.segmentHeight then
        let size := subSize job.worker job.segmentWidth job.segmentHeight
        let thumbnail := scaleDownImage image size.1 size.2
        if job.subCreator.cacheThumbnail ∧ job.worker.cache ≠ 0 then some (.made job thumbnail)
        else some (.done job thumbnail)
      else some (.done job image)
  | _ => none

def setTexts (s : State) (opened : Bool) : Phase → Option Phase
  | .made job image =>
    if opened then
      some (.storing job
        { image with text := some (record env job.filePath (s.files job.filePath)) })
    else some (.done job image)
  | _ => none

def store (cache : CachePool → Text → Option QImage) (pool : CachePool) (name : Text)
    (image : Option QImage) : CachePool → Text → Option QImage :=
  Function.update cache pool (Function.update (cache pool) name image)

/-- The pool a thumbnail of this size is stored in. -/
def poolOf (image : QImage) : Option CachePool := (poolsFor (max image.width image.height)).head?

def commitThumbnail (s : State) (saved : Bool) :
    Phase → Option ((CachePool → Text → Option QImage) × Phase)
  | .storing job image =>
    match saved, poolOf image with
    | true, some pool =>
      some (store s.cache pool (thumbName env job.filePath) image, .done job image)
    | _, _ => some (s.cache, .done job image)
  | _ => none

def beginJob (s : State) (worker : ThumbnailProtocol) (filePath : Text)
    (segmentWidth segmentHeight : ℤ) : Phase → Option Phase
  | .idle | .done _ _ =>
    match subCreator env worker filePath (s.files filePath) with
    | none => some .idle
    | some creator => some (startJob ⟨worker, filePath, segmentWidth, segmentHeight, creator⟩)
  | _ => none

def setPhase (s : State) (i : ℕ) (phase : Phase) : State :=
  { s with workers := Function.update s.workers i phase }

def step (s : State) : Label → Option State
  | .change path file => some { s with files := Function.update s.files path file }
  | .fill pool name image => some { s with cache := store s.cache pool name image }
  | .begins i worker filePath segmentWidth segmentHeight =>
    (beginJob env s worker filePath segmentWidth segmentHeight (s.workers i)).map (setPhase s i)
  | .load i => (loadPool env s (s.workers i)).map (setPhase s i)
  | .create i => (makeThumbnail s (s.workers i)).map (setPhase s i)
  | .stat i opened => (setTexts env s opened (s.workers i)).map (setPhase s i)
  | .commit i saved => (commitThumbnail env s saved (s.workers i)).map fun (cache, phase) =>
      { setPhase s i phase with cache := cache }

def start (files : Text → Option File) : State := ⟨files, fun _ _ => none, fun _ => .idle⟩

/-! ### What is to hold -/

/-- The image was made from the version of the file, and says so. -/
def IsOf (path : Text) (file : Option File) (image : QImage) : Prop :=
  image.shows = file ∧ image.text = some (record env path file)

/-- The image a worker loads was made from the version the file has now, and the image a worker
makes shows it. -/
def ShowsCurrent (s : State) : Label → Prop
  | .load i => ∀ job pool left, s.workers i = .looking job (pool :: left) →
      ∀ image, s.cache pool (thumbName env job.filePath) = some image →
        IsOf env job.filePath (s.files job.filePath) image
  | .create i => ∀ job, s.workers i = .making job →
      ∀ image, job.thumbnail (s.files job.filePath) = some image →
        image.shows = s.files job.filePath
  | _ => True

/-- A worker has made a thumbnail of the file and not stored it yet. -/
def Holds (phase : Phase) (path : Text) : Prop :=
  ∃ job image, (phase = .made job image ∨ phase = .storing job image) ∧ job.filePath = path

/-- A file is changed only while there is no thumbnail of it, in the cache or with a worker; other
programs store what was made from the version the file has now; and a thumbnail is stored under a
name that is that of no other file. -/
def Careful (s : State) : Label → Prop
  | .change path _ =>
    (∀ pool, s.cache pool (thumbName env path) = none) ∧ ∀ i, ¬ Holds (s.workers i) path
  | .fill _ name image =>
    ∀ thumbnail, image = some thumbnail → ∀ path, thumbName env path = name →
      IsOf env path (s.files path) thumbnail
  | .commit i _ => ∀ job image, s.workers i = .storing job image →
      ∀ path, thumbName env path = thumbName env job.filePath → path = job.filePath
  | _ => True

/-- **What is cached is current**, and so is what is about to be. -/
structure Current (s : State) : Prop where
  cache : ∀ pool path image, s.cache pool (thumbName env path) = some image →
    IsOf env path (s.files path) image
  made : ∀ i job image, s.workers i = .made job image → image.shows = s.files job.filePath
  storing : ∀ i job image, s.workers i = .storing job image →
    IsOf env job.filePath (s.files job.filePath) image

end worker

variable {env : Env}

/-! ### What a made image shows -/

lemma scaleDownImage_shows (image : QImage) (maxWidth maxHeight : ℤ) :
    (scaleDownImage image maxWidth maxHeight).shows = image.shows := by
  unfold scaleDownImage
  split_ifs <;> rfl

lemma thumbnail_shows {job : Job} {file : Option File} {image : QImage}
    (h : job.thumbnail file = some image) : image.shows = file := by
  unfold Job.thumbnail createThumbnail at h
  obtain ⟨size, _, rfl⟩ := Option.map_eq_some_iff.mp h
  exact scaleDownImage_shows _ _ _

variable {phase : Phase} {s : State}

lemma makeThumbnail_cases {next : Phase} (h : makeThumbnail s phase = some next) :
    next = .idle ∨ (∃ job image, next = .done job image) ∨
      ∃ job image, next = .made job image ∧ image.shows = s.files job.filePath := by
  cases phase with
  | making job =>
    unfold makeThumbnail at h
    dsimp only at h
    split at h
    · exact Or.inl (Option.some.inj h).symm
    · next image hmade =>
      have hshows := thumbnail_shows hmade
      split_ifs at h with hfits hstore
      · refine Or.inr (Or.inr ⟨_, _, (Option.some.inj h).symm, ?_⟩)
        rw [scaleDownImage_shows]
        exact hshows
      · exact Or.inr (Or.inl ⟨_, _, (Option.some.inj h).symm⟩)
      · exact Or.inr (Or.inl ⟨_, _, (Option.some.inj h).symm⟩)
  | _ => exact absurd h nofun

lemma setTexts_cases {opened : Bool} {next : Phase} (h : setTexts env s opened phase = some next) :
    ∃ job image, phase = .made job image ∧ (next = .done job image ∨
      next = .storing job
        { image with text := some (record env job.filePath (s.files job.filePath)) }) := by
  cases phase with
  | made job image =>
    unfold setTexts at h
    dsimp only at h
    split_ifs at h with hopened
    · exact ⟨job, image, rfl, Or.inr (Option.some.inj h).symm⟩
    · exact ⟨job, image, rfl, Or.inl (Option.some.inj h).symm⟩
  | _ => exact absurd h nofun

variable {cache : CachePool → Text → Option QImage} {pool : CachePool} {i : ℕ}

lemma commitThumbnail_cases {saved : Bool} {next : Phase}
    (h : commitThumbnail env s saved phase = some (cache, next)) :
    ∃ job image, phase = .storing job image ∧ next = .done job image ∧ (cache = s.cache ∨
      ∃ pool, cache = store s.cache pool (thumbName env job.filePath) (some image)) := by
  cases phase with
  | storing job image =>
    refine ⟨job, image, rfl, ?_⟩
    unfold commitThumbnail at h
    dsimp only at h
    split at h
    · next pool _ =>
      obtain ⟨hcache, hnext⟩ := Prod.mk.inj (Option.some.inj h)
      exact ⟨hnext.symm, Or.inr ⟨pool, hcache.symm⟩⟩
    · obtain ⟨hcache, hnext⟩ := Prod.mk.inj (Option.some.inj h)
      exact ⟨hnext.symm, Or.inl hcache.symm⟩
  | _ => exact absurd h nofun

/-- A phase in which no thumbnail is kept to be stored. -/
def Plain (phase : Phase) : Prop :=
  (∀ job image, phase ≠ .made job image) ∧ ∀ job image, phase ≠ .storing job image

lemma plain_idle : Plain .idle := by simp [Plain]
lemma plain_done (job : Job) (image : QImage) : Plain (.done job image) := by simp [Plain]
lemma plain_making (job : Job) : Plain (.making job) := by simp [Plain]
lemma plain_looking (job : Job) (left : List CachePool) : Plain (.looking job left) := by
  simp [Plain]

lemma beginJob_plain {worker : ThumbnailProtocol} {filePath : Text} {w h : ℤ} {next : Phase}
    (hbegin : beginJob env s worker filePath w h phase = some next) : Plain next := by
  have hstart : ∀ {creator : Option ThumbCreatorWithMetadata},
      (match creator with
        | none => some Phase.idle
        | some creator => some (startJob ⟨worker, filePath, w, h, creator⟩)) = some next →
      Plain next := by
    intro creator hnext
    cases creator with
    | none =>
      obtain rfl := Option.some.inj hnext
      exact plain_idle
    | some creator =>
      obtain rfl := Option.some.inj hnext
      unfold startJob
      split_ifs
      · exact plain_looking _ _
      · exact plain_making _
  cases phase with
  | idle => exact hstart hbegin
  | done job image => exact hstart hbegin
  | _ => exact absurd hbegin nofun

lemma loadPool_plain {next : Phase} (h : loadPool env s phase = some next) : Plain next := by
  cases phase with
  | looking job left =>
    cases left with
    | nil =>
      obtain rfl := Option.some.inj h
      exact plain_making job
    | cons pool left =>
      unfold loadPool at h
      dsimp only at h
      split at h
      · obtain rfl := Option.some.inj h
        exact plain_done _ _
      · obtain rfl := Option.some.inj h
        exact plain_looking job left
  | _ => exact absurd h nofun

/-! ### The invariant -/

lemma store_apply {at' : CachePool} {name name' : Text} {image : Option QImage} {image' : QImage}
    (h : store cache pool name image at' name' = some image') :
    (name' = name ∧ image = some image') ∨ cache at' name' = some image' := by
  unfold store at h
  by_cases hpool : at' = pool
  · subst hpool
    rw [Function.update_self] at h
    by_cases hname : name' = name
    · subst hname
      rw [Function.update_self] at h
      exact Or.inl ⟨rfl, h⟩
    · rw [Function.update_of_ne hname] at h
      exact Or.inr h
  · rw [Function.update_of_ne hpool] at h
    exact Or.inr h

lemma Current.setPhase (h : Current env s)
    (hmade : ∀ job image, phase = .made job image → image.shows = s.files job.filePath)
    (hstoring : ∀ job image, phase = .storing job image →
      IsOf env job.filePath (s.files job.filePath) image) : Current env (setPhase s i phase) := by
  refine ⟨h.cache, ?_, ?_⟩
  · intro j job image hj
    by_cases hij : j = i
    · subst hij
      exact hmade job image (by simpa [Cache.setPhase] using hj)
    · exact h.made j job image (by simpa [Cache.setPhase, Function.update_of_ne hij] using hj)
  · intro j job image hj
    by_cases hij : j = i
    · subst hij
      exact hstoring job image (by simpa [Cache.setPhase] using hj)
    · exact h.storing j job image (by simpa [Cache.setPhase, Function.update_of_ne hij] using hj)

lemma Current.plain (h : Current env s) (hplain : Plain phase) :
    Current env (Cache.setPhase s i phase) :=
  h.setPhase (fun job image heq => absurd heq (hplain.1 job image))
    (fun job image heq => absurd heq (hplain.2 job image))

lemma Current.change (h : Current env s) {path : Text} (file : Option File)
    (hcache : ∀ pool, s.cache pool (thumbName env path) = none)
    (hheld : ∀ i, ¬ Holds (s.workers i) path) :
    Current env { s with files := Function.update s.files path file } := by
  have hother : ∀ {other : Text}, other ≠ path →
      Function.update s.files path file other = s.files other :=
    fun hne => Function.update_of_ne hne _ _
  refine ⟨?_, ?_, ?_⟩
  · intro pool other image himage
    have hne : other ≠ path := by
      rintro rfl
      rw [hcache pool] at himage
      exact absurd himage nofun
    change IsOf env other (Function.update s.files path file other) image
    rw [hother hne]
    exact h.cache pool other image himage
  · intro i job image hi
    have hne : job.filePath ≠ path := fun heq => hheld i ⟨job, image, Or.inl hi, heq⟩
    change image.shows = Function.update s.files path file job.filePath
    rw [hother hne]
    exact h.made i job image hi
  · intro i job image hi
    have hne : job.filePath ≠ path := fun heq => hheld i ⟨job, image, Or.inr hi, heq⟩
    change IsOf env job.filePath (Function.update s.files path file job.filePath) image
    rw [hother hne]
    exact h.storing i job image hi

lemma Current.store (h : Current env s) {name : Text} {image : Option QImage}
    (himage : ∀ thumbnail, image = some thumbnail →
      ∀ path, thumbName env path = name → IsOf env path (s.files path) thumbnail) :
    Current env { s with cache := store s.cache pool name image } := by
  refine ⟨?_, h.made, h.storing⟩
  intro pool' path thumbnail hthumbnail
  rcases store_apply hthumbnail with ⟨hname, hsome⟩ | hold
  · exact himage thumbnail hsome path hname
  · exact h.cache pool' path thumbnail hold

lemma Current.step {t : State} (h : Current env s) {l : Label} (hl : Careful env s l)
    (hstep : step env s l = some t) : Current env t := by
  cases l with
  | change path file =>
    obtain rfl := Option.some.inj hstep
    exact h.change file hl.1 hl.2
  | fill pool name image =>
    obtain rfl := Option.some.inj hstep
    exact h.store hl
  | begins i worker filePath w h' =>
    obtain ⟨phase, hphase, rfl⟩ := Option.map_eq_some_iff.mp hstep
    exact h.plain (beginJob_plain hphase)
  | load i =>
    obtain ⟨phase, hphase, rfl⟩ := Option.map_eq_some_iff.mp hstep
    exact h.plain (loadPool_plain hphase)
  | create i =>
    obtain ⟨phase, hphase, rfl⟩ := Option.map_eq_some_iff.mp hstep
    rcases makeThumbnail_cases hphase with rfl | ⟨job, image, rfl⟩ | ⟨job, image, rfl, hshows⟩
    · exact h.plain plain_idle
    · exact h.plain (plain_done job image)
    · refine h.setPhase ?_ (by simp)
      intro job' image' heq
      obtain ⟨rfl, rfl⟩ := Phase.made.inj heq
      exact hshows
  | stat i opened =>
    obtain ⟨phase, hphase, rfl⟩ := Option.map_eq_some_iff.mp hstep
    obtain ⟨job, image, hmade, rfl | rfl⟩ := setTexts_cases hphase
    · exact h.plain (plain_done job image)
    · refine h.setPhase (by simp) ?_
      intro job' image' heq
      obtain ⟨rfl, rfl⟩ := Phase.storing.inj heq
      exact ⟨h.made i job image hmade, rfl⟩
  | commit i saved =>
    obtain ⟨⟨cache, phase⟩, hphase, rfl⟩ := Option.map_eq_some_iff.mp hstep
    obtain ⟨job, image, hstoring, rfl, rfl | ⟨pool, rfl⟩⟩ := commitThumbnail_cases hphase
    · exact h.plain (plain_done job image)
    · refine Current.plain (s := { s with cache := Cache.store s.cache pool _ (some image) })
        (h.store ?_) (plain_done job image)
      intro thumbnail heq path hname
      obtain rfl := Option.some.inj heq
      rw [hl job image hstoring path hname]
      exact h.storing i job image hstoring

lemma Current.showsCurrent (h : Current env s) (l : Label) : ShowsCurrent env s l := by
  cases l with
  | load i =>
    intro job pool left _ image himage
    exact h.cache pool job.filePath image himage
  | create i =>
    intro job _ image himage
    exact thumbnail_shows himage
  | _ => trivial

lemma current_start (files : Text → Option File) : Current env (start files) :=
  ⟨by simp [start], by simp [start], by simp [start]⟩

/-- **Over every run of careful steps**, whatever the workers, sizes and pools, each image that is
loaded from the cache was made from the version its file has then and records it, and no preview
shows another version. -/
theorem shows_current (env : Env) (files : Text → Option File) (ls : List Label)
    (hcareful : AllSteps (step env) (Careful env) (start files) ls) :
    AllSteps (step env) (ShowsCurrent env) (start files) ls :=
  (allSteps_congr (Q := ShowsCurrent env) (R := fun _ _ => True)
    (fun _ _ _ h hl hstep => Current.step h hl hstep)
    (fun _ l h _ => iff_of_true (h.showsCurrent l) trivial) hcareful (current_start files)).mpr
    (allSteps_of_forall (fun _ _ => trivial) _ _)

/-! ### A photo that is replaced -/

def photoPlugin : KPluginMetaData :=
  ⟨"image".toList, "image.so".toList, ["image/png".toList], fun _ => true⟩

def photoCreator : ThumbCreatorWithMetadata := ⟨fun _ _ => some (100, 100), true⟩

def photoEnv : Env where
  mimeTypeForFile _ _ := "image/png".toList
  plugins := [photoPlugin]
  instantiatePlugin _ := some photoCreator
  enabledByConfig := ["image".toList]
  toEncoded path := "file://".toList ++ path
  md5 text := text

def photoWorker : ThumbnailProtocol := ⟨inodeDirectory, 128, 128, 1, ["image".toList], 0, 1⟩

def photoPath : Text := "/d/a.png".toList
def oldPhoto : File := ⟨[1], 0⟩
def newPhoto : File := ⟨[2, 2], 60⟩

def photoThumbnail (file : File) : QImage :=
  ⟨100, 100, 1, some file, some (record photoEnv photoPath (some file))⟩

lemma startJob_photo : startJob ⟨photoWorker, photoPath, 50, 50, photoCreator⟩ =
    .looking ⟨photoWorker, photoPath, 50, 50, photoCreator⟩ pools := by
  have hfits : fitsCache photoWorker 50 50 = true := by
    norm_num [fitsCache, photoWorker]
  unfold startJob
  rw [if_pos hfits]
  rfl

lemma begins_photo (hidle : s.workers 0 = .idle) :
    step photoEnv s (.begins 0 photoWorker photoPath 50 50) =
      some (setPhase s 0 (.looking ⟨photoWorker, photoPath, 50, 50, photoCreator⟩ pools)) := by
  change (beginJob photoEnv s photoWorker photoPath 50 50 (s.workers 0)).map (setPhase s 0) = _
  rw [hidle]
  change some (setPhase s 0 (startJob ⟨photoWorker, photoPath, 50, 50, photoCreator⟩)) = _
  rw [startJob_photo]

lemma photoName_inj {path : Text}
    (h : thumbName photoEnv path = thumbName photoEnv photoPath) : path = photoPath := by
  have hname : "file://".toList ++ path ++ ".png".toList =
      "file://".toList ++ photoPath ++ ".png".toList := h
  exact List.append_cancel_left (List.append_cancel_right hname)

theorem shows_current_photo : AllSteps (step photoEnv) (ShowsCurrent photoEnv)
    (start fun _ => some oldPhoto) [.change photoPath (some newPhoto),
      .fill .normal (thumbName photoEnv photoPath) (some (photoThumbnail newPhoto)),
      .begins 0 photoWorker photoPath 50 50, .load 0] := by
  refine shows_current photoEnv _ _ ?_
  refine allSteps_cons rfl ⟨fun _ => rfl, ?_⟩ (allSteps_cons rfl ?_
    (allSteps_cons (begins_photo rfl) trivial (allSteps_cons rfl trivial trivial)))
  · rintro i ⟨job, image, hphase | hphase, _⟩
    · exact absurd hphase (by simp [start])
    · exact absurd hphase (by simp [start])
  · intro thumbnail hsome path hname
    obtain rfl := Option.some.inj hsome
    rw [photoName_inj hname]
    exact ⟨rfl, rfl⟩

/-- The preview of a folder shows a photo as it was before it was replaced. -/
theorem old_photo_shown : ¬ ∀ (env : Env) (files : Text → Option File) (ls : List Label),
    AllSteps (step env) (ShowsCurrent env) (start files) ls := by
  intro hall
  have hsteps := hall photoEnv (fun _ => some oldPhoto)
    [.fill .normal (thumbName photoEnv photoPath) (some (photoThumbnail oldPhoto)),
      .change photoPath (some newPhoto), .begins 0 photoWorker photoPath 50 50, .load 0]
  have hload := (((hsteps.2 _ rfl).2 _ rfl).2 _ (begins_photo rfl)).1
  have hshown := (hload _ _ _ rfl (photoThumbnail oldPhoto) rfl).1
  exact absurd hshown (by decide)

end KioExtras.Thumbnail.Cache
