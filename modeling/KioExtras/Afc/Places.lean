import KioExtras.Afc.Transfer

/-!
Where copies and renamed objects come to be: both operations take the client of the source for the
paths of both URLs.
-/

namespace KioExtras.Afc

open KioExtras.Kio KioExtras.Lib.Paths KioExtras.Lib.Directories

/-! ### Renaming -/

/-- How the device answers to `afc_rename_path`. -/
inductive RenameAnswer (c : Container) (src dest : Key)
  | refused (ret : afc_error_t) (fails : ret.passes = false)
  | done (c' : Container) (moved : c.Moved src dest c')

structure RenameAnswers where
  client : ClientAnswers
  srcInfo : InfoAnswer
  destInfo : InfoAnswer
  rename : ∀ c src dest, RenameAnswer c src dest

def renameIn (src dest : Text) (flags : JobFlags) (answers : RenameAnswers) (c : Container) :
    Option (Outcome Container) :=
  let (srcResult, _) := AfcClient.entry src answers.srcInfo
  if srcResult.success = false then some ⟨srcResult, false, c⟩
  else
    let (destResult, destEntry) := AfcClient.entry dest answers.destInfo
    if taken destResult && !flags.Overwrite then some ⟨alreadyExists destEntry dest, false, c⟩
    else
      match answers.rename c (placeOf src) (placeOf dest) with
      | .refused ret _ => some ⟨Result.from ret dest, false, c⟩
      | .done c' _ => some ⟨.pass, false, c'⟩

def AfcWorker.rename (worker : AfcWorker) (url dest : QUrl) (flags : JobFlags)
    (answers : RenameAnswers) : Option (Outcome AfcWorker) :=
  let srcAfcUrl := AfcUrl.of url
  let destAfcUrl := AfcUrl.of dest
  if srcAfcUrl.device ≠ destAfcUrl.device then
    some ⟨.fail .ERR_CANNOT_RENAME "Cannot rename between devices.", false, worker⟩
  else
    worker.clientForUrl srcAfcUrl answers.client
      (renameIn srcAfcUrl.path destAfcUrl.path flags answers)

/-! ### Places -/

/-- The object below a place that a URL names: what the operations on this URL alone work with. -/
def AfcWorker.objectAt (worker : AfcWorker) (afcUrl : AfcUrl) (below : Key) :
    Option (Object Bytes) :=
  (worker.container afcUrl.device afcUrl.appId).bind fun c => c.objects (afcUrl.place ++ below)

/-- A copy has come to be where `dest` says, with what `src` held if nothing went wrong with the
data, and in no other container has anything changed. -/
structure CopyPlaced (worker : AfcWorker) (src dest : AfcUrl) (whole : Prop)
    (o : Outcome AfcWorker) : Prop where
  there : o.result.success = true → ∃ data, o.state.objectAt dest [] = some (.file data)
  content : o.result.success = true → o.killed = false → whole →
    o.state.objectAt dest [] = worker.objectAt src []
  others : ∀ id appId, (id, appId) ≠ (dest.device, dest.appId) →
    o.state.container id appId = worker.container id appId

/-- An object is with all that lies below it where `dest` says, and in no other container has
anything changed but that it is gone. -/
structure RenamePlaced (worker : AfcWorker) (src dest : AfcUrl) (o : Outcome AfcWorker) :
    Prop where
  there : o.result.success = true → ∀ below, o.state.objectAt dest below = worker.objectAt src below
  others : ∀ id appId key, (id, appId) ≠ (dest.device, dest.appId) →
    ((id, appId) = (src.device, src.appId) → ¬ src.place <+: key) →
    (o.state.container id appId).bind (fun c => c.objects key) =
      (worker.container id appId).bind fun c => c.objects key

/-- Nothing goes wrong with the data of a copy. -/
def Whole (worker : AfcWorker) (src dest : AfcUrl) (flags : JobFlags) (answers : CopyAnswers) :
    Prop :=
  ∀ c, worker.container dest.device dest.appId = some c →
    Careful c src.place dest.place flags answers

/-- Both operations put what `src` names where `dest` says. -/
def Placing (src dest : QUrl) : Prop :=
  ∀ (worker : AfcWorker) (flags : JobFlags),
    (∀ answers o, worker.copy src dest flags answers = some o →
      CopyPlaced worker (AfcUrl.of src) (AfcUrl.of dest)
        (Whole worker (AfcUrl.of src) (AfcUrl.of dest) flags answers) o) ∧
    ∀ answers o, worker.rename src dest flags answers = some o →
      RenamePlaced worker (AfcUrl.of src) (AfcUrl.of dest) o

/-- One place is strictly inside the other, or both are the root. -/
def Hopeless (src dest : Key) : Prop := (src <+: dest ∨ dest <+: src) ∧ (src = dest → src = [])

/-! ### Operations in a container -/

section

variable {c : Container} {src dest : Text} {flags : JobFlags}

lemma Opens.not_hopeless {answers : CopyAnswers} (h : Opens c src dest flags answers) :
    ¬ Hopeless (placeOf src) (placeOf dest) := by
  rintro ⟨hpre, hsame⟩
  obtain ⟨content, hcontent⟩ := h.srcFile
  have hfile := Tree.file?_eq_some.mp hcontent
  by_cases heq : placeOf src = placeOf dest
  · exact Tree.ne_nil hfile (hsame heq)
  · rcases hpre with hpre | ⟨r, hr⟩
    · exact h.fits.not_below_file hfile heq hpre
    · have hnone : c.objects (placeOf dest ++ r) = none := by
        apply h.fits.below
        rintro rfl
        rw [List.append_nil] at hr
        exact heq hr.symm
      rw [hr, hfile] at hnone
      cases hnone

lemma moved_not_hopeless {p q : Key} {c' : Container} (h : c.Moved p q c') : ¬ Hopeless p q := by
  rintro ⟨hpre, hsame⟩
  by_cases heq : p = q
  · exact h.ne_nil (hsame heq)
  · rcases hpre with hpre | ⟨r, rfl⟩
    · exact h.apart heq hpre
    · refine h.source (h.replaced heq r ?_)
      rintro rfl
      simp at heq

lemma renameIn_cases {answers : RenameAnswers} {o : Outcome Container}
    (h : renameIn src dest flags answers c = some o) :
    (o.result.success = false ∧ o.state = c) ∨ c.Moved (placeOf src) (placeOf dest) o.state := by
  unfold renameIn at h
  dsimp only at h
  split at h
  · next hfail =>
    obtain rfl := Option.some.inj h
    exact Or.inl ⟨hfail, rfl⟩
  · split at h
    · obtain rfl := Option.some.inj h
      exact Or.inl ⟨success_alreadyExists _ _, rfl⟩
    · cases hans : answers.rename c (placeOf src) (placeOf dest) with
      | refused ret hret =>
        rw [hans] at h
        obtain rfl := Option.some.inj h
        exact Or.inl ⟨(success_from ret dest).trans hret, rfl⟩
      | done c' hmoved =>
        rw [hans] at h
        obtain rfl := Option.some.inj h
        exact Or.inr hmoved

lemma copyIn_empty {answers : CopyAnswers} (h : Opens c src dest flags answers)
    (hrounds : answers.rounds = []) (hkilled : answers.killed = false) (hsize : answers.size = 0) :
    ∃ o, copyIn src dest flags answers c = some o ∧ o.result.success = true := by
  rw [copyIn_opens h, hrounds, hkilled, hsize]
  exact ⟨_, rfl, rfl⟩

end

/-! ### The operations of the worker -/

section

variable {worker worker' : AfcWorker} {afcUrl : AfcUrl} {c c' : Container}

lemma objectAt_of_container (h : worker.container afcUrl.device afcUrl.appId = some c)
    (below : Key) : worker.objectAt afcUrl below = c.objects (afcUrl.place ++ below) := by
  rw [AfcWorker.objectAt, h, Option.bind_some]

lemma AfcWorker.Put.there (h : worker.Put worker' afcUrl c') :
    worker'.container afcUrl.device afcUrl.appId = some c' := by
  rw [h, if_pos rfl]

lemma AfcWorker.Put.others (h : worker.Put worker' afcUrl c') {id appId : Text}
    (hne : (id, appId) ≠ (afcUrl.device, afcUrl.appId)) :
    worker'.container id appId = worker.container id appId := by
  rw [h, if_neg hne]

end

variable {src dest : QUrl} {worker : AfcWorker} {flags : JobFlags}

variable {o : Outcome AfcWorker}

lemma CopyPlaced.refused {src dest : AfcUrl} {whole : Prop} (hfail : o.result.success = false)
    (hsame : ∀ id appId, o.state.container id appId = worker.container id appId) :
    CopyPlaced worker src dest whole o where
  there hsuccess := by
    rw [hfail] at hsuccess
    cases hsuccess
  content hsuccess := by
    rw [hfail] at hsuccess
    cases hsuccess
  others id appId _ := hsame id appId

lemma RenamePlaced.refused {src dest : AfcUrl} (hfail : o.result.success = false)
    (hsame : ∀ id appId, o.state.container id appId = worker.container id appId) :
    RenamePlaced worker src dest o where
  there hsuccess := by
    rw [hfail] at hsuccess
    cases hsuccess
  others id appId _ _ _ := by rw [hsame]

lemma AfcWorker.Put.same {worker' : AfcWorker} {afcUrl : AfcUrl} {c : Container}
    (h : worker.Put worker' afcUrl c)
    (hc : worker.container afcUrl.device afcUrl.appId = some c) (id appId : Text) :
    worker'.container id appId = worker.container id appId := by
  rw [h]
  split
  · next heq =>
    obtain ⟨rfl, rfl⟩ := Prod.mk.inj heq
    exact hc.symm
  · rfl

/-- A copy is in its place when it is made in the container of the destination, and changes nothing
when the places exclude each other. -/
lemma copy_placed {answers : CopyAnswers} (h : worker.copy src dest flags answers = some o)
    (hgood : (AfcUrl.of src).device ≠ (AfcUrl.of dest).device ∨
      (AfcUrl.of src).appId = (AfcUrl.of dest).appId ∨
      Hopeless (AfcUrl.of src).place (AfcUrl.of dest).place) :
    CopyPlaced worker (AfcUrl.of src) (AfcUrl.of dest)
      (Whole worker (AfcUrl.of src) (AfcUrl.of dest) flags answers) o := by
  unfold AfcWorker.copy at h
  dsimp only at h
  split_ifs at h with hdevice
  · obtain rfl := Option.some.inj h
    exact CopyPlaced.refused rfl fun _ _ => rfl
  · rw [not_not] at hdevice
    rcases clientForUrl_cases h with ⟨-, hfail, hsame⟩ |
      ⟨-, c, o', hc, ho', hres, hkilled, hput⟩
    · exact CopyPlaced.refused hfail hsame
    · rcases hgood with hne | happ | hhopeless
      · exact absurd hdevice hne
      · have hc' := hc
        have hthere := hput.there
        rw [hdevice, happ] at hc' hthere
        refine ⟨fun hsuccess => ?_, fun hsuccess hnot hwhole => ?_, fun id appId hne => ?_⟩
        · obtain ⟨-, data, hdata⟩ := copyIn_file ho' (hres ▸ hsuccess)
          refine ⟨data, ?_⟩
          rw [objectAt_of_container hthere, List.append_nil]
          exact Tree.file?_eq_some.mp hdata
        · have hright := copyIn_right ho' fun _ => hwhole c hc'
          obtain ⟨content, hsrc, hdest⟩ := hright.copied (hres ▸ hsuccess) (hkilled ▸ hnot)
          rw [objectAt_of_container hthere, objectAt_of_container hc, List.append_nil,
            List.append_nil]
          exact (Tree.file?_eq_some.mp hdest).trans (Tree.file?_eq_some.mp hsrc).symm
        · apply hput.others
          rw [hdevice, happ]
          exact hne
      · rcases copyIn_cases ho' with ⟨-, hfail, hstate⟩ | ⟨hopens, -⟩
        · rw [hstate] at hput
          exact CopyPlaced.refused (hres ▸ hfail) (hput.same hc)
        · exact absurd hhopeless hopens.not_hopeless

lemma rename_placed {answers : RenameAnswers} (h : worker.rename src dest flags answers = some o)
    (hgood : (AfcUrl.of src).device ≠ (AfcUrl.of dest).device ∨
      (AfcUrl.of src).appId = (AfcUrl.of dest).appId ∨
      Hopeless (AfcUrl.of src).place (AfcUrl.of dest).place) :
    RenamePlaced worker (AfcUrl.of src) (AfcUrl.of dest) o := by
  unfold AfcWorker.rename at h
  dsimp only at h
  split_ifs at h with hdevice
  · obtain rfl := Option.some.inj h
    exact RenamePlaced.refused rfl fun _ _ => rfl
  · rw [not_not] at hdevice
    rcases clientForUrl_cases h with ⟨-, hfail, hsame⟩ | ⟨-, c, o', hc, ho', hres, -, hput⟩
    · exact RenamePlaced.refused hfail hsame
    · rcases renameIn_cases ho' with ⟨hfail, hstate⟩ | hmoved
      · rw [hstate] at hput
        exact RenamePlaced.refused (hres ▸ hfail) (hput.same hc)
      · rcases hgood with hne | happ | hhopeless
        · exact absurd hdevice hne
        · have hthere := hput.there
          rw [hdevice, happ] at hthere
          refine ⟨fun _ below => ?_, fun id appId key hne _ => ?_⟩
          · rw [objectAt_of_container hthere, objectAt_of_container hc]
            exact hmoved.there below
          · rw [hput.others]
            rw [hdevice, happ]
            exact hne
        · exact absurd hhopeless (moved_not_hopeless hmoved)

/-- A device with the same files everywhere but in one app, which the worker was asked for last. -/
def lent (appId : Text) (c : Container) : AfcDevice where
  containers := Function.update (fun _ => Tree.empty) appId c
  handshakeSuccessful := true
  lastClient := some ⟨appId⟩

/-- The device has nothing to say against a copy, and nothing to read. -/
def smooth : CopyAnswers where
  client := ⟨none, none⟩
  srcInfo := ⟨.AFC_E_SUCCESS, some ⟨some 0, false⟩⟩
  destInfo := ⟨.AFC_E_SUCCESS, some ⟨some 0, false⟩⟩
  srcOpen := .AFC_E_SUCCESS
  destOpen := .AFC_E_SUCCESS
  rounds := []
  killed := false
  del := .AFC_E_SUCCESS

/-- Two places that do not exclude each other can be had, and a copy is then made in the container
of the source. -/
lemma not_placing (hdevice : (AfcUrl.of src).device = (AfcUrl.of dest).device)
    (happ : (AfcUrl.of src).appId ≠ (AfcUrl.of dest).appId)
    (hnot : ¬ Hopeless (AfcUrl.of src).place (AfcUrl.of dest).place) : ¬ Placing src dest := by
  intro hplacing
  set s := AfcUrl.of src with hs
  set d := AfcUrl.of dest with hd
  have hsrc : s.place ≠ [] := by
    intro hnil
    exact hnot ⟨Or.inl (hnil ▸ List.nil_prefix), fun _ => hnil⟩
  have hdest : d.place ≠ [] := by
    intro hnil
    exact hnot ⟨Or.inr (hnil ▸ List.nil_prefix), fun heq => heq.trans hnil⟩
  have hapart : s.place = d.place ∨ ¬ s.place <+: d.place ∧ ¬ d.place <+: s.place := by
    by_contra hboth
    rw [not_or] at hboth
    refine hnot ⟨by tauto, fun heq => absurd heq hboth.1⟩
  have hsd := hapart.imp id And.left
  have hds := hapart.imp id And.right
  let c : Container := Tree.room s.place d.place [] hsrc hsd
  let worker : AfcWorker := fun _ => some (lent s.appId c)
  have hcont : (lent s.appId c).containers s.appId = c := by simp [lent]
  have hopens : Opens c s.path d.path ⟨true, false⟩ smooth :=
    ⟨rfl, Or.inr rfl, rfl, ⟨[], Tree.file?_eq_some.mpr (Tree.room_file hsrc hsd)⟩, rfl,
      Tree.room_fits hsrc hsd hdest hds⟩
  obtain ⟨o', ho', hsuccess⟩ := copyIn_empty hopens rfl rfl rfl
  have hdev : worker s.device = some (lent s.appId c) := rfl
  have hclient := clientForUrl_last hdev rfl rfl smooth.client
    (copyIn s.path d.path ⟨true, false⟩ smooth)
  rw [hcont, ho'] at hclient
  have hcopy : worker.copy src dest ⟨true, false⟩ smooth = some ⟨o'.result, o'.killed,
      worker.update s.device ((lent s.appId c).setContainer s.appId o'.state)⟩ := by
    unfold AfcWorker.copy
    dsimp only
    rw [if_neg (by rw [not_not]; exact hdevice)]
    exact hclient
  obtain ⟨data, hdata⟩ := ((hplacing worker ⟨true, false⟩).1 smooth _ hcopy).there hsuccess
  -- the container of the destination is still empty
  have hempty : (worker.update s.device
      ((lent s.appId c).setContainer s.appId o'.state)).container d.device d.appId =
        some Tree.empty := by
    rw [AfcWorker.container_update, if_pos hdevice.symm]
    simp [AfcDevice.setContainer, lent, happ.symm]
  rw [objectAt_of_container hempty, List.append_nil] at hdata
  simp [Tree.empty, hdest] at hdata

/-- **The places of copies and renamed objects.** They are where the destination says just if it is
in the container of the source, or on another device, or the places exclude each other. -/
theorem placing_iff (src dest : QUrl) :
    Placing src dest ↔ (AfcUrl.of src).device ≠ (AfcUrl.of dest).device ∨
      (AfcUrl.of src).appId = (AfcUrl.of dest).appId ∨
      Hopeless (AfcUrl.of src).place (AfcUrl.of dest).place := by
  constructor
  · intro hplacing
    by_contra hbad
    rw [not_or, not_or, not_not] at hbad
    exact not_placing hbad.1 hbad.2.1 hbad.2.2 hplacing
  · intro hgood worker flags
    exact ⟨fun answers o h => copy_placed h hgood, fun answers o h => rename_placed h hgood⟩

/-- A file of the device, and a place among the files of an app. -/
theorem into_app_misplaced : ¬ ∀ src dest : QUrl,
    (AfcUrl.of src).device = (AfcUrl.of dest).device → Placing src dest := by
  intro h
  have hplacing := h ⟨true, "afc".toList, "phone".toList, "/a".toList⟩
    ⟨true, "afc".toList, "phone".toList, "/@apps/org.app/a".toList⟩ (by decide)
  refine not_placing ?_ ?_ ?_ hplacing
  · decide
  · decide
  · unfold Hopeless
    decide

end KioExtras.Afc
