import KioExtras.Nfs.ListDir

/-!
The links in a listing: when each entry has the target that the server has for it.
-/

namespace KioExtras.Nfs.Directory

open KioExtras.Kio

variable {F : Type}

/-- The listing returns success, what is wanted was passed on once, and each link that was passed
on has the target that READLINK gives. -/
def LinksRight (d : Directory F) (W : DirEntry F → Prop)
    (run : ℕ → Option (WorkerResult × List ListedEntry)) : Prop :=
  ∃ fuel listed, run fuel = some (.pass, listed) ∧
    (∀ e ∈ d.entries, W e → (listed.map ListedEntry.name).count e.name = 1) ∧
    ∀ e ∈ d.entries, e.attributes.type = .NF3LNK → ∀ x ∈ listed, x.name = e.name →
      ∀ target, d.READLINK e.object = some target → x.linkDest = some target

def NotDotDot (e : DirEntry F) : Prop := e.name ≠ dotDot

/-- All replies to READDIRPLUS are entries, and bring the directory once. -/
def Delivered (d : Directory F) (p : Paging) : Prop :=
  d.Served p NotDotDot (fun _ => True) true 0 0 0

/-- A link for `listDir`: its handle is found if it is sent as a link, and there is no target to
be read, or none that differs from the text that stands for an unknown one. -/
def PlusLink (d : Directory F) (e : DirEntry F) : Prop :=
  (e.name_attributes = true → d.HandleFound e) ∧
    ∀ target, d.READLINK e.object = some target →
      e.name_attributes = true ∧ target = unknownTarget

/-- The same for `listDirCompat`, of the links that are found. -/
def CompatLink (d : Directory F) (e : DirEntry F) : Prop :=
  d.Found e → ∀ target, d.READLINK e.object = some target →
    e.obj_attributes = true ∧ target = unknownTarget

def PlusLinks (d : Directory F) : Prop :=
  ∀ e ∈ d.entries, e.attributes.type = .NF3LNK → d.PlusLink e

def CompatLinks (d : Directory F) : Prop :=
  ∀ e ∈ d.entries, e.name ≠ dotDot →
    CompatReturns d e ∧ (e.attributes.type = .NF3LNK → d.CompatLink e)

variable {d : Directory F} {p : Paging}

variable {e : DirEntry F} {x : ListedEntry}

lemma eq_of_name {e' : DirEntry F} (he : e ∈ d.entries) (he' : e' ∈ d.entries)
    (h : e.name = e'.name) : e = e' :=
  List.inj_on_of_nodup_map d.nodup he he' h

/-! ### With READDIRPLUS -/

lemma plusListed_name (h : plusListed e = some x) : x.name = e.name := by
  unfold plusListed at h
  split_ifs at h <;> (obtain rfl := Option.some.inj h; rfl)

lemma plusListed_link (he : e ∈ d.entries) (hlink : e.attributes.type = .NF3LNK)
    (h : plusListed e = some x) :
    x.linkDest = if e.name_attributes then some unknownTarget else none := by
  have hdots : ¬ (e.name = dot ∨ e.name = dotDot) := fun hd => d.dots e he hd hlink
  rw [not_or] at hdots
  unfold plusListed at h
  rw [if_neg hdots.2, if_neg hdots.1] at h
  cases hsent : e.name_attributes with
  | true =>
    rw [if_pos ⟨hsent, hlink⟩] at h
    obtain rfl := Option.some.inj h
    rfl
  | false =>
    simp only [hsent, Bool.false_eq_true, false_and, if_false] at h
    split_ifs at h <;> (obtain rfl := Option.some.inj h; rfl)

lemma plusLoop_content {fuel : ℕ} {s : Plus F} {res : WorkerResult} {listed : List ListedEntry}
    (h : d.plusLoop p fuel s = some (res, listed)) (hx : x ∈ listed) :
    x ∈ s.listed ∨ ∃ e ∈ d.entries, PlusReturns d e ∧ plusListed e = some x := by
  induction fuel generalizing s with
  | zero => simp [plusLoop] at h
  | succ fuel ih =>
    have hpage : d.page p s.cookie s.calls ⊆ d.entries :=
      fun e he => List.mem_of_mem_drop (List.mem_of_mem_take he)
    unfold plusLoop at h
    cases hbad : badCookie p s.cookie with
    | true =>
      simp only [hbad, if_true, Option.some.injEq, Prod.mk.injEq] at h
      exact Or.inl (h.2 ▸ hx)
    | false =>
      simp only [hbad, Bool.false_eq_true, if_false] at h
      by_cases hall : ∀ e ∈ d.page p s.cookie s.calls, PlusReturns d e
      · obtain ⟨t, ht, hadds⟩ := plusEntries_spec (i := s.cookie) hall s
        have hnew : x ∈ t.listed →
            x ∈ s.listed ∨ ∃ e ∈ d.entries, PlusReturns d e ∧ plusListed e = some x := by
          intro hxt
          rw [hadds.listed, List.mem_append, List.mem_filterMap] at hxt
          rcases hxt with hold | ⟨e, he, hex⟩
          · exact Or.inl hold
          · exact Or.inr ⟨e, hpage he, hall e he, hex⟩
        simp only [ht] at h
        split_ifs at h with hgoes
        · rcases ih h with hxt | hex
          · exact hnew hxt
          · exact Or.inr hex
        · simp only [Option.some.injEq, Prod.mk.injEq] at h
          exact hnew (h.2 ▸ hx)
      · simp [plusEntries_lost hpage hall] at h

lemma Served.mono {W R R' : DirEntry F → Prop} (hR : ∀ e ∈ d.entries, R' e) {ok : Bool}
    {cookie calls read : ℕ} (h : d.Served p W R ok cookie calls read) :
    d.Served p W R' ok cookie calls read := by
  have hreply : ∀ {cookie calls read}, d.ReplyOk p W R cookie calls read →
      d.ReplyOk p W R' cookie calls read := fun hr =>
    ⟨hr.accepted, fun e he => hR e (List.mem_of_mem_drop (List.mem_of_mem_take he)), hr.once⟩
  induction h with
  | refused hbad hleft => exact .refused hbad hleft
  | last hr hends hleft => exact .last (hreply hr) hends hleft
  | more hr hends _ ih => exact .more (hreply hr) hends ih

lemma plus_linksRight_iff (hopen : d.refusal = none)
    (hplus : (d.usedirplus3 && p.readdirplus) = true) (hsent : d.Delivered p) (m : HandleCache F) :
    d.LinksRight NotDotDot (d.listDir p m) ↔ d.PlusLinks := by
  have hrun : d.listDir p m = fun fuel => d.plusLoop p fuel ⟨⟨[], .pass, m⟩, 0, 0⟩ :=
    funext fun fuel => listDir_plus hopen hplus m fuel
  rw [hrun]
  constructor
  · rintro ⟨fuel, listed, hloop, honce, htargets⟩ e he hlink
    have hne : NotDotDot e := fun hd => d.dots e he (Or.inr hd) hlink
    -- the entry was passed on
    have hmem : e.name ∈ listed.map ListedEntry.name := by
      rw [← List.count_pos_iff, honce e he hne]
      exact Nat.one_pos
    obtain ⟨x, hx, hname⟩ := List.mem_map.mp hmem
    obtain hstart | ⟨e', he', hreturns, hlisted⟩ := plusLoop_content hloop hx
    · simp at hstart
    obtain rfl := eq_of_name he he' (hname.symm.trans (plusListed_name hlisted))
    refine ⟨fun hsent => hreturns hsent hlink, fun target htarget => ?_⟩
    have hdest := htargets e he hlink x hx hname target htarget
    rw [plusListed_link he hlink hlisted] at hdest
    split_ifs at hdest with hattributes
    exact ⟨hattributes, (Option.some.inj hdest).symm⟩
  · intro hlinks
    have hreturns : ∀ e ∈ d.entries, PlusReturns d e :=
      fun e he hattributes hlink => (hlinks e he hlink).1 hattributes
    obtain ⟨fuel, res, listed, hloop, hres, hall⟩ := (Served.mono hreturns hsent).lists
      (fun _ h => h) rfl rfl (start_passed _ m)
    obtain rfl := hres rfl
    refine ⟨fuel, listed, hloop, hall, fun e he hlink x hx hname target htarget => ?_⟩
    obtain hstart | ⟨e', he', -, hlisted⟩ := plusLoop_content hloop hx
    · simp at hstart
    obtain rfl := eq_of_name he he' (hname.symm.trans (plusListed_name hlisted))
    obtain ⟨hattributes, rfl⟩ := (hlinks e he hlink).2 target htarget
    rw [plusListed_link he hlink hlisted, hattributes]
    rfl

/-! ### With READDIR -/

lemma Sent.unique {ok ok' : Bool} {cookie calls : ℕ} (h : Sent d p ok cookie calls)
    (h' : Sent d p ok' cookie calls) : ok = ok' := by
  induction h with
  | refused hbad =>
    cases h' with
    | refused => rfl
    | last hok | more hok => simp [hbad] at hok
  | last hok heof =>
    cases h' with
    | refused hbad => simp [hok] at hbad
    | last => rfl
    | more _ hmore => simp [heof] at hmore
  | more hok hmore _ ih =>
    cases h' with
    | refused hbad => simp [hok] at hbad
    | last _ heof => simp [hmore] at heof
    | more _ _ hrest => exact ih hrest

lemma compatListed_link (hlink : e.attributes.type = .NF3LNK) (h : d.compatListed e = some x) :
    x.linkDest = if e.obj_attributes then some unknownTarget else none := by
  unfold compatListed at h
  split at h
  · cases hsent : e.obj_attributes with
    | true =>
      rw [if_pos ⟨hsent, hlink⟩] at h
      obtain rfl := Option.some.inj h
      rfl
    | false =>
      simp only [hsent, Bool.false_eq_true, false_and, if_false] at h
      obtain rfl := Option.some.inj h
      rfl
  · cases h

lemma compat_content (hx : x ∈ (d.filesFrom 0).filterMap d.compatListed) :
    ∃ e ∈ d.entries, e.name ≠ dotDot ∧ d.compatListed e = some x := by
  obtain ⟨e, he, hex⟩ := List.mem_filterMap.mp hx
  obtain ⟨hmem, hne⟩ := List.mem_filter.mp he
  exact ⟨e, hmem, of_decide_eq_true hne, hex⟩

lemma compat_linksRight_iff (hopen : d.refusal = none) (hsent : Sent d p true 0 0)
    (m : HandleCache F) : d.LinksRight d.Wanted (d.listDirCompat p m) ↔ d.CompatLinks := by
  constructor
  · rintro ⟨fuel, listed, hrun, honce, htargets⟩ e he hne
    rcases listDirCompat_cases hopen hrun with ⟨-, hreturns, -, rfl⟩ | ⟨hrefused, -⟩
    · refine ⟨hreturns e he hne, fun hlink hfound target htarget => ?_⟩
      obtain ⟨x, hx⟩ := compatListed_isSome.mpr hfound
      have hmem : x ∈ (d.filesFrom 0).filterMap d.compatListed :=
        List.mem_filterMap.mpr ⟨e, List.mem_filter.mpr ⟨he, decide_eq_true hne⟩, hx⟩
      have hdest := htargets e he hlink x hmem (compatListed_name hx) target htarget
      rw [compatListed_link hlink hx] at hdest
      split_ifs at hdest with hattributes
      exact ⟨hattributes, (Option.some.inj hdest).symm⟩
    · cases hsent.unique hrefused
  · intro hlinks
    obtain ⟨fuel, hrun⟩ := listDirCompat_ok hopen hsent (fun e he hne => (hlinks e he hne).1) m
    refine ⟨fuel, _, hrun, fun e he hwanted => compat_count he hwanted, ?_⟩
    intro e he hlink x hx hname target htarget
    obtain ⟨e', he', hne, hlisted⟩ := compat_content hx
    obtain rfl := eq_of_name he he' (hname.symm.trans (compatListed_name hlisted))
    obtain ⟨hattributes, rfl⟩ := (hlinks e he hne).2 hlink (compatListed_isSome.mp ⟨x, hlisted⟩)
      target htarget
    rw [compatListed_link hlink hlisted, hattributes]
    rfl

/-! ### The two together -/

def ReadsSucceed (d : Directory F) (p : Paging) : Prop :=
  if d.usedirplus3 && p.readdirplus then d.Delivered p else Sent d p true 0 0

/-- The way of listing decides which entries have to be there. -/
def ListLinksRight (d : Directory F) (p : Paging) (m : HandleCache F) : Prop :=
  if d.usedirplus3 && p.readdirplus then d.LinksRight NotDotDot (d.listDir p m)
  else d.LinksRight d.Wanted (d.listDir p m)

def ListLinks (d : Directory F) (p : Paging) : Prop :=
  if d.usedirplus3 && p.readdirplus then d.PlusLinks else d.CompatLinks

/-- The directory `/e` with a link to `b`, whose handle is found or not. -/
def withLink (handleFound : Bool) : Directory ℕ where
  path := "/e".toList
  m_exportedDirs := ["/e".toList]
  notVirtual := export_notVirtual
  dirFH := .handle (.ofFH 1)
  usedirplus3 := true
  entries := [sentEntry ['a'] .NF3LNK]
  nodup := List.nodup_singleton _
  dots := by decide
  calls _ :=
    { smallCalls with
      getFileHandle := fun _ =>
        some (if handleFound then .handle (.ofFH 1) else .fails .ERR_DOES_NOT_EXIST "/e/a") }
  READLINK _ := some ['b']

end KioExtras.Nfs.Directory
