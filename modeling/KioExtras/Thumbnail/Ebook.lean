import KioExtras.Lib.Split
import Mathlib.Data.List.DropRight
import Mathlib.Logic.Function.Basic

/-!
The cover of an EPUB book: the package document is read once, up to the first element that settles
which item it is.
-/

namespace KioExtras.Thumbnail.Ebook

open KioExtras.Lib

abbrev Text := List Char

inductive Token
  | startElement (name : String) (attributes : List (String × Text))
  | endElement (name : String)
  | other

def value (attributes : List (String × Text)) (name : String) : Text :=
  (attributes.lookup name).getD []

def isCoverImage (attributes : List (String × Text)) : Bool :=
  ((value attributes "properties").splitOn ' ').contains "cover-image".toList

structure Reader where
  inMetadata : Bool
  inManifest : Bool
  coverId : Text
  itemHrefs : Text → Option Text

/-- The end of a turn: the item that is named has been read, or the loop goes on. -/
def Reader.check (s : Reader) : Except Text Reader :=
  match s.itemHrefs s.coverId with
  | some href => if s.coverId ≠ [] then .error href else .ok s
  | none => .ok s

/-- A turn of the loop. The error is the `href` with which the loop is left. -/
def Reader.readNext (s : Reader) : Token → Except Text Reader
  | .startElement name attributes =>
    if name = "metadata" then .ok { s with inMetadata := true }
    else if name = "manifest" then .ok { s with inManifest := true }
    else if s.inMetadata && name = "meta" then
      if value attributes "name" = "cover".toList then
        { s with coverId := value attributes "content" }.check
      else s.check
    else if s.inManifest && name = "item" then
      if value attributes "id" ≠ [] && value attributes "href" ≠ [] then
        if isCoverImage attributes then .error (value attributes "href")
        else { s with itemHrefs := Function.update s.itemHrefs (value attributes "id")
                        (some (value attributes "href")) }.check
      else s.check
    else .ok s
  | .endElement name =>
    if name = "metadata" then .ok { s with inMetadata := false }
    else if name = "manifest" then .ok { s with inManifest := false }
    else .ok s
  | .other => .ok s

def Reader.coverHref (s : Reader) : List Token → Text
  | [] => []
  | token :: tokens =>
    match s.readNext token with
    | .error href => href
    | .ok s => s.coverHref tokens

def start : Reader := ⟨false, false, [], fun _ => none⟩

def basePath (opfPath : Text) : Text := opfPath.rdropWhile (· ≠ '/')

/-! ### Documents -/

/-- What the cover depends on: the element that names an item, and the items. -/
inductive Element
  | cover (content : Text)
  | item (id href : Text) (isCover : Bool)

inductive Kind
  | metadata
  | manifest
  | other
  deriving DecidableEq

/-- The tags of a section; what stands outside of the two has none. -/
def Kind.name : Kind → List String
  | .metadata => ["metadata"]
  | .manifest => ["manifest"]
  | .other => []

structure Section where
  kind : Kind
  content : List Token

def Section.tokens (part : Section) : List Token :=
  part.kind.name.map (.startElement · []) ++ (part.content ++ part.kind.name.map .endElement)

def Kind.element : Kind → Token → Option Element
  | .metadata, .startElement name attributes =>
    if name = "meta" && value attributes "name" = "cover".toList then
      some (.cover (value attributes "content"))
    else none
  | .manifest, .startElement name attributes =>
    if name = "item" && (value attributes "id" ≠ [] && value attributes "href" ≠ []) then
      some (.item (value attributes "id") (value attributes "href") (isCoverImage attributes))
    else none
  | _, _ => none

def Section.elements (part : Section) : List Element :=
  part.content.filterMap part.kind.element

/-- No tag of a section. -/
def Token.Inner : Token → Prop
  | .startElement name _ | .endElement name => name ≠ "metadata" ∧ name ≠ "manifest"
  | .other => True

/-- The cover is the item with the property, or else the one that is named. -/
def IsCover (es : List Element) (href : Text) : Prop :=
  (∃ id, .item id href true ∈ es) ∨
    (∀ id href', .item id href' true ∉ es) ∧ ∃ id, .cover id ∈ es ∧ .item id href false ∈ es

/-- One element names an item, an `id` and a `href` stand for one item, and one has the property. -/
structure Valid (es : List Element) : Prop where
  cover : ∀ id id', .cover id ∈ es → .cover id' ∈ es → id = id'
  id : ∀ id href b href' b', .item id href b ∈ es → .item id href' b' ∈ es → href = href' ∧ b = b'
  href : ∀ id href b id' b', .item id href b ∈ es → .item id' href b' ∈ es → b = b'
  property : ∀ id href id' href', .item id href true ∈ es → .item id' href' true ∈ es → href = href'
  named : ∀ id href b, .item id href b ∈ es → id ≠ [] ∧ href ≠ []

/-- Another item is named and read before the one with the property. -/
def Late (es : List Element) : Prop :=
  ∃ pre, pre <+: es ∧ (∀ id href, .item id href true ∉ pre) ∧
    (∃ id href, .cover id ∈ pre ∧ .item id href false ∈ pre) ∧ ∃ id href, .item id href true ∈ es

/-! ### References -/

/-- What a segment makes of the names before it; `none` is above the root. -/
def step (names : List Text) (segment : Text) : Option (List Text) :=
  if segment = [] ∨ segment = ['.'] then some names
  else if segment = ['.', '.'] then if names = [] then none else some names.dropLast
  else some (names ++ [segment])

/-- Where a path leads in the archive, which takes the dots away itself. -/
def place (path : Text) : Option (List Text) := (path.splitOn '/').foldlM step []

/-- Here the root is above itself. -/
def fromRoot (names segments : List Text) : List Text :=
  segments.foldl (fun names segment => (step names segment).getD []) names

/-- Where a reference leads from the package document. -/
def resolve (opfPath reference : Text) : List Text :=
  fromRoot [] ((if reference.head? = some '/' then reference
    else basePath opfPath ++ reference).splitOn '/')

/-- How far segments lead up above `depth` names. -/
def up : ℕ → List Text → ℕ
  | _, [] => 0
  | depth, segment :: rest =>
    if segment = [] ∨ segment = ['.'] then up depth rest
    else if segment = ['.', '.'] then if depth = 0 then up 0 rest + 1 else up (depth - 1) rest
    else up (depth + 1) rest

/-- A reference from the root leads up by as many names as the document has above it, and no other
reference leads above the root. -/
def Direct (opfPath reference : Text) : Prop :=
  if reference.head? = some '/' then
    ∃ names, place (basePath opfPath) = some names ∧
      up 0 (reference.splitOn '/') = names.length
  else up 0 ((basePath opfPath ++ reference).splitOn '/') = 0

def elements (doc : List Section) : List Element := doc.flatMap Section.elements

def coverHref (doc : List Section) : Text := start.coverHref (doc.flatMap Section.tokens)

/-- What is loaded is the cover, from where its `href` leads. -/
structure Loads (fromPercentEncoding : Text → Text) (opfPath : Text) (doc : List Section) :
    Prop where
  none : coverHref doc = [] → ∀ href, ¬IsCover (elements doc) href
  cover : coverHref doc ≠ [] → IsCover (elements doc) (coverHref doc)
  path : coverHref doc ≠ [] → place (basePath opfPath ++ fromPercentEncoding (coverHref doc)) =
    some (resolve opfPath (fromPercentEncoding (coverHref doc)))

section proofs

variable {s : Reader} {es pre : List Element}

lemma foldlM_step (above names segs : List Text) : segs.foldlM step (above ++ names) =
    if up names.length segs ≤ above.length then
      some (above.take (above.length - up names.length segs) ++ fromRoot names segs)
    else none := by
  induction segs generalizing above names with
  | nil => simp [up, fromRoot]
  | cons segment rest ih =>
    have hroot : fromRoot names (segment :: rest) =
        fromRoot ((step names segment).getD []) rest := rfl
    rw [List.foldlM_cons, hroot, up, step, step]
    by_cases hskip : segment = [] ∨ segment = ['.']
    · rw [if_pos hskip, if_pos hskip, if_pos hskip]
      exact ih above names
    rw [if_neg hskip, if_neg hskip, if_neg hskip]
    by_cases hup : segment = ['.', '.']
    · rw [if_pos hup, if_pos hup, if_pos hup]
      by_cases hnames : names = []
      · subst hnames
        have ih := ih above.dropLast []
        by_cases habove : above = []
        · simp [habove]
        · rw [List.append_nil] at ih ⊢
          rw [if_neg habove, if_pos rfl, if_pos List.length_nil]
          refine ih.trans ?_
          have hpos := List.length_pos_iff.mpr habove
          have hiff : up 0 rest ≤ above.length - 1 ↔ up 0 rest + 1 ≤ above.length := by omega
          have hmin : min (above.length - (up 0 rest + 1)) (above.length - 1) =
              above.length - (up 0 rest + 1) := by omega
          simp [hiff, List.dropLast_eq_take, List.take_take, Nat.sub_sub, Nat.add_comm 1, hmin]
      · have hlength : names.length ≠ 0 := fun h => hnames (List.length_eq_zero_iff.mp h)
        rw [if_neg (by simp [hnames]), if_neg hnames, if_neg hlength,
          List.dropLast_append_of_ne_nil hnames]
        simpa using ih above names.dropLast
    · rw [if_neg hup, if_neg hup, if_neg hup, List.append_assoc]
      simpa using ih above (names ++ [segment])

/-- **A reference is direct** just if it leads where its path does. -/
lemma direct_iff (opfPath reference : Text) :
    place (basePath opfPath ++ reference) = some (resolve opfPath reference) ↔
      Direct opfPath reference := by
  unfold resolve Direct
  by_cases hroot : reference.head? = some '/'
  · rw [if_pos hroot, if_pos hroot]
    obtain ⟨reference, rfl⟩ := List.head?_eq_some_iff.mp hroot
    have hplace : place (basePath opfPath ++ '/' :: reference) = (place (basePath opfPath)).bind
        fun names => (reference.splitOn '/').foldlM step names := by
      rw [place, List.splitOn_append_cons_self, List.foldlM_append]
      rfl
    rw [hplace, Split.splitOn_cons, if_pos rfl]
    cases place (basePath opfPath) with
    | none => simp
    | some above =>
      have hfold := foldlM_step above [] (reference.splitOn '/')
      rw [List.append_nil] at hfold
      have hup : up 0 ([] :: reference.splitOn '/') = up 0 (reference.splitOn '/') :=
        if_pos (Or.inl rfl)
      have hsame : fromRoot [] ([] :: reference.splitOn '/') =
          fromRoot [] (reference.splitOn '/') := rfl
      rw [Option.bind_some, hfold, hup, hsame, List.length_nil]
      split_ifs with hle
      · simp only [Option.some.injEq, List.append_left_eq_self, ← List.length_eq_zero_iff,
          List.length_take, exists_eq_left']
        omega
      · simp
        omega
  · have hfold := foldlM_step [] [] ((basePath opfPath ++ reference).splitOn '/')
    rw [if_neg hroot, if_neg hroot, place, ← List.append_nil [], hfold]
    simp

/-! ### Reading -/

variable {kind : Kind}

/-- What the reader knows in a section, behind the elements `pre`. -/
structure Knows (kind : Kind) (pre : List Element) (s : Reader) : Prop where
  inMetadata : s.inMetadata = decide (kind = .metadata)
  inManifest : s.inManifest = decide (kind = .manifest)
  coverId : ∀ id, id ≠ [] → (.cover id ∈ pre ↔ s.coverId = id)
  itemHrefs : ∀ id href, s.itemHrefs id = some href ↔ .item id href false ∈ pre

def Open (pre : List Element) : Prop := ∀ href, ¬IsCover pre href

/-- How a turn ends, behind the element that it is about. -/
def Turn (kind : Kind) (pre : List Element) : Except Text Reader → Prop
  | .ok s => Knows kind pre s ∧ Open pre
  | .error href => IsCover pre href

lemma check_turn (h : Knows kind pre s) (hvalid : Valid pre)
    (hproperty : ∀ id href, .item id href true ∉ pre) : Turn kind pre s.check := by
  unfold Reader.check
  cases hhref : s.itemHrefs s.coverId with
  | some href =>
    have hitem := (h.itemHrefs _ href).mp hhref
    have hne := (hvalid.named _ _ _ hitem).1
    dsimp only
    rw [if_pos hne]
    exact Or.inr ⟨hproperty, s.coverId, (h.coverId _ hne).mpr rfl, hitem⟩
  | none =>
    refine ⟨h, fun href hcover => ?_⟩
    rcases hcover with ⟨id, hid⟩ | ⟨-, id, hid, hitem⟩
    · exact hproperty id href hid
    · obtain rfl := (h.coverId id (hvalid.named _ _ _ hitem).1).mp hid
      rw [(h.itemHrefs _ href).mpr hitem] at hhref
      cases hhref

lemma Open.property (h : Open pre) (id href : Text) : .item id href true ∉ pre :=
  fun hid => h href (Or.inl ⟨id, hid⟩)

def Reader.add (s : Reader) : Element → Except Text Reader
  | .cover content => { s with coverId := content }.check
  | .item _ href true => .error href
  | .item id href false =>
    { s with itemHrefs := Function.update s.itemHrefs id (some href) }.check

lemma readNext_cases (h : Knows kind pre s) {token : Token} (hinner : token.Inner) :
    kind.element token = none ∧ (s.readNext token = .ok s ∨ s.readNext token = s.check) ∨
      ∃ e, kind.element token = some e ∧ s.readNext token = s.add e := by
  obtain ⟨inMetadata, inManifest, coverId, itemHrefs⟩ := s
  obtain ⟨rfl, rfl, -, -⟩ := h
  cases token with
  | endElement name =>
    refine Or.inl ⟨by cases kind <;> rfl, Or.inl ?_⟩
    rw [Reader.readNext, if_neg hinner.1, if_neg hinner.2]
  | other => exact Or.inl ⟨by cases kind <;> rfl, Or.inl rfl⟩
  | startElement name attributes =>
    rw [Reader.readNext, if_neg hinner.1, if_neg hinner.2]
    cases kind with
    | metadata => grind [Kind.element, Reader.add]
    | manifest => grind [Kind.element, Reader.add]
    | other => exact Or.inl ⟨rfl, Or.inl rfl⟩

lemma add_turn (h : Knows kind pre s) (hopen : Open pre) {e : Element}
    (hvalid : Valid (pre ++ [e])) : Turn kind (pre ++ [e]) (s.add e) := by
  have hlast : e ∈ pre ++ [e] := List.mem_append_right _ List.mem_cons_self
  have hproperty := hopen.property
  cases e with
  | cover content =>
    refine check_turn ⟨h.1, h.2, fun id _ => ?_, fun id href => ?_⟩ hvalid (by simpa using hproperty)
    · exact ⟨fun hid => hvalid.cover _ _ hlast hid, fun heq => heq ▸ hlast⟩
    · simpa using h.itemHrefs id href
  | item id href b =>
    cases b with
    | true => exact Or.inl ⟨id, hlast⟩
    | false =>
      refine check_turn ⟨h.1, h.2, fun id hid => ?_, fun id' href' => ?_⟩ hvalid
        (by simpa using hproperty)
      · simpa using h.coverId id hid
      · change Function.update s.itemHrefs id (some href) id' = some href' ↔ _
        by_cases hid : id' = id
        · subst hid
          rw [Function.update_self, Option.some.injEq]
          exact ⟨fun heq => heq ▸ hlast, fun hmem => (hvalid.id _ _ _ _ _ hlast hmem).1⟩
        · rw [Function.update_of_ne hid, h.itemHrefs]
          simp [hid]

/-- Where the reading stops: at the first element that settles the cover, or nowhere. -/
def Stops (es : List Element) (href : Text) : Prop :=
  (href = [] ∧ Open es) ∨ ∃ pre e, pre ++ [e] <+: es ∧ Open pre ∧ IsCover (pre ++ [e]) href

lemma Valid.mono (h : Valid es) (hsub : pre ⊆ es) : Valid pre :=
  ⟨fun _ _ h1 h2 => h.cover _ _ (hsub h1) (hsub h2),
    fun _ _ _ _ _ h1 h2 => h.id _ _ _ _ _ (hsub h1) (hsub h2),
    fun _ _ _ _ _ h1 h2 => h.href _ _ _ _ _ (hsub h1) (hsub h2),
    fun _ _ _ _ h1 h2 => h.property _ _ _ _ (hsub h1) (hsub h2),
    fun _ _ _ h1 => h.named _ _ _ (hsub h1)⟩

lemma stops_content {content rest : List Token} {later : List Element} (h : Knows kind pre s)
    (hopen : Open pre) (hinner : ∀ token ∈ content, token.Inner) (hvalid : Valid es)
    (hes : pre ++ content.filterMap kind.element ++ later = es)
    (hrest : ∀ t, Knows kind (pre ++ content.filterMap kind.element) t →
      Open (pre ++ content.filterMap kind.element) → Stops es (t.coverHref rest)) :
    Stops es (s.coverHref (content ++ rest)) := by
  induction content generalizing s pre with
  | nil =>
    rw [List.filterMap_nil, List.append_nil] at hrest
    exact hrest s h hopen
  | cons token content ih =>
    have hcontent := fun c hc => hinner c (List.mem_cons_of_mem token hc)
    rw [List.cons_append, Reader.coverHref]
    rcases readNext_cases h (hinner token List.mem_cons_self) with ⟨hnone, hread⟩ | ⟨e, he, hread⟩
    · rw [List.filterMap_cons_none hnone] at hes hrest
      have hpre : pre <+: es := ⟨_, (List.append_assoc ..).symm.trans hes⟩
      have hturn : Turn kind pre (s.readNext token) := by
        rcases hread with hread | hread
        · exact hread ▸ ⟨h, hopen⟩
        · exact hread ▸ check_turn h (hvalid.mono hpre.subset) hopen.property
      cases hnext : s.readNext token with
      | error href =>
        rw [hnext] at hturn
        exact absurd hturn (hopen href)
      | ok t =>
        rw [hnext] at hturn
        exact ih hturn.1 hturn.2 hcontent hes hrest
    · rw [List.filterMap_cons_some he, ← List.singleton_append, ← List.append_assoc] at hes hrest
      have hpre : pre ++ [e] <+: es := ⟨_, (List.append_assoc ..).symm.trans hes⟩
      have hturn := add_turn h hopen (hvalid.mono hpre.subset)
      rw [hread]
      cases hadd : s.add e with
      | error href =>
        rw [hadd] at hturn
        exact Or.inr ⟨pre, e, hpre, hopen, hturn⟩
      | ok t =>
        rw [hadd] at hturn
        exact ih hturn.1 hturn.2 hcontent hes hrest

lemma stops_doc {doc : List Section} (h : Knows .other pre s) (hopen : Open pre)
    (hinner : ∀ part ∈ doc, ∀ token ∈ part.content, token.Inner) (hvalid : Valid es)
    (hes : pre ++ doc.flatMap Section.elements = es) :
    Stops es (s.coverHref (doc.flatMap Section.tokens)) := by
  induction doc generalizing s pre with
  | nil =>
    obtain rfl : pre = es := by simpa using hes
    exact Or.inl ⟨rfl, hopen⟩
  | cons part doc ih =>
    have hpart := hinner part List.mem_cons_self
    have hdoc := fun p hp => hinner p (List.mem_cons_of_mem part hp)
    obtain ⟨kind, content⟩ := part
    rw [List.flatMap_cons, ← List.append_assoc] at hes
    have hsection : ∀ t, Knows kind pre t → Stops es (t.coverHref (content ++
        (kind.name.map .endElement ++ doc.flatMap Section.tokens))) := by
      intro t ht
      refine stops_content ht hopen hpart hvalid hes fun u hu hopen => ?_
      cases kind with
      | metadata => exact ih ⟨rfl, hu.2, hu.3, hu.4⟩ hopen hdoc hes
      | manifest => exact ih ⟨hu.1, rfl, hu.3, hu.4⟩ hopen hdoc hes
      | other => exact ih hu hopen hdoc hes
    rw [List.flatMap_cons, Section.tokens, List.append_assoc, List.append_assoc]
    cases kind with
    | metadata => exact hsection _ ⟨rfl, h.2, h.3, h.4⟩
    | manifest => exact hsection _ ⟨h.1, rfl, h.3, h.4⟩
    | other => exact hsection _ h

lemma IsCover.ne_nil {href : Text} (hvalid : Valid es) (h : IsCover es href) : href ≠ [] := by
  rcases h with ⟨id, hid⟩ | ⟨-, id, -, hid⟩
  · exact (hvalid.named _ _ _ hid).2
  · exact (hvalid.named _ _ _ hid).2

lemma IsCover.unique {href href' : Text} (hvalid : Valid es) (h : IsCover es href)
    (h' : IsCover es href') : href = href' := by
  rcases h with ⟨id, hid⟩ | ⟨hnone, id, hcover, hid⟩
  · rcases h' with ⟨id', hid'⟩ | ⟨hnone, -⟩
    · exact hvalid.property _ _ _ _ hid hid'
    · exact absurd hid (hnone id href)
  · rcases h' with ⟨id', hid'⟩ | ⟨-, id', hcover', hid'⟩
    · exact absurd hid' (hnone id' href')
    · obtain rfl := hvalid.cover _ _ hcover hcover'
      exact (hvalid.id _ _ _ _ _ hid hid').1

lemma settled_iff {href : Text} (hvalid : Valid es) (hstops : Stops es href) :
    (href = [] → Open es) ∧ (href ≠ [] → IsCover es href) ↔ ¬Late es := by
  constructor
  · rintro ⟨-, hcover⟩ ⟨before, hbefore, hnone, ⟨id, href', hid, hitem⟩, id', href'', hproperty⟩
    rcases hstops with ⟨-, hopen⟩ | ⟨pre, e, hpre, hopen, hfirst⟩
    · exact hopen href'' (Or.inl ⟨id', hproperty⟩)
    · -- the first element that settles the cover is not behind the one that settles it here
      have hsub : pre ++ [e] <+: before := by
        rcases List.prefix_or_prefix_of_prefix hpre hbefore with h | h
        · exact h
        · rcases List.prefix_concat_iff.mp h with heq | hlt
          · exact heq ▸ List.prefix_refl _
          · exact absurd (Or.inr ⟨hopen.property, id, hlt.subset hid, hlt.subset hitem⟩)
              (hopen href')
      rcases hfirst with ⟨i, hi⟩ | ⟨-, i, -, hi⟩
      · exact hnone _ _ (hsub.subset hi)
      · rcases hcover (hvalid.named _ _ _ (hpre.subset hi)).2 with ⟨j, hj⟩ | ⟨hno, -⟩
        · exact absurd (hvalid.href _ _ _ _ _ (hpre.subset hi) hj) (by decide)
        · exact hno _ _ hproperty
  · intro hlate
    rcases hstops with ⟨hnil, hopen⟩ | ⟨pre, e, hpre, -, hfirst⟩
    · exact ⟨fun _ => hopen, fun hne => absurd hnil hne⟩
    · refine ⟨fun hnil => absurd hnil (hfirst.ne_nil (hvalid.mono hpre.subset)), fun _ => ?_⟩
      rcases hfirst with ⟨i, hi⟩ | ⟨hno, i, hi, hitem⟩
      · exact Or.inl ⟨i, hpre.subset hi⟩
      · refine Or.inr ⟨fun id href' hproperty => ?_, i, hpre.subset hi, hpre.subset hitem⟩
        exact hlate ⟨_, hpre, hno, ⟨i, href, hi, hitem⟩, id, href', hproperty⟩

end proofs

/-- **The cover is loaded** from where its `href` leads just if no other item that is named has been
read before it, and the `href` is direct. -/
theorem loads_iff (fromPercentEncoding : Text → Text) (opfPath : Text) (doc : List Section)
    (hinner : ∀ part ∈ doc, ∀ token ∈ part.content, token.Inner) (hvalid : Valid (elements doc)) :
    Loads fromPercentEncoding opfPath doc ↔ ¬Late (elements doc) ∧
      ∀ href, IsCover (elements doc) href → Direct opfPath (fromPercentEncoding href) := by
  have hknows : Knows .other [] start := ⟨rfl, rfl, by simp [start, eq_comm], by simp [start]⟩
  have hstops : Stops (elements doc) (coverHref doc) :=
    stops_doc hknows (by simp [Open, IsCover]) hinner hvalid rfl
  rw [← settled_iff hvalid hstops]
  constructor
  · intro h
    refine ⟨⟨h.none, h.cover⟩, fun href hcover => ?_⟩
    have hne := fun hnil => h.none hnil href hcover
    rw [← (h.cover hne).unique hvalid hcover]
    exact (direct_iff _ _).mp (h.path hne)
  · rintro ⟨⟨hnone, hcover⟩, hdirect⟩
    exact ⟨hnone, hcover, fun hne => (direct_iff _ _).mpr (hdirect _ (hcover hne))⟩

/-! ### A book with two covers -/

def item (id properties : String) : Token :=
  .startElement "item" [("id", id.toList), ("href", id.toList), ("properties", properties.toList)]

/-- The element that names the item `a`, and the items. -/
def book (items : List Token) : List Section :=
  [⟨.metadata, [.startElement "meta" [("name", "cover".toList), ("content", ['a'])]]⟩,
    ⟨.manifest, items⟩]

theorem named_loaded : Loads id [] (book [item "a" ""]) := by
  have hes : elements (book [item "a" ""]) = [.cover ['a'], .item ['a'] ['a'] false] := rfl
  refine (loads_iff id [] (book [item "a" ""]) ?_ ?_).mpr ⟨?_, ?_⟩
  · simp [book, item, Token.Inner]
  · rw [hes]
    constructor <;> simp
    grind
  · rw [hes]
    simp [Late]
  · rw [hes]
    rintro href (⟨id, hid⟩ | ⟨-, id, -, hid⟩)
    · simp at hid
    · obtain ⟨-, rfl⟩ : id = ['a'] ∧ href = ['a'] := by simpa using hid
      rw [Direct, if_neg (by decide)]
      decide

/-- The item `b` has the property. -/
theorem named_first : ¬Loads id [] (book [item "a" "", item "b" "cover-image"]) := by
  intro h
  have hcover : IsCover [.cover ['a'], .item ['a'] ['a'] false, .item ['b'] ['b'] true] ['a'] :=
    h.cover (by decide)
  rcases hcover with ⟨id, hid⟩ | ⟨hnone, -⟩
  · simp at hid
  · exact hnone ['b'] ['b'] (by simp)

end KioExtras.Thumbnail.Ebook
