import KioExtras.Fish.Text
import KioExtras.Kio
import KioExtras.Lib.Paths
import Mathlib.Data.List.GetD

/-!
The worker of recently used files: what it lists for a query, under names with an id of the
resource, and where it leads who comes back with such a name.
-/

namespace KioExtras.RecentlyUsed

open KioExtras.Kio KioExtras.Lib.Paths

abbrev Text := List Char

structure QUrl where
  path : Text
  query : List (Text × Text)

def QUrl.queryItem (url : QUrl) (key : String) : Option Text := url.query.lookup key.toList

/-! ### Queries -/

inductive Types
  | any
  | directories
  | files
  | named (types : List Text)
  deriving DecidableEq

inductive Activities
  | current
  | any
  | named (activity : Text)
  deriving DecidableEq

inductive Date
  | any
  | today
  | yesterday
  | fromString (date : Text)
  deriving DecidableEq

inductive Agents
  | any
  | named (agents : List Text)
  deriving DecidableEq

inductive UrlFilters
  | file
  | pattern (path : Text)
  deriving DecidableEq

inductive Order
  | HighScoredFirst
  | RecentlyUsedFirst
  | RecentlyCreatedFirst
  | OrderByUrl
  | OrderByTitle
  deriving DecidableEq

structure Query where
  limit : ℤ
  types : Types
  activities : Activities
  date : Date
  agents : Agents
  urlFilters : UrlFilters
  order : Order
  deriving DecidableEq

/-- A result of `int`. -/
def wrap (n : ℤ) : ℤ := n.bmod 4294967296

def queryLimit (url : QUrl) : ℤ :=
  ((url.queryItem "limit").bind Fish.Text.toInt).getD 30

def queryTypes (url : QUrl) : Types :=
  if "/locations".toList <+: url.path then .directories
  else
    match url.queryItem "type" with
    | some typeValue => .named (typeValue.splitOn ',')
    | none => if url.path = "/files".toList then .files else .any

def queryActivities (url : QUrl) : Activities :=
  match url.queryItem "activity" with
  | some activityValue => if activityValue = "any".toList then .any else .named activityValue
  | none => .current

def queryDate (url : QUrl) : Date :=
  match url.queryItem "date" with
  | some dateValue =>
    if dateValue = "today".toList then .today
    else if dateValue = "yesterday".toList then .yesterday
    else .fromString dateValue
  | none => .any

def queryAgents (url : QUrl) : Agents :=
  match url.queryItem "agent" with
  | some agentValue => .named (agentValue.splitOn ',')
  | none => .any

def queryUrlFilters (url : QUrl) : UrlFilters :=
  match url.queryItem "path" with
  | some pathValue => .pattern pathValue
  | none => .file

def queryOrder (url : QUrl) : Order :=
  match url.queryItem "order" with
  | some orderValue =>
    if orderValue = "HighScoredFirst".toList then .HighScoredFirst
    else if orderValue = "RecentlyCreatedFirst".toList then .RecentlyCreatedFirst
    else if orderValue = "OrderByUrl".toList then .OrderByUrl
    else if orderValue = "OrderByTitle".toList then .OrderByTitle
    else .RecentlyUsedFirst
  | none => .RecentlyUsedFirst

def runQuery (url : QUrl) (limit : ℤ) : Query where
  limit := limit
  types := queryTypes url
  activities := queryActivities url
  date := queryDate url
  agents := queryAgents url
  urlFilters := queryUrlFilters url
  order := queryOrder url

/-! ### The worker -/

/-- The resources that a query has found: those that are there at once, and those that come each
time more are fetched. -/
structure ResultModel where
  loaded : List Text
  more : List (List Text)

structure Env where
  /-- the answer of the database -/
  model : Query → ResultModel
  /-- the name that `KIO::stat` gives for a resource; none if it fails -/
  stat : Text → Option Text
  sha1 : Text → List UInt8
  fromUserInput : Text → Text
  toDisplayString : QUrl → String

inductive Listing
  | entries (list : List (Text × Option Text))
  | redirection (url : Text)
  | fails (error : Error) (text : String)
  deriving DecidableEq

def hexDigit (d : ℕ) : Char := "0123456789abcdef".toList.getD d '0'

def toHex (bytes : List UInt8) : Text :=
  bytes.flatMap fun b => [hexDigit (b.toNat / 16), hexDigit (b.toNat % 16)]

variable (env : Env)

def resourceId (resource : Text) : Text := (toHex (env.sha1 resource)).take 16

/-- The name of an entry and its target, if the resource still exists. -/
def udsEntryFromResource (resource : Text) : Option (Text × Option Text) :=
  (env.stat resource).map fun name =>
    (name ++ '-' :: resourceId env resource, some (env.fromUserInput resource))

/-- The loop over the rows that are loaded. -/
def listRows (bound : ℤ) (udslist : List (Text × Option Text)) :
    List Text → List (Text × Option Text)
  | [] => udslist
  | resource :: rows =>
    if (udslist.length : ℤ) ≠ bound then
      listRows bound (udslist ++ (udsEntryFromResource env resource).toList) rows
    else udslist

/-- The loop that fetches more rows. -/
def listModel (bound : ℤ) (udslist : List (Text × Option Text)) (loaded : List Text) :
    List (List Text) → List (Text × Option Text)
  | [] => listRows env bound udslist loaded
  | rows :: more =>
    let udslist := listRows env bound udslist loaded
    if (udslist.length : ℤ) ≠ bound then listModel bound udslist rows more else udslist

def fileName (url : QUrl) : Text := afterLast '/' url.path

/-- `/`, `/files` and `/locations`. -/
def IsListed (url : QUrl) : Prop :=
  url.path = "/".toList ∨ url.path = "/files".toList ∨ url.path = "/locations".toList

instance (url : QUrl) : Decidable (IsListed url) := inferInstanceAs (Decidable (_ ∨ _ ∨ _))

def listEntries (url : QUrl) : List (Text × Option Text) :=
  let limit := queryLimit url
  let model := env.model (runQuery url (wrap (limit * 2)))
  listModel env (wrap (limit + 1)) [(".".toList, none)] model.loaded model.more

/-- Look up the resource with the id; only what is loaded at once is looked through. -/
def lookUp (url : QUrl) (id : Text) : Listing :=
  let model := env.model (runQuery url (wrap (queryLimit url * 2)))
  match model.loaded.find? fun resource => resourceId env resource = id with
  | some resource => .redirection (env.fromUserInput resource)
  | none => .fails .ERR_DOES_NOT_EXIST (env.toDisplayString url)

def listDir (url : QUrl) : Listing :=
  if IsListed url then .entries (listEntries env url)
  else if '-' ∉ fileName url then .fails .ERR_DOES_NOT_EXIST (env.toDisplayString url)
  else lookUp env url (afterLast '-' (fileName url))

/-! ### The way back -/

def append (url : QUrl) (name : Text) : QUrl :=
  { url with path := if url.path = "/".toList then '/' :: name else url.path ++ '/' :: name }

/-- The query finds the resource, at once or later. -/
def Finds (resource : Text) : Prop :=
  ∃ q, resource ∈ (env.model q).loaded ∨ ∃ rows ∈ (env.model q).more, resource ∈ rows

/-- No two resources share the id. -/
def Distinct : Prop :=
  ∀ r r', Finds env r → Finds env r' → resourceId env r = resourceId env r' → r = r'

/-- The types that are asked for with the path of an entry. They are not those of the listing for
an entry of `/` whose name begins like `/locations`, and for all entries of `/files`. -/
def lookUpTypes (url : QUrl) (name : Text) : Types :=
  if url.path = "/".toList ∧ "locations".toList <+: name then .directories
  else if url.path = "/files".toList ∧ url.queryItem "type" = none then .any
  else queryTypes url

/-- The query that looks an entry up: that of the listing, apart from the types. -/
def lookUpQuery (url : QUrl) (name : Text) : Query :=
  { runQuery url (wrap (queryLimit url * 2)) with types := lookUpTypes url name }

variable {env}

lemma hexDigit_mem (d : ℕ) : hexDigit d ∈ "0123456789abcdef".toList := by
  unfold hexDigit
  by_cases h : d < 16
  · rw [List.getD_eq_getElem _ _ (by simpa using h)]
    exact List.getElem_mem _
  · rw [List.getD_eq_default _ _ (by simpa using h)]
    exact List.mem_cons_self

lemma hexDigit_ne (d : ℕ) : hexDigit d ≠ '-' ∧ hexDigit d ≠ '/' :=
  Fish.Text.forall_mem_of_all (p := fun c => c ≠ '-' ∧ c ≠ '/') rfl _ (hexDigit_mem d)

lemma mem_resourceId {resource : Text} {c : Char} (h : c ∈ resourceId env resource) :
    c ≠ '-' ∧ c ≠ '/' := by
  obtain ⟨b, -, hc⟩ := List.mem_flatMap.mp (List.mem_of_mem_take h)
  rcases List.mem_pair.mp hc with rfl | rfl <;> exact hexDigit_ne _

/-- **The name of an entry is read back** at its last dash, whatever else is in it. -/
lemma id_read_back (env : Env) (url : QUrl) (name resource : Text) :
    ∃ front, fileName (append url (name ++ '-' :: resourceId env resource)) =
        front ++ '-' :: resourceId env resource ∧
      afterLast '-' (front ++ '-' :: resourceId env resource) = resourceId env resource := by
  have hslash : '/' ∉ '-' :: resourceId env resource := by
    intro h
    rcases List.mem_cons.mp h with h | h
    · exact absurd h (by decide)
    · exact (mem_resourceId h).2 rfl
  have hpath : ∃ front, (append url (name ++ '-' :: resourceId env resource)).path =
      front ++ '-' :: resourceId env resource := by
    unfold append
    dsimp only
    split
    · exact ⟨'/' :: name, rfl⟩
    · exact ⟨url.path ++ '/' :: name, by simp⟩
  obtain ⟨front, hfront⟩ := hpath
  refine ⟨afterLast '/' front, ?_, afterLast_sep fun h => (mem_resourceId h).1 rfl⟩
  rw [fileName, hfront, afterLast_append hslash]

lemma append_not_listed {url : QUrl} {name : Text} (h : '-' ∈ name) :
    ¬ IsListed (append url name) := by
  have hdash : '-' ∈ (append url name).path := by
    unfold append
    dsimp only
    split
    · exact List.mem_cons_of_mem _ h
    · exact List.mem_append_right _ (List.mem_cons_of_mem _ h)
  rintro (hpath | hpath | hpath) <;> rw [hpath] at hdash <;> exact absurd hdash (by decide)

lemma append_root {url : QUrl} (h : url.path = "/".toList) (name : Text) :
    (append url name).path = '/' :: name := if_pos h

lemma append_below {url : QUrl} (h : url.path ≠ "/".toList) (name : Text) :
    (append url name).path = url.path ++ '/' :: name := if_neg h

lemma queryTypes_append {url : QUrl} {name : Text} (hlisted : IsListed url) (h : '-' ∈ name) :
    queryTypes (append url name) = lookUpTypes url name := by
  have hitem : (append url name).queryItem "type" = url.queryItem "type" := rfl
  unfold queryTypes lookUpTypes queryTypes
  rw [hitem]
  rcases hlisted with hpath | hpath | hpath
  · have hname : '/' :: name ≠ "/files".toList := by
      intro heq
      have hmem : '-' ∈ '/' :: name := List.mem_cons_of_mem _ h
      rw [heq] at hmem
      exact absurd hmem (by decide)
    have hroot : ¬ "/locations".toList <+: "/".toList := by decide
    have hfiles : "/".toList ≠ "/files".toList := by decide
    have hbegins : "/locations".toList <+: '/' :: name ↔ "locations".toList <+: name :=
      List.cons_prefix_cons.trans (and_iff_right rfl)
    rw [append_root hpath, hpath, if_neg hroot, if_neg hname, if_neg hfiles]
    by_cases hloc : "locations".toList <+: name
    · rw [if_pos (hbegins.mpr hloc), if_pos ⟨rfl, hloc⟩]
    · rw [if_neg (mt hbegins.mp hloc), if_neg fun hand => hloc hand.2,
        if_neg fun hand => hfiles hand.1]
  · have hroot : "/files".toList ≠ "/".toList := by decide
    have hloc : ¬ "/locations".toList <+: "/files".toList := by decide
    have hbelow : ¬ "/locations".toList <+: "/files".toList ++ '/' :: name := by
      rintro ⟨tail, htail⟩
      exact absurd (congrArg (fun t => t[1]?) htail) (by simp)
    have hne : "/files".toList ++ '/' :: name ≠ "/files".toList := by simp
    rw [append_below (hpath ▸ hroot), hpath, if_neg hbelow, if_neg hne,
      if_neg fun hand => hroot hand.1, if_neg hloc, if_pos rfl]
    cases url.queryItem "type" with
    | none => rw [if_pos ⟨rfl, rfl⟩]
    | some typeValue => rw [if_neg fun hand => nomatch hand.2]
  · have hroot : "/locations".toList ≠ "/".toList := by decide
    have hfiles : "/locations".toList ≠ "/files".toList := by decide
    rw [append_below (hpath ▸ hroot), hpath, if_pos (List.prefix_append _ _),
      if_neg fun hand => hroot hand.1, if_neg fun hand => hfiles hand.1,
      if_pos List.prefix_rfl]

lemma runQuery_append {url : QUrl} {name : Text} (hlisted : IsListed url) (h : '-' ∈ name) :
    runQuery (append url name) (wrap (queryLimit (append url name) * 2)) =
      lookUpQuery url name := by
  unfold lookUpQuery
  rw [← queryTypes_append hlisted h]
  rfl

variable {bound : ℤ} {udslist : List (Text × Option Text)}

lemma mem_listRows {rows : List Text} {entry : Text × Option Text}
    (h : entry ∈ listRows env bound udslist rows) :
    entry ∈ udslist ∨ ∃ resource ∈ rows, udsEntryFromResource env resource = some entry := by
  induction rows generalizing udslist with
  | nil => exact Or.inl h
  | cons resource rows ih =>
    unfold listRows at h
    split at h
    · rcases ih h with hmem | ⟨r, hr, hentry⟩
      · rcases List.mem_append.mp hmem with hmem | hmem
        · exact Or.inl hmem
        · exact Or.inr ⟨resource, List.mem_cons_self, by simpa using hmem⟩
      · exact Or.inr ⟨r, List.mem_cons_of_mem _ hr, hentry⟩
    · exact Or.inl h

lemma mem_listModel {loaded : List Text} {more : List (List Text)} {entry : Text × Option Text}
    (h : entry ∈ listModel env bound udslist loaded more) :
    entry ∈ udslist ∨ ∃ resource, (resource ∈ loaded ∨ ∃ rows ∈ more, resource ∈ rows) ∧
      udsEntryFromResource env resource = some entry := by
  induction more generalizing udslist loaded with
  | nil =>
    apply (mem_listRows h).imp_right
    rintro ⟨resource, hmem, hentry⟩
    exact ⟨resource, Or.inl hmem, hentry⟩
  | cons rows more ih =>
    have hfirst : entry ∈ listRows env bound udslist loaded →
        entry ∈ udslist ∨ ∃ resource,
          (resource ∈ loaded ∨ ∃ rows' ∈ rows :: more, resource ∈ rows') ∧
            udsEntryFromResource env resource = some entry := by
      intro hmem
      apply (mem_listRows hmem).imp_right
      rintro ⟨resource, hmem, hentry⟩
      exact ⟨resource, Or.inl hmem, hentry⟩
    unfold listModel at h
    dsimp only at h
    split at h
    · rcases ih h with hmem | ⟨resource, hmem | ⟨rows', hrows, hmem⟩, hentry⟩
      · exact hfirst hmem
      · exact Or.inr ⟨resource, Or.inr ⟨rows, List.mem_cons_self, hmem⟩, hentry⟩
      · exact Or.inr ⟨resource, Or.inr ⟨rows', List.mem_cons_of_mem _ hrows, hmem⟩, hentry⟩
    · exact hfirst h

lemma listed_resource {url : QUrl} {name target : Text}
    (h : (name, some target) ∈ listEntries env url) :
    ∃ resource, Finds env resource ∧
      udsEntryFromResource env resource = some (name, some target) := by
  rcases mem_listModel h with hdot | ⟨resource, hmem, hentry⟩
  · rw [List.mem_singleton, Prod.mk.injEq] at hdot
    exact nomatch hdot.2
  · exact ⟨resource, ⟨_, hmem⟩, hentry⟩

lemma entry_name {resource name target : Text}
    (h : udsEntryFromResource env resource = some (name, some target)) :
    ∃ base, name = base ++ '-' :: resourceId env resource ∧
      target = env.fromUserInput resource := by
  obtain ⟨base, -, heq⟩ := Option.map_eq_some_iff.mp h
  obtain ⟨rfl, htarget⟩ := Prod.mk.inj heq
  exact ⟨base, rfl, (Option.some.inj htarget).symm⟩

lemma listDir_append {url : QUrl} {resource name target : Text} (hlisted : IsListed url)
    (h : udsEntryFromResource env resource = some (name, some target)) :
    listDir env (append url name) =
      match (env.model (lookUpQuery url name)).loaded.find? fun r =>
          resourceId env r = resourceId env resource with
      | some r => .redirection (env.fromUserInput r)
      | none => .fails .ERR_DOES_NOT_EXIST (env.toDisplayString (append url name)) := by
  obtain ⟨base, rfl, -⟩ := entry_name h
  have hdash : '-' ∈ base ++ '-' :: resourceId env resource := by simp
  obtain ⟨front, hfile, hid⟩ := id_read_back env url base resource
  have hmem : '-' ∈ fileName (append url (base ++ '-' :: resourceId env resource)) := by
    rw [hfile]
    simp
  unfold listDir
  rw [if_neg (append_not_listed hdash), if_neg (not_not.mpr hmem), hfile, hid, lookUp,
    runQuery_append hlisted hdash]

/-- **The way back**: the URL of an entry redirects to the resource of the entry just if that is
among the rows that are loaded at once for the query of the URL. -/
theorem redirects_iff (hdistinct : Distinct env) {url : QUrl} (hlisted : IsListed url)
    {name target : Text} (hentry : (name, some target) ∈ listEntries env url) :
    listDir env (append url name) = .redirection target ↔
      ∃ resource ∈ (env.model (lookUpQuery url name)).loaded,
        udsEntryFromResource env resource = some (name, some target) := by
  obtain ⟨resource, hfinds, hresource⟩ := listed_resource hentry
  obtain ⟨base, hname, htarget⟩ := entry_name hresource
  have hsame : ∀ r ∈ (env.model (lookUpQuery url name)).loaded,
      resourceId env r = resourceId env resource → r = resource :=
    fun r hr hid => hdistinct r resource ⟨_, Or.inl hr⟩ hfinds hid
  rw [listDir_append hlisted hresource]
  constructor
  · intro h
    split at h
    · rename_i r hfind
      have hid : resourceId env r = resourceId env resource := by simpa using List.find?_some hfind
      have hmem := List.mem_of_find?_eq_some hfind
      exact ⟨resource, hsame r hmem hid ▸ hmem, hresource⟩
    · cases h
  · rintro ⟨r, hmem, hr⟩
    obtain ⟨base', hname', -⟩ := entry_name hr
    have hid : resourceId env r = resourceId env resource := by
      have hdash : ∀ s, '-' ∉ resourceId env s := fun s hs => (mem_resourceId hs).1 rfl
      have hcut := congrArg (afterLast '-') (hname.symm.trans hname')
      rw [afterLast_sep (hdash _), afterLast_sep (hdash _)] at hcut
      exact hcut.symm
    have hfound : ((env.model (lookUpQuery url name)).loaded.find? fun r =>
        resourceId env r = resourceId env resource).isSome :=
      List.find?_isSome.mpr ⟨r, hmem, decide_eq_true hid⟩
    obtain ⟨r', hfind⟩ := Option.isSome_iff_exists.mp hfound
    have hid' : resourceId env r' = resourceId env resource := by simpa using List.find?_some hfind
    rw [hfind, hsame r' (List.mem_of_find?_eq_some hfind) hid', htarget]

/-! ### A database with one file -/

/-- The file is used at any time by anyone, and is no directory. -/
def oneFile (resource : Text) : Env where
  model q := ⟨if q.types = .directories then [] else [resource], []⟩
  stat resource := some (afterLast '/' resource)
  sha1 _ := List.replicate 20 0
  fromUserInput resource := "file://".toList ++ resource
  toDisplayString _ := "recentlyused:"

lemma finds_oneFile {resource r : Text} (h : Finds (oneFile resource) r) : r = resource := by
  obtain ⟨q, hmem | ⟨rows, hrows, -⟩⟩ := h
  · unfold oneFile at hmem
    dsimp only at hmem
    split at hmem
    · cases hmem
    · exact List.mem_singleton.mp hmem
  · cases hrows

lemma distinct_oneFile (resource : Text) : Distinct (oneFile resource) :=
  fun _ _ h h' _ => (finds_oneFile h).trans (finds_oneFile h').symm

theorem file_redirects :
    listDir (oneFile "/a".toList)
        (append ⟨"/files".toList, []⟩ "a-0000000000000000".toList) =
      .redirection "file:///a".toList :=
  (redirects_iff (distinct_oneFile _) (by decide) (by decide)).mpr
    ⟨"/a".toList, by decide, by decide⟩

/-- The file `locations` is listed at the root, and looked up among the directories. -/
theorem locations_not_found : ¬ ∀ (env : Env), Distinct env → ∀ (url : QUrl), IsListed url →
    ∀ name target, (name, some target) ∈ listEntries env url →
      listDir env (append url name) = .redirection target := by
  intro h
  have hlost := h (oneFile "/locations".toList) (distinct_oneFile _) ⟨"/".toList, []⟩ (by decide)
    "locations-0000000000000000".toList "file:///locations".toList (by decide)
  exact absurd hlost (by decide)

end KioExtras.RecentlyUsed
