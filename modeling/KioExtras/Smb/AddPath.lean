import KioExtras.Smb.ListDir
import KioExtras.Smb.SmbcUrl
import Mathlib.Data.List.DropRight

/-!
How a listing goes to an entry and back: `SMBUrl::addPath`, `SMBUrl::cdUp`, and the loop of
`SMBCDiscoverer` that combines its URL with one entry after the other.

`cdUp` asks `KIO::upUrl`, for which dropping a query is a step up already.
-/

namespace KioExtras.Smb.AddPath

open KioExtras.Lib KioExtras.Smb.SmbcUrl

/-! ### URLs -/

structure QUrl where
  scheme : Text
  authority : Option Authority
  path : Text
  query : Option Text
  fragment : Option Text

namespace QUrl

/-- `QUrl()` -/
def null : QUrl := ⟨[], none, [], none, none⟩

def isEmpty (u : QUrl) : Bool :=
  u.scheme = [] && u.authority.isNone && u.path = [] && u.query.isNone && u.fragment.isNone

/-- Behind an authority a path is absolute, without one it does not start with two slashes, and
without a scheme either its first name has no colon. -/
def isValid (u : QUrl) : Bool :=
  !u.isEmpty &&
    if u.authority.isSome then u.path = [] || u.path.head? = some '/'
    else !"//".toList.isPrefixOf u.path &&
      (u.scheme ≠ [] || !(u.path.takeWhile (· ≠ '/')).contains ':')

def isRelative (u : QUrl) : Bool := u.scheme = []

end QUrl

def stripTrailingSlash (path : Text) : Text :=
  if path.rdropWhile (· = '/') = [] then path.take 1 else path.rdropWhile (· = '/')

def removeFilename (path : Text) : Text := path.rdropWhile (· ≠ '/')

/-- `KIO::upUrl` -/
def upUrl (u : QUrl) : QUrl :=
  if u.isValid = false ∨ u.isRelative then .null
  else if u.query.isSome then { u with query := none }
  else { u with
    fragment := none
    path := removeFilename (stripTrailingSlash u.path) }

/-- What `setUrl` makes of the text of a URL: `QUrl::url` gives a text that can be passed back. -/
structure Qt where
  reparsed : QUrl → QUrl
  reparsed_valid : ∀ u, u.isValid = true → reparsed u = u
  reparsed_null : reparsed .null = .null

/-! ### Clean paths -/

lemma components_append (a b : Text) :
    components (a ++ '/' :: b) = components a ++ components b := by
  unfold components
  rw [List.splitOn_append_cons_self, List.filter_append]

lemma components_name {name : Text} (hne : name ≠ []) (hslash : '/' ∉ name) :
    components name = [name] := by
  unfold components
  rw [List.splitOn_eq_singleton hslash, List.filter_cons_of_pos (by simpa using hne)]
  rfl

/-- The names of a path, each with a slash behind it. -/
def lead (names : List Text) : Text := names.flatMap (· ++ ['/'])

lemma join_snoc (names : List Text) (name : Text) :
    ['/'].intercalate (names ++ [name]) = lead names ++ name := by
  induction names with
  | nil => simp [lead]
  | cons first names ih =>
    rw [List.cons_append, List.intercalate_cons_of_ne_nil (by simp), ih]
    simp [lead]

lemma components_lead {names : List Text} (hslash : ∀ name ∈ names, '/' ∉ name)
    (hne : ∀ name ∈ names, name ≠ []) : components (lead names) = names := by
  induction names with
  | nil => rfl
  | cons first names ih =>
    have hlead : lead (first :: names) = first ++ '/' :: lead names := by simp [lead]
    rw [hlead, components_append, ih (fun name h => hslash name (List.mem_cons_of_mem _ h))
      fun name h => hne name (List.mem_cons_of_mem _ h),
      components_name (hne first List.mem_cons_self) (hslash first List.mem_cons_self)]
    rfl

lemma cleanPath_of_components {path : Text} {names : List Text} (hnames : components path = names)
    (hstack : Stack names.reverse) :
    cleanPath path = if path.head? = some '/' then '/' :: ['/'].intercalate names
      else if path ≠ [] ∧ ['/'].intercalate names = [] then ['.'] else ['/'].intercalate names := by
  have hresolved : resolved [] (path.splitOn '/') = names.reverse := by
    rw [← resolved_filter, ← List.append_nil names.reverse, ← resolved_clean]
    · rw [← hnames]
      rfl
    · rwa [List.append_nil]
  unfold cleanPath
  rw [hresolved, List.reverse_reverse]

/-- The names of a clean path: how it starts, and the names themselves. -/
structure Clean (path root : Text) (names : List Text) : Prop where
  path : path = root ++ ['/'].intercalate names
  root : root = [] ∨ root = ['/']
  stack : Stack names.reverse
  slash : ∀ name ∈ names, '/' ∉ name

lemma clean_cleanPath (path : Text) (hdot : cleanPath path ≠ ['.']) :
    ∃ root names, Clean (cleanPath path) root names := by
  obtain ⟨hstack, hfrom⟩ := resolved_stack stack_nil (path.splitOn '/')
  have hslash : ∀ name ∈ (resolved [] (path.splitOn '/')).reverse, '/' ∉ name := by
    intro name hname
    rcases hfrom name (List.mem_reverse.mp hname) with h | h
    · exact absurd h List.not_mem_nil
    · exact Split.notMem_splitOn h
  have hreverse : Stack (resolved [] (path.splitOn '/')).reverse.reverse := by
    rwa [List.reverse_reverse]
  unfold cleanPath at hdot ⊢
  dsimp only at hdot ⊢
  split_ifs at hdot ⊢ with habsolute hempty
  · exact ⟨['/'], _, rfl, Or.inr rfl, hreverse, hslash⟩
  · exact absurd rfl hdot
  · exact ⟨[], _, rfl, Or.inl rfl, hreverse, hslash⟩

namespace Clean

variable {path root : Text} {names : List Text} {name : Text}

lemma ne (h : Clean path root names) : ∀ name ∈ names, name ≠ [] := fun name hname =>
  (h.stack.proper name (List.mem_reverse.mpr hname)).1

lemma components_root (h : Clean path root names) (text : Text) :
    components (root ++ text) = components text := by
  rcases h.root with rfl | rfl
  · rfl
  · exact components_slash text

lemma head_root (h : Clean path root names) {text : Text} (htext : text.head? ≠ some '/') :
    (root ++ text).head? = some '/' ↔ root = ['/'] := by
  rcases h.root with rfl | rfl
  · rw [List.nil_append]
    simp [htext]
  · simp

lemma head_names (h : Clean path root names) {text : Text} (htext : names ≠ [] ∨ text = [])
    (hfirst : ∀ first rest, names = first :: rest → first <+: text) : text.head? ≠ some '/' := by
  cases names with
  | nil =>
    obtain rfl := htext.resolve_left fun h => h rfl
    intro hhead
    cases hhead
  | cons first names =>
    obtain ⟨c, rest, rfl⟩ := List.exists_cons_of_ne_nil (h.ne first List.mem_cons_self)
    obtain ⟨behind, rfl⟩ := hfirst _ _ rfl
    intro hhead
    have hc : c = '/' := Option.some.inj hhead
    exact h.slash _ List.mem_cons_self (hc ▸ List.mem_cons_self)

lemma head_lead (h : Clean path root names) : (lead names).head? ≠ some '/' := by
  refine h.head_names ?_ fun first rest heq => ?_
  · by_cases hnames : names = []
    · exact Or.inr (by rw [hnames]; rfl)
    · exact Or.inl hnames
  · rw [heq, lead, List.flatMap_cons, List.append_assoc]
    exact List.prefix_append _ _

lemma head_join (h : Clean path root names) : (['/'].intercalate names).head? ≠ some '/' := by
  refine h.head_names ?_ fun first rest heq => ?_
  · by_cases hnames : names = []
    · exact Or.inr (by rw [hnames]; rfl)
    · exact Or.inl hnames
  · rw [heq]
    cases rest with
    | nil => simp
    | cons second rest =>
      rw [List.intercalate_cons_cons, List.append_assoc]
      exact List.prefix_append _ _

lemma join_ne_nil (h : Clean path root names) (hnames : names ≠ []) :
    ['/'].intercalate names ≠ [] := by
  obtain ⟨init, last, rfl⟩ := (List.eq_nil_or_concat' names).resolve_left hnames
  rw [join_snoc]
  intro hnil
  exact h.ne last (by simp) (List.append_eq_nil_iff.mp hnil).2

lemma cleanPath_root (h : Clean path root names) {text : Text} (hnames : components text = names)
    (hhead : text.head? ≠ some '/') (hnil : names = [] → text = []) :
    cleanPath (root ++ text) = path := by
  rw [cleanPath_of_components ((h.components_root text).trans hnames) h.stack, h.path]
  rcases h.root with rfl | rfl
  · rw [List.nil_append, List.nil_append, if_neg hhead, if_neg]
    rintro ⟨htext, hjoin⟩
    by_cases hnames' : names = []
    · exact htext (hnil hnames')
    · exact h.join_ne_nil hnames' hjoin
  · rw [List.singleton_append, if_pos (List.head?_cons ..)]
    rfl

lemma cleanPath_lead (h : Clean path root names) : cleanPath (root ++ lead names) = path :=
  h.cleanPath_root (components_lead h.slash h.ne) h.head_lead fun hnil => by rw [hnil]; rfl

lemma cleanPath_self (h : Clean path root names) : cleanPath path = path := by
  have hself := h.cleanPath_root (components_intercalate h.slash h.ne) h.head_join
    fun hnil => by rw [hnil]; rfl
  rwa [← h.path] at hself

lemma snoc (h : Clean path root names) (hne : name ≠ []) (hslash : '/' ∉ name)
    (hdot : name ≠ ['.']) (hdots : name ≠ dots) :
    Clean (root ++ lead names ++ name) root (names ++ [name]) where
  path := by rw [join_snoc, List.append_assoc]
  root := h.root
  stack := by
    rw [List.reverse_append, List.reverse_singleton, List.singleton_append]
    exact h.stack.push hne hdot fun heq => absurd heq hdots
  slash other hother := by
    rcases List.mem_append.mp hother with hother | hother
    · exact h.slash other hother
    · rw [List.mem_singleton.mp hother]
      exact hslash

end Clean

/-! ### Going down and up -/

/-- An `SMBUrl`. The string for libsmbclient and the type are made from the URL. -/
@[ext]
structure SMBUrl where
  toQUrl : QUrl
  clean : cleanPath toQUrl.path = toQUrl.path

lemma cleanPath_cleanPath (path : Text) : cleanPath (cleanPath path) = cleanPath path := by
  by_cases hdot : cleanPath path = ['.']
  · rw [hdot]
    rfl
  · obtain ⟨root, names, hclean⟩ := clean_cleanPath path hdot
    exact hclean.cleanPath_self

namespace SMBUrl

def updateCache (u : QUrl) : SMBUrl := ⟨{ u with path := cleanPath u.path }, cleanPath_cleanPath _⟩

lemma updateCache_clean {u : QUrl} (h : cleanPath u.path = u.path) : (updateCache u).toQUrl = u :=
  congrArg (fun path => ({ u with path := path } : QUrl)) h

def addPath (u : SMBUrl) (filedir : Text) : SMBUrl :=
  if u.toQUrl.path ≠ [] ∧ u.toQUrl.path.getLast? ≠ some '/' then
    updateCache { u.toQUrl with path := u.toQUrl.path ++ ['/'] ++ filedir }
  else updateCache { u.toQUrl with path := u.toQUrl.path ++ filedir }

def cdUp (qt : Qt) (u : SMBUrl) : SMBUrl := updateCache (qt.reparsed (upUrl u.toQUrl))

end SMBUrl

/-- A name that a directory has: it leads neither there nor up. -/
structure IsEntry (name : Text) : Prop where
  ne : name ≠ []
  slash : '/' ∉ name
  dot : name ≠ ['.']
  dots : name ≠ dots

/-- What libsmbclient reports: from `smbc_readdirplus2`, or from `smbc_readdir` in a build without
it. -/
inductive Entry
  | fileInfo (name : Text)
  | dirent (name : Text) (smbc_type : ListDir.SmbcType)

def Entry.name : Entry → Text
  | .fileInfo name => name
  | .dirent name _ => name

/-- `discoverNextFileInfo`, or `discoverNext` for a dirent: the URL behind the entry, and the one
the name has been combined with. -/
def discover (qt : Qt) (m_url : SMBUrl) : Entry → SMBUrl × Option SMBUrl
  | .fileInfo name =>
    if name = ['.'] ∨ name = dots then (m_url, none)
    else ((m_url.addPath name).cdUp qt, some m_url)
  | .dirent name smbc_type =>
    if name = ['.'] ∨ name = dots then (m_url, none)
    else if smbc_type = .SMBC_FILE ∨ smbc_type = .SMBC_DIR then
      ((m_url.addPath name).cdUp qt, some m_url)
    else (m_url, none)

def combined (qt : Qt) : SMBUrl → List Entry → List SMBUrl
  | _, [] => []
  | m_url, entry :: entries =>
    (discover qt m_url entry).2.toList ++ combined qt (discover qt m_url entry).1 entries

/-- The URL has neither query nor fragment, and a path that is absolute behind a host. -/
structure Plain (u : QUrl) : Prop where
  scheme : u.scheme ≠ []
  query : u.query = none
  fragment : u.fragment = none
  path : u.authority.isSome → u.path.head? = some '/'
  dot : u.path ≠ ['.']

section

variable {u : SMBUrl} {qt : Qt} {name path root : Text} {names : List Text}

lemma addPath_clean (h : Clean u.toQUrl.path root names) (hname : IsEntry name) :
    (u.addPath name).toQUrl = { u.toQUrl with path := root ++ lead names ++ name } ∧
      Clean (root ++ lead names ++ name) root (names ++ [name]) := by
  have hclean := h.snoc hname.ne hname.slash hname.dot hname.dots
  refine ⟨?_, hclean⟩
  have hpath : (if u.toQUrl.path ≠ [] ∧ u.toQUrl.path.getLast? ≠ some '/' then
      u.toQUrl.path ++ ['/'] else u.toQUrl.path) = root ++ lead names := by
    rcases List.eq_nil_or_concat' names with rfl | ⟨init, last, rfl⟩
    · have heq := h.path
      rw [List.intercalate_nil, List.append_nil] at heq
      rw [heq]
      rcases h.root with rfl | rfl
      · rfl
      · rfl
    · have heq := h.path
      rw [join_snoc] at heq
      have hlast := h.ne last (by simp)
      have hslash := h.slash last (by simp)
      have hend : u.toQUrl.path.getLast? ≠ some '/' := by
        rw [heq, List.getLast?_append_of_ne_nil _ (by simp [hlast]),
          List.getLast?_append_of_ne_nil _ hlast]
        intro hget
        exact hslash (List.mem_of_getLast? hget)
      have hne : u.toQUrl.path ≠ [] := by
        rw [heq]
        simp [hlast]
      rw [if_pos ⟨hne, hend⟩, heq]
      simp [lead]
  have hadd : u.addPath name =
      SMBUrl.updateCache { u.toQUrl with path := root ++ lead names ++ name } := by
    rw [SMBUrl.addPath, ← hpath]
    split_ifs
    · rfl
    · rfl
  rw [hadd]
  exact SMBUrl.updateCache_clean hclean.cleanPath_self

/-! ### The way up -/

lemma removeFilename_append {text name : Text} (hslash : '/' ∉ name)
    (htext : text = [] ∨ ∃ before, text = before ++ ['/']) :
    removeFilename (text ++ name) = text := by
  have hname : ∀ c ∈ name.reverse, decide (c ≠ '/') = true := by
    intro c hc
    simp only [decide_eq_true_eq]
    rintro rfl
    exact hslash (List.mem_reverse.mp hc)
  rw [removeFilename, List.rdropWhile, List.reverse_append, List.dropWhile_append_of_pos hname]
  rcases htext with rfl | ⟨before, rfl⟩
  · rfl
  · rw [List.reverse_append, List.reverse_singleton, List.singleton_append,
      List.dropWhile_cons_of_neg (by simp), ← List.singleton_append, List.reverse_append,
      List.reverse_reverse]
    rfl

lemma lead_ends (h : Clean path root names) :
    root ++ lead names = [] ∨ ∃ before, root ++ lead names = before ++ ['/'] := by
  rcases List.eq_nil_or_concat' names with rfl | ⟨init, last, rfl⟩
  · rcases h.root with rfl | rfl
    · exact Or.inl rfl
    · exact Or.inr ⟨[], rfl⟩
  · exact Or.inr ⟨root ++ lead init ++ last, by simp [lead]⟩

lemma stripTrailingSlash_append {text name : Text} (hne : name ≠ []) (hslash : '/' ∉ name) :
    stripTrailingSlash (text ++ name) = text ++ name := by
  have hself : (text ++ name).rdropWhile (· = '/') = text ++ name := by
    rw [List.rdropWhile_eq_self_iff]
    intro _
    rw [List.getLast_append_of_ne_nil _ hne]
    simp only [decide_eq_true_eq]
    intro hlast
    exact hslash (hlast ▸ List.getLast_mem hne)
  rw [stripTrailingSlash, hself, if_neg (by simp [hne])]

lemma not_double (hroot : root = [] ∨ root = ['/']) {text : Text} (htext : text.head? ≠ some '/') :
    "//".toList.isPrefixOf (root ++ text) = false := by
  have hslashes : "//".toList = ['/', '/'] := rfl
  rw [hslashes, Bool.eq_false_iff]
  intro hprefix
  obtain ⟨rest, hrest⟩ := List.isPrefixOf_iff_prefix.mp hprefix
  rcases hroot with rfl | rfl
  · rw [List.nil_append] at hrest
    rw [← hrest] at htext
    exact htext rfl
  · have htail : '/' :: rest = text := (List.cons.inj hrest).2
    rw [← htail] at htext
    exact htext rfl

lemma valid_of_root {v : QUrl} {text : Text} (hscheme : v.scheme ≠ [])
    (hroot : root = [] ∨ root = ['/']) (htext : text.head? ≠ some '/')
    (hpath : v.path = root ++ text) (hauthority : v.authority.isSome → root = ['/']) :
    v.isValid = true := by
  have hempty : v.isEmpty = false := by simp [QUrl.isEmpty, hscheme]
  rw [QUrl.isValid, hempty]
  cases hsome : v.authority.isSome with
  | true =>
    rw [hpath, hauthority hsome]
    simp
  | false =>
    rw [hpath, not_double hroot htext]
    simp [hscheme]

lemma valid_path {v : QUrl} (hvalid : v.isValid = true) (hsome : v.authority.isSome) :
    v.path = [] ∨ v.path.head? = some '/' := by
  rw [QUrl.isValid, if_pos hsome, Bool.and_eq_true] at hvalid
  simpa using hvalid.2

lemma cdUp_null (h : u.toQUrl.isValid = false ∨ u.toQUrl.isRelative = true) :
    (u.cdUp qt).toQUrl = .null := by
  rw [SMBUrl.cdUp, upUrl, if_pos h, qt.reparsed_null]
  rfl

lemma upUrl_path {v : QUrl} (hvalid : v.isValid = true) (hscheme : v.scheme ≠ [])
    (hquery : v.query = none) : upUrl v =
      { v with fragment := none, path := removeFilename (stripTrailingSlash v.path) } := by
  have hrelative : v.isRelative = false := by simp [QUrl.isRelative, hscheme]
  rw [upUrl, if_neg (by simp [hvalid, hrelative]), if_neg (by simp [hquery])]

lemma cdUp_valid {w : QUrl} (hup : upUrl u.toQUrl = w) (hvalid : w.isValid = true) :
    (u.cdUp qt).toQUrl = { w with path := cleanPath w.path } := by
  rw [SMBUrl.cdUp, hup, qt.reparsed_valid w hvalid]
  rfl

lemma cdUp_addPath (h : Clean u.toQUrl.path root names) (hname : IsEntry name)
    (hscheme : u.toQUrl.scheme ≠ []) (hquery : u.toQUrl.query = none)
    (hroot : u.toQUrl.authority.isSome → root = ['/']) :
    ((u.addPath name).cdUp qt).toQUrl = { u.toQUrl with fragment := none } := by
  obtain ⟨hadd, hclean⟩ := addPath_clean h hname
  have hhead : (lead names ++ name).head? ≠ some '/' := by
    have hjoin := hclean.head_join
    rwa [join_snoc] at hjoin
  have hvalid : (u.addPath name).toQUrl.isValid = true := by
    rw [hadd]
    exact valid_of_root hscheme h.root hhead (List.append_assoc ..) hroot
  have hup : upUrl (u.addPath name).toQUrl =
      { u.toQUrl with fragment := none, path := root ++ lead names } := by
    rw [upUrl_path hvalid (by rw [hadd]; exact hscheme) (by rw [hadd]; exact hquery), hadd]
    dsimp only
    rw [stripTrailingSlash_append hname.ne hname.slash,
      removeFilename_append hname.slash (lead_ends h)]
  rw [cdUp_valid hup (valid_of_root hscheme h.root h.head_lead rfl hroot)]
  dsimp only
  rw [h.cleanPath_lead]

lemma addPath_dot (hdot : u.toQUrl.path = ['.']) (hname : IsEntry name) :
    (u.addPath name).toQUrl = { u.toQUrl with path := name } := by
  have hclean : Clean name [] [name] :=
    ⟨by simp, Or.inl rfl, stack_nil.push hname.ne hname.dot fun h => absurd h hname.dots,
      fun other hother => List.mem_singleton.mp hother ▸ hname.slash⟩
  have hcut : (['.'] ++ ['/'] ++ name).splitOn '/' = [['.'], name] := by
    have htext : ['.'] ++ ['/'] ++ name = ['.'] ++ '/' :: name := rfl
    rw [htext, List.splitOn_append_cons_self, List.splitOn_eq_singleton hname.slash]
    rfl
  have hpath : cleanPath (['.'] ++ ['/'] ++ name) = name := by
    have hresolved : resolved [] [['.'], name] = [name] := by
      rw [resolved, if_pos (Or.inr rfl)]
      exact resolved_clean hclean.stack
    rw [cleanPath, hcut, hresolved]
    simp [hname.ne]
  rw [SMBUrl.addPath, if_pos (by rw [hdot]; decide), hdot, SMBUrl.updateCache]
  exact congrArg (fun path => ({ u.toQUrl with path := path } : QUrl)) hpath

lemma addPath_keeps (u : SMBUrl) (name : Text) :
    ∃ path, (u.addPath name).toQUrl = { u.toQUrl with path := path } := by
  unfold SMBUrl.addPath
  split_ifs
  · exact ⟨_, rfl⟩
  · exact ⟨_, rfl⟩

lemma upUrl_query {v : QUrl} (hvalid : v.isValid = true) (hscheme : v.scheme ≠ [])
    (hquery : v.query.isSome) :
    upUrl v = { v with query := none } ∧ ({ v with query := none } : QUrl).isValid = true := by
  have hrelative : v.isRelative = false := by simp [QUrl.isRelative, hscheme]
  refine ⟨by rw [upUrl, if_neg (by simp [hvalid, hrelative]), if_pos hquery], ?_⟩
  simpa [QUrl.isValid, QUrl.isEmpty, hscheme] using hvalid

lemma plain_of_cdUp (hname : IsEntry name) (h : (u.addPath name).cdUp qt = u) :
    u.toQUrl = .null ∨ Plain u.toQUrl := by
  have hurl : ((u.addPath name).cdUp qt).toQUrl = u.toQUrl := congrArg SMBUrl.toQUrl h
  obtain ⟨path, hkeeps⟩ := addPath_keeps u name
  by_cases hnull : (u.addPath name).toQUrl.isValid = false ∨
      (u.addPath name).toQUrl.isRelative = true
  · exact Or.inl (hurl.symm.trans (cdUp_null hnull))
  rw [not_or, Bool.not_eq_false, Bool.not_eq_true] at hnull
  obtain ⟨hvalid, hrelative⟩ := hnull
  have hscheme : u.toQUrl.scheme ≠ [] := by
    rw [hkeeps] at hrelative
    simpa [QUrl.isRelative] using hrelative
  have hscheme' : (u.addPath name).toQUrl.scheme ≠ [] := by rwa [hkeeps]
  have hquery : u.toQUrl.query = none := by
    by_contra hsome
    have hsome' : (u.addPath name).toQUrl.query.isSome = true := by
      rw [hkeeps]
      exact Option.isSome_iff_ne_none.mpr hsome
    obtain ⟨hup, hupvalid⟩ := upUrl_query hvalid hscheme' hsome'
    rw [cdUp_valid hup hupvalid] at hurl
    exact hsome (congrArg QUrl.query hurl).symm
  have hdot : u.toQUrl.path ≠ ['.'] := by
    intro hdot
    have hup : upUrl (u.addPath name).toQUrl = { u.toQUrl with fragment := none, path := [] } := by
      rw [upUrl_path hvalid hscheme' (by rw [hkeeps]; exact hquery), addPath_dot hdot hname]
      dsimp only
      rw [← List.nil_append name, stripTrailingSlash_append hname.ne hname.slash,
        removeFilename_append hname.slash (Or.inl rfl)]
    rw [cdUp_valid hup (by simp [QUrl.isValid, QUrl.isEmpty, hscheme])] at hurl
    have hpath : [] = u.toQUrl.path := congrArg QUrl.path hurl
    exact List.cons_ne_nil _ _ (hpath.trans hdot).symm
  obtain ⟨root, names, hclean⟩ := clean_cleanPath u.toQUrl.path (by rwa [u.clean])
  rw [u.clean] at hclean
  have hroot : u.toQUrl.authority.isSome → root = ['/'] := by
    intro hsome
    obtain ⟨hadd, hclean'⟩ := addPath_clean hclean hname
    have hhead := valid_path hvalid (by rw [hkeeps]; exact hsome)
    rw [hadd] at hhead
    have habsolute := hhead.resolve_left (by simp [hname.ne])
    rw [hclean'.path] at habsolute
    exact (hclean'.head_root hclean'.head_join).mp habsolute
  rw [cdUp_addPath hclean hname hscheme hquery hroot] at hurl
  refine Or.inr ⟨hscheme, hquery, (congrArg QUrl.fragment hurl).symm, fun hsome => ?_, hdot⟩
  rw [hclean.path, hroot hsome]
  rfl

lemma cdUp_addPath_iff (hname : IsEntry name) :
    (u.addPath name).cdUp qt = u ↔ u.toQUrl = .null ∨ Plain u.toQUrl := by
  refine ⟨plain_of_cdUp hname, ?_⟩
  rintro (hnull | hplain)
  · apply SMBUrl.ext
    rw [hnull]
    apply cdUp_null
    obtain ⟨path, hkeeps⟩ := addPath_keeps u name
    rw [hkeeps, hnull]
    exact Or.inr rfl
  · have hdot : cleanPath u.toQUrl.path ≠ ['.'] := by
      rw [u.clean]
      exact hplain.dot
    obtain ⟨root, names, hclean⟩ := clean_cleanPath u.toQUrl.path hdot
    rw [u.clean] at hclean
    apply SMBUrl.ext
    have hroot : u.toQUrl.authority.isSome → root = ['/'] := by
      intro hsome
      have hhead := hplain.path hsome
      rw [hclean.path] at hhead
      exact (hclean.head_root hclean.head_join).mp hhead
    rw [cdUp_addPath hclean hname hplain.scheme hplain.query hroot, ← hplain.fragment]

/-! ### The loop -/

lemma discover_self (qt : Qt) (h : u.toQUrl = .null ∨ Plain u.toQUrl) {entry : Entry}
    (hentry : entry.name ≠ [] ∧ '/' ∉ entry.name) :
    (discover qt u entry).1 = u ∧ ∀ v ∈ (discover qt u entry).2, v = u := by
  have hup : ¬(entry.name = ['.'] ∨ entry.name = dots) →
      (u.addPath entry.name).cdUp qt = u := fun hdots =>
    (cdUp_addPath_iff ⟨hentry.1, hentry.2, fun h => hdots (Or.inl h),
      fun h => hdots (Or.inr h)⟩).mpr h
  cases entry with
  | fileInfo name =>
    dsimp only [discover]
    split_ifs with hdots
    · exact ⟨rfl, by simp⟩
    · exact ⟨hup hdots, by simp⟩
  | dirent name smbc_type =>
    dsimp only [discover]
    split_ifs with hdots htype
    · exact ⟨rfl, by simp⟩
    · exact ⟨hup hdots, by simp⟩
    · exact ⟨rfl, by simp⟩

lemma combined_self (h : u.toQUrl = .null ∨ Plain u.toQUrl) {entries : List Entry}
    (hentries : ∀ entry ∈ entries, entry.name ≠ [] ∧ '/' ∉ entry.name) :
    ∀ v ∈ combined qt u entries, v = u := by
  induction entries with
  | nil => simp [combined]
  | cons entry entries ih =>
    obtain ⟨hsame, hurl⟩ := discover_self qt h (hentries entry List.mem_cons_self)
    intro v hv
    rw [combined, hsame] at hv
    rcases List.mem_append.mp hv with hv | hv
    · exact hurl v (Option.mem_toList.mp hv)
    · exact ih (fun entry hentry => hentries entry (List.mem_cons_of_mem _ hentry)) v hv

lemma combined_files (hname : IsEntry name) :
    combined qt u [.fileInfo name, .fileInfo name] = [u, (u.addPath name).cdUp qt] := by
  have hdots : ¬(name = ['.'] ∨ name = dots) := by
    rintro (h | h)
    · exact hname.dot h
    · exact hname.dots h
  simp [combined, discover, hdots]

end

/-- **Combining with an entry and going up** leads back, and a listing combines every entry with
the URL that it is the listing of, just if the URL is plain or there is none. -/
theorem addPath_restored_iff (qt : Qt) (u : SMBUrl) (name : Text) (hname : IsEntry name) :
    ((u.addPath name).cdUp qt = u ↔ u.toQUrl = .null ∨ Plain u.toQUrl) ∧
      ((∀ entries : List Entry, (∀ entry ∈ entries, entry.name ≠ [] ∧ '/' ∉ entry.name) →
          ∀ v ∈ combined qt u entries, v = u) ↔ u.toQUrl = .null ∨ Plain u.toQUrl) := by
  refine ⟨cdUp_addPath_iff hname, fun hall => ?_, fun h entries hentries => ?_⟩
  · have hfiles := hall [.fileInfo name, .fileInfo name] fun entry hentry => by
      obtain rfl : entry = .fileInfo name := by simpa using hentry
      exact ⟨hname.ne, hname.slash⟩
    rw [combined_files hname] at hfiles
    exact (cdUp_addPath_iff hname).mp (hfiles ((u.addPath name).cdUp qt) (by simp))
  · exact combined_self h hentries

/-- A share. -/
theorem share_restored : let qt : Qt := ⟨id, fun _ _ => rfl, rfl⟩
    let share : SMBUrl := ⟨⟨"smb".toList, none, "/share".toList, none, none⟩, by decide⟩
    ∀ v ∈ combined qt share [.fileInfo "a".toList, .dirent "b".toList .SMBC_FILE], v = share := by
  intro qt share
  refine (addPath_restored_iff qt share ['a']
    ⟨by decide, by decide, by decide, by decide⟩).2.mpr
    (Or.inr ⟨by decide, rfl, rfl, by decide, by decide⟩) _ ?_
  decide

/-- In a workgroup that has its name in the query, the step up only loses the query. -/
theorem workgroup_not_restored :
    ∃ (qt : Qt) (u : SMBUrl), u.toQUrl.query = some "kio-workgroup=A B".toList ∧
      IsEntry ['h'] ∧ ((u.addPath ['h']).cdUp qt).toQUrl.path = "/h".toList ∧
      (u.addPath ['h']).cdUp qt ≠ u := by
  refine ⟨⟨id, fun _ _ => rfl, rfl⟩,
    ⟨⟨"smb".toList, none, "/".toList, some "kio-workgroup=A B".toList, none⟩, by decide⟩, rfl,
    ⟨by decide, by decide, by decide, by decide⟩, by decide, ?_⟩
  intro h
  have hquery := congrArg (fun u : SMBUrl => u.toQUrl.query) h
  revert hquery
  decide

end KioExtras.Smb.AddPath
