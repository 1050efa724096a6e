import KioExtras.Activities.Protocol

/-!
Which files the listing of an activity has, and where the names in it lead.
-/

namespace KioExtras.Activities

open KioExtras.Lib KioExtras.Lib.Sql

/-! ### Paths of URLs -/

lemma takeWhile_slash {before rest : Text} (h : '/' ∉ before) :
    beforeSlash (before ++ '/' :: rest) = before := by
  induction before with
  | nil => rfl
  | cons c before ih =>
    have hc : c ≠ '/' := fun heq => h (heq ▸ List.mem_cons_self)
    have hrest := ih fun hmem => h (List.mem_cons_of_mem _ hmem)
    unfold beforeSlash at hrest ⊢
    rw [List.cons_append, List.takeWhile_cons_of_pos (by simpa using hc), hrest]

lemma dropWhile_slash {before rest : Text} (h : '/' ∉ before) :
    (before ++ '/' :: rest).dropWhile (· ≠ '/') = '/' :: rest := by
  induction before with
  | nil => rfl
  | cons c before ih =>
    have hc : c ≠ '/' := fun heq => h (heq ▸ List.mem_cons_self)
    rw [List.cons_append, List.dropWhile_cons_of_pos (by simpa using hc)]
    exact ih fun hmem => h (List.mem_cons_of_mem _ hmem)

lemma beforeSlash_self {text : Text} (h : '/' ∉ text) : beforeSlash text = text := by
  apply List.takeWhile_eq_self_iff.mpr
  intro c hmem
  have hc : c ≠ '/' := fun heq => h (heq ▸ hmem)
  simpa using hc

lemma rdropWhile_append {start : Text} (hlast : start.getLast? ≠ some '/') (rest : Text) :
    (start ++ rest).rdropWhile (· = '/') = start ++ rest.rdropWhile (· = '/') := by
  induction rest using List.reverseRecOn with
  | nil =>
    rw [List.append_nil, List.rdropWhile_nil, List.append_nil]
    apply List.rdropWhile_eq_self_iff.mpr
    intro hne' heq
    apply hlast
    rw [List.getLast?_eq_some_getLast hne']
    exact congrArg some (of_decide_eq_true heq)
  | append_singleton rest c ih =>
    rw [← List.append_assoc]
    by_cases hc : c = '/'
    · rw [List.rdropWhile_concat_pos _ _ _ (by simpa using hc),
        List.rdropWhile_concat_pos _ _ _ (by simpa using hc)]
      exact ih
    · rw [List.rdropWhile_concat_neg _ _ _ (by simpa using hc),
        List.rdropWhile_concat_neg _ _ _ (by simpa using hc), List.append_assoc]

lemma stripTrailingSlash_append {start : Text} (hlast : start.getLast? ≠ some '/')
    (hne : start ≠ []) (rest : Text) :
    stripTrailingSlash (start ++ rest) = start ++ rest.rdropWhile (· = '/') := by
  unfold stripTrailingSlash
  rw [rdropWhile_append hlast]
  apply if_neg
  rintro ⟨hnil, _⟩
  exact hne (List.append_eq_nil_iff.mp hnil).1

lemma rdropWhile_slash (t : Text) : ('/' :: t).rdropWhile (· = '/') = [] ∨
    ∃ rest, ('/' :: t).rdropWhile (· = '/') = '/' :: rest := by
  obtain ⟨end_, hend⟩ := List.rdropWhile_prefix (· = '/') ('/' :: t)
  cases hstripped : ('/' :: t).rdropWhile (· = '/') with
  | nil => exact Or.inl rfl
  | cons c rest =>
    rw [hstripped, List.cons_append, List.cons.injEq] at hend
    exact Or.inr ⟨rest, by rw [hend.1]⟩

variable {activity s : Text}

lemma getLast?_append_ne {text : Text} (hne : text ≠ []) (h : '/' ∉ text) :
    (s ++ text).getLast? ≠ some '/' := by
  rw [List.getLast?_append_of_ne_nil s hne]
  exact fun heq => h (List.mem_of_getLast? heq)

/-- What comes after the path of a file: nothing, or a slash and a path -/
def IsTail (tail : Text) : Prop := tail = [] ∨ ∃ t, tail = '/' :: t

lemma IsTail.stripped {tail : Text} (h : IsTail tail) : IsTail (tail.rdropWhile (· = '/')) := by
  rcases h with rfl | ⟨t, rfl⟩
  · exact Or.inl (List.rdropWhile_nil _)
  · exact rdropWhile_slash t

lemma relativePath_append {path : Text} (hne : path ≠ []) (hslash : '/' ∉ path) (tail : Text) :
    relativePath ('/' :: (s ++ path) ++ tail) = s ++ path ++ tail.rdropWhile (· = '/') := by
  have hlast : ('/' :: (s ++ path)).getLast? ≠ some '/' :=
    getLast?_append_ne (s := '/' :: s) hne hslash
  unfold relativePath
  rw [stripTrailingSlash_append hlast (List.cons_ne_nil _ _)]
  rfl

variable (w : World)

lemma pathType_activity (hne : activity ≠ []) (hslash : '/' ∉ activity) :
    ∃ path, pathType w ('/' :: activity) = (.ActivityRootItem, activity, path) := by
  have hpath : relativePath ('/' :: activity) = activity := by
    have happend := relativePath_append (s := []) hne hslash []
    simpa using happend
  refine ⟨filePath w activity, ?_⟩
  unfold pathType
  rw [hpath]
  dsimp only
  rw [if_neg hne, if_neg hslash, beforeSlash_self hslash]

lemma filePath_append {name tail : Text} (hactivity : '/' ∉ activity) (hname : '/' ∉ name)
    (htail : IsTail tail) :
    filePath w (activity ++ '/' :: (name ++ tail)) = demangledPath w name ++ tail := by
  have hafter : afterSlash (activity ++ '/' :: (name ++ tail)) = name ++ tail := by
    unfold afterSlash
    rw [if_pos (by simp), dropWhile_slash hactivity]
    rfl
  unfold filePath
  rw [hafter]
  rcases htail with rfl | ⟨t, rfl⟩
  · rw [List.append_nil, if_neg hname, List.append_nil]
  · rw [if_pos (by simp), takeWhile_slash hname, dropWhile_slash hname]

lemma pathType_file {name tail : Text} (hactivity : '/' ∉ activity) (hname : '/' ∉ name)
    (hne : name ≠ []) (htail : IsTail tail) :
    pathType w ('/' :: (activity ++ '/' :: name) ++ tail) =
      (.ActivityPathItem, activity, demangledPath w name ++ tail.rdropWhile (· = '/')) := by
  have hpath : relativePath ('/' :: (activity ++ '/' :: name) ++ tail) =
      activity ++ '/' :: (name ++ tail.rdropWhile (· = '/')) := by
    have happend := relativePath_append (s := activity ++ ['/']) hne hname tail
    simpa using happend
  unfold pathType
  rw [hpath]
  dsimp only
  rw [if_neg (by simp), if_pos (by simp), takeWhile_slash hactivity,
    filePath_append w hactivity hname htail.stripped]

/-! ### The query -/

structure Link where
  usedActivity : Text
  initiatingAgent : Text
  targettedResource : Text
  deriving DecidableEq

def columns : List Text :=
  ["usedActivity".toList, "initiatingAgent".toList, "targettedResource".toList]

def Link.row (link : Link) : Row := fun column =>
  if column = "usedActivity".toList then link.usedActivity
  else if column = "initiatingAgent".toList then link.initiatingAgent
  else link.targettedResource

def table (links : List Link) : Table := ⟨"ResourceLink".toList, columns, links.map Link.row⟩

def globalAgent : Text := ":global".toList

def conditionOf (activity : Text) : List Token :=
  [.word "usedActivity".toList, .equals, .text activity, .word "AND".toList,
    .word "initiatingAgent".toList, .equals, .quoted globalAgent]

/-- **The query is what it is meant to be**, for an activity without quotes. -/
lemma tokenize_queryString (hquote : '\'' ∉ activity) (hzero : '\x00' ∉ activity) :
    tokenize (queryString activity) =
      some (.word "SELECT".toList :: .word "targettedResource".toList :: .word "FROM".toList ::
        .word "ResourceLink".toList :: .word "WHERE".toList :: conditionOf activity) := by
  have hstart : advance .between
      "SELECT targettedResource FROM ResourceLink WHERE usedActivity = '".toList =
      some ([.word "SELECT".toList, .word "targettedResource".toList, .word "FROM".toList,
        .word "ResourceLink".toList, .word "WHERE".toList, .word "usedActivity".toList, .equals],
        .text []) := by
    decide
  have hend : advance (.text activity) "' AND initiatingAgent = \":global\" ".toList =
      some ([.text activity, .word "AND".toList, .word "initiatingAgent".toList, .equals,
        .quoted globalAgent], .between) := by
    rfl
  have hall := advance_trans (advance_trans hstart (advance_text hquote hzero [])) hend
  unfold tokenize queryString
  rw [hall]
  rfl

/-- The link is of the activity and for all agents. -/
def Link.isGlobal (activity : Text) (link : Link) : Bool :=
  link.usedActivity = activity && link.initiatingAgent = globalAgent

lemma condition_eq (activity : Text) (row : Row) :
    condition columns row (conditionOf activity) = some
      (row "usedActivity".toList = activity && row "initiatingAgent".toList = globalAgent) := by
  have hread : condition columns row (conditionOf activity) = some
      ([[decide (row "usedActivity".toList = activity),
        decide (row "initiatingAgent".toList = globalAgent)].all id].any id) := by
    rfl
  rw [hread]
  simp

/-- **The query selects the resources linked to the activity**, for an activity without quotes. -/
lemma select_queryString (hquote : '\'' ∉ activity) (hzero : '\x00' ∉ activity)
    (links : List Link) : select (table links) (queryString activity) =
      some ((links.filter (Link.isGlobal activity)).map Link.targettedResource) := by
  have hselected := selectRows_filter "targettedResource".toList (condition_eq activity)
    (links.map Link.row)
  unfold select
  rw [tokenize_queryString hquote hzero]
  dsimp only
  rw [if_pos ⟨rfl, rfl, rfl, rfl, show columns.contains _ by rfl⟩]
  change selectRows columns _ _ (links.map Link.row) = _
  rw [hselected, List.filter_map, List.map_map]
  rfl

/-! ### What is listed -/

/-- The database has these links, and answers the queries it understands. -/
def Answers (links : List Link) : Prop :=
  ∀ query values, select (table links) query = some values → w.execQuery query = values

def IsListed (links : List Link) (activity file : Text) : Prop :=
  (∃ link ∈ links, link.isGlobal activity ∧ link.targettedResource = file) ∧ w.exists_ file

/-- **The listing is exact** and its names lead to the files: the names listed are those of the
existing files linked to the activity, and what comes after a name in a URL is below its file. -/
structure Exact (links : List Link) (activity : Text) : Prop where
  names : ∃ names, listDir w ('/' :: activity) = .files names ∧
    ∀ name, name ∈ names ↔ ∃ file, IsListed w links (activityOf w activity) file ∧
      name = mangledPath file
  rewrites : ∀ file, IsListed w links (activityOf w activity) file → ∀ tail, IsTail tail →
    rewriteUrl w ('/' :: (activity ++ '/' :: mangledPath file) ++ tail) =
      .fromLocalFile (file ++ tail.rdropWhile (· = '/'))

/-- **An activity is listed exactly** where its id has no quote. -/
theorem lists_exactly (hnoFile : w.exists_ [] = false) {links : List Link}
    (hanswers : Answers w links) {activity : Text} (hne : activity ≠ []) (hslash : '/' ∉ activity)
    (hquote : '\'' ∉ activityOf w activity) (hzero : '\x00' ∉ activityOf w activity) :
    Exact w links activity := by
  constructor
  · obtain ⟨path, hpath⟩ := pathType_activity w hne hslash
    refine ⟨(listed w activity).map mangledPath, ?_, ?_⟩
    · unfold listDir
      rw [hpath]
    · intro name
      have hquery := hanswers _ _ (select_queryString hquote hzero links)
      have hmem : ∀ file, file ∈ listed w activity ↔
          IsListed w links (activityOf w activity) file := by
        intro file
        unfold listed IsListed
        rw [hquery, List.mem_filter, List.mem_map]
        apply and_congr_left
        intro _
        simp only [List.mem_filter]
        constructor
        · rintro ⟨link, ⟨hlink, hglobal⟩, rfl⟩
          exact ⟨link, hlink, hglobal, rfl⟩
        · rintro ⟨link, hlink, hglobal, rfl⟩
          exact ⟨link, ⟨hlink, hglobal⟩, rfl⟩
      rw [List.mem_map]
      constructor
      · rintro ⟨file, hfile, rfl⟩
        exact ⟨file, (hmem file).mp hfile, rfl⟩
      · rintro ⟨file, hfile, rfl⟩
        exact ⟨file, (hmem file).mpr hfile, rfl⟩
  · intro file hfile tail htail
    have hfile_ne : file ≠ [] := by
      rintro rfl
      have hexists := hfile.2
      rw [hnoFile] at hexists
      exact Bool.false_ne_true hexists
    unfold rewriteUrl
    rw [pathType_file w hslash (slash_notMem_mangledPath file) (mangledPath_ne_nil hfile_ne) htail,
      demangledPath_mangledPath]

/-- A file of an activity `a` -/
def oneLink : List Link := [⟨"a".toList, globalAgent, "/f".toList⟩]

/-- The file of that link exists, and the database answers what it understands. -/
def oneFile : World where
  invalid _ := []
  exists_ path := path = "/f".toList
  currentActivity := "a".toList
  execQuery query := (select (table oneLink) query).getD []

lemma oneFile_answers : Answers oneFile oneLink := by
  intro query values h
  change (select (table oneLink) query).getD [] = values
  rw [h]
  rfl

theorem lists_exactly_a : Exact oneFile oneLink "a".toList :=
  lists_exactly oneFile (by decide) oneFile_answers (by decide) (by decide) (by decide) (by decide)

set_option maxRecDepth 4000 in
lemma injected_lists : "/f".toList ∈ listed oneFile "x' OR '1'='1".toList := by decide

/-- An id with a quote in it lists the file of another activity. -/
theorem quote_lists_others : ¬ ∀ (w : World) (links : List Link), w.exists_ [] = false →
    Answers w links → ∀ activity : Text, activity ≠ [] → '/' ∉ activity →
      Exact w links activity := by
  intro hall
  have hexact := hall oneFile oneLink (by decide) oneFile_answers "x' OR '1'='1".toList
    (by decide) (by decide)
  obtain ⟨names, hnames, hiff⟩ := hexact.names
  obtain rfl := Listing.files.inj hnames
  obtain ⟨file, ⟨⟨link, hlink, hglobal, _⟩, _⟩, _⟩ :=
    (hiff (mangledPath "/f".toList)).mp (List.mem_map_of_mem injected_lists)
  obtain rfl := List.mem_singleton.mp hlink
  exact absurd hglobal (by decide)

end KioExtras.Activities
