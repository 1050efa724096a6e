import KioExtras.Lib.Run
import Mathlib.Data.List.Count
import Mathlib.Data.List.SplitBy

/-!
The file name search module of KDED: which searches are told of a change.

A search URL is entered and left by any window, and files are added, changed and removed, in any
order. Beside the list the module keeps, a state has the events that led to it.
-/

namespace KioExtras.FileNameSearch.Notify

open KioExtras.Lib.Run

abbrev Text := List Char

structure QUrl where
  scheme : Text
  authority : Text
  path : Text
  query : List (Text × Text)
  fragment : Text
  deriving DecidableEq

namespace QUrl

def isLocalFile (url : QUrl) : Prop := url.scheme = "file".toList

instance (url : QUrl) : Decidable url.isLocalFile := inferInstanceAs (Decidable (_ = _))

def setScheme (url : QUrl) (scheme : Text) : QUrl := { url with scheme := scheme }

def queryItemValue (url : QUrl) (key : Text) : Text := (url.query.lookup key).getD []

end QUrl

inductive Event
  | enteredDirectory (urlString : Text)
  | leftDirectory (urlString : Text)
  | FilesAdded (urlString : Text)
  | FilesChanged (files : List Text)
  | FilesRemoved (files : List Text)

/-- What is emitted: the search itself for files that were added, else the files. -/
inductive Signal
  | FilesAdded (dirUrl : QUrl)
  | FilesChanged (fileList : List QUrl)
  | FilesRemoved (fileList : List QUrl)
  deriving DecidableEq

structure State where
  m_searchUrls : List QUrl
  past : List Event

def start : State := ⟨[], []⟩

def startsWith (text start : Text) : Bool := start.isPrefixOf text

def isSearch (urlString : Text) : Bool := startsWith urlString "filenamesearch".toList

section kded

-- how Qt reads a URL that is given as a string
variable (qt : Text → QUrl)

def registerSearchUrl (searchUrls : List QUrl) (urlString : Text) : List QUrl :=
  if isSearch urlString then searchUrls ++ [qt urlString] else searchUrls

/-- With `removeAll`: every URL that is equal. -/
def unregisterSearchUrl (searchUrls : List QUrl) (urlString : Text) : List QUrl :=
  if isSearch urlString then searchUrls.filter fun dirUrl => dirUrl ≠ qt urlString else searchUrls

/-- The rounds of the loop over the searches that notify, with the URL of the file. -/
def notified (searchUrls : List QUrl) (urlString : Text) : List (QUrl × QUrl) :=
  let url := qt urlString
  if url.isLocalFile then
    (searchUrls.filter fun dirUrl => startsWith url.path dirUrl.path).map
      fun dirUrl => (url, dirUrl)
  else []

def slotFilesAdded (searchUrls : List QUrl) (urlString : Text) : List Signal :=
  (notified qt searchUrls urlString).map fun (_, dirUrl) => .FilesAdded dirUrl

def fileList (searchUrls : List QUrl) (files : List Text) : List QUrl :=
  files.flatMap fun file =>
    (notified qt searchUrls file).map fun (url, _) => url.setScheme "filenamesearch".toList

def slotFilesChanged (searchUrls : List QUrl) (files : List Text) : List Signal :=
  let list := fileList qt searchUrls files
  if list.isEmpty then [] else [.FilesChanged list]

def slotFilesRemoved (searchUrls : List QUrl) (files : List Text) : List Signal :=
  let list := fileList qt searchUrls files
  if list.isEmpty then [] else [.FilesRemoved list]

def emitted (s : State) : Event → List Signal
  | .enteredDirectory _ => []
  | .leftDirectory _ => []
  | .FilesAdded urlString => slotFilesAdded qt s.m_searchUrls urlString
  | .FilesChanged files => slotFilesChanged qt s.m_searchUrls files
  | .FilesRemoved files => slotFilesRemoved qt s.m_searchUrls files

def searchUrls (s : State) : Event → List QUrl
  | .enteredDirectory urlString => registerSearchUrl qt s.m_searchUrls urlString
  | .leftDirectory urlString => unregisterSearchUrl qt s.m_searchUrls urlString
  | .FilesAdded _ => s.m_searchUrls
  | .FilesChanged _ => s.m_searchUrls
  | .FilesRemoved _ => s.m_searchUrls

def step (s : State) (e : Event) : Option State :=
  some ⟨searchUrls qt s e, s.past ++ [e]⟩

/-! ### Who is to be told -/

def enters (search : QUrl) : Event → Bool
  | .enteredDirectory urlString => isSearch urlString && qt urlString = search
  | _ => false

def leaves (search : QUrl) : Event → Bool
  | .leftDirectory urlString => isSearch urlString && qt urlString = search
  | _ => false

def entered (search : QUrl) (past : List Event) : ℕ := past.countP (enters qt search)

def left (search : QUrl) (past : List Event) : ℕ := past.countP (leaves qt search)

def Open (s : State) (search : QUrl) : Prop := left qt search s.past < entered qt search s.past

/-- The names on a path -/
def components (path : Text) : List Text := (path.splitOn '/').filter fun name => name ≠ []

/-- The folder a search URL names, as `listDir` reads it from the query. -/
def folder (search : QUrl) : QUrl := qt (search.queryItemValue "url".toList)

/-- The path is the folder of the search or lies below it. -/
def InFolder (search : QUrl) (path : Text) : Prop :=
  (folder qt search).isLocalFile ∧ components (folder qt search).path <+: components path

def files : Event → List Text
  | .enteredDirectory _ => []
  | .leftDirectory _ => []
  | .FilesAdded urlString => [urlString]
  | .FilesChanged files => files
  | .FilesRemoved files => files

/-- The search is told of the file: by a signal of its own, or by a round of the loop that puts the
file into the signal. -/
def Tells (s : State) (e : Event) (file : Text) (search : QUrl) : Prop :=
  match e with
  | .enteredDirectory _ => False
  | .leftDirectory _ => False
  | .FilesAdded urlString => file = urlString ∧ .FilesAdded search ∈ emitted qt s e
  | .FilesChanged files => file ∈ files ∧ (qt file, search) ∈ notified qt s.m_searchUrls file ∧
      ∃ list, emitted qt s e = [.FilesChanged list] ∧
        (qt file).setScheme "filenamesearch".toList ∈ list
  | .FilesRemoved files => file ∈ files ∧ (qt file, search) ∈ notified qt s.m_searchUrls file ∧
      ∃ list, emitted qt s e = [.FilesRemoved list] ∧
        (qt file).setScheme "filenamesearch".toList ∈ list

/-- **A search is told of a file just when** the file is local, the search is open, and the file is
in its folder. -/
def Exact (s : State) (e : Event) : Prop :=
  ∀ file ∈ files e, ∀ search, Tells qt s e file search ↔
    (qt file).isLocalFile ∧ Open qt s search ∧ InFolder qt search (qt file).path

/-- A search is not left while it is open more than once, nor entered when it has been left more
often than entered. -/
def Counted (s : State) : Event → Prop
  | .enteredDirectory urlString => isSearch urlString →
      left qt (qt urlString) s.past ≤ entered qt (qt urlString) s.past
  | .leftDirectory urlString => isSearch urlString →
      entered qt (qt urlString) s.past ≤ left qt (qt urlString) s.past + 1
  | .FilesAdded _ => True
  | .FilesChanged _ => True
  | .FilesRemoved _ => True

/-- The path of each open search, as a string, starts the path of the file just when the file is in
the folder of the search. -/
def Fits (s : State) (e : Event) : Prop :=
  ∀ file ∈ files e, (qt file).isLocalFile → ∀ search, Open qt s search →
    (startsWith (qt file).path search.path ↔ InFolder qt search (qt file).path)

instance (search : QUrl) (path : Text) : Decidable (InFolder qt search path) :=
  inferInstanceAs (Decidable (_ ∧ _))

end kded

/-! ### What the loops send -/

variable {qt : Text → QUrl}

variable {urls : List QUrl} {e : Event} {s : State} {urlString : Text}

lemma mem_notified {file : Text} {search : QUrl} :
    (qt file, search) ∈ notified qt urls file ↔
      (qt file).isLocalFile ∧ search ∈ urls ∧ startsWith (qt file).path search.path := by
  unfold notified
  by_cases hlocal : (qt file).isLocalFile
  · simp [hlocal]
  · simp [hlocal]

lemma mem_slotFilesAdded {file : Text} {search : QUrl} :
    .FilesAdded search ∈ slotFilesAdded qt urls file ↔
      (qt file, search) ∈ notified qt urls file := by
  unfold slotFilesAdded notified
  by_cases hlocal : (qt file).isLocalFile
  · simp [hlocal]
  · simp [hlocal]

lemma mem_fileList {names : List Text} {file : Text} {search : QUrl} (hfile : file ∈ names)
    (h : (qt file, search) ∈ notified qt urls file) :
    (qt file).setScheme "filenamesearch".toList ∈ fileList qt urls names :=
  List.mem_flatMap.mpr ⟨file, hfile, List.mem_map.mpr ⟨_, h, rfl⟩⟩

lemma list_sent {list : List QUrl} {url : QUrl} {f : List QUrl → Signal} (h : url ∈ list) :
    (if list.isEmpty then [] else [f list]) = [f list] := by
  apply if_neg
  intro hempty
  rw [List.isEmpty_iff.mp hempty] at h
  exact List.not_mem_nil h

lemma tells_iff {file : Text} {search : QUrl} (hfile : file ∈ files e) :
    Tells qt s e file search ↔ (qt file, search) ∈ notified qt s.m_searchUrls file := by
  cases e with
  | enteredDirectory urlString => exact absurd hfile List.not_mem_nil
  | leftDirectory urlString => exact absurd hfile List.not_mem_nil
  | FilesAdded urlString =>
    obtain rfl := List.mem_singleton.mp hfile
    constructor
    · rintro ⟨_, hsent⟩
      exact mem_slotFilesAdded.mp hsent
    · intro hmem
      exact ⟨rfl, mem_slotFilesAdded.mpr hmem⟩
  | FilesChanged names =>
    constructor
    · rintro ⟨_, hmem, _⟩
      exact hmem
    · intro hmem
      have hlist := mem_fileList hfile hmem
      exact ⟨hfile, hmem, _, list_sent hlist, hlist⟩
  | FilesRemoved names =>
    constructor
    · rintro ⟨_, hmem, _⟩
      exact hmem
    · intro hmem
      have hlist := mem_fileList hfile hmem
      exact ⟨hfile, hmem, _, list_sent hlist, hlist⟩

/-! ### The list and the counts -/

/-- The list has the searches that are open. -/
def Listed (qt : Text → QUrl) (s : State) : Prop :=
  ∀ search, search ∈ s.m_searchUrls ↔ Open qt s search

lemma entered_concat (search : QUrl) (past : List Event) (e : Event) :
    entered qt search (past ++ [e]) =
      entered qt search past + if enters qt search e then 1 else 0 := by
  simp [entered, List.countP_append, List.countP_singleton]

lemma left_concat (search : QUrl) (past : List Event) (e : Event) :
    left qt search (past ++ [e]) = left qt search past + if leaves qt search e then 1 else 0 := by
  simp [left, List.countP_append, List.countP_singleton]

lemma open_concat {search : QUrl} :
    Open qt ⟨urls, s.past ++ [e]⟩ search ↔
      left qt search s.past + (if leaves qt search e then 1 else 0) <
        entered qt search s.past + if enters qt search e then 1 else 0 := by
  unfold Open
  rw [entered_concat, left_concat]

lemma open_other {search : QUrl} (henter : enters qt search e = false)
    (hleave : leaves qt search e = false) :
    Open qt ⟨urls, s.past ++ [e]⟩ search ↔ Open qt s search := by
  rw [open_concat, henter, hleave]
  exact Iff.rfl

lemma open_entered (hname : isSearch urlString = true) :
    Open qt ⟨urls, s.past ++ [.enteredDirectory urlString]⟩ (qt urlString) ↔
      left qt (qt urlString) s.past < entered qt (qt urlString) s.past + 1 := by
  rw [open_concat]
  simp [enters, leaves, hname]

lemma open_left (hname : isSearch urlString = true) :
    Open qt ⟨urls, s.past ++ [.leftDirectory urlString]⟩ (qt urlString) ↔
      left qt (qt urlString) s.past + 1 < entered qt (qt urlString) s.past := by
  rw [open_concat]
  simp [enters, leaves, hname]

lemma open_ne {search : QUrl} (he : e = .enteredDirectory urlString ∨ e = .leftDirectory urlString)
    (hother : isSearch urlString = true → qt urlString ≠ search) :
    Open qt ⟨urls, s.past ++ [e]⟩ search ↔ Open qt s search := by
  have hfalse : (isSearch urlString && decide (qt urlString = search)) = false := by
    cases hname : isSearch urlString with
    | false => rfl
    | true => simp [hother hname]
  rcases he with rfl | rfl
  · exact open_other hfalse rfl
  · exact open_other rfl hfalse

lemma listed_start : Listed qt start := by
  intro search
  simp [start, Open, entered, left]

lemma Listed.enter (h : Listed qt s) (he : Counted qt s (.enteredDirectory urlString)) :
    Listed qt ⟨registerSearchUrl qt s.m_searchUrls urlString,
      s.past ++ [.enteredDirectory urlString]⟩ := by
  intro search
  change search ∈ registerSearchUrl qt s.m_searchUrls urlString ↔ _
  unfold registerSearchUrl
  split_ifs with hname
  · rw [List.mem_append, List.mem_singleton]
    by_cases heq : search = qt urlString
    · subst heq
      have hle := he hname
      rw [open_entered hname]
      constructor
      · intro _
        omega
      · intro _
        exact Or.inr rfl
    · rw [open_ne (Or.inl rfl) fun _ hsame => heq hsame.symm, h search]
      constructor
      · rintro (hopen | hsame)
        · exact hopen
        · exact absurd hsame heq
      · exact Or.inl
  · rw [open_ne (Or.inl rfl) fun htrue => absurd htrue hname]
    exact h search

lemma Listed.leave (h : Listed qt s) (he : Counted qt s (.leftDirectory urlString)) :
    Listed qt ⟨unregisterSearchUrl qt s.m_searchUrls urlString,
      s.past ++ [.leftDirectory urlString]⟩ := by
  intro search
  change search ∈ unregisterSearchUrl qt s.m_searchUrls urlString ↔ _
  unfold unregisterSearchUrl
  split_ifs with hname
  · rw [List.mem_filter, decide_eq_true_eq]
    by_cases heq : search = qt urlString
    · subst heq
      have hle := he hname
      rw [open_left hname]
      constructor
      · rintro ⟨_, hne⟩
        exact absurd rfl hne
      · intro hlt
        omega
    · rw [open_ne (Or.inr rfl) fun _ hsame => heq hsame.symm, h search]
      exact and_iff_left heq
  · rw [open_ne (Or.inr rfl) fun htrue => absurd htrue hname]
    exact h search

lemma Listed.file (h : Listed qt s) (henter : ∀ search, enters qt search e = false)
    (hleave : ∀ search, leaves qt search e = false) :
    Listed qt ⟨s.m_searchUrls, s.past ++ [e]⟩ := by
  intro search
  rw [open_other (henter search) (hleave search)]
  exact h search

lemma Listed.step {t : State} (h : Listed qt s) (he : Counted qt s e)
    (hstep : step qt s e = some t) : Listed qt t := by
  obtain rfl := Option.some.inj hstep
  cases e with
  | enteredDirectory urlString => exact h.enter he
  | leftDirectory urlString => exact h.leave he
  | FilesAdded urlString => exact h.file (fun _ => rfl) (fun _ => rfl)
  | FilesChanged names => exact h.file (fun _ => rfl) (fun _ => rfl)
  | FilesRemoved names => exact h.file (fun _ => rfl) (fun _ => rfl)

lemma Listed.exact_iff (h : Listed qt s) (e : Event) : Exact qt s e ↔ Fits qt s e := by
  constructor
  · intro hexact file hfile hlocal search hopen
    have hiff := hexact file hfile search
    rw [tells_iff hfile, mem_notified, h search] at hiff
    constructor
    · intro hstarts
      exact (hiff.mp ⟨hlocal, hopen, hstarts⟩).2.2
    · intro hfolder
      exact (hiff.mpr ⟨hlocal, hopen, hfolder⟩).2.2
  · intro hfits file hfile search
    rw [tells_iff hfile, mem_notified, h search]
    constructor
    · rintro ⟨hlocal, hopen, hstarts⟩
      exact ⟨hlocal, hopen, (hfits file hfile hlocal search hopen).mp hstarts⟩
    · rintro ⟨hlocal, hopen, hfolder⟩
      exact ⟨hlocal, hopen, (hfits file hfile hlocal search hopen).mpr hfolder⟩

/-- **Over every sequence of events in which the searches are left as often as they can be**, each
change is told to just the searches it is for if and only if the paths fit at each change. -/
theorem told_exactly_iff (qt : Text → QUrl) (es : List Event)
    (hcounted : AllSteps (step qt) (Counted qt) start es) :
    AllSteps (step qt) (Exact qt) start es ↔ AllSteps (step qt) (Fits qt) start es :=
  allSteps_congr (fun _ _ _ h he => h.step he) (fun _ e h _ => h.exact_iff e) hcounted listed_start

def homeSearch : Text := "filenamesearch:?search=a&url=file:///home".toList

/-- How that search and the URLs of local files are read. -/
def readUrl (str : Text) : QUrl :=
  if str = homeSearch then
    ⟨"filenamesearch".toList, [], [], [("search".toList, "a".toList),
      ("url".toList, "file:///home".toList)], []⟩
  else ⟨"file".toList, [], str.drop 7, [], []⟩

theorem told_exactly_home : AllSteps (step readUrl) (Exact readUrl) start
    [.enteredDirectory homeSearch, .FilesAdded "file:///home/a".toList,
      .leftDirectory homeSearch] := by
  have hcounted : AllSteps (step readUrl) (Counted readUrl) start
      [.enteredDirectory homeSearch, .FilesAdded "file:///home/a".toList,
        .leftDirectory homeSearch] :=
    allSteps_cons rfl (fun _ => by decide)
      (allSteps_cons rfl trivial (allSteps_cons rfl (fun _ => by decide) trivial))
  have hlisted : Listed readUrl ⟨[readUrl homeSearch], [.enteredDirectory homeSearch]⟩ :=
    listed_start.step (e := .enteredDirectory homeSearch) (fun _ => by decide) rfl
  refine (told_exactly_iff readUrl _ hcounted).mpr ?_
  refine allSteps_cons rfl (by simp [Fits, files]) (allSteps_cons rfl ?_
    (allSteps_cons rfl (by simp [Fits, files]) trivial))
  intro file hfile _ search hopen
  obtain rfl := List.mem_singleton.mp hfile
  obtain rfl := List.mem_singleton.mp ((hlisted search).mpr hopen)
  decide

/-- A search below `/home` is told of a file in `/tmp`. -/
theorem told_of_other_folder : ¬ ∀ (qt : Text → QUrl) (es : List Event),
    AllSteps (step qt) (Exact qt) start es := by
  intro hall
  have hexact := ((hall readUrl
    [.enteredDirectory homeSearch, .FilesAdded "file:///tmp/a".toList]).2 _ rfl).1
  have htold := (hexact _ List.mem_cons_self (readUrl homeSearch)).mp ⟨rfl, by decide⟩
  exact absurd htold.2.2 (by decide)

end KioExtras.FileNameSearch.Notify
