import KioExtras.Lib.Firsts
import KioExtras.Lib.Run
import KioExtras.Smb.Rename
import Mathlib

/-!
Listing a directory of a share: `SMBWorker::listDir` and the discoverer it starts.

The discoverer takes one entry from libsmbclient for each of its events; what it makes of it
goes through the list of discovered names to the entries that wait for the next timeout of the
timer. For the root of the network the other discoverers run in the same event loop.
-/

namespace KioExtras.Smb.ListDir

open KioExtras.Kio KioExtras.Lib.Run KioExtras.Lib.Firsts KioExtras.Smb.Rename

inductive StringField
  | UDS_NAME
  | UDS_COMMENT
  | UDS_DISPLAY_NAME
  | UDS_ICON_NAME
  | UDS_MIME_TYPE
  | UDS_URL
  deriving DecidableEq

inductive NumberField
  | UDS_ACCESS
  | UDS_ACCESS_TIME
  | UDS_FILE_TYPE
  | UDS_HIDDEN
  | UDS_MODIFICATION_TIME
  | UDS_SIZE
  deriving DecidableEq

structure UDSEntry where
  strings : List (StringField × String)
  numbers : List (NumberField × ℤ)
  deriving DecidableEq

namespace UDSEntry

def insertStrings (entry : UDSEntry) (fields : List (StringField × String)) : UDSEntry :=
  { entry with strings := entry.strings ++ fields }

def insertNumbers (entry : UDSEntry) (fields : List (NumberField × ℤ)) : UDSEntry :=
  { entry with numbers := entry.numbers ++ fields }

def stringValue (entry : UDSEntry) (field : StringField) : String :=
  (entry.strings.lookup field).getD ""

lemma stringValue_insertStrings {entry : UDSEntry} {field : StringField}
    (h : (entry.strings.lookup field).isSome) (fields : List (StringField × String)) :
    (entry.insertStrings fields).stringValue field = entry.stringValue field := by
  obtain ⟨value, hvalue⟩ := Option.isSome_iff_exists.mp h
  simp [stringValue, insertStrings, List.lookup_append, hvalue]

end UDSEntry

structure NamedEntry where
  entry : UDSEntry
  named : (entry.strings.lookup .UDS_NAME).isSome

structure Discovery where
  m_entry : UDSEntry
  m_name : String
  name_eq : m_entry.stringValue .UDS_NAME = m_name

namespace Discovery

def udsName (discovery : Discovery) : String := discovery.m_name

def toEntry (discovery : Discovery) : UDSEntry := discovery.m_entry

lemma toEntry_name (discovery : Discovery) :
    discovery.toEntry.stringValue .UDS_NAME = discovery.udsName := discovery.name_eq

end Discovery

def S_IFDIR : ℤ := 0o040000
def S_IFREG : ℤ := 0o100000

/-- The mode bits that a stat of a share can have a say on: the type and, for a file, the one
that hides it. -/
structure Stat where
  S_IFMT : ℤ
  S_IXOTH : Bool
  st_size : ℤ
  st_mtime : ℤ
  st_atime : ℤ

def EINVAL : ℤ := 22

inductive SmbcType
  | SMBC_WORKGROUP
  | SMBC_SERVER
  | SMBC_FILE_SHARE
  | SMBC_PRINTER_SHARE
  | SMBC_COMMS_SHARE
  | SMBC_IPC_SHARE
  | SMBC_DIR
  | SMBC_FILE
  | SMBC_LINK
  deriving DecidableEq

structure FileInfo where
  name : String
  st : Stat

structure Dirent where
  name : String
  comment : String
  smbc_type : SmbcType

/-- What `smbc_readdirplus2` and `smbc_readdir` report one after the other. -/
structure Content where
  fileInfos : List FileInfo
  dirents : List Dirent

def Content.size (content : Content) : ℕ := content.fileInfos.length + content.dirents.length

/-- The build, the environment and what the calls return. `found` is the error of a stat of an
entry or what it reports; `fold` is the folding of a case-insensitive comparison. -/
structure Env where
  readdirplus2 : Bool
  printersOnly : Bool
  fold : Char → Char
  checkURL : SMBUrl → SMBUrl
  hostUrl : String → String
  workgroupUrl : String → String
  opendir : Except ℤ Content
  browse_stat : String → Except ℤ Stat
  browse_stat_self : Except ℤ Stat
  checkPassword : Option Error
  workaroundEEXIST : ℤ → Bool
  reportError : ℤ → WorkerResult
  displayNameForUrl : String

section entries

/-- The error that goes with an entry of which nothing is known but its name, or 0. -/
def statToUDSEntry (st : Stat) (entry : UDSEntry) : ℤ × UDSEntry :=
  if st.S_IFMT ≠ S_IFDIR ∧ st.S_IFMT ≠ S_IFREG then (EINVAL, entry)
  else
    let entry :=
      if st.S_IFMT ≠ S_IFDIR ∧ st.S_IXOTH = true then entry.insertNumbers [(.UDS_HIDDEN, 1)]
      else entry
    (0, entry.insertNumbers
      [(.UDS_FILE_TYPE, st.S_IFMT), (.UDS_SIZE, st.st_size),
        (.UDS_MODIFICATION_TIME, st.st_mtime), (.UDS_ACCESS_TIME, st.st_atime)])

lemma statToUDSEntry_strings (st : Stat) (entry : UDSEntry) :
    (statToUDSEntry st entry).2.strings = entry.strings := by
  unfold statToUDSEntry
  split_ifs <;> rfl

def SMBCDiscovery (e : NamedEntry) : Discovery := ⟨e.entry, _, rfl⟩

variable (env : Env)

def SMBCServerDiscovery (e : NamedEntry) : Discovery where
  m_name := e.entry.stringValue .UDS_NAME
  m_entry := (e.entry.insertStrings
    [(.UDS_URL, env.hostUrl (e.entry.stringValue .UDS_NAME)),
      (.UDS_MIME_TYPE, "application/x-smb-server"), (.UDS_ICON_NAME, "network-server")]).insertNumbers
    [(.UDS_FILE_TYPE, S_IFDIR), (.UDS_ACCESS, 0o555)]
  name_eq := UDSEntry.stringValue_insertStrings e.named _

def SMBCShareDiscovery (e : NamedEntry) : Discovery where
  m_name := e.entry.stringValue .UDS_NAME
  m_entry := e.entry.insertNumbers [(.UDS_FILE_TYPE, S_IFDIR), (.UDS_ACCESS, 0o775)]
  name_eq := rfl

def SMBCWorkgroupDiscovery (e : NamedEntry) : Discovery where
  m_name := e.entry.stringValue .UDS_NAME
  m_entry := (e.entry.insertStrings
    [(.UDS_MIME_TYPE, "application/x-smb-workgroup"),
      (.UDS_URL, env.workgroupUrl (e.entry.stringValue .UDS_NAME))]).insertNumbers
    [(.UDS_FILE_TYPE, S_IFDIR), (.UDS_ACCESS, 0o555)]
  name_eq := UDSEntry.stringValue_insertStrings e.named _

def SMBCPrinterDiscovery (e : NamedEntry) : Discovery where
  m_name := e.entry.stringValue .UDS_NAME
  m_entry := (e.entry.insertStrings
    [(.UDS_MIME_TYPE, "inode/vnd.kde.kio.smb.printer"),
      (.UDS_URL, e.entry.stringValue .UDS_NAME ++ "?kio-printer=true")]).insertNumbers
    [(.UDS_ACCESS, 0)]
  name_eq := UDSEntry.stringValue_insertStrings e.named _

def fileInfoDiscoveries (fileInfo : FileInfo) : List Discovery :=
  if fileInfo.name = "." ∨ fileInfo.name = ".." then []
  else
    [SMBCDiscovery ⟨(statToUDSEntry fileInfo.st ⟨[(.UDS_NAME, fileInfo.name)], []⟩).2,
      by simp [statToUDSEntry_strings]⟩]

/-- The entry of a dirent before its type is looked at. System shares are hidden. -/
def direntEntry (dirp : Dirent) : UDSEntry :=
  let entry : UDSEntry := ⟨[(.UDS_NAME, dirp.name), (.UDS_COMMENT, dirp.comment)], []⟩
  if dirp.name.toList.getLast? = some '$' then entry.insertNumbers [(.UDS_HIDDEN, 1)] else entry

lemma direntEntry_strings (dirp : Dirent) :
    (direntEntry dirp).strings = [(.UDS_NAME, dirp.name), (.UDS_COMMENT, dirp.comment)] := by
  unfold direntEntry
  split_ifs <;> rfl

def statedEntry (dirp : Dirent) : Option NamedEntry :=
  match env.browse_stat dirp.name with
  | .error _ => none
  | .ok st =>
    if (statToUDSEntry st (direntEntry dirp)).1 ≠ 0 then none
    else some ⟨(statToUDSEntry st (direntEntry dirp)).2,
      by simp [statToUDSEntry_strings, direntEntry_strings]⟩

/-- What `discoverNext` hands over for a dirent: without `smbc_readdirplus2` the files and
directories, then the servers, shares and workgroups. -/
def direntDiscoveries (dirp : Dirent) : List Discovery :=
  let named : NamedEntry := ⟨direntEntry dirp, by simp [direntEntry_strings]⟩
  if env.printersOnly = true then
    if dirp.smbc_type = .SMBC_PRINTER_SHARE then [SMBCPrinterDiscovery named] else []
  else
    let files :=
      if env.readdirplus2 = true ∨ dirp.name = "." ∨ dirp.name = ".." then []
      else if dirp.smbc_type = .SMBC_FILE ∨ dirp.smbc_type = .SMBC_DIR then
        ((statedEntry env dirp).map SMBCDiscovery).toList
      else []
    files ++
      match dirp.smbc_type with
      | .SMBC_SERVER => [SMBCServerDiscovery env named]
      | .SMBC_FILE_SHARE => [SMBCShareDiscovery named]
      | .SMBC_WORKGROUP => [SMBCWorkgroupDiscovery env named]
      | _ => []

end entries

/-! ### The event loop -/

/-- `toRead` is what libsmbclient has not reported yet, `posted` says that an event of the
discoverer waits, `others` which of the other discoverers are finished. `list` waits for the
timer, `listEntries` are the batches passed on, `emitted` the signals so far. -/
structure State where
  opened : Bool
  toRead : Content
  m_error : ℤ
  m_finished : Bool
  m_dirWasRoot : Bool
  posted : Bool
  others : List Bool
  list : List UDSEntry
  discoveredNames : List String
  listEntries : List (List UDSEntry)
  emitted : List Discovery
  quit : Bool

inductive Label
  | loopEvent
  | timeout
  | newDiscovery (i : ℕ) (discovery : Discovery)
  | finished (i : ℕ)

section loop

variable (env : Env)

variable (s : State)

def flushEntries : State :=
  if s.list = [] then s else { s with listEntries := s.listEntries ++ [s.list], list := [] }

def appendDiscovery (discovery : Discovery) : State :=
  let s := { s with emitted := s.emitted ++ [discovery] }
  if s.discoveredNames.any (compareCaseInsensitive env.fold discovery.udsName) then s
  else { s with
    discoveredNames := s.discoveredNames ++ [discovery.udsName]
    list := s.list ++ [discovery.toEntry] }

def maybeFinished : State :=
  if s.m_finished = true ∧ s.others.all id then { flushEntries s with quit := true } else s

def stop : State := maybeFinished { s with m_finished := true }

def init : State :=
  match env.opendir with
  | .ok content => { s with opened := true, toRead := content, m_error := 0 }
  | .error errNum => stop { s with m_error := errNum }

def takeFileInfo (fileInfo : FileInfo) (rest : List FileInfo) : State :=
  (fileInfoDiscoveries fileInfo).foldl (appendDiscovery env) { s with
    toRead := { s.toRead with fileInfos := rest }
    m_dirWasRoot := s.m_dirWasRoot && decide (fileInfo.name ≠ "..") }

/-- Where files come from `smbc_readdirplus2`, so does `..`. -/
def takeDirent (dirp : Dirent) (rest : List Dirent) : State :=
  (direntDiscoveries env dirp).foldl (appendDiscovery env) { s with
    toRead := { s.toRead with dirents := rest }
    m_dirWasRoot := s.m_dirWasRoot &&
      (env.printersOnly || env.readdirplus2 || decide (dirp.name ≠ "..")) }

/-- `printersOnly` and a build without `smbc_readdirplus2` go on to the dirents at once. -/
def discoverNext : State :=
  if s.opened = false then init env s
  else
    match (if env.printersOnly = true ∨ env.readdirplus2 = false then [] else s.toRead.fileInfos) with
    | fileInfo :: rest => takeFileInfo env s fileInfo rest
    | [] =>
      match s.toRead.dirents with
      | dirp :: rest => takeDirent env s dirp rest
      | [] => stop s

/-- `autoQueue` posts the next event. -/
def customEvent : State :=
  let s := { s with posted := false }
  if s.m_finished = true then s
  else
    let s := discoverNext env s
    { s with posted := !s.m_finished }

def step : Label → Option State
  | .loopEvent => if s.posted = true ∧ s.quit = false then some (customEvent env s) else none
  | .timeout => if s.quit = false then some (flushEntries s) else none
  | .newDiscovery i discovery =>
    if s.others[i]? = some false ∧ s.quit = false then some (appendDiscovery env s discovery)
    else none
  | .finished i =>
    if s.others[i]? = some false ∧ s.quit = false then
      some (maybeFinished { s with others := s.others.set i true })
    else none

/-- The loop is entered after `start`; only the root has other discoverers. -/
def initial (kurl : SMBUrl) : State where
  opened := false
  toRead := ⟨[], []⟩
  m_error := 0
  m_finished := false
  m_dirWasRoot := true
  posted := true
  others := if kurl.getType = .ENTIRE_NETWORK then [false, false] else []
  list := []
  discoveredNames := []
  listEntries := []
  emitted := []
  quit := false

/-- What the caller sees: the entries passed to `listEntries`, and the one of the directory
itself that comes last. -/
structure Outcome where
  result : WorkerResult
  redirection : Bool
  listEntries : List (List UDSEntry)
  listEntry : Option UDSEntry
  reportWarning : Bool

def Outcome.names (o : Outcome) : List String :=
  o.listEntries.flatten.map fun entry => entry.stringValue .UDS_NAME

def EPERM : ℤ := 1
def ENOENT : ℤ := 2
def EACCES : ℤ := 13
def ENOTDIR : ℤ := 20

/-- What follows the event loop. -/
def conclude (kurl : SMBUrl) (s : State) : Outcome :=
  if kurl.getType ≠ .ENTIRE_NETWORK ∧ s.m_error ≠ 0 then
    let err := s.m_error
    if err = EPERM ∨ err = EACCES ∨ err = EINVAL ∨ env.workaroundEEXIST err = true then
      match env.checkPassword with
      | none => ⟨.pass, true, s.listEntries, none, false⟩
      | some .ERR_USER_CANCELED => ⟨env.reportError err, false, s.listEntries, none, false⟩
      | some passwordError =>
        ⟨.fail passwordError kurl.toDisplayString, false, s.listEntries, none, false⟩
    else ⟨env.reportError err, false, s.listEntries, none, false⟩
  else
    let udsentry : UDSEntry := ⟨[(.UDS_NAME, "."), (.UDS_DISPLAY_NAME, env.displayNameForUrl)], []⟩
    if s.m_dirWasRoot = true then
      ⟨.pass, false, s.listEntries,
        some (udsentry.insertNumbers [(.UDS_FILE_TYPE, S_IFDIR), (.UDS_ACCESS, 0o555)]), false⟩
    else
      let (statErr, udsentry) : ℤ × UDSEntry :=
        match env.browse_stat_self with
        | .error statErr => (statErr, udsentry)
        | .ok st => statToUDSEntry st udsentry
      if statErr ≠ 0 then
        ⟨.pass, false, s.listEntries,
          some (udsentry.insertNumbers [(.UDS_FILE_TYPE, S_IFDIR), (.UDS_ACCESS, 0o775)]),
          decide (statErr = ENOENT ∨ statErr = ENOTDIR)⟩
      else ⟨.pass, false, s.listEntries, some udsentry, false⟩

/-- The call, with what happens in its event loop; `none` as long as the loop goes on. -/
def listDir (kurl : SMBUrl) (ls : List Label) : Option Outcome :=
  if env.checkURL kurl ≠ kurl then some ⟨.pass, true, [], none, false⟩
  else
    (run (step env) (initial kurl) ls).bind fun s =>
      if s.quit = true then some (conclude env kurl s) else none

end loop

/-! ### What is passed on -/

section listing

variable (env : Env)

/-- The name as far as the comparison tells it. -/
def key (discovery : Discovery) : List Char := discovery.udsName.toList.map env.fold

/-- What the discoverer makes of a content: the entries that are shown, in the order reported.
Without `smbc_readdirplus2` and for printers it reads the dirents only. -/
def shownOf (content : Content) : List Discovery :=
  (if env.printersOnly = true ∨ env.readdirplus2 = false then []
    else content.fileInfos.flatMap fileInfoDiscoveries) ++
  content.dirents.flatMap (direntDiscoveries env)

def shown : List Discovery :=
  match env.opendir with
  | .ok content => shownOf env content
  | .error _ => []

/-- Of the entries emitted so far those with a new name have been passed on or wait. -/
structure Deduplicated (s : State) : Prop where
  entries : s.listEntries.flatten ++ s.list = (firsts (key env) [] s.emitted).map Discovery.toEntry
  names : s.discoveredNames = (firsts (key env) [] s.emitted).map Discovery.udsName

variable {env}

lemma any_compare_iff (env : Env) (discovery : Discovery) (ds : List Discovery) :
    (ds.map Discovery.udsName).any (compareCaseInsensitive env.fold discovery.udsName) = true ↔
      key env discovery ∈ ds.map (key env) := by
  simp only [List.any_map, List.any_eq_true, Function.comp_apply, compareCaseInsensitive,
    decide_eq_true_eq, List.mem_map, key]
  constructor
  · rintro ⟨d, hd, heq⟩
    exact ⟨d, hd, heq.symm⟩
  · rintro ⟨d, hd, heq⟩
    exact ⟨d, hd, heq.symm⟩

variable {s : State}

lemma appendDiscovery_deduplicated (h : Deduplicated env s) (discovery : Discovery) :
    Deduplicated env (appendDiscovery env s discovery) := by
  have hany := any_compare_iff env discovery (firsts (key env) [] s.emitted)
  rw [← h.names] at hany
  unfold appendDiscovery
  by_cases hseen : s.discoveredNames.any (compareCaseInsensitive env.fold discovery.udsName) = true
  · have hfirsts := firsts_concat (key env) s.emitted discovery
    rw [if_pos (hany.mp hseen)] at hfirsts
    simp only [hseen, if_true]
    exact ⟨by simp only [hfirsts]; exact h.entries, by simp only [hfirsts]; exact h.names⟩
  · have hfirsts := firsts_concat (key env) s.emitted discovery
    rw [if_neg (fun hmem => hseen (hany.mpr hmem))] at hfirsts
    simp only [hseen]
    refine ⟨?_, ?_⟩
    · simp only [hfirsts, List.map_append, ← h.entries, List.append_assoc, List.map_cons,
        List.map_nil, Bool.false_eq_true, if_false]
    · simp only [hfirsts, List.map_append, h.names, List.map_cons, List.map_nil,
        Bool.false_eq_true, if_false]

lemma foldl_appendDiscovery_deduplicated (h : Deduplicated env s) (ds : List Discovery) :
    Deduplicated env (ds.foldl (appendDiscovery env) s) := by
  induction ds generalizing s with
  | nil => exact h
  | cons d ds ih => exact ih (appendDiscovery_deduplicated h d)

lemma flushEntries_deduplicated (h : Deduplicated env s) : Deduplicated env (flushEntries s) := by
  unfold flushEntries
  split_ifs with hlist
  · exact h
  · exact ⟨by simpa using h.entries, h.names⟩

lemma maybeFinished_deduplicated (h : Deduplicated env s) : Deduplicated env (maybeFinished s) := by
  have hflush := flushEntries_deduplicated h
  unfold maybeFinished
  split_ifs with hall
  · exact ⟨hflush.entries, hflush.names⟩
  · exact h

lemma stop_deduplicated (h : Deduplicated env s) : Deduplicated env (stop s) :=
  maybeFinished_deduplicated ⟨h.entries, h.names⟩

lemma discoverNext_cases (env : Env) (s : State) :
    (s.opened = false ∧ discoverNext env s = init env s) ∨
      (s.opened = true ∧ shownOf env s.toRead = [] ∧ discoverNext env s = stop s) ∨
      ∃ content wasRoot ds, s.opened = true ∧
        discoverNext env s =
          ds.foldl (appendDiscovery env) { s with toRead := content, m_dirWasRoot := wasRoot } ∧
        shownOf env s.toRead = ds ++ shownOf env content ∧ content.size < s.toRead.size := by
  rcases Bool.eq_false_or_eq_true s.opened with hopened | hopened
  · right
    have hdirent {dirp : Dirent} {rest : List Dirent} (hdirents : s.toRead.dirents = dirp :: rest) :
        Content.size { s.toRead with dirents := rest } < s.toRead.size := by
      simp only [Content.size, hdirents, List.length_cons]
      omega
    by_cases hskip : env.printersOnly = true ∨ env.readdirplus2 = false
    · cases hdirents : s.toRead.dirents with
      | nil =>
        refine Or.inl ⟨hopened, ?_, ?_⟩
        · simp only [shownOf, hskip, hdirents, if_true, List.flatMap_nil, List.append_nil]
        · simp only [discoverNext, hopened, hskip, hdirents, if_true, Bool.true_eq_false, if_false]
      | cons dirp rest =>
        refine Or.inr ⟨{ s.toRead with dirents := rest }, _, direntDiscoveries env dirp, hopened,
          (?_ : _ = takeDirent env s dirp rest), ?_, hdirent hdirents⟩
        · simp only [discoverNext, hopened, hskip, hdirents, if_true, Bool.true_eq_false, if_false]
        · simp only [shownOf, hskip, hdirents, if_true, List.flatMap_cons, List.nil_append]
    · cases hinfos : s.toRead.fileInfos with
      | cons fileInfo rest =>
        refine Or.inr ⟨{ s.toRead with fileInfos := rest }, _, fileInfoDiscoveries fileInfo, hopened,
          (?_ : _ = takeFileInfo env s fileInfo rest), ?_, ?_⟩
        · simp only [discoverNext, hopened, hskip, hinfos, Bool.true_eq_false, if_false]
        · simp only [shownOf, hskip, hinfos, if_false, List.flatMap_cons, List.append_assoc]
        · simp only [Content.size, hinfos, List.length_cons]
          omega
      | nil =>
        cases hdirents : s.toRead.dirents with
        | nil =>
          refine Or.inl ⟨hopened, ?_, ?_⟩
          · simp only [shownOf, hskip, hinfos, hdirents, if_false, List.flatMap_nil,
              List.append_nil]
          · simp only [discoverNext, hopened, hskip, hinfos, hdirents, Bool.true_eq_false, if_false]
        | cons dirp rest =>
          refine Or.inr ⟨{ s.toRead with dirents := rest }, _, direntDiscoveries env dirp, hopened,
            (?_ : _ = takeDirent env s dirp rest), ?_, hdirent hdirents⟩
          · simp only [discoverNext, hopened, hskip, hinfos, hdirents, Bool.true_eq_false, if_false]
          · simp only [shownOf, hskip, hinfos, hdirents, if_false, List.flatMap_cons,
              List.flatMap_nil, List.nil_append]
  · exact Or.inl ⟨hopened, by simp only [discoverNext, hopened, if_true]⟩

lemma discoverNext_deduplicated (h : Deduplicated env s) :
    Deduplicated env (discoverNext env s) := by
  rcases discoverNext_cases env s with
    ⟨-, hnext⟩ | ⟨-, -, hnext⟩ | ⟨content, wasRoot, ds, -, hnext, -, -⟩
  · rw [hnext]
    unfold init
    split
    · exact ⟨h.entries, h.names⟩
    · exact stop_deduplicated ⟨h.entries, h.names⟩
  · rw [hnext]
    exact stop_deduplicated h
  · have htaken : Deduplicated env { s with toRead := content, m_dirWasRoot := wasRoot } :=
      ⟨h.entries, h.names⟩
    rw [hnext]
    exact foldl_appendDiscovery_deduplicated htaken ds

lemma customEvent_deduplicated (h : Deduplicated env s) : Deduplicated env (customEvent env s) := by
  have hnext : Deduplicated env (discoverNext env { s with posted := false }) :=
    discoverNext_deduplicated ⟨h.entries, h.names⟩
  unfold customEvent
  dsimp only
  split_ifs with hfin
  · exact ⟨h.entries, h.names⟩
  · exact ⟨hnext.entries, hnext.names⟩

/-- **One name, one entry**, for the root as well and for whatever comes from the other
discoverers. -/
lemma step_deduplicated {t : State} {l : Label} (h : Deduplicated env s)
    (hstep : step env s l = some t) : Deduplicated env t := by
  cases l with
  | loopEvent =>
    simp only [step, Option.ite_none_right_eq_some, Option.some.injEq] at hstep
    obtain ⟨-, rfl⟩ := hstep
    exact customEvent_deduplicated h
  | timeout =>
    simp only [step, Option.ite_none_right_eq_some, Option.some.injEq] at hstep
    obtain ⟨-, rfl⟩ := hstep
    exact flushEntries_deduplicated h
  | newDiscovery i discovery =>
    simp only [step, Option.ite_none_right_eq_some, Option.some.injEq] at hstep
    obtain ⟨-, rfl⟩ := hstep
    exact appendDiscovery_deduplicated h discovery
  | finished i =>
    simp only [step, Option.ite_none_right_eq_some, Option.some.injEq] at hstep
    obtain ⟨-, rfl⟩ := hstep
    exact maybeFinished_deduplicated ⟨h.entries, h.names⟩

/-! ### A directory that is not the root -/

variable (env)

/-- What the discoverer has still to hand over. -/
def rest (s : State) : List Discovery :=
  if s.m_finished = true then [] else if s.opened = true then shownOf env s.toRead else shown env

/-- The events the discoverer still needs. -/
def work (s : State) : ℕ :=
  if s.m_finished = true then 0
  else if s.opened = true then s.toRead.size + 1
  else
    match env.opendir with
    | .ok content => content.size + 2
    | .error _ => 2

structure Alone (s : State) : Prop where
  others : s.others = []
  emitted : s.emitted ++ rest env s = shown env
  posted : s.posted = !s.m_finished
  quit : s.quit = s.m_finished
  flushed : s.m_finished = true → s.list = []
  error : (∃ content, env.opendir = .ok content) → s.m_error = 0

variable {env}

lemma rest_finished (h : s.m_finished = true) : rest env s = [] := by
  simp only [rest, h, if_true]

lemma rest_opened (h : s.m_finished = false) (ho : s.opened = true) :
    rest env s = shownOf env s.toRead := by
  simp only [rest, h, ho, Bool.false_eq_true, if_false, if_true]

lemma work_finished (h : s.m_finished = true) : work env s = 0 := by
  simp only [work, h, if_true]

lemma work_opened (h : s.m_finished = false) (ho : s.opened = true) :
    work env s = s.toRead.size + 1 := by
  simp only [work, h, ho, Bool.false_eq_true, if_false, if_true]

lemma work_pos (h : s.m_finished = false) : 0 < work env s := by
  simp only [work, h, Bool.false_eq_true, if_false]
  split_ifs
  · omega
  · split <;> omega

lemma foldl_appendDiscovery_frame (env : Env) (s : State) (ds : List Discovery) :
    let t := ds.foldl (appendDiscovery env) s
    t.opened = s.opened ∧ t.toRead = s.toRead ∧ t.m_finished = s.m_finished ∧
      t.posted = s.posted ∧ t.others = s.others ∧ t.quit = s.quit ∧
      t.emitted = s.emitted ++ ds ∧ t.m_error = s.m_error := by
  induction ds generalizing s with
  | nil => simp
  | cons d ds ih =>
    have hhead : ∀ t, t = appendDiscovery env s d → t.opened = s.opened ∧ t.toRead = s.toRead ∧
        t.m_finished = s.m_finished ∧ t.posted = s.posted ∧ t.others = s.others ∧
        t.quit = s.quit ∧ t.emitted = s.emitted ++ [d] ∧ t.m_error = s.m_error := by
      rintro t rfl
      unfold appendDiscovery
      dsimp only
      split_ifs <;> simp
    obtain ⟨h1, h2, h3, h4, h5, h6, h7, h8⟩ := hhead _ rfl
    obtain ⟨k1, k2, k3, k4, k5, k6, k7, k8⟩ := ih (appendDiscovery env s d)
    refine ⟨k1.trans h1, k2.trans h2, k3.trans h3, k4.trans h4, k5.trans h5, k6.trans h6, ?_,
      k8.trans h8⟩
    rw [List.foldl_cons, k7, h7, List.append_assoc, List.singleton_append]

lemma flushEntries_frame (s : State) :
    (flushEntries s).opened = s.opened ∧ (flushEntries s).toRead = s.toRead ∧
      (flushEntries s).m_finished = s.m_finished ∧ (flushEntries s).posted = s.posted ∧
      (flushEntries s).others = s.others ∧ (flushEntries s).quit = s.quit ∧
      (flushEntries s).emitted = s.emitted ∧ (flushEntries s).list = [] ∧
      (flushEntries s).m_error = s.m_error := by
  unfold flushEntries
  split_ifs with hlist <;> simp [hlist]

lemma stop_alone (ho : s.others = []) (he : s.emitted = shown env)
    (herr : (∃ content, env.opendir = .ok content) → s.m_error = 0) :
    (stop s).m_finished = true ∧
      ∀ posted, posted = false → Alone env { stop s with posted := posted } := by
  obtain ⟨-, -, hfin, -, hothers, -, hemit, hlist, herror⟩ :=
    flushEntries_frame { s with m_finished := true }
  have hstop : stop s = { flushEntries { s with m_finished := true } with quit := true } := by
    simp [stop, maybeFinished, ho]
  have hdone : (stop s).m_finished = true := by rw [hstop]; exact hfin
  refine ⟨hdone, ?_⟩
  rintro posted rfl
  refine ⟨?_, ?_, ?_, ?_, ?_, ?_⟩
  · rw [hstop]; exact hothers.trans ho
  · have hrest : rest env { stop s with posted := false } = [] := by simp [rest, hdone]
    rw [hrest, List.append_nil, hstop]
    exact hemit.trans he
  · simp [hdone]
  · rw [hdone, hstop]
  · intro _
    rw [hstop]
    exact hlist
  · intro hok
    rw [hstop]
    exact herror.trans (herr hok)

lemma customEvent_alone (h : Alone env s) (hfin : s.m_finished = false) :
    Alone env (customEvent env s) ∧ work env (customEvent env s) < work env s := by
  have hemitted := h.emitted
  have hevent : customEvent env s =
      { discoverNext env { s with posted := false } with
        posted := !(discoverNext env { s with posted := false }).m_finished } := by
    simp only [customEvent, hfin, Bool.false_eq_true, if_false]
  rcases discoverNext_cases env { s with posted := false } with
    ⟨hopened, hnext⟩ | ⟨hopened, hshown, hnext⟩ | ⟨content, wasRoot, ds, hopened, hnext, hshown, hlt⟩
  · simp only at hopened
    simp only [rest, hfin, hopened, Bool.false_eq_true, if_false] at hemitted
    cases hdir : env.opendir with
    | ok content =>
      have hinit : init env { s with posted := false } =
          { s with posted := false, opened := true, toRead := content, m_error := 0 } := by
        simp only [init, hdir]
      rw [hevent, hnext, hinit]
      refine ⟨⟨h.others, ?_, by simp [hfin], h.quit, by simp [hfin], fun _ => rfl⟩, ?_⟩
      · simp only [rest, hfin, Bool.false_eq_true, if_false, if_true]
        rw [← hemitted]
        simp only [shown, hdir]
      · simp only [work, hfin, hopened, hdir, Bool.false_eq_true, if_false, if_true]
        omega
    | error errNum =>
      have hinit : init env { s with posted := false } =
          stop { s with posted := false, m_error := errNum } := by
        simp only [init, hdir]
      have hnone : s.emitted = shown env := by
        have hshown : shown env = [] := by simp only [shown, hdir]
        rw [hshown] at hemitted ⊢
        simpa using hemitted
      have hnever : (∃ content, env.opendir = .ok content) → errNum = 0 := by
        rintro ⟨content, hok⟩
        rw [hdir] at hok
        cases hok
      obtain ⟨hdone, halone⟩ := stop_alone (s := { s with posted := false, m_error := errNum })
        h.others hnone hnever
      rw [hevent, hnext, hinit]
      refine ⟨halone _ (by simp [hdone]), ?_⟩
      calc work env _ = 0 := work_finished hdone
        _ < work env s := work_pos hfin
  · simp only at hopened hshown
    simp only [rest, hfin, hopened, hshown, Bool.false_eq_true, if_false, if_true,
      List.append_nil] at hemitted
    obtain ⟨hdone, halone⟩ := stop_alone (s := { s with posted := false }) h.others hemitted
      h.error
    rw [hevent, hnext]
    refine ⟨halone _ (by simp [hdone]), ?_⟩
    calc work env _ = 0 := work_finished hdone
      _ < work env s := work_pos hfin
  · simp only at hopened hshown hlt
    rw [rest_opened hfin hopened, hshown] at hemitted
    obtain ⟨k1, k2, k3, -, k5, k6, k7, k8⟩ := foldl_appendDiscovery_frame env
      { s with posted := false, toRead := content, m_dirWasRoot := wasRoot } ds
    rw [hevent, hnext]
    have hdone := k3.trans hfin
    have ho := k1.trans hopened
    refine ⟨⟨k5.trans h.others, ?_, rfl, k6.trans (h.quit.trans k3.symm), ?_,
      fun hok => k8.trans (h.error hok)⟩, ?_⟩
    · calc _ = s.emitted ++ ds ++ shownOf env content :=
            congrArg₂ (· ++ ·) k7 ((rest_opened hdone ho).trans (congrArg (shownOf env) k2))
        _ = shown env := by rw [← hemitted, List.append_assoc]
    · intro hfinished
      exact absurd (hdone.symm.trans hfinished) (by decide)
    · calc work env _ = content.size + 1 :=
            (work_opened hdone ho).trans (congrArg (fun c => Content.size c + 1) k2)
        _ < s.toRead.size + 1 := by omega
        _ = work env s := (work_opened hfin hopened).symm

def Label.isLoopEvent : Label → Bool
  | .loopEvent => true
  | _ => false

lemma step_alone {t : State} {l : Label} (h : Alone env s) (hstep : step env s l = some t) :
    Alone env t ∧ work env t < work env s + (if l.isLoopEvent then 0 else 1) := by
  cases l with
  | loopEvent =>
    simp only [step, Option.ite_none_right_eq_some, Option.some.injEq] at hstep
    obtain ⟨⟨hposted, -⟩, rfl⟩ := hstep
    have hfin : s.m_finished = false := by
      have := h.posted
      rw [hposted] at this
      simpa using this.symm
    obtain ⟨halone, hlt⟩ := customEvent_alone h hfin
    exact ⟨halone, by simpa [Label.isLoopEvent] using hlt⟩
  | timeout =>
    simp only [step, Option.ite_none_right_eq_some, Option.some.injEq] at hstep
    obtain ⟨-, rfl⟩ := hstep
    obtain ⟨k1, k2, k3, k4, k5, k6, k7, k8, k9⟩ := flushEntries_frame s
    have hrest : rest env (flushEntries s) = rest env s := by simp only [rest, k1, k2, k3]
    have hwork : work env (flushEntries s) = work env s := by simp only [work, k1, k2, k3]
    refine ⟨⟨k5.trans h.others, ?_, ?_, ?_, fun _ => k8, fun hok => k9.trans (h.error hok)⟩, ?_⟩
    · rw [k7, hrest, h.emitted]
    · rw [k4, k3, h.posted]
    · rw [k6, k3, h.quit]
    · simp [hwork, Label.isLoopEvent]
  | newDiscovery i discovery => simp [step, h.others] at hstep
  | finished i => simp [step, h.others] at hstep

lemma initial_alone {kurl : SMBUrl} (h : kurl.getType ≠ .ENTIRE_NETWORK) :
    Alone env (initial kurl) :=
  ⟨by simp [initial, h], by simp [initial, rest], rfl, rfl, by simp [initial], fun _ => rfl⟩

lemma initial_deduplicated (kurl : SMBUrl) : Deduplicated env (initial kurl) :=
  ⟨by simp [initial, firsts], by simp [initial, firsts]⟩

/-- What the entries passed on have to do with those shown: they come in the order of the
report, no name comes twice, and an entry comes once whose name no other has, up to the folding
of the comparison. -/
structure Passed (env : Env) (entries : List UDSEntry) : Prop where
  inOrder : entries.Sublist ((shown env).map Discovery.toEntry)
  once : (entries.map fun entry => entry.stringValue .UDS_NAME).Nodup
  all : ∀ discovery ∈ shown env, ((shown env).map (key env)).count (key env discovery) = 1 →
    discovery.toEntry ∈ entries ∧
      (entries.map fun entry => entry.stringValue .UDS_NAME).count discovery.udsName = 1

lemma firsts_passed : Passed env ((firsts (key env) [] (shown env)).map Discovery.toEntry) := by
  have hnames : ((firsts (key env) [] (shown env)).map Discovery.toEntry).map
      (fun entry => entry.stringValue .UDS_NAME) =
      (firsts (key env) [] (shown env)).map Discovery.udsName := by
    rw [List.map_map]
    exact List.map_congr_left fun d _ => d.toEntry_name
  have hnodup : ((firsts (key env) [] (shown env)).map Discovery.udsName).Nodup := by
    have hkeys := firsts_nodup (key env) [] (shown env)
    have hmap : (firsts (key env) [] (shown env)).map (key env) =
        ((firsts (key env) [] (shown env)).map Discovery.udsName).map
          (fun name => name.toList.map env.fold) := by
      rw [List.map_map]
      rfl
    rw [hmap] at hkeys
    exact hkeys.of_map _
  refine ⟨(firsts_sublist (key env) [] (shown env)).map _, by rwa [hnames], ?_⟩
  intro d hd hcount
  have hmem := mem_firsts_of_count (key env) hd hcount
  refine ⟨List.mem_map_of_mem hmem, ?_⟩
  rw [hnames]
  exact List.count_eq_one_of_mem hnodup (List.mem_map_of_mem hmem)

lemma length_eq_events (ls : List Label) :
    ls.length = ls.countP Label.isLoopEvent +
      (ls.map fun l => if l.isLoopEvent then 0 else 1).sum := by
  induction ls with
  | nil => rfl
  | cons l ls ih =>
    cases hl : l.isLoopEvent with
    | true => simp [hl, ih]; omega
    | false => simp [hl, ih]; omega

lemma conclude_passed (kurl : SMBUrl) (h : s.m_error = 0) :
    (conclude env kurl s).result = .pass ∧ (conclude env kurl s).listEntries = s.listEntries := by
  unfold conclude
  simp only [h, ne_eq, not_true_eq_false, and_false, if_false]
  by_cases hroot : s.m_dirWasRoot = true
  · simp [hroot]
  · simp only [hroot, Bool.false_eq_true, if_false]
    cases env.browse_stat_self with
    | error statErr =>
      dsimp only
      split_ifs <;> simp
    | ok st =>
      dsimp only
      split_ifs <;> simp

end listing

/-- A directory of a share with empty files of these names. -/
def files (names : List String) : Env where
  readdirplus2 := true
  printersOnly := false
  fold := Char.toLower
  checkURL url := url
  hostUrl name := "smb://" ++ name
  workgroupUrl name := "smb://" ++ name
  opendir := .ok ⟨names.map fun name => ⟨name, ⟨S_IFREG, false, 0, 0, 0⟩⟩, []⟩
  browse_stat _ := .error ENOENT
  browse_stat_self := .error ENOENT
  checkPassword := none
  workaroundEEXIST _ := false
  reportError _ := .fail .ERR_INTERNAL ""
  displayNameForUrl := "share"

end KioExtras.Smb.ListDir
