import KioExtras.Kio
import KioExtras.Lib.Run
import Mathlib.Data.Int.Notation
import Mathlib.Data.List.Infix

/-!
The archive worker: which archive a URL leads into, and which path inside it.

`checkNewFile` keeps the archive it has opened last. A URL that leads into it again is answered
without a look at the rest of its path, unless the time of the archive has changed.
-/

namespace KioExtras.Archive

open KioExtras.Kio KioExtras.Lib.Run

abbrev Path := List Char

structure Stat where
  isDir : Bool
  mtime : ℤ
  uid : ℕ
  gid : ℕ
  deriving DecidableEq

inductive Errno
  | ENOENT
  | EACCES
  | other
  deriving DecidableEq

/-- The classes of KArchive. -/
inductive Format
  | KAr
  | KTar
  | KZip
  | K7Zip
  deriving DecidableEq

def createArchive (proto : String) : Option Format :=
  if proto = "ar" then some .KAr
  else if proto = "tar" then some .KTar
  else if proto = "zip" then some .KZip
  else if proto = "sevenz" then some .K7Zip
  else none

/-- The local files: what `stat` and the user and group tables say, and what there is in a file
when it is opened as an archive. What lies below a path is there only if the path is that of a
directory. -/
structure FileSystem (Content : Type*) where
  stat : Path → Except Errno Stat
  loginName : ℕ → String
  groupName : ℕ → String
  openArchive : Format → Path → Option Content
  below : ∀ dir rest st, dir ≠ [] → stat (dir ++ '/' :: rest) = .ok st →
    ∃ st', stat dir = .ok st' ∧ st'.isDir = true

/-- `m_archiveFile` is the archive that is open, with what was in the file then. -/
structure Worker (Content : Type*) where
  m_archiveFile : Option (Format × Content)
  m_archiveName : Path
  m_user : String
  m_group : String
  m_mtime : ℤ

structure Url where
  scheme : String
  path : Path

/-- How the walk along the path ends: at a file, with what follows it and its slash, at an error,
or without a file, with what the last `stat` has found. -/
inductive Walked
  | archive (archiveFile : Path) (statbuf : Stat) (rest : Path)
  | error (errno : Errno)
  | nothing (isDir : Bool)

section worker

variable {Content : Type*} (fs : FileSystem Content)

/-- The loop over the slashes behind the first character; `tryPath` is what stands before. -/
def walk (isDir : Bool) (tryPath : Path) : Path → Walked
  | [] => .nothing isDir
  | c :: rest =>
    if c = '/' ∧ tryPath ≠ [] then
      match fs.stat tryPath with
      | .error .ENOENT => .nothing false
      | .error errno => .error errno
      | .ok statbuf =>
        if statbuf.isDir = true then walk true (tryPath ++ [c]) rest
        else .archive tryPath statbuf rest
    else walk isDir (tryPath ++ [c]) rest

/-- What follows the archive, without a slash at its end. -/
def innerPath (rest : Path) : Path :=
  if 1 < rest.length then (if rest.getLast? = some '/' then rest.dropLast else rest) else ['/']

def withSlash (fullPath : Path) : Path :=
  if fullPath ≠ [] ∧ fullPath.getLast? ≠ some '/' then fullPath ++ ['/'] else fullPath

variable (w : Worker Content)

/-- The URL leads into the archive that is open. -/
def looksAt (fullPath : Path) : Bool :=
  w.m_archiveFile.isSome && w.m_archiveName.isPrefixOf fullPath &&
    (fullPath.length = w.m_archiveName.length ||
      fullPath.getD w.m_archiveName.length ' ' = '/')

/-- The archive has the time it had. -/
def unchanged : Bool :=
  match fs.stat w.m_archiveName with
  | .ok statbuf => w.m_mtime = statbuf.mtime
  | .error _ => false

/-- The way through the path, with no archive open. -/
def openFile (url : Url) : Worker Content × Except Error Path :=
  let w := { w with m_archiveFile := none }
  match walk fs false [] (withSlash url.path) with
  | .error .EACCES => (w, .error .ERR_ACCESS_DENIED)
  | .error _ => (w, .error .ERR_CANNOT_STAT)
  | .nothing true => (w, .error .ERR_IS_DIRECTORY)
  | .nothing false => (w, .error .ERR_DOES_NOT_EXIST)
  | .archive archiveFile statbuf rest =>
    let w := { w with
      m_mtime := statbuf.mtime
      m_user := fs.loginName statbuf.uid
      m_group := fs.groupName statbuf.gid }
    match createArchive url.scheme with
    | none => (w, .error .ERR_UNSUPPORTED_PROTOCOL)
    | some format =>
      match fs.openArchive format archiveFile with
      | none => (w, .error .ERR_CANNOT_OPEN_FOR_READING)
      | some content =>
        ({ w with m_archiveFile := some (format, content), m_archiveName := archiveFile },
          .ok (innerPath rest))

def fast (url : Url) : Bool := looksAt w url.path && unchanged fs w

/-- The worker after it, and the path inside the archive or the error. -/
def checkNewFile (url : Url) : Worker Content × Except Error Path :=
  if fast fs w url = true then (w, .ok (url.path.drop w.m_archiveName.length))
  else openFile fs w url

end worker

/-- A worker sees URLs while the files change, and lets go of the archive after a redirection. -/
inductive Label (Content : Type*)
  | checkNewFile (fs : FileSystem Content) (url : Url)
  | letGo

def step {Content : Type*} (w : Worker Content) : Label Content → Option (Worker Content)
  | .checkNewFile fs url => some (checkNewFile fs w url).1
  | .letGo => some { w with m_archiveFile := none }

def initial {Content : Type*} : Worker Content := ⟨none, [], "", "", 0⟩

section facts

variable {Content : Type*} {fs : FileSystem Content}

/-! ### The walk along the path -/

lemma walk_archive {isDir : Bool} {tryPath path archiveFile rest : Path} {statbuf : Stat}
    (h : walk fs isDir tryPath path = .archive archiveFile statbuf rest) :
    archiveFile ≠ [] ∧ tryPath ++ path = archiveFile ++ '/' :: rest ∧
      fs.stat archiveFile = .ok statbuf ∧ statbuf.isDir = false := by
  induction path generalizing isDir tryPath with
  | nil => simp [walk] at h
  | cons c path ih =>
    have happend : tryPath ++ [c] ++ path = tryPath ++ c :: path := by simp
    unfold walk at h
    split_ifs at h with hslash
    · cases hstat : fs.stat tryPath with
      | error errno =>
        rw [hstat] at h
        cases errno <;> simp at h
      | ok st =>
        rw [hstat] at h
        dsimp only at h
        split_ifs at h with hdir
        · rw [← happend]
          exact ih h
        · simp only [Walked.archive.injEq] at h
          obtain ⟨rfl, rfl, rfl⟩ := h
          obtain ⟨rfl, hne⟩ := hslash
          exact ⟨hne, rfl, hstat, by simpa using hdir⟩
    · rw [← happend]
      exact ih h

/-- **A file that is there is found where its name ends**, since what comes before are
directories. -/
lemma walk_file {name : Path} {statbuf : Stat} (hstat : fs.stat name = .ok statbuf)
    (hfile : statbuf.isDir = false) {isDir : Bool} {tryPath more rest : Path}
    (hname : name = tryPath ++ more) (hne : name ≠ []) :
    walk fs isDir tryPath (more ++ '/' :: rest) = .archive name statbuf rest := by
  induction more generalizing isDir tryPath with
  | nil =>
    obtain rfl : name = tryPath := by simpa using hname
    simp [walk, hne, hstat, hfile]
  | cons c more ih =>
    have hname' : name = tryPath ++ [c] ++ more := by simpa using hname
    rw [List.cons_append]
    unfold walk
    split_ifs with hslash
    · obtain ⟨rfl, htry⟩ := hslash
      obtain ⟨st, hst, hdir⟩ := fs.below tryPath more statbuf htry (hname ▸ hstat)
      rw [hst]
      dsimp only
      rw [if_pos hdir]
      exact ih hname'
    · exact ih hname'

/-! ### The two ways -/

lemma innerPath_length (rest : Path) : (innerPath rest).length ≤ max 1 rest.length := by
  unfold innerPath
  split_ifs
  · rw [List.length_dropLast]
    omega
  · omega
  · exact Nat.le_max_left 1 _

lemma innerPath_ne (rest : Path) : innerPath rest ≠ [] := by
  unfold innerPath
  split_ifs with hlen hlast
  · intro hnil
    have hdrop := congrArg List.length hnil
    simp only [List.length_dropLast, List.length_nil] at hdrop
    omega
  · rintro rfl
    simp at hlen
  · simp

/-- What two ways have to agree on. -/
structure Same (a b : Worker Content × Except Error Path) : Prop where
  result : a.2 = b.2
  archive : a.2.isOk = true →
    a.1.m_archiveFile = b.1.m_archiveFile ∧ a.1.m_archiveName = b.1.m_archiveName

lemma openFile_ok {w : Worker Content} {url : Url} {path : Path}
    (h : (openFile fs w url).2 = .ok path) :
    ∃ archiveFile statbuf rest format content,
      walk fs false [] (withSlash url.path) = .archive archiveFile statbuf rest ∧
      createArchive url.scheme = some format ∧
      fs.openArchive format archiveFile = some content ∧
      (openFile fs w url).1.m_archiveFile = some (format, content) ∧
      (openFile fs w url).1.m_archiveName = archiveFile ∧ path = innerPath rest := by
  cases hwalk : walk fs false [] (withSlash url.path) with
  | error errno => cases errno <;> simp [openFile, hwalk] at h
  | nothing isDir => cases isDir <;> simp [openFile, hwalk] at h
  | archive archiveFile statbuf rest =>
    cases hformat : createArchive url.scheme with
    | none => simp [openFile, hwalk, hformat] at h
    | some format =>
      cases hcontent : fs.openArchive format archiveFile with
      | none => simp [openFile, hwalk, hformat, hcontent] at h
      | some content =>
        simp only [openFile, hwalk, hformat, hcontent, Except.ok.injEq] at h ⊢
        exact ⟨archiveFile, statbuf, rest, format, content, rfl, rfl, hcontent, rfl, rfl, h.symm⟩

/-- What follows the archive in the path, and what the two ways make of it: only at the root of
the archive, written with its slash, they agree. -/
lemma eq_innerPath {name more rest : Path}
    (hpath : withSlash (name ++ more) = name ++ '/' :: rest) (hinner : more = innerPath rest) :
    more = ['/'] := by
  have hne : more ≠ [] := hinner ▸ innerPath_ne rest
  have hle : more.length ≤ max 1 rest.length := hinner ▸ innerPath_length rest
  unfold withSlash at hpath
  split_ifs at hpath with hslash
  · have hcons : more ++ ['/'] = '/' :: rest := by
      simpa [List.append_assoc] using hpath
    have hlen := congrArg List.length hcons
    simp only [List.length_append, List.length_cons, List.length_nil] at hlen
    have hlast : rest.getLast? = some '/' := by
      have hend := congrArg List.getLast? hcons
      have hrest : rest ≠ [] := by
        rintro rfl
        exact hne (List.length_eq_zero_iff.mp (by simpa using hlen))
      rw [List.getLast?_cons_of_ne_nil hrest] at hend
      simpa using hend.symm
    unfold innerPath at hinner
    split_ifs at hinner with hlong
    · have hdrop := congrArg List.length hinner
      rw [List.length_dropLast] at hdrop
      omega
    · exact hinner
  · have hcons : more = '/' :: rest := List.append_cancel_left hpath
    have hlen := congrArg List.length hcons
    rw [List.length_cons] at hlen
    have hnil : rest = [] := List.length_eq_zero_iff.mp (by omega)
    rw [hcons, hnil]

def Named (w : Worker Content) : Prop := w.m_archiveFile.isSome = true → w.m_archiveName ≠ []

lemma openFile_named (w : Worker Content) (url : Url) : Named (openFile fs w url).1 := by
  cases hwalk : walk fs false [] (withSlash url.path) with
  | error errno => cases errno <;> simp [openFile, hwalk, Named]
  | nothing isDir => cases isDir <;> simp [openFile, hwalk, Named]
  | archive archiveFile statbuf rest =>
    obtain ⟨hne, _⟩ := walk_archive hwalk
    cases hformat : createArchive url.scheme with
    | none => simp [openFile, hwalk, hformat, Named]
    | some format =>
      cases hcontent : fs.openArchive format archiveFile with
      | none => simp [openFile, hwalk, hformat, hcontent, Named]
      | some content => simpa [openFile, hwalk, hformat, hcontent, Named] using hne

lemma reaches_named {w : Worker Content} (h : Reaches step initial w) : Named w := by
  refine Reaches.inv (I := Named) ?_ (by simp [Named, initial]) h
  intro w l w' hw hl
  cases l with
  | letGo =>
    obtain rfl := Option.some.inj hl
    exact fun hopen => absurd hopen (by simp)
  | checkNewFile fs url =>
    obtain rfl := Option.some.inj hl
    unfold checkNewFile
    split_ifs
    · exact hw
    · exact openFile_named w url

/-- **The two ways agree if and only if the URL is not answered from the archive that is open,
or is its root, written with a slash, and the file would be opened again as it is.** -/
theorem checkNewFile_iff (fs : FileSystem Content) (w : Worker Content)
    (hreach : Reaches step initial w) (url : Url) :
    Same (checkNewFile fs w url) (openFile fs w url) ↔
      fast fs w url = false ∨
        (url.path = w.m_archiveName ++ ['/'] ∧
          (∃ statbuf, fs.stat w.m_archiveName = .ok statbuf ∧ statbuf.isDir = false) ∧
          ∃ format content, createArchive url.scheme = some format ∧
            fs.openArchive format w.m_archiveName = some content ∧
            w.m_archiveFile = some (format, content)) := by
  cases hfast : fast fs w url with
  | false =>
    have heq : checkNewFile fs w url = openFile fs w url := by simp [checkNewFile, hfast]
    rw [heq]
    exact iff_of_true ⟨rfl, fun _ => ⟨rfl, rfl⟩⟩ (Or.inl rfl)
  | true =>
    have heq : checkNewFile fs w url = (w, .ok (url.path.drop w.m_archiveName.length)) := by
      simp [checkNewFile, hfast]
    obtain ⟨⟨⟨hopen, hprefix⟩, _⟩, _⟩ : ((w.m_archiveFile.isSome = true ∧
        w.m_archiveName.isPrefixOf url.path = true) ∧ _) ∧ _ := by
      simpa only [fast, looksAt, Bool.and_eq_true] using hfast
    obtain ⟨more, hmore⟩ := List.isPrefixOf_iff_prefix.mp hprefix
    have hdrop : url.path.drop w.m_archiveName.length = more := by
      rw [← hmore, List.drop_left]
    rw [heq, hdrop]
    constructor
    · intro hsame
      obtain ⟨archiveFile, statbuf, rest, format, content, hwalk, hformat, hcontent, hfile, hname,
        hinner⟩ := openFile_ok hsame.result.symm
      obtain ⟨hfile', hname'⟩ := hsame.archive rfl
      obtain rfl : w.m_archiveName = archiveFile := hname'.trans hname
      obtain ⟨_, hsplit, hstat, hdir⟩ := walk_archive hwalk
      rw [← hmore] at hsplit
      have hroot := eq_innerPath hsplit hinner
      refine Or.inr ⟨?_, ⟨statbuf, hstat, hdir⟩, format, content, hformat, hcontent,
        hfile'.trans hfile⟩
      rw [← hmore, hroot]
    · rintro (hnot | ⟨hpath, ⟨statbuf, hstat, hdir⟩, format, content, hformat, hcontent, hfile⟩)
      · exact absurd hnot (by simp)
      · have hroot : more = ['/'] := List.append_cancel_left (hmore.trans hpath)
        have hslash : withSlash url.path = w.m_archiveName ++ '/' :: [] := by
          rw [hpath]
          simp [withSlash]
        have hwalk : walk fs false [] (w.m_archiveName ++ '/' :: []) =
            .archive w.m_archiveName statbuf [] :=
          walk_file hstat hdir (List.nil_append _).symm (reaches_named hreach hopen)
        rw [← hslash] at hwalk
        have hslow : openFile fs w url = ({ w with
            m_archiveFile := some (format, content)
            m_archiveName := w.m_archiveName
            m_mtime := statbuf.mtime
            m_user := fs.loginName statbuf.uid
            m_group := fs.groupName statbuf.gid }, .ok ['/']) := by
          simp only [openFile, hwalk, hformat, hcontent]
          rfl
        rw [hslow, hroot]
        exact ⟨rfl, fun _ => ⟨hfile, rfl⟩⟩

end facts

def oneFile : FileSystem Unit where
  stat path := if path = "/a.tar".toList then .ok ⟨false, 7, 0, 0⟩ else .error .ENOENT
  loginName _ := "root"
  groupName _ := "root"
  openArchive _ _ := some ()
  below dir rest st hne hst := by
    exfalso
    split_ifs at hst with hpath
    obtain ⟨c, dir, rfl⟩ := List.exists_cons_of_ne_nil hne
    have htail : dir ++ '/' :: rest = "a.tar".toList := (List.cons.inj hpath).2
    have hmem : '/' ∈ "a.tar".toList := htail ▸ by simp
    exact absurd hmem (by decide)

def lookedAt : Worker Unit := (checkNewFile oneFile initial ⟨"tar", "/a.tar".toList⟩).1

lemma reaches_lookedAt : Reaches step initial lookedAt :=
  ⟨[.checkNewFile oneFile ⟨"tar", "/a.tar".toList⟩], rfl⟩

theorem checkNewFile_iff_root :
    Same (checkNewFile oneFile lookedAt ⟨"tar", "/a.tar/".toList⟩)
      (openFile oneFile lookedAt ⟨"tar", "/a.tar/".toList⟩) :=
  (checkNewFile_iff oneFile lookedAt reaches_lookedAt ⟨"tar", "/a.tar/".toList⟩).mpr
    (Or.inr ⟨rfl, ⟨⟨false, 7, 0, 0⟩, rfl, rfl⟩, .KTar, (), rfl, rfl, rfl⟩)

/-- The archive itself, without a slash, has the empty path inside on one way and not on the
other. -/
theorem checkNewFile_archive_itself : ¬ ∀ (fs : FileSystem Unit) (w : Worker Unit),
    Reaches step initial w → ∀ url : Url, Same (checkNewFile fs w url) (openFile fs w url) := by
  intro hall
  have hsame := hall oneFile lookedAt reaches_lookedAt ⟨"tar", "/a.tar".toList⟩
  have hfast : (checkNewFile oneFile lookedAt ⟨"tar", "/a.tar".toList⟩).2.toOption = some [] := by
    decide
  have hslow : (openFile oneFile lookedAt ⟨"tar", "/a.tar".toList⟩).2.toOption = some ['/'] := by
    decide
  rw [hsame.result, hslow] at hfast
  exact absurd hfast (by simp)

end KioExtras.Archive
