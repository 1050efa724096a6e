import KioExtras.Lib.Run
import Mathlib.Data.List.Perm.Basic

/-!
The internal file name search: `searchDir` and the loop over the directories that are pending.

A search of a directory lists everything below it, a folder before what is in it and otherwise
in any order, and follows no link. What a link to a directory leads to is searched later, from
the URL the text of the link gives. One set of strings says what has been seen: the directories
whose search is finished, with a slash at the end, and the folders that are not to be explored,
without.
-/

namespace KioExtras.FileNameSearch

open Lib.Run

abbrev Path := List Char

structure Url where
  site : Path
  path : Path
  deriving DecidableEq

variable (u : Url)

def Url.isLocalFile : Bool := u.site = "file:".toList

def ensureTrailingSlash (str : Path) : Path :=
  if str.getLast? = some '/' then str else str ++ ['/']

def Url.dirPath : Path := ensureTrailingSlash u.path

/-- A directory does not depend on the slash at the end of its URL. -/
def Url.dir : Url := ⟨u.site, u.dirPath⟩

def Url.entry (n : Path) : Url := ⟨u.site, u.dirPath ++ n⟩

/-- What a `KFileItem` and its `UDS_LINK_DEST` say of an entry. -/
structure Item where
  isDir : Bool
  isReadable : Bool
  isHidden : Bool
  linkDest : Path

structure SearchOptions where
  SearchContent : Bool
  IncludeHiddenFiles : Bool
  IncludeHiddenFolders : Bool

/-- What the search asks of the system: the names `listRecursive` gives below a directory (with
hidden entries or not), what is known of an entry, whether a directory can be read, where the
text of a link leads from an entry (`QUrl::resolved`), and whether an entry matches (with its
content or not). -/
structure World where
  names : Bool → Url → List Path
  item : Url → Item
  isReadable : Url → Bool
  resolved : Url → Path → Url
  isMatch : Bool → Url → Bool
  names_nodup : ∀ hidden u, (names hidden u).Nodup
  names_ne_nil : ∀ hidden u, [] ∉ names hidden u
  names_noSlash : ∀ hidden u, ∀ n ∈ names hidden u, n.getLast? ≠ some '/'

/-- A folder comes before what is in it. -/
def FoldersFirst (order : List Path) : Prop :=
  order.Pairwise fun a b => ¬ (b ++ ['/']) <+: a

instance (order : List Path) : Decidable (FoldersFirst order) :=
  inferInstanceAs (Decidable (List.Pairwise _ _))

structure State where
  iteratedDirs : List Path
  pendingDirs : List Url
  /-- the directory that is searched, and the names that are still to come -/
  current : Option (Url × List Path)
  /-- each with the directory it was listed from -/
  listed : List (Url × Path)

inductive Label where
  /-- the next pending directory, listed in the given order -/
  | search (order : List Path)
  | entry
  | finish

def hasBeenVisited (path : Path) (seenDirs : List Path) : Bool :=
  seenDirs.any fun it => it.isPrefixOf path

section

variable (w : World) (options : SearchOptions)

def SearchOptions.IncludeHidden : Bool :=
  options.IncludeHiddenFiles || options.IncludeHiddenFolders

/-- No entry of these is looked at. -/
def guarded (u : Url) : Bool :=
  ["/dev/".toList, "/proc/".toList, "/sys/".toList].any fun dir => dir.isPrefixOf u.dirPath

/-- The names below a directory that are looked at. -/
def listing (u : Url) : List Path :=
  if guarded u then [] else w.names options.IncludeHidden u.dir

variable (st : State)

def State.push (u : Url) : State := { st with pendingDirs := st.pendingDirs ++ [u] }

def State.insert (path : Path) : State :=
  { st with iteratedDirs := path :: st.iteratedDirs }

def State.list (u : Url) (n : Path) : State :=
  { st with listed := st.listed ++ [(u, n)] }

/-- An entry of the directory that is searched. What a link leads to is decided on later; the
content of a folder is not looked at. -/
def processEntry (u : Url) (n : Path) (st : State) : State :=
  if hasBeenVisited (u.entry n).path st.iteratedDirs then st
  else if (w.item (u.entry n)).isDir then
    let st' :=
      if (w.item (u.entry n)).isReadable &&
          (!(w.item (u.entry n)).isHidden || options.IncludeHiddenFolders) then
        if (w.item (u.entry n)).linkDest = [] then st
        else st.push (w.resolved (u.entry n) (w.item (u.entry n)).linkDest)
      else st.insert (u.entry n).path
    if (!(w.item (u.entry n)).isHidden || options.IncludeHiddenFiles) &&
        w.isMatch false (u.entry n) then st'.list u n
    else st'
  else if (!(w.item (u.entry n)).isHidden || options.IncludeHiddenFiles) &&
      w.isMatch options.SearchContent (u.entry n) then st.list u n
  else st

/-- A directory is not searched again, and not when it is local and cannot be read. -/
def searched (u : Url) (st : State) : Bool :=
  !(st.iteratedDirs.contains u.dirPath) && (!u.isLocalFile || w.isReadable u.dir)

def step (l : Label) : Option State :=
  match l, st.current, st.pendingDirs with
  | .search order, none, u :: rest =>
    if searched w u st then
      if order.Perm (listing w options u) ∧ FoldersFirst order then
        some { st with pendingDirs := rest, current := some (u, order) }
      else none
    else some { st with pendingDirs := rest }
  | .entry, some (u, n :: rest), _ =>
    some { processEntry w options u n st with current := some (u, rest) }
  | .finish, some (u, []), _ => some { st.insert u.dirPath with current := none }
  | _, _, _ => none

end

/-- The search of `dirUrl` is about to begin. -/
def initial (dirUrl : Url) : State := ⟨[], [dirUrl], none, []⟩

/-! ### What becomes of an entry -/

section

variable (w : World) (options : SearchOptions)

/-- A folder that is not to be explored. -/
def excludes (e : Url) : Bool :=
  (w.item e).isDir &&
    !((w.item e).isReadable && (!(w.item e).isHidden || options.IncludeHiddenFolders))

def follows (e : Url) : Option Url :=
  if (w.item e).isDir && !excludes w options e && (w.item e).linkDest ≠ [] then
    some (w.resolved e (w.item e).linkDest)
  else none

def lists (e : Url) : Bool :=
  (!(w.item e).isHidden || options.IncludeHiddenFiles) &&
    w.isMatch (options.SearchContent && !(w.item e).isDir) e

end

variable {w : World} {options : SearchOptions}

/-- What an entry does that has not been visited. -/
structure Processed (w : World) (options : SearchOptions) (u : Url) (n : Path)
    (st st' : State) : Prop where
  iterated : st'.iteratedDirs =
    if excludes w options (u.entry n) then (u.entry n).path :: st.iteratedDirs
    else st.iteratedDirs
  pending : st'.pendingDirs = st.pendingDirs ++ (follows w options (u.entry n)).toList
  listed : st'.listed = if lists w options (u.entry n) then st.listed ++ [(u, n)] else st.listed

variable {n : Path} {st : State}

lemma processEntry_visited {u : Url} (h : hasBeenVisited (u.entry n).path st.iteratedDirs = true) :
    processEntry w options u n st = st := if_pos h

lemma processEntry_processed {u : Url}
    (h : hasBeenVisited (u.entry n).path st.iteratedDirs = false) :
    Processed w options u n st (processEntry w options u n st) := by
  rw [processEntry, if_neg (by simp [h])]
  cases hdir : (w.item (u.entry n)).isDir with
  | false =>
    rw [if_neg (by simp)]
    have hexcludes : excludes w options (u.entry n) = false := by simp [excludes, hdir]
    have hfollows : follows w options (u.entry n) = none := by simp [follows, hdir]
    have hlists : lists w options (u.entry n) =
        ((!(w.item (u.entry n)).isHidden || options.IncludeHiddenFiles) &&
          w.isMatch options.SearchContent (u.entry n)) := by simp [lists, hdir]
    rw [← hlists]
    constructor
    · simp only [hexcludes]
      split <;> rfl
    · simp only [hfollows]
      split <;> simp [State.list]
    · split <;> rfl
  | true =>
    rw [if_pos rfl]
    have hexcludes : excludes w options (u.entry n) =
        !((w.item (u.entry n)).isReadable &&
          (!(w.item (u.entry n)).isHidden || options.IncludeHiddenFolders)) := by
      simp [excludes, hdir]
    have hlists : lists w options (u.entry n) =
        ((!(w.item (u.entry n)).isHidden || options.IncludeHiddenFiles) &&
          w.isMatch false (u.entry n)) := by simp [lists, hdir]
    rw [← hlists]
    cases hexplored : (w.item (u.entry n)).isReadable &&
        (!(w.item (u.entry n)).isHidden || options.IncludeHiddenFolders) with
    | false =>
      rw [hexplored] at hexcludes
      have hfollows : follows w options (u.entry n) = none := by simp [follows, hexcludes]
      constructor
      · simp only [hexcludes]
        split <;> rfl
      · simp only [hfollows]
        split <;> simp [State.list, State.insert]
      · simp only [Bool.false_eq_true, if_false]
        split <;> rfl
    | true =>
      rw [hexplored] at hexcludes
      by_cases hlink : (w.item (u.entry n)).linkDest = []
      · have hfollows : follows w options (u.entry n) = none := by simp [follows, hlink]
        constructor
        · simp only [hexcludes, hlink]
          split <;> rfl
        · simp only [hfollows, hlink]
          split <;> simp [State.list]
        · simp only [hlink]
          split <;> rfl
      · have hfollows : follows w options (u.entry n) =
            some (w.resolved (u.entry n) (w.item (u.entry n)).linkDest) := by
          simp [follows, hdir, hexcludes, hlink]
        constructor
        · simp only [hexcludes, hlink]
          split <;> rfl
        · simp only [hfollows, hlink]
          split <;> simp [State.list, State.push]
        · simp only [hlink]
          split <;> rfl

/-- What a step can do: a pending directory is put aside or listed, an entry is taken, or the
search of a directory is finished. -/
lemma step_cases {st' : State} {l : Label} (h : step w options st l = some st') :
    (∃ u rest, st.current = none ∧ st.pendingDirs = u :: rest ∧ searched w u st = false ∧
      st' = { st with pendingDirs := rest }) ∨
    (∃ u rest order, st.current = none ∧ st.pendingDirs = u :: rest ∧ searched w u st = true ∧
      order.Perm (listing w options u) ∧ FoldersFirst order ∧
      st' = { st with pendingDirs := rest, current := some (u, order) }) ∨
    (∃ u n rest, st.current = some (u, n :: rest) ∧
      st' = { processEntry w options u n st with current := some (u, rest) }) ∨
    ∃ u, st.current = some (u, []) ∧ st' = { st.insert u.dirPath with current := none } := by
  obtain ⟨iterated, pending, current, listed⟩ := st
  cases l with
  | search order =>
    cases current with
    | some _ => simp [step] at h
    | none =>
      cases pending with
      | nil => simp [step] at h
      | cons u rest =>
        simp only [step] at h
        by_cases hsearched : searched w u ⟨iterated, u :: rest, none, listed⟩ = true
        · rw [if_pos hsearched] at h
          by_cases horder : order.Perm (listing w options u) ∧ FoldersFirst order
          · rw [if_pos horder] at h
            obtain rfl := Option.some.inj h
            exact Or.inr (Or.inl ⟨u, rest, order, rfl, rfl, hsearched, horder.1, horder.2, rfl⟩)
          · simp [horder] at h
        · rw [if_neg hsearched] at h
          obtain rfl := Option.some.inj h
          exact Or.inl ⟨u, rest, rfl, rfl, Bool.eq_false_iff.mpr hsearched, rfl⟩
  | entry =>
    cases current with
    | none => simp [step] at h
    | some c =>
      obtain ⟨u, _ | ⟨n, rest⟩⟩ := c
      · simp [step] at h
      · obtain rfl : _ = st' := by simpa [step] using h
        exact Or.inr (Or.inr (Or.inl ⟨u, n, rest, rfl, rfl⟩))
  | finish =>
    cases current with
    | none => simp [step] at h
    | some c =>
      obtain ⟨u, _ | ⟨n, rest⟩⟩ := c
      · obtain rfl : _ = st' := by simpa [step] using h
        exact Or.inr (Or.inr (Or.inr ⟨u, rfl, rfl⟩))
      · simp [step] at h

/-! ### Paths -/

lemma hasBeenVisited_iff {path : Path} {seenDirs : List Path} :
    hasBeenVisited path seenDirs = true ↔ ∃ m ∈ seenDirs, m <+: path := by
  simp [hasBeenVisited]

lemma dirPath_slash : u.dirPath.getLast? = some '/' := by
  unfold Url.dirPath ensureTrailingSlash
  split
  · next h => exact h
  · simp

lemma listing_subset {u : Url} (h : n ∈ listing w options u) :
    n ∈ w.names options.IncludeHidden u.dir := by
  unfold listing at h
  split at h
  · simp at h
  · exact h

lemma listing_nodup : (listing w options u).Nodup := by
  unfold listing
  split
  · exact List.nodup_nil
  · exact w.names_nodup _ _

lemma entry_ne_dirPath {u v : Url} (h : n ∈ listing w options u) :
    (u.entry n).path ≠ v.dirPath := by
  intro heq
  have hn := listing_subset h
  have hlast : (u.dirPath ++ n).getLast? = some '/' := by
    have hslash := dirPath_slash v
    rwa [← heq] at hslash
  have hne : n ≠ [] := fun hnil => w.names_ne_nil _ _ (hnil ▸ hn)
  rw [List.getLast?_append_of_ne_nil _ hne] at hlast
  exact w.names_noSlash _ _ n hn hlast

end KioExtras.FileNameSearch
