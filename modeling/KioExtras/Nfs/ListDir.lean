import KioExtras.Nfs.Handles
import Mathlib.Data.List.Nodup

/-!
Listing a directory of the server: with READDIRPLUS (`listDir`), and with READDIR and a LOOKUP of
each name (`listDirCompat`).

The server may send the entries in pieces of any size. The calls that are made for an entry are
given by what they return.
-/

namespace KioExtras.Nfs

open KioExtras.Kio

inductive ftype3
  | NF3REG | NF3DIR | NF3BLK | NF3CHR | NF3LNK | NF3SOCK | NF3FIFO
  deriving DecidableEq

structure fattr3 where
  type : ftype3
  mode : ℕ
  uid : ℕ
  gid : ℕ
  size : ℕ
  atime : ℕ
  mtime : ℕ
  deriving DecidableEq

/-- An entry of a directory. A reply has a handle or attributes in it only if the server puts them
there: READDIRPLUS those of the name, LOOKUP those of the object. -/
structure DirEntry (F : Type) where
  name : Text
  object : F
  attributes : fattr3
  name_handle : Bool
  name_attributes : Bool
  obj_attributes : Bool

namespace DirEntry

variable {F : Type} (e : DirEntry F)

/-- What of it is in a READDIRPLUS reply. -/
def nameHandle : Option F := if e.name_handle then some e.object else none

def nameAttributes : Option fattr3 := if e.name_attributes then some e.attributes else none

def objAttributes : Option fattr3 := if e.obj_attributes then some e.attributes else none

end DirEntry

/-- How the fields of a UDS entry are filled in. Attributes that were not sent are all 0. -/
inductive Completed
  | completeUDSEntry (attributes : Option fattr3)
  | completeBadLinkUDSEntry (attributes : Option fattr3)
  | completeInvalidUDSEntry
  deriving DecidableEq

/-- What is passed to `listEntry`, on top of `createVirtualDirEntry` for the directory itself. -/
structure ListedEntry where
  name : Text
  isVirtual : Bool
  linkDest : Option Text
  completed : Completed
  deriving DecidableEq

def unknownTarget : Text := "Unknown target".toList

structure Listed (F : Type) where
  listed : List ListedEntry
  linkResult : WorkerResult
  m_handleCache : HandleCache F

/-- `cookie` is that of `lastEntry`, 0 if there is none. -/
structure Plus (F : Type) extends Listed F where
  cookie : ℕ
  calls : ℕ

/-- What the calls for one entry return: `none` for a call that does not. -/
structure EntryCalls (F : Type) where
  getFileHandle : Text → Option (MaybeNFSFileHandle F)
  lookupHandle : Text → Option (Option F)
  getAttr : Text → Option (Option fattr3)

def dot : Text := ['.']

def dotDot : Text := ['.', '.']

/-- A directory of the server, and what the worker finds out about its entries. -/
structure Directory (F : Type) where
  path : Text
  m_exportedDirs : List Text
  notVirtual : isExportedDir m_exportedDirs path = false
  dirFH : MaybeNFSFileHandle F
  usedirplus3 : Bool
  entries : List (DirEntry F)
  nodup : (entries.map DirEntry.name).Nodup
  dots : ∀ e ∈ entries, e.name = dot ∨ e.name = dotDot → e.attributes.type ≠ .NF3LNK
  calls : Text → EntryCalls F
  READLINK : F → Option Text

/-- How the server sends a directory: how many entries at most in each reply, and whether a reply
that reaches the end says so. Its cookie verifier is 0 if it does not use one. -/
structure Paging where
  readdirplus : Bool
  cookieverf : ℕ
  count : ℕ → ℕ
  eof : ℕ → Bool

namespace Directory

variable {F : Type} (d : Directory F) (p : Paging)

variable (cookie : ℕ)

/-- The entries of a reply. The cookie of an entry is the number of entries up to it. -/
def page (calls : ℕ) : List (DirEntry F) := (d.entries.drop cookie).take (p.count calls)

def eof (cookie calls : ℕ) : Bool :=
  p.eof calls && decide (d.entries.length ≤ cookie + p.count calls)

/-- The verifier that goes with a cookie is always 0. -/
def badCookie : Bool := decide (cookie ≠ 0) && decide (p.cookieverf ≠ 0)

def badCookieResult : WorkerResult :=
  .fail .ERR_UNKNOWN ("NFS error 10003, " ++ String.ofList d.path)

def filePath (name : Text) : Text := QDir.filePath d.path name

/-! ### Links -/

/-- `std::get` of the handle: it throws if there is none. -/
def getHandle : MaybeNFSFileHandle F → Option (NFSFileHandle F)
  | .fails _ _ => none
  | .handle fh => some fh

variable (calls : EntryCalls F)

def symLinkTarget (path : Text) : Option (Option Text) :=
  match calls.getFileHandle path with
  | none => none
  | some maybeFH =>
    if handleIsValid maybeFH then some none
    else match getHandle maybeFH with
      | none => none
      | some fh =>
        some ((if fh.isLink && !fh.isBadLink then fh.m_linkHandle else fh.m_handle).bind d.READLINK)

def validLinkResult (linkDest : Text) : Option WorkerResult :=
  if linkDest = [] then some (.fail .ERR_MALFORMED_URL "Empty destination")
  else
    let absDest := QFileInfo.absoluteFilePath d.path linkDest
    if !isValidPath d.m_exportedDirs absDest then
      some (.fail .ERR_MALFORMED_URL (String.ofList absDest))
    else match calls.getFileHandle absDest with
      | none => none
      | some (.fails error text) => some (.fail error text)
      | some (.handle _) => some .pass

/-- The handle and the attributes of the target of a link. -/
def target (linkDest : Text) : Option (Option (F × fattr3)) :=
  let linkPath := QFileInfo.absoluteFilePath d.path linkDest
  match calls.lookupHandle linkPath with
  | none => none
  | some none => some none
  | some (some object) =>
    match calls.getAttr linkPath with
    | none => none
    | some none => some none
    | some (some attributes) => some (some (object, attributes))

variable (e : DirEntry F)

/-- A link, with the handle and the attributes that came with it. -/
def listLink (handle : Option F) (attributes : Option fattr3) (s : Listed F) :
    Option (Listed F) :=
  match d.symLinkTarget (d.calls e.name) (d.filePath e.name) with
  | none => none
  | some none =>
    some { s with listed := s.listed ++
      [⟨e.name, false, some unknownTarget, .completeBadLinkUDSEntry attributes⟩] }
  | some (some linkDest) =>
    match d.validLinkResult (d.calls e.name) linkDest with
    | none => none
    | some linkResult =>
      match if linkResult.success then d.target (d.calls e.name) linkDest else some none with
      | none => none
      | some none =>
        some ⟨s.listed ++ [⟨e.name, false, some linkDest, .completeBadLinkUDSEntry attributes⟩],
          linkResult, addFileHandle s.m_handleCache (d.filePath e.name) ⟨handle, none, true⟩⟩
      | some (some (object, attrAndStat)) =>
        some ⟨s.listed ++ [⟨e.name, false, some linkDest, .completeUDSEntry (some attrAndStat)⟩],
          linkResult, addFileHandle s.m_handleCache (d.filePath e.name) ⟨some object, handle, true⟩⟩

/-! ### With READDIRPLUS -/

/-- The `i`-th entry of the directory. For `.` the cookie is not remembered. -/
def plusEntry (i : ℕ) (e : DirEntry F) (s : Plus F) : Option (Plus F) :=
  if e.name = dotDot then some s
  else if e.name = dot then
    some { s with listed := s.listed ++ [⟨e.name, true, none, .completeUDSEntry e.nameAttributes⟩] }
  else if e.name_attributes = true ∧ e.attributes.type = .NF3LNK then
    (d.listLink e e.nameHandle e.nameAttributes s.toListed).map fun t =>
      { s with toListed := t, cookie := i + 1 }
  else match e.nameHandle with
    | none =>
      some { s with
        listed := s.listed ++ [⟨e.name, false, none, .completeInvalidUDSEntry⟩]
        cookie := i + 1 }
    | some object =>
      some { s with
        listed := s.listed ++ [⟨e.name, false, none, .completeUDSEntry e.nameAttributes⟩]
        m_handleCache := addFileHandle s.m_handleCache (d.filePath e.name) (.ofFH object)
        cookie := i + 1 }

def plusEntries : ℕ → List (DirEntry F) → Plus F → Option (Plus F)
  | _, [], s => some s
  | i, e :: es, s => (d.plusEntry i e s).bind (plusEntries (i + 1) es)

def plusLoop : ℕ → Plus F → Option (WorkerResult × List ListedEntry)
  | 0, _ => none
  | fuel + 1, s =>
    if badCookie p s.cookie then some (d.badCookieResult, s.listed)
    else match d.plusEntries s.cookie (d.page p s.cookie s.calls) s with
      | none => none
      | some t =>
        if d.page p s.cookie s.calls ≠ [] ∧ d.eof p s.cookie s.calls = false then
          plusLoop fuel { t with calls := s.calls + 1 }
        else some (t.linkResult, t.listed)

/-! ### With READDIR -/

/-- The entries whose names are sent. Here each entry is remembered. -/
def compatLoop : ℕ → (cookie calls : ℕ) → List (DirEntry F) →
    Option (Except WorkerResult (List (DirEntry F)))
  | 0, _, _, _ => none
  | fuel + 1, cookie, calls, filesToList =>
    if badCookie p cookie then some (.error d.badCookieResult)
    else
      let page := d.page p cookie calls
      let files := filesToList ++ page.filter fun e => e.name ≠ dotDot
      if d.eof p cookie calls then some (.ok files)
      else compatLoop fuel (cookie + page.length) (calls + 1) files

/-- The name is looked up. -/
def compatEntry (s : Listed F) : Option (Listed F) :=
  match (d.calls e.name).lookupHandle (d.filePath e.name) with
  | none => none
  | some none => some s
  | some (some object) =>
    if e.obj_attributes = true ∧ e.attributes.type = .NF3LNK then
      d.listLink e (some object) e.objAttributes s
    else
      some { s with
        listed := s.listed ++ [⟨e.name, false, none, .completeUDSEntry e.objAttributes⟩]
        m_handleCache := addFileHandle s.m_handleCache (d.filePath e.name) (.ofFH object) }

def compatEntries : List (DirEntry F) → Listed F → Option (Listed F)
  | [], s => some s
  | e :: es, s => (d.compatEntry e s).bind (compatEntries es)

/-- The directory cannot be read. -/
def refusal : Option WorkerResult :=
  match d.dirFH with
  | .fails error text => some (.fail error text)
  | .handle fh =>
    if fh.isInvalid || fh.isBadLink then some (.fail .ERR_DOES_NOT_EXIST (String.ofList d.path))
    else none

variable (m : HandleCache F)

def listDirCompat (fuel : ℕ) : Option (WorkerResult × List ListedEntry) :=
  if isExportedDir d.m_exportedDirs d.path then
    some (.fail .ERR_INTERNAL (String.ofList d.path), [])
  else match d.refusal with
    | some res => some (res, [])
    | none =>
      match d.compatLoop p fuel 0 0 [] with
      | none => none
      | some (.error res) => some (res, [])
      | some (.ok files) =>
        match d.compatEntries files ⟨[], .pass, m⟩ with
        | none => none
        | some s => some (s.linkResult, s.listed)

/-- A server without READDIRPLUS says so in its first reply. -/
def listDir (fuel : ℕ) : Option (WorkerResult × List ListedEntry) :=
  match d.refusal with
  | some res => some (res, [])
  | none =>
    if !d.usedirplus3 || !p.readdirplus then d.listDirCompat p m fuel
    else d.plusLoop p fuel ⟨⟨[], .pass, m⟩, 0, 0⟩

end Directory

/-! ### What the replies have to be -/

namespace Directory

variable {F : Type} (d : Directory F) (p : Paging)

variable (e : DirEntry F)

/-- The LOOKUP of the entry succeeds. -/
def Found : Prop :=
  ∃ object, (d.calls e.name).lookupHandle (d.filePath e.name) = some (some object)

def Wanted : Prop := e.name ≠ dotDot ∧ d.Found e

/-- `getFileHandle` has the handle of the entry. -/
def HandleFound : Prop :=
  ∃ fh, (d.calls e.name).getFileHandle (d.filePath e.name) = some (.handle fh)

/-- The listing ends, and each entry that is wanted was passed on once. -/
def Lists (run : ℕ → Option (WorkerResult × List ListedEntry)) : Prop :=
  ∃ fuel res listed, run fuel = some (res, listed) ∧
    ∀ e ∈ d.entries, d.Wanted e → (listed.map ListedEntry.name).count e.name = 1

/-- The cookie after some entries, of which the first is the `i`-th one. -/
def nextCookie : ℕ → List (DirEntry F) → ℕ → ℕ
  | _, [], cookie => cookie
  | i, e :: es, cookie =>
    nextCookie (i + 1) es (if e.name = dotDot ∨ e.name = dot then cookie else i + 1)

/-- How much of the directory was sent after a reply, if it was `read` before. -/
def readAfter (cookie calls read : ℕ) : ℕ := max read (cookie + (d.page p cookie calls).length)

section

variable (W R : DirEntry F → Prop)

/-- A reply that is accepted, whose entries can be processed, and in which nothing that is wanted
is sent again. -/
structure ReplyOk (cookie calls read : ℕ) : Prop where
  accepted : badCookie p cookie = false
  returns : ∀ e ∈ d.page p cookie calls, R e
  once : ∀ e ∈ (d.page p cookie calls).take (read - cookie), ¬ W e

/-- The replies, up to the one that ends the loop, bring all that is wanted, and once. The flag is
false if the server refuses a cookie after it has sent all. -/
inductive Served : Bool → (cookie calls read : ℕ) → Prop
  | refused {cookie calls read} (h : badCookie p cookie = true)
      (hleft : ∀ e ∈ d.entries.drop read, ¬ W e) : Served false cookie calls read
  | last {cookie calls read} (hreply : d.ReplyOk p W R cookie calls read)
      (hends : ¬ (d.page p cookie calls ≠ [] ∧ d.eof p cookie calls = false))
      (hleft : ∀ e ∈ d.entries.drop (d.readAfter p cookie calls read), ¬ W e) :
      Served true cookie calls read
  | more {ok cookie calls read} (hreply : d.ReplyOk p W R cookie calls read)
      (hends : d.page p cookie calls ≠ [] ∧ d.eof p cookie calls = false)
      (h : Served ok (nextCookie cookie (d.page p cookie calls) cookie) (calls + 1)
        (d.readAfter p cookie calls read)) :
      Served ok cookie calls read

end

/-- An entry that `listDir` does not stop at: if it is sent as a link its handle is found. -/
def PlusReturns : Prop :=
  e.name_attributes = true → e.attributes.type = .NF3LNK → d.HandleFound e

/-! ### One entry -/

section

variable {d : Directory F} {p : Paging}

variable {e : DirEntry F}

lemma listLink_found (h : d.HandleFound e) (handle : Option F) (attributes : Option fattr3)
    (s : Listed F) :
    d.listLink e handle attributes s = some { s with listed := s.listed ++
      [⟨e.name, false, some unknownTarget, .completeBadLinkUDSEntry attributes⟩] } := by
  obtain ⟨fh, hfh⟩ := h
  have htarget : d.symLinkTarget (d.calls e.name) (d.filePath e.name) = some none := by
    unfold symLinkTarget
    rw [hfh]
    rfl
  unfold listLink
  rw [htarget]

lemma listLink_lost (h : ¬ d.HandleFound e) (handle : Option F) (attributes : Option fattr3)
    (s : Listed F) : d.listLink e handle attributes s = none := by
  have htarget : d.symLinkTarget (d.calls e.name) (d.filePath e.name) = none := by
    unfold symLinkTarget
    cases hc : (d.calls e.name).getFileHandle (d.filePath e.name) with
    | none => rfl
    | some maybeFH =>
      cases maybeFH with
      | fails error text => rfl
      | handle fh => exact absurd ⟨fh, hc⟩ h
  unfold listLink
  rw [htarget]

end

/-- What `listDir` passes on for an entry whose handle, if it is a link, is found. -/
def plusListed : Option ListedEntry :=
  if e.name = dotDot then none
  else if e.name = dot then some ⟨e.name, true, none, .completeUDSEntry e.nameAttributes⟩
  else if e.name_attributes = true ∧ e.attributes.type = .NF3LNK then
    some ⟨e.name, false, some unknownTarget, .completeBadLinkUDSEntry e.nameAttributes⟩
  else if e.name_handle then some ⟨e.name, false, none, .completeUDSEntry e.nameAttributes⟩
  else some ⟨e.name, false, none, .completeInvalidUDSEntry⟩

section

variable {d : Directory F} {p : Paging}

lemma plusListed_names (es : List (DirEntry F)) :
    (es.filterMap plusListed).map ListedEntry.name =
      (es.map DirEntry.name).filter (· ≠ dotDot) := by
  induction es with
  | nil => rfl
  | cons e es ih =>
    rw [List.map_cons, List.filterMap_cons, List.filter_cons]
    by_cases h : e.name = dotDot
    · have hnone : plusListed e = none := by rw [plusListed, if_pos h]
      simpa [hnone, h] using ih
    · have hsome : ∃ x, plusListed e = some x ∧ x.name = e.name := by
        unfold plusListed
        rw [if_neg h]
        split_ifs <;> exact ⟨_, rfl, rfl⟩
      obtain ⟨x, hx, hname⟩ := hsome
      simp [hx, h, hname, ih]

structure Adds (i : ℕ) (es : List (DirEntry F)) (s t : Plus F) : Prop where
  listed : t.listed = s.listed ++ es.filterMap plusListed
  linkResult : t.linkResult = s.linkResult
  cookie : t.cookie = nextCookie i es s.cookie
  calls : t.calls = s.calls

variable {i : ℕ}

variable {e : DirEntry F} {es : List (DirEntry F)}

lemma plusEntry_spec (h : PlusReturns d e) (s : Plus F) :
    ∃ t, d.plusEntry i e s = some t ∧ Adds i [e] s t := by
  unfold plusEntry
  by_cases hdots : e.name = dotDot
  · refine ⟨s, if_pos hdots, ?_, rfl, ?_, rfl⟩
    · simp [plusListed, hdots]
    · simp [nextCookie, hdots]
  · rw [if_neg hdots]
    by_cases hdot : e.name = dot
    · refine ⟨_, if_pos hdot, ?_, rfl, ?_, rfl⟩
      · simp only [List.filterMap_cons, plusListed, if_neg hdots, if_pos hdot, List.filterMap_nil]
      · simp [nextCookie, hdot]
    · rw [if_neg hdot]
      have hcookie : nextCookie i [e] s.cookie = i + 1 := by simp [nextCookie, hdot, hdots]
      by_cases hlink : e.name_attributes = true ∧ e.attributes.type = .NF3LNK
      · rw [if_pos hlink, listLink_found (h hlink.1 hlink.2)]
        refine ⟨_, rfl, ?_, rfl, hcookie.symm, rfl⟩
        simp only [List.filterMap_cons, plusListed, if_neg hdots, if_neg hdot, if_pos hlink,
          List.filterMap_nil]
      · rw [if_neg hlink]
        cases hhandle : e.name_handle with
        | false =>
          have hnone : e.nameHandle = none := by simp [DirEntry.nameHandle, hhandle]
          rw [hnone]
          refine ⟨_, rfl, ?_, rfl, hcookie.symm, rfl⟩
          simp [plusListed, hdots, hdot, hlink, hhandle]
        | true =>
          have hsome : e.nameHandle = some e.object := by simp [DirEntry.nameHandle, hhandle]
          rw [hsome]
          refine ⟨_, rfl, ?_, rfl, hcookie.symm, rfl⟩
          simp [plusListed, hdots, hdot, hlink, hhandle]

lemma plusEntry_lost (he : e ∈ d.entries) (h : ¬ PlusReturns d e) (s : Plus F) :
    d.plusEntry i e s = none := by
  simp only [PlusReturns, not_forall] at h
  obtain ⟨hsent, hlink, hlost⟩ := h
  have hdots : ¬ (e.name = dot ∨ e.name = dotDot) := fun hd => d.dots e he hd hlink
  unfold plusEntry
  rw [if_neg fun hd => hdots (Or.inr hd), if_neg fun hd => hdots (Or.inl hd),
    if_pos ⟨hsent, hlink⟩, listLink_lost hlost]
  rfl

/-! ### One reply -/

lemma plusEntries_spec (h : ∀ e ∈ es, PlusReturns d e) (s : Plus F) :
    ∃ t, d.plusEntries i es s = some t ∧ Adds i es s t := by
  induction es generalizing i s with
  | nil => exact ⟨s, rfl, by simp, rfl, rfl, rfl⟩
  | cons e es ih =>
    obtain ⟨t, ht, hadds⟩ := plusEntry_spec (i := i) (h e (by simp)) s
    obtain ⟨u, hu, hrest⟩ := ih (i := i + 1) (fun e he => h e (List.mem_cons_of_mem _ he)) t
    refine ⟨u, by rw [plusEntries, ht]; exact hu, ?_, ?_, ?_, ?_⟩
    · rw [hrest.listed, hadds.listed, List.append_assoc, ← List.filterMap_append]
      rfl
    · rw [hrest.linkResult, hadds.linkResult]
    · rw [hrest.cookie, hadds.cookie]
      rfl
    · rw [hrest.calls, hadds.calls]

lemma plusEntries_lost (hes : es ⊆ d.entries) (h : ¬ ∀ e ∈ es, PlusReturns d e) (s : Plus F) :
    d.plusEntries i es s = none := by
  induction es generalizing i s with
  | nil => exact absurd (by simp) h
  | cons e es ih =>
    by_cases he : PlusReturns d e
    · obtain ⟨t, ht, -⟩ := plusEntry_spec (i := i) he s
      rw [plusEntries, ht]
      refine ih (fun x hx => hes (List.mem_cons_of_mem _ hx)) ?_ t
      intro hall
      apply h
      intro x hx
      rcases List.mem_cons.mp hx with rfl | hx
      · exact he
      · exact hall x hx
    · rw [plusEntries, plusEntry_lost (hes (by simp)) he]
      rfl

end

/-! ### How often a name is passed on -/

section

variable {d : Directory F} {p : Paging}

variable {e : DirEntry F} {calls : ℕ}

lemma count_take (he : e ∈ d.entries) (k : ℕ) :
    ((d.entries.take k).map DirEntry.name).count e.name = 1 ∧ e ∉ d.entries.drop k ∨
      ((d.entries.take k).map DirEntry.name).count e.name = 0 ∧ e ∈ d.entries.drop k := by
  have hnodup := d.nodup
  rw [← List.take_append_drop k d.entries, List.map_append] at hnodup
  rw [← List.take_append_drop k d.entries] at he
  obtain ⟨htake, -, hapart⟩ := List.nodup_append.mp hnodup
  rcases List.mem_append.mp he with h | h
  · left
    have hmem := List.mem_map_of_mem (f := DirEntry.name) h
    refine ⟨List.count_eq_one_of_mem htake hmem, fun hdrop => ?_⟩
    exact hapart _ hmem _ (List.mem_map_of_mem hdrop) rfl
  · right
    refine ⟨List.count_eq_zero.mpr fun hmem => ?_, h⟩
    exact hapart _ hmem _ (List.mem_map_of_mem h) rfl

variable {cookie : ℕ}

lemma take_readAfter {read : ℕ} (hle : cookie ≤ read) (hread : read ≤ d.entries.length) :
    d.entries.take (d.readAfter p cookie calls read) =
      d.entries.take read ++ (d.page p cookie calls).drop (read - cookie) := by
  have hlen : (d.page p cookie calls).length =
      min (p.count calls) (d.entries.length - cookie) := by
    rw [page, List.length_take, List.length_drop]
  have hnew : (d.page p cookie calls).drop (read - cookie) =
      (d.entries.drop read).take (p.count calls - (read - cookie)) := by
    rw [page, List.drop_take, List.drop_drop, Nat.add_sub_cancel' hle]
  rw [hnew, ← List.take_add, readAfter, hlen, List.take_eq_take_iff]
  omega

lemma readAfter_le {read : ℕ} (hle : cookie ≤ read) (hread : read ≤ d.entries.length) :
    d.readAfter p cookie calls read ≤ d.entries.length := by
  rw [readAfter, page, List.length_take, List.length_drop]
  omega

lemma nextCookie_le {i n : ℕ} {es : List (DirEntry F)} (hcookie : cookie ≤ n)
    (hes : i + es.length ≤ n) : nextCookie i es cookie ≤ n := by
  induction es generalizing i cookie with
  | nil => exact hcookie
  | cons e es ih =>
    rw [List.length_cons] at hes
    unfold nextCookie
    apply ih
    · split_ifs
      · exact hcookie
      · omega
    · omega

lemma mem_again {read : ℕ} (h : e ∈ (d.page p cookie calls).take (read - cookie)) :
    e ∈ d.entries.take read := by
  rw [page, List.take_take, Nat.min_comm, ← List.take_take, ← List.drop_take] at h
  exact List.mem_of_mem_drop (List.mem_of_mem_take h)

end

section

variable {d : Directory F} {p : Paging} {W : DirEntry F → Prop}

/-- Of all that is wanted, just what was read was passed on. -/
structure Passed (d : Directory F) (W : DirEntry F → Prop) (s : Plus F) (read : ℕ) : Prop where
  cookie_le : s.cookie ≤ read
  read_le : read ≤ d.entries.length
  times : ∀ e ∈ d.entries, W e → (s.listed.map ListedEntry.name).count e.name =
    ((d.entries.take read).map DirEntry.name).count e.name

variable {s : Plus F}

variable {t : Plus F} {fuel : ℕ} {res : WorkerResult}

lemma Passed.count (hW : ∀ e, W e → e.name ≠ dotDot) {read : ℕ} (hs : Passed d W s read)
    (h : Adds s.cookie (d.page p s.cookie s.calls) s t) {e : DirEntry F} (he : e ∈ d.entries)
    (hwanted : W e) :
    (t.listed.map ListedEntry.name).count e.name =
      ((d.entries.take (d.readAfter p s.cookie s.calls read)).map DirEntry.name).count e.name +
        (((d.page p s.cookie s.calls).take (read - s.cookie)).map DirEntry.name).count e.name := by
  have hpage := congrArg (fun l => (l.map DirEntry.name).count e.name)
    (List.take_append_drop (read - s.cookie) (d.page p s.cookie s.calls))
  simp only [List.map_append, List.count_append] at hpage
  have hne : decide (e.name ≠ dotDot) = true := decide_eq_true (hW e hwanted)
  rw [h.listed, List.map_append, List.count_append, plusListed_names,
    List.count_filter (p := fun x => decide (x ≠ dotDot)) hne, hs.times e he hwanted,
    take_readAfter hs.cookie_le hs.read_le, List.map_append, List.count_append]
  omega

lemma Passed.next (hW : ∀ e, W e → e.name ≠ dotDot) {read : ℕ} (hs : Passed d W s read)
    (h : Adds s.cookie (d.page p s.cookie s.calls) s t)
    (honce : ∀ e ∈ (d.page p s.cookie s.calls).take (read - s.cookie), ¬ W e) :
    Passed d W { t with calls := s.calls + 1 } (d.readAfter p s.cookie s.calls read) := by
  refine ⟨?_, readAfter_le hs.cookie_le hs.read_le, fun e he hwanted => ?_⟩
  · show t.cookie ≤ _
    rw [h.cookie]
    apply nextCookie_le
    · exact Nat.le_trans hs.cookie_le (Nat.le_max_left _ _)
    · exact Nat.le_max_right _ _
  · have hcount := hs.count hW h he hwanted
    have hzero : (((d.page p s.cookie s.calls).take (read - s.cookie)).map
        DirEntry.name).count e.name = 0 := by
      rw [List.count_eq_zero]
      intro hmem
      obtain ⟨x, hx, hname⟩ := List.mem_map.mp hmem
      have hsame : x = e := List.inj_on_of_nodup_map d.nodup
        (List.mem_of_mem_take (mem_again hx)) he hname
      exact honce x hx (hsame ▸ hwanted)
    rw [hzero, Nat.add_zero] at hcount
    exact hcount

lemma Passed.all {read : ℕ} (hs : Passed d W s read) :
    (∀ e ∈ d.entries, W e → (s.listed.map ListedEntry.name).count e.name = 1) ↔
      ∀ e ∈ d.entries.drop read, ¬ W e := by
  constructor
  · intro h e hdrop hwanted
    have he := List.mem_of_mem_drop hdrop
    have hone := h e he hwanted
    rw [hs.times e he hwanted] at hone
    rcases count_take he read with ⟨-, hnot⟩ | ⟨hzero, -⟩
    · exact hnot hdrop
    · omega
  · intro h e he hwanted
    rw [hs.times e he hwanted]
    rcases count_take he read with ⟨hone, -⟩ | ⟨-, hdrop⟩
    · exact hone
    · exact absurd hwanted (h e hdrop)

lemma plusLoop_grows {listed : List ListedEntry} (h : d.plusLoop p fuel s = some (res, listed)) :
    s.listed <+: listed := by
  induction fuel generalizing s with
  | zero => simp [plusLoop] at h
  | succ fuel ih =>
    unfold plusLoop at h
    cases hbad : badCookie p s.cookie with
    | true =>
      simp only [hbad, if_true, Option.some.injEq, Prod.mk.injEq] at h
      exact h.2 ▸ List.prefix_rfl
    | false =>
      simp only [hbad, Bool.false_eq_true, if_false] at h
      by_cases hall : ∀ e ∈ d.page p s.cookie s.calls, PlusReturns d e
      · obtain ⟨t, ht, hadds⟩ := plusEntries_spec (i := s.cookie) hall s
        have hpre : s.listed <+: t.listed := hadds.listed ▸ List.prefix_append _ _
        simp only [ht] at h
        split_ifs at h with hgoes
        · have hrest := ih h
          exact hpre.trans hrest
        · simp only [Option.some.injEq, Prod.mk.injEq] at h
          exact h.2 ▸ hpre
      · have hpage : d.page p s.cookie s.calls ⊆ d.entries :=
          fun e he => List.mem_of_mem_drop (List.mem_of_mem_take he)
        simp [plusEntries_lost hpage hall] at h

/-! ### The loop -/

lemma Served.lists (hW : ∀ e, W e → e.name ≠ dotDot) {ok : Bool} {cookie calls read : ℕ}
    (h : d.Served p W (PlusReturns d) ok cookie calls read) (hcookie : s.cookie = cookie)
    (hcalls : s.calls = calls) (hs : Passed d W s read) :
    ∃ fuel res listed, d.plusLoop p fuel s = some (res, listed) ∧ (ok = true → res = s.linkResult) ∧
      ∀ e ∈ d.entries, W e → (listed.map ListedEntry.name).count e.name = 1 := by
  induction h generalizing s with
  | refused hbad hleft =>
    subst hcookie
    exact ⟨1, _, _, by rw [plusLoop, if_pos hbad], by simp, hs.all.mpr hleft⟩
  | last hreply hends hleft =>
    subst hcookie hcalls
    obtain ⟨t, ht, hadds⟩ := plusEntries_spec (i := s.cookie) hreply.returns s
    have hall := (hs.next hW hadds hreply.once).all.mpr hleft
    refine ⟨1, t.linkResult, t.listed, ?_, fun _ => hadds.linkResult, hall⟩
    simp only [plusLoop, hreply.accepted, Bool.false_eq_true, if_false, ht, if_neg hends]
  | more hreply hends _ ih =>
    subst hcookie hcalls
    obtain ⟨t, ht, hadds⟩ := plusEntries_spec (i := s.cookie) hreply.returns s
    obtain ⟨fuel, res, listed, hloop, hres, hall⟩ :=
      ih (s := { t with calls := s.calls + 1 }) hadds.cookie rfl (hs.next hW hadds hreply.once)
    refine ⟨fuel + 1, res, listed, ?_, fun hok => (hres hok).trans hadds.linkResult, hall⟩
    simp only [plusLoop, hreply.accepted, Bool.false_eq_true, if_false, ht, if_pos hends, hloop]

lemma served_of_lists (hW : ∀ e, W e → e.name ≠ dotDot) {read : ℕ} {listed : List ListedEntry}
    (hs : Passed d W s read) (h : d.plusLoop p fuel s = some (res, listed))
    (hall : ∀ e ∈ d.entries, W e → (listed.map ListedEntry.name).count e.name = 1) :
    ∃ ok, d.Served p W (PlusReturns d) ok s.cookie s.calls read := by
  induction fuel generalizing s read with
  | zero => simp [plusLoop] at h
  | succ fuel ih =>
    have hpage : d.page p s.cookie s.calls ⊆ d.entries :=
      fun e he => List.mem_of_mem_drop (List.mem_of_mem_take he)
    have hgrows := plusLoop_grows h
    unfold plusLoop at h
    cases hbad : badCookie p s.cookie with
    | true =>
      simp only [hbad, if_true, Option.some.injEq, Prod.mk.injEq] at h
      exact ⟨false, .refused hbad (hs.all.mp (h.2 ▸ hall))⟩
    | false =>
      simp only [hbad, Bool.false_eq_true, if_false] at h
      by_cases hreturns : ∀ e ∈ d.page p s.cookie s.calls, PlusReturns d e
      · obtain ⟨t, ht, hadds⟩ := plusEntries_spec (i := s.cookie) hreturns s
        simp only [ht] at h
        have hlisted : t.listed <+: listed := by
          split_ifs at h
          · have hrest := plusLoop_grows h
            exact hrest
          · simp only [Option.some.injEq, Prod.mk.injEq] at h
            exact h.2 ▸ List.prefix_rfl
        -- an entry that is sent again is passed on a second time
        have honce : ∀ e ∈ (d.page p s.cookie s.calls).take (read - s.cookie), ¬ W e := by
          intro e he hwanted
          have hentry := hpage (List.mem_of_mem_take he)
          have hcount := hs.count hW hadds hentry hwanted
          have hagain := List.count_pos_iff.mpr (List.mem_map_of_mem (f := DirEntry.name) he)
          have hone := hall e hentry hwanted
          have hle := (hlisted.map ListedEntry.name).sublist.count_le e.name
          rw [take_readAfter hs.cookie_le hs.read_le, List.map_append, List.count_append] at hcount
          have hread := List.count_pos_iff.mpr
            (List.mem_map_of_mem (f := DirEntry.name) (mem_again he))
          omega
        have hnext := hs.next hW hadds honce
        split_ifs at h with hgoes
        · obtain ⟨ok, hserved⟩ := ih hnext h
          have hcookie : ({ t with calls := s.calls + 1 } : Plus F).cookie = _ := hadds.cookie
          rw [hcookie] at hserved
          exact ⟨ok, .more ⟨hbad, hreturns, honce⟩ hgoes hserved⟩
        · simp only [Option.some.injEq, Prod.mk.injEq] at h
          exact ⟨true, .last ⟨hbad, hreturns, honce⟩ hgoes (hnext.all.mp (h.2 ▸ hall))⟩
      · simp [plusEntries_lost hpage hreturns] at h

end

/-! ### The compatible listing -/

/-- The replies to READDIR, up to the one with the end of the directory or, if the flag is false, to
one that refuses the cookie. -/
inductive Sent (d : Directory F) (p : Paging) : Bool → (cookie calls : ℕ) → Prop
  | refused {cookie calls} (h : badCookie p cookie = true) : Sent d p false cookie calls
  | last {cookie calls} (h : badCookie p cookie = false) (heof : d.eof p cookie calls = true) :
      Sent d p true cookie calls
  | more {ok cookie calls} (h : badCookie p cookie = false) (heof : d.eof p cookie calls = false)
      (hrest : Sent d p ok (cookie + (d.page p cookie calls).length) (calls + 1)) :
      Sent d p ok cookie calls

/-- An entry that `listDirCompat` does not stop at. -/
def CompatReturns (d : Directory F) (e : DirEntry F) : Prop :=
  ∃ found, (d.calls e.name).lookupHandle (d.filePath e.name) = some found ∧
    (found ≠ none → e.obj_attributes = true → e.attributes.type = .NF3LNK → d.HandleFound e)

/-- What it passes on for such an entry. -/
def compatListed (d : Directory F) (e : DirEntry F) : Option ListedEntry :=
  match (d.calls e.name).lookupHandle (d.filePath e.name) with
  | some (some _) =>
    if e.obj_attributes = true ∧ e.attributes.type = .NF3LNK then
      some ⟨e.name, false, some unknownTarget, .completeBadLinkUDSEntry e.objAttributes⟩
    else some ⟨e.name, false, none, .completeUDSEntry e.objAttributes⟩
  | _ => none

/-- When `listDirCompat` passes on what is wanted. -/
def CompatServed (d : Directory F) (p : Paging) : Prop :=
  Sent d p true 0 0 ∧ (∀ e ∈ d.entries, e.name ≠ dotDot → CompatReturns d e) ∨
    Sent d p false 0 0 ∧ ∀ e ∈ d.entries, ¬ d.Wanted e

/-- When `listDir` does. -/
def PlusServed (d : Directory F) (p : Paging) : Prop :=
  ∃ ok, d.Served p d.Wanted (PlusReturns d) ok 0 0 0

def ListServed (d : Directory F) (p : Paging) : Prop :=
  if d.usedirplus3 && p.readdirplus then PlusServed d p else CompatServed d p

section

variable {d : Directory F} {p : Paging}

variable {e : DirEntry F} {es : List (DirEntry F)} {calls cookie fuel : ℕ}

lemma compatListed_name {x : ListedEntry} (h : d.compatListed e = some x) : x.name = e.name := by
  unfold compatListed at h
  split at h
  · split_ifs at h <;> (obtain rfl := Option.some.inj h; rfl)
  · cases h

lemma compatListed_isSome : (∃ x, d.compatListed e = some x) ↔ d.Found e := by
  unfold compatListed Found
  cases h : (d.calls e.name).lookupHandle (d.filePath e.name) with
  | none => simp
  | some found =>
    cases found with
    | none => simp
    | some object => by_cases hlink : e.obj_attributes = true ∧ e.attributes.type = .NF3LNK <;>
        simp [hlink]

lemma compatEntry_spec (h : CompatReturns d e) (s : Listed F) :
    ∃ t, d.compatEntry e s = some t ∧ t.listed = s.listed ++ (d.compatListed e).toList ∧
      t.linkResult = s.linkResult := by
  obtain ⟨found, hfound, hlink⟩ := h
  unfold compatEntry compatListed
  rw [hfound]
  cases found with
  | none => exact ⟨s, rfl, by simp, rfl⟩
  | some object =>
    by_cases h : e.obj_attributes = true ∧ e.attributes.type = .NF3LNK
    · simp only [if_pos h, listLink_found (hlink (by simp) h.1 h.2)]
      exact ⟨_, rfl, rfl, rfl⟩
    · simp only [if_neg h]
      exact ⟨_, rfl, rfl, rfl⟩

lemma compatEntry_lost (h : ¬ CompatReturns d e) (s : Listed F) : d.compatEntry e s = none := by
  unfold compatEntry
  cases hfound : (d.calls e.name).lookupHandle (d.filePath e.name) with
  | none => rfl
  | some found =>
    have hlost : ¬ (found ≠ none → e.obj_attributes = true → e.attributes.type = .NF3LNK →
        d.HandleFound e) := fun hall => h ⟨found, hfound, hall⟩
    simp only [not_forall] at hlost
    obtain ⟨hsome, hsent, hlink, hlost⟩ := hlost
    cases found with
    | none => exact absurd rfl hsome
    | some object => simp only [if_pos (And.intro hsent hlink), listLink_lost hlost]

lemma compatEntries_spec (h : ∀ e ∈ es, CompatReturns d e) (s : Listed F) :
    ∃ t, d.compatEntries es s = some t ∧
      t.listed = s.listed ++ es.filterMap d.compatListed ∧ t.linkResult = s.linkResult := by
  induction es generalizing s with
  | nil => exact ⟨s, rfl, by simp, rfl⟩
  | cons e es ih =>
    obtain ⟨t, ht, hlisted, hres⟩ := compatEntry_spec (h e (by simp)) s
    obtain ⟨u, hu, hlisted', hres'⟩ := ih (fun x hx => h x (List.mem_cons_of_mem _ hx)) t
    refine ⟨u, by rw [compatEntries, ht]; exact hu, ?_, hres'.trans hres⟩
    rw [hlisted', hlisted, List.append_assoc]
    cases hx : d.compatListed e <;> simp [hx]

lemma compatEntries_lost (h : ¬ ∀ e ∈ es, CompatReturns d e) (s : Listed F) :
    d.compatEntries es s = none := by
  induction es generalizing s with
  | nil => exact absurd (by simp) h
  | cons e es ih =>
    by_cases he : CompatReturns d e
    · obtain ⟨t, ht, -⟩ := compatEntry_spec he s
      rw [compatEntries, ht]
      apply ih
      intro hall
      apply h
      intro x hx
      rcases List.mem_cons.mp hx with rfl | hx
      · exact he
      · exact hall x hx
    · rw [compatEntries, compatEntry_lost he]
      rfl

def filesFrom (d : Directory F) (cookie : ℕ) : List (DirEntry F) :=
  (d.entries.drop cookie).filter fun e => e.name ≠ dotDot

lemma take_append_drop_length {α : Type*} (l : List α) (n : ℕ) :
    l.take n ++ l.drop (l.take n).length = l := by
  have hdrop : l.drop (l.take n).length = l.drop n := by
    rw [List.length_take]
    rcases Nat.le_total n l.length with h | h
    · rw [Nat.min_eq_left h]
    · rw [Nat.min_eq_right h, List.drop_length, List.drop_eq_nil_of_le h]
  rw [hdrop, List.take_append_drop]

lemma filesFrom_page (cookie calls : ℕ) :
    (d.page p cookie calls).filter (fun e => e.name ≠ dotDot) ++
      d.filesFrom (cookie + (d.page p cookie calls).length) = d.filesFrom cookie := by
  rw [filesFrom, filesFrom, ← List.filter_append, ← List.drop_drop, page,
    take_append_drop_length]

lemma page_of_eof (h : d.eof p cookie calls = true) :
    d.page p cookie calls = d.entries.drop cookie := by
  rw [eof, Bool.and_eq_true, decide_eq_true_eq] at h
  apply List.take_of_length_le
  rw [List.length_drop]
  omega

/-- What the loop gives for the replies. -/
def sentFiles (d : Directory F) (cookie : ℕ) (files : List (DirEntry F)) :
    Bool → Except WorkerResult (List (DirEntry F))
  | true => .ok (files ++ d.filesFrom cookie)
  | false => .error d.badCookieResult

lemma sentFiles_page (cookie calls : ℕ) (files : List (DirEntry F)) (ok : Bool) :
    d.sentFiles (cookie + (d.page p cookie calls).length)
      (files ++ (d.page p cookie calls).filter fun e => e.name ≠ dotDot) ok =
        d.sentFiles cookie files ok := by
  cases ok with
  | false => rfl
  | true => simp only [sentFiles, List.append_assoc, filesFrom_page]

lemma Sent.loop {ok : Bool} (h : Sent d p ok cookie calls) (files : List (DirEntry F)) :
    ∃ fuel, d.compatLoop p fuel cookie calls files = some (sentFiles d cookie files ok) := by
  induction h generalizing files with
  | refused h => exact ⟨1, by rw [compatLoop, if_pos h]; rfl⟩
  | last h heof =>
    refine ⟨1, ?_⟩
    simp only [compatLoop, h, heof, Bool.false_eq_true, if_false, if_true, page_of_eof heof]
    rfl
  | @more ok cookie calls h heof _ ih =>
    obtain ⟨fuel, hloop⟩ := ih (files ++ (d.page p cookie calls).filter fun e => e.name ≠ dotDot)
    refine ⟨fuel + 1, ?_⟩
    simp only [compatLoop, h, heof, Bool.false_eq_true, if_false, hloop, sentFiles_page]

lemma sent_of_loop {files : List (DirEntry F)} {out : Except WorkerResult (List (DirEntry F))}
    (h : d.compatLoop p fuel cookie calls files = some out) :
    ∃ ok, Sent d p ok cookie calls ∧ out = sentFiles d cookie files ok := by
  induction fuel generalizing cookie calls files with
  | zero => simp [compatLoop] at h
  | succ fuel ih =>
    unfold compatLoop at h
    cases hbad : badCookie p cookie with
    | true =>
      simp only [hbad, if_true, Option.some.injEq] at h
      exact ⟨false, .refused hbad, h.symm⟩
    | false =>
      cases heof : d.eof p cookie calls with
      | true =>
        simp only [hbad, heof, Bool.false_eq_true, if_false, if_true, Option.some.injEq,
          page_of_eof heof] at h
        exact ⟨true, .last hbad heof, h.symm⟩
      | false =>
        simp only [hbad, heof, Bool.false_eq_true, if_false] at h
        obtain ⟨ok, hsent, hout⟩ := ih h
        exact ⟨ok, .more hbad heof hsent, hout.trans (sentFiles_page _ _ _ _)⟩

lemma listDirCompat_eq (hopen : d.refusal = none) (m : HandleCache F) (fuel : ℕ) :
    d.listDirCompat p m fuel =
      match d.compatLoop p fuel 0 0 [] with
      | none => none
      | some (.error res) => some (res, [])
      | some (.ok files) =>
        match d.compatEntries files ⟨[], .pass, m⟩ with
        | none => none
        | some s => some (s.linkResult, s.listed) := by
  unfold listDirCompat
  simp only [d.notVirtual, hopen, Bool.false_eq_true, if_false]

lemma listDirCompat_cases (hopen : d.refusal = none) {m : HandleCache F} {res : WorkerResult}
    {listed : List ListedEntry} (h : d.listDirCompat p m fuel = some (res, listed)) :
    (Sent d p true 0 0 ∧ (∀ e ∈ d.entries, e.name ≠ dotDot → CompatReturns d e) ∧ res = .pass ∧
        listed = (d.filesFrom 0).filterMap d.compatListed) ∨
      (Sent d p false 0 0 ∧ listed = []) := by
  rw [listDirCompat_eq hopen] at h
  cases hloop : d.compatLoop p fuel 0 0 [] with
  | none => simp [hloop] at h
  | some out =>
    obtain ⟨ok, hsent, hout⟩ := sent_of_loop hloop
    cases ok with
    | false =>
      simp only [hloop, hout, sentFiles, Option.some.injEq, Prod.mk.injEq] at h
      exact Or.inr ⟨hsent, h.2.symm⟩
    | true =>
      simp only [hloop, hout, sentFiles, List.nil_append] at h
      by_cases hall : ∀ e ∈ d.filesFrom 0, CompatReturns d e
      · obtain ⟨t, ht, hlisted, hres⟩ := compatEntries_spec hall ⟨[], .pass, m⟩
        simp only [ht, Option.some.injEq, Prod.mk.injEq] at h
        refine Or.inl ⟨hsent, fun e he hne => hall e ?_, h.1.symm.trans hres, ?_⟩
        · exact List.mem_filter.mpr ⟨he, decide_eq_true hne⟩
        · rw [← h.2, hlisted, List.nil_append]
      · simp [compatEntries_lost hall] at h

lemma listDirCompat_ok (hopen : d.refusal = none) (hsent : Sent d p true 0 0)
    (hall : ∀ e ∈ d.entries, e.name ≠ dotDot → CompatReturns d e) (m : HandleCache F) :
    ∃ fuel, d.listDirCompat p m fuel = some (.pass, (d.filesFrom 0).filterMap d.compatListed) := by
  obtain ⟨fuel, hloop⟩ := hsent.loop []
  have hfiles : ∀ e ∈ d.filesFrom 0, CompatReturns d e := by
    intro e he
    obtain ⟨hmem, hne⟩ := List.mem_filter.mp he
    exact hall e hmem (of_decide_eq_true hne)
  obtain ⟨t, ht, hlisted, hres⟩ := compatEntries_spec hfiles ⟨[], .pass, m⟩
  refine ⟨fuel, ?_⟩
  simp only [listDirCompat_eq hopen, hloop, sentFiles, List.nil_append, ht]
  rw [hlisted, hres]
  rfl

lemma compat_count (he : e ∈ d.entries) (hwanted : d.Wanted e) :
    (((d.filesFrom 0).filterMap d.compatListed).map ListedEntry.name).count e.name = 1 := by
  have hsub : (((d.filesFrom 0).filterMap d.compatListed).map ListedEntry.name).Sublist
      (d.entries.map DirEntry.name) := by
    have hfilter : (d.filesFrom 0).Sublist d.entries := List.filter_sublist
    refine List.Sublist.trans ?_ (hfilter.map DirEntry.name)
    generalize d.filesFrom 0 = es
    induction es with
    | nil => exact List.Sublist.refl _
    | cons x es ih =>
      cases hx : d.compatListed x with
      | none =>
        rw [List.filterMap_cons_none hx, List.map_cons]
        exact ih.cons _
      | some y =>
        rw [List.filterMap_cons_some hx, List.map_cons, List.map_cons, compatListed_name hx]
        exact ih.cons_cons _
  obtain ⟨x, hx⟩ := compatListed_isSome.mpr hwanted.2
  apply List.count_eq_one_of_mem (hsub.nodup d.nodup)
  rw [← compatListed_name hx]
  apply List.mem_map_of_mem
  apply List.mem_filterMap.mpr
  exact ⟨e, List.mem_filter.mpr ⟨he, decide_eq_true hwanted.1⟩, hx⟩

lemma compat_lists_iff (hopen : d.refusal = none) (m : HandleCache F) :
    d.Lists (d.listDirCompat p m) ↔ CompatServed d p := by
  constructor
  · rintro ⟨fuel, res, listed, hrun, hall⟩
    rcases listDirCompat_cases hopen hrun with ⟨hsent, hreturns, -, -⟩ | ⟨hsent, rfl⟩
    · exact Or.inl ⟨hsent, hreturns⟩
    · refine Or.inr ⟨hsent, fun e he hwanted => ?_⟩
      have := hall e he hwanted
      simp at this
  · rintro (⟨hsent, hreturns⟩ | ⟨hsent, hnone⟩)
    · obtain ⟨fuel, hrun⟩ := listDirCompat_ok hopen hsent hreturns m
      exact ⟨fuel, _, _, hrun, fun e he hwanted => compat_count he hwanted⟩
    · obtain ⟨fuel, hloop⟩ := hsent.loop []
      refine ⟨fuel, d.badCookieResult, [], ?_, fun e he hwanted => absurd hwanted (hnone e he)⟩
      simp only [listDirCompat_eq hopen, hloop, sentFiles]

/-! ### The two together -/

lemma listDir_plus (hopen : d.refusal = none) (hplus : (d.usedirplus3 && p.readdirplus) = true)
    (m : HandleCache F) (fuel : ℕ) :
    d.listDir p m fuel = d.plusLoop p fuel ⟨⟨[], .pass, m⟩, 0, 0⟩ := by
  unfold listDir
  rw [Bool.and_eq_true] at hplus
  simp [hopen, hplus.1, hplus.2]

lemma listDir_compat (hopen : d.refusal = none) (hplus : (d.usedirplus3 && p.readdirplus) = false)
    (m : HandleCache F) : d.listDir p m = d.listDirCompat p m := by
  funext fuel
  unfold listDir
  rw [hopen, ← Bool.not_and, hplus]
  rfl

lemma start_passed (W : DirEntry F → Prop) (m : HandleCache F) :
    Passed d W ⟨⟨[], .pass, m⟩, 0, 0⟩ 0 :=
  ⟨Nat.le_refl _, Nat.zero_le _, fun _ _ _ => by simp⟩

lemma plus_lists_iff (hopen : d.refusal = none)
    (hplus : (d.usedirplus3 && p.readdirplus) = true) (m : HandleCache F) :
    d.Lists (d.listDir p m) ↔ PlusServed d p := by
  have hW : ∀ e, d.Wanted e → e.name ≠ dotDot := fun _ h => h.1
  constructor
  · rintro ⟨fuel, res, listed, hrun, hall⟩
    rw [listDir_plus hopen hplus] at hrun
    exact served_of_lists hW (start_passed _ m) hrun hall
  · rintro ⟨ok, hserved⟩
    obtain ⟨fuel, res, listed, hloop, -, hall⟩ := hserved.lists hW rfl rfl (start_passed _ m)
    exact ⟨fuel, res, listed, by rw [listDir_plus hopen hplus]; exact hloop, hall⟩

/-- Where there is neither `.` nor `..`, the verifier is not used and no reply is empty before the
end, all is brought, whatever the sizes of the replies. -/
theorem served_without_dots {W R : DirEntry F → Prop}
    (hdots : ∀ e ∈ d.entries, e.name ≠ dot ∧ e.name ≠ dotDot) (hverf : p.cookieverf = 0)
    (hcount : ∀ n, p.count n ≠ 0) (hR : ∀ e ∈ d.entries, R e) : d.Served p W R true 0 0 0 := by
  -- every entry that is sent is remembered
  have hnext : ∀ es ⊆ d.entries, ∀ i, nextCookie i es i = i + es.length := by
    intro es
    induction es with
    | nil => intro _ i; rfl
    | cons e es ih =>
      intro hes i
      obtain ⟨hdot, hdotDot⟩ := hdots e (hes (by simp))
      have hrest := ih (fun x hx => hes (List.mem_cons_of_mem _ hx)) (i + 1)
      rw [nextCookie, if_neg (by simp [hdot, hdotDot]), hrest, List.length_cons]
      omega
  have hall : ∀ left cookie calls, d.entries.length - cookie = left →
      d.Served p W R true cookie calls cookie := by
    intro left
    induction left using Nat.strongRecOn with
    | ind left ih =>
      intro cookie calls hleft
      have hpage : d.page p cookie calls ⊆ d.entries :=
        fun e he => List.mem_of_mem_drop (List.mem_of_mem_take he)
      have hlen : (d.page p cookie calls).length =
          min (p.count calls) (d.entries.length - cookie) := by
        rw [page, List.length_take, List.length_drop]
      have hafter : d.readAfter p cookie calls cookie = cookie + (d.page p cookie calls).length :=
        Nat.max_eq_right (Nat.le_add_right _ _)
      have hpos := hcount calls
      have hreply : d.ReplyOk p W R cookie calls cookie := by
        refine ⟨by simp [badCookie, hverf], fun e he => hR e (hpage he), ?_⟩
        rw [Nat.sub_self, List.take_zero]
        simp
      by_cases hgoes : d.page p cookie calls ≠ [] ∧ d.eof p cookie calls = false
      · have hsome := List.length_pos_iff.mpr hgoes.1
        refine .more hreply hgoes ?_
        rw [hnext _ hpage, hafter]
        exact ih _ (by omega) _ _ rfl
      · refine .last hreply hgoes ?_
        have hend : d.entries.length ≤ d.readAfter p cookie calls cookie := by
          rw [hafter, hlen]
          rw [not_and_or, not_not] at hgoes
          rcases hgoes with hnil | heof
          · rw [hnil, List.length_nil] at hlen
            omega
          · rw [Bool.not_eq_false, eof, Bool.and_eq_true, decide_eq_true_eq] at heof
            omega
        rw [List.drop_eq_nil_of_le hend]
        simp
  exact hall _ 0 0 rfl

end

/-! ### Directories that are not listed -/

/-- A regular file, or a directory, with all that a reply can have. -/
def sentEntry (name : Text) (type : ftype3) : DirEntry ℕ :=
  ⟨name, 1, ⟨type, 0, 0, 0, 0, 0, 0⟩, true, true, true⟩

def smallCalls : EntryCalls ℕ where
  getFileHandle _ := some (.handle (.ofFH 1))
  lookupHandle _ := some (some 1)
  getAttr _ := some none

lemma export_notVirtual : isExportedDir ["/e".toList] "/e".toList = false := by decide

def withDots : Directory ℕ where
  path := "/e".toList
  m_exportedDirs := ["/e".toList]
  notVirtual := export_notVirtual
  dirFH := .handle (.ofFH 1)
  usedirplus3 := true
  entries := [sentEntry dot .NF3DIR, sentEntry dotDot .NF3DIR, sentEntry ['a'] .NF3REG]
  nodup := by decide
  dots := by decide
  calls _ := smallCalls
  READLINK _ := none

/-- Two entries a reply. -/
def inPairs (cookieverf : ℕ) : Paging := ⟨true, cookieverf, fun _ => 2, fun _ => true⟩

end Directory

end KioExtras.Nfs
