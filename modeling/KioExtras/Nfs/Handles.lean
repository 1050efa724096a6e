import KioExtras.Nfs.Exports
import KioExtras.Nfs.Transfer
import Mathlib.Logic.Function.Basic

/-!
How a path is looked up on the server: its parent first and, for a link, the parent of its target,
with the handles kept that were found on the way.
-/

namespace KioExtras.Nfs

open KioExtras.Kio

/-! ### Paths -/

/-- What comes before the last separator. -/
def QFileInfo.path (file : Text) : Text :=
  match file.reverse.dropWhile (· ≠ '/') with
  | [] => ['.']
  | [_] => ['/']
  | _ :: rest => rest.reverse

def QFileInfo.fileName (file : Text) : Text := (file.reverse.takeWhile (· ≠ '/')).reverse

/-- The segments of a path, without the empty ones and the `.`. -/
def segments (path : Text) : List Text :=
  (path.foldr (fun c segs =>
      if c = '/' then [] :: segs
      else match segs with
        | [] => [[c]]
        | s :: segs => (c :: s) :: segs) [[]]).filter fun s => s ≠ [] ∧ s ≠ ['.']

/-- A `..` removes the segment before it, and stays where there is none. -/
def resolveUp (segs : List Text) : List Text :=
  (segs.foldl (fun stack s =>
      if s = ['.', '.'] then
        match stack with
        | [] => [s]
        | top :: rest => if top = ['.', '.'] then s :: stack else rest
      else s :: stack) []).reverse

def QDir.cleanPath (path : Text) : Text :=
  if resolveUp (segments path) = [] then ['/']
  else (resolveUp (segments path)).flatMap fun s => '/' :: s

/-- `QDir` leaves a separator at the end of its path away. -/
def QDir.filePath (dir file : Text) : Text :=
  let dir := if dir.getLast? = some '/' ∧ 1 < dir.length then dir.dropLast else dir
  if file.head? = some '/' then file
  else if file = [] then dir
  else if dir.getLast? = some '/' then dir ++ file
  else dir ++ '/' :: file

/-- `QFileInfo(dir, file).absoluteFilePath()`, for an absolute `dir`: it is cleaned, but keeps a
separator at its end. -/
def QFileInfo.absoluteFilePath (dir file : Text) : Text :=
  let path := QDir.filePath dir file
  if path = ['/'] then path
  else QDir.cleanPath path ++ if path.getLast? = some '/' then ['/'] else []

example : QFileInfo.absoluteFilePath "/e/a".toList "../b/./c//d/".toList = "/e/b/c/d/".toList := by
  decide

/-! ### Looking up a path -/

/-- The connection and what the server behind it has. The answer to a LOOKUP says whether the
object is a link. -/
structure Connection (F : Type) where
  isConnected : Bool
  m_exportedDirs : List Text
  LOOKUP : F → Text → Option (F × Bool)
  READLINK : F → Option Text

abbrev HandleCache (F : Type) := Text → Option (NFSFileHandle F)

variable {F : Type}

def addFileHandle (m_handleCache : HandleCache F) (path : Text) (fh : NFSFileHandle F) :
    HandleCache F :=
  if fh.isInvalid then m_handleCache else Function.update m_handleCache path (some fh)

/-- What a call gives that returns: the cache after it, and its result. -/
abbrev Returns (F α : Type) := Option (HandleCache F × α)

namespace Connection

variable (c : Connection F)

/-- What `getFileHandle` answers without asking the server. -/
def known (m_handleCache : HandleCache F) (path : Text) : Option (MaybeNFSFileHandle F) :=
  if !c.isConnected then some (.fails .ERR_CONNECTION_BROKEN "")
  else if c.m_exportedDirs.contains path ∧ m_handleCache path = none then
    some (.fails .ERR_CANNOT_MOUNT (String.ofList path))
  else if !isValidPath c.m_exportedDirs path then
    some (.fails .ERR_CANNOT_ENTER_DIRECTORY (String.ofList path))
  else match m_handleCache path with
    | some fh => some (.handle fh)
    | none =>
      -- loop detected
      if QFileInfo.path path = path then
        some (.fails .ERR_CANNOT_ENTER_DIRECTORY (String.ofList path))
      else none

/-- The LOOKUP of a name in a directory, if its handle was found. -/
def lookupIn (parentFH : MaybeNFSFileHandle F) (name : Text) : Option (F × Bool) :=
  match parentFH with
  | .fails _ _ => none
  | .handle fh => fh.m_handle.bind fun dir => c.LOOKUP dir name

/-- The absolute target of a link, if it can be read and is not outside the exports. -/
def linkPath (path : Text) (object : F) : Option Text :=
  ((c.READLINK object).map (QFileInfo.absoluteFilePath (QFileInfo.path path))).filter
    (isValidPath c.m_exportedDirs)

section

variable (getFileHandle : HandleCache F → Text → Returns F (MaybeNFSFileHandle F))

def lookupHandle (m : HandleCache F) (path : Text) : Returns F (Option (F × Bool)) :=
  if !c.isConnected then some (m, none)
  else match getFileHandle m (QFileInfo.path path) with
    | none => none
    | some (m, parentFH) => some (m, c.lookupIn parentFH (QFileInfo.fileName path))

def lookupFileHandle (m : HandleCache F) (path : Text) : Returns F (Option (NFSFileHandle F)) :=
  match c.lookupHandle getFileHandle m path with
  | none => none
  | some (m, none) => some (m, none)
  | some (m, some (object, false)) => some (m, some (.ofFH object))
  | some (m, some (object, true)) =>
    match c.linkPath path object with
    | none => some (m, some (NFSFileHandle.ofFH object).setBadLink)
    | some linkPath =>
      match c.lookupHandle getFileHandle m linkPath with
      | none => none
      | some (m, none) => some (m, some (NFSFileHandle.ofFH object).setBadLink)
      | some (m, some (target, _)) =>
        some (m, some ((NFSFileHandle.ofFH target).setLinkSource object))

end

/-- With calls nested at most `fuel` deep. -/
def getFileHandle : ℕ → HandleCache F → Text → Returns F (MaybeNFSFileHandle F)
  | 0, _, _ => none
  | fuel + 1, m, path =>
    match c.known m path with
    | some res => some (m, res)
    | none =>
      match c.lookupFileHandle (getFileHandle fuel) m path with
      | none => none
      | some (m, none) => some (m, .fails .ERR_DOES_NOT_EXIST (String.ofList path))
      | some (m, some childFH) => some (addFileHandle m path childFH, .handle childFH)

/-! ### What a path leads to, and what it asks for -/

def linkHandle (object : F) : Option (F × Bool) → NFSFileHandle F
  | none => (NFSFileHandle.ofFH object).setBadLink
  | some (target, _) => (NFSFileHandle.ofFH target).setLinkSource object

/-- What the server and the handles in the cache say of a path. -/
inductive Gives (m : HandleCache F) : Text → MaybeNFSFileHandle F → Prop
  | known {path res} (h : c.known m path = some res) : Gives m path res
  | absent {path parentFH} (h : c.known m path = none)
      (hparent : Gives m (QFileInfo.path path) parentFH)
      (hlookup : c.lookupIn parentFH (QFileInfo.fileName path) = none) :
      Gives m path (.fails .ERR_DOES_NOT_EXIST (String.ofList path))
  | file {path parentFH object} (h : c.known m path = none)
      (hparent : Gives m (QFileInfo.path path) parentFH)
      (hlookup : c.lookupIn parentFH (QFileInfo.fileName path) = some (object, false)) :
      Gives m path (.handle (.ofFH object))
  | badLink {path parentFH object} (h : c.known m path = none)
      (hparent : Gives m (QFileInfo.path path) parentFH)
      (hlookup : c.lookupIn parentFH (QFileInfo.fileName path) = some (object, true))
      (hlink : c.linkPath path object = none) :
      Gives m path (.handle (NFSFileHandle.ofFH object).setBadLink)
  | link {path parentFH object linkPath targetFH} (h : c.known m path = none)
      (hparent : Gives m (QFileInfo.path path) parentFH)
      (hlookup : c.lookupIn parentFH (QFileInfo.fileName path) = some (object, true))
      (hlink : c.linkPath path object = some linkPath)
      (htarget : Gives m (QFileInfo.path linkPath) targetFH) :
      Gives m path (.handle (linkHandle object
        (c.lookupIn targetFH (QFileInfo.fileName linkPath))))

/-- The paths whose handles are asked for when a path is looked up: its parent and, if there is a
link, the parent of the target. -/
inductive Asks (m : HandleCache F) : Text → Text → Prop
  | parent (path) : Asks m (QFileInfo.path path) path
  | target {path parentFH object linkPath} (hparent : c.Gives m (QFileInfo.path path) parentFH)
      (hlookup : c.lookupIn parentFH (QFileInfo.fileName path) = some (object, true))
      (hlink : c.linkPath path object = some linkPath) : Asks m (QFileInfo.path linkPath) path

/-- The second path is looked up, and asks for the first one. -/
def Needs (m : HandleCache F) (asked path : Text) : Prop :=
  c.known m path = none ∧ c.Asks m asked path

/-! ### The answers are determined -/

section

variable {c : Connection F} {m n : HandleCache F}

variable {res res' : MaybeNFSFileHandle F}

lemma Gives.known_eq {path : Text} (hg : c.Gives m path res) (h : c.known m path = some res') :
    res = res' := by
  cases hg with
  | known h' => exact Option.some.inj (h'.symm.trans h)
  | absent h' | file h' | badLink h' | link h' => simp [h] at h'

theorem Gives.unique {path : Text} (hg : c.Gives m path res) (hg' : c.Gives m path res') :
    res = res' := by
  induction hg generalizing res' with
  | known h => exact (hg'.known_eq h).symm
  | absent h _ hlookup ih =>
    cases hg' with
    | known h' => simp [h] at h'
    | absent => rfl
    | file _ hparent' hlookup' | badLink _ hparent' hlookup' | link _ hparent' hlookup' =>
      obtain rfl := ih hparent'
      simp [hlookup] at hlookup'
  | file h _ hlookup ih =>
    cases hg' with
    | known h' => simp [h] at h'
    | absent _ hparent' hlookup' | badLink _ hparent' hlookup' | link _ hparent' hlookup' =>
      obtain rfl := ih hparent'
      simp [hlookup] at hlookup'
    | file _ hparent' hlookup' =>
      obtain rfl := ih hparent'
      simp_all
  | badLink h _ hlookup hlink ih =>
    cases hg' with
    | known h' => simp [h] at h'
    | absent _ hparent' hlookup' | file _ hparent' hlookup' =>
      obtain rfl := ih hparent'
      simp [hlookup] at hlookup'
    | badLink _ hparent' hlookup' =>
      obtain rfl := ih hparent'
      simp_all
    | link _ hparent' hlookup' hlink' =>
      obtain rfl := ih hparent'
      simp_all
  | link h _ hlookup hlink _ ih ihtarget =>
    cases hg' with
    | known h' => simp [h] at h'
    | absent _ hparent' hlookup' | file _ hparent' hlookup' =>
      obtain rfl := ih hparent'
      simp [hlookup] at hlookup'
    | badLink _ hparent' hlookup' hlink' =>
      obtain rfl := ih hparent'
      simp_all
    | link _ hparent' hlookup' hlink' htarget' =>
      obtain rfl := ih hparent'
      obtain ⟨rfl, -⟩ : _ ∧ True := by simpa [hlookup] using hlookup'
      obtain rfl := Option.some.inj (hlink.symm.trans hlink')
      rw [ihtarget htarget']

end

end Connection

/-! ### The handles that are kept -/

/-- What a cache is after some lookups: it has more handles, each of which its path leads to. -/
structure Extends (c : Connection F) (m n : HandleCache F) : Prop where
  old : ∀ path fh, m path = some fh → n path = some fh
  new : ∀ path fh, n path = some fh →
    m path = some fh ∨ c.known m path = none ∧ c.Gives m path (.handle fh) ∧ Acc (c.Needs m) path

section

variable {c : Connection F} {m n : HandleCache F}

lemma Extends.refl : Extends c m m := ⟨fun _ _ h => h, fun _ _ h => Or.inl h⟩

variable {res : MaybeNFSFileHandle F}

lemma acc_of_known {path : Text} (h : c.known m path = some res) : Acc (c.Needs m) path :=
  Acc.intro _ fun _ hneeds => by simp [hneeds.1] at h

lemma known_none_iff {path : Text} :
    c.known m path = none ↔ c.isConnected = true ∧ c.m_exportedDirs.contains path = false ∧
      isValidPath c.m_exportedDirs path = true ∧ m path = none ∧ QFileInfo.path path ≠ path := by
  unfold Connection.known
  cases hm : m path with
  | none => split_ifs <;> simp_all
  | some fh => split_ifs <;> simp_all

lemma Extends.known_none (h : Extends c m n) {path : Text} (hn : c.known n path = none) :
    c.known m path = none := by
  rw [known_none_iff] at hn ⊢
  obtain ⟨hconn, hexp, hvalid, hnone, hloop⟩ := hn
  refine ⟨hconn, hexp, hvalid, ?_, hloop⟩
  by_contra hsome
  obtain ⟨fh, hfh⟩ := Option.ne_none_iff_exists'.mp hsome
  rw [h.old path fh hfh] at hnone
  cases hnone

lemma Extends.gives (h : Extends c m n) {path : Text} (hn : c.known n path = some res) :
    c.Gives m path res ∧ Acc (c.Needs m) path := by
  cases hm : c.known m path with
  | some res' =>
    refine ⟨?_, acc_of_known hm⟩
    have heq : res' = res := by
      cases hmp : m path with
      | some fh =>
        have hnp := h.old path fh hmp
        unfold Connection.known at hm hn
        simp only [hmp, hnp, reduceCtorEq, and_false, if_false] at hm hn
        exact Option.some.inj (hm.symm.trans hn)
      | none =>
        cases hnp : n path with
        | none =>
          unfold Connection.known at hm hn
          rw [hmp] at hm
          rw [hnp] at hn
          exact Option.some.inj (hm.symm.trans hn)
        | some fh =>
          -- a handle is only added where there was no answer
          rcases h.new path fh hnp with hold | ⟨hnone, -⟩
          · rw [hmp] at hold
            cases hold
          · rw [hnone] at hm
            cases hm
    exact heq ▸ .known hm
  | none =>
    have hm' := known_none_iff.mp hm
    obtain ⟨hconn, hexp, hvalid, hmp, hloop⟩ := hm'
    cases hnp : n path with
    | none =>
      rw [known_none_iff.mpr ⟨hconn, hexp, hvalid, hnp, hloop⟩] at hn
      cases hn
    | some fh =>
      rcases h.new path fh hnp with hold | ⟨-, hgives, hacc⟩
      · rw [hmp] at hold
        cases hold
      · unfold Connection.known at hn
        simp only [hconn, hexp, hvalid, hnp, Bool.not_true, Bool.false_eq_true, false_and,
          if_false, Option.some.injEq] at hn
        exact ⟨hn ▸ hgives, hacc⟩

lemma Extends.add (h : Extends c m n) {path : Text} {fh : NFSFileHandle F}
    (hnone : c.known m path = none) (hgives : c.Gives m path (.handle fh))
    (hacc : Acc (c.Needs m) path) : Extends c m (addFileHandle n path fh) := by
  have hmp := (known_none_iff.mp hnone).2.2.2.1
  unfold addFileHandle
  split_ifs with hinvalid
  · exact h
  · refine ⟨fun q gh hq => ?_, fun q gh hq => ?_⟩
    · have hne : q ≠ path := by
        rintro rfl
        rw [hmp] at hq
        cases hq
      rw [Function.update_of_ne hne]
      exact h.old q gh hq
    · by_cases hqp : q = path
      · subst hqp
        rw [Function.update_self] at hq
        obtain rfl := Option.some.inj hq
        exact Or.inr ⟨hnone, hgives, hacc⟩
      · rw [Function.update_of_ne hqp] at hq
        exact h.new q gh hq

/-! ### A lookup that returns -/

/-- What is known of a function that looks up handles, for all caches that extend `m`. -/
def Sound (c : Connection F) (m : HandleCache F)
    (getFileHandle : HandleCache F → Text → Returns F (MaybeNFSFileHandle F)) : Prop :=
  ∀ n path n' res, Extends c m n → getFileHandle n path = some (n', res) →
    Extends c m n' ∧ c.Gives m path res ∧ Acc (c.Needs m) path

variable {get : HandleCache F → Text → Returns F (MaybeNFSFileHandle F)}

variable {n' : HandleCache F}

lemma lookupHandle_spec (hget : Sound c m get) (hconn : c.isConnected = true) (hn : Extends c m n)
    {path : Text} {res : Option (F × Bool)} (h : c.lookupHandle get n path = some (n', res)) :
    Extends c m n' ∧ Acc (c.Needs m) (QFileInfo.path path) ∧
      ∃ parentFH, c.Gives m (QFileInfo.path path) parentFH ∧
        res = c.lookupIn parentFH (QFileInfo.fileName path) := by
  unfold Connection.lookupHandle at h
  cases hp : get n (QFileInfo.path path) with
  | none => simp [hconn, hp] at h
  | some out =>
    obtain ⟨n₁, parentFH⟩ := out
    simp only [hconn, hp, Bool.not_true, Bool.false_eq_true, if_false, Option.some.injEq,
      Prod.mk.injEq] at h
    obtain ⟨rfl, rfl⟩ := h
    obtain ⟨hext, hgives, hacc⟩ := hget _ _ _ _ hn hp
    exact ⟨hext, hacc, parentFH, hgives, rfl⟩

/-- The result of `getFileHandle` from that of `lookupFileHandle`. -/
def answer (path : Text) : Option (NFSFileHandle F) → MaybeNFSFileHandle F
  | none => .fails .ERR_DOES_NOT_EXIST (String.ofList path)
  | some childFH => .handle childFH

lemma lookupFileHandle_spec (hget : Sound c m get) (hconn : c.isConnected = true)
    (hn : Extends c m n) {path : Text} {res : Option (NFSFileHandle F)}
    (h : c.lookupFileHandle get n path = some (n', res)) :
    Extends c m n' ∧ (∀ q, c.Asks m q path → Acc (c.Needs m) q) ∧
      (c.known m path = none → c.Gives m path (answer path res)) := by
  unfold Connection.lookupFileHandle at h
  cases hl : c.lookupHandle get n path with
  | none => simp [hl] at h
  | some out =>
    obtain ⟨n₁, found⟩ := out
    obtain ⟨hext, hacc, parentFH, hgives, hfound⟩ := lookupHandle_spec hget hconn hn hl
    -- which paths are asked for depends on what was found
    have hasks : ∀ q, c.Asks m q path → q = QFileInfo.path path ∨ ∃ object linkPath,
        found = some (object, true) ∧ c.linkPath path object = some linkPath ∧
          q = QFileInfo.path linkPath := by
      intro q hq
      cases hq with
      | parent => exact Or.inl rfl
      | target hparent hlookup hlink =>
        obtain rfl := hgives.unique hparent
        exact Or.inr ⟨_, _, hfound.trans hlookup, hlink, rfl⟩
    rcases found with _ | ⟨object, _ | _⟩
    · simp only [hl, Option.some.injEq, Prod.mk.injEq] at h
      obtain ⟨rfl, rfl⟩ := h
      refine ⟨hext, fun q hq => ?_, fun hnone => .absent hnone hgives hfound.symm⟩
      rcases hasks q hq with rfl | ⟨_, _, hlink, -⟩
      · exact hacc
      · cases hlink
    · simp only [hl, Option.some.injEq, Prod.mk.injEq] at h
      obtain ⟨rfl, rfl⟩ := h
      refine ⟨hext, fun q hq => ?_, fun hnone => .file hnone hgives hfound.symm⟩
      rcases hasks q hq with rfl | ⟨_, _, hlink, -⟩
      · exact hacc
      · simp at hlink
    · cases ht : c.linkPath path object with
      | none =>
        simp only [hl, ht, Option.some.injEq, Prod.mk.injEq] at h
        obtain ⟨rfl, rfl⟩ := h
        refine ⟨hext, fun q hq => ?_, fun hnone => .badLink hnone hgives hfound.symm ht⟩
        rcases hasks q hq with rfl | ⟨_, _, hobj, hlink, -⟩
        · exact hacc
        · simp only [Option.some.injEq, Prod.mk.injEq, and_true] at hobj
          subst hobj
          rw [ht] at hlink
          cases hlink
      | some linkPath =>
        simp only [hl, ht] at h
        cases hl' : c.lookupHandle get n₁ linkPath with
        | none => simp [hl'] at h
        | some out =>
          obtain ⟨n₂, target⟩ := out
          obtain ⟨hext', hacc', targetFH, hgives', htarget⟩ :=
            lookupHandle_spec hget hconn hext hl'
          have hres : n₂ = n' ∧ some (Connection.linkHandle object target) = res := by
            rcases target with _ | ⟨t, b⟩ <;> simpa [hl', Connection.linkHandle] using h
          obtain ⟨rfl, rfl⟩ := hres
          refine ⟨hext', fun q hq => ?_, fun hnone => ?_⟩
          · rcases hasks q hq with rfl | ⟨_, _, hobj, hlink, rfl⟩
            · exact hacc
            · simp only [Option.some.injEq, Prod.mk.injEq, and_true] at hobj
              subst hobj
              obtain rfl := Option.some.inj (ht.symm.trans hlink)
              exact hacc'
          · rw [htarget]
            exact .link hnone hgives hfound.symm ht hgives'

/-- A lookup that returns gives what the path leads to, and asked for finitely many paths. -/
theorem getFileHandle_sound (c : Connection F) (m : HandleCache F) (fuel : ℕ) :
    Sound c m (c.getFileHandle fuel) := by
  induction fuel with
  | zero => intro n path n' res _ h; simp [Connection.getFileHandle] at h
  | succ fuel ih =>
    intro n path n' res hn h
    unfold Connection.getFileHandle at h
    cases hk : c.known n path with
    | some known =>
      simp only [hk, Option.some.injEq, Prod.mk.injEq] at h
      obtain ⟨rfl, rfl⟩ := h
      exact ⟨hn, hn.gives hk⟩
    | none =>
      have hnone := hn.known_none hk
      have hconn := (known_none_iff.mp hnone).1
      cases hl : c.lookupFileHandle (c.getFileHandle fuel) n path with
      | none => simp [hk, hl] at h
      | some out =>
        obtain ⟨n₁, child⟩ := out
        obtain ⟨hext, hasks, hgives⟩ := lookupFileHandle_spec ih hconn hn hl
        have hacc : Acc (c.Needs m) path := Acc.intro _ fun q hq => hasks q hq.2
        cases child with
        | none =>
          simp only [hk, hl, Option.some.injEq, Prod.mk.injEq] at h
          obtain ⟨rfl, rfl⟩ := h
          exact ⟨hext, hgives hnone, hacc⟩
        | some childFH =>
          simp only [hk, hl, Option.some.injEq, Prod.mk.injEq] at h
          obtain ⟨rfl, rfl⟩ := h
          exact ⟨hext.add hnone (hgives hnone) hacc, hgives hnone, hacc⟩

end

/-! ### Enough fuel -/

section

variable {c : Connection F} {m n : HandleCache F}

/-- Where the first function returns, the second one returns the same. -/
def Below (get get' : HandleCache F → Text → Returns F (MaybeNFSFileHandle F)) : Prop :=
  ∀ n path out, get n path = some out → get' n path = some out

variable {get get' : HandleCache F → Text → Returns F (MaybeNFSFileHandle F)}

lemma Below.lookupHandle (h : Below get get') {path : Text} {out}
    (hl : c.lookupHandle get n path = some out) : c.lookupHandle get' n path = some out := by
  unfold Connection.lookupHandle at hl ⊢
  split_ifs at hl ⊢ with hconn
  · exact hl
  · cases hp : get n (QFileInfo.path path) with
    | none => simp [hp] at hl
    | some res =>
      rw [h _ _ _ hp]
      rw [hp] at hl
      exact hl

lemma Below.lookupFileHandle (h : Below get get') {path : Text} {out}
    (hl : c.lookupFileHandle get n path = some out) :
    c.lookupFileHandle get' n path = some out := by
  unfold Connection.lookupFileHandle at hl ⊢
  cases hp : c.lookupHandle get n path with
  | none => simp [hp] at hl
  | some res =>
    rw [h.lookupHandle hp]
    rw [hp] at hl
    obtain ⟨n₁, _ | ⟨object, _ | _⟩⟩ := res
    · exact hl
    · exact hl
    · cases ht : c.linkPath path object with
      | none => simpa only [ht] using hl
      | some linkPath =>
        simp only [ht] at hl ⊢
        cases hl' : c.lookupHandle get n₁ linkPath with
        | none => simp [hl'] at hl
        | some res' =>
          rw [h.lookupHandle hl']
          rw [hl'] at hl
          exact hl

lemma getFileHandle_succ (fuel : ℕ) :
    Below (c.getFileHandle fuel) (c.getFileHandle (fuel + 1)) := by
  induction fuel with
  | zero => intro n path out h; simp [Connection.getFileHandle] at h
  | succ fuel ih =>
    intro n path out h
    unfold Connection.getFileHandle at h ⊢
    cases hk : c.known n path with
    | some res => simpa only [hk] using h
    | none =>
      simp only [hk] at h ⊢
      cases hl : c.lookupFileHandle (c.getFileHandle fuel) n path with
      | none => simp [hl] at h
      | some res =>
        rw [ih.lookupFileHandle hl]
        rw [hl] at h
        exact h

lemma getFileHandle_mono {fuel fuel' : ℕ} (h : fuel ≤ fuel') :
    Below (c.getFileHandle fuel) (c.getFileHandle fuel') := by
  induction h with
  | refl => exact fun _ _ _ h => h
  | step _ ih => exact fun n path out hout => getFileHandle_succ _ n path out (ih n path out hout)

/-- The handle of a path is returned with enough fuel, whatever was added to the cache before. -/
def Returning (c : Connection F) (m : HandleCache F) (path : Text) : Prop :=
  ∀ n, Extends c m n → ∃ fuel out, c.getFileHandle fuel n path = some out

lemma Returning.lookupHandle {path : Text} (h : Returning c m (QFileInfo.path path))
    (hn : Extends c m n) : ∃ fuel out, c.lookupHandle (c.getFileHandle fuel) n path = some out := by
  obtain ⟨fuel, out, hout⟩ := h n hn
  refine ⟨fuel, ?_⟩
  unfold Connection.lookupHandle
  split_ifs with hconn
  · exact ⟨_, rfl⟩
  · simp [hout]

lemma lookupFileHandle_returning {path : Text} (hconn : c.isConnected = true)
    (h : ∀ q, c.Asks m q path → Returning c m q) (hn : Extends c m n) :
    ∃ fuel out, c.lookupFileHandle (c.getFileHandle fuel) n path = some out := by
  obtain ⟨fuel, ⟨n₁, found⟩, hl⟩ := (h _ (.parent path)).lookupHandle hn
  obtain ⟨hext, -, parentFH, hgives, hfound⟩ :=
    lookupHandle_spec (getFileHandle_sound c m fuel) hconn hn hl
  rcases found with _ | ⟨object, _ | _⟩
  · exact ⟨fuel, _, by simp only [Connection.lookupFileHandle, hl]; rfl⟩
  · exact ⟨fuel, _, by simp only [Connection.lookupFileHandle, hl]; rfl⟩
  · cases ht : c.linkPath path object with
    | none => exact ⟨fuel, _, by simp only [Connection.lookupFileHandle, hl, ht]; rfl⟩
    | some linkPath =>
      obtain ⟨fuel', ⟨n₂, target⟩, hl'⟩ :=
        (h _ (.target hgives hfound.symm ht)).lookupHandle hext
      have hmax := (getFileHandle_mono (Nat.le_max_left fuel fuel')).lookupHandle hl
      have hmax' := (getFileHandle_mono (Nat.le_max_right fuel fuel')).lookupHandle hl'
      refine ⟨max fuel fuel', ?_⟩
      simp only [Connection.lookupFileHandle, hmax, ht, hmax']
      rcases target with _ | ⟨t, b⟩
      · exact ⟨_, rfl⟩
      · exact ⟨_, rfl⟩

theorem returning_of_acc {path : Text} (h : Acc (c.Needs m) path) : Returning c m path := by
  induction h with
  | intro path _ ih =>
    intro n hn
    cases hk : c.known n path with
    | some res => exact ⟨1, _, by simp only [Connection.getFileHandle, hk]; rfl⟩
    | none =>
      have hnone := hn.known_none hk
      obtain ⟨fuel, ⟨n₁, child⟩, hl⟩ := lookupFileHandle_returning
        (known_none_iff.mp hnone).1 (fun q hq => ih q ⟨hnone, hq⟩) hn
      refine ⟨fuel + 1, ?_⟩
      simp only [Connection.getFileHandle, hk, hl]
      cases child with
      | none => exact ⟨_, rfl⟩
      | some childFH => exact ⟨_, rfl⟩

lemma getFileHandle_returns_iff (path : Text) :
    (∃ fuel out, c.getFileHandle fuel m path = some out) ↔ Acc (c.Needs m) path := by
  constructor
  · rintro ⟨fuel, ⟨n, res⟩, h⟩
    exact (getFileHandle_sound c m fuel m path n res .refl h).2.2
  · intro h
    exact returning_of_acc h m .refl

end

lemma not_acc_of_self {α : Type*} {r : α → α → Prop} {a : α} (h : r a a) : ¬ Acc r a := by
  intro hacc
  induction hacc with
  | intro a _ ih => exact ih a h h

/-- An export `/e` with one link `a` that leads to a path below itself. -/
def inward : Connection ℕ where
  isConnected := true
  m_exportedDirs := ["/e".toList]
  LOOKUP dir name := if dir = 1 ∧ name = ['a'] then some (2, true) else none
  READLINK object := if object = 2 then some "/e/a/b".toList else none

def mounted : HandleCache ℕ := fun path => if path = "/e".toList then some (.ofFH 1) else none

end KioExtras.Nfs
