import KioExtras.Kio
import Mathlib.Data.List.Basic
import Mathlib.Tactic.Common

/-!
The search with an external tool, which prints the paths it finds with a NUL behind each.

The output is read while the tool runs. What arrives behind the last read is lost, and what was read
without a NUL behind it is taken for a path.
-/

namespace KioExtras.FileNameSearch.ExternalTool

open KioExtras.Kio

abbrev Bytes := List UInt8

structure Qt (QUrl : Type) where
  path : QUrl → String
  setPath : QUrl → String → QUrl
  fileName : QUrl → String
  url : QUrl → String
  fromUtf8 : Bytes → String
  cleanPath : String → String
  filePath : String → String → String

structure UDSEntry where
  UDS_NAME : String
  UDS_DISPLAY_NAME : String
  UDS_URL : String
  UDS_LOCAL_PATH : String
  deriving DecidableEq

/-- A process that has started. In each turn of the loop there is something to read, or there is
not; after the last turn the process has stopped. -/
structure QProcess where
  turns : List (Option Bytes)
  unread : Bytes
  errors : String
  crashed : Bool
  exitCode : Int
  errorString : String

def read (turns : List (Option Bytes)) : Bytes := turns.flatMap fun turn => turn.getD []

section search

variable {QUrl : Type} (qt : Qt QUrl) (dirUrl : QUrl)

def sendMatch (result : Bytes) : UDSEntry :=
  let relativePath := qt.cleanPath (qt.fromUtf8 result)
  let fullPath := qt.filePath (qt.path dirUrl) relativePath
  let url := qt.setPath dirUrl fullPath
  ⟨qt.fileName url, qt.fileName url, qt.url url, fullPath⟩

/-- The loop over the NULs of the output: what stands before each, but nothing, and what is left.
`s` is what stands behind the last one. -/
def cut (s : Bytes) : Bytes → List Bytes × Bytes
  | [] => ([], s)
  | c :: output =>
    if c = 0 then
      (if s = [] then (cut [] output).1 else s :: (cut [] output).1, (cut [] output).2)
    else cut (s ++ [c]) output

def loop (output : Bytes) : List (Option Bytes) → List Bytes × Bytes
  | [] => ([], output)
  | none :: turns => loop output turns
  | some data :: turns =>
    let sent := cut [] (output ++ data)
    (sent.1 ++ (loop sent.2 turns).1, (loop sent.2 turns).2)

def result (programName : String) (process : QProcess) : WorkerResult :=
  if process.crashed then .fail .ERR_UNKNOWN (programName ++ ": " ++ process.errorString)
  else if process.exitCode = 127 then .fail .ERR_UNSUPPORTED_ACTION ""
  else if process.exitCode = 0 || process.errors = "" then .pass
  else .fail .ERR_UNKNOWN (programName ++ " failed, exit code: " ++ toString process.exitCode ++
    ", error messages: " ++ process.errors)

/-- The entries that are listed, and the result. Without a program, or when it does not start, there
is an error with a text instead of a process. -/
def searchDirWithExternalTool (programName : String) : Except String QProcess →
    List UDSEntry × WorkerResult
  | .error message => ([], .fail .ERR_CANNOT_LAUNCH_PROCESS message)
  | .ok process =>
    let sent := loop [] process.turns
    ((sent.1 ++ if sent.2 = [] then [] else [sent.2]).map (sendMatch qt dirUrl),
      result programName process)

/-- Whether `listDir` searches itself then. -/
def fallsBack : WorkerResult → Bool
  | .fail .ERR_UNSUPPORTED_ACTION _ => true
  | _ => false

/-- The paths are listed, whatever the turns are that read them, and where the search falls back
there is nothing in the list. -/
structure Lists (programName : String) (process : QProcess) (paths : List Bytes) : Prop where
  listed : (searchDirWithExternalTool qt dirUrl programName (.ok process)).1 =
    paths.map (sendMatch qt dirUrl)
  turns : ∀ turns, read turns = read process.turns →
    searchDirWithExternalTool qt dirUrl programName (.ok { process with turns := turns }) =
      searchDirWithExternalTool qt dirUrl programName (.ok process)
  fallback : fallsBack (searchDirWithExternalTool qt dirUrl programName (.ok process)).2 →
    (searchDirWithExternalTool qt dirUrl programName (.ok process)).1 = []

/-- The output of the tool. -/
def printed (paths : List Bytes) : Bytes := paths.flatMap (· ++ [0])

/-- What is not read is nothing, or the end of the last path, and the entry is the same without it.
-/
def Enough (unread : Bytes) (paths : List Bytes) : Prop :=
  unread = [] ∨ ∃ done start rest, paths = done ++ [start ++ rest] ∧ unread = rest ++ [0] ∧
    start ≠ [] ∧ sendMatch qt dirUrl start = sendMatch qt dirUrl (start ++ rest)

end search

section proofs

variable {QUrl : Type} {qt : Qt QUrl} {dirUrl : QUrl} {s output : Bytes}

lemma cut_append (s a b : Bytes) : cut s (a ++ b) =
    ((cut s a).1 ++ (cut (cut s a).2 b).1, (cut (cut s a).2 b).2) := by
  induction a generalizing s with
  | nil => rfl
  | cons c a ih =>
    rw [List.cons_append, cut, cut]
    by_cases hc : c = 0
    · rw [if_pos hc, if_pos hc, ih]
      split_ifs <;> rfl
    · rw [if_neg hc, if_neg hc, ih]

variable {a : Bytes} {paths : List Bytes}

lemma cut_of_notMem (s : Bytes) (h : 0 ∉ a) : cut s a = ([], s ++ a) := by
  induction a generalizing s with
  | nil => rw [cut, List.append_nil]
  | cons c a ih =>
    rw [List.mem_cons, not_or] at h
    rw [cut, if_neg fun hc => h.1 hc.symm, ih _ h.2, List.append_assoc, List.singleton_append]

lemma notMem_cut (h : 0 ∉ s) (a : Bytes) : 0 ∉ (cut s a).2 := by
  induction a generalizing s with
  | nil => exact h
  | cons c a ih =>
    rw [cut]
    by_cases hc : c = 0
    · rw [if_pos hc]
      exact ih List.not_mem_nil
    · rw [if_neg hc]
      apply ih
      rw [List.mem_append, List.mem_singleton, not_or]
      exact ⟨h, fun heq => hc heq.symm⟩

lemma loop_eq (h : 0 ∉ output) (turns : List (Option Bytes)) :
    loop output turns = cut output (read turns) := by
  induction turns generalizing output with
  | nil => rfl
  | cons turn turns ih =>
    cases turn with
    | none => exact ih h
    | some data =>
      have hcut : cut [] (output ++ data) = cut output data := by
        rw [cut_append, cut_of_notMem [] h]
        rfl
      rw [loop, hcut, ih (notMem_cut h data)]
      exact (cut_append output data (read turns)).symm

lemma cut_printed (h : ∀ path ∈ paths, path ≠ [] ∧ 0 ∉ path) (a : Bytes) :
    cut [] (printed paths ++ a) = (paths ++ (cut [] a).1, (cut [] a).2) := by
  induction paths with
  | nil => rfl
  | cons path paths ih =>
    obtain ⟨hne, hnul⟩ := h path List.mem_cons_self
    have hrest := ih fun p hp => h p (List.mem_cons_of_mem _ hp)
    rw [printed, List.flatMap_cons, List.append_assoc, List.append_assoc, cut_append,
      cut_of_notMem [] hnul]
    change (_ ++ (cut path (0 :: (printed paths ++ a))).1,
      (cut path (0 :: (printed paths ++ a))).2) = _
    rw [cut, if_pos rfl, if_neg hne, hrest]
    rfl

/-- Where the reading stops: behind all of the output, or in the course of a path. -/
lemma stops {b : Bytes} (h : a ++ b = printed paths) :
    (a = printed paths ∧ b = []) ∨ ∃ done start rest todo, paths = done ++ (start ++ rest) :: todo ∧
      a = printed done ++ start ∧ b = rest ++ 0 :: printed todo := by
  induction paths generalizing a with
  | nil => exact Or.inl (List.append_eq_nil_iff.mp h)
  | cons path paths ih =>
    rw [printed, List.flatMap_cons, List.append_assoc] at h
    rcases List.append_eq_append_iff.mp h with ⟨rest, rfl, hb⟩ | ⟨c, rfl, hc⟩
    · exact Or.inr ⟨[], a, rest, paths, rfl, rfl, hb⟩
    · cases c with
      | nil =>
        refine Or.inr ⟨[], path, [], paths, ?_, ?_, ?_⟩
        · rw [List.append_nil, List.nil_append]
        · rw [List.append_nil]
          rfl
        · exact hc.symm
      | cons d c =>
        obtain ⟨rfl, htail⟩ := List.cons.inj hc
        rcases ih htail.symm with ⟨rfl, hb⟩ | ⟨done, start, rest, todo, rfl, rfl, hb⟩
        · exact Or.inl ⟨by simp [printed], hb⟩
        · exact Or.inr ⟨path :: done, start, rest, todo, rfl, by simp [printed], hb⟩

lemma printed_eq_nil (h : printed paths = []) : paths = [] := by
  cases paths with
  | nil => rfl
  | cons path paths => simp [printed] at h

lemma enough_iff {done todo : List Bytes} {start rest : Bytes}
    (h : ∀ path ∈ done ++ (start ++ rest) :: todo, 0 ∉ path) :
    Enough qt dirUrl (rest ++ 0 :: printed todo) (done ++ (start ++ rest) :: todo) ↔
      todo = [] ∧ start ≠ [] ∧ sendMatch qt dirUrl start = sendMatch qt dirUrl (start ++ rest) := by
  constructor
  · rintro (hnil | ⟨done', start', rest', hpaths, hunread, hne, hentry⟩)
    · simp at hnil
    · have hrest' : 0 ∉ rest' := fun hmem =>
        h (start' ++ rest') (by simp [hpaths]) (List.mem_append_right _ hmem)
      have htodo : todo = [] := by
        apply printed_eq_nil
        rcases List.append_eq_append_iff.mp hunread with ⟨c, rfl, hc⟩ | ⟨c, -, hc⟩
        · cases c with
          | nil => exact (List.cons.inj hc).2
          | cons d c =>
            obtain rfl := (List.cons.inj hc).1
            exact absurd (List.mem_append_right rest List.mem_cons_self) hrest'
        · cases c with
          | nil => exact (List.cons.inj hc).2.symm
          | cons d c => simp at hc
      subst htodo
      obtain rfl := (List.append_inj' hunread rfl).1
      obtain ⟨-, hlast⟩ := List.append_inj' hpaths rfl
      obtain rfl := List.append_cancel_right (List.cons.inj hlast).1
      exact ⟨rfl, hne, hentry⟩
  · rintro ⟨rfl, hne, hentry⟩
    exact Or.inr ⟨done, start, rest, rfl, rfl, hne, hentry⟩

end proofs

/-- **The paths are listed** just if all of the output is read, or no more than the end of the last
path is missing and does not show; and the search falls back with an empty list just if no path was
printed then. -/
theorem lists_iff {QUrl : Type} (qt : Qt QUrl) (dirUrl : QUrl) (programName : String)
    (process : QProcess) (paths : List Bytes) (hpaths : ∀ path ∈ paths, path ≠ [] ∧ 0 ∉ path)
    (houtput : read process.turns ++ process.unread = printed paths) :
    Lists qt dirUrl programName process paths ↔ Enough qt dirUrl process.unread paths ∧
      (process.crashed = false ∧ process.exitCode = 127 → paths = []) := by
  have hfallback : fallsBack (result programName process) = true ↔
      process.crashed = false ∧ process.exitCode = 127 := by
    rw [result]
    split_ifs <;> simp_all [fallsBack]
  have hlisted : (searchDirWithExternalTool qt dirUrl programName (.ok process)).1 =
      paths.map (sendMatch qt dirUrl) ↔ Enough qt dirUrl process.unread paths := by
    rw [searchDirWithExternalTool, loop_eq List.not_mem_nil]
    rcases stops houtput with ⟨hread, hunread⟩ | ⟨done, start, rest, todo, rfl, hread, hunread⟩
    · have hcut := cut_printed hpaths []
      rw [List.append_nil] at hcut
      rw [hread, hcut, hunread]
      refine iff_of_true ?_ (Or.inl rfl)
      simp [cut]
    · have hdone : ∀ path ∈ done, path ≠ [] ∧ 0 ∉ path := fun path hpath =>
        hpaths path (List.mem_append_left _ hpath)
      have hstart : 0 ∉ start := fun hmem =>
        (hpaths (start ++ rest) (by simp)).2 (List.mem_append_left _ hmem)
      rw [hread, cut_printed hdone, cut_of_notMem [] hstart, hunread,
        enough_iff fun path hpath => (hpaths path hpath).2]
      simp only [List.nil_append, List.append_nil, List.map_append, List.append_cancel_left_eq]
      by_cases hne : start = []
      · simp [hne]
      · simp [hne, and_comm]
  constructor
  · intro h
    refine ⟨hlisted.mp h.listed, fun hcode => ?_⟩
    have hnil := h.fallback (hfallback.mpr hcode)
    rwa [h.listed, List.map_eq_nil_iff] at hnil
  · rintro ⟨henough, hcode⟩
    refine ⟨hlisted.mpr henough, fun turns hturns => ?_, fun hfalls => ?_⟩
    · simp only [searchDirWithExternalTool, result, loop_eq List.not_mem_nil, hturns]
    · rw [hlisted.mpr henough, hcode (hfallback.mp hfalls), List.map_nil]

/-! ### A path -/

/-- Paths are texts of a character for each byte. -/
def plainQt : Qt String where
  path := id
  setPath _ path := path
  fileName := id
  url := id
  fromUtf8 bytes := String.ofList (bytes.map fun b => Char.ofNat b.toNat)
  cleanPath := id
  filePath dir path := dir ++ path

/-- The path `a` is printed, and only then read. -/
def late : QProcess := ⟨[none], [97, 0], "", false, 0, ""⟩

def inPieces : QProcess := ⟨[some [97], none, some [0]], [], "", false, 0, ""⟩

theorem path_in_pieces : Lists plainQt "/" "grep" inPieces [[97]] :=
  (lists_iff plainQt "/" "grep" inPieces [[97]] (by decide) rfl).mpr ⟨Or.inl rfl, by decide⟩

/-- The process stops while the loop waits. -/
theorem path_unread : read late.turns ++ late.unread = printed [[97]] ∧
    ¬Lists plainQt "/" "grep" late [[97]] :=
  ⟨rfl, fun h => absurd (congrArg List.length h.listed) (by decide)⟩

end KioExtras.FileNameSearch.ExternalTool
