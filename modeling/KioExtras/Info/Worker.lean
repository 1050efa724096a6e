import KioExtras.Info.Convert
import KioExtras.Lib.Percent
import Mathlib.Data.List.Basic
import Mathlib.Data.List.DropRight
import Mathlib.Data.List.TakeWhile

/-!
The worker of info pages: how a URL is parsed, and for which page and node the converter is asked
when it is opened.
-/

namespace KioExtras.Info

open KioExtras.Lib

/-- What the worker uses of Qt: how bytes are read, what host an authority names (none where the
URL is not valid), and what counts as a blank. -/
structure Qt where
  utf8 : Percent.Utf8
  host : Text → Option Text
  host_chars : ∀ authority h, host authority = some h → '/' ∉ h ∧ '&' ∉ h
  isSpace : Char → Bool

/-- The path is decoded. -/
structure QUrl where
  scheme : Text
  host : Text
  path : Text
  query : Option Text
  fragment : Option Text
  deriving DecidableEq

/-- What follows the first `c` -/
def after (c : Char) (text : Text) : Option Text :=
  match text.dropWhile (· ≠ c) with
  | [] => none
  | _ :: rest => some rest

/-- What follows the first character that ends the path -/
def cut (text : Text) : Text := (text.takeWhile (· ≠ '#')).takeWhile (· ≠ '?')

section worker

variable (qt : Qt)

/-- `QUrl` of a text with a scheme -/
def parseUrl (text : Text) : QUrl :=
  let scheme := (cut text).takeWhile (· ≠ ':')
  let query := after '?' (text.takeWhile (· ≠ '#'))
  let fragment := after '#' text
  match (after ':' (cut text)).getD [] with
  | '/' :: '/' :: rest =>
    match qt.host (rest.takeWhile (· ≠ '/')) with
    | some host =>
      ⟨scheme, host, Percent.decode qt.utf8 (rest.dropWhile (· ≠ '/')), query, fragment⟩
    | none => ⟨[], [], [], none, none⟩
  | rest => ⟨scheme, [], Percent.decode qt.utf8 rest, query, fragment⟩

def dirUrl : QUrl := ⟨"info".toList, [], '/' :: "dir".toList, none, none⟩

def specialUrl : QUrl :=
  ⟨"info".toList, [], '/' :: "browse_by_file".toList, some "special=yes".toList, none⟩

def trimmed (text : Text) : Text := (text.dropWhile qt.isSpace).rdropWhile qt.isSpace

/-- The parts before and after the first slash -/
def pageAndNode (path : Text) : Text × Text :=
  match path.dropWhile (· ≠ '/') with
  | [] => (path, "Top".toList)
  | _ :: node => (path.takeWhile (· ≠ '/'), trimmed qt node)

def decodePath (path : Text) : Text × Text :=
  pageAndNode qt (if path.head? = some '/' then path.drop 1 else path)

def decodeURL (url : QUrl) : Text × Text :=
  if url = specialUrl then ("#special#".toList, "browse_by_file".toList)
  else decodePath qt url.path

/-- What comes of a request: another URL, an error, or a run of the converter. -/
inductive Reply
  | redirection (url : QUrl)
  | malformed
  | convert (page node : Text)

def get (url : QUrl) : Reply :=
  if url.path = ['/'] then .redirection dirUrl
  else if url.host ≠ [] then .redirection { url with path := url.host ++ url.path, host := [] }
  else if url.path.getLast? = some '/' then .redirection { url with path := url.path.dropLast }
  else if '<' ∈ url.path then .malformed
  else .convert (decodeURL qt url).1 (decodeURL qt url).2

/-- The converter is asked for a page and a node when the URL is opened. -/
inductive Opens : QUrl → Text → Text → Prop
  | convert {url : QUrl} {page node : Text} (h : get qt url = .convert page node) :
    Opens url page node
  | redirection {url newUrl : QUrl} {page node : Text} (h : get qt url = .redirection newUrl)
      (hnew : Opens newUrl page node) : Opens url page node

end worker

variable {qt : Qt}

/-! ### Texts up to a character -/

variable {a b : Text} {c : Char}

lemma takeWhile_append_of_forall {p : Char → Bool} (h : ∀ c ∈ a, p c = true) :
    (a ++ b).takeWhile p = a ++ b.takeWhile p := List.takeWhile_append_of_pos h

lemma takeWhile_ne_append (h : c ∉ a) : (a ++ b).takeWhile (· ≠ c) = a ++ b.takeWhile (· ≠ c) := by
  apply takeWhile_append_of_forall
  intro d hd
  have hne : d ≠ c := fun heq => h (heq ▸ hd)
  simpa using hne

lemma dropWhile_ne_append (h : c ∉ a) : (a ++ b).dropWhile (· ≠ c) = b.dropWhile (· ≠ c) := by
  apply List.dropWhile_append_of_pos
  intro d hd
  have hne : d ≠ c := fun heq => h (heq ▸ hd)
  simpa using hne

lemma takeWhile_ne_self (h : c ∉ a) : a.takeWhile (· ≠ c) = a := by
  have happend := takeWhile_ne_append (b := []) h
  rw [List.append_nil] at happend
  rw [happend, List.takeWhile_nil, List.append_nil]

lemma not_mem_takeWhile_ne (c : Char) (text : Text) : c ∉ text.takeWhile (· ≠ c) := by
  intro hmem
  simpa using List.mem_takeWhile_imp hmem

lemma takeWhile_split (c : Char) (text : Text) :
    text = text.takeWhile (· ≠ c) ∨ ∃ rest, text = text.takeWhile (· ≠ c) ++ c :: rest := by
  have hsplit := List.takeWhile_append_dropWhile (p := (· ≠ c)) (l := text)
  cases hdrop : text.dropWhile (· ≠ c) with
  | nil =>
    rw [hdrop, List.append_nil] at hsplit
    exact Or.inl hsplit.symm
  | cons d rest =>
    refine Or.inr ⟨rest, ?_⟩
    have hd : d = c := by
      have hhead := List.head?_dropWhile_not (p := (· ≠ c)) text
      rw [hdrop] at hhead
      simpa using hhead
    rw [hdrop, hd] at hsplit
    exact hsplit.symm

/-! ### Paths -/

def firstPart (text : Text) : Text := text.takeWhile (· ≠ '/')

lemma firstPart_append (h : '/' ∉ a) : firstPart (a ++ '/' :: b) = a := by
  unfold firstPart
  rw [takeWhile_ne_append h]
  exact List.append_nil a

lemma firstPart_self {text : Text} (h : '/' ∉ text) : firstPart text = text :=
  takeWhile_ne_self h

lemma firstPart_concat (text : Text) : firstPart (text ++ ['/']) = firstPart text := by
  rcases takeWhile_split '/' text with hself | ⟨rest, hrest⟩
  · have hnot : '/' ∉ text := hself ▸ not_mem_takeWhile_ne '/' text
    rw [firstPart_append hnot, firstPart_self hnot]
  · generalize hfirst : text.takeWhile (· ≠ '/') = first at hrest
    have hnot : '/' ∉ first := hfirst ▸ not_mem_takeWhile_ne '/' text
    rw [hrest, List.append_assoc, List.cons_append, firstPart_append hnot, firstPart_append hnot]

lemma pageAndNode_page {page : Text} (h : '/' ∉ page) :
    pageAndNode qt page = (page, "Top".toList) := by
  have hdrop : page.dropWhile (· ≠ '/') = [] := by
    have happend := dropWhile_ne_append (b := []) h
    rw [List.append_nil] at happend
    exact happend
  unfold pageAndNode
  rw [hdrop]

lemma pageAndNode_node {page : Text} (h : '/' ∉ page) (node : Text) :
    pageAndNode qt (page ++ '/' :: node) = (page, trimmed qt node) := by
  have hdrop : (page ++ '/' :: node).dropWhile (· ≠ '/') = '/' :: node := by
    rw [dropWhile_ne_append h]
    rfl
  unfold pageAndNode
  rw [hdrop]
  exact congrArg (·, trimmed qt node) (firstPart_append h)

lemma parts (text : Text) :
    '/' ∉ text ∨ ∃ first rest, '/' ∉ first ∧ text = first ++ '/' :: rest := by
  have hnot := not_mem_takeWhile_ne '/' text
  rcases takeWhile_split '/' text with hself | ⟨rest, hrest⟩
  · exact Or.inl (hself ▸ hnot)
  · exact Or.inr ⟨_, rest, hnot, hrest⟩

variable (qt) in
lemma pageAndNode_fst (text : Text) : (pageAndNode qt text).1 = firstPart text := by
  rcases parts text with hnot | ⟨first, rest, hnot, rfl⟩
  · rw [pageAndNode_page hnot, firstPart_self hnot]
  · rw [pageAndNode_node hnot, firstPart_append hnot]

lemma decodePath_slash (text : Text) : decodePath qt ('/' :: text) = pageAndNode qt text := rfl

lemma decodePath_relative (hc : c ≠ '/') (text : Text) :
    decodePath qt (c :: text) = pageAndNode qt (c :: text) := by
  have hhead : (c :: text).head? ≠ some '/' := fun heq => hc (Option.some.inj heq)
  unfold decodePath
  rw [if_neg hhead]

variable (qt) in
lemma length_trimmed (text : Text) : (trimmed qt text).length ≤ text.length := by
  unfold trimmed
  have hright := (List.rdropWhile_prefix qt.isSpace (text.dropWhile qt.isSpace)).length_le
  have hleft := (List.dropWhile_suffix (p := qt.isSpace) (l := text)).length_le
  omega

/-! ### Opening a URL -/

lemma get_redirection {url newUrl : QUrl} (h : get qt url = .redirection newUrl) :
    (url.path = ['/'] ∧ newUrl = dirUrl) ∨
      (url.path ≠ ['/'] ∧ url.host ≠ [] ∧
        newUrl = { url with path := url.host ++ url.path, host := [] }) ∨
      (url.path ≠ ['/'] ∧ url.host = [] ∧ url.path.getLast? = some '/' ∧
        newUrl = { url with path := url.path.dropLast }) := by
  unfold get at h
  split_ifs at h with hroot hhost hlast htag
  · exact Or.inl ⟨hroot, (Reply.redirection.inj h).symm⟩
  · exact Or.inr (Or.inl ⟨hroot, hhost, (Reply.redirection.inj h).symm⟩)
  · exact Or.inr (Or.inr ⟨hroot, not_not.mp hhost, hlast, (Reply.redirection.inj h).symm⟩)

lemma get_convert {url : QUrl} {page node : Text} (h : get qt url = .convert page node) :
    url.host = [] ∧ url.path.getLast? ≠ some '/' ∧ '<' ∉ url.path ∧
      decodeURL qt url = (page, node) := by
  unfold get at h
  split_ifs at h with hroot hhost hlast htag
  obtain ⟨hpage, hnode⟩ := Reply.convert.inj h
  exact ⟨not_not.mp hhost, hlast, htag, Prod.ext hpage hnode⟩

lemma get_eq_convert {url : QUrl} (hroot : url.path ≠ ['/']) (hhost : url.host = [])
    (hlast : url.path.getLast? ≠ some '/') (htag : '<' ∉ url.path) :
    get qt url = .convert (decodeURL qt url).1 (decodeURL qt url).2 := by
  unfold get
  rw [if_neg hroot, if_neg (not_not.mpr hhost), if_neg hlast, if_neg htag]

lemma eq_concat_of_getLast? {text : Text} (h : text.getLast? = some '/') :
    text = text.dropLast ++ ['/'] :=
  (List.dropLast_append_getLast? '/' h).symm

lemma not_mem_trimmed {text : Text} (h : c ∉ text) : c ∉ trimmed qt text := by
  intro hmem
  have hleft := (List.rdropWhile_prefix qt.isSpace (text.dropWhile qt.isSpace)).subset hmem
  exact h ((List.dropWhile_suffix (p := qt.isSpace) (l := text)).subset hleft)

lemma top_clean : '<' ∉ "Top".toList := by decide

lemma browse_clean : '/' ∉ "browse_by_file".toList := by decide

lemma not_special {path first rest : Text} (hpath : path = '/' :: (first ++ '/' :: rest)) :
    path ≠ specialUrl.path := by
  intro hspecial
  have hsame := (List.cons.inj (hpath.symm.trans hspecial)).2
  have hmem : '/' ∈ first ++ '/' :: rest := by simp
  exact browse_clean (hsame ▸ hmem)

variable (qt) in
lemma pageAndNode_clean {text : Text} (h : '<' ∉ text) :
    '<' ∉ (pageAndNode qt text).1 ∧ '<' ∉ (pageAndNode qt text).2 ∧
      '/' ∉ (pageAndNode qt text).1 := by
  rcases parts text with hnot | ⟨first, rest, hnot, rfl⟩
  · rw [pageAndNode_page hnot]
    exact ⟨h, top_clean, hnot⟩
  · rw [pageAndNode_node hnot]
    refine ⟨fun hmem => h (List.mem_append_left _ hmem), not_mem_trimmed fun hmem => ?_, hnot⟩
    exact h (List.mem_append_right _ (List.mem_cons_of_mem _ hmem))

lemma Opens.clean {url : QUrl} {page node : Text} (h : Opens qt url page node) :
    '<' ∉ page ∧ '<' ∉ node ∧ '/' ∉ page := by
  induction h with
  | redirection _ _ ih => exact ih
  | @convert url page node hget =>
    obtain ⟨_, _, htag, hdecode⟩ := get_convert hget
    unfold decodeURL at hdecode
    split_ifs at hdecode with hspecial
    · obtain ⟨rfl, rfl⟩ := Prod.mk.inj hdecode
      decide
    · have hpath : '<' ∉ (if url.path.head? = some '/' then url.path.drop 1 else url.path) := by
        split_ifs
        · exact fun hmem => htag (List.mem_of_mem_drop hmem)
        · exact htag
      have hclean := pageAndNode_clean qt hpath
      change decodePath qt url.path = _ at hdecode
      unfold decodePath at hdecode
      rw [hdecode] at hclean
      exact hclean

/-- **The page is the first part of the path**, but for the URLs of the directory and of the list
of files. -/
lemma Opens.page {url : QUrl} {page node : Text} (h : Opens qt url page node) {text : Text}
    (hhost : url.host = []) (hpath : url.path = '/' :: text) :
    page = firstPart text ∨ page = "dir".toList ∨
      (page = "#special#".toList ∧ firstPart text = "browse_by_file".toList) := by
  induction h generalizing text with
  | @convert url page node hget =>
    obtain ⟨_, _, _, hdecode⟩ := get_convert hget
    unfold decodeURL at hdecode
    split_ifs at hdecode with hspecial
    · obtain ⟨rfl, rfl⟩ := Prod.mk.inj hdecode
      have htext : text = "browse_by_file".toList := by
        have hsame := hpath.symm.trans (congrArg QUrl.path hspecial)
        exact (List.cons.inj hsame).2
      rw [htext]
      exact Or.inr (Or.inr ⟨rfl, firstPart_self browse_clean⟩)
    · left
      rw [hpath, decodePath_slash] at hdecode
      rw [← pageAndNode_fst qt, hdecode]
  | @redirection url newUrl page node hget hnew ih =>
    rcases get_redirection hget with ⟨_, rfl⟩ | ⟨_, hne, _⟩ | ⟨hne, _, hlast, rfl⟩
    · rcases @ih "dir".toList rfl rfl with hpage | hpage | ⟨_, hfirst⟩
      · exact Or.inr (Or.inl hpage)
      · exact Or.inr (Or.inl hpage)
      · exact absurd hfirst (by decide)
    · exact absurd hhost hne
    · cases text with
      | nil => exact absurd hpath hne
      | cons c rest =>
        rw [hpath, List.getLast?_cons_cons] at hlast
        have htext := eq_concat_of_getLast? hlast
        have hdrop : url.path.dropLast = '/' :: (c :: rest).dropLast := by
          rw [hpath]
          rfl
        rw [htext, firstPart_concat]
        exact ih hhost hdrop

lemma Opens.top {url : QUrl} {page node text : Text} (h : Opens qt url page node)
    (hhost : url.host = []) (hpath : url.path = '/' :: text) (hne : text ≠ [])
    (hslash : '/' ∉ text) :
    node = "Top".toList ∨ (page = "#special#".toList ∧ text = "browse_by_file".toList) := by
  have hlast : url.path.getLast? ≠ some '/' := by
    intro hlast
    rw [hpath] at hlast
    cases text with
    | nil => exact hne rfl
    | cons c rest =>
      rw [List.getLast?_cons_cons] at hlast
      exact hslash (List.mem_of_getLast? hlast)
  cases h with
  | convert hget =>
    obtain ⟨_, _, _, hdecode⟩ := get_convert hget
    unfold decodeURL at hdecode
    split_ifs at hdecode with hspecial
    · obtain ⟨rfl, rfl⟩ := Prod.mk.inj hdecode
      have hsame := hpath.symm.trans (congrArg QUrl.path hspecial)
      exact Or.inr ⟨rfl, (List.cons.inj hsame).2⟩
    · rw [hpath, decodePath_slash, pageAndNode_page hslash] at hdecode
      exact Or.inl (Prod.mk.inj hdecode).2.symm
  | redirection hget hnew =>
    rcases get_redirection hget with ⟨hroot, _⟩ | ⟨_, hhost', _⟩ | ⟨_, _, hlast', _⟩
    · rw [hpath] at hroot
      exact absurd (List.cons.inj hroot).2 hne
    · exact absurd hhost hhost'
    · exact absurd hlast' hlast

lemma getLast?_path (a b : Text) :
    ('/' :: (a ++ '/' :: b)).getLast? = some (b.getLast?.getD '/') := by
  rw [← List.cons_append, List.getLast?_append, List.getLast?_cons]
  rfl

/-- **The node is what follows the first part**, without the slashes at its end. -/
lemma Opens.node {url : QUrl} {page node first : Text} (h : Opens qt url page node) {rest : Text}
    (hhost : url.host = []) (hne : first ≠ []) (hslash : '/' ∉ first)
    (hpath : url.path = '/' :: (first ++ '/' :: rest)) :
    (rest.rdropWhile (· = '/') ≠ [] ∧ node = trimmed qt (rest.rdropWhile (· = '/'))) ∨
      (rest.rdropWhile (· = '/') = [] ∧ (node = "Top".toList ∨
        (page = "#special#".toList ∧ first = "browse_by_file".toList))) := by
  induction h generalizing rest with
  | @convert url page node hget =>
    obtain ⟨_, hlast, _, hdecode⟩ := get_convert hget
    have hspecial : url ≠ specialUrl := by
      intro hspecial
      exact not_special hpath (congrArg QUrl.path hspecial)
    unfold decodeURL at hdecode
    rw [if_neg hspecial, hpath, decodePath_slash, pageAndNode_node hslash] at hdecode
    have hnode : node = trimmed qt rest := (Prod.mk.inj hdecode).2.symm
    rw [hpath, getLast?_path] at hlast
    have hrest : rest ≠ [] := by
      rintro rfl
      exact hlast rfl
    have hsame : rest.rdropWhile (· = '/') = rest := by
      apply List.rdropWhile_eq_self_iff.mpr
      intro hl hend
      rw [List.getLast?_eq_some_getLast hl] at hlast
      exact hlast (congrArg some (of_decide_eq_true hend))
    rw [hsame]
    exact Or.inl ⟨hrest, hnode⟩
  | @redirection url newUrl page node hget hnew ih =>
    rcases get_redirection hget with ⟨hroot, _⟩ | ⟨_, hhost', _⟩ | ⟨_, _, hlast, rfl⟩
    · rw [hpath] at hroot
      have hnil := (List.cons.inj hroot).2
      simp at hnil
    · exact absurd hhost hhost'
    · rcases List.eq_nil_or_concat' rest with rfl | ⟨init, c, rfl⟩
      · have hdrop : url.path.dropLast = '/' :: first := by
          rw [hpath, ← List.cons_append, List.dropLast_concat]
        refine Or.inr ⟨List.rdropWhile_nil _, ?_⟩
        exact hnew.top hhost hdrop hne hslash
      · have hshape : '/' :: (first ++ '/' :: (init ++ [c])) =
            ('/' :: (first ++ '/' :: init)) ++ [c] := by simp
        have hc : c = '/' := by
          rw [hpath, hshape, List.getLast?_concat] at hlast
          exact Option.some.inj hlast
        have hdrop : url.path.dropLast = '/' :: (first ++ '/' :: init) := by
          rw [hpath, hshape, List.dropLast_concat]
        rw [List.rdropWhile_concat_pos _ _ _ (by simp [hc])]
        exact ih hhost hdrop

lemma opens_exact {url : QUrl} {page node : Text} (hhost : url.host = []) (hslash : '/' ∉ page)
    (hpath : url.path = '/' :: (page ++ '/' :: node)) (hpage : '<' ∉ page) (hnode : '<' ∉ node)
    (hne : node ≠ []) (hlast : node.getLast? ≠ some '/') (htrim : trimmed qt node = node) :
    Opens qt url page node := by
  have hspecial : url ≠ specialUrl := by
    intro hspecial
    exact not_special hpath (congrArg QUrl.path hspecial)
  have hroot : url.path ≠ ['/'] := by
    intro hroot
    rw [hpath] at hroot
    have hnil := (List.cons.inj hroot).2
    simp at hnil
  have hend : url.path.getLast? ≠ some '/' := by
    rw [hpath, getLast?_path, List.getLast?_eq_some_getLast hne]
    rw [List.getLast?_eq_some_getLast hne] at hlast
    exact hlast
  have htag : '<' ∉ url.path := by
    rw [hpath]
    simp [hpage, hnode]
  apply Opens.convert
  rw [get_eq_convert hroot hhost hend htag, decodeURL, if_neg hspecial, hpath,
    decodePath_slash, pageAndNode_node hslash, htrim]

lemma Opens.page_of_relative {url : QUrl} {page node first : Text} (h : Opens qt url page node)
    {rest : Text} (hhost : url.host = []) (hne : first ≠ []) (hslash : '/' ∉ first)
    (hrest : rest = [] ∨ ∃ more, rest = '/' :: more) (hpath : url.path = first ++ rest) :
    page = first := by
  obtain ⟨c, tail, rfl⟩ := List.exists_cons_of_ne_nil hne
  have hc : c ≠ '/' := fun heq => hslash (heq ▸ List.mem_cons_self)
  induction h generalizing rest with
  | @convert url page node hget =>
    obtain ⟨_, _, _, hdecode⟩ := get_convert hget
    have hspecial : url ≠ specialUrl := by
      intro hspecial
      have hsame := hpath.symm.trans (congrArg QUrl.path hspecial)
      exact hc (List.cons.inj hsame).1
    unfold decodeURL at hdecode
    rw [if_neg hspecial, hpath, List.cons_append, decodePath_relative hc, ← List.cons_append]
      at hdecode
    have hpage : page = firstPart ((c :: tail) ++ rest) := by
      rw [← pageAndNode_fst qt, hdecode]
    rcases hrest with rfl | ⟨more, rfl⟩
    · rw [hpage, List.append_nil, firstPart_self hslash]
    · rw [hpage, firstPart_append hslash]
  | @redirection url newUrl page node hget hnew ih =>
    rcases get_redirection hget with ⟨hroot, _⟩ | ⟨_, hhost', _⟩ | ⟨_, _, hlast, rfl⟩
    · rw [hpath] at hroot
      exact absurd (List.cons.inj hroot).1 hc
    · exact absurd hhost hhost'
    · rcases hrest with rfl | ⟨more, rfl⟩
      · rw [hpath, List.append_nil] at hlast
        exact absurd (List.mem_of_getLast? hlast) hslash
      · have hdrop : ((c :: tail) ++ '/' :: more).dropLast =
            (c :: tail) ++ ('/' :: more).dropLast := List.dropLast_append_cons
        refine @ih ('/' :: more).dropLast hhost ?_ (by rw [hpath, hdrop])
        cases more with
        | nil => exact Or.inl rfl
        | cons d more => exact Or.inr ⟨(d :: more).dropLast, rfl⟩

lemma Opens.page_of_host {url : QUrl} {page node : Text} (h : Opens qt url page node)
    (hne : url.host ≠ []) (hslash : '/' ∉ url.host)
    (hpath : url.path = [] ∨ ∃ more, url.path = '/' :: more) :
    page = url.host ∨ page = "dir".toList := by
  cases h with
  | convert hget => exact absurd (get_convert hget).1 hne
  | redirection hget hnew =>
    rcases get_redirection hget with ⟨_, rfl⟩ | ⟨_, _, rfl⟩ | ⟨_, hnil, _⟩
    · rcases @Opens.page qt _ _ _ hnew "dir".toList rfl rfl with hpage | hpage | ⟨_, hbrowse⟩
      · exact Or.inr hpage
      · exact Or.inr hpage
      · exact absurd hbrowse (by decide)
    · exact Or.inl (hnew.page_of_relative rfl hne hslash hpath rfl)
    · exact absurd hnil hne

lemma Opens.page_of_nil {url : QUrl} {page node : Text} (h : Opens qt url page node)
    (hhost : url.host = []) (hpath : url.path = []) : page = [] := by
  cases h with
  | convert hget =>
    obtain ⟨_, _, _, hdecode⟩ := get_convert hget
    have hspecial : url ≠ specialUrl := by
      intro hspecial
      exact absurd (hpath.symm.trans (congrArg QUrl.path hspecial)) nofun
    unfold decodeURL at hdecode
    rw [if_neg hspecial, hpath] at hdecode
    exact (Prod.mk.inj hdecode).1.symm
  | redirection hget _ =>
    rcases get_redirection hget with ⟨hroot, _⟩ | ⟨_, hne, _⟩ | ⟨_, _, hlast, _⟩
    · exact absurd (hpath.symm.trans hroot) nofun
    · exact absurd hhost hne
    · rw [hpath] at hlast
      exact absurd hlast nofun

end KioExtras.Info
