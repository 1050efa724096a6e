import KioExtras.Smb.SmbcUrl
import Mathlib.Data.List.DropRight
import Mathlib.Data.List.Infix
import Mathlib.Logic.Function.Iterate

/-!
The redirections of the SMB worker: `SMBWorker::checkURL` and the chain of URLs that it leads
through.

A URL without a host is taken for a short form of one with a host, by its text. URLs are kept in the
form in which they are shown, so that their text is their parts one after the other.
-/

namespace KioExtras.Smb.CheckURL

open KioExtras.Lib
open KioExtras.Smb.SmbcUrl (Text portText queryText fragmentText userInfoText isDelimiter)

def wsdSuffix : Text := ".kio-discovery-wsd".toList

/-- What Qt takes for a host, and in which form (`none` where it refuses the name). A name is still
one without its last labels or with another last label, and may be a number then. -/
structure Qt where
  setHost : Text → Option Text
  setHost_nil : setHost [] = some []
  setHost_taken : ∀ {text host}, setHost text = some host → setHost host = some host
  setHost_dnssd : ∀ {text}, setHost (text ++ wsdSuffix) = some (text ++ wsdSuffix) →
    setHost (text ++ ".local".toList) = some (text ++ ".local".toList)
  setHost_chop : ∀ {text}, setHost (text ++ wsdSuffix) = some (text ++ wsdSuffix) →
    ∃ host, setHost text = some host ∧ (host = text ∨ ¬wsdSuffix <:+ host)

/-- A host that Qt has taken, and what becomes of a name that is to be the host: none where it is
refused. -/
abbrev Qt.Host (qt : Qt) := { host : Text // qt.setHost host = some host }

def Qt.noHost (qt : Qt) : qt.Host := ⟨[], qt.setHost_nil⟩

def Qt.take (qt : Qt) (text : Text) : Option qt.Host :=
  match h : qt.setHost text with
  | none => none
  | some host => some ⟨host, qt.setHost_taken h⟩

variable {qt : Qt}

/-! ### URLs -/

@[ext]
structure Authority (qt : Qt) where
  userName : Option Text
  password : Option Text
  host : qt.Host
  port : Option ℕ

@[ext]
structure QUrl (qt : Qt) where
  scheme : Text
  authority : Option (Authority qt)
  path : Text
  query : Option Text
  fragment : Option Text
  error : Bool
  path_chars : ∀ c ∈ path, c ≠ '?' ∧ c ≠ '#'
  query_chars : ∀ text ∈ query, '#' ∉ text

def Authority.empty : Authority qt := ⟨none, none, qt.noHost, none⟩

namespace QUrl

variable (u : QUrl qt)

def isEmpty : Bool :=
  u.scheme = [] && u.authority.isNone && u.path = [] && u.query.isNone && u.fragment.isNone

def isValid : Bool :=
  !u.isEmpty && !u.error &&
    if u.path = [] then true
    else if u.path.head? = some '/' then u.authority.isSome || u.path[1]? ≠ some '/'
    else u.authority.isNone && (u.scheme ≠ [] || !(u.path.takeWhile (· ≠ '/')).contains ':')

def authorityText (a : Authority qt) : Text :=
  (if a.userName.isSome ∨ a.password.isSome then userInfoText a.userName a.password ++ ['@']
    else []) ++ a.host.val ++ portText a.port

/-- The text behind the scheme and the authority. -/
def rest : Text := u.path ++ queryText u.query ++ fragmentText u.fragment

def url : Text :=
  if u.isValid then
    (if u.scheme = [] then [] else u.scheme ++ [':']) ++
      (match u.authority with
      | none => []
      | some a => "//".toList ++ authorityText a) ++ u.rest
  else []

def host (u : QUrl qt) : Text := (u.authority.map fun a => a.host.val).getD []

def setScheme (scheme : Text) : QUrl qt := { u with scheme := scheme, error := false }

/-- A name that is refused leaves no host. -/
def setHost (host : Text) : QUrl qt :=
  { u with
    authority := some { u.authority.getD .empty with host := (qt.take host).getD qt.noHost }
    error := (qt.take host).isNone }

lemma encode_chars (path : Text) : ∀ c ∈ Percent.encode isDelimiter path, c ≠ '?' ∧ c ≠ '#' := by
  intro c hc
  refine ⟨?_, ?_⟩
  · rintro rfl
    exact absurd (Percent.mem_encode hc (by decide)).2 (by decide)
  · rintro rfl
    exact absurd (Percent.mem_encode hc (by decide)).2 (by decide)

def setPath (path : Text) : QUrl qt :=
  { u with
    path := Percent.encode isDelimiter path
    error := false
    path_chars := encode_chars path }

def isUserDelimiter (c : Char) : Bool := isDelimiter c || c ∈ ":@/[]".toList

def setUserName (userName : Text) : QUrl qt :=
  { u with
    authority := some { u.authority.getD .empty with
      userName := some (Percent.encode isUserDelimiter userName) }
    error := false }

def setPassword (password : Text) : QUrl qt :=
  { u with
    authority := some { u.authority.getD .empty with
      password := some (Percent.encode isUserDelimiter password) }
    error := false }

end QUrl

/-! ### Reading a text -/

/-- What is before the first `@`, and what is behind it. -/
def splitUserInfo (auth : Text) : Option Text × Text :=
  if '@' ∈ auth then (some (auth.takeWhile (· ≠ '@')), (auth.dropWhile (· ≠ '@')).tail)
  else (none, auth)

/-- The port is behind the last colon, unless that is inside brackets. -/
def splitPort (text : Text) : Text × Option Text :=
  let before := (text.rdropWhile (· ≠ ':')).dropLast
  if ':' ∉ text ∨ text.head? = some '[' ∧ ']' ∉ before then (text, none)
  else (before, some (text.rtakeWhile (· ≠ ':')))

/-- A number, or none behind a colon; `none` where it is no port. -/
def readPort (digits : Option Text) : Option (Option ℕ) :=
  match digits with
  | none => some none
  | some digits =>
    if digits = [] then some none
    else if digits.all Char.isDigit ∧ Nat.ofDigitChars 10 digits 0 < 65536 then
      some (some (Nat.ofDigitChars 10 digits 0))
    else none

/-- What `QUrl` reads between the slashes, and whether there is an error in it. -/
def readAuthority (qt : Qt) (auth : Text) : Authority qt × Bool :=
  let (userInfo, hostPort) := splitUserInfo auth
  let (host, digits) := splitPort hostPort
  ({ userName := userInfo.map fun text => text.takeWhile (· ≠ ':')
     password := userInfo.bind fun text =>
      if ':' ∈ text then some (text.dropWhile (· ≠ ':')).tail else none
     host := (qt.take host).getD qt.noHost
     port := (readPort digits).getD none },
    (qt.take host).isNone || (readPort digits).isNone)

def behind (c : Char) (text : Text) : Option Text :=
  if c ∈ text then some (text.dropWhile (· ≠ c)).tail else none

lemma mem_takeWhile_ne {c d : Char} {text : Text} (h : d ∈ text.takeWhile (· ≠ c)) : d ≠ c := by
  simpa using List.mem_takeWhile_imp h

lemma behind_subset {c d : Char} {text found : Text} (h : found ∈ behind c text) (hd : d ∈ found) :
    d ∈ text := by
  unfold behind at h
  split_ifs at h
  · obtain rfl := Option.some.inj h
    exact (List.dropWhile_suffix _).subset (List.mem_of_mem_tail hd)
  · cases h

def QUrl.read (qt : Qt) (text : Text) : QUrl qt :=
  let noFragment := text.takeWhile (· ≠ '#')
  let hier := noFragment.takeWhile (· ≠ '?')
  let (authority, error) := readAuthority qt (hier.takeWhile (· ≠ '/'))
  { scheme := "smb".toList
    authority := some authority
    path := hier.dropWhile (· ≠ '/')
    query := behind '?' noFragment
    fragment := behind '#' text
    error := error
    path_chars := fun c hc => by
      have hmem := (List.dropWhile_suffix _).subset hc
      exact ⟨mem_takeWhile_ne hmem, mem_takeWhile_ne ((List.takeWhile_prefix _).subset hmem)⟩
    query_chars := fun found hfound hmem =>
      mem_takeWhile_ne (behind_subset hfound hmem) rfl }

/-! ### The redirection -/

def contains (part text : Text) : Bool := text.tails.any part.isPrefixOf

def indexOf (c : Char) (text : Text) : ℕ := (text.takeWhile (· ≠ c)).length

def hasUserInfo (surl : Text) : Bool := '@' ∈ surl && !contains "smb://".toList surl

section checkURL

variable (resolveHostName : Text → Bool)

/-- The part of `checkURL` that makes a host of a name that WS-Discovery has found. -/
def resolveWsd (kurl : QUrl qt) : QUrl qt :=
  if wsdSuffix <:+ kurl.host then
    let host := kurl.host.rdrop wsdSuffix.length
    let dnssd := host ++ ".local".toList
    let host := if resolveHostName dnssd then dnssd else host
    kurl.setHost host
  else kurl

/-- `checkURL` for a text without a host that has an `@`. -/
def splitUser (kurl : QUrl qt) : QUrl qt :=
  let surl := kurl.url
  let url := kurl.setPath ('/' :: surl.drop (indexOf '@' surl + 1))
  let userinfo :=
    if indexOf '@' surl < 5 then surl.drop 5 else (surl.drop 5).take (indexOf '@' surl - 5)
  if ':' ∈ userinfo then
    (url.setUserName (userinfo.take (indexOf ':' userinfo))).setPassword
      (userinfo.drop (indexOf ':' userinfo + 1))
  else url.setUserName userinfo

def checkText (kurl : QUrl qt) : QUrl qt :=
  let surl := kurl.url
  -- transform any links in the form smb:/ into smb://
  if "smb:/".toList.isPrefixOf surl ∧ surl.length = 5 then .read qt []
  else if "smb:/".toList.isPrefixOf surl ∧ surl[5]? ≠ some '/' then .read qt (surl.drop 5)
  else if surl = "smb://".toList then kurl
  else if hasUserInfo surl then splitUser kurl
  else if kurl.path = [] then kurl.setPath ['/']
  else kurl

def checkURL (kurl_ : QUrl qt) : QUrl qt :=
  let kurl := if kurl_.scheme = "cifs".toList then kurl_.setScheme "smb".toList else kurl_
  checkText (resolveWsd resolveHostName kurl)

end checkURL

/-! ### What a URL names -/

structure Names where
  userName : Option Text
  password : Option Text
  host : Text
  path : Text

def rooted (path : Text) : Text := if path = [] then ['/'] else path

/-- The short form `smb:/host/path` names what `smb://host/path` does, if that is a URL. -/
def names (u : QUrl qt) : Option Names :=
  match u.authority with
  | some a => some ⟨a.userName, a.password, a.host.val, rooted u.path⟩
  | none =>
    if u.path.head? = some '/' then
      let (a, error) := readAuthority qt (u.path.tail.takeWhile (· ≠ '/'))
      if error then none
      else
        some ⟨a.userName, a.password, a.host.val, rooted (u.path.tail.dropWhile (· ≠ '/'))⟩
    else some ⟨none, none, [], rooted u.path⟩

section chain

variable (resolveHostName : Text → Bool)

/-- What a name that WS-Discovery has found is replaced by: the name in DNSSD, if there is one, and
otherwise what is left of it. -/
def nextHost (qt : Qt) (resolveHostName : Text → Bool) (name : Text) : Text :=
  if resolveHostName (name ++ ".local".toList) then name ++ ".local".toList
  else (qt.setHost name).getD []

inductive ResolvesTo (qt : Qt) (resolveHostName : Text → Bool) : Text → Text → Prop
  | other {host} : ¬wsdSuffix <:+ host → ResolvesTo qt resolveHostName host host
  | found {name host} : ResolvesTo qt resolveHostName (nextHost qt resolveHostName name) host →
      ResolvesTo qt resolveHostName (name ++ wsdSuffix) host

/-- The same user, host and path, with the host resolved. -/
def Same (u v : QUrl qt) : Prop :=
  ∃ n host, names u = some n ∧ ResolvesTo qt resolveHostName n.host host ∧
    names v = some { n with host := host }

/-- The redirections end at a valid URL that names the same. -/
def Arrives (u : QUrl qt) : Prop :=
  ∃ n v, (checkURL resolveHostName)^[n] u = v ∧ checkURL resolveHostName v = v ∧
    v.isValid = true ∧ Same resolveHostName u v

end chain

def QUrl.smb (u : QUrl qt) : QUrl qt := { u with scheme := "smb".toList }

/-- The URL has an authority; or it is a short form of one; or it has no `@`, or a text with one in
it, and no absolute path. -/
def Proper (u : QUrl qt) : Prop :=
  u.authority.isSome = true ∨
    if u.path.head? = some '/' then
      (readAuthority qt (u.path.tail.takeWhile (· ≠ '/'))).2 = false
    else hasUserInfo u.smb.url = false

/-! ### The text of a URL -/

section text

variable {u : QUrl qt} {a : Authority qt}

structure ValidSmb (u : QUrl qt) : Prop where
  scheme : u.scheme = "smb".toList
  valid : u.isValid = true

lemma ValidSmb.error (h : ValidSmb u) : u.error = false := by
  have hvalid := h.valid
  rw [QUrl.isValid, Bool.and_eq_true, Bool.and_eq_true, Bool.not_eq_true', Bool.not_eq_true']
    at hvalid
  exact hvalid.1.2

lemma url_authority (h : ValidSmb u) (ha : u.authority = some a) :
    u.url = "smb://".toList ++ (QUrl.authorityText a ++ u.rest) := by
  rw [QUrl.url, if_pos h.valid, h.scheme, ha, if_neg (by decide), List.append_assoc]
  rfl

lemma url_none (h : ValidSmb u) (ha : u.authority = none) : u.url = "smb:".toList ++ u.rest := by
  rw [QUrl.url, if_pos h.valid, h.scheme, ha, if_neg (by decide), List.append_nil]
  rfl

lemma contains_prefix (part text : Text) : contains part (part ++ text) = true := by
  refine List.any_eq_true.mpr ⟨part ++ text, (List.mem_tails _ _).mpr (List.suffix_refl _), ?_⟩
  exact List.isPrefixOf_iff_prefix.mpr (List.prefix_append part text)

lemma checkText_authority (h : ValidSmb u) (ha : u.authority = some a) :
    checkText u = if u.url = "smb://".toList then u
      else if u.path = [] then u.setPath ['/'] else u := by
  have hurl := url_authority h ha
  have huser : hasUserInfo u.url = false := by
    rw [hasUserInfo, hurl, contains_prefix, Bool.not_true, Bool.and_false]
  have hslash : u.url[5]? = some '/' := by
    rw [hurl]
    rfl
  have hlength : ¬u.url.length = 5 := by
    rw [hurl, List.length_append]
    have hsix : "smb://".toList.length = 6 := rfl
    omega
  rw [checkText, if_neg fun hc => hlength hc.2, if_neg fun hc => hc.2 hslash, huser]
  rfl

lemma parts_head {p : Text} (hp : p.head? ≠ some '/') (query fragment : Option Text) :
    (p ++ queryText query ++ fragmentText fragment).head? ≠ some '/' := by
  cases p with
  | cons c p => exact hp
  | nil =>
    cases query with
    | some text => simp [queryText]
    | none =>
      cases fragment with
      | some text => simp [queryText, fragmentText]
      | none => simp [queryText, fragmentText]

lemma rest_head (hpath : u.path.head? ≠ some '/') : u.rest.head? ≠ some '/' :=
  parts_head hpath _ _

lemma checkText_relative (h : ValidSmb u) (ha : u.authority = none)
    (hpath : u.path.head? ≠ some '/') :
    checkText u = if hasUserInfo u.url then splitUser u
      else if u.path = [] then u.setPath ['/'] else u := by
  have hurl := url_none h ha
  have hbegins : ¬"smb:/".toList.isPrefixOf u.url = true := by
    intro hp
    obtain ⟨rest, hrest⟩ := List.isPrefixOf_iff_prefix.mp hp
    have hsplit : "smb:/".toList ++ rest = "smb:".toList ++ '/' :: rest := rfl
    rw [hurl, hsplit] at hrest
    have hhead := rest_head hpath
    rw [← List.append_cancel_left hrest] at hhead
    exact hhead rfl
  have hother : ¬u.url = "smb://".toList := by
    intro heq
    rw [heq] at hbegins
    exact hbegins rfl
  rw [checkText, if_neg fun hc => hbegins hc.1, if_neg fun hc => hbegins hc.1, if_neg hother]

lemma checkText_short (h : ValidSmb u) (ha : u.authority = none) (hpath : u.path.head? = some '/') :
    checkText u = .read qt u.rest.tail := by
  obtain ⟨p, hp⟩ : ∃ p, u.path = '/' :: p := by
    cases hp : u.path with
    | nil => rw [hp] at hpath; cases hpath
    | cons c p =>
      rw [hp] at hpath
      exact ⟨p, by rw [Option.some.inj hpath]⟩
  have hrest : u.rest = '/' :: u.rest.tail := by
    rw [QUrl.rest, hp]
    rfl
  have hurl : u.url = "smb:/".toList ++ u.rest.tail := by
    rw [url_none h ha, hrest]
    rfl
  have hp' : p.head? ≠ some '/' := by
    have hvalid := h.valid
    have hhead : ('/' :: p).head? = some '/' := rfl
    rw [QUrl.isValid, hp, ha, if_neg (List.cons_ne_nil _ _), if_pos hhead, Bool.and_eq_true]
      at hvalid
    simpa [List.head?_eq_getElem?] using hvalid.2
  have hhead : u.rest.tail.head? ≠ some '/' := by
    rw [QUrl.rest, hp]
    exact parts_head hp' _ _
  have hbegins : "smb:/".toList.isPrefixOf u.url = true := by
    rw [hurl]
    exact List.isPrefixOf_iff_prefix.mpr (List.prefix_append _ _)
  have hlength : u.url.length = 5 ↔ u.rest.tail = [] := by
    rw [hurl, List.length_append, ← List.length_eq_zero_iff]
    have hfive : "smb:/".toList.length = 5 := rfl
    omega
  have hslash : u.url[5]? ≠ some '/' := by
    rw [hurl, List.head?_eq_getElem?] at *
    rwa [List.getElem?_append_right (by decide)]
  rw [checkText]
  by_cases hempty : u.rest.tail = []
  · rw [if_pos ⟨hbegins, hlength.mpr hempty⟩, hempty]
  · rw [if_neg fun hc => hempty (hlength.mp hc.2), if_pos ⟨hbegins, hslash⟩, hurl]
    rfl

lemma cut_some {c : Char} {before : Text} (hc : c ∉ before) (text : Text) :
    (before ++ c :: text).takeWhile (· ≠ c) = before ∧
      behind c (before ++ c :: text) = some text := by
  have hall : ∀ d ∈ before, decide (d ≠ c) = true := fun d hd =>
    decide_eq_true fun heq => hc (heq ▸ hd)
  refine ⟨?_, ?_⟩
  · rw [List.takeWhile_append_of_pos hall, List.takeWhile_cons_of_neg (by simp), List.append_nil]
  · rw [behind, if_pos (by simp), List.dropWhile_append_of_pos hall,
      List.dropWhile_cons_of_neg (by simp), List.tail_cons]

lemma cut_none {c : Char} {before : Text} (hc : c ∉ before) :
    before.takeWhile (· ≠ c) = before ∧ behind c before = none := by
  refine ⟨List.takeWhile_eq_self_iff.mpr fun d hd => ?_, by rw [behind, if_neg hc]⟩
  exact decide_eq_true fun heq => hc (heq ▸ hd)

lemma read_rest {p : Text} (hp : ∀ c ∈ p, c ≠ '?' ∧ c ≠ '#') {query fragment : Option Text}
    (hq : ∀ text ∈ query, '#' ∉ text) :
    QUrl.read qt (p ++ queryText query ++ fragmentText fragment) =
      { scheme := "smb".toList
        authority := some (readAuthority qt (p.takeWhile (· ≠ '/'))).1
        path := p.dropWhile (· ≠ '/')
        query := query
        fragment := fragment
        error := (readAuthority qt (p.takeWhile (· ≠ '/'))).2
        path_chars := fun c hc => hp c ((List.dropWhile_suffix _).subset hc)
        query_chars := hq } := by
  have hhash : '#' ∉ p ++ queryText query := by
    intro hmem
    rcases List.mem_append.mp hmem with hmem | hmem
    · exact (hp _ hmem).2 rfl
    · cases query with
      | none => exact List.not_mem_nil hmem
      | some text =>
        rcases List.mem_cons.mp hmem with heq | hmem
        · exact absurd heq (by decide)
        · exact hq text rfl hmem
  have hquestion : '?' ∉ p := fun hmem => (hp _ hmem).1 rfl
  obtain ⟨hnoFragment, hfragment⟩ : (p ++ queryText query ++ fragmentText fragment).takeWhile
      (· ≠ '#') = p ++ queryText query ∧
      behind '#' (p ++ queryText query ++ fragmentText fragment) = fragment := by
    cases fragment with
    | none =>
      have hempty : p ++ queryText query ++ fragmentText none = p ++ queryText query :=
        List.append_nil _
      rw [hempty]
      exact cut_none hhash
    | some text => exact cut_some hhash text
  obtain ⟨hhier, hquery⟩ : (p ++ queryText query).takeWhile (· ≠ '?') = p ∧
      behind '?' (p ++ queryText query) = query := by
    cases query with
    | none =>
      have hempty : p ++ queryText none = p := List.append_nil _
      rw [hempty]
      exact cut_none hquestion
    | some text => exact cut_some hquestion text
  unfold QUrl.read
  apply QUrl.ext
  · rfl
  · dsimp only
    rw [hnoFragment, hhier]
  · dsimp only
    rw [hnoFragment, hhier]
  · dsimp only
    rw [hnoFragment, hquery]
  · exact hfragment
  · dsimp only
    rw [hnoFragment, hhier]

end text

/-! ### The end of the redirections -/

section chain

variable {resolveHostName : Text → Bool} {u v : QUrl qt} {a : Authority qt}

lemma setPath_root (u : QUrl qt) (h : u.error = false) :
    u.setPath ['/'] = { u with path := ['/'], path_chars := Percent.forall_mem_of_all rfl } := by
  unfold QUrl.setPath
  apply QUrl.ext
  all_goals first | rfl | exact h.symm

lemma checkText_settled (h : ValidSmb u) (ha : u.authority = some a) :
    ValidSmb (checkText u) ∧ (checkText u).authority = some a ∧
      rooted (checkText u).path = rooted u.path ∧ checkText (checkText u) = checkText u := by
  have htext := checkText_authority h ha
  by_cases hurl : u.url = "smb://".toList
  · rw [if_pos hurl] at htext
    rw [htext, htext]
    exact ⟨h, ha, rfl, rfl⟩
  by_cases hpath : u.path = []
  · rw [if_neg hurl, if_pos hpath, setPath_root u h.error] at htext
    have hvalid : ValidSmb (checkText u) := by
      rw [htext]
      refine ⟨h.scheme, ?_⟩
      simp [QUrl.isValid, QUrl.isEmpty, h.scheme, h.error, ha]
    have ha' : (checkText u).authority = some a := by
      rw [htext]
      exact ha
    have hagain := checkText_authority hvalid ha'
    have hpath' : (checkText u).path = ['/'] := by rw [htext]
    refine ⟨hvalid, ha', by rw [hpath', hpath]; rfl, ?_⟩
    have hne : ¬(checkText u).path = [] := by
      rw [hpath']
      exact List.cons_ne_nil _ _
    rw [hagain, if_neg hne, ite_self]
  · rw [if_neg hurl, if_neg hpath] at htext
    rw [htext, htext]
    exact ⟨h, ha, rfl, rfl⟩

lemma names_authority (ha : u.authority = some a) :
    names u = some ⟨a.userName, a.password, a.host.val, rooted u.path⟩ := by
  rw [names, ha]

lemma checkURL_other (h : ValidSmb u) (hhost : ¬wsdSuffix <:+ u.host) :
    checkURL resolveHostName u = checkText u := by
  have hcifs : ¬u.scheme = "cifs".toList := by
    rw [h.scheme]
    decide
  rw [checkURL, if_neg hcifs, resolveWsd, if_neg hhost]

lemma arrives_other (h : ValidSmb u) (ha : u.authority = some a)
    (hhost : ¬wsdSuffix <:+ a.host.val) : Arrives resolveHostName u := by
  obtain ⟨hvalid, ha', hpath, hfix⟩ := checkText_settled h ha
  have hother : ∀ {w : QUrl qt}, w.authority = some a → ¬wsdSuffix <:+ w.host := by
    intro w hw
    rwa [QUrl.host, hw]
  have hstep : checkURL resolveHostName u = checkText u := checkURL_other h (hother ha)
  refine ⟨1, checkText u, hstep, (checkURL_other hvalid (hother ha')).trans hfix, hvalid.valid, _,
    a.host.val, names_authority ha, .other hhost, ?_⟩
  rw [names_authority ha', hpath]

lemma arrives_step (h : Arrives resolveHostName (checkURL resolveHostName u))
    (hsame : ∀ v, Same resolveHostName (checkURL resolveHostName u) v → Same resolveHostName u v) :
    Arrives resolveHostName u := by
  obtain ⟨n, v, hv, hfix, hvalid, hnames⟩ := h
  exact ⟨n + 1, v, hv, hfix, hvalid, hsame v hnames⟩

/-! ### Names that WS-Discovery has found -/

lemma take_of_setHost {text host : Text} (h : qt.setHost text = some host) :
    ∃ taken, qt.take text = some ⟨host, taken⟩ := by
  have htaken := qt.setHost_taken h
  refine ⟨htaken, ?_⟩
  unfold Qt.take
  split
  · next hnone =>
    rw [h] at hnone
    cases hnone
  · next other hsome =>
    have heq : other = host := Option.some.inj (hsome.symm.trans h)
    subst heq
    rfl

lemma isValid_authority (ha : u.authority = some a) :
    u.isValid = (!u.error && (u.path = [] || u.path.head? = some '/')) := by
  have hempty : u.isEmpty = false := by simp [QUrl.isEmpty, ha]
  rw [QUrl.isValid, hempty, ha]
  by_cases hpath : u.path = []
  · simp [hpath]
  · by_cases hhead : u.path.head? = some '/'
    · simp [hpath, hhead]
    · simp [hpath, hhead]

lemma local_not_wsd (name : Text) : ¬wsdSuffix <:+ name ++ ".local".toList := by
  rintro ⟨before, h⟩
  have hlast := congrArg List.getLast? h
  rw [List.getLast?_append_of_ne_nil _ (by decide), List.getLast?_append_of_ne_nil _ (by decide)]
    at hlast
  revert hlast
  decide

lemma nextHost_taken (resolveHostName : Text → Bool) {name : Text}
    (h : qt.setHost (name ++ wsdSuffix) = some (name ++ wsdSuffix)) :
    (∃ host : qt.Host, host.val = nextHost qt resolveHostName name ∧
      qt.take (if resolveHostName (name ++ ".local".toList) then name ++ ".local".toList
        else name) = some host) ∧
    (nextHost qt resolveHostName name = name ∨
      ¬wsdSuffix <:+ nextHost qt resolveHostName name) := by
  unfold nextHost
  split_ifs with hresolve
  · obtain ⟨taken, htake⟩ := take_of_setHost (qt.setHost_dnssd h)
    exact ⟨⟨_, rfl, htake⟩, Or.inr (local_not_wsd name)⟩
  · obtain ⟨host, hhost, hname⟩ := qt.setHost_chop h
    obtain ⟨taken, htake⟩ := take_of_setHost hhost
    rw [hhost]
    exact ⟨⟨_, rfl, htake⟩, hname⟩

lemma checkURL_wsd (h : ValidSmb u) (ha : u.authority = some a) {name : Text}
    (hname : a.host.val = name ++ wsdSuffix) :
    ∃ host : qt.Host, host.val = nextHost qt resolveHostName name ∧
      ∃ k : QUrl qt, ValidSmb k ∧ k.authority = some { a with host := host } ∧ k.path = u.path ∧
        checkURL resolveHostName u = checkText k := by
  have htaken : qt.setHost (name ++ wsdSuffix) = some (name ++ wsdSuffix) := by
    rw [← hname]
    exact a.host.property
  obtain ⟨⟨host, hhost, htake⟩, -⟩ := nextHost_taken resolveHostName htaken
  have huhost : u.host = name ++ wsdSuffix := by
    rw [QUrl.host, ha]
    exact hname
  have hset : u.setHost (if resolveHostName (name ++ ".local".toList) then
      name ++ ".local".toList else name) =
        { u with authority := some { a with host := host }, error := false } := by
    rw [QUrl.setHost, htake, ha]
    rfl
  have hvalid := h.valid
  rw [isValid_authority ha, h.error] at hvalid
  refine ⟨host, hhost, { u with authority := some { a with host := host }, error := false },
    ⟨h.scheme, ?_⟩, rfl, rfl, ?_⟩
  · rw [isValid_authority (a := { a with host := host }) rfl]
    exact hvalid
  · have hcifs : ¬u.scheme = "cifs".toList := by
      rw [h.scheme]
      decide
    have hdrop : (name ++ wsdSuffix).rdrop wsdSuffix.length = name := by simp [List.rdrop]
    rw [checkURL, if_neg hcifs, resolveWsd, huhost, if_pos (List.suffix_append _ _), hdrop]
    exact congrArg checkText hset

lemma arrives_authority (h : ValidSmb u) (ha : u.authority = some a) :
    Arrives resolveHostName u := by
  induction hn : a.host.val.length using Nat.strongRecOn generalizing u a with
  | _ n ih =>
    by_cases hhost : wsdSuffix <:+ a.host.val
    · obtain ⟨name, hname⟩ := hhost
      obtain ⟨host, hnext, k, hk, hka, hpath, hstep⟩ := checkURL_wsd h ha hname.symm
      obtain ⟨hvalid, hva, hvpath, -⟩ := checkText_settled hk hka
      have htaken : qt.setHost (name ++ wsdSuffix) = some (name ++ wsdSuffix) := by
        rw [hname]
        exact a.host.property
      have hnames := names_authority hva
      refine arrives_step ?_ fun v hsame => ?_
      · rw [hstep]
        rcases (nextHost_taken resolveHostName htaken).2 with hsame | hother
        · refine ih host.val.length ?_ hvalid hva rfl
          rw [hnext, hsame, ← hn, ← hname, List.length_append]
          have hpos : wsdSuffix.length = 18 := rfl
          omega
        · exact arrives_other hvalid hva (by rwa [hnext])
      · obtain ⟨n', host', hn', hresolve, hv⟩ := hsame
        rw [hstep, hnames] at hn'
        obtain rfl := Option.some.inj hn'
        refine ⟨_, host', names_authority ha, ?_, ?_⟩
        · rw [← hname]
          exact .found (hnext ▸ hresolve)
        · rw [hv, hvpath, hpath]
    · exact arrives_other h ha hhost

/-! ### URLs without an authority -/

lemma same_of_names {w : QUrl qt} (h : names u = names w) (hsame : Same resolveHostName w v) :
    Same resolveHostName u v := by
  obtain ⟨n, host, hn, hrest⟩ := hsame
  exact ⟨n, host, h.trans hn, hrest⟩

lemma nil_not_wsd : ¬wsdSuffix <:+ ([] : Text) := by decide

lemma dropWhile_slash (text : Text) :
    text.dropWhile (· ≠ '/') = [] ∨ (text.dropWhile (· ≠ '/')).head? = some '/' := by
  induction text with
  | nil => exact Or.inl rfl
  | cons c text ih =>
    by_cases hc : c = '/'
    · rw [List.dropWhile_cons_of_neg (by simpa using hc), hc]
      exact Or.inr rfl
    · rwa [List.dropWhile_cons_of_pos (by simpa using hc)]

lemma readAuthority_nil : readAuthority qt [] = (.empty, false) := by
  obtain ⟨taken, htake⟩ := take_of_setHost qt.setHost_nil
  simp [readAuthority, splitUserInfo, splitPort, readPort, htake, Authority.empty, Qt.noHost]

lemma checkURL_none (h : ValidSmb u) (ha : u.authority = none) :
    checkURL resolveHostName u = checkText u := by
  refine checkURL_other h ?_
  rw [QUrl.host, ha]
  exact nil_not_wsd

lemma arrives_short (h : ValidSmb u) (ha : u.authority = none) (hpath : u.path.head? = some '/')
    (hread : (readAuthority qt (u.path.tail.takeWhile (· ≠ '/'))).2 = false) :
    Arrives resolveHostName u := by
  have hchars : ∀ c ∈ u.path.tail, c ≠ '?' ∧ c ≠ '#' := fun c hc =>
    u.path_chars c (List.mem_of_mem_tail hc)
  have htail : u.rest.tail =
      u.path.tail ++ queryText u.query ++ fragmentText u.fragment := by
    obtain ⟨p, hp⟩ : ∃ p, u.path = '/' :: p := by
      cases hp : u.path with
      | nil => rw [hp] at hpath; cases hpath
      | cons c p =>
        rw [hp] at hpath
        exact ⟨p, by rw [Option.some.inj hpath]⟩
    rw [QUrl.rest, hp]
    rfl
  have hstep : checkURL resolveHostName u = .read qt u.rest.tail :=
    (checkURL_none h ha).trans (checkText_short h ha hpath)
  rw [htail, read_rest hchars u.query_chars] at hstep
  have hvalid : ValidSmb (checkURL resolveHostName u) := by
    rw [hstep]
    refine ⟨rfl, ?_⟩
    rw [isValid_authority (a := (readAuthority qt (u.path.tail.takeWhile (· ≠ '/'))).1) rfl]
    dsimp only
    rw [hread, Bool.not_false, Bool.true_and]
    simpa using dropWhile_slash u.path.tail
  refine arrives_step (arrives_authority hvalid (by rw [hstep])) fun v => same_of_names ?_
  rw [names, ha, hstep, names]
  dsimp only
  rw [if_pos hpath, hread, if_neg Bool.false_ne_true]

/-- A path without a slash in front, and no `@` that looks like that of a user. -/
lemma arrives_relative (h : ValidSmb u) (ha : u.authority = none)
    (hpath : u.path.head? ≠ some '/') (huser : hasUserInfo u.url = false) :
    Arrives resolveHostName u := by
  have hstep : checkURL resolveHostName u = if u.path = [] then u.setPath ['/'] else u := by
    rw [checkURL_none h ha, checkText_relative h ha hpath, huser]
    rfl
  by_cases hempty : u.path = []
  · rw [if_pos hempty, setPath_root u h.error] at hstep
    have hvalid : ValidSmb (checkURL resolveHostName u) := by
      rw [hstep]
      refine ⟨h.scheme, ?_⟩
      simp [QUrl.isValid, QUrl.isEmpty, h.scheme, h.error]
    refine arrives_step ?_ fun v => same_of_names ?_
    · refine arrives_short hvalid (by rw [hstep]; exact ha) (by rw [hstep]; rfl) ?_
      rw [hstep]
      exact congrArg Prod.snd readAuthority_nil
    · have hslash : ¬([] : Text).head? = some '/' := nofun
      rw [hstep, names, names, ha, hempty]
      dsimp only
      have hroot : (['/'] : Text).head? = some '/' := rfl
      rw [if_neg hslash, if_pos hroot]
      have hnil : (['/'] : Text).tail.takeWhile (· ≠ '/') = [] := rfl
      rw [hnil, readAuthority_nil]
      rfl
  · rw [if_neg hempty] at hstep
    refine ⟨0, u, rfl, hstep, h.valid, ⟨none, none, [], rooted u.path⟩, [], ?_,
      .other nil_not_wsd, ?_⟩
    · rw [names, ha]
      dsimp only
      rw [if_neg hpath]
    · rw [names, ha]
      dsimp only
      rw [if_neg hpath]

/-! ### A user without a host -/

/-- What is left of a text in which a user has been looked for: no host, and a path. -/
structure Hostless (u : QUrl qt) (a : Authority qt) : Prop where
  valid : ValidSmb u
  authority : u.authority = some a
  userName : a.userName ≠ none
  host : a.host.val = []

lemma splitUser_hostless (h : ValidSmb u) (ha : u.authority = none) :
    ∃ a, Hostless (splitUser u) a := by
  have hpath : ∀ t, (Percent.encode isDelimiter ('/' :: t)).head? = some '/' := fun t => rfl
  unfold splitUser
  dsimp only
  split_ifs
  all_goals
    refine ⟨_, ⟨h.scheme, ?_⟩, rfl, ?_, ?_⟩
    · rw [isValid_authority rfl]
      simp [QUrl.setPassword, QUrl.setUserName, QUrl.setPath, hpath]
    · exact Option.some_ne_none _
    · simp [QUrl.setPath, ha, QUrl.setUserName, Authority.empty, Qt.noHost]

lemma Hostless.step (h : Hostless u a) : Hostless (checkURL resolveHostName u) a := by
  have hother : ¬wsdSuffix <:+ u.host := by
    rw [QUrl.host, h.authority]
    exact h.host ▸ nil_not_wsd
  obtain ⟨hvalid, ha, -, -⟩ := checkText_settled h.valid h.authority
  rw [checkURL_other h.valid hother]
  exact ⟨hvalid, ha, h.userName, h.host⟩

lemma Hostless.iterate (h : Hostless u a) (n : ℕ) :
    Hostless ((checkURL resolveHostName)^[n] u) a := by
  induction n with
  | zero => exact h
  | succ n ih =>
    rw [Function.iterate_succ_apply']
    exact ih.step

/-! ### Both schemes -/

lemma QUrl.smb_valid (hvalid : u.isValid = true) (hscheme : u.scheme ≠ []) : ValidSmb u.smb := by
  have hsame : u.smb.isValid = u.isValid := by
    have hempty : u.isEmpty = false := by simp [QUrl.isEmpty, hscheme]
    have hsmb : u.smb.isEmpty = false := by simp [QUrl.isEmpty, QUrl.smb]
    rw [QUrl.isValid, QUrl.isValid, hempty, hsmb, decide_eq_true hscheme]
    rfl
  exact ⟨rfl, hsame.trans hvalid⟩

lemma checkURL_smb (hscheme : u.scheme = "smb".toList ∨ u.scheme = "cifs".toList)
    (hvalid : ValidSmb u.smb) : checkURL resolveHostName u = checkURL resolveHostName u.smb := by
  rcases hscheme with hsmb | hcifs
  · have hsame : u.smb = u := by
      apply QUrl.ext
      · exact hsmb.symm
      all_goals rfl
    rw [hsame]
  · have hset : u.setScheme "smb".toList = u.smb := by
      apply QUrl.ext
      all_goals first | rfl | exact hvalid.error.symm
    have hother : ¬u.smb.scheme = "cifs".toList := by
      rw [hvalid.scheme]
      decide
    rw [checkURL, if_pos hcifs, hset, checkURL, if_neg hother]

lemma arrives_smb (hscheme : u.scheme = "smb".toList ∨ u.scheme = "cifs".toList)
    (hvalid : ValidSmb u.smb) (h : Arrives resolveHostName u.smb) : Arrives resolveHostName u := by
  obtain ⟨n, v, hv, hfix, hvvalid, hsame⟩ := h
  refine ⟨n + 1, v, ?_, hfix, hvvalid, same_of_names rfl hsame⟩
  rw [Function.iterate_succ_apply, checkURL_smb hscheme hvalid, ← Function.iterate_succ_apply,
    Function.iterate_succ_apply', hv, hfix]

lemma not_arrives_unread (ha : u.authority = none) (hpath : u.path.head? = some '/')
    (hread : (readAuthority qt (u.path.tail.takeWhile (· ≠ '/'))).2 ≠ false) :
    ¬Arrives resolveHostName u := by
  rintro ⟨n, v, -, -, -, names', host, hn, -⟩
  rw [names, ha] at hn
  dsimp only at hn
  rw [Bool.ne_false_iff] at hread
  rw [if_pos hpath, if_pos hread] at hn
  cases hn

lemma not_arrives_user (hscheme : u.scheme = "smb".toList ∨ u.scheme = "cifs".toList)
    (hvalid : ValidSmb u.smb) (ha : u.authority = none) (hpath : u.path.head? ≠ some '/')
    (huser : hasUserInfo u.smb.url = true) : ¬Arrives resolveHostName u := by
  rintro ⟨n, v, hv, hfix, -, names', host, hn, -, hnames⟩
  obtain ⟨a, hstep⟩ : ∃ a, Hostless (checkURL resolveHostName u) a := by
    rw [checkURL_smb hscheme hvalid, checkURL_none hvalid ha,
      checkText_relative hvalid ha hpath, if_pos huser]
    exact splitUser_hostless hvalid ha
  cases n with
  | zero =>
    have hsame : u = v := hv
    have hauthority := hstep.authority
    rw [hsame, hfix, ← hsame, ha] at hauthority
    cases hauthority
  | succ n =>
    have hlater : Hostless ((checkURL resolveHostName)^[n] (checkURL resolveHostName u)) a :=
      hstep.iterate n
    rw [← Function.iterate_succ_apply, hv] at hlater
    rw [names, ha] at hn
    dsimp only at hn
    rw [if_neg hpath] at hn
    obtain rfl := Option.some.inj hn
    rw [names_authority hlater.authority] at hnames
    exact hlater.userName (congrArg Names.userName (Option.some.inj hnames))

end chain

/-- **The redirections of a URL** end at a valid one that names the same user, host and path just if
the URL has an authority or is a short form of one, or no user is looked for in its text. -/
theorem checkURL_arrives_iff (qt : Qt) (resolveHostName : Text → Bool) (u : QUrl qt)
    (hvalid : u.isValid = true) (hscheme : u.scheme = "smb".toList ∨ u.scheme = "cifs".toList) :
    Arrives resolveHostName u ↔ Proper u := by
  have hne : u.scheme ≠ [] := by
    rcases hscheme with h | h <;> rw [h] <;> decide
  have hsmb := u.smb_valid hvalid hne
  constructor
  · intro harrives
    by_contra hproper
    rw [Proper, not_or, Bool.not_eq_true, Option.isSome_eq_false_iff, Option.isNone_iff_eq_none]
      at hproper
    obtain ⟨ha, hshort⟩ := hproper
    split_ifs at hshort with hpath
    · exact not_arrives_unread ha hpath hshort harrives
    · rw [Bool.not_eq_false] at hshort
      exact not_arrives_user hscheme hsmb ha hpath hshort harrives
  · intro hproper
    apply arrives_smb hscheme hsmb
    cases ha : u.authority with
    | some a => exact arrives_authority hsmb ha
    | none =>
      have hshort := hproper.resolve_left (by rw [ha]; exact Bool.false_ne_true)
      split_ifs at hshort with hpath
      · exact arrives_short hsmb ha hpath hshort
      · exact arrives_relative hsmb ha hpath hshort

/-- Lower case names as they are. -/
def isName (text : Text) : Bool :=
  text.all (fun c => c.isLower || c.isDigit || c = '.' || c = '-') && text.head? ≠ some '.'

lemma isName_change {text before after : Text} (h : isName (text ++ before) = true)
    (hbefore : before.head? = some '.')
    (hafter : after.all (fun c => c.isLower || c.isDigit || c = '.' || c = '-') = true) :
    isName (text ++ after) = true := by
  rw [isName, Bool.and_eq_true, List.all_append, Bool.and_eq_true] at h ⊢
  refine ⟨⟨h.1.1, hafter⟩, ?_⟩
  cases text with
  | nil => exact absurd hbefore (by simpa using h.2)
  | cons c text => exact h.2

/-- A Qt that takes only these. -/
def lowerCase : Qt where
  setHost text := if isName text then some text else none
  setHost_nil := rfl
  setHost_taken h := by
    split_ifs at h with hname
    obtain rfl := Option.some.inj h
    exact if_pos hname
  setHost_dnssd h := by
    split_ifs at h with hname
    exact if_pos (isName_change hname rfl (by decide))
  setHost_chop := by
    intro text h
    split_ifs at h with hname
    have hchop : isName (text ++ []) = true := isName_change hname rfl rfl
    rw [List.append_nil] at hchop
    exact ⟨_, if_pos hchop, Or.inl rfl⟩

/-- A share of a host that WS-Discovery has found, in the short form. -/
theorem share_arrives :
    Arrives (fun _ => false)
      (⟨"cifs".toList, none, "/nas.kio-discovery-wsd/share".toList, none, none, false,
        Percent.forall_mem_of_all rfl, nofun⟩ : QUrl lowerCase) :=
  (checkURL_arrives_iff lowerCase (fun _ => false) _ (by decide) (Or.inr rfl)).mpr
    (Or.inr (by decide))

/-- The first letter of a user without a host is lost, and the host becomes a part of the path. -/
theorem user_loses_letter :
    ∃ u : QUrl lowerCase, u.isValid = true ∧ u.url = "smb:user@host/path".toList ∧
      (checkURL (fun _ => false) u).url = "smb://ser@/host/path".toList ∧
      ¬Arrives (fun _ => false) u := by
  refine ⟨⟨"smb".toList, none, "user@host/path".toList, none, none, false,
    Percent.forall_mem_of_all rfl, nofun⟩, by decide, by decide, by decide, ?_⟩
  exact not_arrives_user (Or.inl rfl) ⟨rfl, by decide⟩ rfl (by decide) (by decide)

end KioExtras.Smb.CheckURL
