import KioExtras.Lib.Percent
import KioExtras.Lib.Split

/-!
What is handed to libsmbclient for a URL: `SMBUrl::updateCache`.

The string is made in three ways: by `QUrl`, by `QUrl` with another host where the host is an IPv6
address, and by hand where the query has the name of a workgroup.
-/

namespace KioExtras.Smb.SmbcUrl

open KioExtras.Lib

abbrev Text := List Char

/-! ### The parts of a URL -/

structure IsHost (text : Text) : Prop where
  chars : ∀ c ∈ text, c ∉ "%:@/?#[]".toList
  dot : text.head? ≠ some '.'

/-- The text of an IPv6 address without its scope, as `QHostAddress::toString` has it: the longest
run of zeros is left out. -/
structure Address where
  text : Text
  ne : text ≠ []
  chars : ∀ c ∈ text, c ∈ ":.0123456789abcdef".toList
  front : text.head? = some ':' → "::".toList <+: text
  back : text.getLast? = some ':' → "::".toList <:+ text
  front_run : ¬ "0::".toList <+: text
  back_run : ¬ "::0".toList <:+ text

/-- The host as `QHostAddress` tells it apart. A scope may be empty, and so may a name. -/
inductive Host
  | name (text : Text) (host : IsHost text)
  | ipv6 (address : Address) (scope : Text)

structure Authority where
  userName : Option Text
  password : Option Text
  host : Host
  port : Option ℕ
  userName_chars : ∀ c ∈ userName.getD [], c ∉ ":@/?#".toList
  password_chars : ∀ c ∈ password.getD [], c ∉ "@/?#".toList

/-- The names that stay of a path, last first: those that are empty or a dot go, and one that goes
up takes the one before it along. -/
def resolved : List Text → List Text → List Text
  | names, [] => names
  | names, part :: parts =>
    if part = [] ∨ part = ['.'] then resolved names parts
    else if part = ['.', '.'] then
      match names with
      | [] => resolved [part] parts
      | last :: before =>
        if last = ['.', '.'] then resolved (part :: names) parts else resolved before parts
    else resolved (part :: names) parts

def cleanPath (path : Text) : Text :=
  let names := ['/'].intercalate (resolved [] (path.splitOn '/')).reverse
  if path.head? = some '/' then '/' :: names
  else if path ≠ [] ∧ names = [] then ['.']
  else names

/-- An `SMBUrl` of the scheme `smb`. The path is decoded and clean; query and fragment are
percent-encoded. -/
structure SMBUrl where
  authority : Option Authority
  path : Text
  query : Option Text
  fragment : Option Text
  path_clean : cleanPath path = path
  path_absolute : authority.isSome → path = [] ∨ path.head? = some '/'

/-- What Qt does: reading bytes, setting a host (`none` where it is refused), the items of a query,
and the user information, which shows more than it may in a URL. -/
structure Qt where
  utf8 : Percent.Utf8
  setHost : Text → Option Text
  queryItemValue : Text → Text → Text
  removeQueryItem : Text → Text → Text
  userInfo : Option Text → Option Text → Text
  setHost_isHost : ∀ text host, setHost text = some host → IsHost host

/-! ### The string -/

def replace (before after : Char) (text : Text) : Text :=
  text.map fun c => if c = before then after else c

def ipv6Literal (address : Address) (scope : Text) : Text :=
  let literal := address.text ++ if scope = [] then [] else '%' :: scope
  let literal := replace ':' '-' literal -- address
  let literal := replace '%' 's' literal -- scope
  let literal := if literal.head? = some '-' then '0' :: literal else literal
  let literal := if literal.getLast? = some '-' then literal ++ ['0'] else literal
  literal ++ ".ipv6-literal.net".toList

/-- What the pretty form of a path escapes. -/
def isDelimiter (c : Char) : Bool :=
  c = '%' || c = '?' || c = '#' || c.toNat < 32 || c.toNat = 127

def portText (port : Option ℕ) : Text :=
  match port with
  | none => []
  | some n => ':' :: Nat.toDigits 10 n

def queryText (query : Option Text) : Text :=
  match query with
  | none => []
  | some text => '?' :: text

def fragmentText (fragment : Option Text) : Text :=
  match fragment with
  | none => []
  | some text => '#' :: text

def userInfoText (userName password : Option Text) : Text :=
  userName.getD [] ++
    match password with
    | none => []
    | some text => ':' :: text

section url

variable (qt : Qt)

/-- The host of `sambaUrl`; `none` where the URL has become invalid. -/
def sambaHost : Host → Option Text
  | .name text _ => some text
  | .ipv6 address scope => qt.setHost (ipv6Literal address scope)

def authorityText (authority : Authority) (host : Text) : Text :=
  (if authority.userName.isSome ∨ authority.password.isSome then
    userInfoText authority.userName authority.password ++ ['@'] else []) ++
    host ++ portText authority.port

/-- `sambaUrl.toString(QUrl::PrettyDecoded)`; the string of an invalid URL is empty. -/
def prettyDecoded (u : SMBUrl) : Text :=
  let rest := Percent.encode isDelimiter u.path ++ queryText u.query ++ fragmentText u.fragment
  match u.authority with
  | none => "smb:".toList ++ rest
  | some authority =>
    match sambaHost qt authority.host with
    | none => []
    | some host => "smb://".toList ++ authorityText authority host ++ rest

/-- `query.queryItemValue("kio-workgroup")` -/
def workgroup (u : SMBUrl) : Text :=
  qt.queryItemValue (u.query.getD []) "kio-workgroup".toList

def host (u : SMBUrl) : Text :=
  (u.authority.bind fun authority => sambaHost qt authority.host).getD []

def userInfo (u : SMBUrl) : Text :=
  qt.userInfo (u.authority.bind Authority.userName) (u.authority.bind Authority.password)

/-- `sambaUrl.query()` without the workgroup -/
def otherQuery (u : SMBUrl) : Text :=
  qt.removeQueryItem (u.query.getD []) "kio-workgroup".toList

/-- `m_surl`, before it is taken as UTF-8. -/
def toSmbcUrl (u : SMBUrl) : Text :=
  if workgroup qt u = [] then
    -- If we don't have a hack to apply we can simply defer to QUrl
    if prettyDecoded qt u = "smb:/".toList then "smb://".toList else prettyDecoded qt u
  else
    "smb://".toList ++ (if userInfo qt u ≠ [] then userInfo qt u ++ ['@'] else []) ++
      workgroup qt u ++ portText (u.authority.bind Authority.port) ++
      cleanPath ('/' :: (host qt u ++ u.path)) ++
      (if otherQuery qt u ≠ [] then '?' :: otherQuery qt u else []) ++
      (if u.fragment.getD [] ≠ [] then '#' :: u.fragment.getD [] else [])

end url

/-! ### What libsmbclient reads -/

structure Target where
  user : Text
  server : Text
  port : Option ℕ
  components : List Text
  deriving DecidableEq

/-- The names in a path. -/
def components (path : Text) : List Text := (path.splitOn '/').filter (· ≠ [])

section smbc

variable (u : Percent.Utf8)

/-- The user is before the first `@`, without the password; the port is after the first colon. -/
def readAuthority (authority : Text) : Text × Text × Option ℕ :=
  let userinfo := if '@' ∈ authority then authority.takeWhile (· ≠ '@') else []
  let server := if '@' ∈ authority then (authority.dropWhile (· ≠ '@')).tail else authority
  let port :=
    match server.dropWhile (· ≠ ':') with
    | [] => none
    | _ :: digits => some (Nat.ofDigitChars 10 digits 0)
  (Percent.decode u (userinfo.takeWhile (· ≠ ':')), Percent.decode u (server.takeWhile (· ≠ ':')),
    port)

/-- The rules of libsmbclient: options start at a question mark, the authority ends at the first
slash, the rest is split at slashes, and all of it is decoded once. `smb:` alone is the network. -/
def smbcParse (s : Text) : Option Target :=
  if s = "smb:".toList then some ⟨[], [], none, []⟩
  else if "smb://".toList <+: s then
    let p := (s.drop 6).takeWhile (· ≠ '?')
    let (user, server, port) := readAuthority u (p.takeWhile (· ≠ '/'))
    some ⟨user, server, port, (components (p.dropWhile (· ≠ '/'))).map (Percent.decode u)⟩
  else none

end smbc

/-! ### What the string is to lead to -/

def hostOf (u : SMBUrl) : Host :=
  match u.authority with
  | none => .name [] ⟨nofun, nofun⟩
  | some authority => authority.host

def serverName : Host → Text
  | .name text _ => text
  | .ipv6 address scope => ipv6Literal address scope

/-- Below a workgroup a host is a name like those of the path. -/
def hostNames (server : Text) : List Text := if server = [] then [] else [server]

section faithful

variable (qt : Qt)

/-- The decoded parts of the URL. -/
def target (u : SMBUrl) : Target where
  user := Percent.decode qt.utf8 ((u.authority.bind Authority.userName).getD [])
  server :=
    if workgroup qt u = [] then serverName (hostOf u)
    else Percent.decode qt.utf8 (workgroup qt u)
  port := u.authority.bind Authority.port
  components :=
    (if workgroup qt u = [] then [] else hostNames (serverName (hostOf u))) ++ components u.path

def Faithful (u : SMBUrl) : Prop := smbcParse qt.utf8 (toSmbcUrl qt u) = some (target qt u)

/-- `QUrl` takes the literal of the address as it is. -/
def Kept : Host → Prop
  | .name _ _ => True
  | .ipv6 address scope =>
    qt.setHost (ipv6Literal address scope) = some (ipv6Literal address scope)

/-- What the string that `QUrl` makes can tell: a host or the root of the network, and a fragment
only behind a query. -/
def Direct (u : SMBUrl) : Prop :=
  match u.authority with
  | none => (u.path = [] ∨ u.path = ['/']) ∧ u.query = none ∧ u.fragment = none
  | some authority => Kept qt authority.host ∧ (u.fragment = none ∨ u.query ≠ none)

/-- What the string that is made by hand can tell, where nothing is escaped. -/
structure ByHand (u : SMBUrl) : Prop where
  kept : Kept qt (hostOf u)
  userInfo : userInfo qt u = userInfoText (u.authority.bind Authority.userName)
    (u.authority.bind Authority.password)
  workgroup : ∀ c ∈ workgroup qt u, c ∉ ":@/?".toList
  names : ∀ name ∈ components u.path, '?' ∉ name ∧ Percent.Plain name
  ups : host qt u = [] ∨ ['.', '.'] ∉ components u.path
  dot : u.path ≠ ['.']
  fragment : u.fragment.getD [] = [] ∨ otherQuery qt u ≠ []

def Expressible (u : SMBUrl) : Prop :=
  if workgroup qt u = [] then Direct qt u else ByHand qt u

end faithful

structure PlainScope (scope : Text) : Prop where
  colon : ':' ∉ scope
  percent : '%' ∉ scope
  last : scope.getLast? ≠ some '-'

/-- An IPv6 address and the reserved name that is its literal, or addresses whose scopes the literal
does not show as they are. -/
def Alias : Host → Host → Prop
  | .name _ _, .name _ _ => False
  | .name text _, .ipv6 address scope => text = ipv6Literal address scope
  | .ipv6 address scope, .name text _ => text = ipv6Literal address scope
  | .ipv6 a s, .ipv6 b t => ipv6Literal a s = ipv6Literal b t ∧ ¬ (PlainScope s ∧ PlainScope t)

/-! ### Splitting -/

variable {c : Char} {a b part : Text}

lemma slash_notMem_escapeChar : '/' ∉ Percent.escapeChar c := by
  intro h
  have hdigit : ∀ d ∈ "0123456789ABCDEF".toList, d ≠ '/' := Percent.forall_mem_of_all (by decide)
  simp only [Percent.escapeChar, List.mem_cons, List.not_mem_nil, or_false] at h
  rcases h with h | h | h
  · exact absurd h (by decide)
  · exact hdigit _ (Percent.hexDigit_mem _) h.symm
  · exact hdigit _ (Percent.hexDigit_mem _) h.symm

lemma splitOn_encode (path : Text) : (Percent.encode isDelimiter path).splitOn '/' =
    (path.splitOn '/').map (Percent.encode isDelimiter) := by
  refine Split.splitOn_flatMap rfl (fun c hc => ?_) path
  split_ifs
  · exact slash_notMem_escapeChar
  · exact fun hmem => hc (List.mem_singleton.mp hmem).symm

lemma delimiter_ascii (c : Char) (h : isDelimiter c = true) : c.toNat < 128 := by
  unfold isDelimiter at h
  simp only [Bool.or_eq_true, decide_eq_true_eq] at h
  rcases h with (((rfl | rfl) | rfl) | h) | h
  · decide
  · decide
  · decide
  · omega
  · omega

lemma decode_encode (u : Percent.Utf8) (text : Text) :
    Percent.decode u (Percent.encode isDelimiter text) = text :=
  Percent.decode_encode u delimiter_ascii rfl text

lemma encode_eq_nil (text : Text) : Percent.encode isDelimiter text = [] ↔ text = [] := by
  constructor
  · intro h
    have hdecode := decode_encode Percent.latin1 text
    rw [h] at hdecode
    exact hdecode.symm
  · rintro rfl
    rfl

lemma components_encode (u : Percent.Utf8) (path : Text) :
    (components (Percent.encode isDelimiter path)).map (Percent.decode u) = components path := by
  have hfilter : ((path.splitOn '/').map (Percent.encode isDelimiter)).filter (· ≠ []) =
      ((path.splitOn '/').filter (· ≠ [])).map (Percent.encode isDelimiter) := by
    rw [List.filter_map]
    refine congrArg _ (List.filter_congr fun part _ => ?_)
    simp only [Function.comp_apply, ne_eq, encode_eq_nil]
  have hread : Percent.decode u ∘ Percent.encode isDelimiter = id := by
    ext1 text
    exact decode_encode u text
  unfold components
  rw [splitOn_encode, hfilter, List.map_map, hread, List.map_id]

/-! ### Reading a URL -/

lemma takeWhile_stop {stop : Char} (ha : stop ∉ a) (hb : b = [] ∨ b.head? = some stop) :
    (a ++ b).takeWhile (· ≠ stop) = a := by
  induction a with
  | nil =>
    cases b with
    | nil => rfl
    | cons c b =>
      rcases hb with hb | hb
      · cases hb
      · obtain rfl : c = stop := Option.some.inj hb
        simp
  | cons c a ih =>
    rw [List.mem_cons, not_or] at ha
    rw [List.cons_append, List.takeWhile_cons_of_pos, ih ha.2]
    simpa using fun heq => ha.1 heq.symm

lemma dropWhile_stop {stop : Char} (ha : stop ∉ a) (hb : b = [] ∨ b.head? = some stop) :
    (a ++ b).dropWhile (· ≠ stop) = b := by
  have hsplit := List.takeWhile_append_dropWhile (p := (· ≠ stop)) (l := a ++ b)
  rw [takeWhile_stop ha hb] at hsplit
  exact List.append_cancel_left hsplit

section reading

variable (u : Percent.Utf8)

lemma decode_nil : Percent.decode u [] = [] := Percent.join_nil u

lemma smbcParse_slashes {authority path options : Text} (hauthority : '/' ∉ authority)
    (hquestion : '?' ∉ authority) (hpath : '?' ∉ path) (hslash : path = [] ∨ path.head? = some '/')
    (hoptions : options = [] ∨ options.head? = some '?') :
    smbcParse u ("smb://".toList ++ (authority ++ path ++ options)) =
      some ⟨(readAuthority u authority).1, (readAuthority u authority).2.1,
        (readAuthority u authority).2.2, (components path).map (Percent.decode u)⟩ := by
  have hshort : "smb://".toList ++ (authority ++ path ++ options) ≠ "smb:".toList := by
    intro heq
    have hlength := congrArg List.length heq
    simp at hlength
  have hdrop : ("smb://".toList ++ (authority ++ path ++ options)).drop 6 =
      authority ++ path ++ options := rfl
  have hnone : '?' ∉ authority ++ path := by
    rw [List.mem_append, not_or]
    exact ⟨hquestion, hpath⟩
  unfold smbcParse
  rw [if_neg hshort, if_pos (List.prefix_append _ _), hdrop, takeWhile_stop hnone hoptions]
  dsimp only
  rw [takeWhile_stop hauthority hslash, dropWhile_stop hauthority hslash]

lemma digit_ne {c d : Char} {n : ℕ} (h : c ∈ Nat.toDigits 10 n) (hd : d.isDigit = false) :
    c ≠ d := by
  rintro rfl
  have hdigit := Nat.isDigit_of_mem_toDigits (by decide) (by decide) h
  rw [hd] at hdigit
  cases hdigit

lemma notMem_portText {c : Char} (hc : c.isDigit = false) (hcolon : c ≠ ':') (port : Option ℕ) :
    c ∉ portText port := by
  cases port with
  | none => exact List.not_mem_nil
  | some n =>
    intro h
    rcases List.mem_cons.mp h with h | h
    · exact hcolon h
    · exact digit_ne h hc rfl

lemma portText_head (port : Option ℕ) : portText port = [] ∨ (portText port).head? = some ':' := by
  cases port with
  | none => exact Or.inl rfl
  | some n => exact Or.inr rfl

lemma readServer {server : Text} (hserver : ':' ∉ server) (port : Option ℕ) :
    (server ++ portText port).takeWhile (· ≠ ':') = server ∧
      (match (server ++ portText port).dropWhile (· ≠ ':') with
        | [] => none
        | _ :: digits => some (Nat.ofDigitChars 10 digits 0)) = port := by
  rw [takeWhile_stop hserver (portText_head port), dropWhile_stop hserver (portText_head port)]
  refine ⟨rfl, ?_⟩
  cases port with
  | none => rfl
  | some n => exact congrArg some Nat.ofDigitChars_ten_toDigits

lemma readAuthority_server {server : Text} (hat : '@' ∉ server) (hcolon : ':' ∉ server)
    (port : Option ℕ) :
    readAuthority u (server ++ portText port) = ([], Percent.decode u server, port) := by
  have hnone : '@' ∉ server ++ portText port := by
    rw [List.mem_append, not_or]
    exact ⟨hat, notMem_portText (by decide) (by decide) port⟩
  obtain ⟨hserver, hport⟩ := readServer hcolon port
  unfold readAuthority
  dsimp only
  rw [if_neg hnone, if_neg hnone, hserver, hport, List.takeWhile_nil, decode_nil]

lemma readAuthority_user {info server : Text} (hinfo : '@' ∉ info) (hcolon : ':' ∉ server)
    (port : Option ℕ) :
    readAuthority u (info ++ '@' :: (server ++ portText port)) =
      (Percent.decode u (info.takeWhile (· ≠ ':')), Percent.decode u server, port) := by
  have hmem : '@' ∈ info ++ '@' :: (server ++ portText port) := by simp
  obtain ⟨hserver, hport⟩ := readServer hcolon port
  unfold readAuthority
  dsimp only
  rw [if_pos hmem, if_pos hmem, takeWhile_stop hinfo (Or.inr rfl),
    dropWhile_stop hinfo (Or.inr rfl), List.tail_cons, hserver, hport]

end reading

/-! ### Clean paths -/

def dots : Text := ['.', '.']

/-- The names of a clean path, last first: those that go up come before all others. -/
structure Stack (names : List Text) : Prop where
  proper : ∀ name ∈ names, name ≠ [] ∧ name ≠ ['.']
  ups : names.Pairwise fun later earlier => later = dots → earlier = dots

lemma stack_nil : Stack [] := ⟨nofun, .nil⟩

lemma Stack.push {names : List Text} (h : Stack names) (hne : part ≠ []) (hdot : part ≠ ['.'])
    (hups : part = dots → ∀ name ∈ names, name = dots) : Stack (part :: names) := by
  refine ⟨?_, List.pairwise_cons.mpr ⟨fun name hname heq => hups heq name hname, h.ups⟩⟩
  intro name hname
  rcases List.mem_cons.mp hname with rfl | hname
  · exact ⟨hne, hdot⟩
  · exact h.proper name hname

lemma Stack.pop {names : List Text} (h : Stack (part :: names)) : Stack names :=
  ⟨fun name hname => h.proper name (List.mem_cons_of_mem _ hname), (List.pairwise_cons.mp h.ups).2⟩

lemma Stack.all_up {names : List Text} (h : Stack (dots :: names)) :
    ∀ name ∈ dots :: names, name = dots := by
  intro name hname
  rcases List.mem_cons.mp hname with rfl | hname
  · rfl
  · exact (List.pairwise_cons.mp h.ups).1 name hname rfl

lemma resolved_stack {names : List Text} (h : Stack names) (parts : List Text) :
    Stack (resolved names parts) ∧ ∀ name ∈ resolved names parts, name ∈ names ∨ name ∈ parts := by
  induction parts generalizing names with
  | nil => exact ⟨h, fun name hname => Or.inl hname⟩
  | cons part parts ih =>
    have hmore : ∀ {names'}, (∀ name ∈ names', name ∈ names ∨ name = part) → Stack names' →
        Stack (resolved names' parts) ∧ ∀ name ∈ resolved names' parts,
          name ∈ names ∨ name ∈ part :: parts := by
      intro names' hfrom hstack
      refine ⟨(ih hstack).1, fun name hname => ?_⟩
      rcases (ih hstack).2 name hname with hold | hnew
      · rcases hfrom name hold with hname | rfl
        · exact Or.inl hname
        · exact Or.inr List.mem_cons_self
      · exact Or.inr (List.mem_cons_of_mem _ hnew)
    have hpush : ∀ name ∈ part :: names, name ∈ names ∨ name = part := by
      intro name hname
      rcases List.mem_cons.mp hname with rfl | hname
      · exact Or.inr rfl
      · exact Or.inl hname
    unfold resolved
    by_cases hskip : part = [] ∨ part = ['.']
    · rw [if_pos hskip]
      exact hmore (fun name hname => Or.inl hname) h
    · rw [if_neg hskip]
      rw [not_or] at hskip
      by_cases hup : part = ['.', '.']
      · rw [if_pos hup]
        cases names with
        | nil =>
          exact hmore (fun name hname => Or.inr (List.mem_singleton.mp hname))
            (h.push hskip.1 hskip.2 fun _ => nofun)
        | cons last before =>
          dsimp only
          by_cases hlast : last = ['.', '.']
          · rw [if_pos hlast]
            subst hlast
            exact hmore hpush (h.push hskip.1 hskip.2 fun _ => h.all_up)
          · rw [if_neg hlast]
            exact hmore (fun name hname => Or.inl (List.mem_cons_of_mem _ hname)) h.pop
      · rw [if_neg hup]
        exact hmore hpush (h.push hskip.1 hskip.2 fun heq => absurd heq hup)

lemma resolved_clean {names parts : List Text} (h : Stack (parts.reverse ++ names)) :
    resolved names parts = parts.reverse ++ names := by
  induction parts generalizing names with
  | nil => rfl
  | cons part parts ih =>
    rw [List.reverse_cons, List.append_assoc, List.singleton_append] at h ⊢
    have hnames : Stack (part :: names) :=
      ⟨fun name hname => h.proper name (List.mem_append_right _ hname),
        (List.pairwise_append.mp h.ups).2.1⟩
    obtain ⟨hne, hdot⟩ := hnames.proper part List.mem_cons_self
    unfold resolved
    rw [if_neg (not_or.mpr ⟨hne, hdot⟩)]
    by_cases hup : part = ['.', '.']
    · rw [if_pos hup]
      subst hup
      cases names with
      | nil => exact ih h
      | cons last before =>
        have hlast : last = ['.', '.'] := hnames.all_up last (by simp)
        dsimp only
        rw [if_pos hlast]
        exact ih h
    · rw [if_neg hup]
      exact ih h

lemma resolved_filter (names parts : List Text) :
    resolved names (parts.filter (· ≠ [])) = resolved names parts := by
  induction parts generalizing names with
  | nil => rfl
  | cons part parts ih =>
    by_cases hpart : part = []
    · rw [List.filter_cons_of_neg (by simpa using hpart), ih]
      rw [resolved.eq_def names (part :: parts)]
      simp only [hpart, true_or, if_true]
    · rw [List.filter_cons_of_pos (by simpa using hpart)]
      unfold resolved
      split_ifs
      · exact ih names
      · cases names with
        | nil => exact ih _
        | cons last before =>
          dsimp only
          split_ifs
          · exact ih _
          · exact ih _
      · exact ih _

lemma components_slash (path : Text) : components ('/' :: path) = components path := by
  unfold components
  rw [List.splitOn_cons_eq_if_modifyHead]
  rfl

lemma components_intercalate {names : List Text} (hslash : ∀ name ∈ names, '/' ∉ name)
    (hne : ∀ name ∈ names, name ≠ []) : components (['/'].intercalate names) = names := by
  unfold components
  by_cases hnil : names = []
  · subst hnil
    rfl
  · rw [List.splitOn_intercalate _ hslash hnil, List.filter_eq_self]
    intro name hname
    simpa using hne name hname

lemma components_cleanPath (path : Text) (hdot : cleanPath path ≠ ['.']) :
    components (cleanPath path) = (resolved [] (components path)).reverse := by
  obtain ⟨hstack, hfrom⟩ := resolved_stack stack_nil (path.splitOn '/')
  have hnames : components (['/'].intercalate (resolved [] (path.splitOn '/')).reverse) =
      (resolved [] (path.splitOn '/')).reverse := by
    refine components_intercalate (fun name hname => ?_) fun name hname => ?_
    · rcases hfrom name (List.mem_reverse.mp hname) with h | h
      · exact absurd h List.not_mem_nil
      · exact Split.notMem_splitOn h
    · exact (hstack.proper name (List.mem_reverse.mp hname)).1
  have hcomponents : resolved [] (components path) = resolved [] (path.splitOn '/') :=
    resolved_filter [] (path.splitOn '/')
  rw [hcomponents, ← hnames]
  unfold cleanPath at hdot ⊢
  dsimp only at hdot ⊢
  split_ifs at hdot ⊢ with habsolute hempty
  · exact components_slash _
  · exact absurd rfl hdot
  · rfl

lemma mem_components {path : Text} (h : c ∈ path) (hc : c ≠ '/') :
    ∃ name ∈ components path, c ∈ name := by
  have hpart : ∃ part ∈ path.splitOn '/', c ∈ part := by
    induction path with
    | nil => exact absurd h List.not_mem_nil
    | cons d rest ih =>
      obtain ⟨first, more, hparts⟩ := List.exists_cons_of_ne_nil (List.splitOn_ne_nil '/' rest)
      rw [List.splitOn_cons_eq_if_modifyHead, hparts]
      rw [hparts] at ih
      rcases List.mem_cons.mp h with rfl | h
      · rw [if_neg (by simpa using hc)]
        exact ⟨_, List.mem_cons_self, List.mem_cons_self⟩
      · obtain ⟨part, hmem, hcpart⟩ := ih h
        split_ifs
        · exact ⟨part, List.mem_cons_of_mem _ hmem, hcpart⟩
        · rcases List.mem_cons.mp hmem with rfl | hmem
          · exact ⟨_, List.mem_cons_self, List.mem_cons_of_mem _ hcpart⟩
          · exact ⟨part, List.mem_cons_of_mem _ hmem, hcpart⟩
  obtain ⟨part, hmem, hcpart⟩ := hpart
  refine ⟨part, List.mem_filter.mpr ⟨hmem, ?_⟩, hcpart⟩
  simpa using List.ne_nil_of_mem hcpart

lemma SMBUrl.stack (u : SMBUrl) (hdot : u.path ≠ ['.']) : Stack (components u.path).reverse := by
  have hnames := components_cleanPath u.path (by rw [u.path_clean]; exact hdot)
  rw [u.path_clean] at hnames
  rw [hnames, List.reverse_reverse]
  exact (resolved_stack stack_nil _).1

lemma components_append {host path : Text} (hhost : '/' ∉ host)
    (hpath : host = [] ∨ path = [] ∨ path.head? = some '/') :
    components (host ++ path) = hostNames host ++ components path := by
  have hself : components host = hostNames host := by
    unfold components hostNames
    rw [List.splitOn_eq_singleton hhost]
    by_cases hnil : host = []
    · rw [if_pos hnil, hnil]
      rfl
    · rw [if_neg hnil, List.filter_cons_of_pos (by simpa using hnil)]
      rfl
  by_cases hnil : host = []
  · subst hnil
    rfl
  · rcases hpath with hpath | rfl | hpath
    · exact absurd hpath hnil
    · rw [List.append_nil, hself]
      exact (List.append_nil _).symm
    · obtain ⟨rest, rfl⟩ : ∃ rest, path = '/' :: rest := by
        cases path with
        | nil => cases hpath
        | cons c rest => exact ⟨rest, by rw [Option.some.inj hpath]⟩
      rw [components_slash]
      unfold components hostNames
      rw [List.splitOn_append_cons_self_of_not_mem hhost, if_neg hnil,
        List.filter_cons_of_pos (by simpa using hnil)]
      rfl

lemma cleanPath_slash (path : Text) : ∃ names, cleanPath ('/' :: path) = '/' :: names := by
  refine ⟨['/'].intercalate (resolved [] (('/' :: path).splitOn '/')).reverse, ?_⟩
  simp only [cleanPath, List.head?_cons, if_true]

lemma components_byHand {u : SMBUrl} {host : Text} (hhost : IsHost host)
    (habsolute : host = [] ∨ u.path = [] ∨ u.path.head? = some '/')
    (hups : host = [] ∨ ['.', '.'] ∉ components u.path) (hdot : u.path ≠ ['.']) :
    components (cleanPath ('/' :: (host ++ u.path))) = hostNames host ++ components u.path := by
  have hslash : '/' ∉ host := fun hmem => hhost.chars _ hmem (by decide)
  have hnot : cleanPath ('/' :: (host ++ u.path)) ≠ ['.'] := by
    obtain ⟨names, hnames⟩ := cleanPath_slash (host ++ u.path)
    rw [hnames]
    exact fun heq => absurd (List.cons.inj heq).1 (by decide)
  have hstack := u.stack hdot
  have hall : Stack ((hostNames host ++ components u.path).reverse ++ []) := by
    rw [List.append_nil, List.reverse_append]
    unfold hostNames
    split_ifs with hnil
    · rw [List.reverse_nil, List.append_nil]
      exact hstack
    · have hnone := hups.resolve_left hnil
      have hfirst : ∀ c : Char, host.head? = some c → c ≠ '.' := by
        rintro c hc rfl
        exact hhost.dot hc
      refine ⟨fun name hname => ?_, List.pairwise_append.mpr ⟨hstack.ups, ?_, ?_⟩⟩
      · rcases List.mem_append.mp hname with hname | hname
        · exact hstack.proper name hname
        · obtain rfl : name = host := by simpa using hname
          refine ⟨hnil, ?_⟩
          rintro rfl
          exact hfirst _ rfl rfl
      · exact List.pairwise_singleton _ _
      · intro later hlater _ _ heq
        rw [heq] at hlater
        exact absurd (List.mem_reverse.mp hlater) hnone
  rw [components_cleanPath _ hnot, components_slash, components_append hslash habsolute,
    resolved_clean hall, List.append_nil, List.reverse_reverse]

end KioExtras.Smb.SmbcUrl
