import KioExtras.Smb.SmbcUrl

/-!
Where libsmbclient gets to with the string it is handed for a URL: the parts of the string are read
back one by one, and the names of hosts are told apart.
-/

namespace KioExtras.Smb.SmbcUrl

open KioExtras.Lib

/-! ### The string leads to what it names -/

section faithful

variable {qt : Qt}

lemma isHost_serverName {h : Host} (hkept : Kept qt h) : IsHost (serverName h) := by
  cases h with
  | name text host => exact host
  | ipv6 address scope => exact qt.setHost_isHost _ _ hkept

lemma sambaHost_kept {h : Host} (hkept : Kept qt h) : sambaHost qt h = some (serverName h) := by
  cases h with
  | name text host => rfl
  | ipv6 address scope => exact hkept

variable {u : SMBUrl}

lemma host_kept (hkept : Kept qt (hostOf u)) : host qt u = serverName (hostOf u) := by
  unfold host
  cases hauthority : u.authority with
  | none => simp [hostOf, serverName, hauthority]
  | some authority =>
    have hof : hostOf u = authority.host := by simp [hostOf, hauthority]
    rw [hof] at hkept ⊢
    rw [Option.bind_some, sambaHost_kept hkept]
    rfl

lemma decode_isHost {server : Text} (h : IsHost server) (u : Percent.Utf8) :
    Percent.decode u server = server :=
  Percent.decode_plain u (Percent.plain_of_not_mem fun hmem => h.chars _ hmem (by decide))

lemma IsHost.notMem {server : Text} (h : IsHost server) {c : Char}
    (hc : c ∈ "%:@/?#[]".toList) : c ∉ server := fun hmem => h.chars c hmem hc

lemma notMem_userInfoText (authority : Authority) {c : Char} (hc : c ∈ "@/?".toList)
    (hcolon : c ≠ ':') : c ∉ userInfoText authority.userName authority.password := by
  have hname : c ∉ authority.userName.getD [] := by
    intro hmem
    refine authority.userName_chars c hmem ?_
    exact Percent.forall_mem_of_all (P := fun c => c ∈ ":@/?#".toList) (by decide) c hc
  unfold userInfoText
  rw [List.mem_append, not_or]
  refine ⟨hname, ?_⟩
  have hpassword := authority.password_chars
  cases hpass : authority.password with
  | none => exact List.not_mem_nil
  | some text =>
    rw [hpass] at hpassword
    rw [List.mem_cons, not_or]
    refine ⟨hcolon, fun hmem => hpassword c hmem ?_⟩
    exact Percent.forall_mem_of_all (P := fun c => c ∈ "@/?#".toList) (by decide) c hc

lemma userInfoText_user (authority : Authority) :
    (userInfoText authority.userName authority.password).takeWhile (· ≠ ':') =
      authority.userName.getD [] := by
  refine takeWhile_stop (fun hmem => authority.userName_chars _ hmem (by decide)) ?_
  cases authority.password with
  | none => exact Or.inl rfl
  | some text => exact Or.inr rfl

lemma queryText_head (query fragment : Option Text) (h : fragment = none ∨ query ≠ none) :
    queryText query ++ fragmentText fragment = [] ∨
      (queryText query ++ fragmentText fragment).head? = some '?' := by
  cases query with
  | none =>
    rcases h with rfl | h
    · exact Or.inl rfl
    · exact absurd rfl h
  | some text => exact Or.inr rfl

lemma pathText_head (hauthority : u.authority.isSome) :
    Percent.encode isDelimiter u.path = [] ∨
      (Percent.encode isDelimiter u.path).head? = some '/' := by
  rcases u.path_absolute hauthority with hpath | hpath
  · left
    rw [hpath]
    rfl
  · right
    obtain ⟨c, rest, hrest⟩ : ∃ c rest, u.path = c :: rest := by
      cases h : u.path with
      | nil => rw [h] at hpath; cases hpath
      | cons c rest => exact ⟨c, rest, rfl⟩
    rw [hrest] at hpath ⊢
    obtain rfl : c = '/' := Option.some.inj hpath
    rfl

lemma userInfoText_url (u : SMBUrl) :
    (∀ c ∈ "@/?".toList, c ∉ userInfoText (u.authority.bind Authority.userName)
      (u.authority.bind Authority.password)) ∧
    (userInfoText (u.authority.bind Authority.userName)
      (u.authority.bind Authority.password)).takeWhile (· ≠ ':') =
        (u.authority.bind Authority.userName).getD [] := by
  cases u.authority with
  | none => exact ⟨fun _ _ => List.not_mem_nil, rfl⟩
  | some authority =>
    have hcolon : ∀ c ∈ "@/?".toList, c ≠ ':' := Percent.forall_mem_of_all (by decide)
    exact ⟨fun c hc => notMem_userInfoText authority hc (hcolon c hc), userInfoText_user authority⟩

lemma readAuthority_text (u : SMBUrl) (utf8 : Percent.Utf8) {b : Prop} [Decidable b]
    (hb : ¬ b → (u.authority.bind Authority.userName).getD [] = []) {server : Text}
    (hserver : ∀ c ∈ ":@/?".toList, c ∉ server) (port : Option ℕ) :
    let text := (if b then userInfoText (u.authority.bind Authority.userName)
      (u.authority.bind Authority.password) ++ ['@'] else []) ++ server ++ portText port
    readAuthority utf8 text = (Percent.decode utf8 ((u.authority.bind Authority.userName).getD []),
      Percent.decode utf8 server, port) ∧ '/' ∉ text ∧ '?' ∉ text := by
  obtain ⟨hinfo, huser⟩ := userInfoText_url u
  generalize userInfoText (u.authority.bind Authority.userName)
    (u.authority.bind Authority.password) = info at hinfo huser
  dsimp only
  have hnone : ∀ c ∈ "/?".toList, c ∉ (if b then info ++ ['@'] else []) ++ server ++
      portText port := by
    intro c hc
    have hmem : c ∈ "@/?".toList ∧ c ∈ ":@/?".toList ∧ c ≠ '@' ∧ c ≠ ':' ∧ c.isDigit = false :=
      Percent.forall_mem_of_all (P := fun c => c ∈ "@/?".toList ∧ c ∈ ":@/?".toList ∧ c ≠ '@' ∧
        c ≠ ':' ∧ c.isDigit = false) (by decide) c hc
    obtain ⟨hshort, hlong, hat, hcolon, hdigit⟩ := hmem
    rw [List.mem_append, List.mem_append, not_or, not_or]
    refine ⟨⟨?_, hserver c hlong⟩, notMem_portText hdigit hcolon port⟩
    split_ifs
    · rw [List.mem_append, not_or]
      exact ⟨hinfo c hshort, fun heq => hat (List.mem_singleton.mp heq)⟩
    · exact List.not_mem_nil
  refine ⟨?_, hnone '/' (by decide), hnone '?' (by decide)⟩
  by_cases hshown : b
  · rw [if_pos hshown, List.append_assoc, List.append_assoc, List.singleton_append,
      readAuthority_user utf8 (hinfo '@' (by decide)) (hserver ':' (by decide)), huser]
  · rw [if_neg hshown, List.nil_append,
      readAuthority_server utf8 (hserver '@' (by decide)) (hserver ':' (by decide)), hb hshown,
      decode_nil]

lemma IsHost.server {server : Text} (h : IsHost server) : ∀ c ∈ ":@/?".toList, c ∉ server := by
  intro c hc
  apply h.notMem
  exact Percent.forall_mem_of_all (P := fun c => c ∈ "%:@/?#[]".toList) (by decide) c hc

lemma direct_faithful (hworkgroup : workgroup qt u = []) (h : Direct qt u) : Faithful qt u := by
  unfold Direct at h
  unfold Faithful toSmbcUrl target
  rw [if_pos hworkgroup, if_pos hworkgroup, if_pos hworkgroup, List.nil_append]
  cases hauthority : u.authority with
  | none =>
    rw [hauthority] at h
    obtain ⟨hpath, hquery, hfragment⟩ := h
    have hserver : serverName (hostOf u) = [] := by simp [hostOf, hauthority, serverName]
    have hnil := decode_nil qt.utf8
    rw [hserver]
    rcases hpath with hpath | hpath
    · have htext : prettyDecoded qt u = "smb:".toList := by
        simp [prettyDecoded, hauthority, hpath, hquery, hfragment, queryText, fragmentText]
      rw [htext, if_neg (by decide), hpath]
      simp [smbcParse, hnil, components]
    · have htext : prettyDecoded qt u = "smb:/".toList := by
        simp only [prettyDecoded, hauthority, hpath, hquery, hfragment, queryText, fragmentText]
        rfl
      have hroot := smbcParse_slashes qt.utf8 (List.not_mem_nil (a := '/'))
        (List.not_mem_nil (a := '?')) (List.not_mem_nil (a := '?')) (Or.inl rfl) (Or.inl rfl)
      have hempty : readAuthority qt.utf8 [] = ([], Percent.decode qt.utf8 [], none) :=
        readAuthority_server qt.utf8 List.not_mem_nil List.not_mem_nil none
      rw [hempty] at hroot
      have hpathNames : components ['/'] = components [] := components_slash []
      rw [htext, if_pos rfl, hpath, hpathNames]
      refine hroot.trans ?_
      simp [hnil, components]
  | some authority =>
    rw [hauthority] at h
    obtain ⟨hkept, hfragment⟩ := h
    have hof : hostOf u = authority.host := by simp [hostOf, hauthority]
    have hhost := isHost_serverName hkept
    have hshown : ¬ (authority.userName.isSome ∨ authority.password.isSome) →
        (u.authority.bind Authority.userName).getD [] = [] := by
      intro hnone
      rw [not_or, Option.not_isSome_iff_eq_none] at hnone
      rw [hauthority, Option.bind_some, hnone.1]
      rfl
    obtain ⟨hread, hslash, hquestion⟩ := readAuthority_text u qt.utf8 hshown hhost.server
      authority.port
    have htext : prettyDecoded qt u = "smb://".toList ++
        ((if authority.userName.isSome ∨ authority.password.isSome then
          userInfoText authority.userName authority.password ++ ['@'] else []) ++
          serverName authority.host ++ portText authority.port ++
          Percent.encode isDelimiter u.path ++
          (queryText u.query ++ fragmentText u.fragment)) := by
      simp only [prettyDecoded, hauthority, sambaHost_kept hkept, authorityText, List.append_assoc]
    have hlong : prettyDecoded qt u ≠ "smb:/".toList := by
      rw [htext]
      intro heq
      have hlength := congrArg List.length heq
      simp at hlength
    have hnone : '?' ∉ Percent.encode isDelimiter u.path := by
      intro hmem
      exact absurd (Percent.mem_encode hmem (by decide)).2 (by decide)
    rw [hauthority, Option.bind_some, Option.bind_some] at hread hslash hquestion
    rw [if_neg hlong, htext, smbcParse_slashes qt.utf8 hslash hquestion hnone
      (pathText_head (by rw [hauthority]; rfl)) (queryText_head u.query u.fragment hfragment),
      hread, components_encode, hof, decode_isHost hhost]
    rfl

/-- **What is made by hand leads to what it names**, where nothing would have to be escaped. -/
lemma byHand_faithful (hworkgroup : workgroup qt u ≠ []) (h : ByHand qt u) : Faithful qt u := by
  have hhost := host_kept h.kept
  have hisHost : IsHost (host qt u) := by
    rw [hhost]
    exact isHost_serverName h.kept
  have habsolute : host qt u = [] ∨ u.path = [] ∨ u.path.head? = some '/' := by
    cases hauthority : u.authority with
    | none =>
      left
      simp [host, hauthority]
    | some authority => exact Or.inr (u.path_absolute (by rw [hauthority]; rfl))
  have hnames := components_byHand hisHost habsolute h.ups h.dot
  have hwritten : ∀ name ∈ hostNames (host qt u) ++ components u.path,
      '?' ∉ name ∧ Percent.decode qt.utf8 name = name := by
    intro name hname
    rcases List.mem_append.mp hname with hname | hname
    · unfold hostNames at hname
      split_ifs at hname
      · exact absurd hname List.not_mem_nil
      · rw [List.mem_singleton.mp hname]
        exact ⟨hisHost.notMem (by decide), decode_isHost hisHost qt.utf8⟩
    · obtain ⟨hquestion, hplain⟩ := h.names name hname
      exact ⟨hquestion, Percent.decode_plain qt.utf8 hplain⟩
  have hpath : '?' ∉ cleanPath ('/' :: (host qt u ++ u.path)) := by
    intro hmem
    obtain ⟨name, hname, hquestion⟩ := mem_components hmem (by decide)
    rw [hnames] at hname
    exact (hwritten name hname).1 hquestion
  have hread : (components (cleanPath ('/' :: (host qt u ++ u.path)))).map
      (Percent.decode qt.utf8) = hostNames (host qt u) ++ components u.path := by
    rw [hnames]
    conv_rhs => rw [← List.map_id (hostNames (host qt u) ++ components u.path)]
    exact List.map_congr_left fun name hname => (hwritten name hname).2
  have hslash : cleanPath ('/' :: (host qt u ++ u.path)) = [] ∨
      (cleanPath ('/' :: (host qt u ++ u.path))).head? = some '/' := by
    obtain ⟨names, heq⟩ := cleanPath_slash (host qt u ++ u.path)
    rw [heq]
    exact Or.inr rfl
  have hoptions : ∀ fragment query : Text, fragment = [] ∨ query ≠ [] →
      (if query ≠ [] then '?' :: query else []) ++
        (if fragment ≠ [] then '#' :: fragment else []) = [] ∨
      ((if query ≠ [] then '?' :: query else []) ++
        (if fragment ≠ [] then '#' :: fragment else [])).head? = some '?' := by
    intro fragment query hor
    by_cases hquery : query = []
    · left
      have hfragment := hor.resolve_right (not_not.mpr hquery)
      rw [if_neg (not_not.mpr hquery), if_neg (not_not.mpr hfragment)]
      rfl
    · right
      rw [if_pos hquery]
      rfl
  have hserver : ∀ c ∈ ":@/?".toList, c ∉ workgroup qt u :=
    fun c hc hmem => h.workgroup c hmem hc
  have hshown : ¬ userInfo qt u ≠ [] → (u.authority.bind Authority.userName).getD [] = [] := by
    intro hempty
    have hinfo := h.userInfo
    rw [not_not.mp hempty] at hinfo
    exact (List.append_eq_nil_iff.mp hinfo.symm).1
  obtain ⟨hauthority, hnoSlash, hquestion⟩ := readAuthority_text u qt.utf8 hshown hserver
    (u.authority.bind Authority.port)
  have hgo := smbcParse_slashes qt.utf8 hnoSlash hquestion hpath hslash
    (hoptions (u.fragment.getD []) (otherQuery qt u) h.fragment)
  rw [hauthority, hread, hhost] at hgo
  unfold Faithful toSmbcUrl target
  rw [if_neg hworkgroup, if_neg hworkgroup, if_neg hworkgroup, ← hgo, hhost]
  rw [← h.userInfo]
  simp only [List.append_assoc]

theorem expressible_faithful (h : Expressible qt u) : Faithful qt u := by
  unfold Expressible at h
  split_ifs at h with hworkgroup
  · exact direct_faithful hworkgroup h
  · exact byHand_faithful hworkgroup h

end faithful

/-! ### Literals of IPv6 addresses -/

/-- The prefix for a literal that starts with a dash. -/
def front (literal : Text) : Text :=
  if literal.head? = some '-' then '0' :: literal else literal

/-- The suffix for a literal that ends with a dash. -/
def back (literal : Text) : Text :=
  if literal.getLast? = some '-' then literal ++ ['0'] else literal

variable (address : Address)

def dashed : Text := replace ':' '-' address.text

/-- A dash at the front is not alone, and no zero stands before two of them. -/
structure Compressed (literal : Text) : Prop where
  dashes : literal.head? = some '-' → "--".toList <+: literal
  zero : ¬ "0--".toList <+: literal

lemma front_injective {x y : Text} (hx : Compressed x) (hy : Compressed y)
    (h : front x = front y) : x = y := by
  have hclash : ∀ {x y : Text}, Compressed x → Compressed y → x.head? = some '-' →
      '0' :: x ≠ y := by
    rintro x y hx hy hdash rfl
    obtain ⟨rest, rfl⟩ := hx.dashes hdash
    exact hy.zero ⟨rest, rfl⟩
  unfold front at h
  split_ifs at h with hdx hdy hdy
  · exact (List.cons.inj h).2
  · exact absurd h (hclash hx hy hdx)
  · exact absurd h.symm (hclash hy hx hdy)
  · exact h

lemma back_eq (literal : Text) : back literal = (front literal.reverse).reverse := by
  unfold back front
  rw [List.head?_reverse]
  split_ifs
  · rw [List.reverse_cons, List.reverse_reverse]
  · rw [List.reverse_reverse]

lemma replace_append (before after : Char) (a b : Text) :
    replace before after (a ++ b) = replace before after a ++ replace before after b :=
  List.map_append

lemma replace_notMem {before : Char} (after : Char) {text : Text} (h : before ∉ text) :
    replace before after text = text := by
  unfold replace
  conv_rhs => rw [← List.map_id text]
  refine List.map_congr_left fun c hc => if_neg ?_
  rintro rfl
  exact h hc

variable {c : Char} {a b : Address}

lemma Address.notMem (hc : c ∉ ":.0123456789abcdef".toList) : c ∉ address.text :=
  fun hmem => hc (address.chars c hmem)

lemma notMem_dashed (hc : c ∉ ":.0123456789abcdef".toList) (hdash : c ≠ '-') :
    c ∉ dashed address := by
  intro hmem
  obtain ⟨d, hd, heq⟩ := List.mem_map.mp hmem
  split_ifs at heq
  · exact hdash heq.symm
  · exact address.notMem hc (heq ▸ hd)

lemma undash : replace '-' ':' (dashed address) = address.text := by
  unfold dashed replace
  rw [List.map_map]
  conv_rhs => rw [← List.map_id address.text]
  refine List.map_congr_left fun c hc => ?_
  have hdash : c ≠ '-' := fun heq => address.notMem (by decide) (heq ▸ hc)
  by_cases hcolon : c = ':'
  · subst hcolon
    rfl
  · simp [hcolon, hdash]

lemma dashed_head {address : Address} (h : (dashed address).head? = some '-') :
    "--".toList <+: dashed address := by
  have hcolon : address.text.head? = some ':' := by
    rw [← undash, replace, List.head?_map, h]
    rfl
  exact (address.front hcolon).map fun c => if c = ':' then '-' else c

lemma dashed_last {address : Address} (h : (dashed address).getLast? = some '-') :
    "--".toList <:+ dashed address := by
  have hcolon : address.text.getLast? = some ':' := by
    rw [← undash, replace, List.getLast?_map, h]
    rfl
  exact (address.back hcolon).map fun c => if c = ':' then '-' else c

lemma dashed_ne : dashed address ≠ [] :=
  fun heq => address.ne (List.map_eq_nil_iff.mp heq)

lemma compressed_dashed : Compressed (dashed address) where
  dashes := dashed_head
  zero h := by
    have hrun := h.map fun c => if c = '-' then ':' else c
    change "0::".toList <+: replace '-' ':' (dashed address) at hrun
    rw [undash] at hrun
    exact address.front_run hrun

lemma front_last {literal : Text} (h : literal ≠ []) :
    (front literal).getLast? = literal.getLast? := by
  unfold front
  split_ifs
  · exact List.getLast?_cons_of_ne_nil h
  · rfl

lemma compressed_front : Compressed (front (dashed address)).reverse where
  dashes h := by
    rw [List.head?_reverse, front_last (dashed_ne address)] at h
    have hsuffix : "--".toList <:+ front (dashed address) := by
      unfold front
      split_ifs
      · exact (dashed_last h).trans (List.suffix_cons _ _)
      · exact dashed_last h
    exact List.reverse_prefix.mpr hsuffix
  zero h := by
    have hsuffix : "--0".toList <:+ front (dashed address) := List.reverse_prefix.mp h
    have hdashed : "--0".toList <:+ dashed address := by
      unfold front at hsuffix
      split_ifs at hsuffix
      · rcases List.suffix_cons_iff.mp hsuffix with heq | hsuffix
        · exact absurd (List.cons.inj heq).1 (by decide)
        · exact hsuffix
      · exact hsuffix
    have hrun := hdashed.map fun c => if c = '-' then ':' else c
    change "::0".toList <:+ replace '-' ':' (dashed address) at hrun
    rw [undash] at hrun
    exact address.back_run hrun

lemma dashed_injective (h : dashed a = dashed b) : a = b := by
  have htext : a.text = b.text := by rw [← undash a, ← undash b, h]
  cases a
  cases b
  cases htext
  rfl

lemma ipv6Literal_eq {scope : Text} (h : PlainScope scope) :
    ipv6Literal address scope =
      (if scope = [] then back (front (dashed address))
        else front (dashed address) ++ 's' :: scope) ++ ".ipv6-literal.net".toList := by
  have hreplaced : replace '%' 's' (replace ':' '-'
      (address.text ++ if scope = [] then [] else '%' :: scope)) =
        dashed address ++ if scope = [] then [] else 's' :: scope := by
    have haddress : replace '%' 's' (dashed address) = dashed address :=
      replace_notMem 's' (notMem_dashed address (by decide) (by decide))
    have hscope : replace '%' 's' (replace ':' '-' (if scope = [] then [] else '%' :: scope)) =
        if scope = [] then [] else 's' :: scope := by
      split_ifs
      · rfl
      · have hcolon := replace_notMem '-' h.colon
        have hpercent := replace_notMem 's' h.percent
        unfold replace at hcolon hpercent ⊢
        rw [List.map_cons, List.map_cons, hcolon, hpercent]
        rfl
    rw [replace_append, replace_append, hscope]
    exact congrArg (· ++ _) haddress
  have hfold : ipv6Literal address scope = back (front (replace '%' 's' (replace ':' '-'
      (address.text ++ if scope = [] then [] else '%' :: scope)))) ++
        ".ipv6-literal.net".toList := rfl
  rw [hfold, hreplaced]
  refine congrArg (· ++ _) ?_
  split_ifs with hnil
  · rw [List.append_nil]
  · have hfront : front (dashed address ++ 's' :: scope) =
        front (dashed address) ++ 's' :: scope := by
      unfold front
      rw [List.head?_append_of_ne_nil _ (dashed_ne address)]
      split_ifs <;> rfl
    have hlast : (front (dashed address) ++ 's' :: scope).getLast? = scope.getLast? := by
      rw [List.getLast?_append_of_ne_nil _ (List.cons_ne_nil _ _),
        List.getLast?_cons_of_ne_nil hnil]
    rw [hfront, back, hlast, if_neg h.last]

lemma notMem_front : 's' ∉ front (dashed address) := by
  have hdashed : 's' ∉ dashed address := notMem_dashed address (by decide) (by decide)
  unfold front
  split_ifs
  · rw [List.mem_cons, not_or]
    exact ⟨by decide, hdashed⟩
  · exact hdashed

lemma notMem_back : 's' ∉ back (front (dashed address)) := by
  unfold back
  split_ifs
  · rw [List.mem_append, not_or]
    exact ⟨notMem_front address, by decide⟩
  · exact notMem_front address

/-- **Addresses with different literals or different scopes have different names.** -/
theorem ipv6Literal_injective {s t : Text} (hs : PlainScope s) (ht : PlainScope t)
    (h : ipv6Literal a s = ipv6Literal b t) : a = b ∧ s = t := by
  rw [ipv6Literal_eq a hs, ipv6Literal_eq b ht] at h
  have hmain := List.append_cancel_right h
  split_ifs at hmain with hsnil htnil htnil
  · rw [back_eq, back_eq] at hmain
    have hfront := front_injective (compressed_front a) (compressed_front b)
      (List.reverse_injective hmain)
    have hdashed := front_injective (compressed_dashed a) (compressed_dashed b)
      (List.reverse_injective hfront)
    exact ⟨dashed_injective hdashed, hsnil.trans htnil.symm⟩
  · exact absurd (by rw [hmain]; simp) (notMem_back a)
  · exact absurd (by rw [← hmain]; simp) (notMem_back b)
  · have htake := congrArg (List.takeWhile (· ≠ 's')) hmain
    have hdrop := congrArg (List.dropWhile (· ≠ 's')) hmain
    rw [takeWhile_stop (notMem_front a) (Or.inr rfl),
      takeWhile_stop (notMem_front b) (Or.inr rfl)] at htake
    rw [dropWhile_stop (notMem_front a) (Or.inr rfl),
      dropWhile_stop (notMem_front b) (Or.inr rfl)] at hdrop
    have hdashed := front_injective (compressed_dashed a) (compressed_dashed b) htake
    exact ⟨dashed_injective hdashed, (List.cons.inj hdrop).2⟩

lemma serverName_eq {h k : Host} (heq : serverName h = serverName k) : h = k ∨ Alias h k := by
  cases h with
  | name x hx =>
    cases k with
    | name y hy =>
      left
      cases (heq : x = y)
      rfl
    | ipv6 b t => exact Or.inr heq
  | ipv6 a s =>
    cases k with
    | name y hy => exact Or.inr heq.symm
    | ipv6 b t =>
      by_cases hplain : PlainScope s ∧ PlainScope t
      · obtain ⟨rfl, rfl⟩ := ipv6Literal_injective hplain.1 hplain.2 heq
        exact Or.inl rfl
      · exact Or.inr ⟨heq, hplain⟩

/-- **The string leads to what the URL names**: user, workgroup or host, port and decoded path, of
every URL that the string can express. Where two such URLs have one string, they lead to the same;
without a workgroup their paths are the same, and so are their hosts, unless one is the literal that
is reserved for the other. -/
theorem toSmbcUrl_faithful (qt : Qt) :
    (∀ u, Expressible qt u → Faithful qt u) ∧
    ∀ u v, Expressible qt u → Expressible qt v → toSmbcUrl qt u = toSmbcUrl qt v →
      target qt u = target qt v ∧
      (workgroup qt u = [] → workgroup qt v = [] → components u.path = components v.path ∧
        (hostOf u = hostOf v ∨ Alias (hostOf u) (hostOf v))) := by
  refine ⟨fun u => expressible_faithful, fun u v hu hv heq => ?_⟩
  have hfu := expressible_faithful hu
  have hfv := expressible_faithful hv
  unfold Faithful at hfu hfv
  rw [heq, hfv] at hfu
  have htarget := (Option.some.inj hfu).symm
  refine ⟨htarget, fun hwu hwv => ?_⟩
  have hserver := congrArg Target.server htarget
  have hcomponents := congrArg Target.components htarget
  simp only [target, hwu, hwv, if_true, List.nil_append] at hserver hcomponents
  exact ⟨hcomponents, serverName_eq hserver⟩

/-! ### Some URLs -/

def hostChars : Text := "-.0123456789_abcdefghijklmnopqrstuvwxyz".toList

/-- A query is taken apart as it is, and a host is taken where it is in lower case. -/
def plainQt : Qt where
  utf8 := Percent.latin1
  setHost text :=
    if (text.all fun c => c ∈ hostChars) ∧ text.head? ≠ some '.' then some text else none
  queryItemValue query key :=
    match (query.splitOn '&').find? fun item => item.takeWhile (· ≠ '=') = key with
    | none => []
    | some item => (item.dropWhile (· ≠ '=')).tail
  removeQueryItem query key :=
    ['&'].intercalate ((query.splitOn '&').eraseP fun item => item.takeWhile (· ≠ '=') = key)
  userInfo := userInfoText
  setHost_isHost text host h := by
    obtain ⟨⟨hall, hdot⟩, heq⟩ := Option.ite_none_right_eq_some.mp h
    obtain rfl := Option.some.inj heq
    have hchars : ∀ c ∈ hostChars, c ∉ "%:@/?#[]".toList := Percent.forall_mem_of_all (by decide)
    exact ⟨fun c hc => hchars c (by simpa using List.all_eq_true.mp hall c hc), hdot⟩

lemma isHost_plain {text : Text} (h : plainQt.setHost text = some text) : IsHost text :=
  plainQt.setHost_isHost text text h

/-- `::1` -/
def loopback : Address where
  text := "::1".toList
  ne := nofun
  chars := Percent.forall_mem_of_all (by decide)
  front _ := by decide
  back h := absurd h (by decide)
  front_run := by decide
  back_run := by decide

def onHost (host : Host) : Authority := ⟨none, none, host, none, nofun, nofun⟩

def named (text : Text) (h : plainQt.setHost text = some text) : Authority :=
  onHost (.name text (isHost_plain h))

def urlOf (authority : Option Authority) (path : Text) (query fragment : Option Text)
    (hclean : cleanPath path = path) (habsolute : path = [] ∨ path.head? = some '/') : SMBUrl :=
  ⟨authority, path, query, fragment, hclean, fun _ => habsolute⟩

def scopedUrl : SMBUrl :=
  urlOf (some (onHost (.ipv6 loopback "lo".toList))) "/share/50%".toList none none (by decide)
    (Or.inr rfl)

def workgroupUrl : SMBUrl :=
  urlOf (some (named "host".toList rfl)) "/share".toList (some "kio-workgroup=hax max".toList) none
    (by decide) (Or.inr rfl)

def rootUrl : SMBUrl := urlOf none "/".toList none none (by decide) (Or.inr rfl)

def slashesUrl : SMBUrl :=
  urlOf (some (named [] rfl)) [] none none (by decide) (Or.inl rfl)

lemma expressible_scoped : Expressible plainQt scopedUrl := by
  have hkept : plainQt.setHost (ipv6Literal loopback "lo".toList) =
      some (ipv6Literal loopback "lo".toList) := by decide
  have hdirect : Direct plainQt scopedUrl := ⟨hkept, Or.inl rfl⟩
  unfold Expressible
  rwa [if_pos (by decide)]

lemma expressible_workgroup : Expressible plainQt workgroupUrl := by
  have hbyHand : ByHand plainQt workgroupUrl := by
    refine ⟨trivial, rfl, Percent.forall_mem_of_all (by decide), ?_, Or.inr (by decide), by decide,
      Or.inl rfl⟩
    intro name hname
    obtain rfl : name = "share".toList := List.mem_singleton.mp hname
    exact ⟨by decide, Percent.plain_of_not_mem (by decide)⟩
  unfold Expressible
  rwa [if_neg (by decide)]

lemma expressible_root : Expressible plainQt rootUrl := by
  have hdirect : Direct plainQt rootUrl := ⟨Or.inr rfl, rfl, rfl⟩
  unfold Expressible
  rwa [if_pos (by decide)]

lemma expressible_slashes : Expressible plainQt slashesUrl := by
  have hdirect : Direct plainQt slashesUrl := ⟨trivial, Or.inl rfl⟩
  unfold Expressible
  rwa [if_pos (by decide)]

theorem some_faithful : Faithful plainQt scopedUrl ∧ Faithful plainQt workgroupUrl ∧
    toSmbcUrl plainQt scopedUrl = "smb://0--1slo.ipv6-literal.net/share/50%25".toList ∧
    toSmbcUrl plainQt workgroupUrl = "smb://hax max/host/share".toList ∧
    target plainQt rootUrl = target plainQt slashesUrl :=
  ⟨(toSmbcUrl_faithful plainQt).1 _ expressible_scoped,
    (toSmbcUrl_faithful plainQt).1 _ expressible_workgroup, by decide, by decide,
    ((toSmbcUrl_faithful plainQt).2 _ _ expressible_root expressible_slashes (by decide)).1⟩

def loopbackUrl : SMBUrl :=
  urlOf (some (onHost (.ipv6 loopback []))) "/share".toList none none (by decide) (Or.inr rfl)

def literalUrl : SMBUrl :=
  urlOf (some (named "0--1.ipv6-literal.net".toList rfl)) "/share".toList none none (by decide)
    (Or.inr rfl)

def haxUrl : SMBUrl :=
  urlOf (some (named "hax".toList rfl)) "/host/share".toList none none (by decide) (Or.inr rfl)

def haxGroupUrl : SMBUrl :=
  urlOf (some (named "host".toList rfl)) "/share".toList (some "kio-workgroup=hax".toList) none
    (by decide) (Or.inr rfl)

def fragmentUrl : SMBUrl :=
  urlOf (some (named "host".toList rfl)) "/a".toList none (some "b".toList) (by decide)
    (Or.inr rfl)

def hostlessUrl : SMBUrl := urlOf none "/share".toList none none (by decide) (Or.inr rfl)

/-- **What the string cannot tell**: an address from the name reserved for it, a workgroup from a
host, a fragment from a path; and without a host only the root of the network can be named. -/
theorem strings_alike :
    (toSmbcUrl plainQt loopbackUrl = toSmbcUrl plainQt literalUrl ∧
      hostOf loopbackUrl ≠ hostOf literalUrl) ∧
    (toSmbcUrl plainQt haxUrl = toSmbcUrl plainQt haxGroupUrl ∧
      components haxUrl.path ≠ components haxGroupUrl.path) ∧
    ¬ Faithful plainQt fragmentUrl ∧ ¬ Faithful plainQt hostlessUrl := by
  refine ⟨⟨by decide, nofun⟩, ⟨by decide, by decide⟩, ?_, ?_⟩
  · unfold Faithful
    decide
  · unfold Faithful
    decide

end KioExtras.Smb.SmbcUrl
