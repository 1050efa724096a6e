import KioExtras.Info.Names

/-!
The links of the converter, read back: to which page and node the worker opens them.
-/

namespace KioExtras.Info

open KioExtras.Lib

variable {refs : CharacterRefs}

/-! ### Names that are readable -/

lemma readable_of_clean {html url : Bool} {name : Text} (hline : '\n' ∉ name)
    (h : ∀ c ∈ "%?#\"&".toList, c ∉ name) : Readable refs html url name := by
  refine ⟨?_, ?_, ?_, ?_⟩
  · exact Percent.plain_of_not_mem (h '%' (by decide))
  · exact fun _ hmem => h '?' (by decide) (List.dropLast_subset _ hmem)
  · exact fun _ => ⟨h '?' (by decide), h '#' (by decide), h '"' (by decide)⟩
  · intro _ a b heq
    have hmem : '&' ∈ attribute_ url name := by
      rw [heq]
      exact List.mem_append_right _ List.mem_cons_self
    refine absurd ?_ (h '&' (by decide))
    cases url
    · exact (List.takeWhile_prefix _).subset hmem
    · exact (mem_escape hline hmem (by decide)).1

lemma readable_top {html url : Bool} : Readable refs html url "Top".toList :=
  readable_of_clean (by decide) (Percent.forall_mem_of_all (by decide))

lemma readable_dir {html url : Bool} : Readable refs html url "dir".toList :=
  readable_of_clean (by decide) (Percent.forall_mem_of_all (by decide))

lemma cut_append {a : Text} (hhash : '#' ∉ a) (hquestion : '?' ∉ a) (b : Text) :
    cut (a ++ b) = a ++ cut b := by
  unfold cut
  rw [takeWhile_ne_append hhash, takeWhile_ne_append hquestion]

lemma cut_append_of_cut {a : Text} (h : ¬ ('#' ∉ a ∧ '?' ∉ a)) (b : Text) :
    cut (a ++ b) = cut a := by
  unfold cut
  rcases takeWhile_split '#' a with hhash | ⟨rest, hhash⟩
  · have hnot := not_mem_takeWhile_ne '#' a
    rw [← hhash] at hnot ⊢
    rw [takeWhile_ne_append hnot]
    rcases takeWhile_split '?' a with hquestion | ⟨rest, hquestion⟩
    · have hnone := not_mem_takeWhile_ne '?' a
      rw [← hquestion] at hnone
      exact absurd ⟨hnot, hnone⟩ h
    · have hnone := not_mem_takeWhile_ne '?' a
      generalize a.takeWhile (· ≠ '?') = first at hquestion hnone ⊢
      rw [hquestion, List.append_assoc, takeWhile_ne_append hnone]
      exact List.append_nil _
  · have hnot := not_mem_takeWhile_ne '#' a
    generalize a.takeWhile (· ≠ '#') = first at hhash hnot ⊢
    rw [hhash, List.append_assoc, takeWhile_ne_append hnot]
    exact congrArg _ (List.append_nil first)

section link

variable {qt : Qt} {html url html' : Bool} {file tag : Text}

variable (refs html url html') in
lemma link_text (hfile : '\n' ∉ file) (htag : '\n' ∉ tag) (more : Text) : ∃ text,
    decodeRefs refs ((infoUrl (written html url file) (written html' true tag) ++
      '"' :: more).takeWhile (· ≠ '"')) = "info:/".toList ++ text ∧
    ((cut text = cut (reading refs html url file) ∧ ¬ Readable refs html url file) ∨
      (cut (reading refs html url file) = reading refs html url file ∧
        '"' ∉ written html url file ∧ cut text =
          reading refs html url file ++ '/' :: cut (reading refs html' true tag))) := by
  have htagQuote : '"' ∉ written html' true tag := by
    change '"' ∉ escape (if html' then metaCharacters tag else tag)
    apply not_mem_escape _ rfl (by decide)
    cases html'
    · exact htag
    · exact not_mem_metaCharacters (by decide) htag
  have hshape : infoUrl (written html url file) (written html' true tag) ++ '"' :: more =
      "info:/".toList ++ (written html url file ++ ('/' :: (written html' true tag ++
        '"' :: more))) := by
    unfold infoUrl
    simp only [List.append_assoc]
    rfl
  rw [hshape, takeWhile_ne_append (by decide), decodeRefs_append (by decide)]
  refine ⟨_, rfl, ?_⟩
  rcases takeWhile_split '"' (written html url file) with hself | ⟨rest, hrest⟩
  · have hnot := not_mem_takeWhile_ne '"' (written html url file)
    rw [← hself] at hnot
    have htext : decodeRefs refs ((written html url file ++ ('/' :: (written html' true tag ++
        '"' :: more))).takeWhile (· ≠ '"')) =
          reading refs html url file ++ '/' :: reading refs html' true tag := by
      have hslash : ('/' :: (written html' true tag ++ '"' :: more)).takeWhile (· ≠ '"') =
          '/' :: written html' true tag := by
        rw [← List.cons_append, takeWhile_ne_append (a := '/' :: written html' true tag)]
        · exact List.append_nil _
        · rw [List.mem_cons, not_or]
          exact ⟨by decide, htagQuote⟩
      rw [takeWhile_ne_append hnot, hslash, decodeRefs_slash]
      unfold reading
      rw [← hself, takeWhile_ne_self htagQuote]
    rw [htext]
    by_cases hclean : '#' ∉ reading refs html url file ∧ '?' ∉ reading refs html url file
    · refine Or.inr ⟨cut_self hclean.1 hclean.2, hnot, ?_⟩
      rw [cut_append hclean.1 hclean.2]
      exact congrArg _ (cut_append (a := ['/']) (by decide) (by decide) _)
    · refine Or.inl ⟨cut_append_of_cut hclean _, fun hreadable => hclean ?_⟩
      obtain ⟨hself, hhash, hquestion⟩ := hreadable.read hfile
      rw [hself]
      exact ⟨hhash, hquestion⟩
  · have hnot := not_mem_takeWhile_ne '"' (written html url file)
    refine Or.inl ⟨?_, ?_⟩
    · unfold reading
      generalize (written html url file).takeWhile (· ≠ '"') = first at hrest hnot ⊢
      rw [hrest, List.append_assoc, takeWhile_ne_append hnot]
      exact congrArg (fun text => cut (decodeRefs refs text)) (List.append_nil first)
    · intro hreadable
      have hmem : '"' ∈ written html url file := by
        rw [hrest]
        exact List.mem_append_right _ List.mem_cons_self
      cases url with
      | false =>
        have hquote := (hreadable.ends rfl).2.2
        cases html
        · exact hquote hmem
        · exact not_mem_metaCharacters (by decide) hquote hmem
      | true =>
        refine not_mem_escape ?_ rfl (by decide) hmem
        cases html
        · exact hfile
        · exact not_mem_metaCharacters (by decide) hfile

lemma after_slash (text : Text) : (after ':' (cut ("info:/".toList ++ text))).getD [] =
    '/' :: cut text := by
  rw [cut_append (by decide) (by decide)]
  rfl

variable (qt) in
lemma parseUrl_path {text : Text} (h : (cut text).head? ≠ some '/') :
    (parseUrl qt ("info:/".toList ++ text)).host = [] ∧
      (parseUrl qt ("info:/".toList ++ text)).path = '/' :: Percent.decode qt.utf8 (cut text) := by
  have hdecode := Percent.decode_append qt.utf8 [] (cut text) (c := '/') rfl (by decide)
  have hnil : Percent.decode qt.utf8 [] = [] := Percent.join_nil qt.utf8
  rw [hnil] at hdecode
  unfold parseUrl
  rw [after_slash]
  split
  · next host heq =>
    obtain ⟨_, hcut⟩ := List.cons.inj heq
    exact absurd (by rw [hcut]; rfl) h
  · exact ⟨rfl, hdecode⟩

variable (qt) in
lemma parseUrl_host {text rest : Text} (h : cut text = '/' :: rest) :
    match qt.host (firstPart rest) with
    | some host => (parseUrl qt ("info:/".toList ++ text)).host = host ∧
      (parseUrl qt ("info:/".toList ++ text)).path =
        Percent.decode qt.utf8 (rest.dropWhile (· ≠ '/'))
    | none => parseUrl qt ("info:/".toList ++ text) = ⟨[], [], [], none, none⟩ := by
  have hslash : (after ':' (cut ("info:/".toList ++ text))).getD [] = '/' :: '/' :: rest := by
    rw [after_slash, h]
  unfold parseUrl
  rw [hslash]
  unfold firstPart
  cases hhost : qt.host (rest.takeWhile (· ≠ '/')) with
  | none => simp only [hhost]
  | some host => simp only [hhost, and_self]

lemma slash_attribute (hfile : '\n' ∉ file) (h : '/' ∉ file) : '/' ∉ attribute_ url file := by
  cases url
  · exact fun hmem => h ((List.takeWhile_prefix _).subset hmem)
  · exact fun hmem => h (mem_escape hfile hmem (by decide)).1

variable (qt html') in
lemma link_path (hfile : FileName file) (htag : '\n' ∉ tag) (hslash : '/' ∉ file)
    (h : Readable refs html url file) (more : Text) :
    let urlRead := parseUrl qt (decodeRefs refs ((infoUrl (written html url file)
      (written html' true tag) ++ '"' :: more).takeWhile (· ≠ '"')))
    urlRead.host = [] ∧
      urlRead.path = '/' :: (file ++ '/' :: readBack refs qt html' true tag) := by
  obtain ⟨text, htext, hcases⟩ := link_text refs html url html' hfile.line htag more
  obtain ⟨hself, _, _⟩ := h.read hfile.line
  have hdecode := h.decode hfile.line qt.utf8
  have hcut := (hcases.resolve_left fun hbad => hbad.2 h).2.2
  rw [hself] at hcut
  have hne : attribute_ url file ≠ [] := by
    intro hnil
    rw [hnil] at hdecode
    exact hfile.ne (hdecode.symm.trans (Percent.join_nil qt.utf8))
  have hhead : (cut text).head? ≠ some '/' := by
    obtain ⟨c, rest, hattribute⟩ := List.exists_cons_of_ne_nil hne
    rw [hcut, hattribute]
    rintro heq
    have hc : c = '/' := Option.some.inj heq
    have hmem : '/' ∈ attribute_ url file := by
      rw [hattribute, hc]
      exact List.mem_cons_self
    exact slash_attribute hfile.line hslash hmem
  dsimp only
  rw [htext]
  refine ⟨(parseUrl_path qt hhead).1, ?_⟩
  rw [(parseUrl_path qt hhead).2, hcut, Percent.decode_append _ _ _ rfl (by decide), hdecode]
  rfl

/-- **A link whose parts are readable leads to its node.** -/
lemma link_opens {node : Text} (hfile : FileName file) (hnode : NodeName qt node)
    (hfits : FileFits refs html url file) (hfits' : NodeFits refs html' node) (more : Text) :
    Opens qt (parseUrl qt (decodeRefs refs ((infoUrl (written html url file)
      (written html' true node) ++ '"' :: more).takeWhile (· ≠ '"')))) file node := by
  obtain ⟨hreadable, hslash, htag⟩ := hfits
  obtain ⟨hreadable', htag', hlast⟩ := hfits'
  obtain ⟨hhost, hpath⟩ := link_path qt html' hfile hnode.line hslash
    hreadable more
  rw [hreadable'.readBack hnode.line] at hpath
  exact opens_exact hhost hslash hpath htag htag' hnode.ne hlast hnode.trim

lemma length_firstPart (text : Text) : (firstPart text).length ≤ text.length :=
  (List.takeWhile_prefix _).length_le

lemma firstPart_slash (a b : Text) : (firstPart (a ++ '/' :: b)) = firstPart a := by
  rcases parts a with hnot | ⟨first, rest, hnot, rfl⟩
  · rw [firstPart_append hnot, firstPart_self hnot]
  · rw [List.append_assoc, List.cons_append, firstPart_append hnot, firstPart_append hnot]

variable {urlRead : QUrl}

lemma not_page {node text : Text} (hfile : FileName file) (hbad : ¬ Readable refs html url file)
    (hhost : urlRead.host = []) (hpath : urlRead.path = '/' :: text)
    (hlength : (firstPart text).length < file.length) : ¬ Opens qt urlRead file node := by
  intro hopens
  rcases hopens.page hhost hpath with hpage | rfl | ⟨rfl, hbrowse⟩
  · rw [← hpage] at hlength
    exact Nat.lt_irrefl _ hlength
  · exact hbad readable_dir
  · rw [hbrowse] at hlength
    exact absurd hlength (by decide)

lemma amp_mem_of_slash (hfile : '\n' ∉ file) (hslash : '/' ∉ file)
    (h : '/' ∈ reading refs html url file) : '&' ∈ file := by
  by_contra hamp
  have hattribute : '&' ∉ attribute_ url file := by
    cases url
    · exact fun hmem => hamp ((List.takeWhile_prefix _).subset hmem)
    · exact fun hmem => hamp (mem_escape hfile hmem (by decide)).1
  have hself : reading refs html url file = attribute_ url file := by
    rw [reading_eq refs html url hfile]
    cases html
    · exact decodeRefs_self hattribute
    · rfl
  rw [hself] at h
  exact slash_attribute hfile hslash h

lemma length_pieces_slash (a b : Text) : (Percent.pieces (a ++ '/' :: b)).length =
    (Percent.pieces a).length + 1 + (Percent.pieces b).length := by
  have hhead : ∀ c ∈ ('/' :: b).head?, Percent.hexValue c = none := by
    intro c hc
    obtain rfl := Option.some.inj hc
    rfl
  rw [Percent.pieces_append hhead, Percent.pieces_char (by decide), List.length_append,
    List.length_cons]
  omega

lemma parts_unique {a b c d : Text} (ha : '/' ∉ a) (hc : '/' ∉ c)
    (h : a ++ '/' :: b = c ++ '/' :: d) : a = c ∧ b = d := by
  have hfirst : a = c := by
    rw [← firstPart_append (b := b) ha, h, firstPart_append hc]
  subst hfirst
  exact ⟨rfl, (List.cons.inj (List.append_cancel_left h)).2⟩

lemma amp_page {node text : Text} (hamp : '&' ∈ file) (hhost : urlRead.host = [])
    (hpath : urlRead.path = '/' :: text) (hopens : Opens qt urlRead file node) :
    file = firstPart text := by
  rcases hopens.page hhost hpath with hpage | rfl | ⟨rfl, _⟩
  · exact hpage
  · exact absurd hamp (by decide)
  · exact absurd hamp (by decide)

lemma slash_of_append {a b rest : Text} (hne : a ≠ []) (h : a ++ b = '/' :: rest) :
    ∃ more, a = '/' :: more := by
  obtain ⟨c, more, rfl⟩ := List.exists_cons_of_ne_nil hne
  exact ⟨more, by rw [(List.cons.inj h).1]⟩

lemma mem_of_mem_cut {c : Char} {text : Text} (h : c ∈ cut text) : c ∈ text :=
  (List.takeWhile_prefix _).subset ((List.takeWhile_prefix _).subset h)

lemma not_page_of_authority {node first rest text : Text} (hamp : '&' ∈ file) (hfile : '\n' ∉ file)
    (htag : '\n' ∉ tag) (hsame : tag = node ∨ tag = "Top".toList)
    (hcases : cut text = cut (reading refs html url file) ∨
      (cut (reading refs html url file) = reading refs html url file ∧
        cut text = reading refs html url file ++ '/' :: cut (reading refs html' true tag)))
    (hreading : reading refs html url file ≠ []) (hslash : '/' ∉ first)
    (hcut : cut text = '/' :: (first ++ '/' :: rest)) (hhost : urlRead.host = [])
    (hpath : urlRead.path = '/' :: Percent.decode qt.utf8 rest) : ¬ Opens qt urlRead file node := by
  intro hopens
  have hpage := amp_page hamp hhost hpath hopens
  have hpieces := length_pieces_reading refs html url hfile
  have hlength : ∀ text : Text,
      (firstPart (Percent.decode qt.utf8 text)).length ≤ (Percent.pieces text).length :=
    fun text => Nat.le_trans (length_firstPart _) (Percent.length_decode qt.utf8 text)
  have hne : firstPart (Percent.decode qt.utf8 rest) ≠ "Top".toList := by
    intro htop
    rw [hpage, htop] at hamp
    exact absurd hamp (by decide)
  rcases hcases with hleft | ⟨_, hright⟩
  · have hrest := hlength rest
    have hprefix := (length_pieces_cut (reading refs html url file)).1
    rw [← hleft, hcut, ← List.cons_append, length_pieces_slash] at hprefix
    rw [← hpage] at hrest
    omega
  · obtain ⟨more, hmore⟩ := slash_of_append hreading (hright.symm.trans hcut)
    rw [hmore, List.cons_append] at hright
    have heq := (List.cons.inj (hcut.symm.trans hright)).2
    rcases parts more with hnot | ⟨first', rest', hnot, rfl⟩
    · obtain ⟨_, rfl⟩ := parts_unique hslash hnot heq
      change urlRead.path = '/' :: readBack refs qt html' true tag at hpath
      change file = firstPart (readBack refs qt html' true tag) at hpage
      change firstPart (readBack refs qt html' true tag) ≠ "Top".toList at hne
      have htop : tag = "Top".toList → readBack refs qt html' true tag = "Top".toList := by
        rintro rfl
        exact readable_top.readBack htag qt
      rcases parts (readBack refs qt html' true tag) with hone | ⟨page, rest, hpart, hback⟩
      · rw [firstPart_self hone] at hpage hne
        rcases hopens.top hhost hpath (hpage ▸ List.ne_nil_of_mem hamp) hone with rfl | ⟨rfl, _⟩
        · rcases hsame with rfl | rfl
          · exact hne (htop rfl)
          · exact hne (htop rfl)
        · exact absurd hamp (by decide)
      · rw [hback, firstPart_append hpart] at hpage hne
        rw [hback] at hpath
        subst hpage
        have hnotTop : tag ≠ "Top".toList := by
          intro heqTop
          rw [htop heqTop] at hback
          have hmem : '/' ∈ "Top".toList := by
            rw [hback]
            exact List.mem_append_right _ List.mem_cons_self
          exact absurd hmem (by decide)
        have hnode := hopens.node hhost (List.ne_nil_of_mem hamp) hpart hpath
        obtain rfl := hsame.resolve_right hnotTop
        rcases hnode with ⟨_, hnode⟩ | ⟨_, rfl | ⟨rfl, _⟩⟩
        · have hback' := length_readBack refs qt html' true
            htag
          have htrim := length_trimmed qt (rest.rdropWhile (· = '/'))
          have hstrip := (List.rdropWhile_prefix (· = '/') rest).length_le
          have hsize := congrArg List.length hback
          have hnodeLength := congrArg List.length hnode
          rw [List.length_append, List.length_cons] at hsize
          omega
        · exact hnotTop rfl
        · exact absurd hamp (by decide)
    · rw [List.append_assoc, List.cons_append] at heq
      obtain ⟨_, rfl⟩ := parts_unique hslash hnot heq
      rw [Percent.decode_append _ _ _ rfl (by decide), firstPart_slash] at hpage
      have hrest := hlength rest'
      rw [hmore, ← List.cons_append, length_pieces_slash] at hpieces
      rw [← hpage] at hrest
      omega

lemma readable_of_opens {node : Text} (hfile : FileName file) (htag : '\n' ∉ tag)
    (hsame : tag = node ∨ tag = "Top".toList) (more : Text)
    (hopens : Opens qt (parseUrl qt (decodeRefs refs ((infoUrl (written html url file)
      (written html' true tag) ++ '"' :: more).takeWhile (· ≠ '"')))) file node) :
    Readable refs html url file := by
  by_contra hbad
  obtain ⟨text, htext, hcases⟩ := link_text refs html url html' hfile.line htag more
  have hslash : '/' ∉ file := hopens.clean.2.2
  have hshort : (readBack refs qt html url file).length < file.length :=
    Nat.lt_of_not_le fun hle => hbad (readable_of_length qt hfile.line hle)
  have hpieces := length_pieces_reading refs html url hfile.line
  rw [htext] at hopens
  by_cases hhead : (cut text).head? = some '/'
  · obtain ⟨rest, hrest⟩ : ∃ rest, cut text = '/' :: rest := by
      cases hcut : cut text with
      | nil =>
        rw [hcut] at hhead
        exact absurd hhead nofun
      | cons c rest =>
        rw [hcut] at hhead
        exact ⟨rest, by rw [Option.some.inj hhead]⟩
    have hslashMem : '/' ∈ cut text := by
      rw [hrest]
      exact List.mem_cons_self
    have hreading : reading refs html url file ≠ [] := by
      rcases hcases with ⟨hcut, _⟩ | ⟨_, hquote, _⟩
      · rw [hcut] at hslashMem
        exact List.ne_nil_of_mem (mem_of_mem_cut hslashMem)
      · unfold reading
        rw [takeWhile_ne_self hquote]
        exact decodeRefs_ne (written_ne hfile.line hfile.ne)
    have hmem : '/' ∈ reading refs html url file := by
      rcases hcases with ⟨hcut, _⟩ | ⟨_, _, hcut⟩
      · rw [hcut] at hslashMem
        exact mem_of_mem_cut hslashMem
      · obtain ⟨more, hmore⟩ := slash_of_append hreading (hcut.symm.trans hrest)
        rw [hmore]
        exact List.mem_cons_self
    have hamp := amp_mem_of_slash hfile.line hslash hmem
    have hparse := parseUrl_host qt hrest
    cases hhost : qt.host (firstPart rest) with
    | none =>
      rw [hhost] at hparse
      dsimp only at hparse
      rw [hparse] at hopens
      exact hfile.ne (hopens.page_of_nil rfl rfl)
    | some host =>
      rw [hhost] at hparse
      obtain ⟨hsome, hpath⟩ := hparse
      obtain ⟨hhostSlash, hhostAmp⟩ := qt.host_chars _ _ hhost
      have hnil : Percent.decode qt.utf8 [] = [] := Percent.join_nil qt.utf8
      rcases parts rest with hone | ⟨first, more, hfirst, rfl⟩
      · have hdrop : rest.dropWhile (· ≠ '/') = [] := by
          have happend := dropWhile_ne_append (b := []) hone
          rw [List.append_nil] at happend
          exact happend
        rw [hdrop, hnil] at hpath
        by_cases hempty : host = []
        · exact hfile.ne (hopens.page_of_nil (hsome.trans hempty) hpath)
        · rcases hopens.page_of_host (by rw [hsome]; exact hempty) (by rw [hsome]; exact hhostSlash)
            (Or.inl hpath) with hpage | rfl
          · rw [hpage, hsome] at hamp
            exact hhostAmp hamp
          · exact absurd hamp (by decide)
      · have hdrop : (first ++ '/' :: more).dropWhile (· ≠ '/') = '/' :: more := by
          rw [dropWhile_ne_append hfirst]
          rfl
        have hslashPath := Percent.decode_append qt.utf8 [] more (c := '/') rfl (by decide)
        rw [hnil] at hslashPath
        rw [hdrop] at hpath
        have hpath := hpath.trans hslashPath
        by_cases hempty : host = []
        · have hboth : cut text = cut (reading refs html url file) ∨
              (cut (reading refs html url file) = reading refs html url file ∧ cut text =
                reading refs html url file ++ '/' :: cut (reading refs html' true tag)) :=
            hcases.imp And.left fun hright => ⟨hright.1, hright.2.2⟩
          exact not_page_of_authority hamp hfile.line htag hsame hboth hreading hfirst hrest
            (hsome.trans hempty) hpath hopens
        · rcases hopens.page_of_host (by rw [hsome]; exact hempty) (by rw [hsome]; exact hhostSlash)
            (Or.inr ⟨_, hpath⟩) with hpage | rfl
          · rw [hpage, hsome] at hamp
            exact hhostAmp hamp
          · exact absurd hamp (by decide)
  · obtain ⟨hhost, hpath⟩ := parseUrl_path qt hhead
    have hlength : (firstPart (Percent.decode qt.utf8 (cut text))).length < file.length := by
      refine Nat.lt_of_le_of_lt ?_ hshort
      rcases hcases with ⟨hcut, _⟩ | ⟨hself, _, hcut⟩
      · rw [hcut]
        exact length_firstPart _
      · rw [hcut, Percent.decode_append _ _ _ rfl (by decide), firstPart_slash]
        unfold readBack
        rw [hself]
        exact length_firstPart _
    exact not_page hfile hbad hhost hpath hlength hopens

/-- **A link leads to its node if and only if its parts are readable**, and have no `<`, the file no
slash and the node none at its end. -/
theorem link_opens_iff {node : Text} (hfile : FileName file) (hnode : NodeName qt node)
    (more : Text) :
    Opens qt (parseUrl qt (decodeRefs refs ((infoUrl (written html url file)
      (written html' true node) ++ '"' :: more).takeWhile (· ≠ '"')))) file node ↔
        FileFits refs html url file ∧ NodeFits refs html' node := by
  constructor
  · intro hopens
    obtain ⟨hpageTag, hnodeTag, hslash⟩ := hopens.clean
    have hreadable := readable_of_opens hfile hnode.line (Or.inl rfl) more hopens
    obtain ⟨hhost, hpath⟩ := link_path qt html' hfile hnode.line hslash
      hreadable more
    have hlength := length_readBack refs qt html' true
      hnode.line
    refine ⟨⟨hreadable, hslash, hpageTag⟩, ?_⟩
    generalize hback : readBack refs qt html' true node = back at hpath hlength
    have hstrip := (List.rdropWhile_prefix (· = '/') back).length_le
    have htrim := length_trimmed qt (back.rdropWhile (· = '/'))
    rcases hopens.node hhost hfile.ne hslash hpath with ⟨hne, hself⟩ | ⟨hnil, rfl | ⟨rfl, hbrowse⟩⟩
    · have hnodeLength := congrArg List.length hself
      have hreadable' : Readable refs html' true node :=
        readable_of_length qt hnode.line (by rw [hback]; omega)
      rw [hreadable'.readBack hnode.line] at hback
      subst hback
      refine ⟨hreadable', hnodeTag, fun hlast => ?_⟩
      have hconcat := eq_concat_of_getLast? hlast
      have hinit : (node.rdropWhile (· = '/')).length ≤ node.dropLast.length := by
        conv_lhs => rw [hconcat]
        rw [List.rdropWhile_concat_pos _ _ _ (by simp)]
        exact (List.rdropWhile_prefix (· = '/') node.dropLast).length_le
      have hpos := List.length_pos_of_ne_nil hnode.ne
      rw [List.length_dropLast] at hinit
      omega
    · exact ⟨readable_top, hnodeTag, by decide⟩
    · exact absurd hbrowse (by decide)
  · rintro ⟨hfits, hfits'⟩
    exact link_opens hfile hnode hfits hfits' more

lemma not_zero {node : Text} (hfile : FileName file) (hnode : '0' ∈ node) (more : Text) :
    ¬ Opens qt (parseUrl qt (decodeRefs refs ((infoUrl (written html url file)
      (written html' true "Top".toList) ++ '"' :: more).takeWhile (· ≠ '"')))) file node := by
  intro hopens
  have hslash : '/' ∉ file := hopens.clean.2.2
  have htop : '\n' ∉ "Top".toList := by decide
  have hzero : '0' ∉ "Top".toList := by decide
  have hreadable := readable_of_opens hfile htop (Or.inr rfl) more hopens
  obtain ⟨hhost, hpath⟩ := link_path qt html' hfile htop hslash hreadable more
  have hback : readBack refs qt html' true "Top".toList = "Top".toList :=
    readable_top.readBack htop qt
  have hstrip : "Top".toList.rdropWhile (· = '/') = "Top".toList := by decide
  rw [hback] at hpath
  rcases hopens.node hhost hfile.ne hslash hpath with ⟨_, hself⟩ | ⟨hnil, _⟩
  · rw [hself, hstrip] at hnode
    exact not_mem_trimmed hzero hnode
  · rw [hstrip] at hnil
    exact absurd hnil (by decide)

end link

/-! ### What the converter writes -/

section pages

variable {qt : Qt}

lemma firstHref_mark (text : Text) :
    firstHref (hrefMark ++ text) = some (text.takeWhile (· ≠ '"')) := rfl

lemma firstHref_cell (text : Text) :
    firstHref ("<tr><td>".toList ++ (hrefMark ++ text)) = some (text.takeWhile (· ≠ '"')) := rfl

lemma leads_iff {page url file node : Text}
    (h : firstHref page = some (url.takeWhile (· ≠ '"'))) : Leads refs qt page file node ↔
      Opens qt (parseUrl qt (decodeRefs refs (url.takeWhile (· ≠ '"')))) file node := by
  unfold Leads
  rw [h]
  constructor
  · rintro ⟨href, hhref, hopens⟩
    rw [Option.some.inj hhref]
    exact hopens
  · exact fun hopens => ⟨_, rfl, hopens⟩

def LinksTo (page file tag : Text) : Prop :=
  ∃ more, firstHref page = some ((infoUrl file tag ++ '"' :: more).takeWhile (· ≠ '"'))

lemma menuItem_linksTo (line base : Text) : let link := parseMenuItem line base
    LinksTo (menuItem2HTML line base) link.MenuLinkFile link.MenuLinkTag := by
  intro link
  refine ⟨">".toList ++ link.MenuLinkRef ++ "</a></td><td>&nbsp;</td><td>".toList ++
    link.MenuLinkText ++ "</td></tr>".toList, ?_⟩
  rw [← firstHref_cell]
  unfold menuItem2HTML
  refine congrArg firstHref ?_
  simp only [List.append_assoc]
  rfl

lemma anchor_linksTo (file tag ref rest : Text) :
    LinksTo (anchor file tag ref ++ rest) file tag := by
  refine ⟨">".toList ++ ref ++ "</a>".toList ++ rest, ?_⟩
  rw [← firstHref_mark]
  unfold anchor
  refine congrArg firstHref ?_
  simp only [List.append_assoc]
  rfl

lemma printLinkInfo_linksTo (LinkFile base : Text) {tag : Text} (hne : tag ≠ []) :
    LinksTo (printLinkInfo LinkFile tag base)
      (escape (if isFalse LinkFile then base else LinkFile)) (escape tag) := by
  refine ⟨">\n   \n  <strong>".toList ++ tag ++ "</strong>\n</a>\n".toList, ?_⟩
  rw [← firstHref_mark]
  unfold printLinkInfo
  rw [if_neg fun hnil => hne hnil.2]
  refine congrArg firstHref ?_
  simp only [List.append_assoc]
  rfl

lemma LinksTo.leads_iff {page file node : Text} (html url html' : Bool)
    (h : LinksTo page (written html url file) (written html' true node)) (hfile : FileName file)
    (hnode : NodeName qt node) : Leads refs qt page file node ↔
      FileFits refs html url file ∧ NodeFits refs html' node := by
  obtain ⟨more, hmore⟩ := h
  rw [← link_opens_iff hfile hnode more]
  exact Info.leads_iff hmore

lemma isFalse_meta (refs : CharacterRefs) {node : Text} (hne : node ≠ []) :
    isFalse (metaCharacters node) = true ↔ node = ['0'] := by
  have hinjective : ∀ text, metaCharacters node = metaCharacters text → node = text := by
    intro text heq
    calc node = decodeRefs refs (metaCharacters node) := (decodeRefs_metaCharacters node).symm
      _ = decodeRefs refs (metaCharacters text) := by rw [heq]
      _ = text := decodeRefs_metaCharacters text
  unfold isFalse
  simp only [Bool.or_eq_true, decide_eq_true_eq]
  constructor
  · rintro (hnil | hzero)
    · exact absurd (hinjective [] hnil) hne
    · exact hinjective ['0'] hzero
  · rintro rfl
    exact Or.inr rfl

lemma crossRef_simple {base token text ref rest : Text}
    (h : matchSimple text = some (ref, rest)) : (crossRef base token text).1 =
      anchor (escape base) (escape (crossRefTag ref)) (replace NEWLINE ['\n'] ref) ++ rest := by
  have hcolon : ':' ∈ text := by
    by_contra hnot
    have hdrop : text.dropWhile (· ≠ ':') = [] := by
      have happend := dropWhile_ne_append (b := []) hnot
      rw [List.append_nil] at happend
      exact happend
    unfold matchSimple at h
    rw [hdrop] at h
    exact absurd h nofun
  unfold crossRef
  rw [if_neg (not_not.mpr hcolon), h]

/-- A reference with a label that ends on its line -/
structure Complete (text : Text) : Prop where
  colon : ':' ∈ text
  label : matchSimple text = none
  ends : text.any isTE = true

lemma crossRef_complete (base token : Text) {text : Text} (h : Complete text)
    (hne : crossRefTag (matchCrossRef text).CrossRefTag ≠ []) : ∃ ref rest,
      (crossRef base token text).1 = anchor
        (escape (if (matchCrossRef text).CrossRefFile = [] then base
          else (matchCrossRef text).CrossRefFile))
        (escape (crossRefTag (matchCrossRef text).CrossRefTag)) ref ++ rest := by
  have htag : (matchCrossRef text).CrossRefTag ≠ [] := by
    intro hnil
    rw [hnil] at hne
    exact hne rfl
  unfold crossRef
  rw [if_neg (not_not.mpr h.colon), h.label, h.ends]
  dsimp only
  rw [if_neg (by simp), if_neg fun hboth => htag hboth.1, if_neg hne]
  exact ⟨_, _, rfl⟩

lemma written_base {base file : Text} (hline : '\n' ∉ file)
    (h : base = file ∨ base = escape file) : escape base = written false true file := by
  rcases h with rfl | rfl
  · rfl
  · exact escape_escape hline

/-! ### Each place of a link -/

section places

variable {file node : Text} (hfile : FileName file) (hnode : NodeName qt node)

include hfile hnode

lemma entry_leads_iff {line rest : Text}
    (h : menuMatch (tab2Space line) = some (.entry (metaCharacters node) rest)) :
    Leads refs qt (menuItem2HTML line file) file node ↔
      FileFits refs false true file ∧ NodeFits refs true node := by
  have hlink := menuItem_linksTo line file
  unfold parseMenuItem at hlink
  rw [h] at hlink
  exact LinksTo.leads_iff false true true hlink hfile hnode

variable {base ref token : Text}

lemma item_leads_iff {line rest : Text} (h : menuMatch (tab2Space line) = some (.item ref rest))
    (htag : itemTag (rest ++ ['\n']) = some (metaCharacters node)) :
    Leads refs qt (menuItem2HTML line file) file node ↔
      FileFits refs false false file ∧ NodeFits refs true node := by
  have hlink := menuItem_linksTo line file
  unfold parseMenuItem at hlink
  rw [h] at hlink
  dsimp only at hlink
  rw [htag] at hlink
  exact LinksTo.leads_iff false false true hlink hfile hnode

lemma file_leads_iff {line group rest : Text} (h : menuMatch (tab2Space line) =
      some (.file ref group (metaCharacters file) (metaCharacters node) rest)) :
    Leads refs qt (menuItem2HTML line base) file node ↔
      FileFits refs true false file ∧ NodeFits refs true node ∧ node ≠ ['0'] := by
  have hlink := menuItem_linksTo line base
  unfold parseMenuItem at hlink
  rw [h] at hlink
  dsimp only at hlink
  by_cases hzero : node = ['0']
  · rw [if_pos ((isFalse_meta refs hnode.ne).mpr hzero)] at hlink
    obtain ⟨more, hmore⟩ := hlink
    constructor
    · intro hleads
      have hmem : '0' ∈ node := by
        rw [hzero]
        exact List.mem_cons_self
      have hnot : ¬ Opens qt (parseUrl qt (decodeRefs refs ((infoUrl (written true false file)
          (written true true "Top".toList) ++ '"' :: more).takeWhile (· ≠ '"')))) file node :=
        not_zero hfile hmem more
      exact absurd ((leads_iff hmore).mp hleads) hnot
    · exact fun hfits => absurd hzero hfits.2.2
  · rw [if_neg (mt (isFalse_meta refs hnode.ne).mp hzero)] at hlink
    have hiff : Leads refs qt (menuItem2HTML line base) file node ↔
        FileFits refs true false file ∧ NodeFits refs true node :=
      LinksTo.leads_iff true false true hlink hfile hnode
    rw [hiff]
    exact ⟨fun hfits => ⟨hfits.1, hfits.2, hzero⟩, fun hfits => ⟨hfits.1, hfits.2.1⟩⟩

lemma simple_leads_iff {text rest : Text} (hbase : base = file ∨ base = escape file)
    (h : matchSimple text = some (ref, rest)) (htag : crossRefTag ref = metaCharacters node) :
    Leads refs qt (crossRef base token text).1 file node ↔
      FileFits refs false true file ∧ NodeFits refs true node := by
  rw [crossRef_simple h, htag, written_base hfile.line hbase]
  exact LinksTo.leads_iff false true true (anchor_linksTo _ _ _ _) hfile hnode

lemma complete_leads_iff {text : Text} (hbase : base = file ∨ base = escape file)
    (h : Complete text) (hnone : (matchCrossRef text).CrossRefFile = [])
    (htag : crossRefTag (matchCrossRef text).CrossRefTag = metaCharacters node) :
    Leads refs qt (crossRef base token text).1 file node ↔
      FileFits refs false true file ∧ NodeFits refs true node := by
  obtain ⟨ref, rest, hpage⟩ := crossRef_complete base token h
    (by rw [htag]; exact metaCharacters_ne hnode.ne)
  rw [hpage, htag, if_pos hnone, written_base hfile.line hbase]
  exact LinksTo.leads_iff false true true (anchor_linksTo _ _ _ _) hfile hnode

lemma completeFile_leads_iff {text : Text} (h : Complete text)
    (hsome : (matchCrossRef text).CrossRefFile = metaCharacters file)
    (htag : crossRefTag (matchCrossRef text).CrossRefTag = metaCharacters node) :
    Leads refs qt (crossRef base token text).1 file node ↔
      FileFits refs true true file ∧ NodeFits refs true node := by
  obtain ⟨ref, rest, hpage⟩ := crossRef_complete base token h
    (by rw [htag]; exact metaCharacters_ne hnode.ne)
  rw [hpage, htag, if_neg (by rw [hsome]; exact metaCharacters_ne hfile.ne), hsome]
  exact LinksTo.leads_iff true true true (anchor_linksTo _ _ _ _) hfile hnode

lemma header_leads_iff {LinkFile : Text}
    (h : (if isFalse LinkFile then base else LinkFile) = file) :
    Leads refs qt (printLinkInfo LinkFile node base) file node ↔
      FileFits refs false true file ∧ NodeFits refs false node := by
  have hlink := printLinkInfo_linksTo LinkFile base hnode.ne
  rw [h] at hlink
  exact LinksTo.leads_iff false true false hlink hfile hnode

end places

/-- **A link leads to the node that it is written for if and only if the names are readable**: for
the items of a menu, with the file of the page as it is after a label and escaped otherwise; for a
cross reference, with both names escaped; and for the links of the header, where no characters of
HTML are replaced. A node that is named `0` is not taken as one after a file in a menu. -/
theorem links_lead_iff (qt : Qt) {file node : Text} (hfile : FileName file)
    (hnode : NodeName qt node) :
    (∀ line rest, menuMatch (tab2Space line) = some (.entry (metaCharacters node) rest) →
      (Leads refs qt (menuItem2HTML line file) file node ↔
        FileFits refs false true file ∧ NodeFits refs true node)) ∧
    (∀ line ref rest, menuMatch (tab2Space line) = some (.item ref rest) →
      itemTag (rest ++ ['\n']) = some (metaCharacters node) →
      (Leads refs qt (menuItem2HTML line file) file node ↔
        FileFits refs false false file ∧ NodeFits refs true node)) ∧
    (∀ line base ref group rest, menuMatch (tab2Space line) =
        some (.file ref group (metaCharacters file) (metaCharacters node) rest) →
      (Leads refs qt (menuItem2HTML line base) file node ↔
        FileFits refs true false file ∧ NodeFits refs true node ∧ node ≠ ['0'])) ∧
    (∀ base token text ref rest, base = file ∨ base = escape file →
      matchSimple text = some (ref, rest) → crossRefTag ref = metaCharacters node →
      (Leads refs qt (crossRef base token text).1 file node ↔
        FileFits refs false true file ∧ NodeFits refs true node)) ∧
    (∀ base token text, base = file ∨ base = escape file → Complete text →
      (matchCrossRef text).CrossRefFile = [] →
      crossRefTag (matchCrossRef text).CrossRefTag = metaCharacters node →
      (Leads refs qt (crossRef base token text).1 file node ↔
        FileFits refs false true file ∧ NodeFits refs true node)) ∧
    (∀ base token text, Complete text →
      (matchCrossRef text).CrossRefFile = metaCharacters file →
      crossRefTag (matchCrossRef text).CrossRefTag = metaCharacters node →
      (Leads refs qt (crossRef base token text).1 file node ↔
        FileFits refs true true file ∧ NodeFits refs true node)) ∧
    ∀ LinkFile base, (if isFalse LinkFile then base else LinkFile) = file →
      (Leads refs qt (printLinkInfo LinkFile node base) file node ↔
        FileFits refs false true file ∧ NodeFits refs false node) :=
  ⟨fun _ _ h => entry_leads_iff hfile hnode h,
    fun _ _ _ h htag => item_leads_iff hfile hnode h htag,
    fun _ _ _ _ _ h => file_leads_iff hfile hnode h,
    fun _ _ _ _ _ hbase h htag => simple_leads_iff hfile hnode hbase h htag,
    fun _ _ _ hbase h hnone htag => complete_leads_iff hfile hnode hbase h hnone htag,
    fun _ _ _ h hsome htag => completeFile_leads_iff hfile hnode h hsome htag,
    fun _ _ h => header_leads_iff hfile hnode h⟩

end pages

/-- The references to `&`, `<` and `>` -/
def findMeta (text : Text) : Option (Text × ℕ) :=
  if "amp;".toList.isPrefixOf text then some (['&'], 4)
  else if "lt;".toList.isPrefixOf text then some (['<'], 3)
  else if "gt;".toList.isPrefixOf text then some (['>'], 3)
  else none

lemma findMeta_cases {text s : Text} {k : ℕ} (h : findMeta text = some (s, k)) :
    s.length = 1 ∧ ∃ name rest, name ∈ ["amp;".toList, "lt;".toList, "gt;".toList] ∧
      text = name ++ rest ∧ k = name.length := by
  have hprefix : ∀ {name : Text}, name.isPrefixOf text = true → ∃ rest, text = name ++ rest :=
    fun hname => (List.isPrefixOf_iff_prefix.mp hname).imp fun _ => Eq.symm
  unfold findMeta at h
  split_ifs at h with hamp hlt hgt
  · obtain ⟨rfl, rfl⟩ := Prod.mk.inj (Option.some.inj h)
    obtain ⟨rest, htext⟩ := hprefix hamp
    exact ⟨rfl, _, rest, by simp, htext, rfl⟩
  · obtain ⟨rfl, rfl⟩ := Prod.mk.inj (Option.some.inj h)
    obtain ⟨rest, htext⟩ := hprefix hlt
    exact ⟨rfl, _, rest, by simp, htext, rfl⟩
  · obtain ⟨rfl, rfl⟩ := Prod.mk.inj (Option.some.inj h)
    obtain ⟨rest, htext⟩ := hprefix hgt
    exact ⟨rfl, _, rest, by simp, htext, rfl⟩

def metaRefs : CharacterRefs where
  find text := findMeta (firstPart text)
  amp rest := by
    unfold firstPart
    rw [takeWhile_ne_append (by decide)]
    rfl
  lt rest := by
    unfold firstPart
    rw [takeWhile_ne_append (by decide)]
    rfl
  gt rest := by
    unfold firstPart
    rw [takeWhile_ne_append (by decide)]
    rfl
  upTo text := congrArg findMeta (firstPart_self (not_mem_takeWhile_ne '/' text)).symm
  shorter text s k h := by
    obtain ⟨hs, name, rest, hname, htext, rfl⟩ := findMeta_cases h
    have hpos : 1 ≤ name.length := (by decide : ∀ name ∈ ["amp;".toList, "lt;".toList,
      "gt;".toList], 1 ≤ name.length) name hname
    have hlength := length_firstPart text
    rw [htext, List.length_append] at hlength
    omega
  some_ text s k h := by
    obtain ⟨hs, _⟩ := findMeta_cases h
    rintro rfl
    exact absurd hs (by decide)
  chars text s k h := by
    obtain ⟨_, name, rest, hname, htext, rfl⟩ := findMeta_cases h
    obtain ⟨more, hmore⟩ := List.takeWhile_prefix (p := (· ≠ '/')) (l := text)
    have hshape : text = name ++ (rest ++ more) := by
      rw [← hmore, ← List.append_assoc, ← htext]
      rfl
    rw [hshape, List.take_left]
    exact (by decide : ∀ name ∈ ["amp;".toList, "lt;".toList, "gt;".toList],
      '/' ∉ name ∧ '%' ∉ name) name hname

def latin1Qt : Qt where
  utf8 := Percent.latin1
  host authority := if '/' ∈ authority ∨ '&' ∈ authority then none else some authority
  host_chars authority h heq := by
    split_ifs at heq with hbad
    obtain rfl := Option.some.inj heq
    exact not_or.mp hbad
  isSpace := isBlank

theorem link_to_strings :
    Leads metaRefs latin1Qt (menuItem2HTML (metaCharacters "* Strings & co?:: text\n".toList)
      "libc".toList) "libc".toList "Strings & co?".toList := by
  have hfile : FileName "libc".toList := ⟨by decide, by decide⟩
  have hnode : NodeName latin1Qt "Strings & co?".toList := ⟨by decide, by decide, by decide⟩
  refine ((links_lead_iff latin1Qt hfile hnode).1 _ " text\n".toList (by rfl)).mpr ⟨?_, ?_⟩
  · exact ⟨readable_of_clean (by decide) (Percent.forall_mem_of_all (by decide)), by decide,
      by decide⟩
  · refine ⟨⟨Percent.plain_of_not_mem (by decide), fun _ => by decide, nofun, nofun⟩, ?_, ?_⟩
    · decide
    · decide

/-- A question mark within a node name ends the path. -/
theorem question_mark_cut : ¬ ∀ (refs : CharacterRefs) (qt : Qt) (file node line rest : Text),
    FileName file → NodeName qt node →
      menuMatch (tab2Space line) = some (.entry (metaCharacters node) rest) →
        Leads refs qt (menuItem2HTML line file) file node := by
  intro hall
  have hfile : FileName "libc".toList := ⟨by decide, by decide⟩
  have hnode : NodeName latin1Qt "a?b".toList := ⟨by decide, by decide, by decide⟩
  have hentry : menuMatch (tab2Space "* a?b::\n".toList) =
      some (.entry (metaCharacters "a?b".toList) "\n".toList) := by rfl
  have hleads := hall metaRefs latin1Qt "libc".toList "a?b".toList _ _ hfile hnode hentry
  have hfits := ((entry_leads_iff hfile hnode hentry).mp hleads).2
  exact absurd (hfits.1.question rfl) (by decide)

end KioExtras.Info
