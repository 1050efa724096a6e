import Mathlib.Data.Nat.Notation
import Mathlib.Tactic.Common

/-!
The converter of info nodes: how it finds the menu items and the cross references of a line, and
the links that it writes for them. A line has its newline at its end, if at all.
-/

namespace KioExtras.Info

abbrev Text := List Char

/-! ### Patterns -/

variable (c : Char)

/-- `$TE`: the end of a tag -/
def isTE : Bool := c = '\t' || c = ',' || c = '.'

/-- `\s` -/
def isBlank : Bool :=
  c = ' ' || c = '\t' || c = '\n' || c = '\r' || c = '\x0b' || c = '\x0c'

def isFalse (text : Text) : Bool := text = [] || text = ['0']

def substitute (text : Text) (s : Text) : Text :=
  s.flatMap fun d => if d = c then text else [d]

/-- `s/text/by/g`; the number is that of the characters that are passed over. -/
def replaceFrom (text by_ : Text) : ℕ → Text → Text
  | _, [] => []
  | skip + 1, _ :: rest => replaceFrom text by_ skip rest
  | 0, c :: rest =>
    if text.isPrefixOf (c :: rest) then by_ ++ replaceFrom text by_ (text.length - 1) rest
    else c :: replaceFrom text by_ 0 rest

def replace (text by_ : Text) (s : Text) : Text := replaceFrom text by_ 0 s

/-- The first place where a pattern matches -/
def search {α : Type} (pattern : Text → Option α) : Text → Option α
  | [] => pattern []
  | c :: rest =>
    match pattern (c :: rest) with
    | some found => some found
    | none => search pattern rest

/-- `s/\?$/%3f/g` -/
def escapeQuestion : Text → Text
  | [] => []
  | c :: rest =>
    if c = '?' ∧ (rest = [] ∨ rest = ['\n']) then "%3f".toList ++ rest
    else c :: escapeQuestion rest

def escape (Tag : Text) : Text :=
  let Tag := substitute ' ' "%20".toList Tag
  let Tag := escapeQuestion Tag
  let Tag := substitute '"' "%22".toList Tag
  substitute '#' "%23".toList Tag

def metaCharacters (line : Text) : Text :=
  substitute '<' "&lt;".toList (substitute '>' "&gt;".toList (substitute '&' "&amp;".toList line))

def tab2SpaceFrom : ℕ → Text → Text
  | _, [] => []
  | column, c :: rest =>
    if c = '\t' then
      List.replicate (8 - column % 8) ' ' ++ tab2SpaceFrom (column + (8 - column % 8)) rest
    else c :: tab2SpaceFrom (column + 1) rest

def tab2Space (line : Text) : Text := tab2SpaceFrom 0 line

/-- The address of a node, as the link has it -/
def infoUrl (file tag : Text) : Text := "info:/".toList ++ file ++ "/".toList ++ tag

/-! ### Menus -/

inductive MenuMatch
  /-- `* ref::rest` -/
  | entry (ref rest : Text)
  /-- `* ref: (file)tag.rest`; `group` is what stands from the colon to the rest -/
  | file (ref group file tag rest : Text)
  /-- `* ref:rest` -/
  | item (ref rest : Text)

/-- `\* ([^:]+)::` -/
def matchEntry : Text → Option MenuMatch
  | '*' :: ' ' :: line =>
    match line.dropWhile (· ≠ ':') with
    | ':' :: ':' :: rest =>
      if line.takeWhile (· ≠ ':') = [] then none
      else some (.entry (line.takeWhile (· ≠ ':')) rest)
    | _ => none
  | _ => none

/-- `\s*\(($FTAG)\)($TAG)?$TE\.?`, with what follows -/
def matchFile (line : Text) : Option (Text × Text × Text) :=
  match line.dropWhile isBlank with
  | '(' :: line =>
    match line.dropWhile (· ≠ ')') with
    | ')' :: after =>
      if line.takeWhile (· ≠ ')') = [] then none
      else
        match after.dropWhile (fun c => !isTE c) with
        | _ :: '.' :: rest =>
          some (line.takeWhile (· ≠ ')'), after.takeWhile (fun c => !isTE c), rest)
        | _ :: rest =>
          some (line.takeWhile (· ≠ ')'), after.takeWhile (fun c => !isTE c), rest)
        | [] => none
    | _ => none
  | _ => none

/-- `\* ([^:]+):(\s*\(($FTAG)\)($TAG)?$TE\.?)?(.*)$` -/
def matchItem : Text → Option MenuMatch
  | '*' :: ' ' :: line =>
    match line.dropWhile (· ≠ ':') with
    | ':' :: after =>
      if line.takeWhile (· ≠ ':') = [] then none
      else
        match matchFile after with
        | some (file, tag, rest) =>
          some (.file (line.takeWhile (· ≠ ':')) (after.take (after.length - rest.length))
            file tag (rest.takeWhile (· ≠ '\n')))
        | none => some (.item (line.takeWhile (· ≠ ':')) (after.takeWhile (· ≠ '\n')))
    | _ => none
  | _ => none

def menuMatch (line : Text) : Option MenuMatch :=
  match search matchEntry line with
  | some found => some found
  | none => search matchItem line

structure MenuLink where
  MenuLinkTag : Text
  MenuLinkFile : Text
  MenuLinkRef : Text
  MenuLinkText : Text

/-- ` *($TAG)?$TE` at the start of a line -/
def itemTag (line : Text) : Option Text :=
  let line := line.dropWhile (· = ' ')
  if line.any isTE then some (line.takeWhile fun c => !isTE c) else none

/-- What is undefined is empty, and so is all of it where nothing is found. -/
def parseMenuItem (line BaseInfoFile : Text) : MenuLink :=
  match menuMatch (tab2Space line) with
  | some (.entry ref rest) =>
    ⟨escape ref, escape BaseInfoFile, ref, rest.dropWhile (· = ' ')⟩
  | some (.file ref group file tag rest) =>
    let text := List.replicate (group.length + 1) ' ' ++ rest ++ ['\n']
    ⟨escape (if isFalse tag then "Top".toList else tag), file, ref, text.dropWhile (· = ' ')⟩
  | some (.item ref rest) =>
    match itemTag (rest ++ ['\n']) with
    | some tag => ⟨escape tag, BaseInfoFile, ref, (rest ++ ['\n']).dropWhile (· = ' ')⟩
    | none => ⟨[], BaseInfoFile, ref, []⟩
  | none => ⟨[], [], [], []⟩

def menuItem2HTML (line BaseInfoFile : Text) : Text :=
  let link := parseMenuItem line BaseInfoFile
  "<tr><td><a href=\"".toList ++ infoUrl link.MenuLinkFile link.MenuLinkTag ++ "\">".toList ++
    link.MenuLinkRef ++ "</a></td><td>&nbsp;</td><td>".toList ++ link.MenuLinkText ++
    "</td></tr>".toList

/-! ### Cross references -/

def NEWLINE : Text := "-NEWLINE-".toList

/-- `(\s|\n|-NEWLINE-)*` -/
def skipBlank : ℕ → Text → Text
  | _, [] => []
  | skip + 1, _ :: rest => skipBlank skip rest
  | 0, c :: rest =>
    if isBlank c then skipBlank 0 rest
    else if NEWLINE.isPrefixOf (c :: rest) then skipBlank 8 rest
    else c :: rest

/-- `s/\s+/ /g` -/
def squeeze : Text → Text
  | [] => []
  | c :: rest =>
    if isBlank c then
      match rest with
      | d :: _ => if isBlank d then squeeze rest else ' ' :: squeeze rest
      | [] => [' ']
    else c :: squeeze rest

/-- The tag of a reference that may go over several lines -/
def crossRefTag (tag : Text) : Text :=
  squeeze ((replace NEWLINE [' '] tag).dropWhile isBlank)

variable (CrossRef : Text)

/-- `^([^:]+)::` -/
def matchSimple : Option (Text × Text) :=
  match CrossRef.dropWhile (· ≠ ':') with
  | ':' :: ':' :: rest =>
    if CrossRef.takeWhile (· ≠ ':') = [] then none
    else some (CrossRef.takeWhile (· ≠ ':'), rest)
  | _ => none

/-- `([^:]+):` -/
def matchLabel : Option (Text × Text) :=
  let text := CrossRef.dropWhile (· = ':')
  match text.dropWhile (· ≠ ':') with
  | _ :: rest => some (text.takeWhile (· ≠ ':'), rest)
  | [] => none

/-- `^(\s|\n|-NEWLINE-)*\(($FTAG)\)` -/
def matchRefFile : Option (Text × Text) :=
  match skipBlank 0 CrossRef with
  | '(' :: text =>
    match text.dropWhile (· ≠ ')') with
    | _ :: rest =>
      if text.takeWhile (· ≠ ')') = [] then none else some (text.takeWhile (· ≠ ')'), rest)
    | [] => none
  | _ => none

/-- `^(\s|\n|-NEWLINE-)*($TAG)?($TE)`: the tag and its end -/
def matchRefTag : Option (Text × Char) :=
  let text := skipBlank 0 CrossRef
  match text.dropWhile (fun c => !isTE c) with
  | te :: _ => some (text.takeWhile (fun c => !isTE c), te)
  -- a tab among the blanks is an end, too
  | [] => if '\t' ∈ CrossRef then some ([], '\t') else none

structure CrossRefMatch where
  CrossRefRef : Text
  CrossRefText : Text
  CrossRefFile : Text
  CrossRefTag : Text
  /-- `$3` -/
  te : Text

def matchCrossRef : CrossRefMatch :=
  let label := matchLabel CrossRef
  let ref := (label.map Prod.fst).getD []
  let text := (label.map Prod.snd).getD []
  let CrossRef := (label.map Prod.snd).getD CrossRef
  let file := matchRefFile CrossRef
  let CrossRef := (file.map Prod.snd).getD CrossRef
  match matchRefTag CrossRef with
  | some (tag, te) => ⟨ref, text, (file.map Prod.fst).getD [], tag, [te]⟩
  | none => ⟨ref, text, (file.map Prod.fst).getD [], [], []⟩

def anchor (file tag ref : Text) : Text :=
  "<a href=\"".toList ++ infoUrl file tag ++ "\">".toList ++ ref ++ "</a>".toList

/-- What is written for `*Note` and what follows it, and the base file after it. -/
def crossRef (BaseInfoFile Token CrossRef : Text) : Text × Text :=
  if ':' ∉ CrossRef then (Token ++ CrossRef, BaseInfoFile)
  else
    match matchSimple CrossRef with
    | some (ref, rest) =>
      (anchor (escape BaseInfoFile) (escape (crossRefTag ref)) (replace NEWLINE ['\n'] ref) ++ rest,
        escape BaseInfoFile)
    | none =>
      if !CrossRef.any isTE then (Token ++ CrossRef, BaseInfoFile)
      else
        let found := matchCrossRef CrossRef
        if found.CrossRefTag = [] ∧ found.CrossRefFile = [] then
          ("*Note : ".toList ++ found.CrossRefText ++ found.te, BaseInfoFile)
        else
          let tag := crossRefTag found.CrossRefTag
          let ref := replace NEWLINE ['\n'] found.CrossRefRef
          let text := replace NEWLINE ['\n'] found.CrossRefText
          let file := if found.CrossRefFile = [] then BaseInfoFile else found.CrossRefFile
          let tag := if tag = [] then "Top".toList else tag
          let ref := if ref = [] then "(".toList ++ file ++ ")".toList ++ tag else ref
          (anchor (escape file) (escape tag) ref ++ text, BaseInfoFile)

/-! ### The header -/

def printLinkInfo (LinkFile LinkTag BaseInfoFile : Text) : Text :=
  if LinkFile = [] ∧ LinkTag = [] then []
  else
    let LinkFile := if isFalse LinkFile then BaseInfoFile else LinkFile
    "<a href=\"".toList ++ infoUrl (escape LinkFile) (escape LinkTag) ++
      "\">\n   \n  <strong>".toList ++ LinkTag ++ "</strong>\n</a>\n".toList

end KioExtras.Info
