import KioExtras.Fish.Sending
import Mathlib.Data.List.Forall2
import Mathlib.Data.Nat.Bitwise
import Mathlib.Tactic.Linarith

/-!
`LIST` and `STAT`: what the perl server prints, and the entries the worker makes of it.
-/

namespace KioExtras.Fish

open KioExtras.Kio Text

/-! ### The perl server -/

def bytesOf (text : Text) : Bytes := text.map fun c => UInt8.ofNat c.toNat

namespace Perl

inductive Kind
  | file
  | directory
  | symlink
  | character
  | block
  | socket
  | fifo
  deriving DecidableEq

/-- Where a link leads: `stat` fails, or finds a directory, or something else. -/
inductive Target
  | missing
  | directory
  | other
  deriving DecidableEq

def Kind.letter : Kind → Char
  | file => '-'
  | directory => 'd'
  | symlink => 'l'
  | character => 'c'
  | block => 'b'
  | socket => 's'
  | fifo => 'p'

/-- What the server finds out about a name: by `lstat`, `getpwuid`, `getgrgid`, `readlink`, by
`-d` and `-e`, which follow a link, and by `file`, whose answer is kept where it looks like a mime
type. `link` and `target` are those of a link. -/
structure Entry where
  name : Bytes
  kind : Kind
  mode : ℕ
  owner : Bytes
  group : Bytes
  size : ℕ
  mtime : ℤ
  link : Bytes
  target : Target
  type : Option Text
  name_plain : 10 ∉ name ∧ 47 ∉ name
  mode_lt : mode < 0o10000
  owner_plain : 10 ∉ owner ∧ 58 ∉ owner
  group_plain : 10 ∉ group
  size_lt : size < 2 ^ 63
  link_plain : 10 ∉ link
  type_plain : ∀ t ∈ type, t ≠ inodeDirectory ∧ ∀ c ∈ t, c.toNat < 128 ∧ c ≠ '\n'

namespace Entry

def linksToDirectory (e : Entry) : Prop := e.kind = .symlink ∧ e.target = .directory

instance (e : Entry) : Decidable e.linksToDirectory := inferInstanceAs (Decidable (_ ∧ _))

/-- `-d`. -/
def isDirectory (e : Entry) : Prop := e.kind = .directory ∨ e.linksToDirectory

instance (e : Entry) : Decidable e.isDirectory := inferInstanceAs (Decidable (_ ∨ _))

/-- `-e`. -/
def isThere (e : Entry) : Prop := e.kind ≠ .symlink ∨ e.target ≠ .missing

instance (e : Entry) : Decidable e.isThere := inferInstanceAs (Decidable (_ ∨ _))

end Entry

def rwx (mode : ℕ) : Text :=
  [if mode &&& 0o400 ≠ 0 then 'r' else '-',
   if mode &&& 0o200 ≠ 0 then 'w' else '-',
   if mode &&& 0o100 ≠ 0 then (if mode &&& 0o4000 ≠ 0 then 's' else 'x')
   else (if mode &&& 0o4000 ≠ 0 then 'S' else '-'),
   if mode &&& 0o040 ≠ 0 then 'r' else '-',
   if mode &&& 0o020 ≠ 0 then 'w' else '-',
   if mode &&& 0o010 ≠ 0 then (if mode &&& 0o2000 ≠ 0 then 's' else 'x')
   else (if mode &&& 0o2000 ≠ 0 then 'S' else '-'),
   if mode &&& 0o004 ≠ 0 then 'r' else '-',
   if mode &&& 0o002 ≠ 0 then 'w' else '-',
   if mode &&& 0o001 ≠ 0 then (if mode &&& 0o1000 ≠ 0 then 't' else 'x')
   else (if mode &&& 0o1000 ≠ 0 then 'T' else '-')]

def filetype (e : Entry) : Bytes :=
  bytesOf ('P' :: e.kind.letter :: rwx e.mode ++ [' ']) ++ (e.owner ++ 58 :: e.group)

def mimetype (e : Entry) : Option Bytes :=
  if e.isDirectory then some (bytesOf ('M' :: inodeDirectory))
  else e.type.map fun type => bytesOf ('M' :: type)

/-- `D%Y %m %d %H %M %S`. -/
def timeText (time : DateTime) : Text :=
  'D' :: (padded 4 time.year.toNat ++ ' ' :: (padded 2 time.month.toNat ++
    ' ' :: (padded 2 time.day.toNat ++ ' ' :: (padded 2 time.hour.toNat ++
      ' ' :: (padded 2 time.minute.toNat ++ ' ' :: padded 2 time.second.toNat)))))

/-- `strftime "D%Y %m %d %H %M %S"`. -/
def strftime (time : DateTime) : Bytes := bytesOf (timeText time)

def nameLine (e : Entry) : Bytes := 58 :: e.name

def linkLine (e : Entry) : Option Bytes := if e.kind = .symlink then some (76 :: e.link) else none

variable (localtime : ℤ → DateTime)

def bodyLines (e : Entry) : List Bytes :=
  [filetype e, bytesOf ('S' :: number 10 e.size), strftime (localtime e.mtime), nameLine e] ++
    (linkLine e).toList ++ (mimetype e).toList

def entryLines (e : Entry) : List Bytes := bodyLines localtime e ++ [[]]

/-- What `list` comes upon: nothing that `-e` finds, a directory that cannot be opened, one that
cannot be entered, or the entries to print: those of a directory, or the one asked for. The errors
are the texts of `$!`. -/
inductive Found
  | missing
  | closed (error : Bytes)
  | barred (count : ℕ) (error : Bytes)
  | entries (entries : List Entry)

def listLines : Found → List Bytes
  | .missing => [ascii "### 404 File does not exist"]
  | .closed error => [ascii "### 500 " ++ error]
  | .barred count error => [bytesOf (number 10 count), ascii "### 100", ascii "### 500 " ++ error]
  | .entries entries =>
    [bytesOf (number 10 entries.length), ascii "### 100"] ++
      entries.flatMap (entryLines localtime) ++ [ascii "### 200"]

/-- A directory: the error of `opendir`, if it fails, that of `chdir`, and the entries, of which
`.` is always one. -/
structure Directory where
  closed : Option Bytes
  barred : Option Bytes
  entries : List Entry
  closed_plain : ∀ error ∈ closed, 10 ∉ error
  barred_plain : ∀ error ∈ barred, 10 ∉ error
  entries_ne : entries ≠ []

/-- What `LIST` comes upon at a directory. -/
def Directory.found (dir : Directory) : Found :=
  match dir.closed, dir.barred with
  | some error, _ => .closed error
  | none, some error => .barred dir.entries.length error
  | none, none => .entries dir.entries

/-- What `STAT` comes upon at an entry of a directory. -/
def Entry.found (e : Entry) : Found := if e.isThere then .entries [e] else .missing

def Kind.type : Kind → ℕ
  | file => S_IFREG
  | directory => S_IFDIR
  | symlink => S_IFLNK
  | character => S_IFCHR
  | block => S_IFBLK
  | socket => S_IFSOCK
  | fifo => S_IFIFO

/-- The calendar of the server is that of the worker, and its numbers are small: both run with
`TZ=UTC`. -/
structure Clock (env : Env) (localtime : ℤ → DateTime) (mtime : ℤ) : Prop where
  back : env.toSecsSinceEpoch (localtime mtime) = mtime
  year : 0 ≤ (localtime mtime).year ∧ (localtime mtime).year < 2 ^ 31
  month : 0 ≤ (localtime mtime).month ∧ (localtime mtime).month < 2 ^ 31
  day : 0 ≤ (localtime mtime).day ∧ (localtime mtime).day < 2 ^ 31
  hour : 0 ≤ (localtime mtime).hour ∧ (localtime mtime).hour < 2 ^ 31
  minute : 0 ≤ (localtime mtime).minute ∧ (localtime mtime).minute < 2 ^ 31
  second : 0 ≤ (localtime mtime).second ∧ (localtime mtime).second < 2 ^ 31

lemma access_ascii (kind : Kind) (mode : ℕ) :
    ∀ c ∈ 'P' :: kind.letter :: rwx mode ++ [' '], c.toNat < 128 ∧ c ≠ '\n' := by
  have hrwx : ∀ c ∈ rwx mode, c.toNat < 128 ∧ c ≠ '\n' := by
    intro c hc
    have hmem : c ∈ ['r', 'w', 'x', 's', 'S', 't', 'T', '-'] := by
      unfold rwx at hc
      simp only [List.mem_cons, List.not_mem_nil, or_false] at hc
      rcases hc with rfl | rfl | rfl | rfl | rfl | rfl | rfl | rfl | rfl <;> split_ifs <;> decide
    have hall : ∀ c ∈ ['r', 'w', 'x', 's', 'S', 't', 'T', '-'], c.toNat < 128 ∧ c ≠ '\n' :=
      forall_mem_of_all (by decide)
    exact hall c hmem
  intro c hc
  simp only [List.cons_append, List.mem_cons, List.mem_append, List.not_mem_nil, or_false] at hc
  rcases hc with rfl | rfl | hc | rfl
  · decide
  · cases kind <;> decide
  · exact hrwx c hc
  · decide

end Perl

/-- The lines of a response, each with its newline. -/
def unlines (lines : List Bytes) : Bytes := lines.flatMap (· ++ [10])

/-! ### What the worker reads of a line -/

/-- The decoder of the remote encoding takes ASCII characters for themselves, at the start and
where a colon or a slash stands. -/
structure DecodesAscii (env : Env) : Prop where
  nil : env.decode [] = []
  cons : ∀ c : Char, c.toNat < 128 → ∀ rest,
    env.decode (UInt8.ofNat c.toNat :: rest) = c :: env.decode rest
  colon : ∀ a b, env.decode (a ++ 58 :: b) = env.decode a ++ ':' :: env.decode b
  mem_colon : ∀ a, ':' ∈ env.decode a → 58 ∈ a
  mem_slash : ∀ a, '/' ∈ env.decode a → 47 ∈ a

namespace DecodesAscii

variable {env : Env}

lemma bytesOf_append (h : DecodesAscii env) {text : Text} (htext : ∀ c ∈ text, c.toNat < 128)
    (rest : Bytes) : env.decode (bytesOf text ++ rest) = text ++ env.decode rest := by
  induction text with
  | nil => rfl
  | cons c text ih =>
    have hrest := ih fun d hd => htext d (by simp [hd])
    have hc := h.cons c (htext c (by simp)) (bytesOf text ++ rest)
    have hcons : bytesOf (c :: text) ++ rest = UInt8.ofNat c.toNat :: (bytesOf text ++ rest) := rfl
    rw [hcons, hc, hrest, List.cons_append]

lemma bytesOf_eq (h : DecodesAscii env) {text : Text} (htext : ∀ c ∈ text, c.toNat < 128) :
    env.decode (bytesOf text) = text := by
  have happ := h.bytesOf_append htext []
  rwa [List.append_nil, h.nil, List.append_nil] at happ

end DecodesAscii

namespace State

def listed (s : State) : List UDSEntry :=
  s.signals.filterMap fun
    | .listEntry entry => some entry
    | _ => none

def statted (s : State) : List UDSEntry :=
  s.signals.filterMap fun
    | .statEntry entry => some entry
    | _ => none

variable (env : Env)

def readLine (s : State) (line : Text) : State :=
  listLine env { s.emit (.line line) with errorCount := s.errorCount + 1 } line

variable {s t : State} {mode : ℕ}

lemma respondLine_listing (hcmd : s.fishCommand = .LIST ∨ s.fishCommand = .STAT) (line : Text) :
    s.respondLine env line = (s.listLine env line, .go) := by
  unfold respondLine
  rcases hcmd with hcmd | hcmd
  · rw [hcmd]
  · rw [hcmd]

lemma manageLine_listing {line : Bytes} (hcmd : s.fishCommand = .LIST ∨ s.fishCommand = .STAT)
    (hplain : startsWith "### ".toList (env.decode line) = false) :
    s.manageLine env line = (s.readLine env (env.decode line), .pass) := by
  have hresponse : handleResponse s.errorCount (env.decode line) = (0, s.errorCount + 1) := by
    simp only [handleResponse, hplain, Bool.false_eq_true, if_false]
  have hrespond : (s.emit (.line (env.decode line))).respond env (env.decode line) =
      (s.readLine env (env.decode line), .go) := by
    have hcount : (s.emit (.line (env.decode line))).errorCount = s.errorCount := rfl
    unfold respond
    rw [hcount, hresponse]
    exact (if_pos rfl).trans (respondLine_listing env
      (s := { s.emit (.line (env.decode line)) with errorCount := s.errorCount + 1 }) hcmd _)
  unfold manageLine manageConnection
  rw [hrespond]

/-- The members an entry is put together in. -/
structure Draft where
  udsEntry : UDSEntry
  udsType : ℕ
  udsMime : Option Text
  thisFn : Text

def draft (s : State) : Draft := ⟨s.udsEntry, s.udsType, s.udsMime, s.thisFn⟩

lemma readLine_listing (s : State) (line : Text) : Listing s (s.readLine env line) :=
  Listing.trans ⟨_, _, _, _, _, _, _, _, rfl⟩ (listLine_listing env _ line)

/-- A line gives nothing to the application but the size of the listing, and at its end an
entry. -/
lemma listLine_signals (s : State) (line : Text) {α : Type} (f : Signal → Option α)
    (hsize : ∀ size, f (.totalSize size) = none)
    (hentry : line = [] → ∀ entry, f (.listEntry entry) = none) :
    (s.listLine env line).signals.filterMap f = s.signals.filterMap f := by
  have hsame : ∀ t : State, t.signals = s.signals →
      t.signals.filterMap f = s.signals.filterMap f := fun t ht => by rw [ht]
  unfold listLine listUnits
  split
  · rename_i hnil
    have hempty := hentry (units_eq_nil.mp hnil)
    unfold lineEnd
    dsimp only
    split
    · split_ifs <;> simp [emit, hempty]
    · split_ifs <;> simp [emit, hempty]
  · split_ifs
    · unfold lineNumber
      dsimp only
      split_ifs <;> simp [emit, hsize]
    · refine hsame _ ?_
      unfold lineP lineAccess
      dsimp only
      split
      · split <;> rfl
      · split
        · split <;> rfl
        · rfl
    · refine hsame _ ?_
      unfold lineLsTime
      split
      · rfl
      · split <;> rfl
    · refine hsame _ ?_
      unfold lineTime
      split
      · rfl
      · split <;> rfl
    · refine hsame _ ?_
      unfold lineSize
      split <;> rfl
    · rfl
    · refine hsame _ ?_
      unfold lineName
      dsimp only
      split_ifs
      · split <;> rfl
      · rfl
      · split <;> rfl
      · rfl
    · refine hsame _ ?_
      unfold lineMime
      dsimp only
      split_ifs <;> rfl
    · rfl
    · rfl

lemma readLine_listed (s : State) {line : Text} (hne : line ≠ []) :
    (s.readLine env line).listed = s.listed := by
  have h := listLine_signals env { s.emit (.line line) with errorCount := s.errorCount + 1 }
    line (fun | .listEntry entry => some entry | _ => none) (fun _ => rfl)
    (fun hnil => absurd hnil hne)
  refine h.trans ?_
  simp [listed, emit]

lemma readLine_statted (s : State) (line : Text) : (s.readLine env line).statted = s.statted := by
  have h := listLine_signals env { s.emit (.line line) with errorCount := s.errorCount + 1 }
    line (fun | .statEntry entry => some entry | _ => none) (fun _ => rfl)
    (fun _ _ => rfl)
  refine h.trans ?_
  simp [statted, emit]

/-! ### The lines of an entry -/

lemma flag_value (p : Prop) [Decidable p] {c : Char} (hc : '-' ≠ c) (n : ℕ) :
    (if (if p then c else '-') = c then n else 0) = if p then n else 0 := by
  by_cases hp : p
  · simp [hp]
  · simp [hp, hc]

lemma exec_value (x s : Prop) [Decidable x] [Decidable s] {a b : Char}
    (ha : a ≠ '-' ∧ a ≠ 'x') (hb : b ≠ '-' ∧ b ≠ 'x' ∧ b ≠ a) (n : ℕ) :
    ((if (if x then (if s then a else 'x') else (if s then b else '-')) = 'x' ∨
        (if x then (if s then a else 'x') else (if s then b else '-')) = a then n else 0) =
      if x then n else 0) ∧
    ((if (if x then (if s then a else 'x') else (if s then b else '-')) = b ∨
        (if x then (if s then a else 'x') else (if s then b else '-')) = a then n else 0) =
      if s then n else 0) := by
  obtain ⟨ha1, ha2⟩ := ha
  obtain ⟨hb1, hb2, hb3⟩ := hb
  have hx1 : 'x' ≠ b := Ne.symm hb2
  have hx2 : 'x' ≠ a := Ne.symm ha2
  have hn1 : '-' ≠ 'x' := by decide
  have hn2 : '-' ≠ a := Ne.symm ha1
  have hn3 : '-' ≠ b := Ne.symm hb1
  by_cases hx : x <;> by_cases hs : s
  · simp only [hx, hs, if_true, or_true, and_self]
  · simp only [hx, hs, if_true, if_false, true_or, hx1, hx2, or_self, and_self]
  · simp only [hx, hs, if_true, if_false, true_or, hb2, hb3, or_self, and_self]
  · simp only [hx, hs, if_false, hn1, hn2, hn3, or_self, and_self]

lemma bit_value (n k : ℕ) : (if n &&& 2 ^ k ≠ 0 then 2 ^ k else 0) = n / 2 ^ k % 2 * 2 ^ k := by
  have hand : n &&& 2 ^ k = n / 2 ^ k % 2 * 2 ^ k := by
    rw [Nat.and_two_pow, Nat.toNat_testBit]
  have hpos : 0 < 2 ^ k := Nat.two_pow_pos k
  rcases Nat.mod_two_eq_zero_or_one (n / 2 ^ k) with h | h
  · rw [hand, h]
    simp
  · rw [hand, h]
    simp

lemma six_bits (n : ℕ) : n % 2 + n / 2 % 2 * 2 + n / 4 % 2 * 4 + n / 8 % 2 * 8 + n / 16 % 2 * 16 +
    n / 32 % 2 * 32 = n % 64 := by
  omega

lemma accessVal_rwx (h : mode < 0o10000) (letter : Char) (rest : Text) :
    accessVal ('P' :: letter :: (Perl.rwx mode ++ rest)) = mode := by
  have hr := fun p [Decidable p] => flag_value p (c := 'r') (by decide)
  have hw := fun p [Decidable p] => flag_value p (c := 'w') (by decide)
  have hu := exec_value (mode &&& 0o100 ≠ 0) (mode &&& 0o4000 ≠ 0) (a := 's') (b := 'S')
    (by decide) (by decide)
  have hg := exec_value (mode &&& 0o010 ≠ 0) (mode &&& 0o2000 ≠ 0) (a := 's') (b := 'S')
    (by decide) (by decide)
  have ho := exec_value (mode &&& 0o001 ≠ 0) (mode &&& 0o1000 ≠ 0) (a := 't') (b := 'T')
    (by decide) (by decide)
  unfold accessVal Perl.rwx
  simp only [at', List.cons_append, List.getD_cons_succ, List.getD_cons_zero, hr, hw,
    (hu _).1, (hu _).2, (hg _).1, (hg _).2, (ho _).1, (ho _).2]
  have h0 := bit_value mode 0
  have h1 := bit_value mode 1
  have h2 := bit_value mode 2
  have h3 := bit_value mode 3
  have h4 := bit_value mode 4
  have h5 := bit_value mode 5
  have h6 := bit_value mode 6
  have h7 := bit_value mode 7
  have h8 := bit_value mode 8
  have h9 := bit_value mode 9
  have h10 := bit_value mode 10
  have h11 := bit_value mode 11
  simp only [Nat.reducePow] at h0 h1 h2 h3 h4 h5 h6 h7 h8 h9 h10 h11
  rw [h0, h1, h2, h3, h4, h5, h6, h7, h8, h9, h10, h11]
  have hlow := six_bits mode
  have hhigh := six_bits (mode / 64)
  have hlt : mode / 64 < 64 := by omega
  have hsplit := Nat.div_add_mod mode 64
  simp only [Nat.div_div_eq_div_mul, Nat.reduceMul, Nat.mod_eq_of_lt hlt] at hhigh
  simp only [Nat.div_one, Nat.mul_one]
  linarith

lemma lineP_draft (kind : Perl.Kind) (hmode : mode < 0o10000) {owner : Text} (howner : ':' ∉ owner)
    (group : Text) :
    (s.lineP ('P' :: kind.letter :: (Perl.rwx mode ++ ' ' :: (owner ++ ':' :: group)))).draft =
      { s.draft with
        udsEntry := { s.draft.udsEntry with
          UDS_ACCESS := some mode
          UDS_USER := some owner
          UDS_GROUP := some group }
        udsType := kind.type
        udsMime := if kind = .directory then some inodeDirectory else s.draft.udsMime } := by
  set line := 'P' :: kind.letter :: (Perl.rwx mode ++ ' ' :: (owner ++ ':' :: group)) with hline
  have haccess : accessVal line = mode := accessVal_rwx hmode _ _
  have hpos : indexOf ':' 12 line = some (12 + owner.length) :=
    indexOf_split ('P' :: kind.letter :: (Perl.rwx mode ++ [' '])) howner group
  have huser : mid 12 (12 + owner.length - 12) line = owner := by
    rw [Nat.add_sub_cancel_left]
    exact mid_split ('P' :: kind.letter :: (Perl.rwx mode ++ [' '])) owner (':' :: group)
  have hgroup : line.drop (12 + owner.length + 1) = group := by
    have hdrop : line.drop 12 = owner ++ ':' :: group := rfl
    rw [Nat.add_assoc, ← List.drop_drop, hdrop, ← List.drop_drop, List.drop_left]
    rfl
  have hletter : at' 1 line = kind.letter := rfl
  have hunits : units 12 line = line := by
    refine units_append (p := 'P' :: kind.letter :: (Perl.rwx mode ++ [' '])) (fun c hc => ?_) _
    have hascii := (Perl.access_ascii kind mode c hc).1
    omega
  unfold lineP lineAccess
  rw [hunits]
  dsimp only
  rw [hletter, haccess, hpos]
  dsimp only
  rw [huser, hgroup]
  cases kind <;> rfl

lemma lineSize_draft {size : ℕ} (h : size < 2 ^ 63) :
    (s.lineSize ('S' :: number 10 size)).draft =
      { s.draft with udsEntry := { s.draft.udsEntry with UDS_SIZE := some (size : ℤ) } } := by
  have hpad : padded 0 size = number 10 size := by simp [padded]
  have hsize : toLongLong (number 10 size) = some (size : ℤ) := by
    rw [← hpad]
    exact toNumber_padded (by exact_mod_cast h)
  unfold lineSize
  rw [List.drop_one, List.tail_cons, hsize]
  rfl

lemma threeInts_padded (p : Text) {v w x y z n : ℕ} (hx : (x : ℤ) < 2 ^ 31) (hy : (y : ℤ) < 2 ^ 31)
    (hz : (z : ℤ) < 2 ^ 31) (rest : Text) :
    threeInts p.length (p ++ (padded v x ++ ' ' :: (padded w y ++ ' ' :: (padded n z ++ ' ' :: rest))))
        true = some ((x : ℤ), (y : ℤ), (z : ℤ), (p ++ (padded v x ++ ' ' :: (padded w y ++ ' ' :: padded n z))).length) ∧
      threeInts p.length (p ++ (padded v x ++ ' ' :: (padded w y ++ ' ' :: padded n z))) false =
        some ((x : ℤ), (y : ℤ), (z : ℤ),
          (p ++ (padded v x ++ ' ' :: (padded w y ++ ' ' :: padded n z))).length) := by
  set q := p ++ (padded v x ++ [' ']) with hq
  set r := q ++ (padded w y ++ [' ']) with hr
  have hqlen : q.length = p.length + (padded v x).length + 1 := by
    simp [hq, Nat.add_assoc]
  have hrlen : r.length = q.length + (padded w y).length + 1 := by
    simp [hr, Nat.add_assoc]
  have hint : ∀ width n : ℕ, (n : ℤ) < 2 ^ 31 → (toInt (padded width n)).getD 0 = n := by
    intro width n hn
    have h : toNumber 32 (padded width n) = some (n : ℤ) := toNumber_padded hn
    simp [toInt, h]
  have hfirst : ∀ line tail, line = p ++ (padded v x ++ ' ' :: tail) →
      indexOf ' ' p.length line = some (p.length + (padded v x).length) ∧
        mid p.length (p.length + (padded v x).length - p.length) line = padded v x := by
    rintro line tail rfl
    rw [Nat.add_sub_cancel_left]
    exact ⟨indexOf_split p (blank_notMem_padded v x) tail, mid_split p (padded v x) (' ' :: tail)⟩
  have hsecond : ∀ line tail, line = q ++ (padded w y ++ ' ' :: tail) →
      indexOf ' ' (p.length + (padded v x).length + 1) line = some (q.length + (padded w y).length) ∧
        mid (p.length + (padded v x).length + 1)
          (q.length + (padded w y).length - (p.length + (padded v x).length) - 1) line =
            padded w y := by
    rintro line tail rfl
    have hsub : q.length + (padded w y).length - (p.length + (padded v x).length) - 1 =
        (padded w y).length := by omega
    rw [hsub, ← hqlen]
    exact ⟨indexOf_split q (blank_notMem_padded w y) tail, mid_split q (padded w y) (' ' :: tail)⟩
  constructor
  · set line := p ++ (padded v x ++ ' ' :: (padded w y ++ ' ' :: (padded n z ++ ' ' :: rest)))
      with hline
    obtain ⟨hpos, hmid⟩ := hfirst line _ hline
    obtain ⟨hpos2, hmid2⟩ := hsecond line (padded n z ++ ' ' :: rest) (by simp [hline, hq])
    have hthird : line = r ++ (padded n z ++ ' ' :: rest) := by simp [hline, hr, hq]
    have hpos3 : indexOf ' ' (q.length + (padded w y).length + 1) line =
        some (r.length + (padded n z).length) := by
      rw [hthird, ← hrlen]
      exact indexOf_split r (blank_notMem_padded n z) rest
    have hmid3 : mid (q.length + (padded w y).length + 1)
        (r.length + (padded n z).length - (q.length + (padded w y).length) - 1) line =
          padded n z := by
      have hsub : r.length + (padded n z).length - (q.length + (padded w y).length) - 1 =
          (padded n z).length := by omega
      rw [hsub, hthird, ← hrlen]
      exact mid_split r (padded n z) (' ' :: rest)
    unfold threeInts
    rw [hpos]
    dsimp only
    rw [hpos2]
    dsimp only
    rw [if_pos rfl, hpos3]
    dsimp only
    rw [hmid, hmid2, hmid3, hint v x hx, hint w y hy, hint n z hz]
    simp [hr, hq]
    omega
  · set line := p ++ (padded v x ++ ' ' :: (padded w y ++ ' ' :: padded n z)) with hline
    obtain ⟨hpos, hmid⟩ := hfirst line _ hline
    obtain ⟨hpos2, hmid2⟩ := hsecond line (padded n z) (by simp [hline, hq])
    have hthird : line = r ++ padded n z := by simp [hline, hr, hq]
    have hdrop : line.drop (q.length + (padded w y).length + 1) = padded n z := by
      rw [hthird, ← hrlen, List.drop_left]
    unfold threeInts
    rw [hpos]
    dsimp only
    rw [hpos2]
    dsimp only
    rw [if_neg (by decide), hmid, hmid2, hdrop, hint v x hx, hint w y hy, hint n z hz]

lemma lineTime_draft {localtime : ℤ → DateTime} {mtime : ℤ} (h : Perl.Clock env localtime mtime) :
    (s.lineTime env (Perl.timeText (localtime mtime))).draft =
      { s.draft with udsEntry := { s.draft.udsEntry with UDS_MODIFICATION_TIME := some mtime } } := by
  obtain ⟨hback, hyear, hmonth, hday, hhour, hminute, hsecond⟩ := h
  set time := localtime mtime with htime
  have hnat : ∀ n : ℤ, 0 ≤ n ∧ n < 2 ^ 31 → (n.toNat : ℤ) = n ∧ (n.toNat : ℤ) < 2 ^ 31 := by
    intro n hn
    omega
  set date := 'D' :: (padded 4 time.year.toNat ++ ' ' :: (padded 2 time.month.toNat ++
    ' ' :: padded 2 time.day.toNat)) with hdate
  have hfirst : threeInts 1 (Perl.timeText time) true = some ((time.year.toNat : ℤ),
      (time.month.toNat : ℤ), (time.day.toNat : ℤ), date.length) :=
    (threeInts_padded ['D'] (v := 4) (w := 2) (n := 2) (hnat _ hyear).2 (hnat _ hmonth).2
      (hnat _ hday).2 (padded 2 time.hour.toNat ++
        ' ' :: (padded 2 time.minute.toNat ++ ' ' :: padded 2 time.second.toNat))).1
  have hrest := (threeInts_padded (date ++ [' ']) (v := 2) (w := 2) (n := 2) (hnat _ hhour).2
    (hnat _ hminute).2 (hnat _ hsecond).2 []).2
  have hline : date ++ [' '] ++ (padded 2 time.hour.toNat ++
      ' ' :: (padded 2 time.minute.toNat ++ ' ' :: padded 2 time.second.toNat)) =
      Perl.timeText time := by
    simp [hdate, Perl.timeText]
  have hlen : (date ++ [' ']).length = date.length + 1 := by simp
  rw [hline, hlen] at hrest
  unfold lineTime
  rw [hfirst]
  dsimp only
  rw [hrest]
  dsimp only
  rw [(hnat _ hyear).1, (hnat _ hmonth).1, (hnat _ hday).1, (hnat _ hhour).1, (hnat _ hminute).1,
    (hnat _ hsecond).1, hback]
  rfl

/-- The mime type that the line with the name leaves. -/
def namedMime (mime : Option Text) (name : Text) : Option Text :=
  if mime ≠ some inodeDirectory then (env.mimeTypeForUrl name).or mime else mime

lemma lineName_draft {name : Text} (h : '/' ∉ name) :
    (s.lineName env (':' :: name)).draft = { s.draft with
      udsEntry :=
        if s.fishCommand = .LIST then { s.draft.udsEntry with UDS_NAME := some name }
        else s.draft.udsEntry
      udsMime := namedMime env s.draft.udsMime name
      thisFn := name } := by
  have hlast : afterLastSlash 1 (':' :: name) = name := by
    simp [afterLastSlash, h]
  have hmime : s.draft.udsMime = s.udsMime := rfl
  unfold lineName namedMime
  rw [hlast, hmime]
  dsimp only
  by_cases hlist : s.fishCommand = .LIST
  · simp only [hlist, if_true]
    split_ifs
    · cases env.mimeTypeForUrl name <;> rfl
    · rfl
  · simp only [hlist, if_false]
    split_ifs
    · cases env.mimeTypeForUrl name <;> rfl
    · rfl

lemma lineLink_draft (link : Text) (h : s.draft.udsType ≠ 0) :
    (s.lineLink ('L' :: link)).draft =
      { s.draft with udsEntry := { s.draft.udsEntry with UDS_LINK_DEST := some link } } := by
  have htype : ¬ s.udsType = 0 := h
  unfold lineLink
  rw [if_neg htype]
  rfl

lemma lineMime_draft {type : Text} (h : type ≠ inodeDirectory) :
    ∃ mime, (s.lineMime ('M' :: type)).draft = { s.draft with udsMime := mime } := by
  unfold lineMime
  dsimp only
  split_ifs with hnone hdir
  · exact absurd hdir h
  · exact ⟨some type, rfl⟩
  · exact ⟨s.udsMime, rfl⟩

lemma lineMime_directory (s : State) :
    ∃ mime, (s.lineMime ('M' :: inodeDirectory)).draft = { s.draft with
      udsMime := mime
      udsType := if s.draft.udsMime.getD [] = [] then S_IFDIR else s.draft.udsType } := by
  have hright : right 8 ('M' :: inodeDirectory) ≠ "/unknown".toList := by decide
  have htext : ('M' :: inodeDirectory).take 8 ≠ "Mtext/x-".toList := by decide
  have hplain : 'M' :: inodeDirectory ≠ "Mtext/plain".toList := by decide
  have hdrop : ('M' :: inodeDirectory).drop 1 = inodeDirectory := rfl
  unfold lineMime
  dsimp only
  by_cases hnone : s.draft.udsMime.getD [] = []
  · rw [if_pos ⟨hnone, hright, Or.inr ⟨htext, hplain⟩⟩, if_pos hdrop, if_pos hnone]
    exact ⟨some inodeDirectory, rfl⟩
  · rw [if_neg fun h => hnone h.1, if_neg hnone]
    exact ⟨s.udsMime, rfl⟩

/-! ### An entry -/

def readLines (s : State) (lines : List Bytes) : State :=
  lines.foldl (fun s line => s.readLine env (env.decode line)) s

lemma readLines_append (s : State) (lines more : List Bytes) :
    s.readLines env (lines ++ more) = (s.readLines env lines).readLines env more := by
  simp [readLines]

lemma readLines_listing (s : State) (lines : List Bytes) : Listing s (s.readLines env lines) := by
  induction lines generalizing s with
  | nil => exact Listing.refl s
  | cons line lines ih => exact (readLine_listing env s _).trans (ih _)

/-- The entry has got so far. -/
structure Parsed (s : State) (d : Draft) (t : State) : Prop where
  listing : Listing s t
  listed : t.listed = s.listed
  draft : t.draft = d

lemma Listing.fishCommand (h : Listing s t) : t.fishCommand = s.fishCommand := by
  obtain ⟨_, _, _, _, _, _, _, _, rfl⟩ := h
  rfl

variable {env} in
lemma Parsed.step {d d' : Draft} (h : Parsed s d t) {line : Text} (hne : line ≠ [])
    (hline : ∀ u : State, u.fishCommand = s.fishCommand → u.draft = d →
      (u.listLine env line).draft = d') : Parsed s d' (t.readLine env line) where
  listing := h.listing.trans (readLine_listing env t line)
  listed := (readLine_listed env t hne).trans h.listed
  draft := hline { t.emit (.line line) with errorCount := t.errorCount + 1 }
    h.listing.fishCommand h.draft

def drafted (e : Perl.Entry) (list : Bool) (stale : Option Text) : UDSEntry × ℕ :=
  ({ UDS_NAME := if list = true then some (env.decode e.name) else none
     UDS_ACCESS := some e.mode
     UDS_USER := some (env.decode e.owner)
     UDS_GROUP := some (env.decode e.group)
     UDS_SIZE := some (e.size : ℤ)
     UDS_MODIFICATION_TIME := some e.mtime
     UDS_LINK_DEST := if e.kind = .symlink then some (env.decode e.link) else none },
   if e.linksToDirectory ∧ (namedMime env stale (env.decode e.name)).getD [] = [] then S_IFDIR
   else e.kind.type)

end State

namespace Perl

variable {env : Env}

lemma filetype_ascii (e : Entry) :
    ∀ c ∈ 'P' :: e.kind.letter :: rwx e.mode ++ [' '], c.toNat < 128 ∧ c ≠ '\n' :=
  access_ascii e.kind e.mode

lemma filetype_text (h : DecodesAscii env) (e : Entry) :
    env.decode (filetype e) = 'P' :: e.kind.letter ::
      (rwx e.mode ++ ' ' :: (env.decode e.owner ++ ':' :: env.decode e.group)) := by
  unfold filetype
  rw [h.bytesOf_append fun c hc => (filetype_ascii e c hc).1, h.colon]
  simp

lemma digit_ascii {c : Char} (h : c.isDigit = true) : c.toNat < 128 ∧ c ≠ '\n' := by
  have hrange := digit_plain h
  refine ⟨by omega, ?_⟩
  rintro rfl
  exact absurd hrange.1 (by decide)

lemma timeText_ascii (time : DateTime) : ∀ c ∈ timeText time, c.toNat < 128 ∧ c ≠ '\n' := by
  have hpad : ∀ width n : ℕ, ∀ c ∈ padded width n, c.toNat < 128 ∧ c ≠ '\n' :=
    fun width n c hc => digit_ascii (padded_digits hc)
  intro c hc
  simp only [timeText, List.mem_cons, List.mem_append] at hc
  rcases hc with rfl | hc | rfl | hc | rfl | hc | rfl | hc | rfl | hc | rfl | hc
  all_goals first
    | decide
    | exact hpad _ _ c hc

lemma size_text (h : DecodesAscii env) (size : ℕ) :
    env.decode (bytesOf ('S' :: number 10 size)) = 'S' :: number 10 size := by
  refine h.bytesOf_eq fun c hc => ?_
  rcases List.mem_cons.mp hc with rfl | hc
  · decide
  · exact (digit_ascii (number_digits hc)).1

lemma name_text (h : DecodesAscii env) (e : Entry) :
    env.decode (nameLine e) = ':' :: env.decode e.name :=
  h.cons ':' (by decide) e.name

lemma link_text (h : DecodesAscii env) (link : Bytes) :
    env.decode (76 :: link) = 'L' :: env.decode link :=
  h.cons 'L' (by decide) link

lemma mime_text (h : DecodesAscii env) {type : Text} (htype : ∀ c ∈ type, c.toNat < 128) :
    env.decode (bytesOf ('M' :: type)) = 'M' :: type := by
  refine h.bytesOf_eq fun c hc => ?_
  rcases List.mem_cons.mp hc with rfl | hc
  · decide
  · exact htype c hc

lemma mimetype_text (h : DecodesAscii env) (e : Entry) {line : Bytes} (hline : line ∈ mimetype e) :
    ∃ type, env.decode line = 'M' :: type ∧
      ((e.isDirectory ∧ type = inodeDirectory) ∨ (¬ e.isDirectory ∧ type ≠ inodeDirectory)) := by
  unfold mimetype at hline
  split_ifs at hline with hdir
  · obtain rfl := Option.some.inj hline
    exact ⟨inodeDirectory, mime_text h (forall_mem_of_all (by decide)), Or.inl ⟨hdir, rfl⟩⟩
  · cases htype : e.type with
    | none => simp [htype] at hline
    | some type =>
      obtain ⟨hne, hascii⟩ := e.type_plain type htype
      rw [htype] at hline
      obtain rfl := Option.some.inj hline
      exact ⟨type, mime_text h fun c hc => (hascii c hc).1, Or.inr ⟨hdir, hne⟩⟩

end Perl

namespace State

variable {env : Env}

lemma listLine_P (s : State) (text : Text) : s.listLine env ('P' :: text) = s.lineP ('P' :: text) :=
  rfl

lemma listLine_S (s : State) (text : Text) :
    s.listLine env ('S' :: text) = s.lineSize ('S' :: text) := rfl

lemma listLine_colon (s : State) (text : Text) :
    s.listLine env (':' :: text) = s.lineName env (':' :: text) := rfl

lemma listLine_L (s : State) (text : Text) :
    s.listLine env ('L' :: text) = s.lineLink ('L' :: text) := rfl

lemma listLine_M (s : State) (text : Text) :
    s.listLine env ('M' :: text) = s.lineMime ('M' :: text) := rfl

lemma Parsed.refl (s : State) : Parsed s s.draft s := ⟨Listing.refl s, rfl, rfl⟩

variable {d : Draft} {s t : State}

lemma link_parsed (h : DecodesAscii env) (hd : Parsed s d t) (e : Perl.Entry)
    (htype : d.udsType ≠ 0) : Parsed s { d with udsEntry := { d.udsEntry with
      UDS_LINK_DEST := if e.kind = .symlink then some (env.decode e.link)
        else d.udsEntry.UDS_LINK_DEST } }
      (t.readLines env (Perl.linkLine e).toList) := by
  unfold Perl.linkLine
  split_ifs
  · refine hd.step (by simp [Perl.link_text h]) fun u _ hu => ?_
    rw [Perl.link_text h, listLine_L, lineLink_draft (env.decode e.link) (by rw [hu]; exact htype),
      hu]
  · exact hd

lemma mime_parsed (h : DecodesAscii env) (hd : Parsed s d t) (e : Perl.Entry) :
    ∃ mime, Parsed s { d with
      udsMime := mime
      udsType := if e.isDirectory ∧ d.udsMime.getD [] = [] then S_IFDIR else d.udsType }
      (t.readLines env (Perl.mimetype e).toList) := by
  cases hline : Perl.mimetype e with
  | none =>
    have hdir : ¬ e.isDirectory := by
      intro hdir
      simp [Perl.mimetype, hdir] at hline
    rw [if_neg fun hboth => hdir hboth.1]
    exact ⟨d.udsMime, hd⟩
  | some line =>
    have hmem : line ∈ Perl.mimetype e := hline
    obtain ⟨type, htext, hdir⟩ := Perl.mimetype_text h e hmem
    have hne : env.decode line ≠ [] := by simp [htext]
    -- the state in which the line is read is that of `Parsed.step`
    have hmime : ∃ mime, (State.listLine env { t.emit (.line (env.decode line)) with
        errorCount := t.errorCount + 1 } (env.decode line)).draft = { d with
          udsMime := mime
          udsType := if e.isDirectory ∧ d.udsMime.getD [] = [] then S_IFDIR else d.udsType } := by
      set u : State := { t.emit (.line (env.decode line)) with errorCount := t.errorCount + 1 }
        with hu
      have hdraft : u.draft = d := hd.draft
      rw [htext, listLine_M]
      rcases hdir with ⟨hdir, rfl⟩ | ⟨hdir, hother⟩
      · obtain ⟨mime, hmime⟩ := lineMime_directory u
        refine ⟨mime, ?_⟩
        rw [hmime, hdraft]
        simp [hdir]
      · obtain ⟨mime, hmime⟩ := lineMime_draft (s := u) hother
        refine ⟨mime, ?_⟩
        rw [hmime, hdraft, if_neg fun hboth => hdir hboth.1]
    obtain ⟨mime, hmime⟩ := hmime
    exact ⟨mime, hd.listing.trans (readLine_listing env t _), (readLine_listed env t hne).trans
      hd.listed, hmime⟩

lemma body_parsed (h : DecodesAscii env) {localtime : ℤ → DateTime} {e : Perl.Entry}
    (hclock : Perl.Clock env localtime e.mtime) (hentry : s.udsEntry = {}) :
    ∃ d, Parsed s d (s.readLines env (Perl.bodyLines localtime e)) ∧
      (d.udsEntry, d.udsType) = drafted env e (decide (s.fishCommand = .LIST)) s.udsMime := by
  have hname : '/' ∉ env.decode e.name := fun hmem => e.name_plain.2 (h.mem_slash _ hmem)
  have howner : ':' ∉ env.decode e.owner := fun hmem => e.owner_plain.2 (h.mem_colon _ hmem)
  have hsize := Perl.size_text h e.size
  have htime : env.decode (Perl.strftime (localtime e.mtime)) = Perl.timeText (localtime e.mtime) :=
    h.bytesOf_eq fun c hc => (Perl.timeText_ascii _ c hc).1
  have hP : Parsed s _ (s.readLine env (env.decode (Perl.filetype e))) :=
    (Parsed.refl s).step (by simp [Perl.filetype_text h]) fun u _ hd => by
      rw [Perl.filetype_text h, listLine_P, lineP_draft e.kind e.mode_lt howner, hd]
  have hS : Parsed s _ (readLine env _ (env.decode (bytesOf ('S' :: number 10 e.size)))) :=
    hP.step (by simp [hsize]) fun u _ hd => by
      rw [hsize, listLine_S, lineSize_draft e.size_lt, hd]
  have hD : Parsed s _ (readLine env _ (env.decode (Perl.strftime (localtime e.mtime)))) :=
    hS.step (by simp [htime, Perl.timeText]) fun u _ hd => by
      rw [htime]
      exact (lineTime_draft env hclock).trans (by rw [hd])
  have hN : Parsed s _ (readLine env _ (env.decode (Perl.nameLine e))) :=
    hD.step (by simp [Perl.name_text h]) fun u hu hd => by
      rw [Perl.name_text h, listLine_colon, lineName_draft env hname, hd, hu]
  have htype : e.kind.type ≠ 0 := by cases e.kind <;> decide
  have hL := link_parsed h hN e htype
  obtain ⟨mime, hM⟩ := mime_parsed h hL e
  have hbody : s.readLines env (Perl.bodyLines localtime e) = (readLines env
      (s.readLines env [Perl.filetype e, bytesOf ('S' :: number 10 e.size),
        Perl.strftime (localtime e.mtime), Perl.nameLine e])
      (Perl.linkLine e).toList).readLines env (Perl.mimetype e).toList := by
    unfold Perl.bodyLines
    rw [readLines_append, readLines_append]
  refine ⟨_, hbody ▸ hM, ?_⟩
  have hdraft : s.draft.udsEntry = {} := hentry
  have hmime : s.draft.udsMime = s.udsMime := rfl
  dsimp only
  rw [hdraft, hmime]
  by_cases hdir : e.kind = .directory
  · by_cases hlist : s.fishCommand = .LIST
    · simp [drafted, Perl.Entry.isDirectory, Perl.Entry.linksToDirectory, hdir, hlist,
        Perl.Kind.type]
    · simp [drafted, Perl.Entry.isDirectory, Perl.Entry.linksToDirectory, hdir, hlist,
        Perl.Kind.type]
  · by_cases hlist : s.fishCommand = .LIST
    · simp [drafted, Perl.Entry.isDirectory, hdir, hlist]
    · simp [drafted, Perl.Entry.isDirectory, hdir, hlist]

def ended (s : State) : UDSEntry :=
  match s.udsMime with
  | none => { s.udsEntry with UDS_FILE_TYPE := some s.udsType }
  | some mime =>
    { s.udsEntry with UDS_MIME_TYPE := some mime, UDS_FILE_TYPE := some s.udsType }

lemma lineEnd_eq (s : State) : s.lineEnd = { (
    if s.fishCommand = .STAT then { s with udsStatEntry := s.ended }
    else if s.listReason = .LIST then s.emit (.listEntry s.ended)
    else { s with checkExist := true }) with
      udsMime := none
      udsType := 0
      errorCount := s.errorCount - 1
      udsEntry := {} } := by
  unfold lineEnd ended
  dsimp only
  cases s.udsMime with
  | none =>
    dsimp only
    split_ifs <;> rfl
  | some mime =>
    dsimp only
    split_ifs <;> rfl

variable (env) in
lemma readLine_end (s : State) : (s.readLine env []).draft = ⟨{}, 0, none, s.thisFn⟩ ∧
    (s.fishCommand = .STAT → (s.readLine env []).listed = s.listed ∧
      (s.readLine env []).udsStatEntry = s.ended) ∧
    (s.fishCommand = .LIST → s.listReason = .LIST →
      (s.readLine env []).listed = s.listed ++ [s.ended]) ∧
    (s.fishCommand = .LIST → s.listReason = .CHECK → (s.readLine env []).checkExist = true) := by
  have hread : s.readLine env [] =
      lineEnd { s.emit (.line []) with errorCount := s.errorCount + 1 } := rfl
  have hcmd' : (s.emit (.line [])).fishCommand = s.fishCommand := rfl
  have hreason' : (s.emit (.line [])).listReason = s.listReason := rfl
  rw [hread, lineEnd_eq]
  dsimp only
  rw [hcmd', hreason']
  refine ⟨?_, fun hcmd => ?_, fun hcmd hreason => ?_, fun hcmd hreason => ?_⟩
  · split_ifs <;> rfl
  · rw [if_pos hcmd]
    exact ⟨by simp [listed, emit], rfl⟩
  · rw [if_neg (by rw [hcmd]; decide), if_pos hreason]
    simp [listed, emit, ended]
  · rw [if_neg (by rw [hcmd]; decide), if_neg (by rw [hreason]; decide)]

end State

/-- The entry shows what the server found out. A link to a directory is a directory. -/
structure Shows (env : Env) (e : Perl.Entry) (entry : UDSEntry) : Prop where
  name : entry.UDS_NAME = some (env.decode e.name)
  access : entry.UDS_ACCESS = some e.mode
  user : entry.UDS_USER = some (env.decode e.owner)
  group : entry.UDS_GROUP = some (env.decode e.group)
  size : entry.UDS_SIZE = some (e.size : ℤ)
  mtime : entry.UDS_MODIFICATION_TIME = some e.mtime
  link : entry.UDS_LINK_DEST = if e.kind = .symlink then some (env.decode e.link) else none
  type : entry.UDS_FILE_TYPE = some (if e.linksToDirectory then S_IFDIR else e.kind.type)

namespace State

variable {env : Env}

/-- Nothing tells a mime type before the server does. -/
def Untyped (env : Env) (stale : Option Text) (e : Perl.Entry) : Prop :=
  env.mimeTypeForUrl (env.decode e.name) = none ∧ stale.getD [] = []

lemma namedMime_iff (hmime : ∀ name, env.mimeTypeForUrl name ≠ some []) (stale : Option Text)
    (e : Perl.Entry) :
    (namedMime env stale (env.decode e.name)).getD [] = [] ↔ Untyped env stale e := by
  have hne := hmime (env.decode e.name)
  unfold namedMime Untyped
  cases hname : env.mimeTypeForUrl (env.decode e.name) with
  | none =>
    split_ifs <;> simp
  | some mime =>
    rw [hname] at hne
    split_ifs with hdir
    · simp only [Option.some_or, Option.getD_some]
      constructor
      · rintro rfl
        exact absurd rfl hne
      · simp
    · have hstale : stale = some inodeDirectory := not_not.mp hdir
      rw [hstale]
      exact iff_of_false (by decide) fun h => absurd h.2 (by decide)

variable {e : Perl.Entry} {s : State} {localtime : ℤ → DateTime} {a b c : Char} {n : ℤ}

lemma shows_iff {list : Bool} {stale : Option Text}
    (hmime : ∀ name, env.mimeTypeForUrl name ≠ some [])
    (h : (s.udsEntry, s.udsType) = drafted env e list stale) (name : Text) :
    Shows env e { s.ended with UDS_NAME := some name } ↔
      name = env.decode e.name ∧ (e.linksToDirectory → Untyped env stale e) := by
  obtain ⟨hentry, htype⟩ := Prod.mk.inj h
  have hfields : s.ended.UDS_ACCESS = s.udsEntry.UDS_ACCESS ∧
      s.ended.UDS_USER = s.udsEntry.UDS_USER ∧ s.ended.UDS_GROUP = s.udsEntry.UDS_GROUP ∧
      s.ended.UDS_SIZE = s.udsEntry.UDS_SIZE ∧
      s.ended.UDS_MODIFICATION_TIME = s.udsEntry.UDS_MODIFICATION_TIME ∧
      s.ended.UDS_LINK_DEST = s.udsEntry.UDS_LINK_DEST ∧
      s.ended.UDS_FILE_TYPE = some s.udsType := by
    unfold ended
    cases s.udsMime <;> exact ⟨rfl, rfl, rfl, rfl, rfl, rfl, rfl⟩
  obtain ⟨h2, h3, h4, h5, h6, h7, h8⟩ := hfields
  rw [hentry] at h2 h3 h4 h5 h6 h7
  have hnamed := namedMime_iff hmime stale e
  constructor
  · intro hshows
    refine ⟨Option.some.inj hshows.name, fun hlink => ?_⟩
    have hshown := hshows.type
    rw [h8, htype, if_pos hlink] at hshown
    by_contra huntyped
    rw [if_neg fun hboth => huntyped (hnamed.mp hboth.2), hlink.1] at hshown
    exact absurd (Option.some.inj hshown) (by decide)
  · rintro ⟨hname, huntyped⟩
    refine ⟨congrArg some hname, h2, h3, h4, h5, h6, h7, ?_⟩
    rw [h8, htype]
    by_cases hlink : e.linksToDirectory
    · rw [if_pos ⟨hlink, hnamed.mpr (huntyped hlink)⟩, if_pos hlink]
    · rw [if_neg fun hboth => hlink hboth.1, if_neg hlink]

/-! ### The entries -/

lemma Listing.listReason {t : State} (h : Listing s t) : t.listReason = s.listReason := by
  obtain ⟨_, _, _, _, _, _, _, _, rfl⟩ := h
  rfl

lemma entry_listed (h : DecodesAscii env) (hmime : ∀ name, env.mimeTypeForUrl name ≠ some [])
    (hclock : Perl.Clock env localtime e.mtime) (hcmd : s.fishCommand = .LIST)
    (hreason : s.listReason = .LIST) (hentry : s.udsEntry = {}) :
    ∃ entry, (s.readLines env (Perl.entryLines localtime e)).listed = s.listed ++ [entry] ∧
      (Shows env e entry ↔ (e.linksToDirectory → Untyped env s.udsMime e)) ∧
      (s.readLines env (Perl.entryLines localtime e)).udsEntry = {} ∧
      (s.readLines env (Perl.entryLines localtime e)).udsMime = none := by
  obtain ⟨d, hparsed, hd⟩ := body_parsed h hclock hentry
  set t := s.readLines env (Perl.bodyLines localtime e) with ht
  have hlines : s.readLines env (Perl.entryLines localtime e) = t.readLine env [] := by
    unfold Perl.entryLines
    rw [readLines_append, ← ht]
    exact congrArg (t.readLine env) h.nil
  obtain ⟨hdraft, _, hlist, _⟩ := readLine_end env t
  have hlisted := hlist (hparsed.listing.fishCommand.trans hcmd)
    (hparsed.listing.listReason.trans hreason)
  have htold : (t.udsEntry, t.udsType) = drafted env e true s.udsMime := by
    have hdt : t.draft = d := hparsed.draft
    have htrue : decide (s.fishCommand = .LIST) = true := by simp [hcmd]
    rw [← htrue, ← hd, ← hdt]
    rfl
  rw [hlines]
  have hname : t.ended = { t.ended with UDS_NAME := some (env.decode e.name) } := by
    have hentry : t.udsEntry.UDS_NAME = some (env.decode e.name) := by
      rw [(Prod.mk.inj htold).1]
      rfl
    unfold ended
    cases t.udsMime <;> rw [← hentry]
  have hshows := shows_iff hmime htold (env.decode e.name)
  rw [← hname] at hshows
  refine ⟨t.ended, by rw [hlisted, hparsed.listed], by simpa using hshows, ?_, ?_⟩
  · exact congrArg Draft.udsEntry hdraft
  · exact congrArg Draft.udsMime hdraft

/-- **The entries of a directory, one for one.** The mime type that is left from before counts for
the first of them. -/
lemma entries_listed (h : DecodesAscii env) (hmime : ∀ name, env.mimeTypeForUrl name ≠ some [])
    {entries : List Perl.Entry} (hclock : ∀ e ∈ entries, Perl.Clock env localtime e.mtime)
    (hcmd : s.fishCommand = .LIST) (hreason : s.listReason = .LIST) (hentry : s.udsEntry = {}) :
    ∃ new, (s.readLines env (entries.flatMap (Perl.entryLines localtime))).listed =
        s.listed ++ new ∧
      (List.Forall₂ (Shows env) entries new ↔
        (∀ e ∈ entries.head?, e.linksToDirectory → Untyped env s.udsMime e) ∧
        ∀ e ∈ entries.tail, e.linksToDirectory → Untyped env none e) := by
  induction entries generalizing s with
  | nil => exact ⟨[], by simp [readLines], by simp⟩
  | cons e entries ih =>
    obtain ⟨entry, hlisted, hshows, hentry', hmime'⟩ :=
      entry_listed h hmime (hclock e (by simp)) hcmd hreason hentry
    have hlisting := readLines_listing env s (Perl.entryLines localtime e)
    obtain ⟨new, hnew, hall⟩ := ih (fun e' he' => hclock e' (by simp [he']))
      (hlisting.fishCommand.trans hcmd) (hlisting.listReason.trans hreason) hentry'
    refine ⟨entry :: new, ?_, ?_⟩
    · rw [List.flatMap_cons, readLines_append, hnew, hlisted]
      simp
    · rw [List.forall₂_cons, hshows, hall, hmime']
      cases entries with
      | nil => simp
      | cons e' entries => simp

/-! ### Responses as lines -/

lemma handleResponse_code (count : ℤ) (hn : (toInt [a, b, c]).getD 500 = n) (h0 : n ≠ 0)
    (h1 : n ≠ 1) (text : Text) :
    handleResponse count ("### ".toList ++ a :: b :: c :: text) = (n, count) := by
  have hstart := startsWith_append "### ".toList (a :: b :: c :: text)
  have hmid : mid 4 3 ("### ".toList ++ a :: b :: c :: text) = [a, b, c] := rfl
  unfold handleResponse
  rw [if_pos hstart, hmid, hn]
  dsimp only
  rw [if_neg h0, if_neg h1]

lemma manageLine_code {line : Bytes} {text : Text}
    (htext : env.decode line = "### ".toList ++ a :: b :: c :: text)
    (hn : (toInt [a, b, c]).getD 500 = n) (h0 : n ≠ 0) (h1 : n ≠ 1) :
    s.manageLine env line = conclude env (
      if n = 100 then (s.emit (.line (env.decode line))).respond100 env
      else if n.tdiv 100 ≠ 2 then
        (s.emit (.line (env.decode line))).respondError env n (env.decode line)
      else (s.emit (.line (env.decode line))).respondOk env) := by
  have hrespond : (s.emit (.line (env.decode line))).respond env (env.decode line) =
      if n = 100 then (s.emit (.line (env.decode line))).respond100 env
      else if n.tdiv 100 ≠ 2 then
        (s.emit (.line (env.decode line))).respondError env n (env.decode line)
      else (s.emit (.line (env.decode line))).respondOk env := by
    have hcode := handleResponse_code (s.emit (.line (env.decode line))).errorCount hn h0 h1 text
    rw [← htext] at hcode
    unfold respond
    rw [hcode]
    exact if_neg h0
  unfold manageLine manageConnection
  rw [hrespond]
  split <;> rename_i heq <;> rw [heq] <;> rfl

lemma decode_100 (h : DecodesAscii env) :
    env.decode (ascii "### 100") = "### ".toList ++ '1' :: '0' :: '0' :: [] :=
  h.bytesOf_eq (forall_mem_of_all (by decide))

lemma decode_200 (h : DecodesAscii env) :
    env.decode (ascii "### 200") = "### ".toList ++ '2' :: '0' :: '0' :: [] :=
  h.bytesOf_eq (forall_mem_of_all (by decide))

lemma manageLine_ok (h : DecodesAscii env) (s : State) : s.manageLine env (ascii "### 200") =
    conclude env ((s.emit (.line (env.decode (ascii "### 200")))).respondOk env) := by
  rw [manageLine_code (decode_200 h) (n := 200) (by decide) (by decide) (by decide),
    if_neg (by decide), if_neg (by decide)]

variable (env) in
/-- A response with the code of a failure. -/
def ErrorLine (line : Bytes) (n : ℤ) : Prop :=
  ∃ a b c text, env.decode line = "### ".toList ++ a :: b :: c :: text ∧
    (toInt [a, b, c]).getD 500 = n ∧ 400 ≤ n

lemma errorLine_404 (h : DecodesAscii env) :
    ErrorLine env (ascii "### 404 File does not exist") 404 :=
  ⟨'4', '0', '4', _, h.bytesOf_eq (forall_mem_of_all (by decide)), by decide, by decide⟩

lemma errorLine_400 (h : DecodesAscii env) (error : Bytes) :
    ErrorLine env (ascii "### 400 " ++ error) 400 :=
  ⟨'4', '0', '0', ' ' :: env.decode error, @DecodesAscii.bytesOf_append env h "### 400 ".toList
    (forall_mem_of_all (by decide)) error, by decide, by decide⟩

lemma errorLine_500 (h : DecodesAscii env) (error : Bytes) :
    ErrorLine env (ascii "### 500 " ++ error) 500 :=
  ⟨'5', '0', '0', ' ' :: env.decode error, @DecodesAscii.bytesOf_append env h "### 500 ".toList
    (forall_mem_of_all (by decide)) error, by decide, by decide⟩

lemma notMem_500 {error : Bytes} (h : 10 ∉ error) : 10 ∉ ascii "### 500 " ++ error := by
  have hfirst : 10 ∉ ascii "### 500 " := by decide
  rw [List.mem_append]
  exact fun hmem => hmem.elim hfirst h

lemma manageLine_error {line : Bytes} (h : ErrorLine env line n) :
    s.manageLine env line = conclude env
      ((s.emit (.line (env.decode line))).respondError env n (env.decode line)) := by
  obtain ⟨a, b, c, text, htext, hn, hcode⟩ := h
  have h2 : n.tdiv 100 ≠ 2 := by
    rw [Int.tdiv_eq_ediv_of_nonneg (by omega)]
    omega
  rw [manageLine_code htext hn (by omega) (by omega), if_neg (by omega), if_pos h2]

lemma afterStor_self {cmd : Command} (h : s.fishCommand = cmd) (hcmd : cmd ≠ .STOR) :
    s.afterStor = s :=
  if_neg (h ▸ hcmd)

end State

namespace Reading

variable {env : Env} {s t : State} {line : Bytes}

lemma eatAll_pass (hraw : s.rawRead ≤ 0) (hline : 10 ∉ line)
    (h : s.manageLine env line = (t, .pass)) (rest : Bytes) :
    (⟨s, [], none⟩ : Reading).eatAll env (line ++ 10 :: rest) =
      (⟨t, [], none⟩ : Reading).eatAll env rest := by
  have hend : (⟨s, [] ++ line, none⟩ : Reading).eat env 10 = ⟨t, [], none⟩ := by
    simp only [Reading.eat, Option.isSome_none, Bool.false_eq_true, if_false,
      Int.not_lt.mpr hraw, if_true, List.nil_append, h]
  rw [eatAll_append, eatAll_line hraw hline, eatAll_cons, hend]

lemma eatAll_fail {type : Error} {detail : String} (hraw : s.rawRead ≤ 0) (hline : 10 ∉ line)
    (h : s.manageLine env line = (t, .fail type detail)) (rest : Bytes) :
    (⟨s, [], none⟩ : Reading).eatAll env (line ++ 10 :: rest) =
      ⟨t, [], some (.fail type detail)⟩ := by
  have hend : (⟨s, [] ++ line, none⟩ : Reading).eat env 10 = ⟨t, [], some (.fail type detail)⟩ := by
    simp only [Reading.eat, Option.isSome_none, Bool.false_eq_true, if_false,
      Int.not_lt.mpr hraw, if_true, List.nil_append, h]
  rw [eatAll_append, eatAll_line hraw hline, eatAll_cons, hend]
  exact eatAll_failed env rfl rest

lemma unlines_append (lines more : List Bytes) :
    unlines (lines ++ more) = unlines lines ++ unlines more := List.flatMap_append

lemma unlines_cons (line : Bytes) (lines : List Bytes) :
    unlines (line :: lines) = line ++ 10 :: unlines lines := by
  simp [unlines]

lemma eatAll_lines (hcmd : s.fishCommand = .LIST ∨ s.fishCommand = .STAT) (hraw : s.rawRead ≤ 0)
    {lines : List Bytes} (hlines : ∀ line ∈ lines, 10 ∉ line ∧
      startsWith "### ".toList (env.decode line) = false) (rest : Bytes) :
    (⟨s, [], none⟩ : Reading).eatAll env (unlines lines ++ rest) =
      (⟨s.readLines env lines, [], none⟩ : Reading).eatAll env rest := by
  induction lines generalizing s with
  | nil => rfl
  | cons line lines ih =>
    obtain ⟨hnl, hplain⟩ := hlines line (by simp)
    have hlisting := State.readLine_listing env s (env.decode line)
    have hraw' : (s.readLine env (env.decode line)).rawRead ≤ 0 := hlisting.rawRead ▸ hraw
    rw [unlines_cons, List.append_assoc, List.cons_append,
      eatAll_pass hraw hnl (State.manageLine_listing env hcmd hplain)]
    exact ih (by rwa [hlisting.fishCommand]) hraw' fun l hl => hlines l (by simp [hl])

end Reading

namespace Perl

variable {env : Env}

lemma notMem_bytesOf {text : Text} (h : ∀ c ∈ text, c.toNat < 128 ∧ c ≠ '\n') :
    10 ∉ bytesOf text := by
  intro hmem
  obtain ⟨c, hc, heq⟩ := List.mem_map.mp hmem
  obtain ⟨hlt, hne⟩ := h c hc
  have hnat : (UInt8.ofNat c.toNat).toNat = c.toNat := by
    simp only [UInt8.toNat_ofNat']
    omega
  rw [heq] at hnat
  exact hne (Char.ext (UInt32.toNat_inj.mp hnat.symm))

variable {c : Char}

lemma plain_of_ne (hc : c ≠ '#') (text : Text) : startsWith "### ".toList (c :: text) = false := by
  have hbeq : ('#' == c) = false := beq_false_of_ne (Ne.symm hc)
  have hcons : "### ".toList = '#' :: "## ".toList := rfl
  unfold startsWith
  rw [hcons]
  simp only [List.isPrefixOf, hbeq, Bool.false_and]

def PlainLine (env : Env) (line : Bytes) : Prop :=
  10 ∉ line ∧ startsWith "### ".toList (env.decode line) = false

lemma PlainLine.of_text (h : DecodesAscii env) {text : Text} (hc : c ≠ '#')
    (hascii : ∀ d ∈ c :: text, d.toNat < 128 ∧ d ≠ '\n') : PlainLine env (bytesOf (c :: text)) := by
  refine ⟨notMem_bytesOf hascii, ?_⟩
  rw [h.bytesOf_eq fun d hd => (hascii d hd).1]
  exact plain_of_ne hc text

lemma number_plain (h : DecodesAscii env) (n : ℕ) : PlainLine env (bytesOf (number 10 n)) := by
  have hascii : ∀ c ∈ number 10 n, c.toNat < 128 ∧ c ≠ '\n' := fun c hc =>
    digit_ascii (number_digits hc)
  cases hn : number 10 n with
  | nil => exact absurd hn Nat.toDigits_ne_nil
  | cons c text =>
    rw [hn] at hascii
    refine PlainLine.of_text h ?_ hascii
    rintro rfl
    have hdigit := number_digits (n := n) (c := '#') (by simp [hn])
    exact absurd hdigit (by decide)

lemma entryLines_plain (h : DecodesAscii env) (localtime : ℤ → DateTime) (e : Entry) {line : Bytes}
    (hline : line ∈ entryLines localtime e) : PlainLine env line := by
  simp only [entryLines, bodyLines, List.mem_append, List.mem_cons, List.not_mem_nil, or_false,
    Option.mem_toList] at hline
  rcases hline with (((rfl | rfl | rfl | rfl) | hlink) | hmime) | rfl
  · refine ⟨?_, ?_⟩
    · have hfirst := notMem_bytesOf (filetype_ascii e)
      unfold filetype
      simp only [List.mem_append, List.mem_cons, not_or]
      exact ⟨hfirst, e.owner_plain.1, by decide, e.group_plain⟩
    · rw [filetype_text h]
      exact plain_of_ne (by decide) _
  · refine PlainLine.of_text h (by decide) fun c hc => ?_
    rcases List.mem_cons.mp hc with rfl | hc
    · decide
    · exact digit_ascii (number_digits hc)
  · exact PlainLine.of_text h (by decide) (timeText_ascii (localtime e.mtime))
  · refine ⟨by simp [nameLine, e.name_plain.1], ?_⟩
    rw [name_text h]
    exact plain_of_ne (by decide) _
  · unfold linkLine at hlink
    split_ifs at hlink
    obtain rfl := Option.some.inj hlink
    refine ⟨by simp [e.link_plain], ?_⟩
    rw [link_text h]
    exact plain_of_ne (by decide) _
  · unfold mimetype at hmime
    split_ifs at hmime
    · obtain rfl := Option.some.inj hmime
      exact PlainLine.of_text h (by decide) (forall_mem_of_all (by decide))
    · obtain ⟨type, htype, rfl⟩ := Option.map_eq_some_iff.mp hmime
      refine PlainLine.of_text h (by decide) fun c hc => ?_
      rcases List.mem_cons.mp hc with rfl | hc
      · decide
      · exact (e.type_plain type htype).2 c hc
  · exact ⟨by simp, by rw [h.nil]; rfl⟩

lemma lines_plain (h : DecodesAscii env) (localtime : ℤ → DateTime) (entries : List Entry) :
    ∀ line ∈ entries.flatMap (entryLines localtime), PlainLine env line := by
  intro line hline
  obtain ⟨e, _, hmem⟩ := List.mem_flatMap.mp hline
  exact entryLines_plain h localtime e hmem

lemma unlines_entries (localtime : ℤ → DateTime) (entries : List Entry) :
    unlines (listLines localtime (.entries entries)) =
      unlines [bytesOf (number 10 entries.length), ascii "### 100"] ++
        (unlines (entries.flatMap (entryLines localtime)) ++ unlines [ascii "### 200"]) := by
  rw [← Reading.unlines_append, ← Reading.unlines_append, ← List.append_assoc]
  rfl

lemma unlines_barred (localtime : ℤ → DateTime) (count : ℕ) (error : Bytes) :
    unlines (listLines localtime (.barred count error)) =
      unlines [bytesOf (number 10 count), ascii "### 100"] ++
        unlines [ascii "### 500 " ++ error] := by
  rw [← Reading.unlines_append]
  rfl

end Perl

namespace State

variable {env : Env}

lemma readLine_number (s : State) (n : ℕ) : (s.readLine env (number 10 n)).draft = s.draft := by
  cases hn : number 10 n with
  | nil => exact absurd hn Nat.toDigits_ne_nil
  | cons c text =>
    have hdigit : c.isDigit = true := number_digits (n := n) (by simp [hn])
    have hrange := digit_plain hdigit
    have hcell : cell c = c := by
      have hmod : c.toNat % 256 = c.toNat := by omega
      unfold cell
      rw [if_pos (by omega), hmod, Char.ofNat_toNat]
    have hunits : units 1 (c :: text) = c :: text :=
      units_append (p := [c]) (by simp; omega) text
    unfold readLine listLine
    rw [hunits]
    unfold listUnits
    simp only [hcell, hdigit, if_true]
    unfold lineNumber
    dsimp only
    split_ifs <;> rfl

/-- The worker has read the first two lines of a listing. -/
structure Headed (s t : State) : Prop where
  listing : Listing s t
  listed : t.listed = s.listed
  statted : t.statted = s.statted
  draft : t.draft = s.draft

variable {s : State} {localtime : ℤ → DateTime}

lemma eatAll_head (h : DecodesAscii env) (hcmd : s.fishCommand = .LIST ∨ s.fishCommand = .STAT)
    (hraw : s.rawRead ≤ 0) (n : ℕ) :
    ∃ t, Headed s t ∧ ∀ rest,
      (⟨s, [], none⟩ : Reading).eatAll env
        (unlines [bytesOf (number 10 n), ascii "### 100"] ++ rest) =
      (⟨t, [], none⟩ : Reading).eatAll env rest := by
  have hplain := Perl.number_plain h n
  have hnumber : env.decode (bytesOf (number 10 n)) = number 10 n :=
    h.bytesOf_eq fun c hc => (Perl.digit_ascii (number_digits hc)).1
  set u := s.readLine env (number 10 n) with hu
  have hlisting : Listing s u := readLine_listing env s _
  have hucmd : u.fishCommand = .LIST ∨ u.fishCommand = .STAT := by rwa [hlisting.fishCommand]
  set t := u.emit (.line (env.decode (ascii "### 100"))) with ht
  have hmanage : u.manageLine env (ascii "### 100") = (t, .pass) := by
    rw [manageLine_code (decode_100 h) (n := 100) (by decide) (by decide) (by decide), if_pos rfl,
      ← ht]
    have htcmd : t.fishCommand = u.fishCommand := rfl
    unfold respond100
    rcases hucmd with hc | hc
    · rw [htcmd, hc]
      rfl
    · rw [htcmd, hc]
      rfl
  have huraw : u.rawRead ≤ 0 := hlisting.rawRead ▸ hraw
  refine ⟨t, ⟨hlisting.trans ⟨_, _, _, _, _, _, _, _, rfl⟩, ?_, ?_, ?_⟩, fun rest => ?_⟩
  · have hsame : (s.readLine env (number 10 n)).listed = s.listed :=
      readLine_listed env s Nat.toDigits_ne_nil
    rw [← hsame]
    simp [ht, hu, listed, emit]
  · have hsame := readLine_statted env s (number 10 n)
    rw [← hsame]
    simp [ht, hu, statted, emit]
  · exact readLine_number s n
  · have hread : s.manageLine env (bytesOf (number 10 n)) = (u, .pass) := by
      rw [manageLine_listing env hcmd hplain.2, hnumber]
    rw [Reading.unlines_cons, Reading.unlines_cons, List.append_assoc, List.cons_append,
      Reading.eatAll_pass hraw hplain.1 hread, List.append_assoc, List.cons_append,
      Reading.eatAll_pass huraw (by decide) hmanage]
    rfl

variable (env) in
lemma finished_signals (s : State) : (s.finished env).signals = s.signals := by
  unfold finished
  split <;> rfl

lemma eatAll_listed (h : DecodesAscii env) (hcmd : s.fishCommand = .LIST)
    (hreason : s.listReason = .LIST) (hraw : s.rawRead ≤ 0) :
    ∃ t, (⟨s, [], none⟩ : Reading).eatAll env (unlines [ascii "### 200"]) = ⟨t, [], none⟩ ∧
      t.listed = s.listed := by
  set u := s.emit (.line (env.decode (ascii "### 200"))) with hu
  have hok : u.respondOk env = (u, .finished) := by
    have hucmd : u.fishCommand = .LIST := hcmd
    have hureason : u.listReason = .LIST := hreason
    unfold respondOk
    dsimp only
    rw [afterStor_self hucmd (by decide), hucmd]
    dsimp only
    rw [if_neg (by rw [hureason]; simp)]
  have hmanage : s.manageLine env (ascii "### 200") = (u.finished env, .pass) := by
    rw [manageLine_ok h, ← hu, hok]
    rfl
  refine ⟨u.finished env, ?_, ?_⟩
  · rw [Reading.unlines_cons, Reading.eatAll_pass hraw (by decide) hmanage]
    rfl
  · unfold listed
    rw [finished_signals env]
    simp [hu, emit]

lemma eatAll_unlisted (hcmd : s.fishCommand = .LIST) (hreason : s.listReason = .LIST)
    (hraw : s.rawRead ≤ 0) {line : Bytes} {n : ℤ} (hline : 10 ∉ line) (hn : ErrorLine env line n) :
    ((⟨s, [], none⟩ : Reading).eatAll env (unlines [line])).worker.listed = s.listed := by
  set u := s.emit (.line (env.decode line)) with hu
  have herror : u.respondError env n (env.decode line) =
      u.error .ERR_CANNOT_ENTER_DIRECTORY (env.toDisplayString u.url) := by
    have hucmd : u.fishCommand = .LIST := hcmd
    have hureason : u.listReason = .LIST := hreason
    unfold respondError
    rw [hucmd]
    dsimp only
    rw [if_pos hureason]
  have hmanage : s.manageLine env line = ((u.error .ERR_CANNOT_ENTER_DIRECTORY
      (env.toDisplayString u.url)).1,
      .fail .ERR_CANNOT_ENTER_DIRECTORY (env.toDisplayString u.url)) := by
    rw [manageLine_error hn, ← hu, herror]
    rfl
  rw [Reading.unlines_cons, Reading.eatAll_fail hraw hline hmanage]
  simp [listed, hu, error, emit]

def afterList (env : Env) (localtime : ℤ → DateTime) (found : Perl.Found) (s : State) : State :=
  ((⟨s, [], none⟩ : Reading).eatAll env (unlines (Perl.listLines localtime found))).worker

/-- The application has got one entry for each of the directory, in order. -/
def ListsAll (env : Env) (entries : List Perl.Entry) (s t : State) : Prop :=
  ∃ new, t.listed = s.listed ++ new ∧ List.Forall₂ (Shows env) entries new

def StatsOne (env : Env) (e : Perl.Entry) (s t : State) : Prop :=
  ∃ entry, t.statted = s.statted ++ [entry] ∧ Shows env e entry

lemma afterList_entries (h : DecodesAscii env) (hmime : ∀ name, env.mimeTypeForUrl name ≠ some [])
    {entries : List Perl.Entry} (hclock : ∀ e ∈ entries, Perl.Clock env localtime e.mtime)
    (hcmd : s.fishCommand = .LIST) (hreason : s.listReason = .LIST) (hraw : s.rawRead ≤ 0)
    (hentry : s.udsEntry = {}) :
    ListsAll env entries s (afterList env localtime (.entries entries) s) ↔
      (∀ e ∈ entries.head?, e.linksToDirectory → Untyped env s.udsMime e) ∧
      ∀ e ∈ entries.tail, e.linksToDirectory → Untyped env none e := by
  obtain ⟨t, hhead, heat⟩ := eatAll_head h (Or.inl hcmd) hraw entries.length
  have htcmd := hhead.listing.fishCommand.trans hcmd
  have htreason := hhead.listing.listReason.trans hreason
  obtain ⟨new, hnew, hall⟩ := entries_listed h hmime hclock htcmd htreason
    ((congrArg Draft.udsEntry hhead.draft).trans hentry)
  set lines := entries.flatMap (Perl.entryLines localtime) with hlines
  have hplain := Perl.lines_plain h localtime entries
  have hlisting := readLines_listing env t lines
  have htraw : t.rawRead ≤ 0 := hhead.listing.rawRead ▸ hraw
  have huraw : (t.readLines env lines).rawRead ≤ 0 := hlisting.rawRead ▸ htraw
  obtain ⟨u, heat', hlisted⟩ := eatAll_listed h (hlisting.fishCommand.trans htcmd)
    (hlisting.listReason.trans htreason) huraw
  have hafter : afterList env localtime (.entries entries) s = u := by
    unfold afterList
    rw [Perl.unlines_entries, heat, Reading.eatAll_lines (Or.inl htcmd) htraw hplain, heat']
  have hend : u.listed = s.listed ++ new := by
    rw [hlisted, hnew, hhead.listed]
  rw [hafter]
  have hmime' : t.udsMime = s.udsMime := congrArg Draft.udsMime hhead.draft
  rw [hmime'] at hall
  rw [← hall]
  constructor
  · rintro ⟨new', hnew', hshows⟩
    rw [hend] at hnew'
    rwa [List.append_cancel_left hnew']
  · exact fun hshows => ⟨new, hend, hshows⟩

lemma listsAll_none {entries : List Perl.Entry} (hne : entries ≠ []) {t : State}
    (h : t.listed = s.listed) : ¬ ListsAll env entries s t := by
  rintro ⟨new, hnew, hshows⟩
  rw [h] at hnew
  have hnil : new = [] := by simpa using hnew
  rw [hnil] at hshows
  exact hne (List.forall₂_nil_right_iff.mp hshows)

lemma afterList_directory (h : DecodesAscii env) (hmime : ∀ name, env.mimeTypeForUrl name ≠ some [])
    (dir : Perl.Directory) (hclock : ∀ e ∈ dir.entries, Perl.Clock env localtime e.mtime)
    (hcmd : s.fishCommand = .LIST) (hreason : s.listReason = .LIST) (hraw : s.rawRead ≤ 0)
    (hentry : s.udsEntry = {}) :
    ListsAll env dir.entries s (afterList env localtime dir.found s) ↔
      (dir.closed = none ∧ dir.barred = none) ∧
        (∀ e ∈ dir.entries.head?, e.linksToDirectory → Untyped env s.udsMime e) ∧
        ∀ e ∈ dir.entries.tail, e.linksToDirectory → Untyped env none e := by
  cases hclosed : dir.closed with
  | some error =>
    have hfound : dir.found = .closed error := by simp [Perl.Directory.found, hclosed]
    have hlisted := eatAll_unlisted hcmd hreason hraw
      (notMem_500 (dir.closed_plain error hclosed)) (errorLine_500 h error)
    rw [hfound]
    exact iff_of_false (listsAll_none dir.entries_ne hlisted) fun hboth => by simp at hboth
  | none =>
    cases hbarred : dir.barred with
    | some error =>
      have hfound : dir.found = .barred dir.entries.length error := by
        simp [Perl.Directory.found, hclosed, hbarred]
      obtain ⟨t, hhead, heat⟩ := eatAll_head h (Or.inl hcmd) hraw dir.entries.length
      have htraw : t.rawRead ≤ 0 := hhead.listing.rawRead ▸ hraw
      have hlisted := eatAll_unlisted (hhead.listing.fishCommand.trans hcmd)
        (hhead.listing.listReason.trans hreason) htraw
        (notMem_500 (dir.barred_plain error hbarred)) (errorLine_500 h error)
      have hafter : (afterList env localtime dir.found s).listed = s.listed := by
        unfold afterList
        rw [hfound, Perl.unlines_barred, heat, hlisted, hhead.listed]
      exact iff_of_false (listsAll_none dir.entries_ne hafter) fun hboth => by simp at hboth
    | none =>
      have hfound : dir.found = .entries dir.entries := by
        simp [Perl.Directory.found, hclosed, hbarred]
      rw [hfound, afterList_entries h hmime hclock hcmd hreason hraw hentry]
      simp

lemma eatAll_statted (h : DecodesAscii env) (hcmd : s.fishCommand = .STAT) (hraw : s.rawRead ≤ 0) :
    ∃ t, (⟨s, [], none⟩ : Reading).eatAll env (unlines [ascii "### 200"]) = ⟨t, [], none⟩ ∧
      t.statted = s.statted ++ [{ s.udsStatEntry with UDS_NAME := some (fileName s.url) }] := by
  set u := s.emit (.line (env.decode (ascii "### 200"))) with hu
  set entry : UDSEntry := { u.udsStatEntry with UDS_NAME := some (fileName u.url) } with hentry
  set v := ({ u with udsStatEntry := entry } : State).emit (.statEntry entry) with hv
  have hok : u.respondOk env = (v, .finished) := by
    have hucmd : u.fishCommand = .STAT := hcmd
    unfold respondOk
    dsimp only
    rw [afterStor_self hucmd (by decide)]
    split
    case h_2 => rfl
    case h_6 =>
      rename_i _ _ hstat _ _ _
      exact (hstat hucmd).elim
    all_goals
      rename_i hother
      rw [hucmd] at hother
      simp at hother
  have hmanage : s.manageLine env (ascii "### 200") = (v.finished env, .pass) := by
    rw [manageLine_ok h, ← hu, hok]
    rfl
  refine ⟨v.finished env, ?_, ?_⟩
  · rw [Reading.unlines_cons, Reading.eatAll_pass hraw (by decide) hmanage]
    rfl
  · unfold statted
    rw [finished_signals env]
    simp [hv, hentry, hu, emit]

lemma eatAll_unstatted (h : DecodesAscii env) (hcmd : s.fishCommand = .STAT)
    (hraw : s.rawRead ≤ 0) : ((⟨s, [], none⟩ : Reading).eatAll env
      (unlines [ascii "### 404 File does not exist"])).worker.statted = s.statted := by
  set line := ascii "### 404 File does not exist" with hline
  set u := s.emit (.line (env.decode line)) with hu
  have hmanage : s.manageLine env line = ((({ u with udsStatEntry := {} } : State).error
      .ERR_DOES_NOT_EXIST (env.toDisplayString u.url)).1,
      .fail .ERR_DOES_NOT_EXIST (env.toDisplayString u.url)) := by
    have hucmd : u.fishCommand = .STAT := hcmd
    rw [manageLine_error (errorLine_404 h), ← hline, ← hu]
    unfold respondError
    rw [hucmd]
    rfl
  rw [Reading.unlines_cons, Reading.eatAll_fail hraw (by decide) hmanage]
  simp [statted, hu, error, emit]

lemma afterList_entry (h : DecodesAscii env) (hmime : ∀ name, env.mimeTypeForUrl name ≠ some [])
    {e : Perl.Entry} (hclock : Perl.Clock env localtime e.mtime) (hcmd : s.fishCommand = .STAT)
    (hraw : s.rawRead ≤ 0) (hentry : s.udsEntry = {}) :
    StatsOne env e s (afterList env localtime e.found s) ↔
      e.isThere ∧ fileName s.url = env.decode e.name ∧
        (e.linksToDirectory → Untyped env s.udsMime e) := by
  by_cases hthere : e.isThere
  · obtain ⟨t, hhead, heat⟩ := eatAll_head h (Or.inr hcmd) hraw 1
    have htcmd := hhead.listing.fishCommand.trans hcmd
    obtain ⟨d, hparsed, hd⟩ :=
      body_parsed h hclock (s := t) ((congrArg Draft.udsEntry hhead.draft).trans hentry)
    set u := t.readLines env (Perl.bodyLines localtime e) with hu
    have hucmd := hparsed.listing.fishCommand.trans htcmd
    obtain ⟨_, hstat, _, _⟩ := readLine_end env u
    have hlines : t.readLines env (Perl.entryLines localtime e) = u.readLine env [] := by
      unfold Perl.entryLines
      rw [readLines_append, ← hu]
      exact congrArg (u.readLine env) h.nil
    have hstatted : ∀ (lines : List Bytes) (w : State), (w.readLines env lines).statted = w.statted := by
      intro lines
      induction lines with
      | nil => exact fun _ => rfl
      | cons line lines ih => exact fun w => (ih _).trans (readLine_statted env w _)
    set v := u.readLine env [] with hv
    have hlisting : Listing s v := (hhead.listing.trans hparsed.listing).trans
      (readLine_listing env u [])
    have hkeep : v.fishCommand = s.fishCommand ∧ v.url = s.url ∧ v.rawRead = s.rawRead := by
      obtain ⟨_, _, _, _, _, _, _, _, heq⟩ := hlisting
      rw [heq]
      exact ⟨rfl, rfl, rfl⟩
    have htraw : t.rawRead ≤ 0 := hhead.listing.rawRead ▸ hraw
    obtain ⟨w, heat', hnew⟩ := eatAll_statted h (s := v) (hkeep.1.trans hcmd)
      (hkeep.2.2 ▸ hraw)
    have hafter : afterList env localtime e.found s = w := by
      have hfound : e.found = .entries [e] := by simp [Perl.Entry.found, hthere]
      have hresponse := Perl.unlines_entries localtime [e]
      rw [List.flatMap_singleton] at hresponse
      unfold afterList
      rw [hfound, hresponse, List.length_singleton, heat, Reading.eatAll_lines (Or.inr htcmd) htraw
        (fun line hline => Perl.entryLines_plain h localtime e hline), hlines, heat']
    have hend : w.statted = s.statted ++ [{ u.ended with UDS_NAME := some (fileName s.url) }] := by
      rw [hnew, hkeep.2.1, (hstat hucmd).2, ← hhead.statted, ← hlines, hstatted]
    have htold : (u.udsEntry, u.udsType) =
        drafted env e (decide (t.fishCommand = .LIST)) s.udsMime := by
      have hdu : u.draft = d := hparsed.draft
      have hmime' : t.udsMime = s.udsMime := congrArg Draft.udsMime hhead.draft
      rw [← hmime', ← hd, ← hdu]
      rfl
    rw [hafter]
    unfold StatsOne
    rw [hend]
    have hshows := shows_iff hmime htold (fileName s.url)
    constructor
    · rintro ⟨entry, hentry', hshow⟩
      have heq := List.append_cancel_left hentry'
      rw [← (List.cons.inj heq).1] at hshow
      exact ⟨hthere, hshows.mp hshow⟩
    · exact fun hboth => ⟨_, rfl, hshows.mpr hboth.2⟩
  · have hfound : e.found = .missing := by simp [Perl.Entry.found, hthere]
    have hafter : (afterList env localtime e.found s).statted = s.statted := by
      rw [hfound]
      exact eatAll_unstatted h hcmd hraw
    refine iff_of_false ?_ fun hboth => hthere hboth.1
    rintro ⟨entry, hnew, _⟩
    rw [hafter] at hnew
    simp at hnew

lemma untyped_all (env : Env) (stale : Option Text) (entries : List Perl.Entry) :
    ((∀ e ∈ entries.head?, e.linksToDirectory → Untyped env stale e) ∧
        ∀ e ∈ entries.tail, e.linksToDirectory → Untyped env none e) ↔
      (∀ e ∈ entries, e.linksToDirectory → env.mimeTypeForUrl (env.decode e.name) = none) ∧
        ∀ e ∈ entries.head?, e.linksToDirectory → stale.getD [] = [] := by
  cases entries with
  | nil => simp
  | cons e entries =>
    simp only [List.head?_cons, Option.mem_some_iff, forall_eq', List.tail_cons, Untyped,
      Option.getD_none, and_true, List.mem_cons, forall_eq_or_imp]
    constructor
    · rintro ⟨hfirst, hrest⟩
      exact ⟨⟨fun hlink => (hfirst hlink).1, hrest⟩, fun hlink => (hfirst hlink).2⟩
    · rintro ⟨⟨hfirst, hrest⟩, hstale⟩
      exact ⟨fun hlink => ⟨hfirst hlink, hstale hlink⟩, hrest⟩

variable (env) in
lemma finished_cons {cmd : Command} {text : Text} {rest : List (Command × Text)}
    (h : s.commandList = (cmd, text) :: rest) :
    (s.finished env).fishCommand = cmd ∧ (s.finished env).listReason = s.listReason ∧
      (s.finished env).rawRead = 0 ∧ (s.finished env).udsEntry = {} ∧
      (s.finished env).udsMime = s.udsMime ∧ (s.finished env).url = s.url ∧
      (s.finished env).listed = s.listed ∧ (s.finished env).statted = s.statted := by
  unfold finished
  rw [h]
  exact ⟨rfl, rfl, rfl, rfl, rfl, rfl, rfl, rfl⟩

def linkEntry (name : Bytes) (hname : 10 ∉ name ∧ 47 ∉ name) : Perl.Entry where
  name := name
  kind := .symlink
  mode := 0o777
  owner := ascii "root"
  group := ascii "root"
  size := 4
  mtime := 0
  link := ascii "/srv"
  target := .directory
  type := none
  name_plain := hname
  mode_lt := by decide
  owner_plain := by decide
  group_plain := by decide
  size_lt := by decide
  link_plain := by decide
  type_plain := by simp

def oneEntry (e : Perl.Entry) : Perl.Directory where
  closed := none
  barred := none
  entries := [e]
  closed_plain := by simp
  barred_plain := by simp
  entries_ne := by simp

def beforeList (cmd : Command) (reason : ListReason) (url : Text) : State :=
  { Session.initialWorker [] with commandList := [(cmd, [])], listReason := reason, url := url }

def epoch : DateTime := ⟨1970, 1, 1, 0, 0, 0⟩

/-- Names that end in `.zip` tell a mime type. -/
def zipEnv : Env :=
  { asciiEnv with mimeTypeForUrl := fun name =>
      if ".zip".toList.isSuffixOf name then some "application/zip".toList else none }

lemma toNat_ofNat_byte (b : UInt8) : (Char.ofNat b.toNat).toNat = b.toNat := by
  have hvalid : Nat.isValidChar b.toNat := Or.inl (by have := b.toNat_lt; omega)
  rw [Char.toNat_ofNat, if_pos hvalid]

lemma asciiEnv_decodes : DecodesAscii asciiEnv where
  nil := rfl
  cons c hc rest := by
    have hnat : (UInt8.ofNat c.toNat).toNat = c.toNat := by
      simp only [UInt8.toNat_ofNat']
      omega
    have hchar : Char.ofNat (UInt8.ofNat c.toNat).toNat = c := by
      rw [hnat, Char.ofNat_toNat]
    exact congrArg (· :: asciiEnv.decode rest) hchar
  colon a b := by
    have hbyte : Char.ofNat (58 : UInt8).toNat = ':' := by decide
    have happend : asciiEnv.decode (a ++ 58 :: b) = asciiEnv.decode a ++ asciiEnv.decode (58 :: b) :=
      List.map_append
    have hcons : asciiEnv.decode (58 :: b) = Char.ofNat (58 : UInt8).toNat :: asciiEnv.decode b := rfl
    rw [happend, hcons, hbyte]
  mem_colon a ha := by
    obtain ⟨b, hb, hcolon⟩ := List.mem_map.mp ha
    have hbyte : b = 58 := UInt8.toNat_inj.mp ((toNat_ofNat_byte b).symm.trans (congrArg _ hcolon))
    exact hbyte ▸ hb
  mem_slash a ha := by
    obtain ⟨b, hb, hslash⟩ := List.mem_map.mp ha
    have hbyte : b = 47 := UInt8.toNat_inj.mp ((toNat_ofNat_byte b).symm.trans (congrArg _ hslash))
    exact hbyte ▸ hb

lemma zipEnv_decodes : DecodesAscii zipEnv :=
  ⟨asciiEnv_decodes.nil, asciiEnv_decodes.cons, asciiEnv_decodes.colon, asciiEnv_decodes.mem_colon,
    asciiEnv_decodes.mem_slash⟩

lemma zipEnv_mime (name : Text) : zipEnv.mimeTypeForUrl name ≠ some [] := by
  unfold zipEnv
  dsimp only
  split_ifs
  · decide
  · simp

lemma zipEnv_clock : Perl.Clock zipEnv (fun _ => epoch) 0 where
  back := rfl
  year := by decide
  month := by decide
  day := by decide
  hour := by decide
  minute := by decide
  second := by decide

end State

end KioExtras.Fish
