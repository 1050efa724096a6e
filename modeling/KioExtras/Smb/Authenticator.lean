import KioExtras.Lib.Utf8
import KioExtras.Smb.SmbcUrl
import Mathlib.Data.List.TakeWhile

/-!
What libsmbclient is told when it asks who is to be logged in: `SMBAuthenticator::auth`.

Names and password come and go in buffers of a fixed size. A user name may have a domain in front of
it, which belongs into the buffer for the workgroup.
-/

namespace KioExtras.Smb.Authenticator

open KioExtras.Lib.Utf8 KioExtras.Smb.SmbcUrl

abbrev Bytes := List UInt8

/-! ### Buffers -/

structure Buffer where
  bytes : Bytes
  pos : 0 < bytes.length

namespace Buffer

variable (b : Buffer)

def maxlen : ℕ := b.bytes.length

def string : Bytes := b.bytes.takeWhile (· ≠ 0)

def Terminated : Prop := 0 ∈ b.bytes

/-- The last byte is set to NUL. -/
def terminate : Buffer where
  bytes := b.bytes.set (b.maxlen - 1) 0
  pos := by
    rw [List.length_set]
    exact b.pos

/-- What `strncpy` takes of a string for all but the last byte of so many. -/
def fitting (maxlen : ℕ) (string : Bytes) : Bytes := (string.takeWhile (· ≠ 0)).take (maxlen - 1)

/-- `strncpy` into all but the last byte, with NUL bytes behind the string. -/
def strncpy (source : Bytes) : Buffer where
  bytes := fitting b.maxlen source ++
    List.replicate (b.maxlen - 1 - (fitting b.maxlen source).length) 0 ++
      b.bytes.drop (b.maxlen - 1)
  pos := by
    have hpos := b.pos
    simp only [List.length_append, List.length_drop, maxlen]
    omega

end Buffer

/-! ### Who is logged in -/

def splitDomainUser (combined : Text) : Text × Text :=
  let slashPos := combined.idxOf? '/'
  let backslashPos := combined.idxOf? '\\'
  let separatorPos :=
    match slashPos, backslashPos with
    | some slash, some backslash => some (min slash backslash)
    | some slash, none => some slash
    | none, backslash => backslash
  match separatorPos with
  | some pos => if 0 < pos then (combined.take pos, combined.drop (pos + 1)) else ([], combined)
  | none => ([], combined)

/-- What the saved logins are asked for, and what they answer. -/
structure AuthInfo where
  host : Text
  path : Text
  username : Text
  password : Text

/-- The settings, the environment, Qt's reading of bytes and hosts, and the saved logins. -/
structure SMBAuthenticator where
  m_defaultUser : Text
  m_defaultPassword : Text
  USER : Option Text
  fromUtf8 : Bytes → Text
  setHost : Text → Text
  checkCachedAuthentication : AuthInfo → Option AuthInfo

structure Call where
  server : Bytes
  share : Bytes
  workgroup : Buffer
  username : Buffer
  password : Buffer

/-- What a call leaves, and whether credentials are set from it. -/
structure Answer where
  workgroup : Buffer
  username : Buffer
  password : Buffer
  set : Bool

namespace SMBAuthenticator

variable (a : SMBAuthenticator)

def info (call : Call) : AuthInfo where
  host := a.setHost (a.fromUtf8 call.server)
  path := cleanPath ('/' :: a.fromUtf8 call.share)
  username := a.fromUtf8 call.username.terminate.string
  password := a.fromUtf8 call.password.terminate.string

def entireNetwork (info : AuthInfo) : Bool := info.path = ['/'] && info.host = []

/-- The branches: the login, and the domain that goes into the buffer for the workgroup. -/
def login (info : AuthInfo) : Text × Text × Text :=
  match a.checkCachedAuthentication info with
  | some cached =>
    let (domain, bareUser) := splitDomainUser cached.username
    (domain, bareUser, cached.password)
  | none =>
    if a.m_defaultUser ≠ [] then ([], a.m_defaultUser, a.m_defaultPassword)
    else if info.username = [] then ([], a.USER.getD "guest".toList, info.password)
    else ([], info.username, info.password)

def auth (call : Call) : Answer :=
  let workgroup := call.workgroup.terminate
  let username := call.username.terminate
  let password := call.password.terminate
  let info := a.info call
  if entireNetwork info then ⟨workgroup, username, password, false⟩
  else
    let (domain, user, pass) := a.login info
    { workgroup := if domain ≠ [] then (workgroup.strncpy (encode domain)).terminate else workgroup
      username := username.strncpy (encode user)
      password := password.strncpy (encode pass)
      set := true }

end SMBAuthenticator

/-! ### Lemmas about buffers -/

namespace Buffer

variable {b : Buffer} {source : Bytes}

def Ends (b : Buffer) : Prop := ∃ body, b.bytes = body ++ [0]

lemma ends_terminate (b : Buffer) : b.terminate.Ends := by
  obtain ⟨body, last, hbytes⟩ := (List.eq_nil_or_concat' b.bytes).resolve_left
    (List.ne_nil_of_length_pos b.pos)
  refine ⟨body, ?_⟩
  rw [terminate]
  dsimp only
  rw [maxlen, hbytes, List.length_append, List.length_singleton, Nat.add_sub_cancel,
    List.set_append_right _ _ (Nat.le_refl _), Nat.sub_self]
  rfl

lemma Ends.terminated (h : b.Ends) : b.Terminated := by
  obtain ⟨body, hbytes⟩ := h
  rw [Terminated, hbytes]
  exact List.mem_append_right _ (List.mem_singleton_self 0)

lemma Ends.strncpy_bytes (h : b.Ends) (source : Bytes) :
    (b.strncpy source).bytes = fitting b.maxlen source ++
      List.replicate (b.maxlen - 1 - (fitting b.maxlen source).length) 0 ++ [0] := by
  obtain ⟨body, hbytes⟩ := h
  have hlast : b.bytes.drop (b.maxlen - 1) = [0] := by
    rw [maxlen, hbytes, List.length_append, List.length_singleton, Nat.add_sub_cancel,
      List.drop_left]
  exact congrArg (_ ++ ·) hlast

lemma Ends.strncpy (h : b.Ends) (source : Bytes) : (b.strncpy source).Ends :=
  ⟨_, h.strncpy_bytes source⟩

lemma takeWhile_fitting (n : ℕ) (source : Bytes) (rest : Bytes) :
    (fitting n source ++ 0 :: rest).takeWhile (· ≠ 0) = fitting n source := by
  have hall : ∀ x ∈ fitting n source, decide (x ≠ 0) = true := by
    intro x hx
    have hmem : x ∈ source.takeWhile (· ≠ 0) := List.mem_of_mem_take hx
    exact List.mem_takeWhile_imp (p := fun x => decide (x ≠ 0)) hmem
  rw [List.takeWhile_append_of_pos hall]
  simp

lemma Ends.string_strncpy (h : b.Ends) (source : Bytes) :
    (b.strncpy source).string = fitting b.maxlen source := by
  rw [string, h.strncpy_bytes]
  generalize b.maxlen - 1 - (fitting b.maxlen source).length = n
  cases n with
  | zero => simpa using takeWhile_fitting b.maxlen source []
  | succ n =>
    rw [List.replicate_succ, List.append_assoc, List.cons_append]
    exact takeWhile_fitting b.maxlen source _

lemma maxlen_terminate (b : Buffer) : b.terminate.maxlen = b.maxlen := List.length_set

lemma length_string (h : b.Ends) : b.string.length ≤ b.maxlen - 1 := by
  obtain ⟨body, hbytes⟩ := h
  rw [string, maxlen, hbytes, List.length_append, List.length_singleton, Nat.add_sub_cancel,
    List.takeWhile_append]
  split_ifs with hall
  · simp
  · exact (List.takeWhile_prefix _).length_le

lemma fitting_string (h : b.Ends) : fitting b.maxlen b.string = b.string := by
  have hsame : b.string.takeWhile (· ≠ 0) = b.string := List.takeWhile_idem
  rw [fitting, hsame, List.take_of_length_le (length_string h)]

lemma Ends.terminate_string (h : b.Ends) : b.terminate.string = b.string := by
  obtain ⟨body, hbytes⟩ := h
  rw [string, string, terminate]
  dsimp only
  rw [maxlen, hbytes, List.length_append, List.length_singleton, Nat.add_sub_cancel,
    List.set_append_right _ _ (Nat.le_refl _), Nat.sub_self]
  rfl

end Buffer

/-! ### The promise -/

/-- The buffer holds the user name of the URL, and Qt reads it. -/
structure Names (a : SMBAuthenticator) (call : Call) (user : Text) : Prop where
  bytes : call.username.terminate.string = encode user
  read : a.fromUtf8 call.username.terminate.string = user

variable (a : SMBAuthenticator)

/-- Whose login is to be set: the saved one, or that of the URL. -/
def account (call : Call) (user : Text) : Text :=
  match a.checkCachedAuthentication (a.info call) with
  | some cached => cached.username
  | none => user

/-- The credentials that are set are those of the account, its domain apart. -/
structure Right (a : SMBAuthenticator) (call : Call) (user : Text) : Prop where
  username : (a.auth call).username.string = encode (splitDomainUser (account a call user)).2
  domain : (splitDomainUser (account a call user)).1 ≠ [] →
    (a.auth call).workgroup.string = encode (splitDomainUser (account a call user)).1
  password : ∀ cached, a.checkCachedAuthentication (a.info call) = some cached →
    (a.auth call).password.string = Buffer.fitting call.password.maxlen (encode cached.password)

def Fits (maxlen : ℕ) (text : Text) : Prop := Buffer.fitting maxlen (encode text) = encode text

/-- A saved login fits; without one, the default user is that of the URL, or there is none and the
URL has no domain. -/
def Careful (call : Call) (user : Text) : Prop :=
  match a.checkCachedAuthentication (a.info call) with
  | some cached => Fits call.username.maxlen (splitDomainUser cached.username).2 ∧
      ((splitDomainUser cached.username).1 ≠ [] →
        Fits call.workgroup.maxlen (splitDomainUser cached.username).1)
  | none =>
    if a.m_defaultUser ≠ [] then
      Buffer.fitting call.username.maxlen (encode a.m_defaultUser) =
          encode (splitDomainUser user).2 ∧
        ((splitDomainUser user).1 ≠ [] →
          call.workgroup.terminate.string = encode (splitDomainUser user).1)
    else (splitDomainUser user).1 = []

lemma splitDomainUser_spec (combined : Text) : splitDomainUser combined = ([], combined) ∨
    ∃ pos, 0 < pos ∧ pos < combined.length ∧
      splitDomainUser combined = (combined.take pos, combined.drop (pos + 1)) := by
  have hin : ∀ {c pos}, combined.idxOf? c = some pos → pos < combined.length := by
    intro c pos h
    obtain ⟨hlt, -⟩ := List.idxOf?_eq_some_iff.mp h
    exact hlt
  have hcut : ∀ {pos}, pos < combined.length →
      (if 0 < pos then (combined.take pos, combined.drop (pos + 1)) else ([], combined)) =
          ([], combined) ∨
        ∃ pos', 0 < pos' ∧ pos' < combined.length ∧
          (if 0 < pos then (combined.take pos, combined.drop (pos + 1)) else ([], combined)) =
            (combined.take pos', combined.drop (pos' + 1)) := by
    intro pos hlt
    split_ifs with hpos
    · exact Or.inr ⟨pos, hpos, hlt, rfl⟩
    · exact Or.inl rfl
  unfold splitDomainUser
  rcases hslash : combined.idxOf? '/' with _ | slash
  · rcases hback : combined.idxOf? '\\' with _ | backslash
    · exact Or.inl rfl
    · exact hcut (hin hback)
  · rcases hback : combined.idxOf? '\\' with _ | backslash
    · exact hcut (hin hslash)
    · exact hcut (Nat.lt_of_le_of_lt (Nat.min_le_left _ _) (hin hslash))

lemma length_encode_pos {text : Text} (h : text ≠ []) : 0 < (encode text).length := by
  cases text with
  | nil => exact absurd rfl h
  | cons c text =>
    rw [encode_cons, List.length_append]
    have hpos := String.length_utf8EncodeChar c
    have hsize := c.utf8Size_pos
    omega

variable (user : Text)

lemma domain_eq_nil_iff :
    encode user = encode (splitDomainUser user).2 ↔ (splitDomainUser user).1 = [] := by
  rcases splitDomainUser_spec user with hsplit | ⟨pos, hpos, hlt, hsplit⟩
  · rw [hsplit]
    simp
  · rw [hsplit]
    have htake : user.take pos ≠ [] := List.ne_nil_of_length_pos (by rw [List.length_take]; omega)
    have hlen := length_encode_pos htake
    constructor
    · intro heq
      have hparts : user = user.take pos ++ user.drop pos := (List.take_append_drop pos user).symm
      have hrest : user.drop pos = user[pos] :: user.drop (pos + 1) :=
        List.drop_eq_getElem_cons hlt
      have hboth := congrArg List.length heq
      rw [hrest] at hparts
      conv at hboth => lhs; rw [hparts]
      rw [encode_append, encode_cons, List.length_append, List.length_append] at hboth
      dsimp only at hboth
      omega
    · intro h
      exact absurd h htake

section

variable {a : SMBAuthenticator} {call : Call} {user : Text}

lemma auth_set (h : SMBAuthenticator.entireNetwork (a.info call) = false) :
    (a.auth call).set = true ∧
      (a.auth call).username.string = Buffer.fitting call.username.maxlen
        (encode (a.login (a.info call)).2.1) ∧
      (a.auth call).password.string = Buffer.fitting call.password.maxlen
        (encode (a.login (a.info call)).2.2) ∧
      (a.auth call).workgroup.string = if (a.login (a.info call)).1 ≠ [] then
        Buffer.fitting call.workgroup.maxlen (encode (a.login (a.info call)).1)
        else call.workgroup.terminate.string := by
  have hauth : a.auth call = ⟨if (a.login (a.info call)).1 ≠ [] then
        (call.workgroup.terminate.strncpy (encode (a.login (a.info call)).1)).terminate
        else call.workgroup.terminate,
      call.username.terminate.strncpy (encode (a.login (a.info call)).2.1),
      call.password.terminate.strncpy (encode (a.login (a.info call)).2.2), true⟩ := by
    rw [SMBAuthenticator.auth, h]
    rfl
  rw [hauth]
  refine ⟨rfl, ?_, ?_, ?_⟩
  · rw [(Buffer.ends_terminate _).string_strncpy, Buffer.maxlen_terminate]
  · rw [(Buffer.ends_terminate _).string_strncpy, Buffer.maxlen_terminate]
  · dsimp only
    split_ifs with hdomain
    · rw [((Buffer.ends_terminate _).strncpy _).terminate_string,
        (Buffer.ends_terminate _).string_strncpy, Buffer.maxlen_terminate]
    · rfl

lemma auth_terminated : (a.auth call).workgroup.Terminated ∧ (a.auth call).username.Terminated ∧
    (a.auth call).password.Terminated := by
  unfold SMBAuthenticator.auth
  dsimp only
  split_ifs with hnetwork hdomain
  · exact ⟨(Buffer.ends_terminate _).terminated, (Buffer.ends_terminate _).terminated,
      (Buffer.ends_terminate _).terminated⟩
  · exact ⟨(Buffer.ends_terminate _).terminated,
      ((Buffer.ends_terminate _).strncpy _).terminated,
      ((Buffer.ends_terminate _).strncpy _).terminated⟩
  · exact ⟨(Buffer.ends_terminate _).terminated,
      ((Buffer.ends_terminate _).strncpy _).terminated,
      ((Buffer.ends_terminate _).strncpy _).terminated⟩

lemma right_iff (hnames : Names a call user) (huser : user ≠ [])
    (hset : SMBAuthenticator.entireNetwork (a.info call) = false) :
    Right a call user ↔ Careful a call user := by
  obtain ⟨-, husername, hpassword, hworkgroup⟩ := auth_set hset
  have hname : (a.info call).username = user := hnames.read
  cases hcached : a.checkCachedAuthentication (a.info call) with
  | some cached =>
    have haccount : account a call user = cached.username := by rw [account, hcached]
    have hlogin : a.login (a.info call) = ((splitDomainUser cached.username).1,
        (splitDomainUser cached.username).2, cached.password) := by
      rw [SMBAuthenticator.login, hcached]
    rw [hlogin] at husername hpassword hworkgroup
    rw [Careful, hcached]
    constructor
    · intro hright
      have hdomain := hright.domain
      have hbare := hright.username
      rw [haccount, husername] at hbare
      rw [haccount, hworkgroup] at hdomain
      refine ⟨hbare, fun hne => ?_⟩
      have hwhole := hdomain hne
      rw [if_pos hne] at hwhole
      exact hwhole
    · rintro ⟨hbare, hdomain⟩
      refine ⟨by rw [haccount, husername]; exact hbare, fun hne => ?_, fun other hother => ?_⟩
      · rw [haccount] at hne ⊢
        rw [hworkgroup, if_pos hne]
        exact hdomain hne
      · obtain rfl := Option.some.inj (hcached.symm.trans hother)
        exact hpassword
  | none =>
    have haccount : account a call user = user := by rw [account, hcached]
    have hfree : ∀ cached, a.checkCachedAuthentication (a.info call) = some cached → False := by
      intro cached hsome
      rw [hcached] at hsome
      cases hsome
    have hnodomain : (a.login (a.info call)).1 = [] := by
      rw [SMBAuthenticator.login, hcached]
      dsimp only
      split_ifs <;> rfl
    rw [hnodomain, if_neg (fun h => h rfl)] at hworkgroup
    rw [Careful, hcached]
    dsimp only
    by_cases hdefault : a.m_defaultUser ≠ []
    · have hlogin : (a.login (a.info call)).2.1 = a.m_defaultUser := by
        rw [SMBAuthenticator.login, hcached]
        dsimp only
        rw [if_pos hdefault]
      rw [hlogin] at husername
      rw [if_pos hdefault]
      constructor
      · intro hright
        refine ⟨?_, fun hne => ?_⟩
        · rw [← husername, hright.username, haccount]
        · have hdomain := hright.domain
          rw [haccount, hworkgroup] at hdomain
          exact hdomain hne
      · rintro ⟨hbare, hdomain⟩
        refine ⟨by rw [haccount, husername, hbare], ?_, fun c hc => (hfree c hc).elim⟩
        rw [haccount, hworkgroup]
        exact hdomain
    · have hlogin : (a.login (a.info call)).2.1 = user := by
        rw [SMBAuthenticator.login, hcached]
        dsimp only
        rw [if_neg hdefault, if_neg (by rw [hname]; exact huser), hname]
      rw [hlogin, ← hnames.bytes] at husername
      have hback : (a.auth call).username.string = encode user := by
        rw [husername, ← Buffer.maxlen_terminate,
          Buffer.fitting_string (Buffer.ends_terminate _), hnames.bytes]
      rw [if_neg hdefault, ← domain_eq_nil_iff]
      constructor
      · intro hright
        rw [← hback, hright.username, haccount]
      · intro hbare
        refine ⟨by rw [haccount, hback, hbare], fun hne => ?_, fun c hc => (hfree c hc).elim⟩
        rw [haccount] at hne
        exact absurd ((domain_eq_nil_iff user).mp hbare) hne

end

/-- **Every string is terminated, and the login is the right one** just if no default user gets in
and the domain has been split off. -/
theorem auth_right_iff (a : SMBAuthenticator) (call : Call) (user : Text)
    (hnames : Names a call user) :
    ((a.auth call).workgroup.Terminated ∧ (a.auth call).username.Terminated ∧
      (a.auth call).password.Terminated) ∧
    (((a.auth call).set = true → user ≠ [] → Right a call user) ↔
      (SMBAuthenticator.entireNetwork (a.info call) = false → user ≠ [] →
        Careful a call user)) := by
  refine ⟨auth_terminated, ?_⟩
  cases hnetwork : SMBAuthenticator.entireNetwork (a.info call) with
  | true =>
    have hnot : (a.auth call).set = false := by
      rw [SMBAuthenticator.auth, hnetwork]
      rfl
    simp [hnot]
  | false =>
    rw [(auth_set hnetwork).1]
    constructor
    · exact fun hright _ huser => (right_iff hnames huser hnetwork).mp (hright rfl huser)
    · exact fun hcareful _ huser => (right_iff hnames huser hnetwork).mpr (hcareful rfl huser)

/-! A share on a server, without a saved login. -/

/-- No default user, and nothing saved; all names are ASCII. -/
def plain : SMBAuthenticator where
  m_defaultUser := []
  m_defaultPassword := []
  USER := none
  fromUtf8 := fun bytes => bytes.map fun b => Char.ofNat b.toNat
  setHost := id
  checkCachedAuthentication := fun _ => none

def buffer (text : Text) : Buffer := ⟨encode text ++ [0], by simp⟩

/-- `smb://user@s/h` -/
def asked : Call :=
  ⟨encode ['s'], encode ['h'], buffer ['W'], buffer user, buffer []⟩

theorem plain_user_right : Right plain (asked ['u']) ['u'] := by
  have hdomain : (splitDomainUser ['u']).1 = [] := by decide
  exact (auth_right_iff plain (asked ['u']) ['u'] ⟨by decide, by decide⟩).2.mpr
    (fun _ _ => hdomain) (by decide) (by decide)

/-- The domain stays in front of the user. -/
theorem domain_not_split : ¬ ∀ (a : SMBAuthenticator) (call : Call) (user : Text),
    Names a call user → (a.auth call).set = true → user ≠ [] → Right a call user := by
  intro h
  have hright := h plain (asked "D/u".toList) "D/u".toList ⟨by decide, by decide⟩ (by decide)
    (by decide)
  exact absurd hright.username (by decide)

end KioExtras.Smb.Authenticator
