import KioExtras.Kio
import KioExtras.Lib.Run

/-!
The login of the SFTP worker: `openConnectionWithoutCloseOnError` with
`sftpOpenConnection` and `authenticateKeyboardInteractive`, as a machine that stands at the
next call it makes and moves on with what that call returns.

An answer is the outcome of one call to libssh or of one dialog; a run is any sequence of
answers, with any number of retries in the loops. The trace records the sessions opened, the
outcome of the host key check, the user's consent and the calls of `ssh_userauth_password`.
-/

namespace KioExtras.Sftp.Login

open KioExtras.Kio KioExtras.Lib.Run

inductive KnownHosts
  | OK
  | CHANGED
  | OTHER
  | UNKNOWN
  | NOT_FOUND
  | ERROR
  deriving DecidableEq

inductive AuthResult
  | SUCCESS
  | DENIED
  | PARTIAL
  | INFO
  | AGAIN
  | ERROR
  deriving DecidableEq

/-- The bits of `ssh_auth_list` the worker looks at; `other` stands for the rest of the mask. -/
structure Methods where
  PUBLICKEY : Bool
  GSSAPI_MIC : Bool
  INTERACTIVE : Bool
  PASSWORD : Bool
  other : Bool
  deriving DecidableEq

def Methods.isZero (m : Methods) : Bool :=
  !(m.PUBLICKEY || m.GSSAPI_MIC || m.INTERACTIVE || m.PASSWORD || m.other)

structure AuthInfo where
  username : String
  password : String
  keepPassword : Bool
  urlUserName : String
  deriving DecidableEq

/-- The options `sftpOpenConnection` sets before it connects, in its order. -/
inductive SshOption
  | TIMEOUT
  | TIMEOUT_USEC
  | NODELAY
  | COMPRESSION_C_S
  | COMPRESSION_S_C
  | HOST
  | PORT
  | USER
  | parse_config
  deriving DecidableEq

def SshOption.errorText : SshOption → String
  | .TIMEOUT => "Could not set a timeout."
  | .TIMEOUT_USEC => "Could not set a timeout."
  | .NODELAY => "Could not disable Nagle's Algorithm."
  | .COMPRESSION_C_S => "Could not set compression."
  | .COMPRESSION_S_C => "Could not set compression."
  | .HOST => "Could not set host."
  | .PORT => "Could not set port."
  | .USER => "Could not set username."
  | .parse_config => "Could not parse the config file."

structure OpenAnswer where
  ssh_new : Bool
  option_set : SshOption → Bool
  ssh_connect : Bool
  ssh_get_error : String

/-- What `openPasswordDialog` returns and what the user left in the fields. -/
structure DialogAnswer where
  errCode : Option Error
  username : String
  password : String
  keepPassword : Bool

inductive Event
  | opened (session : ℕ)
  | knownServer (session : ℕ) (state : KnownHosts)
  | accepted (session : ℕ)
  | password (session : ℕ)
  deriving DecidableEq

inductive Pc
  | start
  | checkCachedAuthentication
  | sftpOpenConnection
  | fingerprint
  | ssh_session_is_known_server
  | messageBox
  | ssh_session_update_known_hosts
  | ssh_userauth_none
  | ssh_auth_list (afterPartial : Bool)
  | ssh_userauth_publickey_auto
  | ssh_userauth_gssapi
  | ssh_userauth_kbdint
  | ssh_userauth_kbdint_getprompt (i n : ℕ)
  | kbdintDialog (i n : ℕ) (echo : Bool)
  | ssh_userauth_kbdint_setanswer (i n : ℕ)
  | openPasswordDialog
  | reconnect
  | ssh_userauth_password
  | sftp_new
  | sftp_init
  | returned (result : WorkerResult)
  deriving DecidableEq

/-- The worker's members, the locals of the routine and the trace. `loginName` is the name of
the user who runs the worker. -/
structure State where
  pc : Pc
  mConnected : Bool
  mHost : String
  mPort : ℕ
  mUsername : String
  mPassword : String
  loginName : String
  mSession : Option ℕ
  mSftp : Bool
  sessions : ℕ
  serverPublicKeyType : String
  info : AuthInfo
  info2 : AuthInfo
  rc : AuthResult
  method : Methods
  isFirstLoginAttempt : Bool
  cached : Option AuthInfo
  trace : List Event

inductive Answer
  | begin
  | cached (entry : Option AuthInfo)
  | opened (o : OpenAnswer)
  | inspected (key : Except String String)
  | known (state : KnownHosts) (ssh_get_error : String)
  | message (continue_ : Bool)
  | ok (ok : Bool) (ssh_get_error : String)
  | auth (rc : AuthResult)
  | publickey (rc : AuthResult) (modified : Bool)
  | methods (m : Methods)
  | kbdint (rc : AuthResult) (nprompts : ℕ)
  | prompt (echo : Bool)
  | dialog (d : DialogAnswer)

def State.ret (s : State) (result : WorkerResult) : State :=
  { s with pc := .returned result }

/-- The trace with an event about the current session. -/
def State.log (s : State) (e : ℕ → Event) : List Event :=
  match s.mSession with
  | some session => e session :: s.trace
  | none => s.trace

def authenticationFailed : WorkerResult := .fail .ERR_CANNOT_LOGIN "Authentication failed."

def closeConnection (s : State) : State :=
  { s with mSftp := false, mSession := none, mConnected := false }

/-- The options set for this host, port and user name. -/
def sshOptions (s : State) : List SshOption :=
  [.TIMEOUT, .TIMEOUT_USEC, .NODELAY, .COMPRESSION_C_S, .COMPRESSION_S_C, .HOST] ++
    (if 0 < s.mPort then [.PORT] else []) ++
    (if s.info.username ≠ "" then [.USER] else []) ++ [.parse_config]

def sftpOpenConnection (s : State) (o : OpenAnswer) : State × WorkerResult :=
  let s := closeConnection s
  if !o.ssh_new then
    (s, .fail .ERR_OUT_OF_MEMORY "Could not create a new SSH session.")
  else
    let s := { s with mSession := some s.sessions, sessions := s.sessions + 1 }
    match (sshOptions s).find? fun opt => !o.option_set opt with
    | some opt => (s, .fail .ERR_INTERNAL opt.errorText)
    | none =>
      if !o.ssh_connect then (closeConnection s, .fail .ERR_WORKER_DEFINED o.ssh_get_error)
      else ({ s with trace := .opened (s.sessions - 1) :: s.trace }, .pass)

def wasUsernameChanged (loginName username : String) (info : AuthInfo) : Bool :=
  (if username = "" then loginName else username) != info.username

def afterAuthentication (s : State) : State :=
  if s.rc ≠ .SUCCESS then s.ret authenticationFailed else { s with pc := .sftp_new }

def callUserauthPassword (s : State) : State :=
  { s with pc := .ssh_userauth_password, trace := s.log .password }

def passwordLoop (s : State) : State :=
  if !s.isFirstLoginAttempt || s.info.password = "" then
    { s with info := { s.info with keepPassword := true }, pc := .openPasswordDialog }
  else callUserauthPassword s

def tryPassword (s : State) : State :=
  if s.rc ≠ .SUCCESS ∧ s.method.PASSWORD then
    passwordLoop { s with isFirstLoginAttempt := true }
  else afterAuthentication s

def tryKeyboardInteractive (s : State) : State :=
  if s.rc ≠ .SUCCESS ∧ s.method.INTERACTIVE then
    { s with info2 := s.info, pc := .ssh_userauth_kbdint }
  else tryPassword s

def tryGssapi (s : State) : State :=
  if s.rc ≠ .SUCCESS ∧ s.method.GSSAPI_MIC then { s with pc := .ssh_userauth_gssapi }
  else tryKeyboardInteractive s

def tryPublicKey (s : State) : State :=
  if s.rc ≠ .SUCCESS ∧ s.method.PUBLICKEY then { s with pc := .ssh_userauth_publickey_auto }
  else tryGssapi s

def otherHostKey (serverPublicKeyType ssh_get_error : String) : WorkerResult :=
  .fail .ERR_WORKER_DEFINED ("An " ++ serverPublicKeyType ++ " host key for this server was " ++
    "not found, but another type of key exists.\n" ++
    "An attacker might change the default server key to confuse your " ++
    "client into thinking the key does not exist.\n" ++
    "Please contact your system administrator.\n" ++ ssh_get_error)

/-- The beginning of the routine, up to the first call. -/
def openConnectionWithoutCloseOnError (s : State) : State :=
  if s.mConnected then s.ret .pass
  else if s.mHost = "" then s.ret (.fail .ERR_UNKNOWN_HOST "")
  else
    let s := { s with info := ⟨s.mUsername, "", false, s.mUsername⟩ }
    if s.mPassword = "" then { s with pc := .checkCachedAuthentication }
    else { s with info := { s.info with password := s.mPassword }, pc := .sftpOpenConnection }

def checkHostKey (s : State) (state : KnownHosts) (ssh_get_error : String) : State :=
  let s := { s with trace := s.log fun session => .knownServer session state }
  match state with
  | .OTHER => s.ret (otherHostKey s.serverPublicKeyType ssh_get_error)
  | .CHANGED | .NOT_FOUND | .UNKNOWN => { s with pc := .messageBox }
  | .ERROR => s.ret (.fail .ERR_WORKER_DEFINED ssh_get_error)
  | .OK => { s with pc := .ssh_userauth_none }

def hostKeyAnswer (s : State) (continue_ : Bool) : State :=
  if continue_ then
    { s with trace := s.log .accepted, pc := .ssh_session_update_known_hosts }
  else s.ret (.fail .ERR_USER_CANCELED "")

def publicKeyRound (s : State) (rc : AuthResult) (modified : Bool) : State :=
  let s := { s with rc := rc }
  if rc = .ERROR then s.ret authenticationFailed
  else if rc = .PARTIAL then { s with pc := .ssh_auth_list true }
  else if rc ≠ .DENIED ∨ !modified then tryGssapi s
  else { s with pc := .ssh_userauth_publickey_auto }

/-- The result of `ssh_userauth_kbdint` inside `authenticateKeyboardInteractive`, and what the
routine does with the result of the whole. -/
def kbdintRound (s : State) (rc : AuthResult) (nprompts : ℕ) : State :=
  match rc with
  | .INFO =>
    if nprompts = 0 then { s with pc := .ssh_userauth_kbdint }
    else { s with pc := .ssh_userauth_kbdint_getprompt 0 nprompts }
  | .SUCCESS => tryPassword { s with rc := .SUCCESS, info := s.info2 }
  | .ERROR => s.ret authenticationFailed
  | rc => tryPassword { s with rc := rc }

/-- The dialog for prompt `i`: a prompt with echo has an `AuthInfo` of its own. -/
def kbdintDialog (s : State) (i n : ℕ) (echo : Bool) (d : DialogAnswer) : State :=
  match d.errCode with
  | some e => s.ret (.fail e "")
  | none =>
    let s := if echo then s else { s with info2 :=
      { s.info2 with username := d.username, password := d.password, keepPassword := d.keepPassword } }
    { s with pc := .ssh_userauth_kbdint_setanswer i n }

/-- The answer to prompt `i` was handed over. -/
def kbdintAnswered (s : State) (i n : ℕ) (ok : Bool) : State :=
  if !ok then s.ret authenticationFailed
  else if i + 1 < n then { s with pc := .ssh_userauth_kbdint_getprompt (i + 1) n }
  else { s with pc := .ssh_userauth_kbdint }

def passwordDialog (s : State) (d : DialogAnswer) : State :=
  match d.errCode with
  | some e => s.ret (.fail e "")
  | none =>
    let username := s.info.username
    let s := { s with info :=
      { s.info with username := d.username, password := d.password, keepPassword := d.keepPassword } }
    if wasUsernameChanged s.loginName username s.info then
      let s := if s.info.urlUserName ≠ "" then
        { s with info := { s.info with urlUserName := s.info.username } } else s
      { s with pc := .reconnect }
    else callUserauthPassword s

/-- What `ssh_userauth_password` returned. -/
def passwordRound (s : State) (rc : AuthResult) : State :=
  let s := { s with rc := rc }
  if rc = .SUCCESS then afterAuthentication s
  else if rc = .ERROR then s.ret authenticationFailed
  else passwordLoop { s with
    isFirstLoginAttempt := false
    info := { s.info with password := "" } }

/-- The end of a successful login. -/
def loggedIn (s : State) : State :=
  let s := { s with
    cached := if s.info.keepPassword then some s.info else s.cached
    mUsername := if s.mUsername ≠ "" then s.info.username else s.mUsername
    mConnected := true
    info := { s.info with password := "" } }
  s.ret .pass

/-- The routine goes on with what the pending call returned. -/
def step (s : State) (a : Answer) : Option State :=
  match s.pc, a with
  | .start, .begin => some (openConnectionWithoutCloseOnError s)
  | .checkCachedAuthentication, .cached none => some { s with pc := .sftpOpenConnection }
  | .checkCachedAuthentication, .cached (some info) =>
    some { s with info := info, pc := .sftpOpenConnection }
  | .sftpOpenConnection, .opened o =>
    match sftpOpenConnection s o with
    | (s, .pass) => some { s with pc := .fingerprint }
    | (s, result) => some (s.ret result)
  | .fingerprint, .inspected (.error text) => some (s.ret (.fail .ERR_WORKER_DEFINED text))
  | .fingerprint, .inspected (.ok serverPublicKeyType) =>
    some { s with serverPublicKeyType := serverPublicKeyType, pc := .ssh_session_is_known_server }
  | .ssh_session_is_known_server, .known state ssh_get_error =>
    some (checkHostKey s state ssh_get_error)
  | .messageBox, .message continue_ => some (hostKeyAnswer s continue_)
  | .ssh_session_update_known_hosts, .ok ok ssh_get_error =>
    if ok then some { s with pc := .ssh_userauth_none }
    else some (s.ret (.fail .ERR_USER_CANCELED ssh_get_error))
  | .ssh_userauth_none, .auth rc =>
    if rc = .ERROR then some ({ s with rc := rc }.ret authenticationFailed)
    else some { s with rc := rc, pc := .ssh_auth_list false }
  | .ssh_auth_list false, .methods m =>
    let s := { s with method := m }
    if s.rc ≠ .SUCCESS ∧ m.isZero then
      some (s.ret (.fail .ERR_CANNOT_LOGIN
        "Authentication failed. The server didn't send any authentication methods"))
    else some (tryPublicKey s)
  | .ssh_userauth_publickey_auto, .publickey rc modified => some (publicKeyRound s rc modified)
  | .ssh_auth_list true, .methods m => some (tryGssapi { s with method := m })
  | .ssh_userauth_gssapi, .auth rc =>
    let s := { s with rc := rc }
    if rc = .ERROR then some (s.ret authenticationFailed) else some (tryKeyboardInteractive s)
  | .ssh_userauth_kbdint, .kbdint rc nprompts => some (kbdintRound s rc nprompts)
  | .ssh_userauth_kbdint_getprompt i n, .prompt echo => some { s with pc := .kbdintDialog i n echo }
  | .kbdintDialog i n echo, .dialog d => some (kbdintDialog s i n echo d)
  | .ssh_userauth_kbdint_setanswer i n, .ok ok _ => some (kbdintAnswered s i n ok)
  | .openPasswordDialog, .dialog d => some (passwordDialog s d)
  | .reconnect, .opened o =>
    match sftpOpenConnection s o with
    | (s, .pass) => some (callUserauthPassword s)
    | (s, result) => some (s.ret result)
  | .ssh_userauth_password, .auth rc => some (passwordRound s rc)
  | .sftp_new, .ok ok _ =>
    if ok then some { s with mSftp := true, pc := .sftp_init }
    else some (s.ret (.fail .ERR_CANNOT_LOGIN ("Unable to request the SFTP subsystem. " ++
      "Make sure SFTP is enabled on the server.")))
  | .sftp_init, .ok ok _ =>
    if ok then some (loggedIn s)
    else some (s.ret (.fail .ERR_CANNOT_LOGIN "Could not initialize the SFTP session."))
  | _, _ => none

/-! ### What is to be shown -/

/-- The session of the most recent successful `sftpOpenConnection`; newest event first. -/
def lastOpened : List Event → Option ℕ
  | [] => none
  | .opened n :: _ => some n
  | _ :: es => lastOpened es

/-- The host key of the session was found good, or the user accepted it. -/
def Checked (es : List Event) (n : ℕ) : Prop :=
  .knownServer n .OK ∈ es ∨ .accepted n ∈ es

instance (es : List Event) (n : ℕ) : Decidable (Checked es n) :=
  inferInstanceAs (Decidable (_ ∨ _))

/-- Every call of `ssh_userauth_password` was on the session opened last, and the host key of
that session had been checked before. -/
def PasswordChecked : List Event → Prop
  | [] => True
  | .password n :: es => (lastOpened es = some n ∧ Checked es n) ∧ PasswordChecked es
  | _ :: es => PasswordChecked es

/-- The step in which a reconnect with another user name succeeds. -/
def Reconnects (s : State) (a : Answer) : Prop :=
  s.pc = .reconnect ∧ ∃ o, a = .opened o ∧ (sftpOpenConnection s o).2 = .pass

/-- The routine has a session. -/
def Pc.connected : Pc → Bool
  | .start | .checkCachedAuthentication | .sftpOpenConnection | .returned _ => false
  | _ => true

/-- The routine is past the check of the host key. -/
def Pc.keyAccepted : Pc → Bool
  | .start | .checkCachedAuthentication | .sftpOpenConnection | .returned _ | .fingerprint
  | .ssh_session_is_known_server | .messageBox => false
  | _ => true

/-- Nothing happened to the session and the trace. -/
def Quiet (s s' : State) : Prop :=
  s'.mSession = s.mSession ∧ s'.sessions = s.sessions ∧ s'.trace = s.trace

/-- The step made an event about the current session. -/
def Logs (s s' : State) (e : ℕ → Event) : Prop :=
  s'.mSession = s.mSession ∧ s'.sessions = s.sessions ∧ s'.trace = s.log e

/-- The step left session and trace alone, or called `ssh_userauth_password`. -/
def Authenticates (s s' : State) : Prop := Quiet s s' ∨ Logs s s' .password

/-- **What one step can do** to the session and the trace. -/
inductive Effect (s : State) (a : Answer) (s' : State) : Prop
  | early (h : Quiet s s') (key : s'.pc.keyAccepted = false)
      (conn : s'.pc.connected = true → s.pc.connected = true)
  | late (h : Authenticates s s') (key : s.pc.keyAccepted = true)
  | checked (state : KnownHosts) (h : Logs s s' fun n => .knownServer n state)
      (conn : s.pc.connected = true) (key : s'.pc.keyAccepted = true → state = .OK)
  | accepted (h : Logs s s' .accepted) (conn : s.pc.connected = true)
  | failed (trace : s'.trace = s.trace) (sessions : s.sessions ≤ s'.sessions)
      (session : ∀ n, s'.mSession = some n → n < s'.sessions)
      (key : s'.pc.connected = false)
  | opened (session : s'.mSession = some s.sessions) (sessions : s'.sessions = s.sessions + 1)
      (trace : s'.trace = .opened s.sessions :: s.trace) (key : s'.pc.keyAccepted = false)
  | reconnected (session : s'.mSession = some s.sessions) (sessions : s'.sessions = s.sessions + 1)
      (trace : s'.trace = .password s.sessions :: .opened s.sessions :: s.trace)
      (step : Reconnects s a)

lemma authenticates_refl (s : State) : Authenticates s s := Or.inl ⟨rfl, rfl, rfl⟩

lemma callUserauthPassword_effect (s : State) : Authenticates s (callUserauthPassword s) :=
  Or.inr ⟨rfl, rfl, rfl⟩

lemma passwordLoop_effect (s : State) : Authenticates s (passwordLoop s) := by
  unfold passwordLoop
  split_ifs
  · exact authenticates_refl s
  · exact callUserauthPassword_effect s

lemma afterAuthentication_effect (s : State) : Authenticates s (afterAuthentication s) := by
  unfold afterAuthentication
  split_ifs <;> exact authenticates_refl s

lemma tryPassword_effect (s : State) : Authenticates s (tryPassword s) := by
  unfold tryPassword
  split_ifs
  · exact passwordLoop_effect _
  · exact afterAuthentication_effect s

lemma tryKeyboardInteractive_effect (s : State) : Authenticates s (tryKeyboardInteractive s) := by
  unfold tryKeyboardInteractive
  split_ifs
  · exact authenticates_refl s
  · exact tryPassword_effect s

lemma tryGssapi_effect (s : State) : Authenticates s (tryGssapi s) := by
  unfold tryGssapi
  split_ifs
  · exact authenticates_refl s
  · exact tryKeyboardInteractive_effect s

lemma tryPublicKey_effect (s : State) : Authenticates s (tryPublicKey s) := by
  unfold tryPublicKey
  split_ifs
  · exact authenticates_refl s
  · exact tryGssapi_effect s

lemma publicKeyRound_effect (s : State) (rc : AuthResult) (modified : Bool) :
    Authenticates s (publicKeyRound s rc modified) := by
  unfold publicKeyRound
  dsimp only
  split_ifs
  · exact authenticates_refl s
  · exact authenticates_refl s
  · exact tryGssapi_effect _
  · exact authenticates_refl s

lemma kbdintRound_effect (s : State) (rc : AuthResult) (nprompts : ℕ) :
    Authenticates s (kbdintRound s rc nprompts) := by
  unfold kbdintRound
  split
  · split_ifs <;> exact authenticates_refl s
  · exact tryPassword_effect _
  · exact authenticates_refl s
  · exact tryPassword_effect _

lemma passwordRound_effect (s : State) (rc : AuthResult) :
    Authenticates s (passwordRound s rc) := by
  unfold passwordRound
  dsimp only
  split_ifs
  · exact afterAuthentication_effect _
  · exact authenticates_refl s
  · exact passwordLoop_effect _

lemma passwordDialog_effect (s : State) (d : DialogAnswer) :
    Authenticates s (passwordDialog s d) := by
  unfold passwordDialog
  split
  · exact authenticates_refl s
  · dsimp only
    split_ifs
    · exact authenticates_refl s
    · exact authenticates_refl s
    · exact callUserauthPassword_effect _

variable {s s' : State} {a : Answer}

lemma sftpOpenConnection_cases {t : State} {o : OpenAnswer} {result : WorkerResult}
    (h : sftpOpenConnection s o = (t, result)) :
    (result = .pass ∧ t.mSession = some s.sessions ∧ t.sessions = s.sessions + 1 ∧
        t.trace = .opened s.sessions :: s.trace) ∨
      (result ≠ .pass ∧ t.trace = s.trace ∧ s.sessions ≤ t.sessions ∧
        ∀ n, t.mSession = some n → n < t.sessions) := by
  unfold sftpOpenConnection at h
  dsimp only at h
  split at h
  · obtain ⟨rfl, rfl⟩ := Prod.mk.inj h
    exact Or.inr ⟨by simp, rfl, Nat.le_refl _, by simp [closeConnection]⟩
  · split at h
    · obtain ⟨rfl, rfl⟩ := Prod.mk.inj h
      exact Or.inr ⟨by simp, rfl, Nat.le_succ _, by simp [closeConnection]⟩
    · split at h
      · obtain ⟨rfl, rfl⟩ := Prod.mk.inj h
        exact Or.inr ⟨by simp, rfl, Nat.le_succ _, by simp [closeConnection]⟩
      · obtain ⟨rfl, rfl⟩ := Prod.mk.inj h
        exact Or.inl ⟨rfl, by simp [closeConnection], by simp [closeConnection],
          by simp [closeConnection]⟩

lemma openConnectionWithoutCloseOnError_effect (s : State) :
    Quiet s (openConnectionWithoutCloseOnError s) ∧
      (openConnectionWithoutCloseOnError s).pc.connected = false := by
  unfold openConnectionWithoutCloseOnError
  dsimp only
  split_ifs <;> exact ⟨⟨rfl, rfl, rfl⟩, rfl⟩

lemma keyAccepted_connected {pc : Pc} (h : pc.connected = false) : pc.keyAccepted = false := by
  cases pc <;> simp_all [Pc.connected, Pc.keyAccepted]

lemma checkHostKey_effect (s : State) (a : Answer) (state : KnownHosts) (text : String)
    (h : s.pc.connected = true) : Effect s a (checkHostKey s state text) := by
  refine .checked state ?_ h ?_
  · unfold checkHostKey
    cases state <;> exact ⟨rfl, rfl, rfl⟩
  · unfold checkHostKey
    cases state <;> simp [State.ret, Pc.keyAccepted]

lemma hostKeyAnswer_effect (s : State) (a : Answer) (continue_ : Bool)
    (h : s.pc.connected = true) : Effect s a (hostKeyAnswer s continue_) := by
  unfold hostKeyAnswer
  split_ifs
  · exact .accepted ⟨rfl, rfl, rfl⟩ h
  · exact .early ⟨rfl, rfl, rfl⟩ rfl (by simp [State.ret, Pc.connected])

lemma kbdintDialog_effect (s : State) (i n : ℕ) (echo : Bool) (d : DialogAnswer) :
    Authenticates s (kbdintDialog s i n echo d) := by
  unfold kbdintDialog
  split
  · exact authenticates_refl s
  · cases echo <;> exact authenticates_refl s

lemma kbdintAnswered_effect (s : State) (i n : ℕ) (ok : Bool) :
    Authenticates s (kbdintAnswered s i n ok) := by
  unfold kbdintAnswered
  split_ifs <;> exact authenticates_refl s

lemma open_effect {o : OpenAnswer} (a : Answer) (next : State → State)
    (h : (match sftpOpenConnection s o with
      | (s, .pass) => some (next s)
      | (s, result) => some (s.ret result)) = some s') :
    (∃ t, s' = next t ∧ t.mSession = some s.sessions ∧ t.sessions = s.sessions + 1 ∧
        t.trace = .opened s.sessions :: s.trace ∧ (sftpOpenConnection s o).2 = .pass) ∨
      (Effect s a s' ∧ (sftpOpenConnection s o).2 ≠ .pass) := by
  rcases hres : sftpOpenConnection s o with ⟨t, result⟩
  rw [hres] at h
  rcases sftpOpenConnection_cases hres with ⟨rfl, h1, h2, h3⟩ | ⟨hne, h1, h2, h3⟩
  · simp only [Option.some.injEq] at h
    exact Or.inl ⟨t, h.symm, h1, h2, h3, rfl⟩
  · cases result with
    | pass => exact absurd rfl hne
    | fail e text =>
      simp only [Option.some.injEq] at h
      subst h
      exact Or.inr ⟨.failed h1 h2 h3 rfl, by simp⟩

lemma late_effect {pc : Pc} (a : Answer) (hpc : s.pc = pc) (hk : pc.keyAccepted = true)
    (h : Authenticates s s') : Effect s a s' :=
  .late h (hpc ▸ hk)

theorem step_effect {s s' : State} {a : Answer} (h : step s a = some s') : Effect s a s' := by
  unfold step at h
  split at h
  all_goals rename_i hpc
  all_goals try simp only [Option.some.injEq] at h
  · -- before the first call
    obtain ⟨h1, h2⟩ := openConnectionWithoutCloseOnError_effect s
    subst h
    exact .early h1 (keyAccepted_connected h2) (by simp [h2])
  · subst h
    exact .early ⟨rfl, rfl, rfl⟩ rfl (by simp [Pc.connected])
  · subst h
    exact .early ⟨rfl, rfl, rfl⟩ rfl (by simp [Pc.connected])
  · -- the first connection
    rcases open_effect _ (fun s => { s with pc := .fingerprint }) h with
      ⟨t, rfl, h1, h2, h3, -⟩ | ⟨he, -⟩
    · exact .opened h1 h2 h3 rfl
    · exact he
  · subst h
    exact .early ⟨rfl, rfl, rfl⟩ rfl (by simp [State.ret, Pc.connected])
  · subst h
    exact .early ⟨rfl, rfl, rfl⟩ rfl (by simp [hpc, Pc.connected])
  · exact h ▸ checkHostKey_effect s _ _ _ (by simp [hpc, Pc.connected])
  · exact h ▸ hostKeyAnswer_effect s _ _ (by simp [hpc, Pc.connected])
  · split at h <;> (obtain rfl := Option.some.inj h; exact late_effect _ hpc rfl (authenticates_refl s))
  · split at h <;> (obtain rfl := Option.some.inj h; exact late_effect _ hpc rfl (authenticates_refl s))
  · -- the list of methods
    split at h
    · obtain rfl := Option.some.inj h
      exact late_effect _ hpc rfl (authenticates_refl s)
    · obtain rfl := Option.some.inj h
      exact late_effect _ hpc rfl (tryPublicKey_effect _)
  · subst h
    exact late_effect _ hpc rfl (publicKeyRound_effect s _ _)
  · subst h
    exact late_effect _ hpc rfl (tryGssapi_effect _)
  · split at h
    · obtain rfl := Option.some.inj h
      exact late_effect _ hpc rfl (authenticates_refl s)
    · obtain rfl := Option.some.inj h
      exact late_effect _ hpc rfl (tryKeyboardInteractive_effect _)
  · subst h
    exact late_effect _ hpc rfl (kbdintRound_effect s _ _)
  · subst h
    exact late_effect _ hpc rfl (authenticates_refl s)
  · subst h
    exact late_effect _ hpc rfl (kbdintDialog_effect s _ _ _ _)
  · subst h
    exact late_effect _ hpc rfl (kbdintAnswered_effect s _ _ _)
  · subst h
    exact late_effect _ hpc rfl (passwordDialog_effect s _)
  · -- the second connection, on which the password is sent at once
    rcases open_effect _ callUserauthPassword h with ⟨t, rfl, h1, h2, h3, hp⟩ | ⟨he, -⟩
    · refine .reconnected h1 h2 ?_ ⟨hpc, _, rfl, hp⟩
      simp [callUserauthPassword, State.log, h1, h3]
    · exact he
  · subst h
    exact late_effect _ hpc rfl (passwordRound_effect s _)
  · split at h <;> (obtain rfl := Option.some.inj h; exact late_effect _ hpc rfl (authenticates_refl s))
  · split at h
    · obtain rfl := Option.some.inj h
      exact late_effect _ hpc rfl (Or.inl ⟨rfl, rfl, rfl⟩)
    · obtain rfl := Option.some.inj h
      exact late_effect _ hpc rfl (authenticates_refl s)
  · simp at h

theorem step_reconnects {s s' : State} {a : Answer} (h : step s a = some s') (hr : Reconnects s a) :
    s'.trace = .password s.sessions :: .opened s.sessions :: s.trace := by
  obtain ⟨hpc, o, rfl, hpass⟩ := hr
  simp only [step, hpc] at h
  rcases open_effect .begin callUserauthPassword h with ⟨t, rfl, h1, h2, h3, -⟩ | ⟨-, hne⟩
  · simp [callUserauthPassword, State.log, h1, h3]
  · exact absurd hpass hne

/-! ### Runs -/

/-- The session is open and its host key was checked. -/
def Secured (s : State) : Prop :=
  ∃ n, s.mSession = some n ∧ lastOpened s.trace = some n ∧ Checked s.trace n

structure Inv (s : State) : Prop where
  safe : PasswordChecked s.trace
  session : s.pc.connected = true → ∃ n, s.mSession = some n ∧ lastOpened s.trace = some n
  secured : s.pc.keyAccepted = true → Secured s

lemma Checked.mono {es : List Event} {e : Event} {n : ℕ} (h : Checked es n) : Checked (e :: es) n :=
  h.imp (List.mem_cons_of_mem _) (List.mem_cons_of_mem _)

lemma Authenticates.inv (h : Authenticates s s') (hs : Secured s)
    (hsafe : PasswordChecked s.trace) : Inv s' := by
  obtain ⟨n, h1, h2, h3⟩ := hs
  rcases h with ⟨hm, -, ht⟩ | ⟨hm, -, ht⟩
  · have hsec : Secured s' := ⟨n, by rw [hm, h1], by rw [ht, h2], by rw [ht]; exact h3⟩
    exact ⟨by rw [ht]; exact hsafe, fun _ => ⟨n, by rw [hm, h1], by rw [ht, h2]⟩, fun _ => hsec⟩
  · have hlog : s'.trace = .password n :: s.trace := by simp [ht, State.log, h1]
    have hlast : lastOpened s'.trace = some n := by rw [hlog]; exact h2
    have hsec : Secured s' := ⟨n, by rw [hm, h1], hlast, by rw [hlog]; exact h3.mono⟩
    exact ⟨by rw [hlog]; exact ⟨⟨h2, h3⟩, hsafe⟩, fun _ => ⟨n, by rw [hm, h1], hlast⟩, fun _ => hsec⟩

lemma step_inv (hi : Inv s) (hr : ¬ Reconnects s a) (h : step s a = some s') : Inv s' := by
  cases step_effect h with
  | early hq key conn =>
    obtain ⟨hm, -, ht⟩ := hq
    refine ⟨by rw [ht]; exact hi.safe, fun hc => ?_, by simp [key]⟩
    rw [hm, ht]
    exact hi.session (conn hc)
  | late ha key => exact ha.inv (hi.secured key) hi.safe
  | checked state hl conn key =>
    obtain ⟨n, hn, hlast⟩ := hi.session conn
    obtain ⟨hm, -, ht⟩ := hl
    have hlog : s'.trace = .knownServer n state :: s.trace := by simp [ht, State.log, hn]
    have hopen : lastOpened s'.trace = some n := by rw [hlog]; exact hlast
    refine ⟨by rw [hlog]; exact hi.safe, fun _ => ⟨n, by rw [hm, hn], hopen⟩, fun hk => ?_⟩
    exact ⟨n, by rw [hm, hn], hopen, Or.inl (by rw [hlog, key hk]; exact List.mem_cons_self)⟩
  | accepted hl conn =>
    obtain ⟨n, hn, hlast⟩ := hi.session conn
    obtain ⟨hm, -, ht⟩ := hl
    have hlog : s'.trace = .accepted n :: s.trace := by simp [ht, State.log, hn]
    have hopen : lastOpened s'.trace = some n := by rw [hlog]; exact hlast
    refine ⟨by rw [hlog]; exact hi.safe, fun _ => ⟨n, by rw [hm, hn], hopen⟩, fun _ => ?_⟩
    exact ⟨n, by rw [hm, hn], hopen, Or.inr (by rw [hlog]; exact List.mem_cons_self)⟩
  | failed ht _ _ key =>
    exact ⟨by rw [ht]; exact hi.safe, by simp [key], by simp [keyAccepted_connected key]⟩
  | opened hm _ ht key =>
    exact ⟨by rw [ht]; exact hi.safe, fun _ => ⟨s.sessions, hm, by rw [ht]; rfl⟩, by simp [key]⟩
  | reconnected _ _ _ hrec => exact absurd hrec hr

/-- The routine is called with nothing done yet. -/
def Initial (s : State) : Prop := s.pc = .start ∧ s.trace = [] ∧ s.mSession = none

lemma initial_inv (h : Initial s) : Inv s := by
  obtain ⟨hpc, ht, -⟩ := h
  exact ⟨by simp [ht, PasswordChecked], by simp [hpc, Pc.connected], by simp [hpc, Pc.keyAccepted]⟩

def Event.session : Event → ℕ
  | .opened n | .knownServer n _ | .accepted n | .password n => n

/-- The sessions heard of so far are older than the next one to be opened. -/
structure Fresh (s : State) : Prop where
  trace : ∀ e ∈ s.trace, e.session < s.sessions
  session : ∀ n, s.mSession = some n → n < s.sessions

lemma Logs.fresh {e : ℕ → Event} (h : Logs s s' e) (he : ∀ n, (e n).session = n) (hf : Fresh s) :
    Fresh s' := by
  obtain ⟨hm, hn, ht⟩ := h
  refine ⟨?_, by rw [hm, hn]; exact hf.session⟩
  rw [ht, hn]
  unfold State.log
  cases hs : s.mSession with
  | none => exact hf.trace
  | some n =>
    intro x hx
    rcases List.mem_cons.mp hx with rfl | hx
    · rw [he]; exact hf.session n hs
    · exact hf.trace x hx

lemma Quiet.fresh (h : Quiet s s') (hf : Fresh s) : Fresh s' := by
  obtain ⟨hm, hn, ht⟩ := h
  exact ⟨by rw [hn, ht]; exact hf.trace, by rw [hm, hn]; exact hf.session⟩

lemma step_fresh (hf : Fresh s) (h : step s a = some s') : Fresh s' := by
  have hmono : ∀ e ∈ s.trace, e.session < s.sessions + 1 :=
    fun e he => Nat.lt_succ_of_lt (hf.trace e he)
  cases step_effect h with
  | early hq => exact hq.fresh hf
  | late ha =>
    rcases ha with hq | hl
    · exact hq.fresh hf
    · exact hl.fresh (fun _ => rfl) hf
  | checked state hl => exact hl.fresh (fun _ => rfl) hf
  | accepted hl => exact hl.fresh (fun _ => rfl) hf
  | failed ht hn hm =>
    exact ⟨fun e he => Nat.lt_of_lt_of_le (hf.trace e (ht ▸ he)) hn, hm⟩
  | opened hm hn ht =>
    refine ⟨?_, by simp [hm, hn]⟩
    rw [ht, hn]
    simpa [Event.session] using hmono
  | reconnected hm hn ht =>
    refine ⟨?_, by simp [hm, hn]⟩
    rw [ht, hn]
    simpa [Event.session] using hmono

lemma initial_fresh (h : Initial s) : Fresh s := by
  obtain ⟨-, ht, hm⟩ := h
  exact ⟨by simp [ht], by simp [hm]⟩

lemma step_suffix (h : step s a = some s') : s.trace <:+ s'.trace := by
  have hlog : ∀ e, s.trace <:+ s.log e := by
    intro e
    unfold State.log
    cases s.mSession with
    | none => exact List.suffix_refl _
    | some n => exact List.suffix_cons _ _
  cases step_effect h with
  | early hq => exact hq.2.2 ▸ List.suffix_refl _
  | late ha =>
    rcases ha with hq | hl
    · exact hq.2.2 ▸ List.suffix_refl _
    · rw [hl.2.2]; exact hlog _
  | checked state hl => rw [hl.2.2]; exact hlog _
  | accepted hl => rw [hl.2.2]; exact hlog _
  | failed ht => exact ht ▸ List.suffix_refl _
  | opened _ _ ht => rw [ht]; exact List.suffix_cons _ _
  | reconnected _ _ ht =>
    rw [ht]
    exact (List.suffix_cons _ _).trans (List.suffix_cons _ _)

lemma PasswordChecked.of_suffix {es fs : List Event} (h : PasswordChecked fs)
    (hs : es <:+ fs) : PasswordChecked es := by
  obtain ⟨pre, rfl⟩ := hs
  induction pre with
  | nil => exact h
  | cons e pre ih =>
    refine ih ?_
    cases e with
    | password n => exact h.2
    | _ => exact h

lemma reconnect_unchecked (hf : Fresh s) (hr : Reconnects s a) (h : step s a = some s') :
    ¬ PasswordChecked s'.trace := by
  rw [step_reconnects h hr]
  rintro ⟨⟨-, hc⟩, -⟩
  rcases hc with hc | hc
  all_goals
    rcases List.mem_cons.mp hc with he | hmem
    · simp at he
    · have := hf.trace _ hmem
      simp [Event.session] at this

/-- **The host key before the password.** In a run of the routine every password is sent on
the session opened last after its host key was checked, if and only if no step of the run
reconnects with another user name in the password loop. -/
theorem password_checked_iff (s t : State) (answers : List Answer) (hs : Initial s)
    (h : run step s answers = some t) :
    PasswordChecked t.trace ↔ AllSteps step (fun s a => ¬ Reconnects s a) s answers := by
  constructor
  · intro hsafe
    have hf := initial_fresh hs
    clear hs
    -- the run up to here kept the sessions apart; a reconnect would show in the final trace
    induction answers generalizing s with
    | nil => trivial
    | cons a as ih =>
      obtain ⟨u, hu, hrest⟩ := run_cons_some step h
      have hsuffix : u.trace <:+ t.trace :=
        run_inv (I := fun v => u.trace <:+ v.trace) (P := fun _ _ => True)
          (fun _ _ _ hv _ hstep => hv.trans (step_suffix hstep))
          (allSteps_of_labels (P := fun _ => True) (by simp)) (List.suffix_refl _) hrest
      refine ⟨fun hr => reconnect_unchecked hf hr hu (hsafe.of_suffix hsuffix), fun v hv => ?_⟩
      obtain rfl : u = v := by simpa [hu] using hv
      exact ih u hrest (step_fresh hf hu)
  · intro hall
    exact (run_inv (fun _ _ _ hi hr hstep => step_inv hi hr hstep) hall (initial_inv hs) h).safe

/-! ### Two runs -/

/-- A worker for `host`, called for the first time, with no user name in the URL. -/
def firstCall : State where
  pc := .start
  mConnected := false
  mHost := "host"
  mPort := 0
  mUsername := ""
  mPassword := ""
  loginName := "alice"
  mSession := none
  mSftp := false
  sessions := 0
  serverPublicKeyType := ""
  info := ⟨"", "", false, ""⟩
  info2 := ⟨"", "", false, ""⟩
  rc := .DENIED
  method := ⟨false, false, false, false, false⟩
  isFirstLoginAttempt := true
  cached := none
  trace := []

/-- A connection on which every call succeeds. -/
def connects : OpenAnswer := ⟨true, fun _ => true, true, ""⟩

/-- Up to the password dialog, with a known host and a server that takes passwords only. -/
def toPasswordDialog : List Answer :=
  [.begin, .cached none, .opened connects, .inspected (.ok "ssh-ed25519"), .known .OK "",
    .auth .DENIED, .methods ⟨false, false, false, true, false⟩]

/-- The user keeps the name, mistypes the password once and gets in. -/
def retried : List Answer :=
  toPasswordDialog ++ [.dialog ⟨none, "alice", "typo", true⟩, .auth .DENIED,
    .dialog ⟨none, "alice", "secret", true⟩, .auth .SUCCESS, .ok true "", .ok true ""]

theorem password_checked_retried : ∃ t, run step firstCall retried = some t ∧
    t.pc = .returned .pass ∧ PasswordChecked t.trace := by
  refine ⟨_, rfl, rfl, ?_⟩
  refine (password_checked_iff firstCall _ retried ⟨rfl, rfl, rfl⟩ rfl).mpr ?_
  repeat refine allSteps_cons rfl (fun hr => absurd hr.1 (by decide)) ?_
  trivial

/-- The user enters another name: the password goes out on the second session, whose host key
nobody looked at. -/
theorem password_unchecked_renamed :
    ¬ ∀ (s t : State) (answers : List Answer), Initial s → run step s answers = some t →
      PasswordChecked t.trace := by
  intro h
  have hbad := h firstCall _ (toPasswordDialog ++
    [.dialog ⟨none, "bob", "secret", true⟩, .opened connects]) ⟨rfl, rfl, rfl⟩ rfl
  obtain ⟨⟨-, hc⟩, -⟩ := hbad
  exact absurd hc (by decide)

end KioExtras.Sftp.Login
