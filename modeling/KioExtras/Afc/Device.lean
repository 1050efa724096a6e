import KioExtras.Afc.Url
import KioExtras.Kio
import KioExtras.Lib.Directories
import KioExtras.Lib.FileStore

/-!
A device as its clients see it: one container of files for the media and one for each app, and the
calls with which a client works in its own container. What the device answers to a call is an
input; a call that it refuses changes nothing.
-/

namespace KioExtras.Afc

open KioExtras.Kio KioExtras.Lib.Paths KioExtras.Lib.Directories KioExtras.Lib.FileStore

abbrev Bytes := List UInt8

abbrev Container := Tree (Name '/') Bytes

inductive afc_error_t
  | AFC_E_SUCCESS
  | AFC_E_END_OF_DATA
  | AFC_E_UNKNOWN_ERROR
  | AFC_E_NO_RESOURCES
  | AFC_E_NO_MEM
  | AFC_E_READ_ERROR
  | AFC_E_WRITE_ERROR
  | AFC_E_OBJECT_NOT_FOUND
  | AFC_E_OBJECT_IS_DIR
  | AFC_E_PERM_DENIED
  | AFC_E_SERVICE_NOT_CONNECTED
  | AFC_E_OP_TIMEOUT
  | AFC_E_OP_NOT_SUPPORTED
  | AFC_E_OBJECT_EXISTS
  | AFC_E_NO_SPACE_LEFT
  | AFC_E_IO_ERROR
  | AFC_E_INTERNAL_ERROR
  | AFC_E_DIR_NOT_EMPTY
  | AFC_E_MUX_ERROR
  | other (code : ℕ)
  deriving DecidableEq

open afc_error_t

/-- `AfcUtils::Result::from`. -/
def Result.from (afcError : afc_error_t) (errorText : Text := []) : WorkerResult :=
  let text := String.ofList errorText
  match afcError with
  | AFC_E_SUCCESS | AFC_E_END_OF_DATA => .pass
  | AFC_E_UNKNOWN_ERROR => .fail .ERR_UNKNOWN text
  | AFC_E_NO_RESOURCES | AFC_E_NO_MEM => .fail .ERR_OUT_OF_MEMORY text
  | AFC_E_READ_ERROR => .fail .ERR_CANNOT_READ text
  | AFC_E_WRITE_ERROR => .fail .ERR_CANNOT_WRITE text
  | AFC_E_OBJECT_NOT_FOUND => .fail .ERR_DOES_NOT_EXIST text
  | AFC_E_OBJECT_IS_DIR => .fail .ERR_IS_DIRECTORY text
  | AFC_E_PERM_DENIED => .fail .ERR_ACCESS_DENIED text
  | AFC_E_SERVICE_NOT_CONNECTED => .fail .ERR_CONNECTION_BROKEN text
  | AFC_E_OP_TIMEOUT => .fail .ERR_SERVER_TIMEOUT text
  | AFC_E_OP_NOT_SUPPORTED => .fail .ERR_UNSUPPORTED_ACTION text
  | AFC_E_OBJECT_EXISTS => .fail .ERR_FILE_ALREADY_EXIST text
  | AFC_E_NO_SPACE_LEFT => .fail .ERR_DISK_FULL text
  | AFC_E_IO_ERROR => .fail .ERR_CONNECTION_BROKEN text
  | AFC_E_INTERNAL_ERROR => .fail .ERR_INTERNAL_SERVER text
  | AFC_E_DIR_NOT_EMPTY => .fail .ERR_CANNOT_RMDIR text
  | AFC_E_MUX_ERROR => .fail .ERR_CANNOT_CONNECT text
  | other code => .fail .ERR_INTERNAL ("Unhandled AFC error code '" ++ toString code ++ "'")

/-- The two answers that `Result.from` takes for success. -/
def afc_error_t.passes (ret : afc_error_t) : Bool := ret = AFC_E_SUCCESS || ret = AFC_E_END_OF_DATA

@[simp] lemma success_from (ret : afc_error_t) (text : Text) :
    (Result.from ret text).success = ret.passes := by
  cases ret <;> rfl

def taken (result : WorkerResult) : Bool :=
  match result with
  | .pass => true
  | .fail error _ => error ≠ .ERR_DOES_NOT_EXIST

/-! ### Entries -/

/-- The keys of `afc_get_file_info` that the operations look at. -/
structure Info where
  st_size : Option ℕ
  isDirectory : Bool

/-- The answer of `afc_get_file_info`; a null may come with success. -/
structure InfoAnswer where
  ret : afc_error_t
  info : Option Info

structure UDSEntry where
  UDS_SIZE : Option ℕ
  isDir : Bool

def UDSEntry.size (entry : UDSEntry) : ℕ := entry.UDS_SIZE.getD 0

def AfcClient.entry (path : Text) (answer : InfoAnswer) : WorkerResult × UDSEntry :=
  let result := Result.from answer.ret path
  match result.success, answer.info with
  | true, some info => (.pass, ⟨info.st_size, info.isDirectory⟩)
  | _, _ => (result, ⟨none, false⟩)

/-- What an operation reports that does not overwrite. -/
def alreadyExists (entry : UDSEntry) (path : Text) : WorkerResult :=
  if entry.isDir then .fail .ERR_DIR_ALREADY_EXIST (String.ofList path)
  else .fail .ERR_FILE_ALREADY_EXIST (String.ofList path)

@[simp] lemma success_alreadyExists (entry : UDSEntry) (path : Text) :
    (alreadyExists entry path).success = false := by
  unfold alreadyExists
  split <;> rfl

/-! ### Files -/

inductive OpenMode
  | ReadOnly
  | WriteOnly
  | Append
  deriving DecidableEq

inductive afc_file_mode_t
  | AFC_FOPEN_RDONLY
  | AFC_FOPEN_WRONLY
  | AFC_FOPEN_APPEND
  deriving DecidableEq

/-- An open file and the position in it. -/
structure Handle where
  place : Key
  append : Bool
  offset : ℕ

/-- What opening does when the device does not refuse it: reading needs a file, writing a place for
one, which is emptied or created. -/
def afc_file_open (c : Container) (place : Key) (mode : afc_file_mode_t) (ret : afc_error_t) :
    Except afc_error_t (Handle × Container) :=
  if ret.passes then
    match mode with
    | .AFC_FOPEN_RDONLY =>
      match c.objects place with
      | none => .error AFC_E_OBJECT_NOT_FOUND
      | some .dir => .error AFC_E_OBJECT_IS_DIR
      | some (.file _) => .ok (⟨place, false, 0⟩, c)
    | .AFC_FOPEN_WRONLY =>
      if h : c.Fits place then .ok (⟨place, false, 0⟩, c.set h (some []))
      else if c.objects place = some .dir then .error AFC_E_OBJECT_IS_DIR
      else .error AFC_E_OBJECT_NOT_FOUND
    | .AFC_FOPEN_APPEND =>
      if h : c.Fits place then .ok (⟨place, true, 0⟩, c.set h (some ((c.file? place).getD [])))
      else if c.objects place = some .dir then .error AFC_E_OBJECT_IS_DIR
      else .error AFC_E_OBJECT_NOT_FOUND
  else .error ret

def AfcFile.open (c : Container) (path : Text) (mode : OpenMode) (ret : afc_error_t) :
    Except WorkerResult (Handle × Container) :=
  let fileMode : afc_file_mode_t :=
    match mode with
    | .ReadOnly => .AFC_FOPEN_RDONLY
    | .WriteOnly => .AFC_FOPEN_WRONLY
    | .Append => .AFC_FOPEN_APPEND
  match afc_file_open c (placeOf path) fileMode ret with
  | .ok opened => .ok opened
  | .error ret => .error (Result.from ret)

/-- At most as many bytes as asked for, from the position on. -/
def afc_file_read (c : Container) (h : Handle) (length offered : ℕ) : Bytes × Handle :=
  let bytes := (((c.file? h.place).getD []).drop h.offset).take (min length offered)
  (bytes, { h with offset := h.offset + bytes.length })

def written (h : Handle) (data bytes : Bytes) : Bytes :=
  if h.append then data ++ bytes else Store.splice data h.offset bytes

/-- All but the last `left` bytes are taken, whether the device answers with an error or not. -/
def afc_file_write (c : Container) (h : Handle) (data : Bytes) (left : ℕ) : Container × Handle :=
  let bytes := data.take (data.length - left)
  match c.file? h.place with
  | none => (c, h)
  | some old =>
    if hfits : c.Fits h.place then
      (c.set hfits (some (written h old bytes)), { h with offset := h.offset + bytes.length })
    else (c, h)

def afc_remove_path (c : Container) (place : Key) (ret : afc_error_t) : Container :=
  if ret.passes then
    if h : c.Fits place then c.set h none else c
  else c

/-! ### Clients -/

/-- A client works in the container of its app, or in that of the media. -/
structure AfcClient where
  appId : Text

structure AfcDevice where
  containers : Text → Container
  handshakeSuccessful : Bool
  lastClient : Option AfcClient

/-- How the device answers when a client is asked for: the failures of the handshake and of the
service. -/
structure ClientAnswers where
  handshake : Option (Error × String)
  init : Option (Error × String)

def AfcDevice.handshake (device : AfcDevice) (answers : ClientAnswers) : WorkerResult × AfcDevice :=
  if device.handshakeSuccessful then (.pass, device)
  else match answers.handshake with
    | some (error, text) => (.fail error text, device)
    | none => (.pass, { device with handshakeSuccessful := true })

def AfcDevice.client (device : AfcDevice) (appId : Text) (answers : ClientAnswers) :
    Except WorkerResult AfcClient × AfcDevice :=
  let (result, device) := device.handshake answers
  if result.success then
    match device.lastClient with
    | some client => if client.appId = appId then (.ok client, device) else init device
    | none => init device
  else (.error result, device)
where
  init (device : AfcDevice) : Except WorkerResult AfcClient × AfcDevice :=
    match answers.init with
    | some (error, text) => (.error (.fail error text), device)
    | none => (.ok ⟨appId⟩, { device with lastClient := some ⟨appId⟩ })

abbrev AfcWorker := Text → Option AfcDevice

def AfcWorker.update (worker : AfcWorker) (id : Text) (device : AfcDevice) : AfcWorker :=
  Function.update worker id (some device)

def AfcDevice.setContainer (device : AfcDevice) (appId : Text) (c : Container) : AfcDevice :=
  { device with containers := Function.update device.containers appId c }

/-- What comes of an operation. -/
structure Outcome (S : Type) where
  result : WorkerResult
  killed : Bool
  state : S

/-- The start of the operations: the client of a URL, and the operation in its container. -/
def AfcWorker.clientForUrl (worker : AfcWorker) (afcUrl : AfcUrl) (answers : ClientAnswers)
    (operation : Container → Option (Outcome Container)) : Option (Outcome AfcWorker) :=
  match worker afcUrl.device with
  | none => some ⟨.fail .ERR_DOES_NOT_EXIST (String.ofList afcUrl.url.toDisplayString), false,
      worker⟩
  | some device =>
    match device.client afcUrl.appId answers with
    | (.error result, device) => some ⟨result, false, worker.update afcUrl.device device⟩
    | (.ok client, device) =>
      (operation (device.containers client.appId)).map fun o =>
        ⟨o.result, o.killed,
          worker.update afcUrl.device (device.setContainer client.appId o.state)⟩

def AfcWorker.container (worker : AfcWorker) (id appId : Text) : Option Container :=
  (worker id).map fun device => device.containers appId

/-! ### The calls -/

lemma written_end {h : Handle} {data : Bytes} (hend : h.append ∨ h.offset = data.length)
    (bytes : Bytes) : written h data bytes = data ++ bytes := by
  unfold written
  rcases hend with happ | hoff
  · rw [if_pos happ]
  · split
    · rfl
    · rw [hoff, Store.splice_end]

variable {c : Container}

variable {c' : Container} {answers : ClientAnswers} {device : AfcDevice} {afcUrl : AfcUrl}
  {worker : AfcWorker}

lemma open_read {path : Text} {ret : afc_error_t} {h : Handle}
    (hopen : AfcFile.open c path .ReadOnly ret = .ok (h, c')) :
    ret.passes ∧ c' = c ∧ h = ⟨placeOf path, false, 0⟩ ∧
      ∃ data, c.file? (placeOf path) = some data := by
  unfold AfcFile.open afc_file_open at hopen
  cases hret : ret.passes with
  | false => simp [hret] at hopen
  | true =>
    rcases hobj : c.objects (placeOf path) with _ | _ | data
    · simp [hret, hobj] at hopen
    · simp [hret, hobj] at hopen
    · simp only [hret, hobj, if_true, Except.ok.injEq, Prod.mk.injEq] at hopen
      exact ⟨rfl, hopen.2.symm, hopen.1.symm, data, Tree.file?_eq_some.mpr hobj⟩

lemma open_read_error {path : Text} {ret : afc_error_t} {result : WorkerResult}
    (hopen : AfcFile.open c path .ReadOnly ret = .error result) :
    result.success = false ∧ ¬ (ret.passes ∧ ∃ data, c.file? (placeOf path) = some data) := by
  unfold AfcFile.open afc_file_open at hopen
  cases hret : ret.passes with
  | false =>
    simp only [hret, Bool.false_eq_true, if_false, Except.error.injEq] at hopen
    exact ⟨by rw [← hopen, success_from, hret], by simp⟩
  | true =>
    rcases hobj : c.objects (placeOf path) with _ | _ | data
    · simp only [hret, hobj, if_true, Except.error.injEq] at hopen
      exact ⟨by rw [← hopen]; rfl, by simp [Tree.file?, hobj]⟩
    · simp only [hret, hobj, if_true, Except.error.injEq] at hopen
      exact ⟨by rw [← hopen]; rfl, by simp [Tree.file?, hobj, Object.data]⟩
    · simp [hret, hobj] at hopen

lemma open_read_ok {path : Text} {ret : afc_error_t} {data : Bytes} (hret : ret.passes = true)
    (hfile : c.file? (placeOf path) = some data) :
    AfcFile.open c path .ReadOnly ret = .ok (⟨placeOf path, false, 0⟩, c) := by
  rw [Tree.file?_eq_some] at hfile
  simp [AfcFile.open, afc_file_open, hret, hfile]

/-- What a file holds after it was opened for writing. -/
def opened (c : Container) (place : Key) (append : Bool) : Bytes :=
  if append then (c.file? place).getD [] else []

lemma open_write {path : Text} {append : Bool} {ret : afc_error_t} {h : Handle}
    (hopen : AfcFile.open c path (if append then .Append else .WriteOnly) ret = .ok (h, c')) :
    ret.passes ∧ ∃ hfits : c.Fits (placeOf path), h = ⟨placeOf path, append, 0⟩ ∧
      c' = c.set hfits (some (opened c (placeOf path) append)) := by
  unfold AfcFile.open afc_file_open at hopen
  cases hret : ret.passes with
  | false => simp [hret] at hopen
  | true =>
    by_cases hfits : c.Fits (placeOf path)
    · refine ⟨rfl, hfits, ?_⟩
      cases append <;> simp_all [opened]
    · cases append <;> by_cases hdir : c.objects (placeOf path) = some .dir <;>
        simp [hret, hfits, hdir] at hopen

lemma open_write_error {path : Text} {append : Bool} {ret : afc_error_t} {result : WorkerResult}
    (hopen : AfcFile.open c path (if append then .Append else .WriteOnly) ret = .error result) :
    result.success = false ∧ ¬ (ret.passes ∧ c.Fits (placeOf path)) := by
  unfold AfcFile.open afc_file_open at hopen
  cases hret : ret.passes with
  | false =>
    simp only [hret, Bool.false_eq_true, if_false, Except.error.injEq] at hopen
    exact ⟨by rw [← hopen, success_from, hret], by simp⟩
  | true =>
    by_cases hfits : c.Fits (placeOf path)
    · cases append <;> simp [hret, hfits] at hopen
    · refine ⟨?_, fun h => hfits h.2⟩
      cases append <;> by_cases hdir : c.objects (placeOf path) = some .dir <;>
        simp only [hret, hfits, hdir, if_true, dif_neg, not_false_eq_true, Bool.false_eq_true,
          if_false, Except.error.injEq] at hopen <;>
        exact hopen ▸ rfl

lemma open_write_ok {path : Text} {append : Bool} {ret : afc_error_t} (hret : ret.passes = true)
    (hfits : c.Fits (placeOf path)) :
    AfcFile.open c path (if append then .Append else .WriteOnly) ret =
      .ok (⟨placeOf path, append, 0⟩, c.set hfits (some (opened c (placeOf path) append))) := by
  cases append <;> simp [AfcFile.open, afc_file_open, hret, hfits, opened]

lemma write_end {h : Handle} {old : Bytes} (hold : c.file? h.place = some old)
    (hend : h.append ∨ h.offset = old.length) (data : Bytes) (left : ℕ) :
    ∃ hfits : c.Fits h.place, afc_file_write c h data left =
      (c.set hfits (some (old ++ data.take (data.length - left))),
        { h with offset := h.offset + (data.take (data.length - left)).length }) := by
  have hfits := Tree.fits_of_file (Tree.file?_eq_some.mp hold)
  refine ⟨hfits, ?_⟩
  simp only [afc_file_write, hold, hfits, dif_pos, written_end hend]

/-! ### The client of a URL -/

lemma AfcDevice.client_spec {device' : AfcDevice} {appId : Text} {r : Except WorkerResult AfcClient}
    (h : device.client appId answers = (r, device')) :
    device'.containers = device.containers ∧ (∀ client, r = .ok client → client.appId = appId) ∧
      ∀ result, r = .error result → result.success = false := by
  have hinit : ∀ d : AfcDevice, AfcDevice.client.init appId answers d = (r, device') →
      device'.containers = d.containers ∧ (∀ client, r = .ok client → client.appId = appId) ∧
        ∀ result, r = .error result → result.success = false := by
    intro d hd
    unfold AfcDevice.client.init at hd
    split at hd
    · obtain ⟨rfl, rfl⟩ := Prod.mk.inj hd
      simp
    · obtain ⟨rfl, rfl⟩ := Prod.mk.inj hd
      simp
  have hshake : (device.handshake answers).2.containers = device.containers := by
    unfold AfcDevice.handshake
    split
    · rfl
    · split <;> rfl
  unfold AfcDevice.client at h
  dsimp only at h
  rw [← hshake]
  split at h
  · split at h
    · split at h
      · next hsame =>
        obtain ⟨rfl, rfl⟩ := Prod.mk.inj h
        simp [hsame]
      · exact hinit _ h
    · exact hinit _ h
  · next hfail =>
    obtain ⟨rfl, rfl⟩ := Prod.mk.inj h
    simp [hfail]

lemma AfcWorker.container_update (worker : AfcWorker) (id : Text) (device : AfcDevice)
    (id' appId : Text) : (worker.update id device).container id' appId =
      if id' = id then some (device.containers appId) else worker.container id' appId := by
  unfold AfcWorker.container AfcWorker.update
  by_cases h : id' = id
  · rw [if_pos h, h, Function.update_self]
    rfl
  · rw [if_neg h, Function.update_of_ne h]

/-- The worker after an operation that changed at most one container. -/
def AfcWorker.Put (worker worker' : AfcWorker) (afcUrl : AfcUrl) (c : Container) : Prop :=
  ∀ id appId, worker'.container id appId =
    if (id, appId) = (afcUrl.device, afcUrl.appId) then some c else worker.container id appId

def AfcWorker.Connects (worker : AfcWorker) (afcUrl : AfcUrl) (answers : ClientAnswers) : Prop :=
  ∃ device client device', worker afcUrl.device = some device ∧
    device.client afcUrl.appId answers = (.ok client, device')

/-- **An operation happens in the container of the client**, or not at all. -/
theorem clientForUrl_cases {operation : Container → Option (Outcome Container)}
    {o : Outcome AfcWorker} (h : worker.clientForUrl afcUrl answers operation = some o) :
    (¬ worker.Connects afcUrl answers ∧ o.result.success = false ∧
      ∀ id appId, o.state.container id appId = worker.container id appId) ∨
    worker.Connects afcUrl answers ∧ ∃ c o', worker.container afcUrl.device afcUrl.appId = some c ∧
      operation c = some o' ∧ o.result = o'.result ∧ o.killed = o'.killed ∧
      worker.Put o.state afcUrl o'.state := by
  unfold AfcWorker.clientForUrl at h
  cases hdev : worker afcUrl.device with
  | none =>
    simp only [hdev, Option.some.injEq] at h
    subst h
    refine Or.inl ⟨?_, rfl, fun _ _ => rfl⟩
    rintro ⟨device, _, _, hsome, -⟩
    rw [hdev] at hsome
    cases hsome
  | some device =>
    simp only [hdev] at h
    rcases hclient : device.client afcUrl.appId answers with ⟨result | client, device'⟩
    · simp only [hclient, Option.some.injEq] at h
      subst h
      obtain ⟨hcont, -, hfail⟩ := AfcDevice.client_spec hclient
      refine Or.inl ⟨?_, hfail _ rfl, fun id appId => ?_⟩
      · rintro ⟨device₁, client, device₂, hsome, hok⟩
        obtain rfl := Option.some.inj (hdev.symm.trans hsome)
        rw [hclient] at hok
        cases congrArg Prod.fst hok
      rw [AfcWorker.container_update]
      split
      · next heq => simp [AfcWorker.container, heq, hdev, hcont]
      · rfl
    · simp only [hclient] at h
      obtain ⟨hcont, hid, -⟩ := AfcDevice.client_spec hclient
      have hid := hid client rfl
      obtain ⟨o', ho', rfl⟩ := Option.map_eq_some_iff.mp h
      rw [hid, hcont] at ho'
      refine Or.inr ⟨⟨device, client, device', hdev, hclient⟩, _, o',
        by simp [AfcWorker.container, hdev], ho', rfl, rfl, fun id appId => ?_⟩
      dsimp only
      rw [AfcWorker.container_update, hid]
      by_cases h1 : id = afcUrl.device
      · by_cases h2 : appId = afcUrl.appId
        · simp [h1, h2, AfcDevice.setContainer]
        · simp [h1, h2, AfcDevice.setContainer, AfcWorker.container, hdev, hcont]
      · simp [h1]

lemma clientForUrl_last (hdev : worker afcUrl.device = some device)
    (hshake : device.handshakeSuccessful = true) (hlast : device.lastClient = some ⟨afcUrl.appId⟩)
    (answers : ClientAnswers) (operation : Container → Option (Outcome Container)) :
    worker.clientForUrl afcUrl answers operation =
      (operation (device.containers afcUrl.appId)).map fun o => ⟨o.result, o.killed,
        worker.update afcUrl.device (device.setContainer afcUrl.appId o.state)⟩ := by
  simp [AfcWorker.clientForUrl, hdev, AfcDevice.client, AfcDevice.handshake, hshake, hlast]

end KioExtras.Afc
