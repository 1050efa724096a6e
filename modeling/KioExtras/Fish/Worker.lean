import KioExtras.Fish.Text
import KioExtras.Kio
import Mathlib

/-!
The worker of the fish protocol: its members, what it sends and what it makes of a line of a
response.

A response consists of lines. A line that starts with `### ` and a number says that the command
goes on (100) or how it ended; other lines are its output.
-/

namespace KioExtras.Fish

open KioExtras.Kio Text

def S_IFIFO : ℕ := 0o010000
def S_IFCHR : ℕ := 0o020000
def S_IFDIR : ℕ := 0o040000
def S_IFBLK : ℕ := 0o060000
def S_IFREG : ℕ := 0o100000
def S_IFLNK : ℕ := 0o120000
def S_IFSOCK : ℕ := 0o140000

structure DateTime where
  year : ℤ
  month : ℤ
  day : ℤ
  hour : ℤ
  minute : ℤ
  second : ℤ
  deriving DecidableEq

/-- The fields the parser sets. -/
structure UDSEntry where
  UDS_NAME : Option Text := none
  UDS_ACCESS : Option ℕ := none
  UDS_USER : Option Text := none
  UDS_GROUP : Option Text := none
  UDS_SIZE : Option ℤ := none
  UDS_MODIFICATION_TIME : Option ℤ := none
  UDS_LINK_DEST : Option Text := none
  UDS_MIME_TYPE : Option Text := none
  UDS_FILE_TYPE : Option ℕ := none
  deriving DecidableEq

/-- What the worker does not decide itself: the perl server it carries along, the encoding of the
remote side (`E` is the text as a C string, `fromUtf8` a C string as a text), the mime types, the
calendar, and how a path is cleaned and shown. -/
structure Env where
  CHECKSUM : String
  fishCode : Bytes
  E : Text → Bytes
  decode : Bytes → Text
  fromUtf8 : Bytes → Text
  mimeTypeForUrl : Text → Option Text
  mimeTypeForFileNameAndData : Text → Bytes → Text
  currentDateTime : DateTime
  toSecsSinceEpoch : DateTime → ℤ
  normalized : Text → Text
  stripTrailingSlash : Text → Text
  toDisplayString : Text → String

/-- What the application sees, and the lines given to `manageConnection`. The bytes of one call
of `data` stand one by one. -/
inductive Signal
  | line (line : Text)
  | data (byte : UInt8)
  | dataEnd
  | dataReq
  | listEntry (entry : UDSEntry)
  | mimeType (name : Text)
  | redirection (path : Text)
  | statEntry (entry : UDSEntry)
  | totalSize (size : ℤ)
  deriving DecidableEq

/-- What a call of `readData` brings: a buffer, empty at the end, or an error that leaves one. -/
inductive ReadData
  | chunk (buffer : Bytes)
  | error (buffer : Bytes)

inductive ListReason
  | CHECK
  | LIST
  deriving DecidableEq

/-! ### Sending -/

/-- The members that hold what is to be written. The rest is kept for the proofs: `handed`
says that the first of `qlist` has gone through `writeChild`, `written` what `::write` has
taken, `due` what it should be given in all, `discarded` that a call of `writeChild` has
dropped its argument, `dropped` that a command left `qlist` before it was written. -/
structure Out where
  outBuf : Bytes
  outBufPos : ℤ
  qlist : List Bytes
  writeReady : Bool
  rawWrite : ℤ
  handed : Bool
  written : Bytes
  due : Bytes
  discarded : Bool
  dropped : Bool
  deriving DecidableEq

namespace Out

/-- After `shutdownConnection`. -/
def initial : Out where
  outBuf := []
  outBufPos := -1
  qlist := []
  writeReady := true
  rawWrite := -1
  handed := false
  written := []
  due := []
  discarded := false
  dropped := false

variable (o : Out)

def busy : Bool := decide (0 ≤ o.outBufPos) && !o.outBuf.isEmpty

def writeChild (buf : Bytes) : Out :=
  if o.busy = true then { o with discarded := o.discarded || !buf.isEmpty }
  else { o with outBuf := buf, outBufPos := 0 }

def writeFirst : Out :=
  match o.qlist with
  | [] => o
  | first :: _ => { o.writeChild first with handed := !o.busy }

def writeStdin (line : Bytes) : Out :=
  let o := { o with qlist := o.qlist ++ [line], due := o.due ++ line }
  if o.writeReady = true then writeFirst { o with writeReady := false } else o

/-- The newlines behind the raw data. -/
def padding : Bytes := List.replicate 15 10

def beginBody (rawData : Bytes) (sendLen : ℤ) : Out :=
  writeChild { o with
    rawWrite := sendLen
    due := if 0 ≤ sendLen then o.due ++ rawData.take sendLen.toNat ++ padding else o.due } []

/-- The part of `sent` that goes on with `qlist`. -/
def nextLine : Out :=
  let o := { o with
    qlist := o.qlist.tail
    dropped := o.dropped || (!o.qlist.isEmpty && !o.handed)
    handed := false }
  if o.qlist = [] then { o with writeReady := true } else writeFirst o

end Out

/-- `childPid` is kept as whether there is a child; a command stands with its code. -/
structure State where
  childPid : Bool
  out : Out
  rawData : Bytes
  sendLen : ℤ
  rawRead : ℤ
  dataRead : ℕ
  recvLen : ℤ
  mimeBuffer : Bytes
  mimeTypeSent : Bool
  isRunning : Bool
  commandList : List (Command × Text)
  fishCommand : Command
  errorCount : ℤ
  listReason : ListReason
  checkOverwrite : Bool
  checkExist : Bool
  hasAppend : Bool
  putPerm : ℤ
  putPos : ℕ
  url : Text
  udsEntry : UDSEntry
  udsStatEntry : UDSEntry
  udsType : ℕ
  udsMime : Option Text
  thisFn : Text
  toRead : List ReadData
  signals : List Signal

/-- What `manageConnection` does after the members have been set. -/
inductive Next
  | go
  | finished
  | fail (result : WorkerResult)

def ascii (text : String) : Bytes := text.toList.map fun c => UInt8.ofNat c.toNat

namespace State

variable (env : Env) (s : State)

def emit (signal : Signal) : State := { s with signals := s.signals ++ [signal] }

def shutdownConnection : State :=
  { s with
    childPid := false
    out := Out.initial
    commandList := []
    isRunning := false
    rawRead := 0
    recvLen := -1
    sendLen := -1 }

def error (type : Error) (detail : String) : State × Next :=
  ({ s with commandList := [], isRunning := false }, .fail (.fail type detail))

/-- `readData(rawData)`: whether it is positive, and the buffer. -/
def readData : Bool × State :=
  let s := s.emit .dataReq
  match s.toRead with
  | [] => (false, { s with rawData := [] })
  | .chunk buffer :: rest => (!buffer.isEmpty, { s with rawData := buffer, toRead := rest })
  | .error buffer :: rest => (false, { s with rawData := buffer, toRead := rest })

/-- The buffer has been written. -/
def sent : State :=
  if 0 < s.out.rawWrite then
    let s := { s with out := { s.out.writeChild (s.rawData.take s.out.rawWrite.toNat) with
      rawWrite := s.out.rawWrite - s.rawData.length } }
    if 0 < s.out.rawWrite then
      let (more, s) := s.readData
      if more = true then s else s.shutdownConnection
    else s
  else if s.out.rawWrite = 0 then
    { s with out := { s.out.writeChild Out.padding with rawWrite := -1 } }
  else { s with out := s.out.nextLine }

def sendCommand (cmd : Command) (args : List Bytes) : State :=
  { s with commandList := s.commandList ++
      [(cmd, commandText (fishInfo env.CHECKSUM cmd) (args.map env.fromUtf8))] }

/-- The next command, or the end of the sequence. -/
def finished : State :=
  match s.commandList with
  | [] => { s with isRunning := false }
  | (cmd, text) :: rest =>
    { s with
      fishCommand := cmd
      errorCount := -((fishInfo env.CHECKSUM cmd).lines : ℤ)
      rawRead := 0
      udsEntry := {}
      udsStatEntry := {}
      out := Out.writeStdin { s.out with rawWrite := -1 } (env.E text)
      commandList := rest }

end State

/-! ### Lines of a listing -/

/-- `QChar::cell`: the low byte of the first UTF-16 unit. -/
def cell (c : Char) : Char :=
  if c.toNat < 0x10000 then Char.ofNat (c.toNat % 256)
  else Char.ofNat ((0xd800 + (c.toNat - 0x10000) / 1024) % 256)

def monthNames : List Text :=
  ["Jan", "Feb", "Mar", "Apr", "May", "Jun", "Jul", "Aug", "Sep", "Oct", "Nov", "Dec"].map
    String.toList

/-- What is left of a `qint64` in an `int`. -/
def narrow (n : ℤ) : ℤ := n.bmod (2 ^ 32)

/-- The time of `ls`: a time of day in the last year, or a year. -/
def makeTimeFromLs (env : Env) (monthStr dayStr timeyearStr : Text) : ℤ :=
  let dt := env.currentDateTime
  let day := (toInt dayStr).getD 0
  let month :=
    match monthNames.findIdx? (startsWith · monthStr) with
    | some i => (i : ℤ) + 1
    | none => dt.month
  match indexOf ':' 0 timeyearStr with
  | none =>
    if timeyearStr.length = 4 then
      narrow (env.toSecsSinceEpoch
        { dt with year := (toInt timeyearStr).getD 0, month := month, day := day })
    else 0
  | some pos =>
    let year := if dt.month + 1 < month then dt.year - 1 else dt.year
    narrow (env.toSecsSinceEpoch
      { year := year, month := month, day := day
        hour := (toInt (timeyearStr.take pos)).getD 0
        minute := (toInt (timeyearStr.drop (pos + 1))).getD 0
        second := 0 })

/-- The permission bits of a line `P`. -/
def accessVal (line : Text) : ℕ :=
  (if at' 2 line = 'r' then 0o400 else 0) +
  (if at' 3 line = 'w' then 0o200 else 0) +
  (if at' 4 line = 'x' ∨ at' 4 line = 's' then 0o100 else 0) +
  (if at' 4 line = 'S' ∨ at' 4 line = 's' then 0o4000 else 0) +
  (if at' 5 line = 'r' then 0o040 else 0) +
  (if at' 6 line = 'w' then 0o020 else 0) +
  (if at' 7 line = 'x' ∨ at' 7 line = 's' then 0o010 else 0) +
  (if at' 7 line = 'S' ∨ at' 7 line = 's' then 0o2000 else 0) +
  (if at' 8 line = 'r' then 0o004 else 0) +
  (if at' 9 line = 'w' then 0o002 else 0) +
  (if at' 10 line = 'x' ∨ at' 10 line = 't' then 0o001 else 0) +
  (if at' 10 line = 'T' ∨ at' 10 line = 't' then 0o1000 else 0)

def fileType (c : Char) : Option ℕ :=
  if c = '-' then some S_IFREG
  else if c = 'l' then some S_IFLNK
  else if c = 'c' then some S_IFCHR
  else if c = 'b' then some S_IFBLK
  else if c = 's' then some S_IFSOCK
  else if c = 'p' then some S_IFIFO
  else none

def inodeDirectory : Text := "inode/directory".toList

namespace State

variable (env : Env)

variable (s : State)

/-- A line `P`, the rest of it: permissions, owner and group. -/
def lineAccess (line : Text) : State :=
  let s := { s with udsEntry := { s.udsEntry with UDS_ACCESS := some (accessVal line) } }
  match indexOf ':' 12 line with
  | none => { s with errorCount := s.errorCount + 1 }
  | some pos =>
    { s with udsEntry := { s.udsEntry with
      UDS_USER := some (mid 12 (pos - 12) line)
      UDS_GROUP := some (line.drop (pos + 1)) } }

def lineP (line : Text) : State :=
  let line := units 12 line
  let s := { s with errorCount := s.errorCount - 1 }
  if at' 1 line = 'd' then
    lineAccess { s with udsMime := some inodeDirectory, udsType := S_IFDIR } line
  else
    match fileType (at' 1 line) with
    | some type => lineAccess { s with udsType := type } line
    | none => { s with errorCount := s.errorCount + 1 }

/-- A line `d`: the time as `ls` has it. -/
def lineLsTime (line : Text) : State :=
  match indexOf ' ' 0 line with
  | none => s
  | some pos =>
    match indexOf ' ' (pos + 1) line with
    | none => s
    | some pos2 =>
      { s with
        errorCount := s.errorCount - 1
        udsEntry := { s.udsEntry with
          UDS_MODIFICATION_TIME := some (makeTimeFromLs env (mid 1 (pos - 1) line)
            (mid (pos + 1) (pos2 - pos) line) (line.drop (pos2 + 1))) } }

/-- Three numbers with a blank between them from `start` on, and what follows the third: the
position of the blank behind it, or the rest of the line. -/
def threeInts (start : ℕ) (line : Text) (more : Bool) : Option (ℤ × ℤ × ℤ × ℕ) :=
  match indexOf ' ' start line with
  | none => none
  | some pos =>
    match indexOf ' ' (pos + 1) line with
    | none => none
    | some pos2 =>
      let first := (toInt (mid start (pos - start) line)).getD 0
      let second := (toInt (mid (pos + 1) (pos2 - pos - 1) line)).getD 0
      if more = true then
        match indexOf ' ' (pos2 + 1) line with
        | none => none
        | some pos3 =>
          some (first, second, (toInt (mid (pos2 + 1) (pos3 - pos2 - 1) line)).getD 0, pos3)
      else some (first, second, (toInt (line.drop (pos2 + 1))).getD 0, line.length)

/-- A line `D`: year, month, day, hour, minute, second. -/
def lineTime (line : Text) : State :=
  match threeInts 1 line true with
  | none => s
  | some (year, month, day, pos) =>
    match threeInts (pos + 1) line false with
    | none => s
    | some (hour, minute, second, _) =>
      { s with
        errorCount := s.errorCount - 1
        udsEntry := { s.udsEntry with
          UDS_MODIFICATION_TIME :=
            some (env.toSecsSinceEpoch ⟨year, month, day, hour, minute, second⟩) } }

def lineSize (line : Text) : State :=
  match toLongLong (line.drop 1) with
  | none => s
  | some size =>
    { s with
      errorCount := s.errorCount - 1
      udsEntry := { s.udsEntry with UDS_SIZE := some size } }

/-- A line `:`. The mime type comes from the name where the name tells it. -/
def lineName (line : Text) : State :=
  let thisFn := afterLastSlash 1 line
  let s := { s with thisFn := thisFn, errorCount := s.errorCount - 1 }
  let s :=
    if s.fishCommand = .LIST then { s with udsEntry := { s.udsEntry with UDS_NAME := some thisFn } }
    else s
  if s.udsMime ≠ some inodeDirectory then
    match env.mimeTypeForUrl thisFn with
    | none => s
    | some mime => { s with udsMime := some mime }
  else s

/-- A line `M`: what `file` says, where the mime type is not known yet. A link to a directory
becomes a directory. -/
def lineMime (line : Text) : State :=
  let s := { s with errorCount := s.errorCount - 1 }
  if s.udsMime.getD [] = [] ∧ right 8 line ≠ "/unknown".toList ∧
      ('.' ∉ s.thisFn ∨ (line.take 8 ≠ "Mtext/x-".toList ∧ line ≠ "Mtext/plain".toList)) then
    let s := { s with udsMime := some (line.drop 1) }
    if line.drop 1 = inodeDirectory then { s with udsType := S_IFDIR } else s
  else s

def lineLink (line : Text) : State :=
  { s with
    udsEntry := { s.udsEntry with UDS_LINK_DEST := some (line.drop 1) }
    udsType := if s.udsType = 0 then S_IFLNK else s.udsType
    errorCount := s.errorCount - 1 }

def lineNumber (line : Text) : State :=
  let val := toLongLong line
  let s := if 0 < val.getD 0 then { s with errorCount := s.errorCount - 1 } else s
  if s.fishCommand = .LIST ∧ s.listReason = .LIST then s.emit (.totalSize (val.getD 0)) else s

def lineEnd : State :=
  let s :=
    match s.udsMime with
    | none => s
    | some mime => { s with udsEntry := { s.udsEntry with UDS_MIME_TYPE := some mime } }
  let s := { s with
    udsMime := none
    udsEntry := { s.udsEntry with UDS_FILE_TYPE := some s.udsType }
    udsType := 0 }
  let s :=
    if s.fishCommand = .STAT then { s with udsStatEntry := s.udsEntry }
    else if s.listReason = .LIST then s.emit (.listEntry s.udsEntry)
    else { s with checkExist := true }
  { s with errorCount := s.errorCount - 1, udsEntry := {} }

/-- The output of `LIST` and `STAT`, with the first unit of a line apart. -/
def listUnits (line : Text) : State :=
  match line with
  | [] => s.lineEnd
  | c :: _ =>
    if (cell c).isDigit then s.lineNumber line
    else if cell c = 'P' then s.lineP line
    else if cell c = 'd' then s.lineLsTime env line
    else if cell c = 'D' then s.lineTime env line
    else if cell c = 'S' then s.lineSize line
    else if cell c = 'E' then { s with errorCount := s.errorCount - 1 }
    else if cell c = ':' then s.lineName env line
    else if cell c = 'M' then s.lineMime line
    else if cell c = 'L' then s.lineLink line
    else s

def listLine (line : Text) : State := s.listUnits env (units 1 line)

/-- The lines of a listing set these members only. -/
def Listing (t : State) : Prop :=
  ∃ errorCount udsEntry udsStatEntry udsType udsMime thisFn checkExist signals, t = { s with
    errorCount := errorCount
    udsEntry := udsEntry
    udsStatEntry := udsStatEntry
    udsType := udsType
    udsMime := udsMime
    thisFn := thisFn
    checkExist := checkExist
    signals := signals }

lemma Listing.refl : Listing s s := ⟨_, _, _, _, _, _, _, _, rfl⟩

lemma lineAccess_listing (line : Text) : Listing s (s.lineAccess line) := by
  unfold lineAccess
  dsimp only
  split <;> exact ⟨_, _, _, _, _, _, _, _, rfl⟩

lemma Listing.trans {s t u : State} (h : Listing s t) (h' : Listing t u) : Listing s u := by
  obtain ⟨_, _, _, _, _, _, _, _, rfl⟩ := h
  obtain ⟨_, _, _, _, _, _, _, _, rfl⟩ := h'
  exact ⟨_, _, _, _, _, _, _, _, rfl⟩

lemma Listing.rawRead {s t : State} (h : Listing s t) : t.rawRead = s.rawRead := by
  obtain ⟨_, _, _, _, _, _, _, _, rfl⟩ := h
  rfl

lemma lineP_listing (line : Text) : Listing s (s.lineP line) := by
  unfold lineP
  dsimp only
  split_ifs
  · exact Listing.trans ⟨_, _, _, _, _, _, _, _, rfl⟩ (lineAccess_listing _ _)
  · split
    · exact Listing.trans ⟨_, _, _, _, _, _, _, _, rfl⟩ (lineAccess_listing _ _)
    · exact ⟨_, _, _, _, _, _, _, _, rfl⟩

lemma lineLsTime_listing (line : Text) : Listing s (s.lineLsTime env line) := by
  unfold lineLsTime
  split
  · exact Listing.refl s
  · split <;> exact ⟨_, _, _, _, _, _, _, _, rfl⟩

lemma lineTime_listing (line : Text) : Listing s (s.lineTime env line) := by
  unfold lineTime
  split
  · exact Listing.refl s
  · split <;> exact ⟨_, _, _, _, _, _, _, _, rfl⟩

lemma lineSize_listing (line : Text) : Listing s (s.lineSize line) := by
  unfold lineSize
  split <;> exact ⟨_, _, _, _, _, _, _, _, rfl⟩

lemma lineName_listing (line : Text) : Listing s (s.lineName env line) := by
  unfold lineName
  dsimp only
  split_ifs
  · split <;> exact ⟨_, _, _, _, _, _, _, _, rfl⟩
  · exact ⟨_, _, _, _, _, _, _, _, rfl⟩
  · split <;> exact ⟨_, _, _, _, _, _, _, _, rfl⟩
  · exact ⟨_, _, _, _, _, _, _, _, rfl⟩

lemma lineMime_listing (line : Text) : Listing s (s.lineMime line) := by
  unfold lineMime
  dsimp only
  split_ifs <;> exact ⟨_, _, _, _, _, _, _, _, rfl⟩

lemma lineNumber_listing (line : Text) : Listing s (s.lineNumber line) := by
  unfold lineNumber
  dsimp only
  split_ifs <;> exact ⟨_, _, _, _, _, _, _, _, rfl⟩

lemma lineEnd_listing : Listing s s.lineEnd := by
  unfold lineEnd
  dsimp only
  split <;> split_ifs <;> exact ⟨_, _, _, _, _, _, _, _, rfl⟩

lemma listLine_listing (line : Text) : Listing s (s.listLine env line) := by
  unfold listLine listUnits
  split
  · exact lineEnd_listing s
  · split_ifs
    · exact lineNumber_listing s _
    · exact lineP_listing s _
    · exact lineLsTime_listing env s _
    · exact lineTime_listing env s _
    · exact lineSize_listing s _
    · exact ⟨_, _, _, _, _, _, _, _, rfl⟩
    · exact lineName_listing env s _
    · exact lineMime_listing s _
    · exact ⟨_, _, _, _, _, _, _, _, rfl⟩
    · exact Listing.refl s

/-! ### Responses -/

def respondLine (line : Text) : State × Next :=
  match s.fishCommand with
  | .VER =>
    if startsWith "VER 0.0.3".toList line = true then
      ({ s with hasAppend := contains " append ".toList (line ++ [' ']) }, .go)
    else s.shutdownConnection.error .ERR_UNSUPPORTED_PROTOCOL (String.ofList line)
  | .PWD => (({ s with url := line } : State).emit (.redirection line), .go)
  | .LIST => (s.listLine env line, .go)
  | .STAT => (s.listLine env line, .go)
  | .RETR =>
    if line = [] then ({ s with recvLen := 0 } : State).error .ERR_IS_DIRECTORY
      (env.toDisplayString s.url)
    else
      match toLongLong line with
      | none => s.shutdownConnection.error .ERR_CANNOT_READ (env.toDisplayString s.url)
      | some recvLen => ({ s with recvLen := recvLen }, .go)
  | _ => (s, .go)

/-- `### 100` for a command that answers with raw data. -/
def beginRead : State × Next :=
  if s.recvLen = -1 then s.shutdownConnection.error .ERR_CANNOT_READ (env.toDisplayString s.url)
  else
    let s := { s with rawRead := s.recvLen, dataRead := 0, mimeTypeSent := false }
    if s.recvLen = 0 then
      (({ s with mimeTypeSent := true } : State).emit (.mimeType "application/x-zerosize".toList),
        .go)
    else (s, .go)

/-- The server waits for something or has raw data. -/
def respond100 : State × Next :=
  match s.fishCommand with
  | .FISH => ({ s with out :=
      { s.out.writeChild env.fishCode with due := s.out.due ++ env.fishCode } }, .go)
  | .READ => beginRead env { s with recvLen := 1024 }
  | .RETR => beginRead env s
  | .STOR => ({ s with out := s.out.beginBody s.rawData s.sendLen }, .go)
  | .WRITE => ({ s with out := s.out.beginBody s.rawData s.sendLen }, .go)
  | .APPEND => ({ s with out := s.out.beginBody s.rawData s.sendLen }, .go)
  | _ => (s, .go)

/-- The command has failed. -/
def respondError (rc : ℤ) (line : Text) : State × Next :=
  let detail := env.toDisplayString s.url
  match s.fishCommand with
  | .STOR | .WRITE | .APPEND => s.shutdownConnection.error .ERR_CANNOT_WRITE detail
  | .RETR => s.shutdownConnection.error .ERR_CANNOT_READ detail
  | .READ =>
    if rc = 501 then
      (({ s with mimeTypeSent := true, recvLen := 0 } : State).emit (.mimeType inodeDirectory),
        .finished)
    else s.shutdownConnection.error .ERR_CANNOT_READ detail
  | .FISH | .VER => s.shutdownConnection.error .ERR_WORKER_DEFINED (String.ofList line)
  | .PWD | .CWD => s.error .ERR_CANNOT_ENTER_DIRECTORY detail
  | .LIST =>
    if s.listReason = .LIST then s.error .ERR_CANNOT_ENTER_DIRECTORY detail
    else ({ s with checkExist := false }, .finished)
  | .STAT => ({ s with udsStatEntry := {} } : State).error .ERR_DOES_NOT_EXIST detail
  | .CHMOD => s.error .ERR_CANNOT_CHMOD detail
  | .CHOWN | .CHGRP => s.error .ERR_ACCESS_DENIED detail
  | .MKD => s.error (if rc = 501 then .ERR_DIR_ALREADY_EXIST else .ERR_CANNOT_MKDIR) detail
  | .RMD => s.error .ERR_CANNOT_RMDIR detail
  | .DELE => s.error .ERR_CANNOT_DELETE detail
  | .RENAME => s.error .ERR_CANNOT_RENAME detail
  | .COPY | .LINK | .SYMLINK => s.error .ERR_CANNOT_WRITE detail
  | .EXEC => (s, .go)

def fileName (path : Text) : Text := afterLastSlash 0 path

/-- `CHMOD` follows the last chunk of a new file. -/
def chmodNew : State :=
  if s.checkExist = false ∧ -1 < s.putPerm then
    s.sendCommand env .CHMOD [env.E (number 8 s.putPerm.toNat), env.E s.url]
  else s

def nextAppend : State :=
  let (more, s) := s.readData
  let s :=
    if more = true then
      s.sendCommand env .APPEND [env.E (number 10 s.rawData.length), env.E s.url]
    else s.chmodNew env
  { s with sendLen := s.rawData.length }

def nextWrite : State :=
  let (more, s) := s.readData
  let s :=
    if more = true then
      s.sendCommand env .WRITE
        [env.E (number 10 s.putPos), env.E (number 10 s.rawData.length), env.E s.url]
    else s.chmodNew env
  { s with putPos := s.putPos + s.rawData.length, sendLen := s.rawData.length }

/-- `STOR` goes on as one of the other two. -/
def afterStor : State :=
  if s.fishCommand = .STOR then
    { s with fishCommand := if s.hasAppend = true then .APPEND else .WRITE }
  else s

/-- The command is done; `STOR` and the commands after it ask for the next chunk. -/
def respondOk : State × Next :=
  let s := s.afterStor
  match s.fishCommand with
  | .LIST =>
    if s.listReason = .CHECK ∧ s.checkOverwrite = false ∧ s.checkExist = true then
      s.error .ERR_FILE_ALREADY_EXIST (env.toDisplayString s.url)
    else (s, .finished)
  | .STAT =>
    let entry := { s.udsStatEntry with UDS_NAME := some (fileName s.url) }
    (({ s with udsStatEntry := entry } : State).emit (.statEntry entry), .finished)
  | .APPEND => (s.nextAppend env, .finished)
  | .WRITE => (s.nextWrite env, .finished)
  | .RETR => (s.emit .dataEnd, .finished)
  | _ => (s, .finished)

end State

/-- The number of a response, 0 for a line of output, and the count of the lines that were not
expected. 000 and 001 stand for success if there were none. -/
def handleResponse (errorCount : ℤ) (str : Text) : ℤ × ℤ :=
  if startsWith "### ".toList str = true then
    let result := (toInt (mid 4 3 str)).getD 500
    let result := if result = 0 then (if errorCount ≠ 0 then 500 else 200) else result
    let result := if result = 1 then (if errorCount ≠ 0 then 500 else 100) else result
    (result, errorCount)
  else (0, errorCount + 1)

namespace State

variable (env : Env)

variable (s : State)

/-- What a line of the response sets, and how it goes on. -/
def respond (line : Text) : State × Next :=
  let (rc, errorCount) := handleResponse s.errorCount line
  let s := { s with errorCount := errorCount }
  if rc = 0 then s.respondLine env line
  else if rc = 100 then s.respond100 env
  else if rc.tdiv 100 ≠ 2 then s.respondError env rc line
  else s.respondOk env

def manageConnection (l : Text) : State × WorkerResult :=
  match s.respond env l with
  | (s, .go) => (s, .pass)
  | (s, .finished) => (s.finished env, .pass)
  | (s, .fail result) => (s, result)

/-! ### What a response leaves as it is -/

/-- What an error leaves: no command, and the connection as it was or none. -/
structure Failed (s t : State) : Prop where
  isRunning : t.isRunning = false
  commandList : t.commandList = []
  mimeBuffer : t.mimeBuffer = s.mimeBuffer
  rawData : t.rawData = s.rawData
  connection : (t.childPid = s.childPid ∧ t.out = s.out ∧ t.sendLen = s.sendLen) ∨
    (t.childPid = false ∧ t.out = Out.initial ∧ t.sendLen = -1)

/-- `P` holds of the state that is left, unless the command failed with an error. -/
def Unless (P : State → Prop) : State × Next → Prop
  | (t, .fail result) => result.success = false ∧ Failed s t
  | (t, _) => P t

variable {P : State → Prop}

lemma error_unless (s : State) (type : Error) (detail : String) :
    Unless s P (s.error type detail) :=
  ⟨rfl, rfl, rfl, rfl, rfl, Or.inl ⟨rfl, rfl, rfl⟩⟩

lemma shutdown_unless (s : State) (type : Error) (detail : String) :
    Unless s P (s.shutdownConnection.error type detail) :=
  ⟨rfl, rfl, rfl, rfl, rfl, Or.inr ⟨rfl, rfl, rfl⟩⟩

/-- The members that say where in a response the worker stands. -/
def SameReading (t : State) : Prop :=
  t.childPid = s.childPid ∧ t.mimeBuffer = s.mimeBuffer ∧
    (t.dataRead = 0 ∨ (t.rawRead = s.rawRead ∧ t.dataRead = s.dataRead ∧
      (t.mimeTypeSent = false → s.mimeTypeSent = false)))

lemma SameReading.refl : SameReading s s :=
  ⟨rfl, rfl, Or.inr ⟨rfl, rfl, id⟩⟩

lemma SameReading.trans {s t u : State} (h : SameReading s t) (h' : SameReading t u) :
    SameReading s u := by
  obtain ⟨hc, hb, hr⟩ := h
  obtain ⟨hc', hb', hr'⟩ := h'
  refine ⟨hc'.trans hc, hb'.trans hb, ?_⟩
  rcases hr' with h0 | ⟨hraw, hdata, hsent⟩
  · exact Or.inl h0
  · rcases hr with h0 | ⟨hraw', hdata', hsent'⟩
    · exact Or.inl (hdata.trans h0)
    · exact Or.inr ⟨hraw.trans hraw', hdata.trans hdata', fun h => hsent' (hsent h)⟩

lemma Listing.sameReading {s t : State} (h : Listing s t) : SameReading s t := by
  obtain ⟨_, _, _, _, _, _, _, _, rfl⟩ := h
  exact SameReading.refl s

lemma respondLine_reading (line : Text) : Unless s (SameReading s) (s.respondLine env line) := by
  unfold respondLine
  split
  · split_ifs
    · exact SameReading.refl s
    · exact shutdown_unless s _ _
  · exact SameReading.refl s
  · exact (listLine_listing env s line).sameReading
  · exact (listLine_listing env s line).sameReading
  · split_ifs
    · exact ⟨rfl, rfl, rfl, rfl, rfl, Or.inl ⟨rfl, rfl, rfl⟩⟩
    · split
      · exact shutdown_unless s _ _
      · exact SameReading.refl s
  · exact SameReading.refl s

lemma beginRead_reading : Unless s (SameReading s) (s.beginRead env) := by
  unfold beginRead
  dsimp only
  split_ifs
  · exact shutdown_unless s _ _
  · exact ⟨rfl, rfl, Or.inl rfl⟩
  · exact ⟨rfl, rfl, Or.inl rfl⟩

lemma respond100_reading : Unless s (SameReading s) (s.respond100 env) := by
  unfold respond100
  split
  · exact SameReading.refl s
  · exact beginRead_reading env { s with recvLen := 1024 }
  · exact beginRead_reading env s
  · exact SameReading.refl s
  · exact SameReading.refl s
  · exact SameReading.refl s
  · exact SameReading.refl s

lemma respondError_reading (rc : ℤ) (line : Text) :
    Unless s (SameReading s) (s.respondError env rc line) := by
  unfold respondError
  dsimp only
  split
  case h_5 =>
    split_ifs
    · exact ⟨rfl, rfl, Or.inr ⟨rfl, rfl, fun h => absurd h (by simp [emit])⟩⟩
    · exact shutdown_unless s _ _
  case h_10 =>
    split_ifs
    · exact error_unless s _ _
    · exact SameReading.refl s
  all_goals first
    | exact error_unless s _ _
    | exact shutdown_unless s _ _
    | exact ⟨rfl, rfl, rfl, rfl, rfl, Or.inl ⟨rfl, rfl, rfl⟩⟩
    | exact SameReading.refl s

lemma readData_reading : SameReading s s.readData.2 := by
  unfold readData
  dsimp only
  split <;> exact SameReading.refl s

lemma chmodNew_reading : SameReading s (s.chmodNew env) := by
  unfold chmodNew
  split_ifs <;> exact SameReading.refl s

lemma nextAppend_reading : SameReading s (s.nextAppend env) := by
  have hread := readData_reading s
  unfold nextAppend
  dsimp only
  split_ifs
  · exact hread
  · exact hread.trans (chmodNew_reading env s.readData.2)

lemma nextWrite_reading : SameReading s (s.nextWrite env) := by
  have hread := readData_reading s
  unfold nextWrite
  dsimp only
  split_ifs
  · exact hread
  · exact hread.trans (chmodNew_reading env s.readData.2)

lemma afterStor_reading : SameReading s s.afterStor := by
  unfold afterStor
  split_ifs <;> exact SameReading.refl s

lemma afterStor_error (type : Error) (detail : String) :
    Unless s P (s.afterStor.error type detail) := by
  unfold afterStor
  split_ifs <;> exact ⟨rfl, rfl, rfl, rfl, rfl, Or.inl ⟨rfl, rfl, rfl⟩⟩

lemma respondOk_reading : Unless s (SameReading s) (s.respondOk env) := by
  have hstor := afterStor_reading s
  unfold respondOk
  dsimp only
  split
  · split_ifs
    · exact afterStor_error s _ _
    · exact hstor
  · exact hstor
  · exact hstor.trans (nextAppend_reading env s.afterStor)
  · exact hstor.trans (nextWrite_reading env s.afterStor)
  · exact hstor
  · exact hstor

lemma Unless.ofErrorCount {s : State} {count : ℤ} {x : State × Next}
    (h : Unless { s with errorCount := count } (SameReading { s with errorCount := count }) x) :
    Unless s (SameReading s) x := by
  obtain ⟨t, next⟩ := x
  cases next with
  | go => exact h
  | finished => exact h
  | fail result =>
    obtain ⟨hsuccess, hfailed⟩ := h
    exact ⟨hsuccess, hfailed.1, hfailed.2, hfailed.3, hfailed.4, hfailed.5⟩

lemma respond_reading (line : Text) : Unless s (SameReading s) (s.respond env line) := by
  unfold respond
  dsimp only
  split_ifs
  · exact (respondLine_reading env { s with errorCount := _ } line).ofErrorCount
  · exact (respond100_reading env { s with errorCount := _ }).ofErrorCount
  · exact (respondError_reading env { s with errorCount := _ } _ line).ofErrorCount
  · exact (respondOk_reading env { s with errorCount := _ }).ofErrorCount

end State

end KioExtras.Fish
