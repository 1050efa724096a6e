import KioExtras.Fish.Received
import KioExtras.Lib.Run

/-!
The operations of the worker on one connection, and the loop of `run` in which they wait for
the server.

A step of a session is a call of an operation, or one turn of the loop: a write of some bytes, a
read of a chunk, nothing, or an error, with a look at the kill flag at the end.
-/

namespace KioExtras.Fish

open KioExtras.Kio KioExtras.Lib.Run Text

/-- The operations; paths are those of the URLs, and both URLs of `rename` and `copy` are on the
same host unless said otherwise. -/
inductive Op
  | get (path : Text)
  | put (path : Text) (permissions : ℤ) (overwrite : Bool)
  | stat (path : Text)
  | mimetype (path : Text)
  | listDir (path : Text)
  | mkdir (path : Text) (permissions : ℤ)
  | rename (src path : Text) (overwrite sameHost : Bool)
  | symlink (target path : Text) (overwrite : Bool)
  | chmod (path : Text) (permissions : ℤ)
  | copy (src path : Text) (permissions : ℤ) (overwrite sameHost : Bool)
  | del (path : Text) (isFile : Bool)
  | exec (command path : Text)

namespace Op

def path : Op → Text
  | get path | put path _ _ | stat path | mimetype path | listDir path | mkdir path _
  | rename _ path _ _ | symlink _ path _ | chmod path _ | copy _ path _ _ _ | del path _
  | exec _ path => path

/-- The source of an operation whose URLs are on two hosts. -/
def otherHost : Op → Option Text
  | rename src _ _ false => some src
  | copy src _ _ _ false => some src
  | _ => none

end Op

namespace State

variable (env : Env)

/-- `openConnection`; `login` is what `connectionStart` returns. -/
def openConnection (login : WorkerResult) (s : State) : State × WorkerResult :=
  if s.childPid = true then (s, .pass)
  else
    let s := (s.sendCommand env .FISH []).sendCommand env .VER []
    if login.success = true then ({ s with childPid := true, thisFn := [] }, .pass)
    else (s.shutdownConnection, login)

/-- The check of the destination that comes before an operation that must not overwrite. -/
def checkDestination (overwrite : Bool) (s : State) : State :=
  if overwrite = false then
    ({ s with listReason := .CHECK, checkOverwrite := false } : State).sendCommand env .LIST
      [env.E s.url]
  else s

/-- `CHMOD` after an operation that makes something new. -/
def setPermissions (permissions : ℤ) (s : State) : State :=
  if -1 < permissions then
    s.sendCommand env .CHMOD [env.E (number 8 permissions.toNat), env.E s.url]
  else s

/-- The commands of an operation. -/
def enqueue (s : State) : Op → State
  | .get _ => ({ s with recvLen := -1 } : State).sendCommand env .RETR [env.E s.url]
  | .put _ permissions overwrite =>
    let s := { s with
      putPerm := permissions
      checkOverwrite := overwrite
      checkExist := false
      putPos := 0
      listReason := .CHECK }
    (s.sendCommand env .LIST [env.E s.url]).sendCommand env .STOR [ascii "0", env.E s.url]
  | .stat _ => s.sendCommand env .STAT [env.E (env.stripTrailingSlash s.url)]
  | .mimetype _ => ({ s with recvLen := 1024 } : State).sendCommand env .READ
      [ascii "0", ascii "1024", env.E s.url]
  | .listDir _ => ({ s with listReason := .LIST } : State).sendCommand env .LIST [env.E s.url]
  | .mkdir _ permissions => (s.sendCommand env .MKD [env.E s.url]).setPermissions env permissions
  | .rename src _ overwrite _ =>
    (s.checkDestination env overwrite).sendCommand env .RENAME
      [env.E (env.normalized src), env.E s.url]
  | .symlink target _ overwrite =>
    (s.checkDestination env overwrite).sendCommand env .SYMLINK [env.E target, env.E s.url]
  | .chmod _ permissions =>
    s.sendCommand env .CHMOD [env.E (number 8 permissions.toNat), env.E s.url]
  | .copy src _ permissions overwrite _ =>
    ((s.checkDestination env overwrite).sendCommand env .COPY
      [env.E (env.normalized src), env.E s.url]).setPermissions env permissions
  | .del _ isFile => s.sendCommand env (if isFile = true then .DELE else .RMD) [env.E s.url]
  | .exec command path => s.sendCommand env .EXEC [env.E command, env.E path]

/-- The path that has to be there for the commands to be sent; otherwise it is asked for. -/
def neededPath : Op → Text
  | .copy src _ _ _ _ => src
  | op => op.path

def startRun (s : State) : State × Option WorkerResult :=
  if s.isRunning = true then (s, some (.fail .ERR_UNKNOWN ""))
  else (({ s with isRunning := true } : State).finished env, none)

/-- An operation up to the loop of `run`, or its result where it does not get there. -/
def call (op : Op) (login : WorkerResult) (s : State) : State × Option WorkerResult :=
  match op.otherHost with
  | some src =>
    ((s.error .ERR_UNSUPPORTED_ACTION "").1,
      some (.fail .ERR_UNSUPPORTED_ACTION (env.toDisplayString src)))
  | none =>
    let (s, result) := openConnection env login { s with url := op.path }
    if result.success = false then (s, some result)
    else
      match op with
      | .exec _ _ => (s.enqueue env op).startRun env
      | _ =>
        let s := { s with url := env.normalized op.path }
        if env.normalized (neededPath op) = [] then (s.sendCommand env .PWD []).startRun env
        else
          match op with
          | .chmod _ permissions =>
            if permissions < 0 then (s, some .pass) else (s.enqueue env op).startRun env
          | _ => (s.enqueue env op).startRun env

def writeSome (n : ℕ) (s : State) : State :=
  let o := { s.out with
    written := s.out.written ++ (s.out.outBuf.drop s.out.outBufPos.toNat).take n
    outBufPos := s.out.outBufPos + n }
  if (o.outBuf.length : ℤ) ≤ o.outBufPos then
    sent { s with out := { o with outBufPos := -1, outBuf := [] } }
  else { s with out := o }

end State

/-- A session: the worker, and the bytes the loop of `run` keeps while it goes on. -/
structure Session where
  worker : State
  buf : Bytes
  inside : Bool
  returned : List WorkerResult

inductive Io
  | none
  | write (n : ℕ)
  | read (chunk : Bytes)
  | broken

inductive Label
  | call (op : Op) (login : WorkerResult)
  | turn (io : Io) (killed : Bool)

namespace Session

variable (env : Env) (connectionHost : String)

/-- The operation returns. -/
def leave (σ : Session) (worker : State) (result : WorkerResult) : Session where
  worker := worker
  buf := []
  inside := false
  returned := σ.returned ++ [result]

/-- The condition of the loop. -/
def goOn (σ : Session) (worker : State) (buf : Bytes) : Session :=
  if worker.isRunning = true then { σ with worker := worker, buf := buf, inside := true }
  else σ.leave worker .pass

/-- The look at the kill flag at the end of a turn. -/
def endTurn (σ : Session) (killed : Bool) (worker : State) (buf : Bytes) : Session :=
  if killed = true then σ.leave worker (.fail .ERR_UNKNOWN "") else σ.goOn worker buf

def turn (σ : Session) (io : Io) (killed : Bool) : Option Session :=
  match io with
  | .none => some (σ.endTurn killed σ.worker σ.buf)
  | .write n =>
    if 0 ≤ σ.worker.out.outBufPos ∧
        (n : ℤ) ≤ σ.worker.out.outBuf.length - σ.worker.out.outBufPos then
      some (σ.endTurn killed (σ.worker.writeSome n) σ.buf)
    else none
  | .read chunk =>
    let r := (⟨σ.worker, σ.buf, none⟩ : Reading).read env connectionHost chunk
    match r.failed with
    | some result => some (σ.leave r.worker result)
    | none => some (σ.endTurn killed r.worker r.buf)
  | .broken =>
    some (σ.leave σ.worker.shutdownConnection (.fail .ERR_CONNECTION_BROKEN connectionHost))

def step (σ : Session) : Label → Option Session
  | .call op login =>
    if σ.inside = true then none
    else
      match σ.worker.call env op login with
      | (worker, some result) => some (σ.leave worker result)
      | (worker, none) => some (σ.goOn worker [])
  | .turn io killed => if σ.inside = true then σ.turn env connectionHost io killed else none

/-- The worker as it is constructed, with what the application will hand out as data. -/
def initialWorker (toRead : List ReadData) : State where
  childPid := false
  out := Out.initial
  rawData := []
  sendLen := -1
  rawRead := 0
  dataRead := 0
  recvLen := -1
  mimeBuffer := List.replicate 1024 0
  mimeTypeSent := false
  isRunning := false
  commandList := []
  fishCommand := .FISH
  errorCount := 0
  listReason := .CHECK
  checkOverwrite := false
  checkExist := false
  hasAppend := false
  putPerm := 0
  putPos := 0
  url := []
  udsEntry := {}
  udsStatEntry := {}
  udsType := 0
  udsMime := none
  thisFn := []
  toRead := toRead
  signals := []

def initial (toRead : List ReadData) : Session := ⟨initialWorker toRead, [], false, []⟩

end Session

/-- A remote side with ASCII texts, and names that tell no mime type. -/
def asciiEnv : Env where
  CHECKSUM := "0"
  fishCode := ascii "#!/usr/bin/perl\n"
  E := fun text => text.map fun c => UInt8.ofNat c.toNat
  decode := fun bytes => bytes.map fun b => Char.ofNat b.toNat
  fromUtf8 := fun bytes => bytes.map fun b => Char.ofNat b.toNat
  mimeTypeForUrl := fun _ => none
  mimeTypeForFileNameAndData := fun _ _ => "application/octet-stream".toList
  currentDateTime := ⟨2024, 1, 1, 0, 0, 0⟩
  toSecsSinceEpoch := fun _ => 0
  normalized := id
  stripTrailingSlash := id
  toDisplayString := String.ofList

end KioExtras.Fish
