/-!
The vocabulary the workers share: error codes, the result of an operation and the flags of a
job.
-/

namespace KioExtras.Kio

/-- `code` is an error number that a dialog hands through. -/
inductive Error
  | code (n : Int)
  | ERR_ACCESS_DENIED
  | ERR_CANNOT_CHMOD
  | ERR_CANNOT_CONNECT
  | ERR_CANNOT_DELETE
  | ERR_CANNOT_ENTER_DIRECTORY
  | ERR_CANNOT_LAUNCH_PROCESS
  | ERR_CANNOT_LOGIN
  | ERR_CANNOT_MKDIR
  | ERR_CANNOT_MOUNT
  | ERR_CANNOT_OPEN_FOR_READING
  | ERR_CANNOT_OPEN_FOR_WRITING
  | ERR_CANNOT_READ
  | ERR_CANNOT_RENAME
  | ERR_CANNOT_RENAME_PARTIAL
  | ERR_CANNOT_RESUME
  | ERR_CANNOT_RMDIR
  | ERR_CANNOT_SEEK
  | ERR_CANNOT_STAT
  | ERR_CANNOT_TRUNCATE
  | ERR_CANNOT_WRITE
  | ERR_CONNECTION_BROKEN
  | ERR_DIR_ALREADY_EXIST
  | ERR_DISK_FULL
  | ERR_DOES_NOT_EXIST
  | ERR_FILE_ALREADY_EXIST
  | ERR_INTERNAL
  | ERR_INTERNAL_SERVER
  | ERR_IS_DIRECTORY
  | ERR_IS_FILE
  | ERR_MALFORMED_URL
  | ERR_OUT_OF_MEMORY
  | ERR_SERVER_TIMEOUT
  | ERR_UNKNOWN
  | ERR_UNKNOWN_HOST
  | ERR_UNSUPPORTED_ACTION
  | ERR_UNSUPPORTED_PROTOCOL
  | ERR_USER_CANCELED
  | ERR_WORKER_DEFINED
  | ERR_WRITE_ACCESS_DENIED
  deriving DecidableEq

/-- What an operation returns: success, or an error with the text that goes with it. -/
inductive WorkerResult
  | pass
  | fail (error : Error) (errorString : String)
  deriving DecidableEq

def WorkerResult.success : WorkerResult → Bool
  | .pass => true
  | .fail _ _ => false

@[simp] theorem WorkerResult.success_pass : WorkerResult.pass.success = true := rfl
@[simp] theorem WorkerResult.success_fail (e : Error) (t : String) :
    (WorkerResult.fail e t).success = false := rfl

/-- What the workers read off a `QUrl`: its path and its text. -/
structure Url where
  path : String
  text : String
  deriving DecidableEq

def partName (name : String) : String := name ++ ".part"

theorem partName_ne (name : String) : partName name ≠ name := by
  intro h
  have := congrArg String.length h
  simp [partName] at this

structure JobFlags where
  Overwrite : Bool
  Resume : Bool
  deriving DecidableEq

def DefaultFlags : JobFlags := ⟨false, false⟩

end KioExtras.Kio
