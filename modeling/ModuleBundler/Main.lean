import ModuleBundler.CommandLine.Run
import ModuleBundler.File.Directories
import Std.Time.DateTime.Timestamp

/-
  The command on the system it runs on.
-/

namespace ModuleBundler.Machine

/-- The system's words for an error, with its number. -/
def errorMessage (details : String) (code : UInt32) : String := s!"{details} (os error {code})"

/-- The failure behind an error of the system. -/
def failureOf : IO.Error → Failure
  | .noFileOrDirectory _ code details => ⟨.notFound, errorMessage details code⟩
  | .permissionDenied _ code details => ⟨.permissionDenied, errorMessage details code⟩
  | .alreadyExists _ code details => ⟨.alreadyExists, errorMessage details code⟩
  | .inappropriateType _ code details => ⟨.other, errorMessage details code⟩
  | .invalidArgument _ code details => ⟨.other, errorMessage details code⟩
  | .resourceExhausted _ code details => ⟨.other, errorMessage details code⟩
  | .noSuchThing _ code details => ⟨.other, errorMessage details code⟩
  | .otherError code details => ⟨.other, errorMessage details code⟩
  | .resourceBusy code details => ⟨.other, errorMessage details code⟩
  | .resourceVanished code details => ⟨.other, errorMessage details code⟩
  | .unsupportedOperation code details => ⟨.other, errorMessage details code⟩
  | .hardwareFault code details => ⟨.other, errorMessage details code⟩
  | .unsatisfiedConstraints code details => ⟨.other, errorMessage details code⟩
  | .illegalOperation code details => ⟨.other, errorMessage details code⟩
  | e => ⟨.other, e.toString⟩

/-- Runs an operation of the system and keeps its failure. -/
def attempt {α : Type} (operation : IO α) : IO (Except Failure α) := do
  try return .ok (← operation)
  catch e => return .error (failureOf e)

/-- Whether a path can be opened, or could be with the right to do so. -/
def canOpen (path : String) : IO Bool := do
  match ← attempt (IO.FS.Handle.mk path .read) with
  | .ok _ => return true
  | .error e => return e.kind == .permissionDenied

/-- Whether a path leads to a directory. Only a directory holds itself under a dot. -/
def isDirectory (path : String) : IO Bool := do
  if path.isEmpty then return false else canOpen (path ++ "/.")

/-- Whether a path leads to a file. -/
def isFile (path : String) : IO Bool := do
  if ← isDirectory path then return false else canOpen path

/-- Making directories on the system. -/
def directoryMaker : DirectoryMaker IO where
  make path := attempt (IO.FS.createDir path)
  isDirectory := isDirectory

/-- More files than any system holds. -/
def capacity : Nat := 0x10000000000000000

/-- The system's files, and its directories. -/
def host : Host IO where
  isFile := isFile
  read path := do return (← attempt (IO.FS.readBinFile path)).mapError (·.at path)
  capacity := return capacity
  isDirectory := isDirectory
  write path content := do
    return (← attempt (IO.FS.writeBinFile path content)).mapError (·.at path)
  createDirectories path := do
    return (← directoryMaker.createDirectories path).mapError (·.at path)
  openLog path := attempt do
    let _ ← IO.FS.Handle.mk path .append

/-- The milliseconds since 1970. -/
def milliseconds : IO Nat := do
  return (← Std.Time.Timestamp.now).toMillisecondsSinceUnixEpoch.val.toNat

end ModuleBundler.Machine

/-- Runs the command with its arguments. -/
def main (arguments : List String) : IO UInt32 := do
  let now ← ModuleBundler.Machine.milliseconds
  let outcome ← ModuleBundler.Command.run ModuleBundler.Machine.host now arguments
  IO.print outcome.output
  IO.eprint outcome.errors
  return outcome.exitCode.toUInt32
