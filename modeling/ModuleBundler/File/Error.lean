/-
  What can go wrong with files, whatever holds them.
-/

namespace ModuleBundler

/-- Why an operation on a file or directory failed. -/
inductive FileError where
  | notFound (path : String)
  | permissionDenied (path : String)
  /-- A file stands where a directory is needed, or the other way round. -/
  | alreadyExists (path : String)
  /-- The content of a file is not a text. -/
  | notText (path reason : String)
  /-- Any other failure that the system reports. -/
  | io (message : String)
  /-- A failure in words of its own. -/
  | other (message : String)
  deriving DecidableEq, Repr, Inhabited

namespace FileError

/-- The wording of an error. -/
def message : FileError → String
  | .notFound path => s!"Path not found: {path}"
  | .permissionDenied path => s!"Permission denied: {path}"
  | .alreadyExists path => s!"Path already exists: {path}"
  | .notText path reason => s!"Invalid UTF-8 in '{path}': {reason}"
  | .io message => s!"IO error: {message}"
  | .other message => message

/-- Whether the error says that nothing is there. -/
def isNotFound : FileError → Bool
  | .notFound _ => true
  | _ => false

end FileError

/-- The kinds of failures of an operating system that have an error of their own. -/
inductive FailureKind where
  | notFound
  | permissionDenied
  | alreadyExists
  | other
  deriving DecidableEq, Repr, Inhabited

/-- A failure as an operating system reports it. -/
structure Failure where
  kind : FailureKind
  message : String
  deriving DecidableEq, Repr, Inhabited

/-- The error of a failure at a path. -/
def Failure.at (f : Failure) (path : String) : FileError :=
  match f.kind with
  | .notFound => .notFound path
  | .permissionDenied => .permissionDenied path
  | .alreadyExists => .alreadyExists path
  | .other => .io f.message

/-- The error of a failure at no known path. -/
def Failure.anywhere (f : Failure) : FileError := .io f.message

end ModuleBundler
