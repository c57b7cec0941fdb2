import ModuleBundler.File.Directories
import ModuleBundler.File.System

/-
  A disk without links: directories and files with absolute names, and a working directory. Paths
  are followed segment by segment, as an operating system does it, so that two dots lead out of
  the directory reached so far, a file is no way to anywhere, and a slash at the end asks for a
  directory.
-/

namespace ModuleBundler

/-- Directories and files under their names from the root. The root itself is always there. -/
structure Disk where
  directories : List (List String) := []
  files : List (List String × ByteArray) := []
  workingDirectory : List String := []
  deriving Inhabited

namespace Disk

/-! ## Failures -/

/-- A path leads to nothing. -/
def noEntry : Failure := ⟨.notFound, "No such file or directory (os error 2)"⟩

/-- Something is there already. -/
def entryExists : Failure := ⟨.alreadyExists, "File exists (os error 17)"⟩

/-- A path leads on from a file. -/
def notDirectory : Failure := ⟨.other, "Not a directory (os error 20)"⟩

/-- A directory stands where a file is needed. -/
def isADirectory : Failure := ⟨.other, "Is a directory (os error 21)"⟩

/-- A name or a path is longer than the system takes. -/
def nameTooLong : Failure := ⟨.other, "File name too long (os error 36)"⟩

/-- A path holds the character that ends paths inside the system. -/
def unexpectedNul : Failure := ⟨.other, "file name contained an unexpected NUL byte"⟩

/-- The size in bytes that no name exceeds. -/
def nameLimit : Nat := 255

/-- The size in bytes that no path reaches. -/
def pathLimit : Nat := 4096

/-! ## Following paths -/

/-- Where a path leads. `slash` tells whether a slash follows the last name. -/
inductive Place where
  | directory (name : List String)
  | file (name : List String) (content : ByteArray) (slash : Bool)
  /-- Nothing, in a directory that exists. -/
  | vacant (name : List String) (slash : Bool)
  /-- Nothing, since the last name is too long. -/
  | overlong (slash : Bool)

/-- Follows segments from a directory. -/
def walk (d : Disk) (here : List String) : List String → Except Failure Place
  | [] => .ok (.directory here)
  | segment :: rest =>
    if segment == "" || segment == "." then walk d here rest
    else if segment == ".." then walk d here.dropLast rest
    else
      let there := here ++ [segment]
      let ends := rest.all (· == "")
      if segment.utf8ByteSize > nameLimit then
        if ends then .ok (.overlong (!rest.isEmpty)) else .error nameTooLong
      else if d.directories.contains there then walk d there rest
      else
        match d.files.lookup there with
        | some content =>
          if ends then .ok (.file there content (!rest.isEmpty)) else .error notDirectory
        | none => if ends then .ok (.vacant there (!rest.isEmpty)) else .error noEntry

/-- Follows a path. -/
def locate (d : Disk) (path : String) : Except Failure Place :=
  if path.toList.contains '\x00' then .error unexpectedNul
  else if path.isEmpty then .error noEntry
  else if path.utf8ByteSize ≥ pathLimit then .error nameTooLong
  else walk d (if Path.isAbsolute path then [] else d.workingDirectory) (Path.segments path)

/-! ## Operations -/

/-- Whether a path leads to a file. -/
def isFile (d : Disk) (path : String) : Bool :=
  match d.locate path with
  | .ok (.file _ _ false) => true
  | _ => false

/-- Whether a path leads to a directory. -/
def isDirectory (d : Disk) (path : String) : Bool :=
  match d.locate path with
  | .ok (.directory _) => true
  | _ => false

/-- The content of a file. -/
def read (d : Disk) (path : String) : Except Failure ByteArray :=
  match d.locate path with
  | .error e => .error e
  | .ok (.directory _) => .error isADirectory
  | .ok (.file _ content false) => .ok content
  | .ok (.file _ _ true) => .error notDirectory
  | .ok (.vacant _ _) => .error noEntry
  | .ok (.overlong _) => .error nameTooLong

/-- Puts a file under a name. -/
def put (d : Disk) (name : List String) (content : ByteArray) : Disk :=
  { d with files := (name, content) :: d.files.filter (·.1 != name) }

/-- The disk after a file is opened for writing, with a content made from the one before. -/
def openForWriting (d : Disk) (path : String) (content : ByteArray → ByteArray) :
    Except Failure Disk :=
  match d.locate path with
  | .error e => .error e
  | .ok (.directory _) => .error isADirectory
  | .ok (.file name old false) => .ok (d.put name (content old))
  | .ok (.vacant name false) => .ok (d.put name (content ByteArray.empty))
  | .ok (.file _ _ true) => .error isADirectory
  | .ok (.vacant _ true) => .error isADirectory
  | .ok (.overlong false) => .error nameTooLong
  | .ok (.overlong true) => .error isADirectory

/-- The disk after one directory is made. -/
def makeDirectory (d : Disk) (path : String) : Except Failure Disk :=
  match d.locate path with
  | .error e => .error e
  | .ok (.directory _) => .error entryExists
  | .ok (.file _ _ _) => .error entryExists
  | .ok (.vacant name _) => .ok { d with directories := name :: d.directories }
  | .ok (.overlong _) => .error nameTooLong

/-- Runs an operation that may change the disk. The disk stays as it was where it fails. -/
def update (operation : Disk → Except Failure Disk) : StateM Disk (Except Failure Unit) := fun d =>
  match operation d with
  | .ok d' => (.ok (), d')
  | .error e => (.error e, d)

/-- Making directories on a disk. -/
def directoryMaker : DirectoryMaker (StateM Disk) where
  make path := update (·.makeDirectory path)
  isDirectory path := do return (← get).isDirectory path

/-! ## As a file system -/

/-- A path from the working directory, for a path from a base directory. -/
def fullPath (base? : Option String) (path : String) : String :=
  match base? with
  | some base => if Path.isAbsolute path then path else Path.join base path
  | none => path

/-- The file system of a disk, with relative paths read from a base directory if there is one. -/
def fileSystem (base? : Option String) : FileSystem (StateM Disk) where
  isFile path := do return (← get).isFile (fullPath base? path)
  read path := do
    let full := fullPath base? path
    return ((← get).read full).mapError (·.at full)
  capacity := do
    let d ← get
    return d.files.length + d.directories.length
  isDirectory path := do return (← get).isDirectory (fullPath base? path)
  write path content := do
    let full := fullPath base? path
    return (← update (·.openForWriting full fun _ => content)).mapError (·.at full)
  createDirectories path := do
    let full := fullPath base? path
    return (← directoryMaker.createDirectories full).mapError (·.at full)

/-- The disk as the place where the command runs. -/
def host : Host (StateM Disk) where
  toFileSystem := fileSystem none
  openLog path := update (·.openForWriting path id)

end Disk

end ModuleBundler
