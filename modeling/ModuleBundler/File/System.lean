import ModuleBundler.File.Error
import ModuleBundler.Text.Utf8

/-
  File systems as seen by a build. `Files` is what reading modules needs, `FileSystem` adds what
  writing a bundle needs, and `Host` what the command needs. They leave open in which monad the
  operations run, so that one definition of a build serves files in memory, a model of a disk, and
  the disk itself.
-/

namespace ModuleBundler

/-- Files that can be looked for and read. -/
structure Files (m : Type → Type) where
  /-- Whether a file is stored under a path. -/
  isFile : String → m Bool
  /-- The content of a file. -/
  read : String → m (Except FileError ByteArray)
  /-- A bound on the number of files and directories. -/
  capacity : m Nat

/-- A file system that can be written too. -/
structure FileSystem (m : Type → Type) extends Files m where
  /-- Whether a path names a directory. -/
  isDirectory : String → m Bool
  /-- Stores a file, in place of the one before. -/
  write : String → ByteArray → m (Except FileError Unit)
  /-- Makes a directory and those above it, where they are missing. -/
  createDirectories : String → m (Except FileError Unit)

/-- A file system with log files. -/
structure Host (m : Type → Type) extends FileSystem m where
  /-- Makes a file ready to be written to at its end. -/
  openLog : String → m (Except Failure Unit)

/-- The text that bytes read from a path spell. -/
def textOf (path : String) (bytes : ByteArray) : Except FileError String :=
  match Text.decode bytes with
  | .ok text => .ok text
  | .error fault => .error (.notText path fault.message)

/-- The text of a file. -/
def Files.readText {m : Type → Type} [Monad m] (files : Files m) (path : String) :
    m (Except FileError String) := do
  match ← files.read path with
  | .ok bytes => return textOf path bytes
  | .error e => return .error e

end ModuleBundler
