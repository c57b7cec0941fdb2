import ModuleBundler.File.Error
import ModuleBundler.Path

/-
  Making a directory together with those above it, by a system that makes one directory at a time.
-/

namespace ModuleBundler

/-- A path and the paths of the directories around it, from the inside out, as far as they have
names. At most `n` of them are looked for. -/
def enclosingPaths : Nat → String → List String
  | 0, _ => []
  | n + 1, path =>
    match Path.parent? path with
    | none => []
    | some parent => path :: enclosingPaths n parent

/-- A system on which single directories are made. -/
structure DirectoryMaker (m : Type → Type) where
  /-- Makes one directory in another that exists. -/
  make : String → m (Except Failure Unit)
  /-- Whether a path leads to a directory. -/
  isDirectory : String → m Bool

namespace DirectoryMaker

variable {m : Type → Type} [Monad m]

/-- Makes a directory. One that is there already is as good as made. -/
def ensure (d : DirectoryMaker m) (path : String) : m (Except Failure Unit) := do
  match ← d.make path with
  | .ok () => return .ok ()
  | .error e => if ← d.isDirectory path then return .ok () else return .error e

/-- Makes the first of some directories, each of which lies in the next. Those further out are
made only where the first cannot be made without them. What was made stays, also if a later step
fails. -/
def ensureAll (d : DirectoryMaker m) : List String → m (Except Failure Unit)
  | [] => return .ok ()
  | path :: outer => do
    match ← d.make path with
    | .ok () => return .ok ()
    | .error e =>
      if e.kind == .notFound then
        match ← ensureAll d outer with
        | .error e => return .error e
        | .ok () => d.ensure path
      else if ← d.isDirectory path then return .ok ()
      else return .error e

/-- Makes a directory and those above it. A path is longer than the number of its names. -/
def createDirectories (d : DirectoryMaker m) (path : String) : m (Except Failure Unit) :=
  d.ensureAll (enclosingPaths (path.length + 1) path)

end DirectoryMaker

end ModuleBundler
