import ModuleBundler.Config.Settings
import ModuleBundler.File.System
import ModuleBundler.ModuleId

/-
  Resolution: from a specifier in a module to the file it means. Only relative specifiers are
  resolved. They are read from the directory of the importing module, cleaned, and tried as they
  are, with each extension, and as directories with an index file; the first candidate that is a
  file wins.
-/

namespace ModuleBundler

/-- Why a specifier leads to no module. -/
inductive ResolveError where
  /-- The specifier is not relative. -/
  | unsupported (specifier importer : String)
  /-- The specifier leads out of the project root, or to the root itself. -/
  | escapesRoot (specifier importer : String)
  /-- No candidate is a file. -/
  | notFound (specifier importer : String) (tried : List String)
  deriving DecidableEq, Repr, Inhabited

/-- The wording of an error. -/
def ResolveError.message : ResolveError → String
  | .unsupported specifier importer =>
    s!"unsupported specifier '{specifier}' in '{importer}': " ++
      "only relative imports ('./', '../') are supported"
  | .escapesRoot specifier importer =>
    s!"'{specifier}' imported from '{importer}' escapes the project root"
  | .notFound specifier importer tried =>
    s!"cannot resolve '{specifier}' from '{importer}'; tried: " ++ ", ".intercalate tried

/-- A module that was found: its identifier, the path of its file, and the same path from the
project root with its case kept. -/
structure Located where
  id : ModuleId
  path : String
  relative : String
  deriving DecidableEq, Repr, Inhabited

/-- The directory of the file, from the project root. -/
def Located.directory (l : Located) : String := Path.directory l.relative

/-- Whether a specifier is relative: it starts with a step to the same directory or the one
above. -/
def isRelative (specifier : String) : Bool :=
  match specifier.toList with
  | ['.'] => true
  | ['.', '.'] => true
  | '.' :: '/' :: _ => true
  | '.' :: '.' :: '/' :: _ => true
  | _ => false

/-- Resolution of specifiers inside a project root. -/
structure Resolver where
  root : String
  settings : ResolveSettings
  deriving DecidableEq, Repr, Inhabited

/-- Why nothing was found for a path. -/
inductive ProbeError where
  | escapes
  | missing (tried : List String)
  deriving DecidableEq, Repr, Inhabited

/-- The error about a specifier in a module. -/
def ProbeError.about (e : ProbeError) (specifier importer : String) : ResolveError :=
  match e with
  | .escapes => .escapesRoot specifier importer
  | .missing tried => .notFound specifier importer tried

namespace Resolver

/-- What stands in for the importing module where the entry is resolved. -/
def entryImporter : String := "<entry>"

/-- The module with an identifier, whether or not there is a file. -/
def locatedOf (r : Resolver) (id : ModuleId) : Located :=
  ⟨id, Path.join r.root id.relativePath, id.relativePath⟩

/-- The module in the file at a clean path. -/
def locatedAt (r : Resolver) (clean : String) : Located :=
  ⟨.ofClean clean r.settings.caseSensitive, Path.join r.root clean, clean⟩

/-- The paths that a clean path may stand for, in the order in which they are tried. -/
def candidates (r : Resolver) (base : String) : List String :=
  base :: (r.settings.extensions.map (base ++ ·) ++
    if r.settings.resolveIndex then r.settings.extensions.map (base ++ "/index" ++ ·) else [])

variable {m : Type → Type} [Monad m]

/-- The first of some modules whose file is there. -/
def firstFile? (files : Files m) : List Located → m (Option Located)
  | [] => pure none
  | l :: rest => do
    if ← files.isFile l.path then return some l else firstFile? files rest

/-- The module that a path from the project root stands for. -/
def probe (files : Files m) (r : Resolver) (path : String) : m (Except ProbeError Located) :=
  match Path.cleanRelative? path with
  | none => return .error .escapes
  | some base => do
    let tried := (r.candidates base).map r.locatedAt
    match ← firstFile? files tried with
    | some l => return .ok l
    | none => return .error (.missing (tried.map (·.path)))

/-- A specifier after a directory. -/
def joined (directory specifier : String) : String :=
  if directory.isEmpty then specifier else directory ++ "/" ++ specifier

/-- The module that a specifier means in a module of a directory. -/
def locateIn (files : Files m) (r : Resolver) (specifier directory : String)
    (importer : ModuleId) : m (Except ResolveError Located) := do
  if isRelative specifier then
    return (← probe files r (joined directory specifier)).mapError (·.about specifier importer.text)
  else return .error (.unsupported specifier importer.text)

/-- The module that a specifier means in the module with an identifier. -/
def locate (files : Files m) (r : Resolver) (specifier : String) (importer : ModuleId) :
    m (Except ResolveError Located) :=
  locateIn files r specifier importer.directory importer

/-- The module that a specifier means in a module that was found. -/
def locateFrom (files : Files m) (r : Resolver) (specifier : String) (importer : Located) :
    m (Except ResolveError Located) :=
  locateIn files r specifier importer.directory importer.id

/-- The module at the entry path, which is read from the project root or lies inside it. -/
def locateEntry (files : Files m) (r : Resolver) (entry : String) :
    m (Except ResolveError Located) := do
  let relative? := if Path.isAbsolute entry then Path.inside? r.root entry else some entry
  match relative? with
  | none => return .error (.escapesRoot entry entryImporter)
  | some relative =>
    return (← probe files r relative).mapError (·.about entry entryImporter)

end Resolver

end ModuleBundler
