import ModuleBundler.Config.Read
import ModuleBundler.File.System
import ModuleBundler.Path
import ModuleBundler.Text.Pieces

/-
  Project files. A project is described by a JSON file that names its entry module and may hold
  settings. What is given on top, by who asks for a build, goes before what the file says.
-/

namespace ModuleBundler

/-! ## Project files -/

/-- The settings in a project file, as far as they are given. -/
structure ProjectSettings where
  directory? : Option String := none
  fileName? : Option String := none
  extensions? : Option (List String) := none
  caseSensitive? : Option Bool := none
  resolveIndex? : Option Bool := none
  banner? : Option String := none
  strict? : Option Bool := none
  /-- The word for the log level. -/
  logLevel? : Option String := none
  deriving DecidableEq, Repr, Inhabited

/-- A project file. -/
structure Project where
  /-- The path of the entry module from the directory of the file. -/
  entry : String := ""
  settings : ProjectSettings := {}
  deriving DecidableEq, Repr, Inhabited

open Json

/-- The fields of the settings. -/
def ProjectSettings.shape : Shape ProjectSettings where
  blank := {}
  fields :=
    [.of "outDir" .inList (readOptional readString) fun v s => { s with directory? := v },
     .of "filename" .inList (readOptional readString) fun v s => { s with fileName? := v },
     .of "extensions" .inList (readOptional (readList readString)) fun v s =>
       { s with extensions? := v },
     .of "caseSensitive" .inList (readOptional readBool) fun v s => { s with caseSensitive? := v },
     .of "resolveIndex" .inList (readOptional readBool) fun v s => { s with resolveIndex? := v },
     .of "banner" .inList (readOptional readString) fun v s => { s with banner? := v },
     .of "strict" .inList (readOptional readBool) fun v s => { s with strict? := v },
     .of "logLevel" .inList (readOptional readString) fun v s => { s with logLevel? := v }]

/-- The fields of a project file. -/
def Project.shape : Shape Project where
  blank := {}
  fields :=
    [.of "entry" .always readString fun v s => { s with entry := v },
     .of "weld" .never ProjectSettings.shape.read fun v s => { s with settings := v }]

/-! ## Errors -/

/-- What is wrong with a project file. -/
inductive ProjectError where
  | missing (path : String)
  | read (path : String) (error : FileError)
  | parse (path : String) (fault : ReadFault)
  /-- The entry is blank. -/
  | emptyEntry (path : String)
  /-- The word for the log level names none. -/
  | logLevel (path word : String)
  deriving DecidableEq, Repr, Inhabited

/-- The wording of a fault in a JSON text. -/
def Json.ReadFault.message : ReadFault → String
  | .malformed => "not a JSON text"
  | .truncated => "the JSON text ends too early"
  | .mismatched => "a value is missing, comes twice, or is not of its type"

namespace ProjectError

/-- The wording of an error. -/
def message : ProjectError → String
  | .missing path => s!"'{path}' not found; the current directory is not a weld project"
  | .read path e => s!"cannot read '{path}': {e.message}"
  | .parse path fault => s!"cannot parse '{path}': {fault.message}"
  | .emptyEntry path => s!"the 'entry' field in '{path}' must not be empty"
  | .logLevel path word => s!"invalid 'logLevel' in '{path}': {LogLevel.unknownMessage word}"

/-- What may help. -/
def hint? : ProjectError → Option String
  | .missing _ =>
    some <| "create a package.json with an \"entry\" field, " ++
      "or pass its path as the first argument"
  | .emptyEntry _ =>
    some "set \"entry\" to the module that starts the program, e.g. \"src/main.js\""
  | _ => none

end ProjectError

/-! ## From a file to the settings of a build -/

namespace Project

/-- The project in a text at a path. The entry may not be blank. -/
def ofText (path text : String) : Except ProjectError Project :=
  match readText shape.read text with
  | .error fault => .error (.parse path fault)
  | .ok project =>
    if (Text.trimBlank project.entry).isEmpty then .error (.emptyEntry path) else .ok project

/-- Reads the project file at a path. -/
def load {m : Type → Type} [Monad m] (files : Files m) (path : String) :
    m (Except ProjectError Project) := do
  if ← files.isFile path then
    match ← files.readText path with
    | .error e => return .error (.read path e)
    | .ok text => return ofText path text
  else return .error (.missing path)

/-- The project root: the directory of the project file. -/
def rootOf (path : String) : String :=
  match Path.parent? path with
  | some directory => if directory.isEmpty then "." else directory
  | none => "."

end Project

/-- What is asked for on top of a project file. -/
structure Overrides where
  entry? : Option String := none
  directory? : Option String := none
  fileName? : Option String := none
  logLevel? : Option LogLevel := none
  /-- Whether the bundle is only returned and not written. -/
  dry : Bool := false
  deriving DecidableEq, Repr, Inhabited

namespace Project

/-- The log level of a build. -/
def logLevel (path : String) (given? : Option LogLevel) (word? : Option String) :
    Except ProjectError LogLevel :=
  match given?, word? with
  | some level, _ => .ok level
  | none, none => .ok .info
  | none, some word =>
    match LogLevel.parse? word with
    | some level => .ok level
    | none => .error (.logLevel path word)

/-- How the project resolves specifiers. -/
def resolveSettings (s : ProjectSettings) : ResolveSettings :=
  let usual : ResolveSettings := {}
  { extensions := s.extensions?.getD usual.extensions
    resolveIndex := s.resolveIndex?.getD usual.resolveIndex
    caseSensitive := s.caseSensitive?.getD usual.caseSensitive }

/-- What becomes of the project's bundle. -/
def outputSettings (s : ProjectSettings) (o : Overrides) : OutputSettings :=
  let usual : OutputSettings := {}
  { directory := (o.directory? <|> s.directory?).getD usual.directory
    fileName := (o.fileName? <|> s.fileName?).getD usual.fileName
    banner? := s.banner?
    strict := s.strict?.getD usual.strict
    write := !o.dry }

/-- The settings of a build of the project in the file at a path. -/
def buildSettings (path : String) (project : Project) (o : Overrides) :
    Except ProjectError BuildSettings := do
  let level ← logLevel path o.logLevel? project.settings.logLevel?
  return {
    entry := o.entry?.getD project.entry
    root := rootOf path
    resolve := resolveSettings project.settings
    output := outputSettings project.settings o
    logLevel := level }

end Project

end ModuleBundler
