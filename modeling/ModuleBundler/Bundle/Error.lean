import ModuleBundler.Bundle.Assemble
import ModuleBundler.Graph.Build
import ModuleBundler.Phase

/-
  What can go wrong with a bundle, and how it is reported: in one line of text, or as an object
  for other programs to read.
-/

namespace ModuleBundler

/-! ## Errors -/

/-- Why there is no bundle. -/
inductive BundleError where
  | build (error : BuildError)
  | assemble (error : AssembleError)
  /-- The bundle could not be written to its path. -/
  | output (path : String) (error : FileError)
  /-- The settings are missing or make no sense. -/
  | config (message : String)
  deriving DecidableEq, Repr, Inhabited

namespace BundleError

/-- The wording of an error. -/
def message : BundleError → String
  | .build e => e.message
  | .assemble e => e.message
  | .output path e => s!"cannot write bundle to '{path}': {e.message}"
  | .config message => s!"Config error: {message}"

/-- The name of the phase in which an error arose. Settings are no phase and have a name of their
own. -/
def phaseName : BundleError → String
  | .build e =>
    match e.fault with
    | .resolve _ => Phase.resolve.name
    | .transform _ => Phase.transform.name
    | .read _ => Phase.graph.name
    | .tooManyModules _ => Phase.graph.name
  | .assemble _ => Phase.emit.name
  | .output _ _ => Phase.emit.name
  | .config _ => "config"

/-- The name of the kind of an error. -/
def kindName : BundleError → String
  | .build e =>
    match e.fault with
    | .resolve (.unsupported _ _) => "UnsupportedSpecifier"
    | .resolve _ => "UnresolvedModuleError"
    | .transform _ => "TransformError"
    | .read e => if e.isNotFound then "NotFoundError" else "ReadError"
    | .tooManyModules _ => "TooManyModulesError"
  | .assemble (.openGraph _) => "OpenGraph"
  | .assemble (.missingEntry _) => "MissingEntry"
  | .output _ _ => "OutputError"
  | .config _ => "ConfigError"

/-- The line and column that an error is about. -/
def position? : BundleError → Option (Nat × Nat)
  | .build ⟨_, _, .transform e⟩ => e.position?
  | _ => none

end BundleError

/-! ## Reports -/

/-- A report of an error for other programs. -/
structure Report where
  phase : String
  line? : Option Nat
  column? : Option Nat
  kind : String
  message : String
  /-- The identifier of the module at fault. -/
  module? : Option String
  specifier? : Option String
  deriving DecidableEq, Repr, Inhabited

/-- The report of an error. -/
def BundleError.report (e : BundleError) : Report :=
  let subject : Option String × Option String :=
    match e with
    | .build e => (e.module?.map (·.text), e.specifier?)
    | .assemble (.openGraph edge) => (some edge.importer.text, some edge.specifier)
    | _ => (none, none)
  { phase := e.phaseName
    line? := e.position?.map (·.1)
    column? := e.position?.map (·.2)
    kind := e.kindName
    message := e.message
    module? := subject.1
    specifier? := subject.2 }

namespace Report

/-- An optional number. -/
def numberJson : Option Nat → Json
  | some n => .number n
  | none => .null

/-- The report as an object. The module and the specifier are left out where there are none. -/
def toJson (r : Report) : Json :=
  .object
    ([("phase", .string r.phase), ("line", numberJson r.line?),
      ("column", numberJson r.column?), ("errorKind", .string r.kind),
      ("message", .string r.message)] ++
      (r.module?.toList.map fun id => ("module", .string id)) ++
      (r.specifier?.toList.map fun specifier => ("specifier", .string specifier)))

/-- The report in one line. -/
def text (r : Report) : String :=
  match r.module?, r.line?, r.column? with
  | some id, some line, some column =>
    s!"[{id}:{line}:{column}] {r.phase} error: {r.message}"
  | _, _, _ => s!"[{r.phase}] {r.kind}: {r.message}"

end Report

end ModuleBundler
