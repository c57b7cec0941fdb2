import ModuleBundler.Bundle.Error

/-
  Making a bundle from beginning to end: the graph is built, assembled, and written below the
  output directory.
-/

namespace ModuleBundler

/-- A bundle that was made. -/
structure Bundle where
  /-- Where it was written, if it was. -/
  path? : Option String
  code : String
  graph : Graph
  deriving DecidableEq, Repr, Inhabited

/-- The name of a bundle's file: the placeholders for the entry's name and for the time are filled
in, in this order. -/
def renderFileName (template name : String) (milliseconds : Nat) : String :=
  Text.replaceWord "[timestamp]" (toString milliseconds)
    (Text.replaceWord "[name]" name template)

/-- The path of a bundle's file. -/
def outputPath (settings : BuildSettings) (entry : ModuleId) (milliseconds : Nat) : String :=
  Path.join (Path.join settings.root settings.output.directory)
    (renderFileName settings.output.fileName entry.stem milliseconds)

variable {m : Type → Type} [Monad m]

/-- Makes the directory of a file that is to be written, if it is not there. -/
def makeParent (fs : FileSystem m) (path : String) : m (Except FileError Unit) := do
  match Path.parent? path with
  | none => return .ok ()
  | some directory =>
    if directory.isEmpty then return .ok ()
    else if ← fs.isDirectory directory then return .ok ()
    else fs.createDirectories directory

/-- Writes a bundle to its path. -/
def writeOutput (fs : FileSystem m) (path code : String) : m (Except BundleError Unit) := do
  match ← makeParent fs path with
  | .error e => return .error (.output path e)
  | .ok () =>
    match ← fs.write path (Text.encode code) with
    | .error e => return .error (.output path e)
    | .ok () => return .ok ()

/-- The graph that settings ask for. -/
def buildGraph (files : Files m) (transform : Transformer m) (settings : BuildSettings) :
    m (Except BundleError Graph) := do
  return (← Graph.buildEntry files transform ⟨settings.root, settings.resolve⟩
    settings.entry).mapError .build

/-- The bundle that settings ask for. `milliseconds` is the time since 1970. -/
def bundle (fs : FileSystem m) (transform : Transformer m) (milliseconds : Nat)
    (settings : BuildSettings) : m (Except BundleError Bundle) := do
  match ← buildGraph fs.toFiles transform settings with
  | .error e => return .error e
  | .ok graph =>
    match assemble graph settings.output with
    | .error e => return .error (.assemble e)
    | .ok code =>
      if settings.output.write then
        let path := outputPath settings graph.entry milliseconds
        match ← writeOutput fs path code with
        | .error e => return .error e
        | .ok () => return .ok ⟨some path, code, graph⟩
      else return .ok ⟨none, code, graph⟩

/-- The bundle that the settings of a process ask for, if it was given any. -/
def bundleInstalled (fs : FileSystem m) (milliseconds : Nat)
    (installed? : Option BuildSettings) : m (Except BundleError Bundle) :=
  match installed? with
  | some settings => bundle fs scriptTransformer milliseconds settings
  | none => return .error (.config "global config is not initialized")

end ModuleBundler
