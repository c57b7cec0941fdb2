import ModuleBundler.Bundle.Write
import ModuleBundler.CommandLine.Explain
import ModuleBundler.LogFilter
import ModuleBundler.Project

/-
  The command from its arguments to its output. It reads the project file, settles what is logged,
  opens the log file, makes the bundle, and prints what was asked for. The first step that fails
  ends it.
-/

namespace ModuleBundler

/-- What a run of the command leaves behind. -/
structure Outcome where
  exitCode : Nat
  output : String
  errors : String
  deriving DecidableEq, Repr, Inhabited

namespace Command

/-- The name and the version. -/
def versionText : String := "weld 0.1.0\n"

/-- The first lines of the help text. -/
def usageLine : String := "Usage: weld [OPTIONS] [CONFIG]"

/-- The help text. -/
def helpText : String :=
  linesText
    ["Weld - bundle relative ES module imports into a single script",
     "",
     usageLine,
     "",
     "Arguments:",
     "  [CONFIG]  Project file path (default: ./package.json) [default: package.json]",
     "",
     "Options:",
     "      --entry <PATH>             Entry module, relative to the project directory",
     "      --out-dir <DIR>            Output directory, relative to the project directory",
     "      --filename <NAME>          Output file name ([name] and [timestamp] are expanded)",
     "      --stdout                   Print the bundle to stdout instead of writing a file",
     "      --dump-graph               Print the dependency graph as JSON",
     "      --log-level <LEVEL>        Log level: silent, error, warn, info, debug, trace",
     "      --log-phase <PHASE=LEVEL>  Per-phase log level, e.g. --log-phase graph=debug " ++
       "(repeatable)",
     "      --log-format <LOG_FORMAT>  Log output format [default: pretty] " ++
       "[possible values: pretty, compact, json]",
     "      --log-file <FILE>          Also append logs to this file",
     "  -h, --help                     Print help",
     "  -V, --version                  Print version"]

/-- A run that fails with lines on the error output. -/
def failure (lines : List String) : Outcome := ⟨1, "", linesText lines⟩

/-- A run whose arguments are refused. -/
def refusal (e : UsageError) : Outcome :=
  ⟨2, "", linesText
    [errorLine e.message, "", usageLine, "", "For more information, try '--help'."]⟩

/-- What the arguments ask for on top of the project file. -/
def overrides (a : Arguments) : Overrides where
  entry? := a.entry?
  directory? := a.directory?
  fileName? := a.fileName?
  logLevel? := a.logLevel?
  dry := a.toOutput

/-- The log filter that the settings and the arguments ask for. -/
def logFilter (usual : LogLevel) (a : Arguments) : Except LogFilterError LogFilter :=
  a.logPhases.foldlM LogFilter.override { usual := usual }

/-- What is printed about a bundle: its graph if that is asked for, then its text if it was not
written. -/
def bundleOutput (dumpGraph : Bool) (b : Bundle) : String :=
  (if dumpGraph then b.graph.toJson.pretty 0 ++ "\n" else "") ++
    match b.path? with
    | some _ => ""
    | none => b.code

variable {m : Type → Type} [Monad m]

/-- Reads the project file and settles the settings of the build. -/
def loadSettings (files : Files m) (path : String) (a : Arguments) :
    m (Except Outcome BuildSettings) := do
  match ← Project.load files path with
  | .error e => return .error (failure (errorLine e.message :: hintLines e.hint?))
  | .ok project =>
    return (project.buildSettings path (overrides a)).mapError fun e =>
      failure [errorLine e.message]

/-- Opens the log file, if there is one. -/
def openLogFile (host : Host m) (path? : Option String) : m (Except Outcome Unit) :=
  match path? with
  | none => return .ok ()
  | some path => do
    return (← host.openLog path).mapError fun e =>
      failure [errorLine s!"cannot open log file '{path}': {e.message}"]

/-- Makes the bundle, and says what came of it. -/
def makeBundle (host : Host m) (milliseconds : Nat) (settings : BuildSettings) (a : Arguments) :
    m Outcome := do
  match ← bundle host.toFileSystem scriptTransformer milliseconds settings with
  | .error e =>
    let format := a.logFormat?.getD .pretty
    return ⟨1, "", ← explain host.toFiles settings.root format e⟩
  | .ok made => return ⟨0, bundleOutput a.dumpGraph made, ""⟩

/-- Does what the arguments ask for. -/
def perform (host : Host m) (milliseconds : Nat) (a : Arguments) : m Outcome := do
  match ← loadSettings host.toFiles (a.project?.getD "package.json") a with
  | .error outcome => return outcome
  | .ok settings =>
    match logFilter settings.logLevel a with
    | .error e => return failure [errorLine e.message]
    | .ok _ =>
      match ← openLogFile host a.logFile? with
      | .error outcome => return outcome
      | .ok () => makeBundle host milliseconds settings a

/-- Runs the command. -/
def run (host : Host m) (milliseconds : Nat) (arguments : List String) : m Outcome :=
  match readArguments arguments with
  | .error e => return refusal e
  | .ok .help => return ⟨0, helpText, ""⟩
  | .ok .version => return ⟨0, versionText, ""⟩
  | .ok (.run a) => perform host milliseconds a

end Command

end ModuleBundler
