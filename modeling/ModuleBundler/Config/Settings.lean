import ModuleBundler.Json.Value

/-
  The settings of a build: how specifiers are resolved, what is written, and how much is logged.
-/

namespace ModuleBundler

/-- How specifiers lead to files. -/
structure ResolveSettings where
  /-- The endings that a specifier may leave out. -/
  extensions : List String := [".js", ".mjs"]
  /-- Whether a directory stands for the index file inside it. -/
  resolveIndex : Bool := true
  /-- Whether identifiers keep their case. Without case, spellings that differ in it are one
  module. -/
  caseSensitive : Bool := true
  deriving DecidableEq, Repr, Inhabited

/-- What becomes of a bundle. -/
structure OutputSettings where
  /-- The output directory, from the project root. -/
  directory : String := "dist"
  /-- The name of the bundle's file, with placeholders. -/
  fileName : String := "bundle.js"
  /-- A comment at the top of the bundle. -/
  banner? : Option String := none
  /-- Whether every module runs in strict mode. -/
  strict : Bool := true
  /-- Whether the bundle is written to a file. -/
  write : Bool := true
  deriving DecidableEq, Repr, Inhabited

/-- How much is logged. Each level includes those before it. -/
inductive LogLevel where
  | error
  | warn
  | info
  | debug
  | trace
  deriving DecidableEq, Repr

instance : Inhabited LogLevel := ⟨.info⟩

/-- Everything that one build depends on. -/
structure BuildSettings where
  /-- The entry module, from the project root, or inside it. -/
  entry : String
  /-- The project root. -/
  root : String
  resolve : ResolveSettings := {}
  output : OutputSettings := {}
  logLevel : LogLevel := .info
  deriving DecidableEq, Repr, Inhabited

/-! ## Written forms -/

/-- The settings as an object. -/
def ResolveSettings.toJson (s : ResolveSettings) : Json :=
  .object
    [("extensions", .list (s.extensions.map .string)),
     ("resolveIndex", .bool s.resolveIndex),
     ("caseSensitive", .bool s.caseSensitive)]

/-- The settings as an object. -/
def OutputSettings.toJson (s : OutputSettings) : Json :=
  .object
    [("outDir", .string s.directory),
     ("filename", .string s.fileName),
     ("banner", match s.banner? with
       | some banner => .string banner
       | none => .null),
     ("strict", .bool s.strict),
     ("write", .bool s.write)]

/-- The name of a level. -/
def LogLevel.name : LogLevel → String
  | .error => "error"
  | .warn => "warn"
  | .info => "info"
  | .debug => "debug"
  | .trace => "trace"

/-- The level as a string. -/
def LogLevel.toJson (level : LogLevel) : Json := .string level.name

/-- All levels, from the least that is logged to the most. -/
def LogLevel.all : List LogLevel := [.error, .warn, .info, .debug, .trace]

end ModuleBundler
