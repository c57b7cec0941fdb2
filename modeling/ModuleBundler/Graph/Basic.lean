import ModuleBundler.Json.Value
import ModuleBundler.ModuleId

/-
  Dependency graphs: the modules of a bundle in the order in which they came in, each with its
  code and the modules that its specifiers mean. A module that comes in again takes the place of
  the one before it under its identifier.
-/

namespace ModuleBundler

/-- A module in a graph. -/
structure Record where
  id : ModuleId
  code : String
  /-- The specifiers of the module with the modules that they mean, in the order of the source. -/
  dependencies : List (String × ModuleId)
  deriving DecidableEq, Repr, Inhabited

/-- The module that a specifier means. -/
def Record.dependency? (r : Record) (specifier : String) : Option ModuleId :=
  r.dependencies.lookup specifier

/-- A dependency graph with its entry. -/
structure Graph where
  entry : ModuleId
  records : List Record
  deriving DecidableEq, Repr, Inhabited

/-- A specifier of a module that means a module outside the graph. -/
structure OpenEdge where
  importer : ModuleId
  specifier : String
  target : ModuleId
  deriving DecidableEq, Repr, Inhabited

namespace Graph

/-- The graph without modules. -/
def empty (entry : ModuleId) : Graph := ⟨entry, []⟩

/-- The identifiers of the modules, in order. -/
def ids (g : Graph) : List ModuleId := g.records.map (·.id)

/-- The module with an identifier. -/
def get? (g : Graph) (id : ModuleId) : Option Record := g.records.find? (·.id == id)

/-- Whether there is a module with an identifier. -/
def contains (g : Graph) (id : ModuleId) : Bool := g.records.any (·.id == id)

/-- Puts a record in the place of the one with its identifier, or at the end. -/
def insertRecord (r : Record) : List Record → List Record
  | [] => [r]
  | old :: rest => if old.id == r.id then r :: rest else old :: insertRecord r rest

/-- The graph with a record put in. -/
def insert (g : Graph) (r : Record) : Graph := { g with records := insertRecord r g.records }

/-- The number of modules. -/
def size (g : Graph) : Nat := g.records.length

/-- The number of dependencies of all modules. -/
def edgeCount (g : Graph) : Nat := g.records.foldl (fun n r => n + r.dependencies.length) 0

/-- The dependencies of a record on modules outside a graph. -/
def openEdgesOf (g : Graph) (r : Record) : List OpenEdge :=
  (r.dependencies.filter fun d => !g.contains d.2).map fun d => ⟨r.id, d.1, d.2⟩

/-- The dependencies on modules outside the graph, in order. -/
def openEdges (g : Graph) : List OpenEdge := g.records.flatMap g.openEdgesOf

/-- Whether every dependency is on a module of the graph. -/
def isClosed (g : Graph) : Bool := g.openEdges.isEmpty

end Graph

/-! ## Written forms -/

/-- An identifier as a string. -/
def ModuleId.toJson (id : ModuleId) : Json := .string id.text

/-- The dependencies of a module as an object from specifiers to identifiers. -/
def Record.dependenciesJson (r : Record) : Json :=
  .object (r.dependencies.map fun d => (d.1, d.2.toJson))

/-- A module as an object. -/
def Record.toJson (r : Record) : Json :=
  .object [("id", r.id.toJson), ("dependencies", r.dependenciesJson), ("code", .string r.code)]

/-- A graph as an object. -/
def Graph.toJson (g : Graph) : Json :=
  .object [("entry", g.entry.toJson), ("modules", .list (g.records.map Record.toJson))]

end ModuleBundler
