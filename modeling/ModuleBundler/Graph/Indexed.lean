import ModuleBundler.Graph.Basic
import Std.Data.HashMap

/-
  Dependency graphs that are looked into quickly. The identifiers of the modules are kept in the
  order in which they came in, and the records in a table by identifier, so that a record is found
  without going through all of them. A record that comes in goes into the table, and its identifier
  to the end of the order if it is new.
-/

namespace ModuleBundler

deriving instance Hashable for ModuleId

/-- A dependency graph with a table of its records. -/
structure IndexedGraph where
  entry : ModuleId
  /-- The identifiers of the modules, in the order in which they came in. -/
  order : List ModuleId
  table : Std.HashMap ModuleId Record

namespace IndexedGraph

/-- The graph without modules. -/
def empty (entry : ModuleId) : IndexedGraph := ⟨entry, [], ∅⟩

/-- The record that a record takes the place of, and the graph with the record put in. -/
def insert (g : IndexedGraph) (r : Record) : Option Record × IndexedGraph :=
  let replaced? := g.table[r.id]?
  (replaced?,
    { g with
      order := if replaced?.isNone then g.order ++ [r.id] else g.order
      table := g.table.insert r.id r })

/-- The identifiers of the modules, in order. -/
def ids (g : IndexedGraph) : List ModuleId := g.order

/-- The module with an identifier. -/
def get? (g : IndexedGraph) (id : ModuleId) : Option Record := g.table[id]?

/-- Whether there is a module with an identifier. -/
def contains (g : IndexedGraph) (id : ModuleId) : Bool := g.table.contains id

/-- The modules, in order. -/
def records (g : IndexedGraph) : List Record := g.order.filterMap g.get?

/-- The number of modules. -/
def size (g : IndexedGraph) : Nat := g.order.length

/-- Whether there are no modules. -/
def isEmpty (g : IndexedGraph) : Bool := g.order.isEmpty

/-- The number of dependencies of all modules, in whatever order the table has them. -/
def edgeCount (g : IndexedGraph) : Nat :=
  g.table.toList.foldl (fun n entry => n + entry.2.dependencies.length) 0

/-- The dependencies of a record on modules outside the graph. -/
def openEdgesOf (g : IndexedGraph) (r : Record) : List OpenEdge :=
  (r.dependencies.filter fun d => !g.contains d.2).map fun d => ⟨r.id, d.1, d.2⟩

/-- The dependencies on modules outside the graph, in order. -/
def openEdges (g : IndexedGraph) : List OpenEdge := g.records.flatMap g.openEdgesOf

/-- Whether every dependency is on a module of the graph. -/
def isClosed (g : IndexedGraph) : Bool := g.openEdges.isEmpty

/-- The graph as an object. -/
def toJson (g : IndexedGraph) : Json :=
  .object [("entry", g.entry.toJson), ("modules", .list (g.records.map Record.toJson))]

/-- The graph without its table. -/
def toGraph (g : IndexedGraph) : Graph := ⟨g.entry, g.records⟩

end IndexedGraph

end ModuleBundler
