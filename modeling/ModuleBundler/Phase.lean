/-
  The phases of making a bundle.
-/

namespace ModuleBundler

/-- A phase of making a bundle. -/
inductive Phase where
  | resolve
  | transform
  | graph
  | emit
  deriving DecidableEq, Repr, Inhabited

namespace Phase

/-- All phases, in order. -/
def all : List Phase := [.resolve, .transform, .graph, .emit]

/-- The name of a phase. -/
def name : Phase → String
  | .resolve => "resolve"
  | .transform => "transform"
  | .graph => "graph"
  | .emit => "emit"

/-- The phase with a name. -/
def ofName? (name : String) : Option Phase := all.find? (·.name == name)

end Phase

end ModuleBundler
