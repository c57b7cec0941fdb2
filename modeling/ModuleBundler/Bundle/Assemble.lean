import ModuleBundler.Bundle.Loader
import ModuleBundler.Config.Settings
import ModuleBundler.Graph.Basic
import ModuleBundler.Text.Pieces

/-
  Assembling a dependency graph into one script: a banner in comments, the loader, and the table
  of modules. An entry of the table is a module's identifier with its code in a function and its
  dependencies.
-/

namespace ModuleBundler

/-- Why a graph makes no bundle. -/
inductive AssembleError where
  /-- The entry is not in the graph. -/
  | missingEntry (entry : ModuleId)
  /-- A dependency is not in the graph. -/
  | openGraph (edge : OpenEdge)
  deriving DecidableEq, Repr, Inhabited

/-- The wording of an error. -/
def AssembleError.message : AssembleError → String
  | .missingEntry entry => s!"entry module '{entry.text}' is not in the dependency graph"
  | .openGraph edge =>
    s!"'{edge.importer.text}' imports '{edge.specifier}' as '{edge.target.text}', " ++
      "which is not in the dependency graph"

/-- A text that ends with a line end. -/
def withLineEnd (text : String) : String :=
  if text.toList.getLast? == some '\n' then text else text ++ "\n"

/-- The lines of a banner, each as a comment. -/
def bannerText (banner? : Option String) : String :=
  match banner? with
  | some banner => String.join ((Text.lines banner).map fun line => "// " ++ line ++ "\n")
  | none => ""

/-- An entry of the table of modules. -/
def tableEntry (strict : Bool) (r : Record) : String :=
  r.id.toJson.compact ++ ": [function (require, exports) \x7b\n" ++
    (if strict then "\"use strict\";\n" else "") ++ withLineEnd r.code ++ "\x7d, " ++
    r.dependenciesJson.compact ++ "]"

/-- The table of modules, with a comma after every entry but the last. -/
def tableText (strict : Bool) : List Record → String
  | [] => ""
  | [r] => tableEntry strict r ++ "\n"
  | r :: rest => tableEntry strict r ++ ",\n" ++ tableText strict rest

/-- The bundle of a graph that holds its entry and all dependencies. -/
def bundleText (g : Graph) (settings : OutputSettings) : String :=
  bannerText settings.banner? ++ loader g.entry.toJson.compact ++ "(\x7b\n" ++
    tableText settings.strict g.records ++ "\x7d);\n"

/-- The bundle of a graph. -/
def assemble (g : Graph) (settings : OutputSettings) : Except AssembleError String :=
  if !g.contains g.entry then .error (.missingEntry g.entry)
  else
    match g.openEdges with
    | edge :: _ => .error (.openGraph edge)
    | [] => .ok (bundleText g settings)

end ModuleBundler
