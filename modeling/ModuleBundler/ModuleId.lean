import ModuleBundler.Path
import ModuleBundler.Text.Lowercase

/-
  Module identifiers. A module is known by the clean path from the project root to its file, with
  `./` in front, so that every way to reach a file gives the same identifier. Where case does not
  count the identifier is in lower case.
-/

namespace ModuleBundler

/-- The identifier of a module. -/
structure ModuleId where
  text : String
  deriving DecidableEq, Repr, Inhabited

namespace ModuleId

/-- The identifier of a clean path. -/
def ofClean (clean : String) (caseSensitive : Bool) : ModuleId :=
  ⟨"./" ++ if caseSensitive then clean else Text.toLower clean⟩

/-- The identifier of a path from the project root, if it leads to something inside. -/
def ofPath? (path : String) (caseSensitive : Bool) : Option ModuleId :=
  (Path.cleanRelative? path).map (ofClean · caseSensitive)

/-- The path from the project root. -/
def relativePath (id : ModuleId) : String :=
  match id.text.toList with
  | '.' :: '/' :: cs => String.ofList cs
  | _ => id.text

/-- The directory of the module, from the project root; the root itself is empty. -/
def directory (id : ModuleId) : String := Path.directory id.relativePath

/-- The name of the module's file. -/
def fileName (id : ModuleId) : String := Path.fileName id.relativePath

/-- The name of the module's file without its extension. -/
def stem (id : ModuleId) : String := Path.stem id.fileName

end ModuleId

end ModuleBundler
