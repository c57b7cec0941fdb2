import ModuleBundler.ModuleId
import ModuleBundler.Script.ModuleBody

/-
  Transformers: what turns the text of a module into code for a bundle and a list of specifiers.
  The builder of graphs takes any; the usual one turns a script into the body of a function.
-/

namespace ModuleBundler

/-- Why a module could not be transformed. -/
inductive TransformError where
  /-- The text is not understood at a place. -/
  | malformed (message : String) (line column : Nat)
  /-- A failure in words of its own. -/
  | custom (message : String)
  deriving DecidableEq, Repr, Inhabited

namespace TransformError

/-- The wording of an error. -/
def message : TransformError → String
  | .malformed message line column => s!"{message} at {line}:{column}"
  | .custom message => message

/-- The line and column of an error, if it is about a place. -/
def position? : TransformError → Option (Nat × Nat)
  | .malformed _ line column => some (line, column)
  | .custom _ => none

/-- The error of a script that is refused. -/
def ofSyntaxError (e : Script.SyntaxError) : TransformError :=
  .malformed e.fault.message e.line e.column

end TransformError

/-- A transformer takes the text of a module and its identifier. -/
abbrev Transformer (m : Type → Type) :=
  String → ModuleId → m (Except TransformError Script.ModuleBody)

/-- The transformer of module scripts. -/
def transformScript (source : String) : Except TransformError Script.ModuleBody :=
  (Script.ModuleBody.ofSource source).mapError .ofSyntaxError

/-- The transformer of module scripts, in any monad. -/
def scriptTransformer {m : Type → Type} [Monad m] : Transformer m := fun source _ =>
  return transformScript source

end ModuleBundler
