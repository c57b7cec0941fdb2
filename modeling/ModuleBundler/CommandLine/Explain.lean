import ModuleBundler.Bundle.Error
import ModuleBundler.CommandLine.Arguments

/-
  What the command says about errors: one line, where a script is at fault the lines of its text
  around the place, and where it may help a hint.
-/

namespace ModuleBundler

/-! ## Lines of a text around a place -/

/-- How many lines are shown before and after a place. -/
def contextLines : Nat := 2

/-- A number in a column of a width. -/
def numberColumn (width n : Nat) : String :=
  String.ofList (List.leftpad width ' ' (toString n).toList)

/-- A text of one character, some number of times. -/
def repeated (c : Char) (count : Nat) : String := String.ofList (List.replicate count c)

/-- A line with its number, and below it a mark if it is the one at fault. -/
def contextLine (width line column : Nat) (number : Nat) (text : String) : List String :=
  (numberColumn width number ++ " | " ++ text) ::
    if number == line then [repeated ' ' width ++ " | " ++ repeated ' ' (column - 1) ++ "^"] else []

/-- The lines around a line and a column, between two rules. A line that the text does not have
has nothing around it. -/
def sourceContext (source : String) (line column : Nat) : List String :=
  let lines := Text.lines source
  if line == 0 || lines.length < line then []
  else
    let first := max 1 (line - contextLines)
    let last := min lines.length (line + contextLines)
    let width := (toString last).length
    let rule := repeated '-' (width + 1) ++ "|--"
    let shown := (lines.drop (first - 1)).take (last + 1 - first)
    rule :: ((List.range' first shown.length).zip shown).flatMap
      (fun numbered => contextLine width line column numbered.1 numbered.2) ++ [rule]

/-! ## Hints -/

/-- What may help with an error. -/
def BundleError.hint? : BundleError → Option String
  | .build e =>
    match e.fault with
    | .resolve (.unsupported _ _) =>
      some "only relative imports ('./', '../') inside the project can be bundled"
    | .resolve (.escapesRoot _ _) =>
      some "imports must stay inside the directory that holds package.json"
    | .resolve (.notFound _ _ _) =>
      some <| "check the import path; extensionless imports are tried with the configured " ++
        "\"extensions\""
    | _ => none
  | .output _ _ => some "check that \"outDir\" is a writable directory"
  | _ => none

/-! ## Whole messages -/

/-- Lines of output, each with its end. -/
def linesText (lines : List String) : String := String.join (lines.map (· ++ "\n"))

/-- The line about an error. -/
def errorLine (message : String) : String := "error: " ++ message

/-- The lines of a hint. -/
def hintLines (hint? : Option String) : List String := (hint?.map ("hint: " ++ ·)).toList

/-- The module and the place in it that an error is about. -/
def BundleError.site? : BundleError → Option (ModuleId × Nat × Nat)
  | .build ⟨some id, _, .transform e⟩ => e.position?.map fun p => (id, p)
  | _ => none

variable {m : Type → Type} [Monad m]

/-- The lines around the place of an error, read from the module's file. -/
def siteLines (files : Files m) (root : String) (e : BundleError) : m (List String) :=
  match e.site? with
  | none => return []
  | some (id, line, column) => do
    match ← files.readText (Path.join root id.relativePath) with
    | .ok source => return sourceContext source line column
    | .error _ => return []

/-- What is said about an error: its report if the log is in JSON, else its line, the place and a
hint. -/
def explain (files : Files m) (root : String) (format : LogFormat) (e : BundleError) :
    m String := do
  if format == .json then return linesText [e.report.toJson.compact]
  else
    return linesText (errorLine e.message :: (← siteLines files root e) ++ hintLines e.hint?)

end ModuleBundler
