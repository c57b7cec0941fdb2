import ModuleBundler.Script.Statement.Read

/-
  Turning a module into the body of a function. Module statements become calls of `require` and
  assignments to `exports`; the rest of the text stays as it is. Imports and the exports of other
  modules move to the front in their order, since a module's sources run before it does; exports
  of functions move in front of those, since functions exist from the start; lists of the module's
  own bindings move to the end.
-/

namespace ModuleBundler.Script

/-- A module ready to be wrapped in a function: its code, and the sources that it asks for, each
once, in the order of their first mention. -/
structure ModuleBody where
  code : String
  specifiers : List String
  deriving DecidableEq, Repr, Inhabited

/-! ## What statements say -/

/-- The source that a statement asks for. -/
def Form.source? : Form → Option String
  | .bareImport source => some source
  | .importFrom _ source => some source
  | .exportFrom _ source => some source
  | .exportAllFrom source => some source
  | .exportAllAs _ source => some source
  | _ => none

/-- The names under which a statement exports bindings of the module itself. A default function
and a default expression are left out: no module takes over the default of another. -/
def Form.ownExports : Form → List String
  | .exportNames items => items.map (·.newName)
  | .exportFunction name false => [name]
  | .exportClass _ exported _ => [exported]
  | .exportVariables names _ _ => names
  | _ => []

/-- Whether a statement needs a variable of its own to hold another module. -/
def Form.needsTemporary : Form → Bool
  | .importFrom clause _ =>
    match clause.default?, clause.star?, clause.named with
    | _, none, [] => false
    | none, some _, [] => false
    | _, _, _ => true
  | .exportFrom _ _ => true
  | .exportAllFrom _ => true
  | _ => false

/-! ## Lines -/

/-- The variable with a number. -/
def temporary (n : Nat) : String := s!"__weld_import_{n}"

/-- The call that yields a module. -/
def requireCall (source : String) : String := s!"require({quote source})"

/-- The assignment of a local value to an export. -/
def assignment (exported value : String) : String := s!"exports{member exported} = {value};"

/-- The definition of an export that always reads the present value of an expression. -/
def forwarding (exported value : String) : String :=
  s!"Object.defineProperty(exports, {quote exported}, \x7b enumerable: true, " ++
    s!"get: function () \x7b return {value}; \x7d \x7d);"

/-- The loop that forwards every export of the module in a variable, save those in the list of
literals `skipped` and those already defined. -/
def copyLoop (temporary skipped : String) : String :=
  s!"Object.keys({temporary}).forEach(function (key) \x7b " ++
    s!"if ([{skipped}].indexOf(key) !== -1 || " ++
    "Object.prototype.hasOwnProperty.call(exports, key)) return; " ++
    "Object.defineProperty(exports, key, \x7b enumerable: true, " ++
    s!"get: function () \x7b return {temporary}[key]; \x7d \x7d); \x7d);"

/-- The line of an import; `temporary` names its variable if it needs one. -/
def importLine (temporary : String) (clause : ImportClause) (source : String) : String :=
  match clause.default?, clause.star?, clause.named with
  | none, none, [] => s!"{requireCall source};"
  | none, some star, [] => s!"var {star} = {requireCall source};"
  | some default, none, [] => s!"var {default} = {requireCall source}.default;"
  | default?, star?, named =>
    String.join
      (s!"var {temporary} = {requireCall source};" ::
        ((default?.toList.map fun name => s!" var {name} = {temporary}.default;") ++
          (star?.toList.map fun name => s!" var {name} = {temporary};") ++
          named.map fun item => s!" var {item.newName} = {temporary}{member item.name};"))

/-- The line that a statement puts in front of the module, among those that ask for other
modules. -/
def Form.requireLine? (skipped temporary : String) : Form → Option String
  | .bareImport source => some s!"{requireCall source};"
  | .importFrom clause source => some (importLine temporary clause source)
  | .exportFrom items source =>
    some (String.join
      (s!"var {temporary} = {requireCall source};" ::
        items.map fun item =>
          " " ++ forwarding item.newName (temporary ++ member item.name)))
  | .exportAllFrom source =>
    some s!"var {temporary} = {requireCall source}; {copyLoop temporary skipped}"
  | .exportAllAs name source => some (assignment name (requireCall source))
  | _ => none

/-- The line that a statement puts in front of all others. -/
def Form.functionLine? : Form → Option String
  | .exportFunction name asDefault => some (assignment (if asDefault then "default" else name) name)
  | _ => none

/-- The lines that a statement puts at the end of the module. -/
def Form.trailingLines : Form → List String
  | .exportNames items => items.map fun item => assignment item.newName item.name
  | _ => []

/-- The lines that ask for other modules, from the statement that would take the variable with
number `n`. -/
def requireLines (skipped : String) (n : Nat) : List Statement → List String
  | [] => []
  | s :: rest =>
    (s.form.requireLine? skipped (temporary n)).toList ++
      requireLines skipped (if s.form.needsTemporary then n + 1 else n) rest

/-- The literals of the names that no copy of another module's exports may define. -/
def skippedNames (statements : List Statement) : String :=
  ", ".intercalate (("default" :: statements.flatMap (·.form.ownExports)).map quote)

/-! ## Edits -/

/-- The replacement of a range of bytes by a text. -/
structure Edit where
  start : Nat
  stop : Nat
  text : String
  deriving DecidableEq, Repr, Inhabited

/-- The changes that a statement makes where it stands. -/
def Statement.edits (s : Statement) : List Edit :=
  match s.form with
  | .exportExpression => [⟨s.start, s.stop, "exports.default = "⟩]
  | .exportClass name exported bodyEnd =>
    [⟨s.start, s.stop, ""⟩, ⟨bodyEnd, bodyEnd, "\n" ++ assignment exported name⟩]
  | .exportVariables names textEnd terminated =>
    [⟨s.start, s.stop, ""⟩,
     ⟨textEnd, textEnd, (if terminated then "" else ";") ++ "\n" ++
       " ".intercalate (names.map fun name => assignment name name)⟩]
  | _ => [⟨s.start, s.stop, ""⟩]

/-- How many characters make up the first bytes of a text, on top of `n`. -/
def charsIn (bytes : Nat) (n : Nat) : List Char → Nat
  | [] => n
  | c :: cs => if bytes == 0 then n else charsIn (bytes - c.utf8Size) (n + 1) cs

/-- The text from an offset on with edits made, on top of the pieces `done`, newest first. The
edits lie in order and do not overlap. -/
def applyEdits (done : List String) (offset : Nat) (text : List Char) : List Edit → List String
  | [] => (String.ofList text :: done).reverse
  | e :: edits =>
    let kept := charsIn (e.start - offset) 0 text
    let rest := text.drop kept
    applyEdits (e.text :: String.ofList (text.take kept) :: done) e.stop
      (rest.drop (charsIn (e.stop - e.start) 0 rest)) edits

/-- The text of a script without its hashbang line, with edits made. -/
def editedBody (source : String) (edits : List Edit) : String :=
  let chars := source.toList
  let n := hashbangLength chars
  String.join (applyEdits [] (Position.first.after (chars.take n)).offset (chars.drop n) edits)

/-! ## The module -/

/-- Lines, each with its end. -/
def joinLines (lines : List String) : String := String.join (lines.map (· ++ "\n"))

/-- Adds lines after a text, on a new line. -/
def appendLines (text : String) (lines : List String) : String :=
  if lines.isEmpty then text
  else if text.toList.getLast? == some '\n' then text ++ joinLines lines
  else text ++ "\n" ++ joinLines lines

/-- Puts a body together from a source and its statements. -/
def ModuleBody.ofStatements (source : String) (statements : List Statement) : ModuleBody :=
  let functions := statements.filterMap (·.form.functionLine?)
  let requires := requireLines (skippedNames statements) 0 statements
  let body := editedBody source (statements.flatMap (·.edits))
  { code := appendLines (joinLines (functions ++ requires) ++ body)
      (statements.flatMap (·.form.trailingLines))
    specifiers := (statements.filterMap (·.form.source?)).eraseDups }

/-- The body of a module. -/
def ModuleBody.ofSource (source : String) : Except SyntaxError ModuleBody := do
  let tokens ← scan source
  let statements ← statements tokens
  return .ofStatements source statements

end ModuleBundler.Script
