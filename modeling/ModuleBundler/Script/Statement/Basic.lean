import ModuleBundler.Script.Token

/-
  Module statements: the imports and exports at the top level of a script. A statement is its form
  together with the range of the source that it takes away.
-/

namespace ModuleBundler.Script

/-- An entry of a braced list: `name`, or `name as newName`. Without a new name both are the same. -/
structure Binding where
  name : String
  newName : String
  deriving DecidableEq, Repr, Inhabited

/-- What an import binds. -/
structure ImportClause where
  /-- The local name of the default export. -/
  default? : Option String
  /-- The local name of the namespace. -/
  star? : Option String
  /-- The entries in braces. -/
  named : List Binding
  deriving DecidableEq, Repr, Inhabited

/-- The forms of a module statement. Sources are decoded module specifiers, offsets are in bytes
of the source text. -/
inductive Form where
  /-- An import for its effects only. -/
  | bareImport (source : String)
  | importFrom (clause : ImportClause) (source : String)
  /-- A list of exports of another module. -/
  | exportFrom (items : List Binding) (source : String)
  /-- All exports of another module. -/
  | exportAllFrom (source : String)
  /-- The namespace of another module under a name. -/
  | exportAllAs (name source : String)
  /-- A list of the module's own bindings. -/
  | exportNames (items : List Binding)
  /-- A function declaration, exported under its name or as the default. -/
  | exportFunction (name : String) (asDefault : Bool)
  /-- A class declaration, whose body ends at an offset. -/
  | exportClass (name exported : String) (bodyEnd : Nat)
  /-- A declaration of variables, whose text ends at an offset, with or without a semicolon. -/
  | exportVariables (names : List String) (textEnd : Nat) (terminated : Bool)
  /-- A default export of any other expression. -/
  | exportExpression
  deriving DecidableEq, Repr, Inhabited

/-- A module statement with the range of the source that is taken away: all of it, or the words
in front of the declaration or expression that stays. -/
structure Statement where
  form : Form
  start : Nat
  stop : Nat
  deriving DecidableEq, Repr, Inhabited

end ModuleBundler.Script
