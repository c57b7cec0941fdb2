import ModuleBundler.Script.Token

/-
  Why a script is refused. A fault is one cause; a syntax error is a fault at a place.
-/

namespace ModuleBundler.Script

/-- The causes of refusing a script. -/
inductive Fault where
  | unterminatedComment
  | unterminatedString
  | unterminatedTemplate
  | unterminatedRegex
  /-- A template ends the text inside one of its substitutions. -/
  | unterminatedSubstitution
  /-- A closing bracket with nothing open. -/
  | unmatchedCloser (closer : String)
  /-- An opening bracket without this closing bracket. -/
  | missingCloser (closer : String)
  /-- A name was needed: that of a namespace, a function or a class. -/
  | expectedName (what : String)
  | expectedFrom
  | expectedSpecifier
  | expectedBinding
  | expectedAlias
  | expectedSeparator
  | expectedAs
  | expectedClauseOrFrom
  | expectedClause
  | invalidLocal (name : String)
  | expectedDeclarator
  | declaresNothing
  | missingClassBody
  | expectedDefault
  /-- A list without a source may only name bindings of the module. -/
  | exportNeedsSource (name : String)
  | exportAtEnd
  | unexpectedExport (text : String)
  deriving DecidableEq, Repr

/-- The wording of a fault. -/
def Fault.message : Fault → String
  | .unterminatedComment => "unterminated comment"
  | .unterminatedString => "unterminated string literal"
  | .unterminatedTemplate => "unterminated template literal"
  | .unterminatedRegex => "unterminated regular expression"
  | .unterminatedSubstitution => "unterminated template substitution"
  | .unmatchedCloser closer => s!"unmatched '{closer}'"
  | .missingCloser closer => s!"missing '{closer}'"
  | .expectedName what => s!"expected {what}"
  | .expectedFrom => "expected 'from' after import/export clause"
  | .expectedSpecifier => "expected module specifier string"
  | .expectedBinding => "expected binding name"
  | .expectedAlias => "expected name after 'as'"
  | .expectedSeparator => "expected ',' or '\x7d'"
  | .expectedAs => "expected 'as' after '*'"
  | .expectedClauseOrFrom => "expected ',' or 'from' after default import"
  | .expectedClause => "expected import clause"
  | .invalidLocal name => s!"'{name}' is not a valid local name"
  | .expectedDeclarator => "expected binding name in exported declaration"
  | .declaresNothing => "exported declaration declares no names"
  | .missingClassBody => "missing class body"
  | .expectedDefault => "expected expression after 'export default'"
  | .exportNeedsSource name => s!"cannot export '{name}' without 'from'"
  | .exportAtEnd => "unexpected end of input after 'export'"
  | .unexpectedExport text => s!"unexpected '{text}' after 'export'"

/-- A fault at a line and a column. -/
structure SyntaxError where
  fault : Fault
  line : Nat
  column : Nat
  deriving DecidableEq, Repr

/-- The error of a fault at a place. -/
def Position.fault (p : Position) (fault : Fault) : SyntaxError := ⟨fault, p.line, p.column⟩

end ModuleBundler.Script
