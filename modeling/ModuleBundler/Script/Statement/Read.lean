import ModuleBundler.Script.Statement.Export
import ModuleBundler.Script.Statement.Import

/-
  Finding the module statements of a script among its tokens. Tokens that belong to none are passed
  over unread.
-/

namespace ModuleBundler.Script

/-- Whether a token begins an import: not the property of an object, nor a call, nor access to a
property of its own. -/
def startsImport (previous? : Option Token) (t : Token) (rest : List Token) : Bool :=
  t.isName "import" && t.depth == 0 && !previous?.any (·.isPunctuator ".") &&
    !rest.head?.any (fun next => next.text == "(" || next.text == ".")

/-- Whether a token begins an export. -/
def startsExport (previous? : Option Token) (t : Token) : Bool :=
  t.isName "export" && t.depth == 0 && !previous?.any (·.isPunctuator ".")

/-- The statements among the tokens after a given one. -/
def statementsAfter (previous? : Option Token) :
    List Token → Except SyntaxError (List Statement)
  | [] => .ok []
  | t :: ts =>
    if startsImport previous? t ts then
      match _h : whole t (importForm ⟨t, ts⟩) with
      | .error e => .error e
      | .ok (statement, c) => do
        let others ← statementsAfter (some c.last) c.rest
        return statement :: others
    else if startsExport previous? t then
      match _h : exportStatement t ⟨t, ts⟩ with
      | .error e => .error e
      | .ok (statement, c) => do
        let others ← statementsAfter (some c.last) c.rest
        return statement :: others
    else statementsAfter (some t) ts
termination_by ts => ts.length
decreasing_by
  · have := (reaches_whole (fun _ _ => reaches_importForm) _h).rest.length_le
    simp only [List.length_cons] at *
    omega
  · have := (reaches_exportStatement _h).rest.length_le
    simp only [List.length_cons] at *
    omega
  · simp

/-- The module statements of a script, in order. -/
def statements (tokens : List Token) : Except SyntaxError (List Statement) :=
  statementsAfter none tokens

end ModuleBundler.Script
