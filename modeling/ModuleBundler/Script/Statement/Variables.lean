import ModuleBundler.Script.Statement.Items

/-
  Exported declarations of variables: the names that they bind, through destructuring patterns too,
  and where they end when no semicolon says so.
-/

namespace ModuleBundler.Script

/-- The punctuators that an expression cannot end with, and that carry a statement over the end of
a line. -/
def operators : List String :=
  ["=", ",", "+", "-", "*", "/", "%", "?", ":", "&", "|", "^", "<", ">", "!", "~", ".", "=>",
   "..."]

/-- The names that stand between two operands. -/
def binaryKeywords : List String := ["in", "instanceof", "of"]

/-- The names that stand in front of an operand. -/
def unaryKeywords : List String := ["new", "typeof", "void", "delete", "await", "yield"]

/-- Whether a token needs more text after it. -/
def wantsMore (t : Token) : Bool :=
  match t.kind with
  | .punctuator => operators.contains t.text || ["(", "[", "\x7b"].contains t.text
  | .name => binaryKeywords.contains t.text || unaryKeywords.contains t.text
  | _ => false

/-- Whether a token carries on the text before it. -/
def carriesOn (t : Token) : Bool :=
  match t.kind with
  | .punctuator =>
    (operators.contains t.text && !(["!", "~", "..."].contains t.text)) ||
      ["(", "["].contains t.text
  | .name => binaryKeywords.contains t.text
  | .template => true
  | _ => false

/-- Whether a statement goes on over the end of a line between two tokens. -/
def continuesAcross (before after : Token) : Bool := wantsMore before || carriesOn after

/-- The names that a destructuring pattern binds, from the tokens inside its brackets and the one
before them. The keys of properties, the properties of objects and the default values do not
count; a default value reaches to the next comma of its depth or to the bracket around it. -/
def patternNames (previous : Token) (inDefault? : Option Nat) : List Token → List String
  | [] => []
  | t :: ts =>
    match inDefault? with
    | some depth =>
      if t.depth < depth || (t.depth == depth && t.isPunctuator ",") then patternNames t none ts
      else patternNames t (some depth) ts
    | none =>
      if t.isPunctuator "=" then patternNames t (some t.depth) ts
      else if t.kind == .name && !ts.head?.any (·.isPunctuator ":") && !previous.isPunctuator "."
      then t.text :: patternNames t none ts
      else patternNames t none ts

/-- The names that a declaration of variables binds, on top of `names`, and the place where it
ends: after its semicolon, at the end of a line that does not carry it on, or at the end of the
text. `fresh` says that nothing follows the keyword yet, `awaiting` that a name or pattern must
come next. -/
def declarators (fresh awaiting : Bool) (names : List String) (c : Cursor) :
    Except SyntaxError (List String × Cursor) :=
  match _hr : c.rest with
  | [] => .ok (names, c)
  | t :: ts =>
    if t.depth == 0 && t.isPunctuator ";" then .ok (names, ⟨t, ts⟩)
    else if t.depth == 0 && !t.isCloser && !fresh && t.newlineBefore &&
        !continuesAcross c.last t then .ok (names, c)
    else if awaiting then
      if t.kind == .name then declarators false false (names ++ [t.text]) ⟨t, ts⟩
      else if t.isPunctuator "\x7b" || t.isPunctuator "[" then
        match _hm : matchingClose t ts with
        | .error e => .error e
        | .ok (inside, after) =>
          declarators false false (names ++ patternNames t none inside) after
      else .error (t.start.fault .expectedDeclarator)
    else declarators false (t.depth == 0 && t.isPunctuator ",") names ⟨t, ts⟩
termination_by c.rest.length
decreasing_by
  · simp [_hr]
  · have := (matchingClose_suffix _hm).length_le; simp only [_hr, List.length_cons] at *; omega
  · simp [_hr]

/-- An exported declaration of variables, read at its keyword. -/
def exportVariables (first : Token) (c : Cursor) : Except SyntaxError (Statement × Cursor) := do
  let (names, after) ← declarators true true [] c.next
  if names.isEmpty then .error (c.fault .declaresNothing)
  else
    return (⟨.exportVariables names after.last.stop (after.last.isPunctuator ";"),
      first.start.offset, c.offset⟩, after)

theorem reaches_declarators {fresh awaiting : Bool} {names found : List String} {c c' : Cursor}
    (h : declarators fresh awaiting names c = .ok (found, c')) : c.Reaches c' := by
  fun_induction declarators fresh awaiting names c with
  | case1 | case3 =>
    cases h
    exact .refl _
  | case2 fresh awaiting names c t ts hrest =>
    cases h
    exact Cursor.reaches_of_cons hrest
  | case5 | case7 => cases h
  | case4 _ _ c t ts hrest _ _ _ ih => exact (Cursor.reaches_of_cons hrest).trans (ih h)
  | case6 _ _ c t ts hrest _ _ _ _ inside after hclose ih =>
    have hafter : Cursor.Reaches ⟨t, ts⟩ after :=
      Cursor.reaches_of_suffix (matchingClose_suffix hclose)
    exact ((Cursor.reaches_of_cons hrest).trans hafter).trans (ih h)
  | case8 _ _ _ c t ts hrest _ _ _ ih => exact (Cursor.reaches_of_cons hrest).trans (ih h)

theorem reaches_exportVariables {first : Token} {c c' : Cursor} {statement : Statement}
    (h : exportVariables first c = .ok (statement, c')) : c.Reaches c' := by
  unfold exportVariables at h
  obtain ⟨⟨names, d⟩, hd, h⟩ := bind_eq_ok.1 h
  dsimp only at h
  split at h
  · cases h
  · cases h
    exact c.reaches_next.trans (reaches_declarators hd)

end ModuleBundler.Script
