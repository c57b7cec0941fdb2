/-
  Tokens of a script. A script is cut into names, punctuators and literals without a grammar:
  enough to find the module statements at the top level and to leave all other text alone. Each
  token knows where it starts, how deep it is nested in brackets, and whether a line ends between
  it and the token before.
-/

namespace ModuleBundler.Script

/-! ## Positions -/

/-- A place in a text: the bytes before it in UTF-8, its line, and its column in characters. Lines
and columns are counted from one. -/
structure Position where
  offset : Nat
  line : Nat
  column : Nat
  deriving DecidableEq, Repr, Inhabited

/-- The beginning of a text. -/
def Position.first : Position := ⟨0, 1, 1⟩

/-- The place after one more character. Only a line feed begins a line. -/
def Position.next (p : Position) (c : Char) : Position :=
  if c == '\n' then ⟨p.offset + c.utf8Size, p.line + 1, 1⟩
  else ⟨p.offset + c.utf8Size, p.line, p.column + 1⟩

/-- The place after more characters. -/
def Position.after (p : Position) (cs : List Char) : Position := cs.foldl Position.next p

@[simp] theorem Position.after_nil (p : Position) : p.after [] = p := rfl

@[simp] theorem Position.after_cons (p : Position) (c : Char) (cs : List Char) :
    p.after (c :: cs) = (p.next c).after cs := rfl

theorem Position.after_append (p : Position) (cs ds : List Char) :
    p.after (cs ++ ds) = (p.after cs).after ds := by
  simp [Position.after, List.foldl_append]

/-! ## Tokens -/

/-- The kinds of tokens. A template is cut at its substitutions into several tokens. -/
inductive TokenKind where
  | name
  | punctuator
  | string
  | template
  | regex
  | number
  deriving DecidableEq, Repr, Inhabited

/-- A token. The depth of an opening bracket is the one outside it, and so is the depth of a
closing bracket, so that the two of a pair agree. -/
structure Token where
  kind : TokenKind
  text : String
  start : Position
  depth : Nat
  newlineBefore : Bool
  deriving DecidableEq, Repr, Inhabited

namespace Token

/-- The offset of the first byte after the token. -/
def stop (t : Token) : Nat := t.start.offset + t.text.utf8ByteSize

/-- Whether the token is this punctuator. -/
def isPunctuator (t : Token) (text : String) : Bool := t.kind == .punctuator && t.text == text

/-- Whether the token is this name. -/
def isName (t : Token) (text : String) : Bool := t.kind == .name && t.text == text

/-- Whether the token is a closing bracket. -/
def isCloser (t : Token) : Bool :=
  t.isPunctuator "\x7d" || t.isPunctuator ")" || t.isPunctuator "]"

end Token

end ModuleBundler.Script
