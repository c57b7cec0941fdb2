import ModuleBundler.Script.SyntaxError
import ModuleBundler.Text.Blank
import ModuleBundler.Text.Letters

/-
  How far the piece at the front of a text reaches: blanks and comments between tokens, names,
  numbers, strings, regular expressions and the parts of templates. Every function here counts
  characters and never changes the text, so that a token and the text after it always make up
  the text again.
-/

namespace ModuleBundler.Script

/-! ## Characters -/

/-- A character that ends a line outside comments. -/
def isLineBreak (c : Char) : Bool := c == '\n' || c == '\u2028' || c == '\u2029'

/-- A character that separates tokens and belongs to none. The byte order mark counts. -/
def isSpace (c : Char) : Bool := Text.isBlank c || c == '\ufeff'

/-- A character that can begin a name. A number sign begins a private name. -/
def startsName (c : Char) : Bool := c == '_' || c == '$' || c == '#' || Text.isAlphabetic c

/-- A character that can continue a name; the two joiners can. -/
def continuesName (c : Char) : Bool :=
  c == '_' || c == '$' || Text.isAlphanumeric c || c == '\u200c' || c == '\u200d'

/-- A character that can continue a number, its fraction, exponent and suffix included. -/
def continuesNumber (c : Char) : Bool := c.isAlphanum || c == '.' || c == '_'

/-! ## Between tokens -/

/-- Where the reader of blanks stands: between comments, in a comment that ends with its line, or
in one that ends with its mark and began after `start` characters. -/
inductive BlankMode where
  | between
  | lineComment
  | blockComment (start : Nat)

/-- The blank part at the front of a text: its length, on top of the `n` characters already
passed, and whether a line ends in it. A comment without end is an error that tells how many
characters stand before it. -/
def blankLength : BlankMode → Nat → Bool → List Char → Except Nat (Nat × Bool)
  | .between, n, newline, '/' :: '/' :: cs => blankLength .lineComment (n + 2) newline cs
  | .between, n, newline, '/' :: '*' :: cs => blankLength (.blockComment n) (n + 2) newline cs
  | .between, n, newline, c :: cs =>
    if isLineBreak c then blankLength .between (n + 1) true cs
    else if isSpace c then blankLength .between (n + 1) newline cs
    else .ok (n, newline)
  | .lineComment, n, newline, c :: cs =>
    if c == '\n' then blankLength .between (n + 1) true cs
    else blankLength .lineComment (n + 1) newline cs
  | .blockComment _, n, newline, '*' :: '/' :: cs => blankLength .between (n + 2) newline cs
  | .blockComment start, n, newline, c :: cs =>
    blankLength (.blockComment start) (n + 1) (newline || c == '\n') cs
  | .blockComment start, _, _, [] => .error start
  | _, n, newline, [] => .ok (n, newline)

/-- The length of the line at the front of a text that begins with a hashbang, and nothing
otherwise. The line feed is not part of it. -/
def hashbangLength : List Char → Nat
  | '#' :: '!' :: cs => 2 + (cs.takeWhile (· != '\n')).length
  | _ => 0

/-! ## Tokens -/

/-- The end of a string after its opening quote, on top of `n` characters. A backslash protects
the character after it, a line feed included; any other line feed leaves the string without
end. -/
def stringLength (quote : Char) : Nat → List Char → Option Nat
  | n, '\\' :: _ :: cs => stringLength quote (n + 2) cs
  | n, c :: cs =>
    if c == quote then some (n + 1)
    else if c == '\n' then none
    else stringLength quote (n + 1) cs
  | _, [] => none

/-- The end of a part of a template, on top of `n` characters, and whether it ends by opening a
substitution. -/
def templateLength : Nat → List Char → Option (Nat × Bool)
  | n, '\\' :: _ :: cs => templateLength (n + 2) cs
  | n, '$' :: '{' :: _ => some (n + 2, true)
  | n, c :: cs => if c == '\x60' then some (n + 1, false) else templateLength (n + 1) cs
  | _, [] => none

/-- The end of a regular expression after its opening slash, on top of `n` characters; a slash
inside a class of characters does not end it. -/
def regexLength : Bool → Nat → List Char → Option Nat
  | inClass, n, '\\' :: _ :: cs => regexLength inClass (n + 2) cs
  | inClass, n, c :: cs =>
    if c == '[' then regexLength true (n + 1) cs
    else if c == ']' then regexLength false (n + 1) cs
    else if c == '/' && !inClass then some (n + 1)
    else if c == '\n' then none
    else regexLength inClass (n + 1) cs
  | _, _, [] => none

/-- How many characters follow the first of a punctuator: the spread sign and the arrow are taken
whole, all others are single. -/
def punctuatorLength (c : Char) (rest : List Char) : Nat :=
  match c, rest with
  | '.', '.' :: '.' :: _ => 2
  | '=', '>' :: _ => 1
  | _, _ => 0

/-- What the characters at the front of a text make up, with the number of characters after the
first. -/
inductive Lexeme where
  /-- Any token that is not part of a template. -/
  | plain (kind : TokenKind) (more : Nat)
  /-- Part of a template: whether it closes a substitution at its front, and opens one at its
  end. -/
  | template (closes opens : Bool) (more : Nat)
  deriving DecidableEq, Repr

/-- The number of characters after the first. -/
def Lexeme.more : Lexeme → Nat
  | .plain _ more => more
  | .template _ _ more => more

/-- The lexeme at the front of a text that begins with the character `c`. `closing` says that a
closing brace ends a substitution here, and `regex` that a slash begins a regular expression. -/
def lexemeAt (closing regex : Bool) (c : Char) (rest : List Char) : Except Fault Lexeme :=
  if c == '"' || c == '\x27' then
    match stringLength c 0 rest with
    | some more => .ok (.plain .string more)
    | none => .error .unterminatedString
  else if c == '\x60' || (c == '}' && closing) then
    match templateLength 0 rest with
    | some (more, opens) => .ok (.template (c == '}') opens more)
    | none => .error .unterminatedTemplate
  else if c.isDigit || (c == '.' && rest.head?.any Char.isDigit) then
    .ok (.plain .number (rest.takeWhile continuesNumber).length)
  else if startsName c then
    .ok (.plain .name (rest.takeWhile continuesName).length)
  else if c == '/' && regex then
    match regexLength false 0 rest with
    | some more =>
      .ok (.plain .regex (more + ((rest.drop more).takeWhile continuesName).length))
    | none => .error .unterminatedRegex
  else .ok (.plain .punctuator (punctuatorLength c rest))

end ModuleBundler.Script
