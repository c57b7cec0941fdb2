import ModuleBundler.Script.Lexeme

/-
  Cutting a script into its tokens. What a slash or a closing brace means depends on what came
  before, so the scanner keeps the depth of nesting, the depths at which substitutions of
  templates are open, and for each open parenthesis whether it holds the condition of a control
  statement.
-/

namespace ModuleBundler.Script

/-- What the scanner knows between two tokens. -/
structure Scanner where
  position : Position
  depth : Nat
  /-- The depths inside the open substitutions, innermost first. -/
  substitutions : List Nat
  /-- For each open parenthesis, innermost first, whether it is the head of a control
  statement. -/
  heads : List Bool
  /-- Whether the last token closed the head of a control statement. -/
  afterHead : Bool
  /-- The tokens so far, newest first. -/
  done : List Token
  deriving Repr, Inhabited

namespace Scanner

/-- The scanner at the beginning of a text. -/
def initial : Scanner := ⟨Position.first, 0, [], [], false, []⟩

/-- The names after which an expression begins, so that a slash begins a regular expression. -/
def expressionKeywords : List String :=
  ["return", "typeof", "instanceof", "in", "of", "new", "delete", "void", "throw", "case", "do",
   "else", "yield", "await"]

/-- Whether a template token ends by opening a substitution. -/
def opensSubstitution (t : Token) : Bool := ['$', '{'].isSuffixOf t.text.toList

/-- Whether a slash begins a regular expression here, as the token before decides. -/
def regexAllowed (s : Scanner) : Bool :=
  match s.done with
  | [] => true
  | last :: _ =>
    match last.kind with
    | .punctuator => if last.text == ")" then s.afterHead else last.text != "]"
    | .name => expressionKeywords.contains last.text
    | .template => opensSubstitution last
    | .string | .regex | .number => false

/-- Whether a parenthesis that opens here holds the condition of a control statement. -/
def opensHead (s : Scanner) : Bool :=
  match s.done with
  | [] => false
  | last :: before =>
    if last.isName "await" then
      match before with
      | [] => false
      | t :: _ => t.isName "for"
    else last.isName "if" || last.isName "while" || last.isName "for" || last.isName "with"

/-- Whether a closing brace ends the innermost substitution here. -/
def closesSubstitution (s : Scanner) : Bool := s.substitutions.head? == some s.depth

/-- Adds a token and moves past it. -/
def push (s : Scanner) (token : Token) (chars : List Char) : Scanner :=
  { s with position := token.start.after chars, done := token :: s.done, afterHead := false }

/-- Takes in the part of a template that `chars` spell. -/
def takeTemplate (s : Scanner) (start : Position) (newline closes opens : Bool)
    (chars : List Char) : Scanner :=
  let outside := if closes then s.depth - 1 else s.depth
  let outer := if closes then s.substitutions.tail else s.substitutions
  let depth := if opens then outside + 1 else outside
  let s := s.push ⟨.template, String.ofList chars, start, depth, newline⟩ chars
  { s with depth, substitutions := if opens then depth :: outer else outer }

/-- Takes in an opening bracket. -/
def takeOpener (s : Scanner) (start : Position) (newline : Bool) (chars : List Char) : Scanner :=
  let heads := if chars == ['('] then s.opensHead :: s.heads else s.heads
  let depth := s.depth
  let s := s.push ⟨.punctuator, String.ofList chars, start, depth, newline⟩ chars
  { s with depth := depth + 1, heads }

/-- Takes in a closing bracket, of which at least one must be due. -/
def takeCloser (s : Scanner) (start : Position) (newline : Bool) (chars : List Char) :
    Except SyntaxError Scanner :=
  match s.depth with
  | 0 => .error (start.fault (.unmatchedCloser (String.ofList chars)))
  | depth + 1 =>
    let heads := s.heads
    let s := s.push ⟨.punctuator, String.ofList chars, start, depth, newline⟩ chars
    if chars == [')'] then
      .ok { s with depth, heads := heads.tail, afterHead := heads.head?.getD false }
    else .ok { s with depth }

/-- Takes in the lexeme that `chars` spell. -/
def take (s : Scanner) (start : Position) (newline : Bool) (lexeme : Lexeme)
    (chars : List Char) : Except SyntaxError Scanner :=
  match lexeme with
  | .template closes opens _ => .ok (s.takeTemplate start newline closes opens chars)
  | .plain kind _ =>
    if kind == .punctuator && (chars == ['('] || chars == ['['] || chars == ['{']) then
      .ok (s.takeOpener start newline chars)
    else if kind == .punctuator && (chars == [')'] || chars == [']'] || chars == ['}']) then
      s.takeCloser start newline chars
    else .ok (s.push ⟨kind, String.ofList chars, start, s.depth, newline⟩ chars)

/-- Scans the rest of a text. -/
def run (s : Scanner) (input : List Char) : Except SyntaxError (List Token) :=
  match blankLength .between 0 false input with
  | .error before => .error ((s.position.after (input.take before)).fault .unterminatedComment)
  | .ok (blank, newline) =>
    let start := s.position.after (input.take blank)
    match _h : input.drop blank with
    | [] =>
      if s.substitutions.isEmpty then .ok s.done.reverse
      else .error (start.fault .unterminatedSubstitution)
    | c :: rest =>
      match lexemeAt s.closesSubstitution s.regexAllowed c rest with
      | .error fault => .error (start.fault fault)
      | .ok lexeme =>
        match s.take start newline lexeme (c :: rest.take lexeme.more) with
        | .error e => .error e
        | .ok s => run s (rest.drop lexeme.more)
termination_by input.length
decreasing_by
  have := congrArg List.length _h
  simp only [List.length_drop, List.length_cons] at *
  omega

end Scanner

/-- The tokens of a script. A hashbang line at the front is passed over. -/
def scanChars (input : List Char) : Except SyntaxError (List Token) :=
  let n := hashbangLength input
  { Scanner.initial with position := Position.first.after (input.take n) }.run (input.drop n)

/-- The tokens of a script. -/
def scan (source : String) : Except SyntaxError (List Token) := scanChars source.toList

end ModuleBundler.Script
