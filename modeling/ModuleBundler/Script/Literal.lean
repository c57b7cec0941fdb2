import ModuleBundler.Text.CodeUnit

/-
  String literals: the value that a literal in a script stands for, and a double-quoted literal
  for any value. Escapes that name no character stand for the replacement character.
-/

namespace ModuleBundler.Script

open Text

/-! ## Reading -/

/-- The number that the text between the braces of an escape names: hexadecimal digits, at most 32
bits wide, after an optional plus sign. -/
def bracedCode (digits : List Char) : Option Nat :=
  let digits := match digits with
    | '+' :: ds => ds
    | ds => ds
  if digits.isEmpty then none
  else
    match hexDigits digits.length 0 digits with
    | (some code, _) => if code < 0x100000000 then some code else none
    | (none, _) => none

/-- The number that follows the letter `u` of an escape, and the text after it. A first half takes
the escape after it as its second half, if it is one. -/
def unicodeEscape (cs : List Char) : Option Nat × List Char :=
  match cs with
  | '{' :: rest =>
    match rest.dropWhile (· != '}') with
    | [] => (none, [])
    | _ :: after => (bracedCode (rest.takeWhile (· != '}')), after)
  | _ =>
    match hexDigits 4 0 cs with
    | (none, rest) => (none, rest)
    | (some high, rest) =>
      if isHighSurrogate high then
        match rest with
        | '\\' :: 'u' :: ahead =>
          match hexDigits 4 0 ahead with
          | (some low, after) =>
            if isLowSurrogate low then (some (combineSurrogates high low), after)
            else (some high, rest)
          | (none, _) => (some high, rest)
        | _ => (some high, rest)
      else (some high, rest)

theorem unicodeEscape_length (cs : List Char) : (unicodeEscape cs).2.length ≤ cs.length := by
  unfold unicodeEscape
  split
  · next rest =>
    have h := (rest.dropWhile_sublist (· != '}')).length_le
    split
    · simp
    · next after h' => rw [h'] at h; simp only [List.length_cons] at *; omega
  · split
    · next rest h => simpa [h] using hexDigits_length 4 0 cs
    · next high rest h =>
      have hr : rest.length ≤ cs.length := by simpa [h] using hexDigits_length 4 0 cs
      split
      · split
        · next ahead =>
          split
          · next low after h' =>
            have ha : after.length ≤ ahead.length := by simpa [h'] using hexDigits_length 4 0 ahead
            split
            · simp only [List.length_cons] at *; omega
            · exact hr
          · exact hr
        · exact hr
      · exact hr

/-- The character with a code, or the replacement character where the code names none. -/
def charOfCode : Option Nat → Char
  | some code => if code.isValidChar then Char.ofNat code else '\ufffd'
  | none => '\ufffd'

/-- The characters that an escape stands for, given the text after its backslash, and the text
after the escape. A line break after the backslash continues the literal on the next line. -/
def escapeValue : List Char → List Char × List Char
  | [] => ([], [])
  | 'x' :: cs => ([charOfCode (hexDigits 2 0 cs).1], (hexDigits 2 0 cs).2)
  | 'u' :: cs => ([charOfCode (unicodeEscape cs).1], (unicodeEscape cs).2)
  | '\r' :: '\n' :: cs => ([], cs)
  | c :: cs =>
    let value := match c with
      | 'n' => ['\n']
      | 't' => ['\t']
      | 'r' => ['\r']
      | 'b' => ['\x08']
      | 'f' => ['\x0c']
      | 'v' => ['\x0b']
      | '0' => ['\x00']
      | '\r' => []
      | '\n' => []
      | '\u2028' => []
      | '\u2029' => []
      | c => [c]
    (value, cs)

theorem escapeValue_length (cs : List Char) : (escapeValue cs).2.length ≤ cs.length := by
  unfold escapeValue
  split
  · simp
  · next cs => have := hexDigits_length 2 0 cs; simp only [List.length_cons]; omega
  · next cs => have := unicodeEscape_length cs; simp only [List.length_cons]; omega
  · simp only [List.length_cons]; omega
  · simp only [List.length_cons]; omega

/-- The value of the text between the quotes. -/
def bodyValue : List Char → List Char
  | [] => []
  | '\\' :: cs => (escapeValue cs).1 ++ bodyValue (escapeValue cs).2
  | c :: cs => c :: bodyValue cs
termination_by cs => cs.length
decreasing_by
  · have := escapeValue_length cs; simp only [List.length_cons]; omega
  · simp

/-- The value of a literal. Its first and last characters are the quotes and are not looked at. -/
def stringValue (literal : String) : String :=
  String.ofList (bodyValue (literal.toList.drop 1).dropLast)

/-! ## Writing -/

/-- Four hexadecimal digits, in lower case. -/
def fourHexDigits (n : Nat) : List Char :=
  [n / 4096 % 16, n / 256 % 16, n / 16 % 16, n % 16].map Nat.digitChar

/-- A character as it stands in a double-quoted literal. -/
def quotedChar (c : Char) : List Char :=
  match c with
  | '"' => ['\\', '"']
  | '\\' => ['\\', '\\']
  | '\n' => ['\\', 'n']
  | '\r' => ['\\', 'r']
  | '\t' => ['\\', 't']
  | '\u2028' => ['\\', 'u', '2', '0', '2', '8']
  | '\u2029' => ['\\', 'u', '2', '0', '2', '9']
  | c => if c.toNat < 0x20 then '\\' :: 'u' :: fourHexDigits c.toNat else [c]

/-- The double-quoted literal of a value. -/
def quote (value : String) : String :=
  String.ofList ('"' :: (value.toList.flatMap quotedChar ++ ['"']))

/-! ## Names -/

/-- Whether a character can begin a plain name: one of ASCII characters only. -/
def startsPlainName (c : Char) : Bool := c == '_' || c == '$' || c.isAlpha

/-- Whether a character can continue a plain name. -/
def continuesPlainName (c : Char) : Bool := c == '_' || c == '$' || c.isAlphanum

/-- Whether a text is a plain name. -/
def isPlainName (text : String) : Bool :=
  match text.toList with
  | [] => false
  | c :: cs => startsPlainName c && cs.all continuesPlainName

/-- Access to the property with a name: after a dot where the name is plain, else by its literal
in brackets. -/
def member (name : String) : String :=
  if isPlainName name then "." ++ name else "[" ++ quote name ++ "]"

end ModuleBundler.Script
