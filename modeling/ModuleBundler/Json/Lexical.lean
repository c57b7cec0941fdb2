import ModuleBundler.Json.Magnitude
import ModuleBundler.Text.CodeUnit

/-
  The smallest parts of JSON texts: blanks, words, numbers and strings. A part is read from the
  front of a text and leaves the rest. What is wrong with a text is told by kind only: it ends too
  early, it is no JSON, or it is JSON of another shape than asked for.
-/

namespace ModuleBundler.Json

open Text

/-- What is wrong with a text. -/
inductive ReadFault where
  /-- Not JSON. -/
  | malformed
  /-- The text ends too early. -/
  | truncated
  /-- JSON, but not of the shape that was asked for. -/
  | mismatched
  deriving DecidableEq, Repr, Inhabited

/-! ## Blanks and words -/

/-- A character that may stand between the parts of a text. -/
def isBlank (c : Char) : Bool := c == ' ' || c == '\n' || c == '\t' || c == '\r'

/-- The text after the blanks at its front. -/
def skipBlank (input : List Char) : List Char := input.dropWhile isBlank

theorem skipBlank_length (input : List Char) : (skipBlank input).length ≤ input.length :=
  (input.dropWhile_sublist isBlank).length_le

/-- The text after a word. -/
def expectWord : List Char → List Char → Except ReadFault (List Char)
  | [], input => .ok input
  | _ :: _, [] => .error .truncated
  | w :: ws, c :: cs => if c == w then expectWord ws cs else .error .malformed

theorem expectWord_length {word input rest : List Char} (h : expectWord word input = .ok rest) :
    rest.length ≤ input.length := by
  fun_induction expectWord word input with
  | case1 => cases h; exact Nat.le_refl _
  | case2 => cases h
  | case3 w ws c cs hc ih => have := ih h; simp only [List.length_cons]; omega
  | case4 => cases h

/-! ## Numbers -/

/-- The digits at the front of a text, and the rest. -/
def digits (input : List Char) : List Char × List Char :=
  (input.takeWhile Char.isDigit, input.dropWhile Char.isDigit)

/-- The text without a sign at its front, and whether the sign was a minus. -/
def exponentSign : List Char → Bool × List Char
  | '+' :: cs => (false, cs)
  | '-' :: cs => (true, cs)
  | cs => (false, cs)

/-- What is wrong with the exponent of a number, if one follows its digits, or with its size. -/
def exponentFault (number : Scaled) (input : List Char) : Option ReadFault :=
  let finish (places : Int) : Option ReadFault :=
    if (number.shift places).isTooLarge then some .malformed else none
  match input with
  | c :: cs =>
    if c == 'e' || c == 'E' then
      let (negative, cs) := exponentSign cs
      match digits cs with
      | ([], []) => some .truncated
      | ([], _ :: _) => some .malformed
      | (es, _) => finish (if negative then -(decimal es : Int) else decimal es)
    else finish 0
  | [] => finish 0

/-- What is wrong with the number at the front of a text, after its sign. -/
def numberFault (input : List Char) : Option ReadFault :=
  match digits input with
  | ([], []) => some .truncated
  | ([], _ :: _) => some .malformed
  | (whole, rest) =>
    if whole.head? == some '0' && 1 < whole.length then some .malformed
    else
      match rest with
      | '.' :: cs =>
        match digits cs with
        | ([], []) => some .truncated
        | ([], _ :: _) => some .malformed
        | (fraction, after) => exponentFault (.ofDigits whole fraction) after
      | _ => exponentFault (.ofDigits whole []) rest

/-- The text after an exponent, if there is one. -/
def skipExponent (input : List Char) : Option (List Char) :=
  match input with
  | c :: cs =>
    if c == 'e' || c == 'E' then
      match digits (exponentSign cs).2 with
      | ([], _) => none
      | (_, rest) => some rest
    else some input
  | [] => some []

/-- The text after the number at its front, after the sign. Its size does not matter. -/
def skipNumber (input : List Char) : Option (List Char) :=
  match digits input with
  | ([], _) => none
  | (whole, rest) =>
    if whole.head? == some '0' && 1 < whole.length then none
    else
      match rest with
      | '.' :: cs =>
        match digits cs with
        | ([], _) => none
        | (_, after) => skipExponent after
      | _ => skipExponent rest

theorem digits_length (input : List Char) :
    (digits input).1.length + (digits input).2.length = input.length := by
  rw [digits, ← List.length_append, List.takeWhile_append_dropWhile]

theorem exponentSign_length (input : List Char) :
    (exponentSign input).2.length ≤ input.length := by
  unfold exponentSign; split <;> simp

theorem skipExponent_length {input rest : List Char} (h : skipExponent input = some rest) :
    rest.length ≤ input.length := by
  unfold skipExponent at h
  split at h
  · next c cs =>
    split at h
    · have hd := digits_length (exponentSign cs).2
      have hs := exponentSign_length cs
      split at h
      · cases h
      · next hr => cases h; simp only [hr, List.length_cons] at *; omega
    · cases h; exact Nat.le_refl _
  · cases h; exact Nat.le_refl _

theorem skipNumber_length {input rest : List Char} (h : skipNumber input = some rest) :
    rest.length < input.length := by
  unfold skipNumber at h
  have hi := digits_length input
  split at h
  · cases h
  · next whole after hw hd =>
    have hw : 0 < whole.length := List.length_pos_iff.2 fun h => by simp [h] at hw
    rw [hd] at hi
    split at h
    · cases h
    · split at h
      · next cs =>
        have hc := digits_length cs
        split at h
        · cases h
        · next hf =>
          have := skipExponent_length h
          simp only [hf, List.length_cons] at *
          omega
      · have := skipExponent_length h
        simp only at hi
        omega

/-! ## Strings -/

/-- The unit that four hexadecimal digits name, and the rest. Where fewer than four bytes are left
the text ends too early. -/
def hexUnit (input : List Char) : Except ReadFault (Nat × List Char) :=
  if (String.ofList (input.take 4)).utf8ByteSize < 4 then .error .truncated
  else
    match hexDigits 4 0 input with
    | (some unit, rest) => .ok (unit, rest)
    | (none, _) => .error .malformed

theorem hexUnit_length {input rest : List Char} {unit : Nat}
    (h : hexUnit input = .ok (unit, rest)) : rest.length ≤ input.length := by
  unfold hexUnit at h
  split at h
  · cases h
  · split at h
    · next hd => cases h; simpa [hd] using hexDigits_length 4 0 input
    · cases h

/-- The character of a pair of UTF-16 units whose first half was read, from the text after it, and
the rest. -/
def pairChar (high : Nat) (input : List Char) : Except ReadFault (Char × List Char) :=
  match expectWord ['\\', 'u'] input with
  | .error e => .error e
  | .ok cs =>
    match hexUnit cs with
    | .error e => .error e
    | .ok (low, rest) =>
      if isLowSurrogate low then .ok (Char.ofNat (combineSurrogates high low), rest)
      else .error .malformed

theorem pairChar_length {high : Nat} {input rest : List Char} {c : Char}
    (h : pairChar high input = .ok (c, rest)) : rest.length ≤ input.length := by
  unfold pairChar at h
  split at h
  · cases h
  · next hw =>
    have hw := expectWord_length hw
    split at h
    · cases h
    · next hu =>
      have hu := hexUnit_length hu
      split at h
      · simp only [Except.ok.injEq, Prod.mk.injEq] at h
        exact h.2 ▸ Nat.le_trans hu hw
      · cases h

/-- The character that a Unicode escape names, from the text after its letter, and the rest. The
two halves of a pair must both be there. -/
def unicodeChar (input : List Char) : Except ReadFault (Char × List Char) :=
  match hexUnit input with
  | .error e => .error e
  | .ok (unit, rest) =>
    if isLowSurrogate unit then .error .malformed
    else if isHighSurrogate unit then pairChar unit rest
    else .ok (Char.ofNat unit, rest)

theorem unicodeChar_length {input rest : List Char} {c : Char}
    (h : unicodeChar input = .ok (c, rest)) : rest.length ≤ input.length := by
  unfold unicodeChar at h
  split at h
  · cases h
  · next hu =>
    have hu := hexUnit_length hu
    split at h
    · cases h
    · split at h
      · exact Nat.le_trans (pairChar_length h) hu
      · cases h; exact hu

/-- The character of an escape with one letter. -/
def shortEscape? (c : Char) : Option Char :=
  match c with
  | '"' => some '"'
  | '\\' => some '\\'
  | '/' => some '/'
  | 'b' => some '\x08'
  | 'f' => some '\x0c'
  | 'n' => some '\n'
  | 'r' => some '\r'
  | 't' => some '\t'
  | _ => none

/-- The character that an escape stands for, from the text after its backslash, and the rest. -/
def escapedValue : List Char → Except ReadFault (Char × List Char)
  | [] => .error .truncated
  | 'u' :: cs => unicodeChar cs
  | c :: cs =>
    match shortEscape? c with
    | some value => .ok (value, cs)
    | none => .error .malformed

theorem escapedValue_length {input rest : List Char} {c : Char}
    (h : escapedValue input = .ok (c, rest)) : rest.length ≤ input.length := by
  unfold escapedValue at h
  split at h
  · cases h
  · have := unicodeChar_length h; simp only [List.length_cons]; omega
  · split at h
    · cases h; simp
    · cases h

/-- The value of a string after its opening quote, and the rest after its closing one. -/
def stringBody (input : List Char) : Except ReadFault (List Char × List Char) :=
  match input with
  | [] => .error .truncated
  | '"' :: cs => .ok ([], cs)
  | '\\' :: cs =>
    match _h : escapedValue cs with
    | .error e => .error e
    | .ok (c, rest) =>
      match stringBody rest with
      | .error e => .error e
      | .ok (value, after) => .ok (c :: value, after)
  | c :: cs =>
    if c.toNat < 0x20 then .error .malformed
    else
      match stringBody cs with
      | .error e => .error e
      | .ok (value, after) => .ok (c :: value, after)
termination_by input.length
decreasing_by
  · have := escapedValue_length _h; simp only [List.length_cons]; omega
  · simp

theorem stringBody_length {input value rest : List Char}
    (h : stringBody input = .ok (value, rest)) : rest.length ≤ input.length := by
  fun_induction stringBody input generalizing value with
  | case1 => cases h
  | case2 => cases h; simp
  | case3 => cases h
  | case4 => cases h
  | case5 cs c r hr v a hb ih =>
    cases h
    have := ih hb
    have := escapedValue_length hr
    simp only [List.length_cons]; omega
  | case6 => cases h
  | case7 => cases h
  | case8 c cs _ _ hc v a hb ih =>
    cases h
    have := ih hb
    simp only [List.length_cons]; omega

/-- The text after a string whose quote is open. Halves of pairs may stand alone in a string that
is passed over. -/
def skipString (input : List Char) : Except ReadFault (List Char) :=
  match input with
  | [] => .error .truncated
  | '"' :: cs => .ok cs
  | ['\\'] => .error .truncated
  | '\\' :: 'u' :: cs =>
    match _h : hexUnit cs with
    | .error e => .error e
    | .ok (_, rest) => skipString rest
  | '\\' :: c :: cs => if (shortEscape? c).isSome then skipString cs else .error .malformed
  | c :: cs => if c.toNat < 0x20 then .error .malformed else skipString cs
termination_by input.length
decreasing_by
  · have := hexUnit_length _h; simp only [List.length_cons]; omega
  · simp only [List.length_cons]; omega
  · simp

theorem skipString_length {input rest : List Char} (h : skipString input = .ok rest) :
    rest.length ≤ input.length := by
  fun_induction skipString input with
  | case1 => cases h
  | case2 => cases h; simp
  | case3 => cases h
  | case4 => cases h
  | case5 cs u r hr ih =>
    have := ih h
    have := hexUnit_length hr
    simp only [List.length_cons]; omega
  | case6 c cs _ _ ih => have := ih h; simp only [List.length_cons]; omega
  | case7 => cases h
  | case8 => cases h
  | case9 c cs _ _ _ _ _ ih => have := ih h; simp only [List.length_cons]; omega

end ModuleBundler.Json
