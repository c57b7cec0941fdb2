/-
  Codes of characters as escapes spell them: hexadecimal numbers, and pairs of UTF-16 units for
  the characters that need two.
-/

namespace ModuleBundler.Text

/-- The value of a hexadecimal digit. -/
def hexValue (c : Char) : Option Nat :=
  if '0' ≤ c && c ≤ '9' then some (c.toNat - '0'.toNat)
  else if 'a' ≤ c && c ≤ 'f' then some (c.toNat - 'a'.toNat + 10)
  else if 'A' ≤ c && c ≤ 'F' then some (c.toNat - 'A'.toNat + 10)
  else none

/-- The number that `count` hexadecimal digits name, on top of `code`, and the text after it. At a
character that is no digit the number is given up and that character is left. -/
def hexDigits : Nat → Nat → List Char → Option Nat × List Char
  | 0, code, cs => (some code, cs)
  | _ + 1, _, [] => (none, [])
  | count + 1, code, c :: cs =>
    match hexValue c with
    | some digit => hexDigits count (code * 16 + digit) cs
    | none => (none, c :: cs)

theorem hexDigits_length (count code : Nat) (cs : List Char) :
    (hexDigits count code cs).2.length ≤ cs.length := by
  fun_induction hexDigits count code cs with
  | case1 => simp
  | case2 => simp
  | case3 count code c cs digit h ih => simp only [List.length_cons]; omega
  | case4 => simp

/-- Whether a number is the first half of a pair of UTF-16 units. -/
def isHighSurrogate (n : Nat) : Bool := 0xd800 ≤ n && n ≤ 0xdbff

/-- Whether a number is the second half of a pair of UTF-16 units. -/
def isLowSurrogate (n : Nat) : Bool := 0xdc00 ≤ n && n ≤ 0xdfff

/-- The code point of a pair of UTF-16 units. -/
def combineSurrogates (high low : Nat) : Nat := 0x10000 + (high - 0xd800) * 0x400 + (low - 0xdc00)

end ModuleBundler.Text
