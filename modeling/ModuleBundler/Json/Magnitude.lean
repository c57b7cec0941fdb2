/-
  The size of the numbers of JSON texts. A number is worked out in double precision in three
  steps, each rounded to the nearest double, a half to the even one: the leading digits that fit
  into 64 bits, as a whole number; the power of ten that the other digits and the exponent ask for;
  the product of the two. A number is too large where the product is.
-/

namespace ModuleBundler.Json

/-- The value of a decimal digit. -/
def digitValue (c : Char) : Nat := c.toNat - '0'.toNat

/-- The number that decimal digits spell. -/
def decimal (ds : List Char) : Nat := ds.foldl (fun n c => n * 10 + digitValue c) 0

/-- Appends decimal digits to a number, up to the first with which it no longer fits into 64 bits.
Gives the number and the digits that are left. -/
def appendDigits (n : Nat) : List Char → Nat × List Char
  | [] => (n, [])
  | d :: ds =>
    let next := n * 10 + digitValue d
    if next < UInt64.size then appendDigits next ds else (n, d :: ds)

/-- A whole number times a power of ten. -/
structure Scaled where
  significand : Nat
  exponent : Int
  deriving DecidableEq, Repr

/-- The number with given digits before and after the point. Of the digits that no longer fit into
64 bits, those before the point count as places, and those after it not at all. -/
def Scaled.ofDigits (whole fraction : List Char) : Scaled :=
  let (n, unread) := appendDigits 0 whole
  let (significand, ignored) := appendDigits n fraction
  ⟨significand, unread.length + ignored.length - fraction.length⟩

/-- The number with its point moved to the right. -/
def Scaled.shift (number : Scaled) (places : Int) : Scaled :=
  { number with exponent := number.exponent + places }

/-- The whole number with 53 significant bits that is nearest to a number, of two the even one. -/
def nearestDouble (n : Nat) : Nat :=
  let unit := Nat.pow 2 (n.log2 - 52)
  let below := n / unit
  let twice := 2 * (n % unit)
  if unit < twice || (unit == twice && below % 2 == 1) then (below + 1) * unit else below * unit

/-- The least number whose nearest double would need an exponent that is out of range. -/
def doubleLimit : Nat := Nat.pow 2 1024 - Nat.pow 2 970

/-- Whether a number is out of the range of doubles. A power of ten beyond 10^308 is out of range
on its own, whatever it is multiplied with, except by zero. -/
def Scaled.isTooLarge (number : Scaled) : Bool :=
  number.significand != 0 &&
    (308 < number.exponent ||
      0 ≤ number.exponent &&
        doubleLimit ≤ nearestDouble number.significand *
          nearestDouble (Nat.pow 10 number.exponent.toNat))

end ModuleBundler.Json
