/-
  Bytes as text. `decode` reads UTF-8 and, where the bytes are not a text, says what is wrong with
  the first sequence that is not a character: how long the part is that cannot be continued, or
  that the bytes end inside a sequence which was sound so far.
-/

namespace ModuleBundler.Text

/-- Why bytes are not UTF-8, with the index of the first byte of the sequence at fault. -/
inductive Utf8Fault where
  /-- The first `length` bytes of the sequence start no character. -/
  | invalid (length index : Nat)
  /-- The bytes end inside a character. -/
  | incomplete (index : Nat)
  deriving DecidableEq, Repr

/-- The wording of a fault. -/
def Utf8Fault.message : Utf8Fault → String
  | .invalid length index => s!"invalid utf-8 sequence of {length} bytes from index {index}"
  | .incomplete index => s!"incomplete utf-8 byte sequence from index {index}"

/-- The ranges in which the bytes after a first byte must lie, or `none` if the byte starts no
character. -/
def continuations (first : UInt8) : Option (List (Nat × Nat)) :=
  let b := first.toNat
  if b < 0x80 then some []
  else if b < 0xc2 then none
  else if b < 0xe0 then some [(0x80, 0xbf)]
  else if b == 0xe0 then some [(0xa0, 0xbf), (0x80, 0xbf)]
  else if b == 0xed then some [(0x80, 0x9f), (0x80, 0xbf)]
  else if b < 0xf0 then some [(0x80, 0xbf), (0x80, 0xbf)]
  else if b == 0xf0 then some [(0x90, 0xbf), (0x80, 0xbf), (0x80, 0xbf)]
  else if b < 0xf4 then some [(0x80, 0xbf), (0x80, 0xbf), (0x80, 0xbf)]
  else if b == 0xf4 then some [(0x80, 0x8f), (0x80, 0xbf), (0x80, 0xbf)]
  else none

/-- What is wrong with the bytes that should continue the character at `index`, of which `seen`
bytes are sound. -/
def sequenceFault (index : Nat) : List (Nat × Nat) → Nat → List UInt8 → Option Utf8Fault
  | [], _, _ => none
  | _ :: _, _, [] => some (.incomplete index)
  | (low, high) :: wanted, seen, b :: bs =>
    if low ≤ b.toNat && b.toNat ≤ high then sequenceFault index wanted (seen + 1) bs
    else some (.invalid seen index)

/-- The first fault in bytes that start at `index`. -/
def firstFault (index : Nat) : List UInt8 → Option Utf8Fault
  | [] => none
  | b :: bs =>
    match continuations b with
    | none => some (.invalid 1 index)
    | some wanted =>
      match sequenceFault index wanted 1 bs with
      | some fault => some fault
      | none => firstFault (index + 1 + wanted.length) (bs.drop wanted.length)
termination_by bs => bs.length
decreasing_by simp only [List.length_drop, List.length_cons]; omega

/-- Reads bytes as a text. -/
def decode (bytes : ByteArray) : Except Utf8Fault String :=
  match String.fromUTF8? bytes with
  | some text => .ok text
  | none => .error ((firstFault 0 bytes.toList).getD (.incomplete bytes.size))

/-- The bytes of a text. -/
def encode (text : String) : ByteArray := text.toUTF8

/-- Reading back the bytes of a text gives the text. -/
theorem decode_encode (text : String) : decode (encode text) = .ok text := by
  have h : String.fromUTF8? text.toByteArray = some text := by
    simp only [String.fromUTF8?, text.isValidUTF8, dite_true]
    rfl
  simp [decode, encode, h]

end ModuleBundler.Text
