import Mathlib.Algebra.Group.Nat.Defs
import ModuleBundler.Proofs.Scanning

/-
  What the escapes of a literal stand for. The text of a literal is taken apart into pieces, each of
  which has a value of its own: characters, escapes of all kinds and continued lines. The reader
  looks ahead over the end of an escape, for the second half of a pair and for the line feed behind
  a carriage return, but never takes what belongs to the next piece (`bodyValue_piece`). So a
  literal stands for the values of its pieces one after the other, with one exception: braces that
  hold a plus sign in front of the digits are read without it (`stringValue_pieces_iff`).
-/

namespace ModuleBundler.Script

variable {c mark : Char} {cs ds rest : List Char} {n code : Nat}

/-! ## Hexadecimal numbers -/

/-- The hexadecimal digits in the order of their values. -/
def hexLetters : List Char :=
  ['0', '1', '2', '3', '4', '5', '6', '7', '8', '9', 'a', 'b', 'c', 'd', 'e', 'f']

/-- Whether a character is a hexadecimal digit, small or capital. -/
def isHexDigit (c : Char) : Bool := hexLetters.contains c.toLower

/-- The value of a hexadecimal digit. -/
def digitValue (c : Char) : Nat := hexLetters.idxOf c.toLower

/-- The number that hexadecimal digits name. -/
def hexNumber (ds : List Char) : Nat := ds.foldl (fun n d => 16 * n + digitValue d) 0

/-- Whether a text is a hexadecimal number of some digits. -/
def IsHex (count : Nat) (ds : List Char) : Prop := ds.length = count ∧ ds.all isHexDigit = true

instance (count : Nat) (ds : List Char) : Decidable (IsHex count ds) :=
  inferInstanceAs (Decidable (_ ∧ _))

/-! ## Pieces -/

/-- The ends of lines over which a literal goes on. -/
inductive LineEnd where
  | lineFeed
  | carriageReturn
  | both
  | lineSeparator
  | paragraphSeparator
  deriving DecidableEq, Repr

/-- The characters of the end of a line. -/
def LineEnd.text : LineEnd → List Char
  | .lineFeed => ['\n']
  | .carriageReturn => ['\r']
  | .both => ['\r', '\n']
  | .lineSeparator => ['\u2028']
  | .paragraphSeparator => ['\u2029']

/-- The pieces of a literal. -/
inductive Piece where
  /-- A character that stands for itself. -/
  | plain (c : Char)
  /-- A character after a backslash. -/
  | single (c : Char)
  /-- Two digits after the letter `x`. -/
  | byte (digits : List Char)
  /-- Four digits after the letter `u`. -/
  | unit (digits : List Char)
  /-- Two times four digits, the halves of one character. -/
  | pair (high low : List Char)
  /-- A text in braces after the letter `u`. -/
  | braced (digits : List Char)
  /-- The end of a line after a backslash. -/
  | continuation (lineEnd : LineEnd)
  deriving DecidableEq, Repr

/-- The character that one after a backslash stands for. -/
def singleValue (c : Char) : Char :=
  match c with
  | 'n' => '\n'
  | 't' => '\t'
  | 'r' => '\r'
  | 'b' => '\x08'
  | 'f' => '\x0c'
  | 'v' => '\x0b'
  | '0' => '\x00'
  | c => c

/-- The character that a text in braces stands for: the one that it names as a hexadecimal number,
or the replacement character if it is no such number or names no character. -/
def bracedValue (digits : List Char) : Char :=
  if digits ≠ [] ∧ digits.all isHexDigit = true ∧ (hexNumber digits).isValidChar then
    Char.ofNat (hexNumber digits)
  else '\ufffd'

namespace Piece

/-- The text of a piece. -/
def text : Piece → List Char
  | .plain c => [c]
  | .single c => ['\\', c]
  | .byte digits => '\\' :: 'x' :: digits
  | .unit digits => '\\' :: 'u' :: digits
  | .pair high low => '\\' :: 'u' :: (high ++ '\\' :: 'u' :: low)
  | .braced digits => '\\' :: 'u' :: '{' :: (digits ++ ['}'])
  | .continuation lineEnd => '\\' :: lineEnd.text

/-- What a piece stands for. -/
def value : Piece → List Char
  | .plain c => [c]
  | .single c => [singleValue c]
  | .byte digits => [Char.ofNat (hexNumber digits)]
  | .unit digits => [Char.ofNat (hexNumber digits)]
  | .pair high low =>
    [Char.ofNat (0x10000 + (hexNumber high - 0xd800) * 0x400 + (hexNumber low - 0xdc00))]
  | .braced digits => [bracedValue digits]
  | .continuation _ => []

/-- Whether a piece is spelled as its kind asks. The halves of pairs stand in pairs only. -/
def WellSpelled : Piece → Prop
  | .plain c => c ∉ ['\\', '\n', '\r']
  | .single c => c ∉ ['x', 'u', '\n', '\r', '\u2028', '\u2029']
  | .byte digits => IsHex 2 digits
  | .unit digits => IsHex 4 digits ∧ (hexNumber digits < 0xd800 ∨ 0xdfff < hexNumber digits)
  | .pair high low => IsHex 4 high ∧ IsHex 4 low ∧
    (0xd800 ≤ hexNumber high ∧ hexNumber high ≤ 0xdbff) ∧
    (0xdc00 ≤ hexNumber low ∧ hexNumber low ≤ 0xdfff)
  | .braced digits => '}' ∉ digits
  | .continuation _ => True

instance : DecidablePred WellSpelled
  | .plain c => inferInstanceAs (Decidable (c ∉ _))
  | .single c => inferInstanceAs (Decidable (c ∉ _))
  | .byte _ => inferInstanceAs (Decidable (IsHex _ _))
  | .unit _ => inferInstanceAs (Decidable (_ ∧ (_ ∨ _)))
  | .pair _ _ => inferInstanceAs (Decidable (_ ∧ _ ∧ (_ ∧ _) ∧ (_ ∧ _)))
  | .braced digits => inferInstanceAs (Decidable ('}' ∉ digits))
  | .continuation _ => inferInstanceAs (Decidable True)

/-- What is read for a piece: in braces, a plus sign in front of the digits is passed over. -/
def decoded : Piece → List Char
  | .braced ('+' :: digits) => [bracedValue digits]
  | p => p.value

/-- Whether a piece is read as a character that it does not stand for. -/
def IsMisread : Piece → Prop
  | .braced ('+' :: digits) => bracedValue digits ≠ '\ufffd'
  | _ => False

end Piece

variable {p : Piece} {pieces : List Piece}

/-! ## Reading digits -/

theorem lt_of_isHexDigit (h : isHexDigit c = true) : c.toNat < 128 := by
  by_cases hupper : c.val ≥ 'A'.val ∧ c.val ≤ 'Z'.val
  · have : c.toNat ≤ 90 := UInt32.le_iff_toNat_le.1 hupper.2
    omega
  · have hlower : c.toLower = c := dif_neg hupper
    have hall : hexLetters.all (fun d => d.toNat < 128) = true := by decide
    rw [isHexDigit, hlower, List.contains_iff_mem] at h
    exact of_decide_eq_true (List.all_eq_true.1 hall c h)

/-- The two ways to tell the value of a digit agree. -/
theorem hexValue_eq (c : Char) :
    Text.hexValue c = if isHexDigit c then some (digitValue c) else none := by
  by_cases hc : c.toNat < 128
  · have hall : (Text.hexValue c == if isHexDigit c then some (digitValue c) else none) = true :=
      of_forall_ascii
        (p := fun c => Text.hexValue c == if isHexDigit c then some (digitValue c) else none)
        (by decide) hc
    exact beq_iff_eq.1 hall
  · have hdigit : ¬ isHexDigit c = true := fun h => hc (lt_of_isHexDigit h)
    have hgt : ∀ d : Char, d.toNat < 128 → ¬ c ≤ d := by
      intro d hd hle
      have : c.toNat ≤ d.toNat := UInt32.le_iff_toNat_le.1 hle
      omega
    rw [if_neg hdigit, Text.hexValue]
    simp [hgt]

/-- Hexadecimal digits are read as the number that they name. -/
theorem hexDigits_append (h : ds.all isHexDigit = true) (code : Nat) (rest : List Char) :
    Text.hexDigits ds.length code (ds ++ rest) =
      (some (ds.foldl (fun n d => 16 * n + digitValue d) code), rest) := by
  induction ds generalizing code with
  | nil => rfl
  | cons d ds ih =>
    rw [List.all_cons, Bool.and_eq_true] at h
    rw [List.length_cons, List.cons_append, Text.hexDigits, hexValue_eq, if_pos h.1]
    dsimp only
    rw [ih h.2, Nat.mul_comm code, List.foldl_cons]

theorem hexDigits_of_isHex {count : Nat} (h : IsHex count ds) (rest : List Char) :
    Text.hexDigits count 0 (ds ++ rest) = (some (hexNumber ds), rest) := by
  obtain ⟨rfl, hall⟩ := h
  exact hexDigits_append hall 0 rest

theorem digitValue_lt (h : isHexDigit c = true) : digitValue c < 16 := by
  rw [isHexDigit, List.contains_iff_mem] at h
  exact List.idxOf_lt_length_of_mem h

/-- A number is bounded by how many digits it has. -/
theorem foldl_digits_lt (h : ds.all isHexDigit = true) (code : Nat) :
    ds.foldl (fun n d => 16 * n + digitValue d) code < (code + 1) * 16 ^ ds.length := by
  induction ds generalizing code with
  | nil => simp
  | cons d ds ih =>
    rw [List.all_cons, Bool.and_eq_true] at h
    have hd := digitValue_lt h.1
    have hle : 16 * code + digitValue d + 1 ≤ (code + 1) * 16 := by omega
    calc (d :: ds).foldl (fun n d => 16 * n + digitValue d) code
        < (16 * code + digitValue d + 1) * 16 ^ ds.length := ih h.2 _
      _ ≤ (code + 1) * 16 * 16 ^ ds.length := Nat.mul_le_mul_right _ hle
      _ = (code + 1) * 16 ^ (d :: ds).length := by
        rw [List.length_cons, Nat.pow_succ, Nat.mul_assoc, Nat.mul_comm 16]

theorem hexNumber_lt {count : Nat} (h : IsHex count ds) : hexNumber ds < 16 ^ count := by
  obtain ⟨rfl, hall⟩ := h
  have hlt := foldl_digits_lt hall 0
  rwa [Nat.zero_add, Nat.one_mul] at hlt

/-- A text with another character is no number. -/
theorem hexDigits_eq_none (h : ds.all isHexDigit = false) (code : Nat) :
    (Text.hexDigits ds.length code ds).1 = none := by
  induction ds generalizing code with
  | nil => cases h
  | cons d ds ih =>
    rw [List.length_cons, Text.hexDigits, hexValue_eq]
    by_cases hd : isHexDigit d = true
    · rw [List.all_cons, hd, Bool.true_and] at h
      rw [if_pos hd]
      exact ih h _
    · rw [if_neg hd]

/-! ## Reading pieces -/

theorem charOfCode_of_isValidChar (h : n.isValidChar) : charOfCode (some n) = Char.ofNat n :=
  if_pos h

/-- A code that fits 32 bits is kept, and no other names a character. -/
theorem charOfCode_bounded (n : Nat) :
    charOfCode (if n < 0x100000000 then some n else none) = charOfCode (some n) := by
  split
  · rfl
  · next hlarge =>
    have hinvalid : ¬ n.isValidChar := by
      rintro (hlow | ⟨-, hhigh⟩) <;> omega
    exact (if_neg hinvalid).symm

/-- What is read for digits, once the sign is passed over. -/
theorem charOfCode_digits (ds : List Char) :
    charOfCode (if ds.isEmpty then none
      else match Text.hexDigits ds.length 0 ds with
        | (some code, _) => if code < 0x100000000 then some code else none
        | (none, _) => none) = bracedValue ds := by
  rw [bracedValue]
  by_cases hnil : ds = []
  · rw [hnil]
    rfl
  · rw [if_neg (by simpa using hnil)]
    cases hall : ds.all isHexDigit with
    | true =>
      have hdigits := hexDigits_append hall 0 []
      rw [List.append_nil] at hdigits
      rw [hdigits]
      dsimp only
      rw [charOfCode_bounded, charOfCode]
      simp only [ne_eq, hnil, not_false_eq_true, true_and]
      rfl
    | false =>
      have hdigits := hexDigits_eq_none hall 0
      rw [if_neg (by simp)]
      split
      · next heq =>
        rw [heq] at hdigits
        cases hdigits
      · rfl

theorem bracedCode_of_ne (h : ∀ digits, ds ≠ '+' :: digits) :
    bracedCode ds = if ds.isEmpty then none
      else match Text.hexDigits ds.length 0 ds with
        | (some code, _) => if code < 0x100000000 then some code else none
        | (none, _) => none := by
  unfold bracedCode
  split
  · next digits => exact absurd rfl (h digits)
  · rfl

/-- What is read between braces. -/
theorem charOfCode_bracedCode (ds : List Char) :
    [charOfCode (bracedCode ds)] = (Piece.braced ds).decoded := by
  unfold Piece.decoded
  split
  · next digits heq =>
    cases heq
    rw [← charOfCode_digits]
    rfl
  · next hsign =>
    have hplain : ∀ digits, ds ≠ '+' :: digits := fun digits heq => hsign digits (heq ▸ rfl)
    rw [Piece.value, ← charOfCode_digits, bracedCode_of_ne hplain]

theorem escapeValue_single (hc : c ∉ ['x', 'u', '\n', '\r', '\u2028', '\u2029'])
    (rest : List Char) : escapeValue (c :: rest) = ([singleValue c], rest) := by
  simp only [List.mem_cons, List.not_mem_nil, or_false, not_or] at hc
  obtain ⟨hx, hu, hlf, hcr, hls, hps⟩ := hc
  unfold escapeValue
  split
  · next heq => cases heq
  · next heq => exact absurd (List.cons_eq_cons.1 heq).1 hx
  · next heq => exact absurd (List.cons_eq_cons.1 heq).1 hu
  · next heq => exact absurd (List.cons_eq_cons.1 heq).1 hcr
  · next heq =>
    obtain ⟨rfl, rfl⟩ := List.cons_eq_cons.1 heq
    unfold singleValue
    split <;> simp_all

theorem escapeValue_continuation (lineEnd : LineEnd) (hrest : rest.head? ≠ some '\n') :
    escapeValue (lineEnd.text ++ rest) = ([], rest) := by
  cases lineEnd with
  | lineFeed => rfl
  | carriageReturn =>
    cases rest with
    | nil => rfl
    | cons c rest =>
      have hc : c ≠ '\n' := fun heq => hrest (congrArg some heq)
      show escapeValue ('\r' :: c :: rest) = _
      unfold escapeValue
      split
      · next heq => cases heq
      · next heq => cases heq
      · next heq => cases heq
      · next heq => exact absurd (List.cons_eq_cons.1 (List.cons_eq_cons.1 heq).2).1 hc
      · next heq =>
        obtain ⟨rfl, rfl⟩ := List.cons_eq_cons.1 heq
        rfl
  | both => rfl
  | lineSeparator => rfl
  | paragraphSeparator => rfl

theorem escapeValue_byte (cs : List Char) : escapeValue ('x' :: cs) =
    ([charOfCode (Text.hexDigits 2 0 cs).1], (Text.hexDigits 2 0 cs).2) :=
  rfl

theorem ne_brace_of_isHex {count : Nat} (h : IsHex (count + 1) ds) :
    ∃ d ds', ds = d :: ds' ∧ d ≠ '{' := by
  obtain ⟨hlength, hall⟩ := h
  obtain ⟨d, ds', rfl⟩ := List.exists_cons_of_length_eq_add_one hlength
  refine ⟨d, ds', rfl, ?_⟩
  rintro rfl
  cases hall

/-- Four digits that are no half of a pair are read alone. -/
theorem unicodeEscape_unit (h : IsHex 4 ds)
    (hhigh : ¬ (0xd800 ≤ hexNumber ds ∧ hexNumber ds ≤ 0xdbff))
    (rest : List Char) : unicodeEscape (ds ++ rest) = (some (hexNumber ds), rest) := by
  obtain ⟨d, ds', rfl, hd⟩ := ne_brace_of_isHex h
  have hnone : Text.isHighSurrogate (hexNumber (d :: ds')) = false := by
    rw [Text.isHighSurrogate, Bool.eq_false_iff]
    simpa using hhigh
  rw [unicodeEscape, hexDigits_of_isHex h]
  · dsimp only
    rw [hnone]
    rfl
  · intro cs heq
    exact hd (List.cons_eq_cons.1 heq).1

/-- Two halves are read together. -/
theorem unicodeEscape_pair {high low : List Char} (hhigh : IsHex 4 high) (hlow : IsHex 4 low)
    (hfirst : 0xd800 ≤ hexNumber high ∧ hexNumber high ≤ 0xdbff)
    (hsecond : 0xdc00 ≤ hexNumber low ∧ hexNumber low ≤ 0xdfff) (rest : List Char) :
    unicodeEscape (high ++ '\\' :: 'u' :: (low ++ rest)) =
      (some (Text.combineSurrogates (hexNumber high) (hexNumber low)), rest) := by
  obtain ⟨d, ds', rfl, hd⟩ := ne_brace_of_isHex hhigh
  have hishigh : Text.isHighSurrogate (hexNumber (d :: ds')) = true := by
    simpa [Text.isHighSurrogate] using hfirst
  have hislow : Text.isLowSurrogate (hexNumber low) = true := by
    simpa [Text.isLowSurrogate] using hsecond
  rw [unicodeEscape, hexDigits_of_isHex hhigh]
  · dsimp only
    rw [if_pos hishigh]
    split
    · next ahead heq =>
      obtain rfl := (List.cons_eq_cons.1 (List.cons_eq_cons.1 heq).2).2
      rw [hexDigits_of_isHex hlow]
      dsimp only
      rw [if_pos hislow]
    · next hne => exact absurd rfl (hne _)
  · intro cs heq
    exact hd (List.cons_eq_cons.1 heq).1

/-- A text in braces is read up to the first brace that closes. -/
theorem unicodeEscape_braced (h : '}' ∉ ds) (rest : List Char) :
    unicodeEscape ('{' :: (ds ++ '}' :: rest)) = (bracedCode ds, rest) := by
  have hall : ∀ d ∈ ds, (d != '}') = true := by
    intro d hd
    rw [bne_iff_ne]
    rintro rfl
    exact h hd
  have hdrop : (ds ++ '}' :: rest).dropWhile (· != '}') = '}' :: rest := by
    rw [List.dropWhile_append_of_pos hall]
    rfl
  have htake : (ds ++ '}' :: rest).takeWhile (· != '}') = ds := by
    rw [List.takeWhile_append_of_pos hall]
    simp
  rw [unicodeEscape, hdrop, htake]

/-- A piece is read as it is decoded, whatever piece follows. -/
theorem bodyValue_piece (h : p.WellSpelled) (hrest : rest.head? ≠ some '\n') :
    bodyValue (p.text ++ rest) = p.decoded ++ bodyValue rest := by
  cases p with
  | plain c =>
    have hback : c ≠ '\\' := fun heq => h (by simp [heq])
    exact bodyValue_plain hback rest
  | single c =>
    rw [Piece.text, List.cons_append, List.singleton_append, bodyValue_escape, escapeValue_single h]
    rfl
  | byte digits =>
    have hlt : hexNumber digits < 16 ^ 2 := hexNumber_lt h
    have hvalid : (hexNumber digits).isValidChar := Or.inl (by omega)
    show bodyValue ('\\' :: 'x' :: (digits ++ rest)) = _
    rw [bodyValue_escape, escapeValue_byte, hexDigits_of_isHex h, charOfCode_of_isValidChar hvalid]
    rfl
  | unit digits =>
    obtain ⟨hhex, hscalar⟩ := h
    have hlt : hexNumber digits < 16 ^ 4 := hexNumber_lt hhex
    have hvalid : (hexNumber digits).isValidChar := by
      rcases hscalar with hlow | hhigh
      · exact Or.inl hlow
      · exact Or.inr ⟨hhigh, by omega⟩
    show bodyValue ('\\' :: 'u' :: (digits ++ rest)) = _
    rw [bodyValue_escape, escapeValue_unicode, unicodeEscape_unit hhex (by omega),
      charOfCode_of_isValidChar hvalid]
    rfl
  | pair high low =>
    obtain ⟨hhigh, hlow, hfirst, hsecond⟩ := h
    have hvalid : (Text.combineSurrogates (hexNumber high) (hexNumber low)).isValidChar := by
      have hcode : Text.combineSurrogates (hexNumber high) (hexNumber low) =
        0x10000 + (hexNumber high - 0xd800) * 0x400 + (hexNumber low - 0xdc00) := rfl
      exact Or.inr ⟨by omega, by omega⟩
    have htext : (Piece.pair high low).text ++ rest =
        '\\' :: 'u' :: (high ++ '\\' :: 'u' :: (low ++ rest)) := by
      simp [Piece.text]
    rw [htext, bodyValue_escape, escapeValue_unicode,
      unicodeEscape_pair hhigh hlow hfirst hsecond, charOfCode_of_isValidChar hvalid]
    rfl
  | braced digits =>
    have htext : (Piece.braced digits).text ++ rest =
        '\\' :: 'u' :: '{' :: (digits ++ '}' :: rest) := by
      simp [Piece.text]
    rw [htext, bodyValue_escape, escapeValue_unicode, unicodeEscape_braced h,
      charOfCode_bracedCode]
  | continuation lineEnd =>
    rw [Piece.text, List.cons_append, bodyValue_escape, escapeValue_continuation lineEnd hrest]
    rfl

/-! ## Literals -/

/-- No piece begins with a line feed. -/
theorem head?_flatMap_text (h : ∀ p ∈ pieces, p.WellSpelled) :
    (pieces.flatMap Piece.text).head? ≠ some '\n' := by
  cases pieces with
  | nil => simp
  | cons p pieces =>
    have hp := h p List.mem_cons_self
    rw [List.flatMap_cons]
    cases p with
    | plain c =>
      intro heq
      obtain rfl := Option.some.inj heq
      exact hp (by decide)
    | single | byte | unit | pair | braced | continuation => exact fun heq => by cases heq

/-- The pieces of a literal are read one after the other. -/
theorem bodyValue_pieces (h : ∀ p ∈ pieces, p.WellSpelled) :
    bodyValue (pieces.flatMap Piece.text) = pieces.flatMap Piece.decoded := by
  induction pieces with
  | nil => rw [List.flatMap_nil, bodyValue]; rfl
  | cons p pieces ih =>
    obtain ⟨hp, hpieces⟩ := List.forall_mem_cons.1 h
    rw [List.flatMap_cons, List.flatMap_cons, bodyValue_piece hp (head?_flatMap_text hpieces),
      ih hpieces]

/-- A literal of pieces between two quotes. -/
def literalOf (mark : Char) (pieces : List Piece) : String :=
  String.ofList (mark :: (pieces.flatMap Piece.text ++ [mark]))

theorem stringValue_pieces (mark : Char) (h : ∀ p ∈ pieces, p.WellSpelled) :
    stringValue (literalOf mark pieces) = String.ofList (pieces.flatMap Piece.decoded) := by
  rw [stringValue, literalOf, String.toList_ofList, List.drop_one, List.tail_cons,
    List.dropLast_concat, bodyValue_pieces h]

/-- A piece is misread where it is decoded as something else than it stands for. -/
theorem Piece.decoded_eq_value_iff (p : Piece) : p.decoded = p.value ↔ ¬ p.IsMisread := by
  unfold Piece.decoded Piece.IsMisread
  split
  · next digits =>
    have hsign : bracedValue ('+' :: digits) = '\ufffd' := by
      refine if_neg ?_
      rintro ⟨-, hall, -⟩
      cases hall
    rw [Piece.value, hsign, Decidable.not_not, List.cons_eq_cons, and_iff_left rfl]
  · simp

theorem Piece.length_decoded (p : Piece) : p.decoded.length = p.value.length := by
  unfold Piece.decoded
  split <;> rfl

theorem flatMap_decoded_eq_iff (pieces : List Piece) :
    pieces.flatMap Piece.decoded = pieces.flatMap Piece.value ↔ ∀ p ∈ pieces, ¬ p.IsMisread := by
  induction pieces with
  | nil => simp
  | cons p pieces ih =>
    rw [List.flatMap_cons, List.flatMap_cons, List.forall_mem_cons, ← ih,
      ← Piece.decoded_eq_value_iff]
    constructor
    · intro heq
      exact List.append_inj heq p.length_decoded
    · rintro ⟨hp, hpieces⟩
      rw [hp, hpieces]

/-- A literal stands for the values of its pieces, one after the other, unless one of them is a
number in braces with a plus sign. -/
theorem stringValue_pieces_iff (mark : Char) (h : ∀ p ∈ pieces, p.WellSpelled) :
    stringValue (literalOf mark pieces) = String.ofList (pieces.flatMap Piece.value) ↔
      ∀ p ∈ pieces, ¬ p.IsMisread := by
  rw [stringValue_pieces mark h, String.ofList_inj, flatMap_decoded_eq_iff]

/-- Pieces of every kind; halves of a pair next to a character of one unit, a carriage return in
front of a character, and braces around a large number, no number, and nothing. -/
def mixedPieces : List Piece :=
  [.plain 'a', .continuation .carriageReturn, .single 'n', .byte ['4', 'a'],
    .pair ['d', '8', '3', 'd'] ['D', 'E', '0', '0'], .unit ['d', '7', 'f', 'f'],
    .braced ['0', '0', '1', 'F', '6', '0', '0'], .braced ['1', '1', '0', '0', '0', '0'],
    .braced ['+'], .braced [], .continuation .both, .single '0', .plain '1', .single '\\']

theorem stringValue_mixedPieces : (∀ p ∈ mixedPieces, p.WellSpelled) ∧
    mixedPieces.flatMap Piece.value =
      ['a', '\n', 'J', Char.ofNat 0x1f600, '\ud7ff', Char.ofNat 0x1f600, '\ufffd', '\ufffd',
        '\ufffd', '\x00', '1', '\\'] ∧
    (∀ p ∈ mixedPieces, ¬ p.IsMisread) ∧
    stringValue (literalOf '"' mixedPieces) = String.ofList (mixedPieces.flatMap Piece.value) := by
  have hspelled : ∀ p ∈ mixedPieces, p.WellSpelled := by decide
  have hdecoded : ∀ p ∈ mixedPieces, p.decoded = p.value := by decide
  have hread : ∀ p ∈ mixedPieces, ¬ p.IsMisread := fun p hp =>
    p.decoded_eq_value_iff.1 (hdecoded p hp)
  exact ⟨hspelled, by decide, hread, (stringValue_pieces_iff '"' hspelled).2 hread⟩

/-- A number in braces with a plus sign is no valid escape, but it is read as the character that the
number names. -/
theorem signed_escape : (Piece.braced ['+', '4', '1']).WellSpelled ∧
    (Piece.braced ['+', '4', '1']).value = ['\ufffd'] ∧
    literalOf '"' [.braced ['+', '4', '1']] = "\"\\u\x7b+41\x7d\"" ∧
    stringValue "\"\\u\x7b+41\x7d\"" = "A" := by
  refine ⟨by decide, by decide, by decide, by decide +kernel⟩

end ModuleBundler.Script
