import ModuleBundler.Script.Lexeme
import ModuleBundler.Script.Literal

/-
  Quoted values read back. A double-quoted literal ends for the scanner where it ends
  (`stringLength_quoted`), and its value is the text it was made from (`stringValue_quote`). Both
  are proved one character at a time: what stands for a character is passed over whole, and stands
  for that character.
-/

namespace ModuleBundler.Script

/-! ## Where a quoted value ends -/

/-- A character that stands for itself between double quotes. -/
def isPlainInQuotes (c : Char) : Bool := c != '"' && c != '\\' && c != '\n'

theorem stringLength_plain {c : Char} (h : isPlainInQuotes c = true) (n : Nat) (cs : List Char) :
    stringLength '"' n (c :: cs) = stringLength '"' (n + 1) cs := by
  rw [isPlainInQuotes, Bool.and_eq_true, Bool.and_eq_true, bne_iff_ne, bne_iff_ne, bne_iff_ne] at h
  have hquote : ¬ (c == '"') = true := fun heq => h.1.1 (beq_iff_eq.1 heq)
  have hline : ¬ (c == '\n') = true := fun heq => h.2 (beq_iff_eq.1 heq)
  rw [stringLength, if_neg hquote, if_neg hline]
  intro d ds heq
  exact absurd heq h.1.2

theorem stringLength_plain_append {cs : List Char} (h : cs.all isPlainInQuotes = true) (n : Nat)
    (ds : List Char) : stringLength '"' n (cs ++ ds) = stringLength '"' (n + cs.length) ds := by
  induction cs generalizing n with
  | nil => rfl
  | cons c cs ih =>
    rw [List.all_cons, Bool.and_eq_true] at h
    rw [List.cons_append, stringLength_plain h.1, ih h.2, List.length_cons, Nat.add_assoc,
      Nat.add_comm 1]

theorem stringLength_escape (c : Char) (n : Nat) (cs : List Char) :
    stringLength '"' n ('\\' :: c :: cs) = stringLength '"' (n + 2) cs := by
  rw [stringLength]

theorem isPlainInQuotes_digitChar {n : Nat} (h : n < 16) :
    isPlainInQuotes (Nat.digitChar n) = true := by
  have hall : ∀ k : Fin 16, isPlainInQuotes (Nat.digitChar k) = true := by decide
  exact hall ⟨n, h⟩

theorem all_fourHexDigits (n : Nat) : (fourHexDigits n).all isPlainInQuotes = true := by
  rw [List.all_eq_true]
  intro c hc
  rw [fourHexDigits, List.mem_map] at hc
  obtain ⟨d, hd, rfl⟩ := hc
  apply isPlainInQuotes_digitChar
  simp only [List.mem_cons, List.not_mem_nil, or_false] at hd
  omega

/-- What stands for a character is passed over whole. -/
theorem stringLength_quotedChar (c : Char) (n : Nat) (cs : List Char) :
    stringLength '"' n (quotedChar c ++ cs) = stringLength '"' (n + (quotedChar c).length) cs := by
  unfold quotedChar
  split
  · exact stringLength_escape _ n cs
  · exact stringLength_escape _ n cs
  · exact stringLength_escape _ n cs
  · exact stringLength_escape _ n cs
  · exact stringLength_escape _ n cs
  · rw [List.cons_append, List.cons_append, stringLength_escape]
    have hdigits : ['2', '0', '2', '8'].all isPlainInQuotes = true := by decide
    exact stringLength_plain_append hdigits (n + 2) cs
  · rw [List.cons_append, List.cons_append, stringLength_escape]
    have hdigits : ['2', '0', '2', '9'].all isPlainInQuotes = true := by decide
    exact stringLength_plain_append hdigits (n + 2) cs
  · next hquote hback hline _ _ _ _ =>
    split
    · rw [List.cons_append, List.cons_append, stringLength_escape,
        stringLength_plain_append (all_fourHexDigits c.toNat), List.length_cons, List.length_cons]
      exact congrArg (stringLength '"' · cs) (by omega)
    · refine stringLength_plain ?_ n cs
      rw [isPlainInQuotes, Bool.and_eq_true, Bool.and_eq_true, bne_iff_ne, bne_iff_ne, bne_iff_ne]
      exact ⟨⟨hquote, hback⟩, hline⟩

/-- A text that is spelled so that every character is passed over ends at the quote after it. -/
theorem stringLength_flatMap {spelled : Char → List Char}
    (hspelled : ∀ c n cs,
      stringLength '"' n (spelled c ++ cs) = stringLength '"' (n + (spelled c).length) cs)
    (text : List Char) (n : Nat) (cs : List Char) :
    stringLength '"' n (text.flatMap spelled ++ '"' :: cs) =
      some (n + (text.flatMap spelled).length + 1) := by
  induction text generalizing n with
  | nil => rfl
  | cons c text ih =>
    rw [List.flatMap_cons, List.append_assoc, hspelled, ih, List.length_append, Nat.add_assoc n]

/-- A quoted text ends at the quote after it. -/
theorem stringLength_quoted (text : List Char) (n : Nat) (cs : List Char) :
    stringLength '"' n (text.flatMap quotedChar ++ '"' :: cs) =
      some (n + (text.flatMap quotedChar).length + 1) :=
  stringLength_flatMap stringLength_quotedChar text n cs

/-! ## What a quoted value stands for -/

theorem bodyValue_plain {c : Char} (h : c ≠ '\\') (cs : List Char) :
    bodyValue (c :: cs) = c :: bodyValue cs := by
  rw [bodyValue]
  exact h

theorem bodyValue_escape (cs : List Char) :
    bodyValue ('\\' :: cs) = (escapeValue cs).1 ++ bodyValue (escapeValue cs).2 := by
  rw [bodyValue]

theorem escapeValue_unicode (cs : List Char) :
    escapeValue ('u' :: cs) = ([charOfCode (unicodeEscape cs).1], (unicodeEscape cs).2) :=
  rfl

/-- The digits of a control character name its code. -/
theorem hexDigits_control {n : Nat} (h : n < 0x20) (cs : List Char) :
    Text.hexDigits 4 0 ('0' :: '0' :: Nat.digitChar (n / 16) :: Nat.digitChar (n % 16) :: cs) =
      (some n, cs) := by
  have hvalues : ∀ k : Fin 0x20,
      Text.hexValue (Nat.digitChar (k / 16)) = some (k.val / 16) ∧
      Text.hexValue (Nat.digitChar (k % 16)) = some (k.val % 16) := by decide
  simp only [Text.hexDigits, (hvalues ⟨n, h⟩).1, (hvalues ⟨n, h⟩).2,
    show Text.hexValue '0' = some 0 from rfl]
  rw [show ((0 * 16 + 0) * 16 + 0) * 16 + n / 16 = n / 16 by omega,
    show n / 16 * 16 + n % 16 = n by omega]

theorem fourHexDigits_control {n : Nat} (h : n < 0x20) :
    fourHexDigits n = ['0', '0', Nat.digitChar (n / 16), Nat.digitChar (n % 16)] := by
  have hdigits : ∀ k : Fin 0x20, fourHexDigits k =
      ['0', '0', Nat.digitChar (k / 16), Nat.digitChar (k % 16)] := by decide
  exact hdigits ⟨n, h⟩

/-- Four hexadecimal digits name the code they were made from. -/
theorem unicodeEscape_fourHexDigits {n : Nat} (h : n < 0x20) (cs : List Char) :
    unicodeEscape (fourHexDigits n ++ cs) = (some n, cs) := by
  have hzero : fourHexDigits n ++ cs =
      '0' :: '0' :: Nat.digitChar (n / 16) :: Nat.digitChar (n % 16) :: cs := by
    rw [fourHexDigits_control h]
    rfl
  have hhigh : ¬ Text.isHighSurrogate n = true := by
    rw [Text.isHighSurrogate, Bool.and_eq_true, decide_eq_true_eq]
    omega
  rw [hzero, unicodeEscape, hexDigits_control h]
  · dsimp only
    rw [if_neg hhigh]
  · intro rest heq
    cases heq

/-- What stands for a character stands for it. -/
theorem bodyValue_quotedChar (c : Char) (cs : List Char) :
    bodyValue (quotedChar c ++ cs) = c :: bodyValue cs := by
  unfold quotedChar
  split
  · exact bodyValue_escape ('"' :: cs)
  · exact bodyValue_escape ('\\' :: cs)
  · exact bodyValue_escape ('n' :: cs)
  · exact bodyValue_escape ('r' :: cs)
  · exact bodyValue_escape ('t' :: cs)
  · exact bodyValue_escape ('u' :: '2' :: '0' :: '2' :: '8' :: cs)
  · exact bodyValue_escape ('u' :: '2' :: '0' :: '2' :: '9' :: cs)
  · next hback _ _ _ _ _ =>
    split
    · next hlow =>
      have hvalid : c.toNat.isValidChar := c.valid
      rw [List.cons_append, List.cons_append, bodyValue_escape, escapeValue_unicode,
        unicodeEscape_fourHexDigits hlow, charOfCode, if_pos hvalid,
        Char.ofNat_toNat]
      rfl
    · exact bodyValue_plain hback cs

theorem bodyValue_quoted (text : List Char) : bodyValue (text.flatMap quotedChar) = text := by
  induction text with
  | nil => rw [List.flatMap_nil, bodyValue]
  | cons c text ih => rw [List.flatMap_cons, bodyValue_quotedChar, ih]

/-- The literal of a value stands for the value. -/
theorem stringValue_quote (value : String) : stringValue (quote value) = value := by
  rw [stringValue, quote, String.toList_ofList, List.drop_one, List.tail_cons,
    List.dropLast_concat, bodyValue_quoted, String.ofList_toList]

end ModuleBundler.Script
