import ModuleBundler.Proofs.Isolation

/-
  What is written is read back. A text is written as a literal in two ways, for a script and as a
  JSON value, and the two differ on control characters and on the separators of lines. For the
  scanner both are one string from end to end, and for the reader of literals both stand for the
  text that was written (`literals_of_text`). So the argument of a `require` and the key of the
  table of dependencies name the same module, and access to a property names that property.
-/

namespace ModuleBundler.Script

/-! ## JSON strings as literals -/

/-- What stands for a character in a JSON string stands for it in a script. -/
theorem bodyValue_escapedChar (c : Char) (cs : List Char) :
    bodyValue (Json.escapedChar c ++ cs) = c :: bodyValue cs := by
  unfold Json.escapedChar
  split
  · exact bodyValue_escape ('"' :: cs)
  · exact bodyValue_escape ('\\' :: cs)
  · exact bodyValue_escape ('b' :: cs)
  · exact bodyValue_escape ('f' :: cs)
  · exact bodyValue_escape ('n' :: cs)
  · exact bodyValue_escape ('r' :: cs)
  · exact bodyValue_escape ('t' :: cs)
  · next hback _ _ _ _ _ =>
    split
    · next hcontrol =>
      -- A control character is spelled with the same four digits in both.
      have hdigits := unicodeEscape_fourHexDigits hcontrol cs
      rw [fourHexDigits_control hcontrol] at hdigits
      have hvalid : c.toNat.isValidChar := c.valid
      rw [List.cons_append, List.cons_append, bodyValue_escape, escapeValue_unicode, hdigits,
        charOfCode, if_pos hvalid, Char.ofNat_toNat]
      rfl
    · exact bodyValue_plain hback cs

theorem bodyValue_escaped (text : List Char) :
    bodyValue (text.flatMap Json.escapedChar) = text := by
  induction text with
  | nil => rw [List.flatMap_nil, bodyValue]
  | cons c text ih => rw [List.flatMap_cons, bodyValue_escapedChar, ih]

/-- A JSON string stands for its value in a script. -/
theorem stringValue_jsonQuote (value : String) : stringValue (Json.quote value) = value := by
  rw [stringValue, Json.quote, String.toList_ofList, List.drop_one, List.tail_cons,
    List.dropLast_concat, bodyValue_escaped, String.ofList_toList]

/-! ## Literals on their own -/

/-- Whether a text is one string literal, from its first character to its last, and stands for a
value. -/
structure IsLiteralOf (text value : String) : Prop where
  scanned : scan text = .ok [⟨.string, text, Position.first, 0, false⟩]
  value_eq : stringValue text = value

/-- A text between double quotes that ends at the second of them is one string. -/
theorem scan_between_quotes {body : List Char}
    (hlength : stringLength '"' 0 (body ++ ['"']) = some (0 + body.length + 1)) :
    scan (String.ofList ('"' :: (body ++ ['"']))) =
      .ok [⟨.string, String.ofList ('"' :: (body ++ ['"'])), Position.first, 0, false⟩] := by
  have hlexeme : lexemeAt false true '"' (body ++ ['"']) =
      .ok (.plain .string (body ++ ['"']).length) := by
    rw [lexemeAt, if_pos (by decide), hlength, Nat.zero_add, List.length_append]
    rfl
  have hzero : hashbangLength ('"' :: (body ++ ['"'])) = 0 := rfl
  rw [scan, scanChars, String.toList_ofList, hzero]
  show Scanner.initial.run ('"' :: (body ++ ['"'])) = _
  rw [Scanner.run_lexeme (by decide) hlexeme]
  simp only [Lexeme.more, List.take_length, List.drop_length]
  show Scanner.run (Scanner.initial.push _ _) [] = _
  rw [Scanner.run_eq]
  rfl

theorem isLiteralOf_quote (value : String) : IsLiteralOf (quote value) value :=
  ⟨scan_between_quotes (stringLength_quoted value.toList 0 []), stringValue_quote value⟩

theorem isLiteralOf_jsonQuote (value : String) : IsLiteralOf (Json.quote value) value :=
  ⟨scan_between_quotes (stringLength_flatMap stringLength_escapedChar value.toList 0 []),
    stringValue_jsonQuote value⟩

/-! ## Access to properties -/

/-- The words of the access to a property with a name. -/
def memberWords (name : String) : List Word :=
  if isPlainName name then [(.punctuator, "."), (.name, name)]
  else [(.punctuator, "["), (.string, quote name), (.punctuator, "]")]

theorem scans_member (name : String) : Scans 0 (memberWords name) (member name).toList := by
  rw [member, memberWords]
  split
  · next hplain =>
    have hname := isNameText_of_isPlainName hplain
    have hscans : Scans 0 [(.name, name)] (name.toList ++ []) :=
      scans_name hname (by simp) (scans_nil 0)
    have hdot := scans_dot (hname.behind_dot []) hscans
    rw [List.append_nil] at hdot
    rw [String.toList_append]
    exact hdot
  · have hend : Scans 1 [(.punctuator, "]")] [']'] :=
      scans_mark (by decide) rfl (scans_nil 0)
    have hscans : Scans 0 [(.punctuator, "["), (.string, quote name), (.punctuator, "]")]
        ('[' :: ((quote name).toList ++ [']'])) :=
      scans_mark (by decide) rfl (scans_quote name hend)
    have htext : ("[" ++ quote name ++ "]").toList = '[' :: ((quote name).toList ++ [']']) := by
      simp
    rw [htext]
    exact hscans

/-- No name goes on with the access to a property. -/
theorem not_continuesName_member (name : String) :
    ∀ c ∈ (member name).toList.head?, continuesName c = false := by
  intro c hc
  rw [member] at hc
  split at hc
  · rw [String.toList_append] at hc
    obtain rfl := Option.some.inj hc
    decide
  · rw [String.toList_append, String.toList_append] at hc
    obtain rfl := Option.some.inj hc
    decide

/-- The two literals of a text are one string each, for the scanner, and stand for the text; access
to the property of this name is a dot with the name, or such a literal in brackets. -/
theorem literals_of_text (text : String) :
    IsLiteralOf (quote text) text ∧ IsLiteralOf (Json.string text).compact text ∧
      ∃ tokens, scan ("x" ++ member text) = .ok tokens ∧
        if isPlainName text then
          tokens.map Token.word = [(.name, "x"), (.punctuator, "."), (.name, text)]
        else ∃ literal, IsLiteralOf literal text ∧
          tokens.map Token.word =
            [(.name, "x"), (.punctuator, "["), (.string, literal), (.punctuator, "]")] := by
  refine ⟨isLiteralOf_quote text, isLiteralOf_jsonQuote text, ?_⟩
  have hx : IsNameText "x" := ⟨'x', [], rfl, by decide, rfl⟩
  have hscans := scans_name hx (not_continuesName_member text) (scans_member text)
  obtain ⟨tokens, hrun, hwords⟩ := hscans .initial rfl rfl
  refine ⟨tokens, ?_, ?_⟩
  · have hzero : hashbangLength ("x" ++ member text).toList = 0 := by
      rw [String.toList_append]
      rfl
    rw [scan, scanChars, hzero, String.toList_append]
    exact hrun
  · rw [hwords, memberWords]
    split
    · rfl
    · exact ⟨quote text, isLiteralOf_quote text, rfl⟩

end ModuleBundler.Script
