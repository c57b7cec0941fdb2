import ModuleBundler.Proofs.JsonGrammar

/-
  What the readers of single parts do at the front of a text: each takes the part that the grammar
  has there, with the blanks in front of it, and leaves the rest (`Reads`). Each step is stated for
  a part in front of any rest, so that the parts of a value can be read one after the other.
-/

namespace ModuleBundler.Json

open Script (IsHex hexNumber)

variable {α β : Type} {c : Char} {input ws cs ds text rest body : List Char}

/-! ## Reading parts -/

/-- Whether a value was read from the front of a text, with this rest. -/
def Reads (result : Except ReadFault (Read α input)) (value : α) (rest : List Char) : Prop :=
  ∃ r, result = .ok r ∧ r.value = value ∧ r.rest = rest

variable {value : α}

theorem Reads.eq_ok {result : Except ReadFault (Read α input)} (h : Reads result value rest) :
    ∃ shorter, result = .ok ⟨value, rest, shorter⟩ := by
  obtain ⟨r, rfl, rfl, rfl⟩ := h
  exact ⟨r.shorter, rfl⟩

/-- What is read after a value that was read. -/
theorem Reads.bind {result : Except ReadFault (Read β text)} {b : β}
    {next : Read β text → Except ReadFault (Read α input)} (h : Reads result b cs)
    (hnext : ∀ shorter, Reads (next ⟨b, cs, shorter⟩) value rest) :
    Reads (result >>= next) value rest := by
  obtain ⟨r, rfl, rfl, rfl⟩ := h
  exact hnext r.shorter

theorem Reads.map {reader : Reader α} (h : Reads (reader input) value rest) (f : α → β) :
    Reads (reader.map f input) (f value) rest := by
  obtain ⟨r, hread, rfl, rfl⟩ := h
  refine ⟨r.map f, ?_, rfl, rfl⟩
  rw [Reader.map, hread]
  rfl

/-! ## Blanks and words -/

theorem skipBlank_append (hws : Blank ws) (hc : isBlank c = false) (cs : List Char) :
    skipBlank (ws ++ c :: cs) = c :: cs := by
  rw [skipBlank, List.dropWhile_append_of_pos hws, List.dropWhile_cons_of_neg]
  rw [hc]
  exact Bool.false_ne_true

theorem reads_nextChar (hws : Blank ws) (hc : isBlank c = false) (cs : List Char) :
    Reads (nextChar (ws ++ c :: cs)) c cs := by
  have hskip := skipBlank_append hws hc cs
  unfold nextChar
  split
  · next hnil =>
    rw [hskip] at hnil
    cases hnil
  · next hcons =>
    rw [hskip] at hcons
    cases hcons
    exact ⟨_, rfl, rfl, rfl⟩

theorem expectWord_append (word rest : List Char) : expectWord word (word ++ rest) = .ok rest := by
  induction word with
  | nil => rw [List.nil_append, expectWord]
  | cons c word ih => rw [List.cons_append, expectWord, if_pos (beq_self_eq_true c), ih]

theorem reads_finishWord (word : String) {c : Read Char input} (h : c.rest = word.toList ++ rest)
    (value : α) : Reads (finishWord word c value) value rest := by
  have hword := expectWord_append word.toList rest
  rw [← h] at hword
  unfold finishWord
  split
  · next herror =>
    rw [hword] at herror
    cases herror
  · next hok =>
    rw [hword] at hok
    cases hok
    exact ⟨_, rfl, rfl, rfl⟩

theorem reads_colon (hws : Blank ws) (cs : List Char) : Reads (colon (ws ++ ':' :: cs)) () cs := by
  apply Reads.bind (reads_nextChar hws rfl cs)
  intro shorter
  exact ⟨_, rfl, rfl, rfl⟩

theorem reads_openKey (hws : Blank ws) (cs : List Char) :
    Reads (openKey (ws ++ '"' :: cs)) () cs := by
  apply Reads.bind (reads_nextChar hws rfl cs)
  intro shorter
  exact ⟨_, rfl, rfl, rfl⟩

/-! ## Digits -/

theorem digits_append (h : ∀ d ∈ ds, d.isDigit = true)
    (hrest : ∀ c ∈ rest.head?, c.isDigit = false) : digits (ds ++ rest) = (ds, rest) := by
  rw [digits, List.takeWhile_append_of_pos h, List.dropWhile_append_of_pos h]
  cases rest with
  | nil => rw [List.takeWhile_nil, List.dropWhile_nil, List.append_nil]
  | cons c cs =>
    have hc : ¬ c.isDigit = true := by
      rw [hrest c rfl]
      exact Bool.false_ne_true
    rw [List.takeWhile_cons_of_neg hc, List.dropWhile_cons_of_neg hc, List.append_nil]

theorem endsNumber_iff : endsNumber c = true ↔
    c.isDigit = false ∧ c ≠ '.' ∧ c ≠ 'e' ∧ c ≠ 'E' := by
  rw [endsNumber, Bool.and_eq_true, Bool.and_eq_true, Bool.and_eq_true, Bool.not_eq_true',
    bne_iff_ne, bne_iff_ne, bne_iff_ne, and_assoc, and_assoc]

theorem EndsNumber.isDigit (h : EndsNumber rest) : ∀ c ∈ rest.head?, c.isDigit = false :=
  fun c hc => (endsNumber_iff.1 (h c hc)).1

/-! ## Strings -/

theorem length_le_utf8ByteSize (cs : List Char) : cs.length ≤ (String.ofList cs).utf8ByteSize := by
  induction cs with
  | nil => exact Nat.zero_le _
  | cons c cs ih =>
    have hpos := c.utf8Size_pos
    rw [String.ofList_cons, String.utf8ByteSize_append, String.utf8ByteSize_singleton,
      List.length_cons]
    omega

theorem hexUnit_append (h : IsHex 4 ds) (rest : List Char) :
    hexUnit (ds ++ rest) = .ok (hexNumber ds, rest) := by
  have hsize := length_le_utf8ByteSize ds
  rw [h.1] at hsize
  rw [hexUnit, Script.hexDigits_of_isHex h, List.take_left' h.1, if_neg (Nat.not_lt.2 hsize)]

theorem isLowSurrogate_iff {n : Nat} :
    Text.isLowSurrogate n = true ↔ 0xdc00 ≤ n ∧ n ≤ 0xdfff := by
  rw [Text.isLowSurrogate, Bool.and_eq_true, decide_eq_true_eq, decide_eq_true_eq]

theorem isHighSurrogate_iff {n : Nat} :
    Text.isHighSurrogate n = true ↔ 0xd800 ≤ n ∧ n ≤ 0xdbff := by
  rw [Text.isHighSurrogate, Bool.and_eq_true, decide_eq_true_eq, decide_eq_true_eq]

theorem shortEscape?_of_mem {letter : Char} (h : (letter, c) ∈ escapeLetters) :
    letter ≠ 'u' ∧ shortEscape? letter = some c := by
  have hall : ∀ p ∈ escapeLetters, p.1 ≠ 'u' ∧ shortEscape? p.1 = some p.2 := by decide
  exact hall (letter, c) h

theorem escapedValue_letter {letter : Char} (h : (letter, c) ∈ escapeLetters) (rest : List Char) :
    escapedValue (letter :: rest) = .ok (c, rest) := by
  obtain ⟨hu, hshort⟩ := shortEscape?_of_mem h
  rw [escapedValue, hshort]
  exact hu

theorem stringBody_plain (h : IsPlain c) (cs : List Char) :
    stringBody (c :: cs) = (stringBody cs).map fun r => (c :: r.1, r.2) := by
  rw [stringBody, if_neg (Nat.not_lt.2 h.2.2)]
  · cases stringBody cs <;> rfl
  · exact h.1
  · exact h.2.1

theorem stringBody_escape (h : escapedValue cs = .ok (c, rest)) :
    stringBody ('\\' :: cs) = (stringBody rest).map fun r => (c :: r.1, r.2) := by
  rw [stringBody]
  split
  · next herror =>
    rw [h] at herror
    cases herror
  · next hok =>
    rw [h] at hok
    cases hok
    cases stringBody rest <;> rfl

/-- What stands for a character is read as it. -/
theorem stringBody_char (h : SpellsChar c text) (cs : List Char) :
    stringBody (text ++ cs) = (stringBody cs).map fun r => (c :: r.1, r.2) := by
  cases h with
  | plain h => exact stringBody_plain h cs
  | letter h => exact stringBody_escape (escapedValue_letter h cs)
  | @unit ds hhex hscalar =>
    have hlow : ¬ Text.isLowSurrogate (hexNumber ds) = true := by
      rw [isLowSurrogate_iff]
      omega
    have hhigh : ¬ Text.isHighSurrogate (hexNumber ds) = true := by
      rw [isHighSurrogate_iff]
      omega
    apply stringBody_escape
    show escapedValue ('u' :: (ds ++ cs)) = _
    rw [escapedValue, unicodeChar, hexUnit_append hhex]
    dsimp only
    rw [if_neg hlow, if_neg hhigh]
  | @pair high low hhigh hlow hfirst hsecond =>
    have hnotlow : ¬ Text.isLowSurrogate (hexNumber high) = true := by
      rw [isLowSurrogate_iff]
      omega
    have hword : expectWord ['\\', 'u'] ('\\' :: 'u' :: (low ++ cs)) = .ok (low ++ cs) :=
      expectWord_append ['\\', 'u'] _
    apply stringBody_escape
    show escapedValue ('u' :: ((high ++ '\\' :: 'u' :: low) ++ cs)) = _
    rw [List.append_assoc, escapedValue, unicodeChar, hexUnit_append hhigh]
    dsimp only
    rw [if_neg hnotlow, if_pos (isHighSurrogate_iff.2 hfirst), pairChar, List.cons_append,
      List.cons_append, hword]
    dsimp only
    rw [hexUnit_append hlow]
    dsimp only
    rw [if_pos (isLowSurrogate_iff.2 hsecond)]
    rfl

/-- A string is read up to its quote. -/
theorem stringBody_chars {chars : List Char} (h : SpellsChars chars body) (rest : List Char) :
    stringBody (body ++ '"' :: rest) = .ok (chars, rest) := by
  induction h with
  | nil => rw [List.nil_append, stringBody]
  | cons hchar _ ih =>
    rw [List.append_assoc, stringBody_char hchar, ih]
    rfl

theorem reads_finishString {c : Read Char input} {value : String}
    (h : SpellsChars value.toList body) (hrest : c.rest = body ++ '"' :: rest) :
    Reads (finishString c) value rest := by
  have hbody := stringBody_chars h rest
  rw [← hrest] at hbody
  unfold finishString
  split
  · next herror =>
    rw [hbody] at herror
    cases herror
  · next hok =>
    rw [hbody] at hok
    cases hok
    exact ⟨_, rfl, String.ofList_toList, rfl⟩

/-! ## How lists and objects go on -/

theorem startsValue_iff :
    startsValue c = true ↔ isBlank c = false ∧ c ≠ ']' ∧ c ≠ '}' := by
  rw [startsValue, Bool.and_eq_true, Bool.and_eq_true, Bool.not_eq_true', bne_iff_ne, bne_iff_ne,
    and_assoc]

/-- A list or an object ends at its closing bracket. -/
theorem step_closer (closer : Char) (hcloser : isBlank closer = false) (hws : Blank ws)
    (first : Bool) (cs : List Char) :
    ∃ shorter, step closer first (ws ++ closer :: cs) = .ok (.finish cs shorter) := by
  obtain ⟨hshorter, hnext⟩ := (reads_nextChar hws hcloser cs).eq_ok
  refine ⟨hshorter, ?_⟩
  rw [step, hnext]
  show (if (closer == closer) = true then _ else _) = _
  rw [if_pos (beq_self_eq_true closer)]
  rfl

/-- A part is taken with the blanks behind its comma. -/
theorem step_gap (closer : Char) (hcloser : closer ∈ [']', '}']) {first : Bool} {gap : List Char}
    (hgap : Gap first gap) (hbegins : Begins text) (rest : List Char) : ∃ ws le, Blank ws ∧
      step closer first (gap ++ (text ++ rest)) = .ok (.item (ws ++ (text ++ rest)) le) := by
  obtain ⟨c, cs, rfl, hstarts⟩ := hbegins
  obtain ⟨hc, hbracket, hbrace⟩ := startsValue_iff.1 hstarts
  have hne : ¬ (c == closer) = true ∧ ¬ (',' == closer) = true := by
    rw [beq_iff_eq, beq_iff_eq]
    simp only [List.mem_cons, List.not_mem_nil, or_false] at hcloser
    rcases hcloser with rfl | rfl
    · exact ⟨hbracket, by decide⟩
    · exact ⟨hbrace, by decide⟩
  cases hgap with
  | first hws =>
    obtain ⟨hshorter, hnext⟩ := (reads_nextChar hws hc (cs ++ rest)).eq_ok
    refine ⟨gap, Nat.le_refl _, hws, ?_⟩
    rw [step, List.cons_append, hnext]
    show (if (c == closer) = true then _ else _) = _
    rw [if_neg hne.1]
    rfl
  | @later before after hbefore hafter =>
    have hcomma := reads_nextChar (c := ',') hbefore rfl (after ++ c :: (cs ++ rest))
    obtain ⟨hshorter, hnext⟩ := hcomma.eq_ok
    obtain ⟨hshorter', hahead⟩ := (reads_nextChar hafter hc (cs ++ rest)).eq_ok
    have htext : (before ++ ',' :: after) ++ (c :: cs ++ rest) =
        before ++ ',' :: (after ++ c :: (cs ++ rest)) := by
      rw [List.append_assoc, List.cons_append, List.cons_append]
    rw [htext]
    refine ⟨after, Nat.le_of_lt hshorter, hafter, ?_⟩
    rw [step, hnext]
    show (if (',' == closer) = true then _ else _) = _
    rw [if_neg hne.2]
    show (nextChar (after ++ c :: (cs ++ rest)) >>= _) = _
    rw [hahead]
    show (if (c == closer) = true then _ else _) = _
    rw [if_neg hne.1]
    rfl

end ModuleBundler.Json
