import ModuleBundler.Proofs.JsonParts

/-
  Reading written values back. `decode` reads a text as a value: objects as lists of their members
  in order, with those that come again. It is put together from the readers of single parts, and
  it gives back every value from every text that spells it (`decode_spelled`), in particular from
  its form on one line.
-/

namespace ModuleBundler.Json

variable {α : Type} {input text ws rest : List Char}

/-! ## Decoding -/

/-- Reads a natural number that has no zeros in front, in the text from its first digit on. -/
def readNatural (text : List Char) (le : text.length ≤ input.length) :
    Except ReadFault (Read Nat input) :=
  if h : Nat.toDigits 10 (Nat.ofDigitChars 10 (digits text).1 0) = (digits text).1 then
    if (digits text).2.head?.any fun c => c == '.' || c == 'e' || c == 'E' then .error .mismatched
    else
      .ok ⟨Nat.ofDigitChars 10 (digits text).1 0, (digits text).2, by
        have hlength := digits_length text
        have hpos : 0 < (digits text).1.length := by
          rw [← h]
          exact Nat.length_toDigits_pos
        omega⟩
  else .error .malformed

/-- A key with its colon. -/
def readKey : Reader String := fun input => do
  let mark ← nextChar input
  if mark.value == '"' then
    let key ← finishString mark
    let mark ← colon key.rest
    return ⟨key.value, mark.rest, by have := mark.shorter; have := key.shorter; omega⟩
  else .error .malformed

mutual

/-- Reads a value. -/
def decodeValue (input : List Char) : Except ReadFault (Read Json input) := do
  let c ← nextChar input
  match c.value with
  | 'n' => finishWord "ull" c .null
  | 't' => finishWord "rue" c (.bool true)
  | 'f' => finishWord "alse" c (.bool false)
  | '"' => return (← finishString c).map .string
  | '[' => return c.then ((← decodeItems true c.rest).map .list)
  | '{' => return c.then ((← decodeMembers true c.rest).map .object)
  | d => return (← readNatural (d :: c.rest) c.shorter).map .number
termination_by (input.length, 0)
decreasing_by
  · exact Prod.Lex.left _ _ c.shorter
  · exact Prod.Lex.left _ _ c.shorter

/-- Reads the items of a list up to its closing bracket. -/
def decodeItems (first : Bool) (input : List Char) : Except ReadFault (Read (List Json) input) := do
  match ← step ']' first input with
  | .finish rest shorter => return ⟨[], rest, shorter⟩
  | .item text le =>
    let item ← decodeValue text
    let items ← decodeItems false item.rest
    return ⟨item.value :: items.value, items.rest,
      Nat.lt_of_lt_of_le (Nat.lt_trans items.shorter item.shorter) le⟩
termination_by (input.length, 1)
decreasing_by
  · rcases Nat.lt_or_eq_of_le le with h | h
    · exact Prod.Lex.left _ _ h
    · rw [h]; exact Prod.Lex.right _ (by decide)
  · exact Prod.Lex.left _ _ (Nat.lt_of_lt_of_le item.shorter le)

/-- Reads the members of an object up to its closing bracket. -/
def decodeMembers (first : Bool) (input : List Char) :
    Except ReadFault (Read (List (String × Json)) input) := do
  match ← step '}' first input with
  | .finish rest shorter => return ⟨[], rest, shorter⟩
  | .item text le =>
    let key ← readKey text
    let member ← decodeValue key.rest
    let members ← decodeMembers false member.rest
    return ⟨(key.value, member.value) :: members.value, members.rest, by
      have := members.shorter; have := member.shorter; have := key.shorter; omega⟩
termination_by (input.length, 1)
decreasing_by
  · exact Prod.Lex.left _ _ (Nat.lt_of_lt_of_le key.shorter le)
  · exact Prod.Lex.left _ _ (by have := member.shorter; have := key.shorter; omega)

end

/-- The value that a text holds. -/
def decode (text : String) : Except ReadFault Json := readText decodeValue text

/-! ## Numbers and keys -/

/-- A written number is read up to what ends it. -/
theorem reads_readNatural {n : Nat} (htext : text = Nat.toDigits 10 n ++ rest)
    (hrest : EndsNumber rest) (le : text.length ≤ input.length) :
    Reads (readNatural text le) n rest := by
  have hdigits : digits text = (Nat.toDigits 10 n, rest) := by
    rw [htext]
    exact digits_append (isDigits_toDigits n).2 hrest.isDigit
  have hvalue : Nat.ofDigitChars 10 (digits text).1 0 = n := by
    rw [hdigits]
    exact Nat.ofDigitChars_ten_toDigits
  have hafter : (digits text).2 = rest := congrArg Prod.snd hdigits
  have hpoint : ¬ ((digits text).2.head?.any fun c => c == '.' || c == 'e' || c == 'E') = true := by
    rw [hdigits, Option.any_eq_true]
    rintro ⟨c, hc, heq⟩
    obtain ⟨-, hpoint, hlower, hupper⟩ := endsNumber_iff.1 (hrest c hc)
    rw [beq_eq_false_iff_ne.2 hpoint, beq_eq_false_iff_ne.2 hlower,
      beq_eq_false_iff_ne.2 hupper] at heq
    cases heq
  have hcanonical : Nat.toDigits 10 (Nat.ofDigitChars 10 (digits text).1 0) = (digits text).1 := by
    rw [hvalue, hdigits]
  unfold readNatural
  rw [dif_pos hcanonical, if_neg hpoint]
  exact ⟨_, rfl, hvalue, hafter⟩

/-- A key is read with its colon. -/
theorem reads_readKey {key : String} {before : List Char} (h : SpellsString key text)
    (hws : Blank ws) (hbefore : Blank before) (cs : List Char) :
    Reads (readKey (ws ++ (text ++ (before ++ ':' :: cs)))) key cs := by
  obtain ⟨hchars⟩ := h
  rw [List.cons_append, List.append_assoc]
  apply Reads.bind (reads_nextChar hws rfl _)
  intro hmark
  apply Reads.bind (reads_finishString hchars rfl)
  intro hkey
  apply Reads.bind (reads_colon hbefore cs)
  intro hcolon
  exact ⟨_, rfl, rfl, rfl⟩

/-! ## Values -/

mutual

/-- A value is read up to what follows it. -/
theorem reads_decodeValue {v : Json} {text ws rest : List Char} (h : SpellsValue v text)
    (hws : Blank ws) (hrest : EndsNumber rest) :
    Reads (decodeValue (ws ++ (text ++ rest))) v rest := by
  rw [decodeValue]
  match h with
  | .null =>
    apply Reads.bind (reads_nextChar hws rfl _)
    intro hc
    exact reads_finishWord "ull" rfl Json.null
  | .yes =>
    apply Reads.bind (reads_nextChar hws rfl _)
    intro hc
    exact reads_finishWord "rue" rfl (Json.bool true)
  | .no =>
    apply Reads.bind (reads_nextChar hws rfl _)
    intro hc
    exact reads_finishWord "alse" rfl (Json.bool false)
  | .number (n := n) =>
    obtain ⟨d, ds, hchars, hdigit⟩ := exists_digit n
    have hstarts := startsValue_iff.1 (startsValue_of_isDigit hdigit)
    rw [hchars, List.cons_append]
    apply Reads.bind (reads_nextChar hws hstarts.1 _)
    intro hc
    dsimp only
    split
    -- No word, string or bracket begins with a digit.
    iterate 6 · exact absurd hdigit (by decide)
    apply Reads.bind (reads_readNatural (by rw [hchars, List.cons_append]) hrest _)
    intro hnumber
    exact ⟨_, rfl, rfl, rfl⟩
  | .string hstring =>
    obtain ⟨hchars⟩ := hstring
    rw [List.cons_append, List.append_assoc]
    apply Reads.bind (reads_nextChar hws rfl _)
    intro hc
    apply Reads.bind (reads_finishString hchars rfl)
    intro hvalue
    exact ⟨_, rfl, rfl, rfl⟩
  | .list hitems =>
    rw [List.cons_append, List.append_assoc]
    apply Reads.bind (reads_nextChar hws rfl _)
    intro hc
    apply Reads.bind (reads_decodeItems hitems rest)
    intro hread
    exact ⟨_, rfl, rfl, rfl⟩
  | .object hmembers =>
    rw [List.cons_append, List.append_assoc]
    apply Reads.bind (reads_nextChar hws rfl _)
    intro hc
    apply Reads.bind (reads_decodeMembers hmembers rest)
    intro hread
    exact ⟨_, rfl, rfl, rfl⟩

theorem reads_decodeItems {first : Bool} {items : List Json} {text : List Char}
    (h : Parts SpellsValue first items text) (rest : List Char) :
    Reads (decodeItems first (text ++ ([']'] ++ rest))) items rest := by
  match h with
  | .nil hws =>
    obtain ⟨shorter, hstep⟩ := step_closer ']' rfl hws first rest
    rw [decodeItems, List.singleton_append, hstep]
    exact ⟨_, rfl, rfl, rfl⟩
  | .cons hgap hitem hitems =>
    obtain ⟨ws, le, hws, hstep⟩ := step_gap ']' (by decide) hgap hitem.begins _
    rw [List.append_assoc, List.append_assoc, decodeItems, hstep]
    apply Reads.bind (reads_decodeValue hitem hws (hitems.endsNumber (endsNumber_cons rfl rest)))
    intro hread
    apply Reads.bind (reads_decodeItems hitems rest)
    intro hrest
    exact ⟨_, rfl, rfl, rfl⟩

theorem reads_decodeMembers {first : Bool} {members : List (String × Json)} {text : List Char}
    (h : Parts (Member SpellsString SpellsValue) first members text) (rest : List Char) :
    Reads (decodeMembers first (text ++ (['}'] ++ rest))) members rest := by
  match h with
  | .nil hws =>
    obtain ⟨shorter, hstep⟩ := step_closer '}' rfl hws first rest
    rw [decodeMembers, List.singleton_append, hstep]
    exact ⟨_, rfl, rfl, rfl⟩
  | .cons hgap (.mk hkey hbefore hafter hvalue) hmembers =>
    obtain ⟨ws, le, hws, hstep⟩ := step_gap '}' (by decide) hgap hkey.begins _
    rw [List.append_assoc, List.append_assoc, List.append_assoc, List.append_assoc,
      List.cons_append, List.append_assoc, decodeMembers, hstep]
    apply Reads.bind (reads_readKey hkey hws hbefore _)
    intro hfound
    apply Reads.bind
      (reads_decodeValue hvalue hafter (hmembers.endsNumber (endsNumber_cons rfl rest)))
    intro hread
    apply Reads.bind (reads_decodeMembers hmembers rest)
    intro hrest
    exact ⟨_, rfl, rfl, rfl⟩

end

/-- A value is read from every text that spells it. -/
theorem decode_spelled {v : Json} {text : String} (h : SpellsValue v text.toList) :
    decode text = .ok v := by
  have hnil : EndsNumber [] := by rintro c ⟨⟩
  have hreads := reads_decodeValue h blank_nil hnil
  rw [List.nil_append, List.append_nil] at hreads
  obtain ⟨shorter, hvalue⟩ := hreads.eq_ok
  rw [decode, readText, hvalue]
  rfl

theorem decode_compact (v : Json) : decode v.compact = .ok v :=
  decode_spelled (spellsValue_compact v)

end ModuleBundler.Json
