import ModuleBundler.Proofs.Literal
import ModuleBundler.Script.Scan

/-
  Scanning texts that are put together from known pieces. `Scans d words cs` says that a scanner at
  depth `d`, outside all substitutions, reads `cs` to its end and finds these words. It is
  built from the end of a text to its front, with one lemma each for a blank, a name, a literal
  and a punctuator. `Adds d words d' text` says that a text adds these words in front of whatever
  follows it; constant texts whose words can be computed do (`adds_piece`), and so do texts that
  are joined from such (`Adds.append`).
-/

namespace ModuleBundler.Script

/-! ## Blanks -/

/-- A reader of blanks that counts from a later place. -/
def BlankMode.shift (k : Nat) : BlankMode → BlankMode
  | .between => .between
  | .lineComment => .lineComment
  | .blockComment start => .blockComment (start + k)

/-- What a reader of blanks says when it counts from a later place. -/
def shiftBlank (k : Nat) : Except Nat (Nat × Bool) → Except Nat (Nat × Bool)
  | .error start => .error (start + k)
  | .ok (n, newline) => .ok (n + k, newline)

/-- Where counting begins does not matter for what is read. -/
theorem blankLength_shift (k : Nat) (mode : BlankMode) (n : Nat) (newline : Bool)
    (cs : List Char) : blankLength (mode.shift k) (n + k) newline cs =
      shiftBlank k (blankLength mode n newline cs) := by
  fun_induction blankLength mode n newline cs with
  | case1 n newline cs ih =>
    rw [← ih, Nat.add_right_comm]
    rfl
  | case2 n newline cs ih =>
    rw [← ih, Nat.add_right_comm]
    rfl
  | case3 n newline c cs hline hblock hbreak ih =>
    rw [← ih, Nat.add_right_comm, BlankMode.shift, blankLength, if_pos hbreak]
    · exact hline
    · exact hblock
  | case4 n newline c cs hline hblock hbreak hspace ih =>
    rw [← ih, Nat.add_right_comm, BlankMode.shift, blankLength, if_neg hbreak, if_pos hspace]
    · exact hline
    · exact hblock
  | case5 n newline c cs hline hblock hbreak hspace =>
    rw [BlankMode.shift, blankLength, if_neg hbreak, if_neg hspace]
    · rfl
    · exact hline
    · exact hblock
  | case6 n newline c cs hbreak ih =>
    rw [← ih, Nat.add_right_comm]
    show blankLength .lineComment (n + k) newline (c :: cs) = _
    rw [blankLength, if_pos hbreak]
    rfl
  | case7 n newline c cs hbreak ih =>
    rw [← ih, Nat.add_right_comm, BlankMode.shift, blankLength, if_neg hbreak]
  | case8 start n newline cs ih =>
    rw [← ih, Nat.add_right_comm]
    rfl
  | case9 start n newline c cs hclose ih =>
    rw [← ih, Nat.add_right_comm, BlankMode.shift, blankLength]
    exact hclose
  | case10 start n newline => rfl
  | case11 mode n newline hmode =>
    cases mode with
    | between => rfl
    | lineComment => rfl
    | blockComment start => exact absurd rfl (hmode start)

/-- A blank before a text makes the blank part longer by one. -/
theorem blankLength_space {c : Char} (hspace : isSpace c = true) (hbreak : isLineBreak c = false)
    (cs : List Char) :
    blankLength .between 0 false (c :: cs) = shiftBlank 1 (blankLength .between 0 false cs) := by
  have hslash : c ≠ '/' := by
    rintro rfl
    cases hspace
  rw [← blankLength_shift, blankLength, if_neg (Bool.eq_false_iff.1 hbreak), if_pos hspace]
  · rfl
  · exact fun ds h => absurd h hslash
  · exact fun ds h => absurd h hslash

/-- A character at which the blank part of a text ends, whatever follows. -/
def endsBlank (c : Char) : Bool := c != '/' && !isLineBreak c && !isSpace c

theorem blankLength_of_endsBlank {c : Char} (h : endsBlank c = true) (n : Nat) (newline : Bool)
    (cs : List Char) : blankLength .between n newline (c :: cs) = .ok (n, newline) := by
  rw [endsBlank, Bool.and_eq_true, Bool.and_eq_true, bne_iff_ne, Bool.not_eq_true',
    Bool.not_eq_true'] at h
  rw [blankLength, h.1.2, h.2]
  · rfl
  · intro ds heq
    exact absurd heq h.1.1
  · intro ds heq
    exact absurd heq h.1.1

/-- The blank part of a text reaches as far as blanks go. -/
theorem blankLength_stops {mode : BlankMode} {n k : Nat} {newline newline' : Bool}
    {cs : List Char} (h : blankLength mode n newline cs = .ok (k, newline')) :
    ∃ m, k = n + m ∧ ∀ c ∈ (cs.drop m).head?, isLineBreak c = false ∧ isSpace c = false := by
  fun_induction blankLength mode n newline cs with
  | case1 n newline cs ih =>
    obtain ⟨m, rfl, hstops⟩ := ih h
    exact ⟨2 + m, by omega, by rwa [Nat.add_comm 2]⟩
  | case2 n newline cs ih =>
    obtain ⟨m, rfl, hstops⟩ := ih h
    exact ⟨2 + m, by omega, by rwa [Nat.add_comm 2]⟩
  | case3 n newline c cs hline hblock hbreak ih =>
    obtain ⟨m, rfl, hstops⟩ := ih h
    exact ⟨1 + m, by omega, by rwa [Nat.add_comm 1]⟩
  | case4 n newline c cs hline hblock hbreak hspace ih =>
    obtain ⟨m, rfl, hstops⟩ := ih h
    exact ⟨1 + m, by omega, by rwa [Nat.add_comm 1]⟩
  | case5 n newline c cs hline hblock hbreak hspace =>
    cases h
    refine ⟨0, rfl, ?_⟩
    intro b hb
    obtain rfl := Option.some.inj hb
    exact ⟨Bool.eq_false_iff.2 hbreak, Bool.eq_false_iff.2 hspace⟩
  | case6 n newline c cs hbreak ih =>
    obtain ⟨m, rfl, hstops⟩ := ih h
    exact ⟨1 + m, by omega, by rwa [Nat.add_comm 1]⟩
  | case7 n newline c cs hbreak ih =>
    obtain ⟨m, rfl, hstops⟩ := ih h
    exact ⟨1 + m, by omega, by rwa [Nat.add_comm 1]⟩
  | case8 start n newline cs ih =>
    obtain ⟨m, rfl, hstops⟩ := ih h
    exact ⟨2 + m, by omega, by rwa [Nat.add_comm 2]⟩
  | case9 start n newline c cs hclose ih =>
    obtain ⟨m, rfl, hstops⟩ := ih h
    exact ⟨1 + m, by omega, by rwa [Nat.add_comm 1]⟩
  | case10 start n newline => cases h
  | case11 mode n newline hmode =>
    cases h
    exact ⟨0, rfl, by rintro c ⟨⟩⟩

/-! ## One step of the scanner -/

namespace Scanner

theorem run_eq (s : Scanner) (input : List Char) : s.run input =
    match blankLength .between 0 false input with
    | .error before => .error ((s.position.after (input.take before)).fault .unterminatedComment)
    | .ok (blank, newline) =>
      match input.drop blank with
      | [] =>
        if s.substitutions.isEmpty then .ok s.done.reverse
        else .error ((s.position.after (input.take blank)).fault .unterminatedSubstitution)
      | c :: rest =>
        match lexemeAt s.closesSubstitution s.regexAllowed c rest with
        | .error fault => .error ((s.position.after (input.take blank)).fault fault)
        | .ok lexeme =>
          match s.take (s.position.after (input.take blank)) newline lexeme
              (c :: rest.take lexeme.more) with
          | .error e => .error e
          | .ok s => s.run (rest.drop lexeme.more) := by
  rw [run]
  cases blankLength .between 0 false input with
  | error before => rfl
  | ok found =>
    obtain ⟨blank, newline⟩ := found
    dsimp only
    generalize input.drop blank = left
    cases left with
    | nil => rfl
    | cons c rest => rfl

/-- Where the scanner stands does not matter for what it takes in. -/
theorem take_position (s : Scanner) (position start : Position) (newline : Bool) (lexeme : Lexeme)
    (chars : List Char) :
    ({ s with position } : Scanner).take start newline lexeme chars =
      s.take start newline lexeme chars := by
  cases lexeme with
  | template closes opens more => rfl
  | plain kind more =>
    rw [take, take]
    rfl

/-- The scanner goes over a blank. -/
theorem run_space {c : Char} (hspace : isSpace c = true) (hbreak : isLineBreak c = false)
    (s : Scanner) (cs : List Char) :
    s.run (c :: cs) = { s with position := s.position.next c }.run cs := by
  rw [run_eq, run_eq, blankLength_space hspace hbreak]
  cases blankLength .between 0 false cs with
  | error before => rfl
  | ok found =>
    obtain ⟨blank, newline⟩ := found
    rw [shiftBlank]
    dsimp only
    rw [List.drop_succ_cons, List.take_succ_cons, Position.after_cons]
    simp only [take_position]
    rfl

/-- The scanner takes in a lexeme. -/
theorem run_lexeme {s : Scanner} {c : Char} {rest : List Char} {lexeme : Lexeme}
    (hblank : endsBlank c = true)
    (hlexeme : lexemeAt s.closesSubstitution s.regexAllowed c rest = .ok lexeme) :
    s.run (c :: rest) =
      match s.take s.position false lexeme (c :: rest.take lexeme.more) with
      | .error e => .error e
      | .ok s => s.run (rest.drop lexeme.more) := by
  rw [run_eq, blankLength_of_endsBlank hblank]
  dsimp only
  rw [List.drop_zero, List.take_zero, Position.after_nil]
  dsimp only
  rw [hlexeme]

end Scanner

/-! ## Words -/

/-- What a token is apart from where it stands. -/
abbrev Word := TokenKind × String

/-- The word of a token. -/
def Token.word (t : Token) : Word := (t.kind, t.text)

/-- Whether a word is an opening bracket. -/
def isOpening (w : Word) : Bool :=
  w.1 == .punctuator && (w.2 == "(" || w.2 == "[" || w.2 == "\x7b")

/-- Whether a word is a closing bracket. -/
def isClosing (w : Word) : Bool :=
  w.1 == .punctuator && (w.2 == ")" || w.2 == "]" || w.2 == "\x7d")

/-- The depth after a word, if there is one. -/
def depthAfterWord (d : Nat) (w : Word) : Option Nat :=
  if isOpening w then some (d + 1)
  else if isClosing w then
    match d with
    | 0 => none
    | d + 1 => some d
  else some d

theorem depthAfterWord_of_ne {kind : TokenKind} (h : kind ≠ .punctuator) (d : Nat)
    (text : String) : depthAfterWord d (kind, text) = some d := by
  have hkind : (kind == .punctuator) = false := beq_eq_false_iff_ne.2 h
  unfold depthAfterWord isOpening isClosing
  rw [hkind]
  rfl

/-- Whether a scanner at a depth, outside all substitutions, reads a text to its end and finds these
words. -/
def Scans (d : Nat) (words : List Word) (cs : List Char) : Prop :=
  ∀ s : Scanner, s.substitutions = [] → s.depth = d →
    ∃ tokens, s.run cs = .ok (s.done.reverse ++ tokens) ∧ tokens.map Token.word = words

variable {d d' : Nat} {words : List Word} {c : Char} {cs rest : List Char} {text : String}

theorem scans_nil (d : Nat) : Scans d [] [] := by
  intro s hsub _
  refine ⟨[], ?_, rfl⟩
  rw [Scanner.run_eq, List.append_nil, hsub]
  rfl

theorem scans_space (h : Scans d words cs) : Scans d words (' ' :: cs) := by
  intro s hsub hdepth
  rw [Scanner.run_space rfl rfl]
  exact h _ hsub hdepth

theorem closesSubstitution_eq_false {s : Scanner} (h : s.substitutions = []) :
    s.closesSubstitution = false := by
  rw [Scanner.closesSubstitution, h]
  rfl

theorem ofList_beq (cs ds : List Char) : (String.ofList cs == String.ofList ds) = (cs == ds) := by
  rw [Bool.eq_iff_iff, beq_iff_eq, beq_iff_eq]
  exact String.ofList_inj

/-- What the scanner takes in outside templates becomes a word, and moves the depth as the word
does. -/
theorem take_plain (s : Scanner) (kind : TokenKind) (more : Nat) (chars : List Char)
    (hdepth : depthAfterWord s.depth (kind, String.ofList chars) = some d') :
    ∃ s' token, s.take s.position false (.plain kind more) chars = .ok s' ∧
      s'.substitutions = s.substitutions ∧ s'.depth = d' ∧ s'.done = token :: s.done ∧
      token.word = (kind, String.ofList chars) := by
  have hopening : isOpening (kind, String.ofList chars) =
      (kind == .punctuator && (chars == ['('] || chars == ['['] || chars == ['{'])) := by
    rw [isOpening, show "(" = String.ofList ['('] from rfl, show "[" = String.ofList ['['] from rfl,
      show "\x7b" = String.ofList ['{'] from rfl, ofList_beq, ofList_beq, ofList_beq]
  have hclosing : isClosing (kind, String.ofList chars) =
      (kind == .punctuator && (chars == [')'] || chars == [']'] || chars == ['}'])) := by
    rw [isClosing, show ")" = String.ofList [')'] from rfl, show "]" = String.ofList [']'] from rfl,
      show "\x7d" = String.ofList ['}'] from rfl, ofList_beq, ofList_beq, ofList_beq]
  unfold depthAfterWord at hdepth
  rw [hopening, hclosing] at hdepth
  rw [Scanner.take]
  split at hdepth
  · next hbracket =>
    obtain rfl := Option.some.inj hdepth
    rw [if_pos hbracket]
    obtain ⟨hkind, -⟩ := Bool.and_eq_true_iff.1 hbracket
    obtain rfl := beq_iff_eq.1 hkind
    exact ⟨_, _, rfl, rfl, rfl, rfl, rfl⟩
  · next hbracket =>
    rw [if_neg hbracket]
    split at hdepth
    · next hcloser =>
      rw [if_pos hcloser, Scanner.takeCloser]
      obtain ⟨hkind, -⟩ := Bool.and_eq_true_iff.1 hcloser
      obtain rfl := beq_iff_eq.1 hkind
      match hd : s.depth, hdepth with
      | d + 1, hdepth =>
        obtain rfl := Option.some.inj hdepth
        dsimp only
        split
        · exact ⟨_, _, rfl, rfl, rfl, rfl, rfl⟩
        · exact ⟨_, _, rfl, rfl, rfl, rfl, rfl⟩
    · next hcloser =>
      obtain rfl := Option.some.inj hdepth
      rw [if_neg hcloser]
      exact ⟨_, _, rfl, rfl, rfl, rfl, rfl⟩

/-- A lexeme in front of a text that is no part of a template. -/
theorem scans_lexeme {kind : TokenKind} {more : Nat} (hblank : endsBlank c = true)
    (hlexeme : ∀ regex, lexemeAt false regex c rest = .ok (.plain kind more))
    (hdepth : depthAfterWord d (kind, String.ofList (c :: rest.take more)) = some d')
    (h : Scans d' words (rest.drop more)) :
    Scans d ((kind, String.ofList (c :: rest.take more)) :: words) (c :: rest) := by
  intro s hsub hd
  have hlexeme' : lexemeAt s.closesSubstitution s.regexAllowed c rest = .ok (.plain kind more) := by
    rw [closesSubstitution_eq_false hsub]
    exact hlexeme _
  rw [← hd] at hdepth
  obtain ⟨s', token, htake, hsub', hd', hdone, hword⟩ := take_plain s kind more _ hdepth
  obtain ⟨tokens, hrun, hwords⟩ := h s' (hsub'.trans hsub) hd'
  refine ⟨token :: tokens, ?_, ?_⟩
  · rw [Scanner.run_lexeme hblank hlexeme']
    simp only [Lexeme.more, htake]
    rw [hrun, hdone, List.reverse_cons, List.append_assoc, List.singleton_append]
  · rw [List.map_cons, hword, hwords]

/-! ## Names, literals, numbers and punctuators -/

/-- A text that the scanner takes for a name wherever it stands between blanks. -/
def IsNameText (text : String) : Prop :=
  ∃ c cs, text.toList = c :: cs ∧ startsName c = true ∧ cs.all continuesName = true

theorem isSpace_of_isLineBreak (h : isLineBreak c = true) : isSpace c = true := by
  simp only [isLineBreak, Bool.or_eq_true, beq_iff_eq] at h
  rcases h with (rfl | rfl) | rfl <;> rfl

theorem isSpace_of_startsName (h : startsName c = true) : isSpace c = false := by
  -- There are few blanks: for each of them it is computed that no name begins with it.
  have hnone : ∀ n ∈ Text.blankRanges.flatMap (fun r => List.range' r.1 (r.2 - r.1 + 1)),
      startsName (Char.ofNat n) = false := by decide +kernel
  rw [Bool.eq_false_iff]
  intro hspace
  rw [isSpace, Bool.or_eq_true, Text.isBlank, Text.inRanges_iff, beq_iff_eq] at hspace
  rcases hspace with ⟨r, hr, hlo, hhi⟩ | rfl
  · have hmem := hnone c.toNat (List.mem_flatMap.2 ⟨r, hr, List.mem_range'_1.2 ⟨hlo, by omega⟩⟩)
    rw [Char.ofNat_toNat, h] at hmem
    cases hmem
  · revert h
    decide +kernel

theorem ne_of_startsName {other : Char} (h : startsName c = true)
    (hother : startsName other = false) : c ≠ other := by
  rintro rfl
  rw [h] at hother
  cases hother

/-- The blank part of a text ends where a name begins. -/
theorem endsBlank_of_startsName (h : startsName c = true) : endsBlank c = true := by
  have hspace := isSpace_of_startsName h
  have hbreak : isLineBreak c = false :=
    Bool.eq_false_iff.2 fun hbreak => Bool.eq_false_iff.1 hspace (isSpace_of_isLineBreak hbreak)
  rw [endsBlank, hbreak, hspace, bne_iff_ne.2 (ne_of_startsName h rfl)]
  rfl

theorem not_isDigit_of_startsName (h : startsName c = true) : c.isDigit = false := by
  rw [startsName, Bool.or_eq_true, Bool.or_eq_true, Bool.or_eq_true, beq_iff_eq, beq_iff_eq,
    beq_iff_eq, Text.isAlphabetic] at h
  rcases h with ((rfl | rfl) | rfl) | h
  · rfl
  · rfl
  · rfl
  · rw [Bool.eq_false_iff]
    intro hdigit
    rw [Char.isDigit, Bool.and_eq_true, decide_eq_true_eq, decide_eq_true_eq] at hdigit
    have hle : c.toNat ≤ 57 := UInt32.le_iff_toNat_le.1 hdigit.2
    rw [if_pos (by omega)] at h
    unfold Char.isAlpha Char.isUpper Char.isLower at h
    simp only [Bool.or_eq_true, Bool.and_eq_true, decide_eq_true_eq] at h
    rcases h with ⟨h, -⟩ | ⟨h, -⟩
    · have : 65 ≤ c.toNat := UInt32.le_iff_toNat_le.1 h
      omega
    · have : 97 ≤ c.toNat := UInt32.le_iff_toNat_le.1 h
      omega

theorem lexemeAt_name (h : startsName c = true) (regex : Bool) (rest : List Char) :
    lexemeAt false regex c rest = .ok (.plain .name (rest.takeWhile continuesName).length) := by
  have hne : ∀ d, startsName d = false → ¬ (c == d) = true := fun d hd heq =>
    ne_of_startsName h hd (beq_iff_eq.1 heq)
  have hquotes : ¬ (c == '"' || c == '\x27') = true := by
    rw [Bool.or_eq_true, not_or]
    exact ⟨hne '"' rfl, hne '\x27' rfl⟩
  have htemplate : ¬ (c == '\x60' || (c == '}' && false)) = true := by
    rw [Bool.and_false, Bool.or_false]
    exact hne '\x60' rfl
  have hnumber : ¬ (c.isDigit || (c == '.' && rest.head?.any Char.isDigit)) = true := by
    rw [not_isDigit_of_startsName h, Bool.false_or, Bool.and_eq_true]
    exact fun hdot => hne '.' rfl hdot.1
  rw [lexemeAt, if_neg hquotes, if_neg htemplate, if_neg hnumber, if_pos h]

theorem takeWhile_append_of_all {α : Type} {p : α → Bool} {before after : List α}
    (h : before.all p = true) (hafter : ∀ a ∈ after.head?, p a = false) :
    (before ++ after).takeWhile p = before := by
  rw [List.takeWhile_append_of_pos (List.all_eq_true.1 h)]
  cases after with
  | nil => rw [List.takeWhile_nil, List.append_nil]
  | cons a after =>
    rw [List.takeWhile_cons_of_neg, List.append_nil]
    rw [hafter a rfl]
    exact Bool.false_ne_true

theorem scans_name (hname : IsNameText text) (hrest : ∀ c ∈ rest.head?, continuesName c = false)
    (h : Scans d words rest) : Scans d ((.name, text) :: words) (text.toList ++ rest) := by
  obtain ⟨c, cs, htext, hstarts, hall⟩ := hname
  have hwhile := takeWhile_append_of_all hall hrest
  have hlexeme : ∀ regex, lexemeAt false regex c (cs ++ rest) = .ok (.plain .name cs.length) := by
    intro regex
    rw [lexemeAt_name hstarts, hwhile]
  have hafter : Scans d words ((cs ++ rest).drop cs.length) := by rwa [List.drop_left]
  have hscans := scans_lexeme (endsBlank_of_startsName hstarts) hlexeme
    (depthAfterWord_of_ne (by decide) d _) hafter
  rw [List.take_left, ← htext, String.ofList_toList] at hscans
  rw [htext]
  exact hscans

theorem lexemeAt_number
    (h : (c.isDigit || (c == '.' && rest.head?.any Char.isDigit)) = true) (regex : Bool) :
    lexemeAt false regex c rest = .ok (.plain .number (rest.takeWhile continuesNumber).length) := by
  have hne : ∀ d : Char, d.isDigit = false → d ≠ '.' → ¬ (c == d) = true := by
    intro d hdigit hdot heq
    rw [beq_iff_eq.1 heq, hdigit, beq_eq_false_iff_ne.2 hdot] at h
    cases h
  have hquotes : ¬ (c == '"' || c == '\x27') = true := by
    rw [Bool.or_eq_true, not_or]
    exact ⟨hne '"' rfl (by decide), hne '\x27' rfl (by decide)⟩
  have htemplate : ¬ (c == '\x60' || (c == '}' && false)) = true := by
    rw [Bool.and_false, Bool.or_false]
    exact hne '\x60' rfl (by decide)
  rw [lexemeAt, if_neg hquotes, if_neg htemplate, if_pos h]

/-- A number of one digit in front of a text. -/
theorem scans_digit (hdigit : c.isDigit = true) (hblank : endsBlank c = true)
    (hrest : ∀ c ∈ rest.head?, continuesNumber c = false) (h : Scans d words rest) :
    Scans d ((.number, String.ofList [c]) :: words) (c :: rest) := by
  have hwhile := takeWhile_append_of_all (List.all_nil (f := continuesNumber)) hrest
  rw [List.nil_append] at hwhile
  have hlexeme : ∀ regex, lexemeAt false regex c rest = .ok (.plain .number 0) := by
    intro regex
    rw [lexemeAt_number (by rw [hdigit, Bool.true_or]), hwhile]
    rfl
  exact scans_lexeme hblank hlexeme (depthAfterWord_of_ne (by decide) d _) h

/-- A string between double quotes in front of a text. -/
theorem scans_string {body : List Char}
    (hlength : stringLength '"' 0 (body ++ '"' :: rest) = some (0 + body.length + 1))
    (h : Scans d words rest) :
    Scans d ((.string, String.ofList ('"' :: (body ++ ['"']))) :: words)
      ((String.ofList ('"' :: (body ++ ['"']))).toList ++ rest) := by
  rw [Nat.zero_add] at hlength
  have hlexeme : ∀ regex, lexemeAt false regex '"' (body ++ '"' :: rest) =
      .ok (.plain .string (body.length + 1)) := by
    intro regex
    rw [lexemeAt, if_pos (by decide), hlength]
  have hsplit : body ++ '"' :: rest = (body ++ ['"']) ++ rest := by
    rw [List.append_assoc, List.singleton_append]
  have htake : (body ++ '"' :: rest).take (body.length + 1) = body ++ ['"'] := by
    rw [hsplit, List.take_left' (by rw [List.length_append]; rfl)]
  have hdrop : (body ++ '"' :: rest).drop (body.length + 1) = rest := by
    rw [hsplit, List.drop_left' (by rw [List.length_append]; rfl)]
  have hafter : Scans d words ((body ++ '"' :: rest).drop (body.length + 1)) := by rwa [hdrop]
  have hscans := scans_lexeme rfl hlexeme (depthAfterWord_of_ne (by decide) d _) hafter
  rw [htake, hsplit] at hscans
  rw [String.toList_ofList]
  exact hscans

/-- A double-quoted value in front of a text. -/
theorem scans_quote (value : String) (h : Scans d words rest) :
    Scans d ((.string, quote value) :: words) ((quote value).toList ++ rest) :=
  scans_string (stringLength_quoted value.toList 0 rest) h

/-- The punctuators that are taken alone whatever follows them. -/
def marks : List Char := ['(', ')', '[', ']', '{', '}', ';', ',', '!', '|', ':', '-']

theorem endsBlank_of_mem_marks (h : c ∈ marks) : endsBlank c = true := by
  have hall : marks.all endsBlank = true := by decide
  exact List.all_eq_true.1 hall c h

theorem lexemeAt_of_mem_marks (h : c ∈ marks) (regex : Bool) (rest : List Char) :
    lexemeAt false regex c rest = .ok (.plain .punctuator 0) := by
  simp only [marks, List.mem_cons, List.not_mem_nil, or_false] at h
  rcases h with rfl | rfl | rfl | rfl | rfl | rfl | rfl | rfl | rfl | rfl | rfl | rfl <;> rfl

theorem scans_mark (hc : c ∈ marks)
    (hdepth : depthAfterWord d (.punctuator, String.ofList [c]) = some d')
    (h : Scans d' words rest) :
    Scans d ((.punctuator, String.ofList [c]) :: words) (c :: rest) :=
  scans_lexeme (endsBlank_of_mem_marks hc) (fun regex => lexemeAt_of_mem_marks hc regex rest)
    hdepth h

/-- A dot in front of a text that does not make it a number or a spread sign. -/
theorem lexemeAt_dot (hrest : ∀ c ∈ rest.head?, c.isDigit = false ∧ c ≠ '.') (regex : Bool) :
    lexemeAt false regex '.' rest = .ok (.plain .punctuator 0) := by
  cases rest with
  | nil => rfl
  | cons c rest =>
    obtain ⟨hdigit, hdot⟩ := hrest c rfl
    have hnumber :
        ¬ (('.').isDigit || ('.' == '.' && (c :: rest).head?.any Char.isDigit)) = true := by
      rw [List.head?_cons, Option.any_some, hdigit]
      decide
    rw [lexemeAt, if_neg (by decide), if_neg (by decide), if_neg hnumber, if_neg (by decide),
      if_neg (by simp), punctuatorLength]
    · intro ds _ heq
      exact absurd (List.cons_eq_cons.1 heq).1 hdot
    · intro ds heq
      cases heq

/-- A name in front of a text does not make a dot before it part of a number or of more dots. -/
theorem IsNameText.behind_dot (hname : IsNameText text) (rest : List Char) :
    ∀ c ∈ (text.toList ++ rest).head?, c.isDigit = false ∧ c ≠ '.' := by
  obtain ⟨c, cs, htext, hstarts, -⟩ := hname
  rw [htext]
  intro b hb
  obtain rfl := Option.some.inj hb
  exact ⟨not_isDigit_of_startsName hstarts, ne_of_startsName hstarts rfl⟩

theorem scans_dot (hrest : ∀ c ∈ rest.head?, c.isDigit = false ∧ c ≠ '.')
    (h : Scans d words rest) : Scans d ((.punctuator, ".") :: words) ('.' :: rest) :=
  scans_lexeme rfl (lexemeAt_dot hrest) rfl h

/-- A sign of equality in front of a text that does not make it an arrow. -/
theorem scans_equals (hrest : ∀ c ∈ rest.head?, c ≠ '>') (h : Scans d words rest) :
    Scans d ((.punctuator, "=") :: words) ('=' :: rest) := by
  have hlexeme : ∀ regex, lexemeAt false regex '=' rest = .ok (.plain .punctuator 0) := by
    intro regex
    cases rest with
    | nil => rfl
    | cons c rest =>
      have hc := hrest c rfl
      rw [lexemeAt, if_neg (by decide), if_neg (by decide), if_neg (by simp), if_neg (by decide),
        if_neg (by simp), punctuatorLength]
      · intro ds heq
        cases heq
      · intro ds _ heq
        exact absurd (List.cons_eq_cons.1 heq).1 hc
  exact scans_lexeme rfl hlexeme rfl h

/-! ## Pieces -/

theorem toNat_lt_of_continuesPlainName (h : continuesPlainName c = true) : c.toNat < 128 := by
  rw [continuesPlainName, Bool.or_eq_true, Bool.or_eq_true, beq_iff_eq, beq_iff_eq] at h
  rcases h with (rfl | rfl) | h
  · decide
  · decide
  · unfold Char.isAlphanum Char.isAlpha Char.isUpper Char.isLower Char.isDigit at h
    simp only [Bool.or_eq_true, Bool.and_eq_true, decide_eq_true_eq] at h
    rcases h with (⟨-, h⟩ | ⟨-, h⟩) | ⟨-, h⟩
    · have : c.toNat ≤ 90 := UInt32.le_iff_toNat_le.1 h
      omega
    · have : c.toNat ≤ 122 := UInt32.le_iff_toNat_le.1 h
      omega
    · have : c.toNat ≤ 57 := UInt32.le_iff_toNat_le.1 h
      omega

theorem continuesPlainName_of_startsPlainName (h : startsPlainName c = true) :
    continuesPlainName c = true := by
  rw [startsPlainName, Bool.or_eq_true] at h
  rw [continuesPlainName, Char.isAlphanum, ← Bool.or_assoc, Bool.or_eq_true, Bool.or_eq_true]
  exact Or.inl (h.imp_right id)

/-- What holds of the characters of ASCII by computation. -/
theorem of_forall_ascii {p : Char → Bool} (h : ∀ n : Fin 128, p (Char.ofNat n) = true)
    (hc : c.toNat < 128) : p c = true := by
  rw [← Char.ofNat_toNat c]
  exact h ⟨c.toNat, hc⟩

theorem startsName_of_startsPlainName (h : startsPlainName c = true) :
    startsName c = true := by
  have hall : (!startsPlainName c || startsName c) = true :=
    of_forall_ascii (p := fun c => !startsPlainName c || startsName c) (by decide)
      (toNat_lt_of_continuesPlainName (continuesPlainName_of_startsPlainName h))
  rwa [h, Bool.not_true, Bool.false_or] at hall

theorem continuesName_of_continuesPlainName (h : continuesPlainName c = true) :
    continuesName c = true := by
  have hall : (!continuesPlainName c || continuesName c) = true :=
    of_forall_ascii (p := fun c => !continuesPlainName c || continuesName c) (by decide)
      (toNat_lt_of_continuesPlainName h)
  rwa [h, Bool.not_true, Bool.false_or] at hall

/-- A plain name is taken for a name. -/
theorem isNameText_of_isPlainName (h : isPlainName text = true) : IsNameText text := by
  rw [isPlainName] at h
  split at h
  · cases h
  · next c cs htext =>
    rw [Bool.and_eq_true] at h
    refine ⟨c, cs, htext, startsName_of_startsPlainName h.1, ?_⟩
    rw [List.all_eq_true] at h ⊢
    exact fun d hd => continuesName_of_continuesPlainName (h.2 d hd)

/-- The words of a constant text, of which `name` is a name that goes on. There are none for a text
that ends inside a name, or that holds other characters than plain ones. -/
def pieceWords (name : List Char) : List Char → Option (List Word)
  | [] => if name.isEmpty then some [] else none
  | c :: cs =>
    if continuesPlainName c then
      if name.isEmpty && c.isDigit then none else pieceWords (name ++ [c]) cs
    else
      let others :=
        if c == ' ' then pieceWords [] cs
        else if marks.contains c || (c == '.' && cs.head?.any startsPlainName) ||
            (c == '=' && cs.head?.any (· != '>')) then
          (pieceWords [] cs).map ((.punctuator, String.ofList [c]) :: ·)
        else none
      if name.isEmpty then others else others.map ((.name, String.ofList name) :: ·)

/-- The depth after words. -/
def depthAfter (d : Nat) (words : List Word) : Option Nat := words.foldlM depthAfterWord d

theorem depthAfter_cons (d : Nat) (w : Word) (words : List Word) :
    depthAfter d (w :: words) = (depthAfterWord d w).bind fun d => depthAfter d words :=
  List.foldlM_cons

/-- The words of a constant text from a character on that no name goes on with. -/
theorem scans_separator {others : List Word} (ih : ∀ {ws : List Word} {d : Nat},
      pieceWords [] cs = some ws → depthAfter d ws = some d' →
      Scans d (ws ++ words) (cs ++ rest))
    (hothers : (if c == ' ' then pieceWords [] cs
      else if marks.contains c || (c == '.' && cs.head?.any startsPlainName) ||
          (c == '=' && cs.head?.any (· != '>')) then
        (pieceWords [] cs).map ((.punctuator, String.ofList [c]) :: ·)
      else none) = some others)
    (hdepth : depthAfter d others = some d') :
    continuesName c = false ∧ Scans d (others ++ words) (c :: (cs ++ rest)) := by
  split at hothers
  · next hspace =>
    rw [beq_iff_eq.1 hspace]
    exact ⟨by decide, scans_space (ih hothers hdepth)⟩
  · split at hothers
    · next hpunctuator =>
      obtain ⟨ws, hws, rfl⟩ := Option.map_eq_some_iff.1 hothers
      rw [depthAfter_cons, Option.bind_eq_some_iff] at hdepth
      obtain ⟨d₁, hd₁, hd'⟩ := hdepth
      have hscans := ih hws hd'
      rw [Bool.or_eq_true, Bool.or_eq_true] at hpunctuator
      rcases hpunctuator with (hmark | hdot) | hequals
      · have hmem : c ∈ marks := List.contains_iff_mem.1 hmark
        have hall : marks.all (fun c => !continuesName c) = true := by decide
        have hstops := List.all_eq_true.1 hall c hmem
        exact ⟨by simpa using hstops, scans_mark hmem hd₁ hscans⟩
      · rw [Bool.and_eq_true, beq_iff_eq] at hdot
        obtain ⟨rfl, hnext⟩ := hdot
        obtain rfl := Option.some.inj hd₁
        refine ⟨by decide, scans_dot ?_ hscans⟩
        cases cs with
        | nil => cases hnext
        | cons a cs =>
          intro b hb
          obtain rfl := Option.some.inj hb
          have hstarts : startsName a = true := startsName_of_startsPlainName hnext
          exact ⟨not_isDigit_of_startsName hstarts, ne_of_startsName hstarts rfl⟩
      · rw [Bool.and_eq_true, beq_iff_eq] at hequals
        obtain ⟨rfl, hnext⟩ := hequals
        obtain rfl := Option.some.inj hd₁
        refine ⟨by decide, scans_equals ?_ hscans⟩
        cases cs with
        | nil => cases hnext
        | cons a cs =>
          intro b hb
          obtain rfl := Option.some.inj hb
          exact bne_iff_ne.1 hnext
    · cases hothers

/-- The words of a constant text are what the scanner finds in it. -/
theorem scans_pieceWords {name : List Char} {ws : List Word}
    (hname : name = [] ∨ isPlainName (String.ofList name) = true)
    (hwords : pieceWords name cs = some ws) (hdepth : depthAfter d ws = some d')
    (h : Scans d' words rest) : Scans d (ws ++ words) (name ++ (cs ++ rest)) := by
  induction cs generalizing name ws d with
  | nil =>
    rw [pieceWords] at hwords
    split at hwords
    · next hempty =>
      obtain rfl := Option.some.inj hwords
      obtain rfl := Option.some.inj hdepth
      rwa [List.isEmpty_iff.1 hempty]
    · cases hwords
  | cons c cs ih =>
    rw [pieceWords] at hwords
    split at hwords
    · next hc =>
      split at hwords
      · cases hwords
      · next hdigit =>
        have hplain : isPlainName (String.ofList (name ++ [c])) = true := by
          rw [isPlainName, String.toList_ofList]
          cases name with
          | nil =>
            rw [continuesPlainName, Char.isAlphanum, ← Bool.or_assoc, Bool.or_eq_true] at hc
            have hstarts : startsPlainName c = true := hc.resolve_right hdigit
            show (startsPlainName c && true) = true
            rw [hstarts, Bool.true_and]
          | cons a as =>
            have hplain := hname.resolve_left (List.cons_ne_nil a as)
            rw [isPlainName, String.toList_ofList] at hplain
            show (startsPlainName a && (as ++ [c]).all continuesPlainName) = true
            have hplain : (startsPlainName a && as.all continuesPlainName) = true := hplain
            rw [Bool.and_eq_true] at hplain ⊢
            rw [List.all_append, hplain.2, Bool.true_and]
            exact ⟨hplain.1, by rw [List.all_cons, hc]; rfl⟩
        have hscans := ih (Or.inr hplain) hwords hdepth
        rwa [List.append_assoc, List.singleton_append] at hscans
    · dsimp only at hwords
      have hafter : ∀ {ws : List Word} {d : Nat}, pieceWords [] cs = some ws →
          depthAfter d ws = some d' → Scans d (ws ++ words) (cs ++ rest) :=
        fun hws hd => ih (Or.inl rfl) hws hd
      split at hwords
      · next hempty =>
        rw [List.isEmpty_iff.1 hempty]
        exact (scans_separator hafter hwords hdepth).2
      · next hempty =>
        obtain ⟨others, hothers, rfl⟩ := Option.map_eq_some_iff.1 hwords
        rw [depthAfter_cons] at hdepth
        obtain ⟨hstops, hscans⟩ := scans_separator hafter hothers hdepth
        have hne : name ≠ [] := fun h => hempty (List.isEmpty_iff.2 h)
        have hstops' : ∀ b ∈ (c :: (cs ++ rest)).head?, continuesName b = false := by
          intro b hb
          obtain rfl := Option.some.inj hb
          exact hstops
        have hnametext := isNameText_of_isPlainName (hname.resolve_left hne)
        have hnext := scans_name hnametext hstops' hscans
        rwa [String.toList_ofList] at hnext

/-! ## Texts that are joined -/

/-- Whether a text puts words in front of those of any text that follows it. -/
def Adds (d : Nat) (words : List Word) (d' : Nat) (text : String) : Prop :=
  ∀ others rest, Scans d' others rest → Scans d (words ++ others) (text.toList ++ rest)

variable {words' : List Word} {d'' : Nat} {text' : String}

theorem Adds.append (h : Adds d words d' text) (h' : Adds d' words' d'' text') :
    Adds d (words ++ words') d'' (text ++ text') := by
  intro others rest hscans
  rw [String.toList_append, List.append_assoc, List.append_assoc]
  exact h _ _ (h' _ _ hscans)

theorem adds_empty (d : Nat) : Adds d [] d "" := by
  intro others rest hscans
  exact hscans

theorem adds_quote (d : Nat) (value : String) :
    Adds d [(.string, quote value)] d (quote value) := by
  intro others rest hscans
  exact scans_quote value hscans

/-- The words of a constant text. -/
def wordsOf (piece : String) : List Word := (pieceWords [] piece.toList).getD []

theorem adds_piece {piece : String} (hwords : (pieceWords [] piece.toList).isSome = true)
    (hdepth : depthAfter d (wordsOf piece) = some d') : Adds d (wordsOf piece) d' piece := by
  intro others rest hscans
  obtain ⟨words, hsome⟩ := Option.isSome_iff_exists.1 hwords
  rw [wordsOf, hsome, Option.getD_some] at hdepth ⊢
  exact scans_pieceWords (Or.inl rfl) hsome hdepth hscans

/-- Whether a text begins with a character that no name goes on with. -/
def endsName (text : String) : Bool := text.toList.head?.any fun c => !continuesName c

theorem head_append_of_any {p : Char → Bool}
    (h : (text.toList.head?.any fun c => !p c) = true) :
    ∀ b ∈ (text.toList ++ rest).head?, p b = false := by
  rw [Option.any_eq_true] at h
  obtain ⟨c, hc, hstops⟩ := h
  intro b hb
  rw [List.head?_append, hc, Option.some_or] at hb
  obtain rfl := Option.some.inj hb
  rwa [Bool.not_eq_true'] at hstops

/-- A name in front of a text that ends it. -/
theorem Adds.name {name : String} (hname : IsNameText name) (hends : endsName text = true)
    (h : Adds d words d' text) : Adds d ((.name, name) :: words) d' (name ++ text) := by
  intro others rest hscans
  rw [String.toList_append, List.append_assoc]
  refine scans_name hname ?_ (h others rest hscans)
  exact head_append_of_any hends

/-- A digit in front of a text that ends the number. -/
theorem Adds.digit (hdigit : c.isDigit = true) (hblank : endsBlank c = true)
    (hends : (text.toList.head?.any fun c => !continuesNumber c) = true)
    (h : Adds d words d' text) :
    Adds d ((.number, String.ofList [c]) :: words) d' (String.ofList [c] ++ text) := by
  intro others rest hscans
  rw [String.toList_append, List.append_assoc, String.toList_ofList, List.singleton_append]
  refine scans_digit hdigit hblank ?_ (h others rest hscans)
  exact head_append_of_any hends

/-- A name after a dot, in front of a text that ends it. -/
theorem Adds.dot {name : String} (hname : IsNameText name) (hends : endsName text = true)
    (h : Adds d words d' text) :
    Adds d ((.punctuator, ".") :: (.name, name) :: words) d' ("." ++ (name ++ text)) := by
  intro others rest hscans
  have hnext := Adds.name hname hends h others rest hscans
  rw [String.toList_append, List.append_assoc]
  refine scans_dot ?_ hnext
  rw [String.toList_append, List.append_assoc]
  exact hname.behind_dot _

/-- A text that adds words at the top level, and nothing else, scans to these words. -/
theorem Adds.scan_eq (h : Adds 0 words d text) (hhashbang : hashbangLength text.toList = 0) :
    ∃ tokens, scan text = .ok tokens ∧ tokens.map Token.word = words := by
  have hscans := h [] [] (scans_nil d)
  rw [List.append_nil, List.append_nil] at hscans
  obtain ⟨tokens, hrun, hwords⟩ := hscans Scanner.initial rfl rfl
  refine ⟨tokens, ?_, hwords⟩
  rw [scan, scanChars, hhashbang]
  exact hrun

end ModuleBundler.Script
