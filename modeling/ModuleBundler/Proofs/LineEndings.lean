import Mathlib.Data.List.Forall2
import ModuleBundler.Proofs.Crlf

/-
  Scanning a script whose lines end with a carriage return and a line feed. Two scanners, one before
  the script as it is and one before the script with the carriage returns, stay alike while they
  take their turns (`Scanner.Turn.agrees`). They part at the first string or regular expression that
  escapes a line feed, which loses its end (`Scanner.Turn.run_eq_error`). So the script is accepted
  with the carriage returns just if there is no such token, and its tokens are the same then
  (`scan_withCrlf_iff`).
-/

namespace ModuleBundler.Script

variable {s s' s₁ : Scanner} {input rest chars : List Char} {t t' : Token} {ts tokens : List Token}
  {p p' start start' : Position} {source word : String} {newline : Bool} {lexeme : Lexeme}

/-! ## Tokens that agree -/

/-- Whether two places have the same line and column; their offsets may differ. -/
structure Position.Agrees (p p' : Position) : Prop where
  line : p'.line = p.line
  column : p'.column = p.column

/-- Whether one token is another with carriage returns. -/
structure Token.Agrees (t t' : Token) : Prop where
  kind : t'.kind = t.kind
  start : t.start.Agrees t'.start
  depth : t'.depth = t.depth
  newline : t'.newlineBefore = t.newlineBefore
  crlf : t'.text.toList = withCrlf t.text.toList
  /-- Without the carriage returns, the texts are the same. -/
  text : withLf t'.text.toList = t.text.toList

/-- Whether there is a line feed in a string or a regular expression, behind a backslash. -/
def Token.EscapesLine (t : Token) : Prop := escapesLines t.kind = true ∧ '\n' ∈ t.text.toList

theorem Position.Agrees.after (h : p.Agrees p') (cs : List Char) :
    (p.after cs).Agrees (p'.after (withCrlf cs)) := by
  induction cs generalizing p p' with
  | nil => exact h
  | cons c cs ih =>
    by_cases hc : c = '\n'
    · rw [hc, withCrlf_newline]
      exact ih ⟨congrArg (· + 1) h.line, rfl⟩
    · rw [withCrlf_cons hc]
      have hnext : ∀ p : Position, p.next c = ⟨p.offset + c.utf8Size, p.line, p.column + 1⟩ :=
        fun p => if_neg (by simpa using hc)
      refine ih ?_
      rw [hnext, hnext]
      exact ⟨h.line, congrArg (· + 1) h.column⟩

theorem Token.Agrees.text_beq (h : t.Agrees t') (hword : '\n' ∉ word.toList) :
    (t'.text == word) = (t.text == word) := by
  rw [Bool.eq_iff_iff, beq_iff_eq, beq_iff_eq, ← String.toList_inj, ← String.toList_inj, h.crlf,
    withCrlf_eq_iff hword]

theorem Token.Agrees.isName (h : t.Agrees t') (hword : '\n' ∉ word.toList) :
    t'.isName word = t.isName word := by
  rw [Token.isName, Token.isName, h.kind, h.text_beq hword]

theorem Token.Agrees.opensSubstitution (h : t.Agrees t') :
    Scanner.opensSubstitution t' = Scanner.opensSubstitution t := by
  rw [Scanner.opensSubstitution, Scanner.opensSubstitution, Bool.eq_iff_iff,
    List.isSuffixOf_iff_suffix, List.isSuffixOf_iff_suffix, h.crlf,
    suffix_withCrlf (by decide) (by decide)]

theorem Token.Agrees.isExpressionKeyword (h : t.Agrees t') :
    Scanner.expressionKeywords.contains t'.text = Scanner.expressionKeywords.contains t.text := by
  have hwords : ∀ word ∈ Scanner.expressionKeywords, (t'.text == word) = (t.text == word) :=
    fun word hword => h.text_beq ((by decide : ∀ word ∈ Scanner.expressionKeywords,
      '\n' ∉ word.toList) word hword)
  rw [List.contains_eq_any_beq, List.contains_eq_any_beq]
  rw [Bool.eq_iff_iff, List.any_eq_true, List.any_eq_true]
  exact exists_congr fun word => and_congr_right fun hword => by rw [hwords word hword]

/-! ## Scanners that are alike -/

/-- Whether two scanners have taken in tokens that agree, and know the same. -/
structure Scanner.Agrees (s s' : Scanner) : Prop where
  position : s.position.Agrees s'.position
  depth : s'.depth = s.depth
  substitutions : s'.substitutions = s.substitutions
  heads : s'.heads = s.heads
  afterHead : s'.afterHead = s.afterHead
  done : List.Forall₂ Token.Agrees s.done s'.done

theorem Scanner.Agrees.closesSubstitution (h : s.Agrees s') :
    s'.closesSubstitution = s.closesSubstitution := by
  rw [Scanner.closesSubstitution, Scanner.closesSubstitution, h.substitutions, h.depth]

theorem Scanner.Agrees.regexAllowed (h : s.Agrees s') : s'.regexAllowed = s.regexAllowed := by
  have hdone := h.done
  unfold Scanner.regexAllowed
  rw [h.afterHead]
  generalize s.done = done at hdone ⊢
  generalize s'.done = done' at hdone ⊢
  cases hdone with
  | nil => rfl
  | cons ht hts =>
    dsimp only
    rw [ht.kind, ht.text_beq (by decide), bne, ht.text_beq (by decide), ht.isExpressionKeyword,
      ht.opensSubstitution, bne]

theorem Scanner.Agrees.opensHead (h : s.Agrees s') : s'.opensHead = s.opensHead := by
  have hdone := h.done
  unfold Scanner.opensHead
  generalize s.done = done at hdone ⊢
  generalize s'.done = done' at hdone ⊢
  cases hdone with
  | nil => rfl
  | cons ht hts =>
    dsimp only
    rw [ht.isName (by decide), ht.isName (by decide), ht.isName (by decide), ht.isName (by decide),
      ht.isName (by decide)]
    cases hts with
    | nil => rfl
    | cons hu hus =>
      dsimp only
      rw [hu.isName (by decide)]

/-! ## Taking a lexeme in -/

theorem agrees_of_chars (kind : TokenKind) (depth : Nat) (newline : Bool)
    (hstart : start.Agrees start') (hcr : '\r' ∉ chars) :
    Token.Agrees ⟨kind, String.ofList chars, start, depth, newline⟩
      ⟨kind, String.ofList (withCrlf chars), start', depth, newline⟩ where
  kind := rfl
  start := hstart
  depth := rfl
  newline := rfl
  crlf := by rw [String.toList_ofList, String.toList_ofList]
  text := by rw [String.toList_ofList, String.toList_ofList, withLf_withCrlf hcr]

theorem withCrlf_beq (chars : List Char) {ds : List Char} (h : '\n' ∉ ds) :
    (withCrlf chars == ds) = (chars == ds) := by
  rw [Bool.eq_iff_iff, beq_iff_eq, beq_iff_eq, withCrlf_eq_iff h]

theorem isOpenerText_withCrlf (chars : List Char) :
    isOpenerText (withCrlf chars) = isOpenerText chars := by
  rw [isOpenerText, isOpenerText, withCrlf_beq _ (by decide), withCrlf_beq _ (by decide),
    withCrlf_beq _ (by decide)]

theorem isCloserText_withCrlf (chars : List Char) :
    isCloserText (withCrlf chars) = isCloserText chars := by
  rw [isCloserText, isCloserText, withCrlf_beq _ (by decide), withCrlf_beq _ (by decide),
    withCrlf_beq _ (by decide)]

/-- Scanners that are alike take a lexeme in alike. -/
theorem Scanner.Takes.agrees (h : s.Takes start newline chars lexeme s₁) (hs : s.Agrees s')
    (hstart : start.Agrees start') (hcr : '\r' ∉ chars) (more : Nat) :
    ∃ s₁', s'.Takes start' newline (withCrlf chars) (lexeme.withMore more) s₁' ∧ s₁.Agrees s₁' := by
  have hhead := hs.opensHead
  have hpushed : ∀ kind depth, List.Forall₂ Token.Agrees
      (⟨kind, String.ofList chars, start, depth, newline⟩ :: s.done)
      (⟨kind, String.ofList (withCrlf chars), start', depth, newline⟩ :: s'.done) :=
    fun kind depth => .cons (agrees_of_chars kind depth newline hstart hcr) hs.done
  have hparen : (withCrlf chars == ['(']) = (chars == ['(']) := withCrlf_beq chars (by decide)
  have hclose : (withCrlf chars == [')']) = (chars == [')']) := withCrlf_beq chars (by decide)
  obtain ⟨position, depth, substitutions, heads, afterHead, done⟩ := s
  obtain ⟨position', depth', substitutions', heads', afterHead', done'⟩ := s'
  obtain ⟨-, rfl, rfl, rfl, rfl, -⟩ := hs
  cases h with
  | template closes opens more' =>
    exact ⟨_, .template closes opens more,
      ⟨hstart.after chars, rfl, rfl, rfl, rfl, hpushed .template _⟩⟩
  | opener hchars =>
    refine ⟨_, .opener (by rw [isOpenerText_withCrlf, hchars]), ?_⟩
    refine ⟨hstart.after chars, rfl, rfl, ?_, rfl, hpushed .punctuator _⟩
    simp only [Scanner.takeOpener, hparen, hhead]
  | closer hopener hchars htake =>
    obtain ⟨d, hd, rfl⟩ := Scanner.takeCloser_eq_ok_iff.1 htake
    refine ⟨_, .closer (by rw [isOpenerText_withCrlf, hopener])
      (by rw [isCloserText_withCrlf, hchars])
      (Scanner.takeCloser_eq_ok_iff.2 ⟨d, hd, rfl⟩), ?_⟩
    refine ⟨hstart.after chars, rfl, rfl, ?_, ?_, hpushed .punctuator d⟩
    · simp only [hclose]
    · simp only [hclose]
  | other hplain =>
    refine ⟨_, .other ?_, ⟨hstart.after chars, rfl, rfl, rfl, rfl, hpushed _ _⟩⟩
    rwa [isOpenerText_withCrlf, isCloserText_withCrlf]

/-! ## Turns -/

theorem Lexeme.more_withMore (lexeme : Lexeme) (more : Nat) :
    (lexeme.withMore more).more = more := by
  cases lexeme <;> rfl

theorem withCrlf_split {gap cs : List Char} {c : Char} (hc : c ≠ '\n') :
    withCrlf (gap ++ c :: (cs ++ rest)) = withCrlf gap ++ c :: (withCrlf cs ++ withCrlf rest) := by
  rw [withCrlf_append, withCrlf_cons hc, withCrlf_append]

/-- Scanners that are alike take their turns alike, unless a line feed is escaped. -/
theorem Scanner.Turn.agrees (h : s.Turn input t s₁ rest) (hs : s.Agrees s') (hcr : '\r' ∉ input)
    (hline : ¬ t.EscapesLine) : ∃ t' s₁', s'.Turn (withCrlf input) t' s₁' (withCrlf rest) ∧
      t.Agrees t' ∧ s₁.Agrees s₁' := by
  cases h with
  | @take gap cs newline c lexeme hinput hblank hlexeme hmore htake hdone =>
    subst hinput
    obtain ⟨hc, hblank'⟩ := blankLength_withCrlf hblank
    obtain ⟨depth, rfl, -⟩ := Scanner.token_eq htake hdone
    have hmem : ¬ (escapesLines lexeme.kind = true ∧ '\n' ∈ cs) := by
      rw [Token.EscapesLine, String.toList_ofList, List.mem_cons] at hline
      exact fun ⟨hkind, hmem⟩ => hline ⟨hkind, Or.inr hmem⟩
    have hlexeme' := lexemeAt_withCrlf hlexeme
    rw [hmore, List.take_left, if_neg hmem, ← hs.closesSubstitution, ← hs.regexAllowed] at hlexeme'
    have hcr' : '\r' ∉ c :: cs := fun hmem =>
      hcr (List.mem_append_right gap (List.mem_append_left rest hmem))
    obtain ⟨s₁', htakes, hs₁⟩ := (Scanner.take_eq_ok_iff.1 htake).agrees hs (hs.position.after gap)
      hcr' (withCrlf cs).length
    obtain ⟨depth', hdone', -⟩ := htakes.exists_token
    rw [withCrlf_cons hc, ← Scanner.take_eq_ok_iff] at htakes
    rw [withCrlf_append] at hblank' hlexeme'
    have hturn := Scanner.Turn.take (withCrlf_split hc) ((withCrlf_split hc).symm ▸ hblank')
      hlexeme' (Lexeme.more_withMore lexeme _) htakes hdone'
    have hagree := hs₁.done
    rw [hdone, hdone'] at hagree
    cases hagree with
    | cons ht hts => exact ⟨_, s₁', hturn, ht, hs₁⟩

/-- A scanner that is alike stops where a line feed is escaped. -/
theorem Scanner.Turn.run_eq_error (h : s.Turn input t s₁ rest) (hs : s.Agrees s')
    (hline : t.EscapesLine) : ∃ e, s'.run (withCrlf input) = .error e := by
  cases h with
  | @take gap cs newline c lexeme hinput hblank hlexeme hmore htake hdone =>
    subst hinput
    obtain ⟨hc, hblank'⟩ := blankLength_withCrlf hblank
    obtain ⟨depth, rfl, -⟩ := Scanner.token_eq htake hdone
    obtain ⟨hkind, hmem⟩ := hline
    rw [String.toList_ofList] at hmem
    have hlexeme' := lexemeAt_withCrlf hlexeme
    rw [hmore, List.take_left, if_pos ⟨hkind, (List.mem_cons.1 hmem).resolve_left hc.symm⟩,
      ← hs.closesSubstitution, ← hs.regexAllowed] at hlexeme'
    refine ⟨(s'.position.after (withCrlf gap)).fault lexeme.endFault, ?_⟩
    rw [Scanner.run_eq, withCrlf_append, withCrlf_cons hc, hblank']
    dsimp only
    rw [List.drop_left, List.take_left]
    dsimp only
    rw [hlexeme']

/-! ## Runs -/

/-- As long as no line feed is escaped, the same tokens are found. -/
theorem Scanner.Finds.agrees (h : s.Finds input ts) (hs : s.Agrees s') (hcr : '\r' ∉ input)
    (hline : ∀ t ∈ ts, ¬ t.EscapesLine) :
    ∃ ts', s'.Finds (withCrlf input) ts' ∧ List.Forall₂ Token.Agrees ts ts' := by
  induction h generalizing s' with
  | @stop s input blank newline hblank hend hsub =>
    obtain ⟨newline', hblank'⟩ := blankLength_withCrlf_end hblank hend
    exact ⟨[], .stop hblank' List.drop_length (hs.substitutions.trans hsub), .nil⟩
  | @turn s s₁ input rest t ts hturn hrest ih =>
    obtain ⟨hfirst, hothers⟩ := List.forall_mem_cons.1 hline
    obtain ⟨t', s₁', hturn', ht, hs₁⟩ := hturn.agrees hs hcr hfirst
    obtain ⟨gap, hinput, -⟩ := hturn.split
    have hcr' : '\r' ∉ rest := fun hmem => hcr (by simp [hinput, hmem])
    obtain ⟨ts', hrest', hts⟩ := ih hs₁ hcr' hothers
    exact ⟨t' :: ts', .turn hturn' hrest', .cons ht hts⟩

/-- Where tokens are found at all, no line feed is escaped. -/
theorem Scanner.Finds.not_escapesLine (h : s.Finds input ts) (hs : s.Agrees s') (hcr : '\r' ∉ input)
    (hrun : s'.run (withCrlf input) = .ok tokens) : ∀ t ∈ ts, ¬ t.EscapesLine := by
  induction h generalizing s' with
  | stop hblank hend hsub => exact fun t ht => absurd ht List.not_mem_nil
  | @turn s s₁ input rest t ts hturn hrest ih =>
    have hfirst : ¬ t.EscapesLine := by
      intro hline
      obtain ⟨e, he⟩ := hturn.run_eq_error hs hline
      cases hrun.symm.trans he
    obtain ⟨t', s₁', hturn', -, hs₁⟩ := hturn.agrees hs hcr hfirst
    obtain ⟨gap, hinput, -⟩ := hturn.split
    have hcr' : '\r' ∉ rest := fun hmem => hcr (by simp [hinput, hmem])
    rw [hturn'.run_eq] at hrun
    exact List.forall_mem_cons.2 ⟨hfirst, ih hs₁ hcr' hrun⟩

/-! ## Scripts -/

/-- A script with a carriage return in front of each line feed. -/
def crlfSource (source : String) : String := String.ofList (withCrlf source.toList)

theorem hashbangLength_withCrlf (h : hashbangLength chars = 0) :
    hashbangLength (withCrlf chars) = 0 := by
  unfold hashbangLength
  split
  · next ds hds =>
    cases chars with
    | nil => cases hds
    | cons c cs =>
      by_cases hc : c = '\n'
      · rw [hc, withCrlf_newline] at hds
        exact absurd (List.cons_eq_cons.1 hds).1 (by decide)
      · rw [withCrlf_cons hc] at hds
        obtain ⟨rfl, hmark⟩ := List.cons_eq_cons.1 hds
        obtain ⟨more, hmore⟩ := prefix_withCrlf (d := '!') (by decide) ⟨ds, hmark.symm⟩
        rw [← hmore, List.singleton_append, hashbangLength] at h
        omega
  · rfl

/-- The carriage return at the end of a hashbang line belongs to that line, and would be a blank of
the body otherwise. -/
theorem scan_crlfSource (source : String) :
    scan (crlfSource source) = (Scanner.atBody source).run (withCrlf (bodyOf source)) := by
  rw [scan, crlfSource, String.toList_ofList, Scanner.atBody, bodyOf]
  rcases hashbang_cases source.toList with hzero | ⟨line, hline, hall, hhead⟩
  · rw [scanChars, hashbangLength_withCrlf hzero, hzero]
    rfl
  · have hsource : source.toList =
        '#' :: '!' :: (line ++ source.toList.drop (hashbangLength source.toList)) := by
      rw [← List.cons_append, ← List.cons_append, ← hline, List.take_append_drop]
    rw [hline]
    generalize source.toList.drop (hashbangLength source.toList) = body at hhead hsource ⊢
    have hmem : '\n' ∉ line := fun hmem => absurd (List.all_eq_true.1 hall _ hmem) (by decide)
    rw [hsource, withCrlf_cons (by decide), withCrlf_cons (by decide), withCrlf_append,
      withCrlf_of_not_mem hmem]
    cases body with
    | nil => exact scanChars_line hall (by simp)
    | cons c body =>
      obtain rfl := hhead c rfl
      rw [withCrlf_newline, Scanner.run_space rfl rfl, List.append_cons,
        scanChars_line (by rw [List.all_append, hall]; rfl) (by simp), ← List.cons_append,
        ← List.cons_append, Position.after_append]
      rfl

theorem Scanner.Agrees.refl_of_nil (h : s.done = []) : s.Agrees s where
  position := ⟨rfl, rfl⟩
  depth := rfl
  substitutions := rfl
  heads := rfl
  afterHead := rfl
  done := by rw [h]; exact .nil

/-- A script without carriage returns that is accepted is accepted with them just if no string and
no regular expression in it escapes a line feed, and its tokens are the same then. -/
theorem scan_withCrlf_iff (hcr : '\r' ∉ source.toList) (h : scan source = .ok tokens) :
    ((∃ tokens', scan (crlfSource source) = .ok tokens') ↔ ∀ t ∈ tokens, ¬ t.EscapesLine) ∧
      ∀ tokens', scan (crlfSource source) = .ok tokens' →
        List.Forall₂ Token.Agrees tokens tokens' := by
  have hfinds := finds_of_scan h
  have hs := Scanner.Agrees.refl_of_nil (s := Scanner.atBody source) rfl
  have hcr' : '\r' ∉ bodyOf source := fun hmem => hcr (List.mem_of_mem_drop hmem)
  have hagrees : (∀ t ∈ tokens, ¬ t.EscapesLine) → ∃ tokens',
      scan (crlfSource source) = .ok tokens' ∧ List.Forall₂ Token.Agrees tokens tokens' := by
    intro hline
    obtain ⟨tokens', hfinds', htokens⟩ := hfinds.agrees hs hcr' hline
    exact ⟨tokens', (scan_crlfSource source).trans hfinds'.run_eq, htokens⟩
  have hescapes : ∀ tokens', scan (crlfSource source) = .ok tokens' →
      ∀ t ∈ tokens, ¬ t.EscapesLine := by
    intro tokens' htokens
    rw [scan_crlfSource] at htokens
    exact hfinds.not_escapesLine hs hcr' htokens
  refine ⟨⟨fun ⟨tokens', htokens⟩ => hescapes tokens' htokens, fun hline => ?_⟩, ?_⟩
  · obtain ⟨tokens', htokens, -⟩ := hagrees hline
    exact ⟨tokens', htokens⟩
  · intro tokens' htokens
    obtain ⟨tokens'', htokens', hboth⟩ := hagrees (hescapes tokens' htokens)
    obtain rfl := Except.ok.inj (htokens.symm.trans htokens')
    exact hboth

/-- A script of a hashbang line, a comment, a template and a string, with line ends in all of them
but the string. -/
def foldedSource : String := "#! x\n/*\n*/ a = \x60\\\n$\x7bb\n\x7d\n\x60; // c\n'd'"

/-- It is accepted with the carriage returns, and its tokens are the same. -/
theorem scan_withCrlf_foldedSource : '\r' ∉ foldedSource.toList ∧ ∃ tokens,
    scan foldedSource = .ok tokens ∧ tokens.length = 7 ∧
      ((∃ tokens', scan (crlfSource foldedSource) = .ok tokens') ↔
        ∀ t ∈ tokens, ¬ t.EscapesLine) ∧
      ∀ tokens', scan (crlfSource foldedSource) = .ok tokens' →
        List.Forall₂ Token.Agrees tokens tokens' := by
  have hcr : '\r' ∉ foldedSource.toList := by decide
  obtain ⟨tokens, htokens, hlength⟩ : ∃ tokens, scan foldedSource = .ok tokens ∧
      tokens.length = 7 := exists_ok_of_map_toOption (by decide +kernel)
  exact ⟨hcr, tokens, htokens, hlength, scan_withCrlf_iff hcr htokens⟩

/-- A script with a string that goes on in the next line. -/
def escapedSource : String := "x = 'a\\\nb';\n"

/-- The script is accepted, and refused with carriage returns, although the string has the same
value with them. -/
theorem escaped_line : '\r' ∉ escapedSource.toList ∧ (∃ tokens, scan escapedSource = .ok tokens ∧
    tokens.map Token.text = ["x", "=", "'a\\\nb'", ";"]) ∧
    scan (crlfSource escapedSource) = .error ⟨.unterminatedString, 1, 5⟩ ∧
    stringValue "'a\\\nb'" = "ab" ∧ stringValue "'a\\\r\nb'" = "ab" := by
  refine ⟨by decide, exists_ok_of_map_toOption (by decide +kernel), ?_, by decide +kernel,
    by decide +kernel⟩
  decide +kernel

end ModuleBundler.Script
