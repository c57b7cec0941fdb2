import ModuleBundler.Proofs.Substitutions

/-
  The scanner turn by turn. In a turn it goes over blanks and takes in one lexeme, which becomes one
  token (`Scanner.Turn`). A scanner that finds tokens takes a turn for each of them and then meets
  nothing but blanks (`Scanner.run_eq_ok_iff`); otherwise it stops at a fault that lies in the text
  (`Scanner.isScanFault_of_run`). What holds at every turn is proved over the states that are
  reached from the beginning of a script: the depth goes up and down with the brackets of the
  tokens, and where it goes down there is something to take away (`Scanner.Reached.depth_add`).
-/

namespace ModuleBundler.Script

variable {s s' : Scanner} {input rest chars : List Char} {t : Token} {ts tokens : List Token}
  {source : String} {e : SyntaxError} {start : Position} {newline closing regex : Bool}
  {lexeme : Lexeme} {c : Char} {fault : Fault}

/-! ## Taking a lexeme in -/

/-- The characters of an opening bracket. -/
def isOpenerText (chars : List Char) : Bool := chars == ['('] || chars == ['['] || chars == ['{']

/-- The characters of a closing bracket. -/
def isCloserText (chars : List Char) : Bool := chars == [')'] || chars == [']'] || chars == ['}']

/-- The ways to take in the lexeme that `chars` spell. -/
inductive Scanner.Takes (s : Scanner) (start : Position) (newline : Bool) (chars : List Char) :
    Lexeme → Scanner → Prop
  | template (closes opens : Bool) (more : Nat) :
      Takes s start newline chars (.template closes opens more)
        (s.takeTemplate start newline closes opens chars)
  | opener {more : Nat} (hchars : isOpenerText chars = true) :
      Takes s start newline chars (.plain .punctuator more) (s.takeOpener start newline chars)
  | closer {more : Nat} {s' : Scanner} (hopener : isOpenerText chars = false)
      (hchars : isCloserText chars = true) (htake : s.takeCloser start newline chars = .ok s') :
      Takes s start newline chars (.plain .punctuator more) s'
  | other {kind : TokenKind} {more : Nat}
      (hplain : kind = .punctuator → isOpenerText chars = false ∧ isCloserText chars = false) :
      Takes s start newline chars (.plain kind more)
        (s.push ⟨kind, String.ofList chars, start, s.depth, newline⟩ chars)

theorem Scanner.take_eq_ok_iff :
    s.take start newline lexeme chars = .ok s' ↔ s.Takes start newline chars lexeme s' := by
  constructor
  · intro h
    cases lexeme with
    | template closes opens more =>
      cases h
      exact .template closes opens more
    | plain kind more =>
      rw [take] at h
      split at h
      · next hopener =>
        obtain ⟨hkind, hchars⟩ := Bool.and_eq_true_iff.1 hopener
        obtain rfl := beq_iff_eq.1 hkind
        cases h
        exact .opener hchars
      · next hopener =>
        split at h
        · next hcloser =>
          obtain ⟨hkind, hchars⟩ := Bool.and_eq_true_iff.1 hcloser
          obtain rfl := beq_iff_eq.1 hkind
          exact .closer (Bool.eq_false_iff.2 hopener) hchars h
        · next hcloser =>
          cases h
          refine .other ?_
          rintro rfl
          exact ⟨Bool.eq_false_iff.2 hopener, Bool.eq_false_iff.2 hcloser⟩
  · intro h
    cases h with
    | template closes opens more => rfl
    | opener hchars => exact if_pos hchars
    | closer hopener hchars htake =>
      rw [← htake, take]
      exact (if_neg (Bool.eq_false_iff.1 hopener)).trans (if_pos hchars)
    | @other kind more hplain =>
      rw [take, if_neg, if_neg]
      · intro hcloser
        obtain ⟨hkind, hchars⟩ := Bool.and_eq_true_iff.1 hcloser
        exact Bool.eq_false_iff.1 (hplain (beq_iff_eq.1 hkind)).2 hchars
      · intro hopener
        obtain ⟨hkind, hchars⟩ := Bool.and_eq_true_iff.1 hopener
        exact Bool.eq_false_iff.1 (hplain (beq_iff_eq.1 hkind)).1 hchars

/-- A closing bracket is taken in where something is open. -/
theorem Scanner.takeCloser_eq_ok_iff : s.takeCloser start newline chars = .ok s' ↔
    ∃ d, s.depth = d + 1 ∧
      s' = { s.push ⟨.punctuator, String.ofList chars, start, d, newline⟩ chars with
        depth := d
        heads := if chars == [')'] then s.heads.tail else s.heads
        afterHead := chars == [')'] && s.heads.head?.getD false } := by
  have hopen : ∀ d, s.depth = d + 1 → s.takeCloser start newline chars =
      .ok { s.push ⟨.punctuator, String.ofList chars, start, d, newline⟩ chars with
        depth := d
        heads := if chars == [')'] then s.heads.tail else s.heads
        afterHead := chars == [')'] && s.heads.head?.getD false } := by
    intro d hd
    rw [takeCloser, hd]
    dsimp only
    cases hparen : chars == [')'] <;> rfl
  constructor
  · intro h
    cases hd : s.depth with
    | zero =>
      rw [takeCloser, hd] at h
      cases h
    | succ d => exact ⟨d, rfl, Except.ok.inj (h.symm.trans (hopen d hd))⟩
  · rintro ⟨d, hd, rfl⟩
    exact hopen d hd

/-- The token of a lexeme. -/
theorem Scanner.Takes.exists_token (h : s.Takes start newline chars lexeme s') :
    ∃ depth, s'.done = ⟨lexeme.kind, String.ofList chars, start, depth, newline⟩ :: s.done ∧
      s'.position = start.after chars := by
  cases h with
  | template closes opens more => exact ⟨_, rfl, rfl⟩
  | opener hchars => exact ⟨_, rfl, rfl⟩
  | closer hopener hchars htake =>
    obtain ⟨d, -, rfl⟩ := Scanner.takeCloser_eq_ok_iff.1 htake
    exact ⟨d, rfl, rfl⟩
  | other hplain => exact ⟨_, rfl, rfl⟩

/-! ## Turns -/

/-- Whether a scanner before a text goes over blanks and takes in a lexeme, which becomes the token
`t`, and stands as `s'` before the rest of the text then. -/
inductive Scanner.Turn (s : Scanner) (input : List Char) (t : Token) (s' : Scanner)
    (rest : List Char) : Prop
  | take {gap cs : List Char} {newline : Bool} {c : Char} {lexeme : Lexeme}
      (hinput : input = gap ++ c :: (cs ++ rest))
      (hblank : blankLength .between 0 false input = .ok (gap.length, newline))
      (hlexeme : lexemeAt s.closesSubstitution s.regexAllowed c (cs ++ rest) = .ok lexeme)
      (hmore : lexeme.more = cs.length)
      (htake : s.take (s.position.after gap) newline lexeme (c :: cs) = .ok s')
      (hdone : s'.done = t :: s.done)

/-- Whether a scanner finds these tokens in a text, one in each turn, and only blanks behind
them. -/
inductive Scanner.Finds : Scanner → List Char → List Token → Prop
  | stop {s : Scanner} {input : List Char} {blank : Nat} {newline : Bool}
      (hblank : blankLength .between 0 false input = .ok (blank, newline))
      (hend : input.drop blank = []) (hsub : s.substitutions = []) : Finds s input []
  | turn {s s' : Scanner} {input rest : List Char} {t : Token} {ts : List Token}
      (hturn : s.Turn input t s' rest) (hrest : Finds s' rest ts) : Finds s input (t :: ts)

theorem Scanner.Turn.done_eq (h : s.Turn input t s' rest) : s'.done = t :: s.done := by
  cases h with
  | take hinput hblank hlexeme hmore htake hdone => exact hdone

/-- The token of a turn, of which only the depth is left open. -/
theorem Scanner.token_eq (htake : s.take start newline lexeme chars = .ok s')
    (hdone : s'.done = t :: s.done) : ∃ depth,
      t = ⟨lexeme.kind, String.ofList chars, start, depth, newline⟩ ∧
        s'.position = start.after chars := by
  obtain ⟨depth, hdone', hposition⟩ := (Scanner.take_eq_ok_iff.1 htake).exists_token
  exact ⟨depth, (List.cons_eq_cons.1 (hdone.symm.trans hdone')).1, hposition⟩

/-- A run goes on where a turn ends. -/
theorem Scanner.Turn.run_eq (h : s.Turn input t s' rest) : s.run input = s'.run rest := by
  cases h with
  | take hinput hblank hlexeme hmore htake hdone =>
    rw [Scanner.run_eq, hblank, hinput]
    dsimp only
    rw [List.drop_left, List.take_left]
    dsimp only
    rw [hlexeme]
    dsimp only
    rw [hmore, List.take_left, htake]
    dsimp only
    rw [List.drop_left]

theorem Scanner.Finds.run_eq (h : s.Finds input ts) : s.run input = .ok (s.done.reverse ++ ts) := by
  induction h with
  | stop hblank hend hsub =>
    rw [Scanner.run_eq, hblank]
    dsimp only
    rw [hend, hsub, List.append_nil]
    rfl
  | turn hturn hrest ih =>
    rw [hturn.run_eq, ih, hturn.done_eq, List.reverse_cons, List.append_assoc,
      List.singleton_append]

theorem Scanner.finds_of_run (h : s.run input = .ok tokens) :
    ∃ found, tokens = s.done.reverse ++ found ∧ s.Finds input found := by
  fun_induction Scanner.run s input with
  | case1 => cases h
  | case2 s input blank newline hblank hrest hempty =>
    cases h
    exact ⟨[], (List.append_nil _).symm, .stop hblank hrest (List.isEmpty_iff.1 hempty)⟩
  | case3 => cases h
  | case4 => cases h
  | case5 => cases h
  | case6 s input blank newline hblank start c rest hrest lexeme hlexeme s' htake ih =>
    obtain ⟨found, rfl, hfound⟩ := ih h
    obtain ⟨depth, hdone, -⟩ := (Scanner.take_eq_ok_iff.1 htake).exists_token
    have hlength : blank ≤ input.length := by
      have := congrArg List.length hrest
      rw [List.length_drop, List.length_cons] at this
      omega
    have hblank' : blankLength .between 0 false input =
        .ok ((input.take blank).length, newline) := by
      rw [List.length_take_of_le hlength, hblank]
    have hturn := Scanner.Turn.take
      (by rw [List.take_append_drop, ← hrest, List.take_append_drop]) hblank'
      (by rw [List.take_append_drop, hlexeme])
      (by rw [List.length_take_of_le (more_le_of_lexemeAt hlexeme)]) htake hdone
    refine ⟨_ :: found, ?_, .turn hturn hfound⟩
    rw [hdone, List.reverse_cons, List.append_assoc, List.singleton_append]

/-- A run gives the tokens from before and those that are found. -/
theorem Scanner.run_eq_ok_iff :
    s.run input = .ok tokens ↔ ∃ found, tokens = s.done.reverse ++ found ∧ s.Finds input found := by
  refine ⟨Scanner.finds_of_run, ?_⟩
  rintro ⟨found, rfl, hfound⟩
  exact hfound.run_eq

/-- In a turn, the blanks at the front of a text and the text of a token are passed. -/
theorem Scanner.Turn.split (h : s.Turn input t s' rest) :
    ∃ gap, input = gap ++ (t.text.toList ++ rest) ∧
      blankLength .between 0 false input = .ok (gap.length, t.newlineBefore) ∧
      t.start = s.position.after gap ∧ s'.position = t.start.after t.text.toList := by
  cases h with
  | @take gap cs newline c lexeme hinput hblank hlexeme hmore htake hdone =>
    obtain ⟨depth, rfl, hposition⟩ := Scanner.token_eq htake hdone
    refine ⟨gap, ?_, hblank, rfl, ?_⟩
    · rw [String.toList_ofList, hinput, List.cons_append]
    · rw [String.toList_ofList, hposition]

/-- The text of a token is not empty, and begins with no blank. -/
theorem Scanner.Turn.exists_head (h : s.Turn input t s' rest) :
    ∃ c cs, t.text.toList = c :: cs ∧ isSpace c = false := by
  cases h with
  | @take gap cs newline c lexeme hinput hblank hlexeme hmore htake hdone =>
    obtain ⟨depth, rfl, -⟩ := Scanner.token_eq htake hdone
    obtain ⟨m, hm, hstops⟩ := blankLength_stops hblank
    obtain rfl : m = gap.length := by omega
    rw [hinput, List.drop_left] at hstops
    exact ⟨c, cs, String.toList_ofList, (hstops c rfl).2⟩

/-- So it is with all tokens that are found. -/
theorem Scanner.Finds.exists_head (h : s.Finds input ts) :
    ∀ t ∈ ts, ∃ c cs, t.text.toList = c :: cs ∧ isSpace c = false := by
  induction h with
  | stop hblank hend hsub => exact fun t ht => absurd ht List.not_mem_nil
  | turn hturn hrest ih => exact List.forall_mem_cons.2 ⟨hturn.exists_head, ih⟩

/-! ## States from the beginning on -/

/-- The scanner before the body of a script, behind its hashbang line. -/
def Scanner.atBody (source : String) : Scanner :=
  { initial with
    position := Position.first.after (source.toList.take (hashbangLength source.toList)) }

/-- A script without its hashbang line. -/
def bodyOf (source : String) : List Char := source.toList.drop (hashbangLength source.toList)

theorem finds_of_scan (h : scan source = .ok tokens) :
    (Scanner.atBody source).Finds (bodyOf source) tokens := by
  obtain ⟨found, rfl, hfound⟩ := Scanner.finds_of_run h
  exact hfound

/-- Whether the scanner comes to stand as `s` before the text `input`, in a script that may turn out
to have a fault further on. -/
inductive Scanner.Reached (source : String) : Scanner → List Char → Prop
  | start : Reached source (atBody source) (bodyOf source)
  | turn {s s' : Scanner} {input rest : List Char} {t : Token} (h : Reached source s input)
      (hturn : s.Turn input t s' rest) : Reached source s' rest

/-- The depths of open substitutions, and what the word of a token does to them. -/
theorem Scanner.Turn.keeps (h : s.Turn input t s' rest) (hpositive : ∀ n ∈ s.substitutions, 0 < n) :
    (closedBy t.word ≠ none → 0 < s.depth) ∧ s'.depth = depthPast s.depth t.word ∧
      s'.substitutions = substitutionsPast s.depth s.substitutions t.word := by
  cases h with
  | @take gap cs newline c lexeme hinput hblank hlexeme hmore htake hdone =>
    have hchars : c :: cs = c :: (cs ++ rest).take lexeme.more := by rw [hmore, List.take_left]
    rw [hchars] at htake
    obtain ⟨depth, rfl, -⟩ := Scanner.token_eq htake hdone
    obtain ⟨hopen, -, hsub⟩ := Scanner.take_keeps hlexeme htake hpositive rfl
    exact ⟨hopen, (Scanner.take_counts hlexeme htake rfl).1, hsub⟩

/-- Substitutions are open at depths above the outermost. -/
theorem Scanner.Reached.positive (h : Reached source s input) : ∀ n ∈ s.substitutions, 0 < n := by
  induction h with
  | start => exact fun n hn => absurd hn List.not_mem_nil
  | turn h hturn ih =>
    rw [(hturn.keeps ih).2.2]
    exact positive_substitutionsPast ih

/-- A brace that ends a substitution is not met at the outermost depth. -/
theorem Scanner.Reached.pos_of_closesSubstitution (h : Reached source s input)
    (hcloses : s.closesSubstitution = true) : 0 < s.depth :=
  h.positive s.depth (List.mem_of_head? (beq_iff_eq.1 hcloses))

/-- The depth after a turn is the depth before, less what the token closes, with what it opens. -/
theorem Scanner.Reached.depth_add (h : Reached source s input) (hturn : s.Turn input t s' rest) :
    s'.depth + (closedBy t.word).toList.length = s.depth + (openedBy t.word).toList.length := by
  obtain ⟨hopen, hdepth, -⟩ := hturn.keeps h.positive
  rw [hdepth, depthPast_add hopen]

/-! ## Faults -/

/-- The faults at which the scanner stops. -/
inductive IsScanFault : Fault → Prop
  | comment : IsScanFault .unterminatedComment
  | string : IsScanFault .unterminatedString
  | template : IsScanFault .unterminatedTemplate
  | regex : IsScanFault .unterminatedRegex
  | substitution : IsScanFault .unterminatedSubstitution
  | closer {chars : List Char} (hchars : isCloserText chars = true) :
      IsScanFault (.unmatchedCloser (String.ofList chars))

theorem isScanFault_of_lexemeAt {cs : List Char} (h : lexemeAt closing regex c cs = .error fault) :
    IsScanFault fault := by
  unfold lexemeAt at h
  repeat' split at h
  all_goals cases h
  · exact .string
  · exact .template
  · exact .regex

theorem Scanner.isScanFault_of_take (h : s.take start newline lexeme chars = .error e) :
    IsScanFault e.fault := by
  cases lexeme with
  | template closes opens more => cases h
  | plain kind more =>
    rw [take] at h
    split at h
    · cases h
    · split at h
      · next hcloser =>
        rw [takeCloser] at h
        split at h
        · cases h
          exact .closer (Bool.and_eq_true_iff.1 hcloser).2
        · dsimp only at h
          split at h <;> cases h
      · cases h

theorem Scanner.isScanFault_of_run (h : s.run input = .error e) : IsScanFault e.fault := by
  fun_induction Scanner.run s input with
  | case1 =>
    cases h
    exact .comment
  | case2 => cases h
  | case3 =>
    cases h
    exact .substitution
  | case4 s input blank newline hblank start c rest hrest fault hlexeme =>
    cases h
    exact isScanFault_of_lexemeAt hlexeme
  | case5 s input blank newline hblank start c rest hrest lexeme hlexeme e' htake =>
    cases h
    exact Scanner.isScanFault_of_take htake
  | case6 s input blank newline hblank start c rest hrest lexeme hlexeme s' htake ih => exact ih h

end ModuleBundler.Script
