import ModuleBundler.Proofs.Positions

/-
  Code in the substitutions of templates. A scanner that has just opened a substitution reads on as
  one at the beginning of a script does (`Scanner.InCode`): the part of a template before leaves no
  trace, and what is open around the code is only counted along. The brace that ends the
  substitution is told by its depth, and no brace of the code stands at that depth, since one that
  did would have nothing to close on its own (`Scanner.InCode.closesSubstitution_eq`). Hence the
  tokens of a script are found again between the braces of a substitution, in their places and
  deeper by one (`scan_interpolation`). The script may hold templates of its own.
-/

namespace ModuleBundler.Script

variable {outer s s' S S' : Scanner} {input rest more chars : List Char} {t : Token}
  {ts tokens : List Token} {source : String} {start : Position} {newline : Bool}
  {lexeme : Lexeme} {p q : Position} {c : Char}

/-! ## Places behind another text -/

/-- A place in a text that stands behind another one, which ends at `p`. -/
def Position.behind (q p : Position) : Position :=
  ⟨p.offset + q.offset, p.line + (q.line - 1),
    if q.line = 1 then p.column + (q.column - 1) else q.column⟩

theorem Position.next_behind (hline : 1 ≤ q.line) (hcolumn : 1 ≤ q.column) (p : Position)
    (c : Char) : (q.behind p).next c = (q.next c).behind p := by
  by_cases hc : c = '\n'
  · have hnext : q.line + 1 ≠ 1 := by omega
    simp only [next, behind, hc, beq_self_eq_true, if_true, if_neg hnext, Position.mk.injEq,
      and_true]
    omega
  · have hplace : ∀ r : Position, r.next c = ⟨r.offset + c.utf8Size, r.line, r.column + 1⟩ :=
      fun r => if_neg (by simpa using hc)
    rw [hplace, hplace, behind, behind, Position.mk.injEq]
    refine ⟨Nat.add_assoc _ _ _, rfl, ?_⟩
    by_cases hfirst : q.line = 1
    · simp only [if_pos hfirst]
      omega
    · simp only [if_neg hfirst]

/-- Where a text ends behind another one. -/
theorem Position.after_eq_behind (p : Position) (cs : List Char) :
    p.after cs = (first.after cs).behind p := by
  induction cs using List.reverseRecOn with
  | nil => rfl
  | append_singleton cs c ih =>
    have hline : 1 ≤ (first.after cs).line := by rw [after_first]; exact Nat.le_add_right 1 _
    have hcolumn : 1 ≤ (first.after cs).column := by rw [after_first]; exact Nat.le_add_right 1 _
    rw [after_append, after_append, after_cons, after_cons, after_nil, after_nil, ih,
      next_behind hline hcolumn]

/-! ## A scanner in a substitution -/

/-- A token of a script, as it stands in a substitution that `outer` has just opened. -/
def Token.inCode (outer : Scanner) (t : Token) : Token :=
  { t with start := t.start.behind outer.position, depth := t.depth + outer.depth }

/-- Whether a scanner has just opened a substitution, with no parenthesis open around it. -/
structure Scanner.OpensCode (outer : Scanner) : Prop where
  substitution : outer.substitutions.head? = some outer.depth
  heads : outer.heads = []
  afterHead : outer.afterHead = false
  last : ∃ t before, outer.done = t :: before ∧ t.kind = .template ∧ opensSubstitution t = true

/-- Whether a scanner `S` has read in a substitution what `s` has read from the beginning of a
script. -/
structure Scanner.InCode (outer s S : Scanner) : Prop where
  position : ∃ passed, s.position = Position.first.after passed ∧
    S.position = outer.position.after passed
  depth : S.depth = s.depth + outer.depth
  substitutions : S.substitutions = s.substitutions.map (· + outer.depth) ++ outer.substitutions
  heads : S.heads = s.heads
  afterHead : S.afterHead = s.afterHead
  done : S.done = s.done.map (Token.inCode outer) ++ outer.done

theorem Scanner.inCode_initial (houter : outer.OpensCode) : InCode outer initial outer where
  position := ⟨[], rfl, rfl⟩
  depth := (Nat.zero_add _).symm
  substitutions := rfl
  heads := houter.heads
  afterHead := houter.afterHead
  done := rfl

namespace Scanner.InCode

theorem regexAllowed_eq (h : InCode outer s S) (houter : outer.OpensCode) :
    S.regexAllowed = s.regexAllowed := by
  obtain ⟨head, before, hhead, hkind, hopens⟩ := houter.last
  rw [regexAllowed, regexAllowed, h.done, hhead, h.afterHead]
  cases s.done with
  | nil => simp [hkind, hopens]
  | cons t ts => rfl

theorem opensHead_eq (h : InCode outer s S) (houter : outer.OpensCode) :
    S.opensHead = s.opensHead := by
  obtain ⟨head, before, hhead, hkind, -⟩ := houter.last
  have hname : ∀ name, head.isName name = false := by
    intro name
    simp [Token.isName, hkind]
  rw [opensHead, opensHead, h.done, hhead]
  cases s.done with
  | nil => simp [hname]
  | cons t ts =>
    cases ts with
    | nil =>
      show (if t.isName "await" then head.isName "for" else _) = _
      rw [hname]
      rfl
    | cons t' ts => rfl

/-- A brace ends a substitution in both or in neither, unless nothing is open in the script. -/
theorem closesSubstitution_eq (h : InCode outer s S) (houter : outer.OpensCode)
    (hopen : 0 < s.depth) : S.closesSubstitution = s.closesSubstitution := by
  rw [closesSubstitution, closesSubstitution, h.substitutions, h.depth]
  cases s.substitutions with
  | nil =>
    have hne : s.depth ≠ 0 := by omega
    simp [houter.substitution, hne]
  | cons n subs => simp

/-- Where nothing is open in the script, the next brace that closes ends the substitution. -/
theorem closesSubstitution_of_closed (h : InCode outer s S) (houter : outer.OpensCode)
    (hdepth : s.depth = 0) (hsub : s.substitutions = []) : S.closesSubstitution = true := by
  rw [closesSubstitution, h.substitutions, h.depth, hdepth, hsub, Nat.zero_add, List.map_nil,
    List.nil_append, houter.substitution]
  exact beq_self_eq_true _

end Scanner.InCode

/-! ## Taking a lexeme in -/

/-- In a substitution, the place of a token is counted on from the beginning of the code. -/
theorem Scanner.InCode.token_eq (h : InCode outer s S) (gap : List Char) (kind : TokenKind)
    (text : String) (depth : Nat) (newline : Bool) :
    Token.inCode outer ⟨kind, text, s.position.after gap, depth, newline⟩ =
      ⟨kind, text, S.position.after gap, depth + outer.depth, newline⟩ := by
  obtain ⟨passed, hs, hS⟩ := h.position
  rw [Token.inCode, hs, hS, ← Position.after_append, ← Position.after_append,
    ← Position.after_eq_behind]

/-- What is taken in at the beginning of a script is taken in in a substitution. -/
theorem Scanner.Takes.inCode {gap : List Char}
    (h : s.Takes (s.position.after gap) newline chars lexeme s') (hS : InCode outer s S)
    (houter : outer.OpensCode)
    (hcloses : ∀ opens more, lexeme = .template true opens more →
      0 < s.depth ∧ s.substitutions ≠ []) :
    ∃ S', S.Takes (S.position.after gap) newline chars lexeme S' ∧ InCode outer s' S' := by
  have hplace : ∃ passed, (s.position.after gap).after chars = Position.first.after passed ∧
      (S.position.after gap).after chars = outer.position.after passed := by
    obtain ⟨passed, hs, hS⟩ := hS.position
    refine ⟨passed ++ (gap ++ chars), ?_, ?_⟩
    · rw [hs, ← Position.after_append, ← Position.after_append]
    · rw [hS, ← Position.after_append, ← Position.after_append]
  have hdone : ∀ kind depth depth', depth' = depth + outer.depth →
      ⟨kind, String.ofList chars, S.position.after gap, depth', newline⟩ :: S.done =
        ((⟨kind, String.ofList chars, s.position.after gap, depth, newline⟩ : Token) ::
          s.done).map (Token.inCode outer) ++ outer.done := by
    rintro kind depth _ rfl
    rw [List.map_cons, hS.token_eq, hS.done]
    rfl
  cases h with
  | template closes opens more =>
    have hdepth : (if closes then S.depth - 1 else S.depth) =
        (if closes then s.depth - 1 else s.depth) + outer.depth := by
      rw [hS.depth]
      cases closes with
      | false => rfl
      | true =>
        have hpos := (hcloses opens more rfl).1
        simp only [if_true]
        omega
    have hsub : (if closes then S.substitutions.tail else S.substitutions) =
        (if closes then s.substitutions.tail else s.substitutions).map (· + outer.depth) ++
          outer.substitutions := by
      rw [hS.substitutions]
      cases closes with
      | false => rfl
      | true =>
        obtain ⟨n, subs, hsubs⟩ := List.exists_cons_of_ne_nil (hcloses opens more rfl).2
        simp [hsubs]
    refine ⟨_, .template closes opens more, hplace, ?_, ?_, hS.heads, rfl, ?_⟩
    · dsimp only [Scanner.takeTemplate]
      rw [hdepth]
      cases opens <;> simp [Nat.add_right_comm]
    · dsimp only [Scanner.takeTemplate]
      rw [hdepth, hsub]
      cases opens <;> simp [Nat.add_right_comm]
    · refine hdone .template _ _ ?_
      rw [hdepth]
      cases opens <;> simp [Nat.add_right_comm]
  | opener hchars =>
    refine ⟨_, .opener hchars, hplace, ?_, hS.substitutions, ?_, rfl,
      hdone .punctuator _ _ hS.depth⟩
    · show S.depth + 1 = s.depth + 1 + outer.depth
      rw [hS.depth, Nat.add_right_comm]
    · dsimp only [Scanner.takeOpener, Scanner.push]
      rw [hS.opensHead_eq houter, hS.heads]
  | closer hopener hchars htake =>
    obtain ⟨d, hd, rfl⟩ := Scanner.takeCloser_eq_ok_iff.1 htake
    have hD : S.depth = d + outer.depth + 1 := by rw [hS.depth, hd, Nat.add_right_comm]
    refine ⟨_, .closer hopener hchars (Scanner.takeCloser_eq_ok_iff.2 ⟨_, hD, rfl⟩), hplace, rfl,
      hS.substitutions, ?_, ?_, hdone .punctuator d _ rfl⟩
    · dsimp only
      rw [hS.heads]
    · dsimp only
      rw [hS.heads]
  | other hplain =>
    exact ⟨_, .other hplain, hplace, hS.depth, hS.substitutions, hS.heads, rfl,
      hdone _ _ _ hS.depth⟩

/-! ## Turns -/

/-- What a closing brace becomes. -/
theorem kind_of_brace {closing regex : Bool} (h : lexemeAt closing regex '}' rest = .ok lexeme) :
    lexeme.kind = if closing then .template else .punctuator := by
  cases closing with
  | true =>
    rw [lexemeAt, if_neg (by decide), if_pos (by rfl)] at h
    split at h <;> cases h
    rfl
  | false =>
    obtain rfl : Lexeme.plain .punctuator 0 = lexeme := Except.ok.inj h
    rfl

/-- Only for a closing brace it matters whether one ends a substitution. -/
theorem lexemeAt_closing (hc : c ≠ '}') (closing closing' regex : Bool) (rest : List Char) :
    lexemeAt closing regex c rest = lexemeAt closing' regex c rest := by
  have hbrace : (c == '}') = false := beq_eq_false_iff_ne.2 hc
  simp only [lexemeAt, hbrace, Bool.false_and]

/-- A closing brace that is taken in has something to close. -/
theorem Scanner.Turn.pos_of_brace (h : s.Turn input t s' rest)
    (hpositive : ∀ n ∈ s.substitutions, 0 < n) (hbrace : t.text.toList.head? = some '}') :
    0 < s.depth := by
  refine (h.keeps hpositive).1 ?_
  cases h with
  | @take gap cs newline c lexeme hinput hblank hlexeme hmore htake hdone =>
    obtain ⟨depth, rfl, -⟩ := Scanner.token_eq htake hdone
    rw [String.toList_ofList] at hbrace
    obtain rfl := Option.some.inj hbrace
    rw [Token.word]
    cases hcloses : s.closesSubstitution with
    | true =>
      rw [hcloses] at hlexeme
      rw [kind_of_brace hlexeme, if_pos rfl, closedBy_template, String.toList_ofList,
        if_pos hbrace]
      exact Option.some_ne_none _
    | false =>
      rw [hcloses] at hlexeme
      obtain rfl : Lexeme.plain .punctuator 0 = lexeme := Except.ok.inj hlexeme
      obtain rfl := List.eq_nil_of_length_eq_zero hmore.symm
      exact Option.some_ne_none Bracket.brace

/-- In a turn, the scanner goes over the text that it passes. -/
theorem Scanner.Turn.exists_passed (h : s.Turn input t s' rest) :
    ∃ passed, input = passed ++ rest ∧ s'.position = s.position.after passed := by
  obtain ⟨gap, hinput, -, hstart, hposition⟩ := h.split
  refine ⟨gap ++ t.text.toList, ?_, ?_⟩
  · rw [hinput, List.append_assoc]
  · rw [hposition, hstart, Position.after_append]

/-- A turn at the beginning of a script is taken in a substitution too, if the line of the script
ends there. -/
theorem Scanner.Turn.inCode (h : s.Turn input t s' rest) (hS : InCode outer s S)
    (houter : outer.OpensCode) (hpositive : ∀ n ∈ s.substitutions, 0 < n)
    (hline : more.head? = some '\n') :
    ∃ S', S.Turn (input ++ more) (t.inCode outer) S' (rest ++ more) ∧ InCode outer s' S' := by
  have hbrace := h.pos_of_brace hpositive
  cases h with
  | @take gap cs newline c lexeme hinput hblank hlexeme hmore htake hdone =>
    have htext : t.text.toList = c :: cs := by
      obtain ⟨depth, rfl, -⟩ := Scanner.token_eq htake hdone
      exact String.toList_ofList
    rw [htext, List.head?_cons] at hbrace
    have hc : c ≠ '\n' := by
      obtain ⟨m, hm, hstops⟩ := blankLength_stops hblank
      obtain rfl : m = gap.length := by omega
      rw [hinput, List.drop_left] at hstops
      rintro rfl
      exact absurd (hstops '\n' rfl).1 (by decide)
    have hsettled : IsSettled .between input more := isSettled_between (Or.inr (Or.inr hline))
    have hblank' : blankLength .between 0 false (input ++ more) = .ok (gap.length, newline) := by
      obtain ⟨m, hm, hfound⟩ := blankLength_append hblank hsettled
      have hlength : m < input.length := by
        rw [hinput, List.length_append, List.length_cons]
        omega
      exact (hfound.resolve_right (by omega)).2
    have hlexeme' : lexemeAt S.closesSubstitution S.regexAllowed c (cs ++ (rest ++ more)) =
        .ok lexeme := by
      have happend := lexemeAt_append hc (Or.inr hline) hlexeme
      rw [List.append_assoc, ← hS.regexAllowed_eq houter] at happend
      by_cases hb : c = '}'
      · rwa [← hS.closesSubstitution_eq houter (hbrace (congrArg some hb))] at happend
      · rwa [lexemeAt_closing hb] at happend
    have hcloses : ∀ opens more, lexeme = .template true opens more →
        0 < s.depth ∧ s.substitutions ≠ [] := by
      rintro opens more rfl
      obtain ⟨hb, hclosing, -⟩ := template_of_lexemeAt hlexeme
      have hb := beq_iff_eq.1 hb
      have hhead := beq_iff_eq.1 (hclosing hb)
      refine ⟨hbrace (congrArg some hb), ?_⟩
      intro hnil
      rw [hnil] at hhead
      cases hhead
    obtain ⟨S', htakes, hS'⟩ := (Scanner.take_eq_ok_iff.1 htake).inCode hS houter hcloses
    have hdone' : S'.done = t.inCode outer :: S.done := by
      rw [hS'.done, hdone, List.map_cons, List.cons_append, ← hS.done]
    refine ⟨S', .take ?_ hblank' hlexeme' hmore (Scanner.take_eq_ok_iff.2 htakes) hdone', hS'⟩
    rw [hinput]
    simp

/-! ## Runs -/

/-- Where a scanner comes to the end of a script, one in a substitution comes to the end of the
line, in front of the last blanks. -/
theorem Scanner.Finds.inCode (h : s.Finds input ts) (hS : InCode outer s S)
    (houter : outer.OpensCode) (hpositive : ∀ n ∈ s.substitutions, 0 < n)
    (hline : more.head? = some '\n') :
    ∃ s' S' gap newline, InCode outer s' S' ∧ s'.substitutions = [] ∧
      s'.depth = (ts.map Token.word).foldl depthPast s.depth ∧ s'.done = ts.reverse ++ s.done ∧
      blankLength .between 0 false gap = .ok (gap.length, newline) ∧
      S'.position.after gap = S.position.after input ∧
      S.run (input ++ more) = S'.run (gap ++ more) := by
  induction h generalizing S with
  | @stop s input blank newline hblank hend hsub =>
    have hsettled : IsSettled .between input more := isSettled_between (Or.inr (Or.inr hline))
    have hlength : blank = input.length := by
      obtain ⟨m, hm, hfound⟩ := blankLength_append hblank hsettled
      have := List.drop_eq_nil_iff.1 hend
      omega
    subst hlength
    exact ⟨s, S, input, newline, hS, hsub, rfl, rfl, hblank, rfl, rfl⟩
  | @turn s s₁ input rest t ts hturn hrest ih =>
    obtain ⟨S₁, hturn', hS₁⟩ := hturn.inCode hS houter hpositive hline
    obtain ⟨-, hdepth, hsub⟩ := hturn.keeps hpositive
    obtain ⟨s', S', gap, newline, hS', hsub', hdepth', hdone', hblank, hplace, hrun⟩ :=
      ih hS₁ (hsub ▸ positive_substitutionsPast hpositive)
    refine ⟨s', S', gap, newline, hS', hsub', ?_, ?_, hblank, ?_, ?_⟩
    · rw [hdepth', hdepth]
      rfl
    · rw [hdone', hturn.done_eq]
      simp
    · obtain ⟨passed, hpassed, hposition⟩ := hturn'.exists_passed
      rw [← List.append_assoc, List.append_left_inj] at hpassed
      rw [hplace, hposition, ← Position.after_append, ← hpassed]
    · rw [hturn'.run_eq, hrun]

/-! ## Scripts in templates -/

/-- A template of one substitution, with a script on the lines of it. -/
def interpolation (source : String) : String := "\x60$\x7b" ++ source ++ "\n\x7d\x60"

/-- The part of the template in front of its substitution. -/
def interpolationHead : Token := ⟨.template, "\x60$\x7b", Position.first, 1, false⟩

/-- The part of the template behind its substitution. -/
def interpolationTail (source : String) : Token :=
  ⟨.template, "\x7d\x60", Position.first.after ("\x60$\x7b" ++ source ++ "\n").toList, 0, true⟩

/-- A token of the script as it stands in the template: behind the three characters of the first
line, and deeper by one. -/
def Token.interpolated (t : Token) : Token :=
  { t with start := t.start.behind ⟨3, 1, 4⟩, depth := t.depth + 1 }

/-- The scanner in the substitution. -/
def Scanner.atCode : Scanner := ⟨⟨3, 1, 4⟩, 1, [1], [], false, [interpolationHead]⟩

theorem opensCode_atCode : Scanner.atCode.OpensCode :=
  ⟨rfl, rfl, rfl, interpolationHead, [], rfl, rfl, by decide⟩

theorem run_interpolationHead (cs : List Char) :
    Scanner.initial.run ('\x60' :: '$' :: '{' :: cs) = Scanner.atCode.run cs := by
  have hlexeme : lexemeAt false true '\x60' ('$' :: '{' :: cs) = .ok (.template false true 2) :=
    rfl
  rw [Scanner.run_lexeme (by decide) hlexeme]
  rfl

/-- At the end of the code, the template is closed. -/
theorem Scanner.InCode.run_interpolationTail {gap : List Char}
    (hS : InCode .atCode s S) (hdepth : s.depth = 0) (hsub : s.substitutions = [])
    (hblank : blankLength .between 0 false gap = .ok (gap.length, newline)) :
    S.run (gap ++ ['\n', '}', '\x60']) = .ok (S.done.reverse ++
      [⟨.template, "\x7d\x60", (S.position.after gap).next '\n', 0, true⟩]) := by
  have hcloses := hS.closesSubstitution_of_closed opensCode_atCode hdepth hsub
  have hgap : blankLength .between 0 false (gap ++ ['\n', '}', '\x60']) =
      .ok ((gap ++ ['\n']).length, true) := by
    have hsettled : IsSettled .between gap ['\n', '}', '\x60'] :=
      isSettled_between (Or.inr (Or.inr rfl))
    obtain ⟨m, hm, hfound⟩ := blankLength_append hblank hsettled
    rw [(hfound.resolve_left (by omega)).2, List.length_append, List.length_singleton]
    rfl
  have hlexeme : lexemeAt S.closesSubstitution S.regexAllowed '}' (['\x60'] ++ []) =
      .ok (.template true false 1) := by
    rw [hcloses]
    rfl
  have hend : (S.takeTemplate (S.position.after (gap ++ ['\n'])) true true false
      ['}', '\x60']).substitutions = [] := by
    show S.substitutions.tail = []
    rw [hS.substitutions, hsub]
    rfl
  have houtside : S.depth - 1 = 0 := by
    rw [hS.depth, hdepth]
    rfl
  have hturn := Scanner.Turn.take (t := ⟨.template, "\x7d\x60", (S.position.after gap).next '\n', 0,
    true⟩) (by simp) hgap hlexeme rfl rfl (by
      rw [← houtside, ← Position.after_nil ((S.position.after gap).next '\n'),
        ← Position.after_cons, ← Position.after_append]
      rfl)
  rw [(Scanner.Finds.turn hturn (.stop rfl rfl hend)).run_eq]

/-- Where as much is closed as is opened, the scanner comes back to its depth. -/
theorem Keeps.foldl_depthPast {d : Nat} {subs : List Nat} {words : List Word}
    (h : Keeps d subs words) : words.foldl depthPast d + closings words = d + openings words := by
  induction h with
  | nil d => rfl
  | @cons d subs w words hopen hinnermost hrest ih =>
    have hstep := depthPast_add hopen
    rw [List.foldl_cons, openings_cons, closings_cons]
    omega

/-- A script that closes as much as it opens ends at the outermost depth. -/
theorem foldl_depthPast_of_run (h : Scanner.initial.run chars = .ok tokens)
    (hclosed : closings (tokens.map Token.word) = openings (tokens.map Token.word)) :
    (tokens.map Token.word).foldl depthPast 0 = 0 := by
  obtain ⟨words, hwords, hreads⟩ := Scanner.reads_of_run h
  obtain rfl : tokens = words := hwords
  have hcount := (keeps_of_reads hreads fun n hn => absurd hn List.not_mem_nil).foldl_depthPast
  rw [hclosed] at hcount
  exact Nat.add_right_cancel hcount

/-- The tokens of a script are found in the substitution of a template, one deeper, between the two
parts of the template. -/
theorem scan_interpolation (h : scan source = .ok tokens)
    (hclosed : closings (tokens.map Token.word) = openings (tokens.map Token.word))
    (hhashbang : ¬ ['#', '!'] <+: source.toList) :
    scan (interpolation source) = .ok (interpolationHead ::
      (tokens.map Token.interpolated ++ [interpolationTail source])) := by
  have hrun : Scanner.initial.run source.toList = .ok tokens := by
    rw [scan, scanChars, hashbangLength_eq_zero hhashbang] at h
    exact h
  obtain ⟨found, hfound, hfinds⟩ := Scanner.finds_of_run hrun
  obtain rfl : tokens = found := hfound
  obtain ⟨s', S', gap, newline, hS', hsub, hdepth', hdone, hblank, hplace, hcode⟩ :=
    hfinds.inCode (Scanner.inCode_initial opensCode_atCode) opensCode_atCode
      (fun n hn => absurd hn List.not_mem_nil) (show ['\n', '}', '\x60'].head? = some '\n' from rfl)
  have htail := hS'.run_interpolationTail
    (hdepth'.trans (foldl_depthPast_of_run hrun hclosed)) hsub hblank
  have hchars : (interpolation source).toList =
      '\x60' :: '$' :: '{' :: (source.toList ++ ['\n', '}', '\x60']) := by
    rw [interpolation, String.toList_append, String.toList_append]
    rfl
  have hstart : (S'.position.after gap).next '\n' =
      Position.first.after ("\x60$\x7b" ++ source ++ "\n").toList := by
    rw [hplace, String.toList_append, String.toList_append, Position.after_append,
      Position.after_append]
    rfl
  have hall : S'.done.reverse = interpolationHead :: tokens.map Token.interpolated := by
    rw [hS'.done, hdone, Scanner.initial, List.append_nil, List.map_reverse, List.reverse_append,
      List.reverse_reverse]
    rfl
  have hzero :
      hashbangLength ('\x60' :: '$' :: '{' :: (source.toList ++ ['\n', '}', '\x60'])) = 0 := rfl
  rw [scan, scanChars, hchars, hzero]
  show Scanner.initial.run ('\x60' :: '$' :: '{' :: _) = _
  rw [run_interpolationHead, hcode, htail, hall, hstart]
  rfl

/-- Templates in a template, regular expressions and braces of all sorts, and a comment that goes on
to the end of the text. -/
def codeSource : String :=
  "f(\x60a$\x7b \x7b b: \x60$\x7bc\x7d\x7d\x60 \x7d.b \x7d\x60,\n " ++
    "/[\x7d\x60]/ /* \x7d */) // \x7d\x60"

theorem scan_interpolation_codeSource : ∃ tokens, scan codeSource = .ok tokens ∧
    tokens.length = 16 ∧
    closings (tokens.map Token.word) = openings (tokens.map Token.word) ∧
    ¬ ['#', '!'] <+: codeSource.toList ∧
    scan (interpolation codeSource) = .ok (interpolationHead ::
      (tokens.map Token.interpolated ++ [interpolationTail codeSource])) := by
  obtain ⟨tokens, htokens, hwords⟩ : ∃ tokens, scan codeSource = .ok tokens ∧
      (tokens.length, closings (tokens.map Token.word) == openings (tokens.map Token.word)) =
        (16, true) := exists_ok_of_map_toOption (by decide +kernel)
  obtain ⟨hlength, hclosed⟩ := Prod.mk.inj hwords
  have hclosed := beq_iff_eq.1 hclosed
  have hhashbang : ¬ ['#', '!'] <+: codeSource.toList := by decide
  exact ⟨tokens, htokens, hlength, hclosed, hhashbang, scan_interpolation htokens hclosed hhashbang⟩

end ModuleBundler.Script
