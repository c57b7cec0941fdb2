import ModuleBundler.Proofs.Gaps
import ModuleBundler.Proofs.ImportGrammar
import ModuleBundler.Proofs.Initialisers
import ModuleBundler.Proofs.Passages
import ModuleBundler.Proofs.Requests

/-
  The attributes of a source. Where a statement has its source behind the word `from`, the attributes
  are read with it, and the statement is taken away up to their closing brace, or the semicolon
  behind it. An import of a source alone does not read them: it ends with the source, and every
  token of the attributes stays (`takesAttributes_iff`). What stays is a statement of its own
  (`left_attributes`).
-/

namespace ModuleBundler.Script

variable {d : Nat} {first t last word specifier : Token}
  {ts script front heading rest back : List Token} {c c' : Cursor} {form : Form} {s : Statement}
  {found : List Statement} {value : String}

/-! ## Attributes -/

/-- The tokens of attributes: a word, and braces around tokens whose brackets nest. -/
structure Attributes where
  word : Token
  opener : Token
  inside : List Token
  closer : Token
  isWord : word.isName "with" = true ∨ word.isName "assert" = true
  isOpener : opener.word = mark "\x7b"
  isBalanced : IsBalanced (inside.map Token.word)
  isCloser : closer.word = mark "\x7d"

/-- The semicolon at the front of tokens, if there is one. -/
def semicolonOf : List Token → List Token
  | [] => []
  | t :: _ => if t.isPunctuator ";" then [t] else []

theorem skipSemicolon_eq (last : Token) (back : List Token) :
    ∃ behind, back = semicolonOf back ++ behind ∧
      Cursor.skipSemicolon ⟨last, back⟩ = ⟨lastOf last back, behind⟩ := by
  cases back with
  | nil => exact ⟨[], rfl, rfl⟩
  | cons t ts =>
    cases hsemicolon : t.isPunctuator ";" with
    | true =>
      refine ⟨ts, by simp [semicolonOf, hsemicolon], ?_⟩
      simp [Cursor.skipSemicolon, Cursor.atPunctuator, Cursor.next, lastOf, hsemicolon]
    | false =>
      refine ⟨t :: ts, by simp [semicolonOf, hsemicolon], ?_⟩
      simp [Cursor.skipSemicolon, Cursor.atPunctuator, lastOf, hsemicolon]

/-- A token and the semicolon behind it end with the last token of a statement. -/
theorem lastOf_of_semicolon (last : Token) (back : List Token) :
    ∃ ts, last :: semicolonOf back = ts ++ [lastOf last back] := by
  cases back with
  | nil => exact ⟨[], rfl⟩
  | cons t ts =>
    cases hsemicolon : t.isPunctuator ";" with
    | true => exact ⟨[last], by simp [semicolonOf, lastOf, hsemicolon]⟩
    | false => exact ⟨[], by simp [semicolonOf, lastOf, hsemicolon]⟩

namespace Attributes

def tokens (a : Attributes) : List Token := a.word :: a.opener :: (a.inside ++ [a.closer])

theorem isPair (a : Attributes) : IsPair a.opener.word a.closer.word .brace :=
  a.isOpener ▸ a.isCloser ▸ isPair_brace

theorem isName_word (a : Attributes) : a.word.kind = .name := by
  rcases a.isWord with h | h
  · exact Token.kind_of_isName h
  · exact Token.kind_of_isName h

theorem isOpener_punctuator (a : Attributes) : a.opener.isPunctuator "\x7b" = true :=
  isPunctuator_of_word a.isOpener _

/-- Attributes and the semicolon behind end with the last token of a statement. -/
theorem exists_lastOf (a : Attributes) (back : List Token) :
    ∃ ts, a.tokens ++ semicolonOf back = ts ++ [lastOf a.closer back] := by
  obtain ⟨ts, hts⟩ := lastOf_of_semicolon a.closer back
  exact ⟨a.word :: a.opener :: (a.inside ++ ts), by simp [tokens, hts]⟩

/-- Where attributes stand, their braces are partners. -/
theorem matchingClose_eq (a : Attributes) (h : Placed d (a.tokens ++ back)) :
    matchingClose a.opener (a.inside ++ a.closer :: back) = .ok (a.inside, ⟨a.closer, back⟩) := by
  have hplaced : Placed d (a.word :: a.opener :: (a.inside ++ a.closer :: back)) := by
    simpa [tokens] using h
  exact (placed_cons.1 hplaced).2.matchingClose_eq a.isPair a.isBalanced

/-- A source is read up to the end of its attributes. -/
theorem fromSource_eq (a : Attributes) (h : Placed d (a.tokens ++ back))
    (hword : word.isName "from" = true) (hspecifier : specifier.kind = .string) :
    fromSource ⟨last, word :: specifier :: (a.tokens ++ back)⟩ =
      .ok (stringValue specifier.text, ⟨a.closer, back⟩) := by
  have hfrom : Cursor.atName ⟨last, word :: specifier :: (a.tokens ++ back)⟩ "from" = true := hword
  have hkind : Cursor.atKind ⟨word, specifier :: (a.tokens ++ back)⟩ .string = true :=
    beq_iff_eq.2 hspecifier
  have htokens : a.tokens ++ back = a.word :: a.opener :: (a.inside ++ a.closer :: back) := by
    simp [tokens]
  have hattributes :
      ((Cursor.atName ⟨specifier, a.word :: a.opener :: (a.inside ++ a.closer :: back)⟩ "with" ||
        Cursor.atName ⟨specifier, a.word :: a.opener :: (a.inside ++ a.closer :: back)⟩ "assert") &&
      Cursor.atPunctuator ⟨a.word, a.opener :: (a.inside ++ a.closer :: back)⟩ "\x7b") = true :=
    Bool.and_eq_true_iff.2 ⟨Bool.or_eq_true_iff.2 a.isWord, a.isOpener_punctuator⟩
  have hno : ¬ (!true) = true := by decide
  unfold fromSource
  rw [hfrom, Cursor.next_of_cons rfl, hkind, if_neg hno, if_neg hno, htokens]
  dsimp only
  rw [Cursor.text_of_cons rfl, Cursor.next_of_cons rfl, Cursor.next_of_cons rfl, if_pos hattributes,
    Cursor.next_of_cons rfl, a.matchingClose_eq h]

/-- No statement begins among attributes and the semicolon behind. -/
theorem isPlain (a : Attributes) {previous? : Option Token} {behind : List Token}
    (h : Placed d (a.tokens ++ back)) :
    IsPlain previous? (a.tokens ++ semicolonOf back) behind := by
  have hbraces : Placed (depthPast d a.word.word) (a.opener :: (a.inside ++ a.closer :: back)) := by
    simpa [tokens] using (placed_cons.1 h).2
  have hword : a.word.word ∉ [(.name, "import"), (.name, "export")] := by
    rcases a.isWord with hname | hname <;> rw [Token.word_of_isName hname] <;> decide
  refine IsPlain.append ?_ ?_
  · refine isPlain_cons.2 ⟨fun hstarts => ?_, isPlain_of_enclosed a.isPair hbraces a.isBalanced⟩
    rcases hstarts with hstarts | hstarts
    · exact hword (by simp [Token.word_of_isName (isName_of_startsImport hstarts)])
    · exact hword (by simp [Token.word_of_isName (isName_of_startsExport hstarts)])
  · refine isPlain_of_words fun t ht _ => ?_
    cases back with
    | nil => cases ht
    | cons u back =>
      rw [semicolonOf] at ht
      split at ht
      · next hsemicolon =>
        obtain rfl := List.mem_singleton.1 ht
        have hkind := Token.kind_of_isPunctuator hsemicolon
        simp [Token.word, hkind]
      · cases ht

end Attributes

/-! ## Statements with a source -/

/-- Whether a source is read behind a word `from` and some tokens before it, up to a place behind its
attributes and a semicolon. -/
def ReadsSource (c : Cursor) (value : String) (c' : Cursor) : Prop :=
  ∃ front d e, c.rest = front ++ d.rest ∧ fromSource d = .ok (value, e) ∧ c' = e.skipSemicolon

theorem readsSource_of_importForm (h : importForm c = .ok (form, c'))
    (hvalue : form.source? = some value) :
    (form = .bareImport value ∧ ∃ specifier rest, c.rest = specifier :: rest ∧
      specifier.kind = .string ∧ stringValue specifier.text = value ∧
        c' = Cursor.skipSemicolon ⟨specifier, rest⟩) ∨
      form ≠ .bareImport value ∧ ReadsSource c value c' := by
  unfold importForm at h
  split at h
  · next hkind =>
    obtain ⟨specifier, rest, hrest, hspecifier⟩ := exists_cons_of_any hkind
    cases h
    cases hvalue
    rw [Cursor.next_of_cons hrest, Cursor.text_of_cons hrest]
    exact Or.inl ⟨rfl, specifier, rest, hrest, beq_iff_eq.1 hspecifier, rfl, rfl⟩
  · obtain ⟨⟨clause, d⟩, hclause, h⟩ := bind_eq_ok.1 h
    obtain ⟨⟨source, e⟩, hsource, h⟩ := bind_eq_ok.1 h
    cases h
    cases hvalue
    obtain ⟨front, hfront, -⟩ := isClause_of_importClause hclause
    exact Or.inr ⟨by simp, front, d, e, hfront, hsource, rfl⟩

theorem readsSource_of_exportListForm (h : exportListForm c = .ok (form, c'))
    (hvalue : form.source? = some value) : form ≠ .bareImport value ∧ ReadsSource c value c' := by
  unfold exportListForm at h
  obtain ⟨⟨items, d⟩, hitems, h⟩ := bind_eq_ok.1 h
  obtain ⟨front, hfront⟩ := (c.reaches_next.trans (reaches_bracedList hitems)).rest
  dsimp only at h
  split at h
  · obtain ⟨⟨source, e⟩, hsource, h⟩ := bind_eq_ok.1 h
    cases h
    cases hvalue
    exact ⟨by simp, front, d, e, hfront.symm, hsource, rfl⟩
  · split at h
    · cases h
    · cases h
      cases hvalue

theorem readsSource_of_exportStarForm (h : exportStarForm c = .ok (form, c'))
    (hvalue : form.source? = some value) : form ≠ .bareImport value ∧ ReadsSource c value c' := by
  unfold exportStarForm at h
  split at h
  · obtain ⟨name, -, h⟩ := bind_eq_ok.1 h
    obtain ⟨⟨source, e⟩, hsource, h⟩ := bind_eq_ok.1 h
    cases h
    cases hvalue
    obtain ⟨front, hfront⟩ :=
      (c.reaches_next.trans (c.next.reaches_next.trans c.next.next.reaches_next)).rest
    exact ⟨by simp, front, _, e, hfront.symm, hsource, rfl⟩
  · obtain ⟨⟨source, e⟩, hsource, h⟩ := bind_eq_ok.1 h
    cases h
    cases hvalue
    obtain ⟨front, hfront⟩ := c.reaches_next.rest
    exact ⟨by simp, front, _, e, hfront.symm, hsource, rfl⟩

theorem stop_of_whole {read : Except SyntaxError (Form × Cursor)}
    (h : whole first read = .ok (s, c')) : s.stop = c'.last.stop := by
  obtain ⟨⟨form, d⟩, -, h⟩ := bind_eq_ok.1 h
  cases h
  rfl

theorem readsSource_of_exportStatement (h : exportStatement first c = .ok (s, c'))
    (hvalue : s.form.source? = some value) :
    s.stop = c'.last.stop ∧ s.form ≠ .bareImport value ∧ ReadsSource c value c' := by
  have hnone (hrequest : s.form.request? = none) : False := by
    rw [Form.request?, Option.map_eq_none_iff, hvalue] at hrequest
    cases hrequest
  cases readsExport_of_exportStatement h with
  | defaultFunction hname hs hend | defaultExpression hs hend =>
    subst hs
    exact (hnone rfl).elim
  | defaultClass hword h | namedClass hword h =>
    exact (hnone (declares_exportClass hword h).request?_eq).elim
  | declarators hword h => exact (hnone (declares_exportVariables hword h).request?_eq).elim
  | function h => exact (hnone (request?_of_exportFunction h).1).elim
  | list h => exact ⟨stop_of_whole h, readsSource_of_exportListForm (eq_of_whole h) hvalue⟩
  | star h => exact ⟨stop_of_whole h, readsSource_of_exportStarForm (eq_of_whole h) hvalue⟩

theorem Form.isWhole_of_source (h : form.source? = some value) : form.IsWhole := by
  cases form <;> first | exact fun _ _ => rfl | cases h

/-- How a statement with a source is read: the source stands alone, or behind a word `from`. -/
theorem Statement.ReadAt.source (h : s.ReadAt first ts c') (hvalue : s.form.source? = some value) :
    s.edits = [⟨first.start.offset, c'.last.stop, ""⟩] ∧
      ((s.form = .bareImport value ∧ ∃ specifier rest, ts = specifier :: rest ∧
        specifier.kind = .string ∧ stringValue specifier.text = value ∧
          c' = Cursor.skipSemicolon ⟨specifier, rest⟩) ∨
        s.form ≠ .bareImport value ∧ ReadsSource ⟨first, ts⟩ value c') := by
  have hedits (hstop : s.stop = c'.last.stop) :
      s.edits = [⟨first.start.offset, c'.last.stop, ""⟩] := by
    rw [← h.spans.start_eq, ← hstop]
    exact Form.isWhole_of_source hvalue s.start s.stop
  rcases h with ⟨-, h⟩ | ⟨-, h⟩
  · exact ⟨hedits (stop_of_whole h), readsSource_of_importForm (eq_of_whole h) hvalue⟩
  · obtain ⟨hstop, hreads⟩ := readsSource_of_exportStatement h hvalue
    exact ⟨hedits hstop, Or.inr hreads⟩

/-! ## What is taken away -/

/-- Every token of a range in which a statement is taken away is edited. -/
theorem isEdited_of_range (hordered : (first :: (ts ++ [last])).Pairwise
      fun t u => t.stop ≤ u.start.offset)
    (hs : s ∈ found) (hedits : s.edits = [⟨first.start.offset, last.stop, ""⟩]) :
    ∀ t ∈ first :: (ts ++ [last]), IsEdited (found.flatMap Statement.edits) t := by
  intro t ht
  have hlast : t.stop ≤ last.stop := by
    rw [← List.cons_append] at ht hordered
    exact stop_le_last ht hordered
  refine ⟨⟨first.start.offset, last.stop, ""⟩, List.mem_flatMap.2 ⟨s, hs, ?_⟩,
    start_le_start hordered ht, hlast⟩
  rw [hedits]
  exact List.mem_singleton_self _

namespace Attributes

/-- Behind a source that stands alone, attributes and the semicolon behind them stay. -/
theorem stays_of_bare (a : Attributes) {source : String} (hscan : scan source = .ok script)
    (h : s.StandsAt script found front first (specifier :: (a.tokens ++ back))
      ⟨specifier, a.tokens ++ back⟩) :
    ∀ t ∈ a.tokens ++ semicolonOf back,
      specifier.stop < t.stop ∧ ¬ IsEdited (found.flatMap Statement.edits) t := by
  obtain ⟨chars, tail, -, hspelled⟩ := spelled_of_scan hscan
  obtain ⟨behind, hbehind, -⟩ := skipSemicolon_eq a.closer back
  have hback : a.tokens ++ back = (a.tokens ++ semicolonOf back) ++ behind := by
    rw [List.append_assoc, ← hbehind]
  have hsuffix : a.tokens ++ back <:+ script :=
    ⟨front ++ [first, specifier], by rw [h.split]; simp⟩
  obtain ⟨depth, hplaced⟩ := (placed_of_scan hscan).exists_of_suffix hsuffix
  intro t ht
  have hrest : t ∈ a.tokens ++ back := hback ▸ List.mem_append_left _ ht
  have hwidth := (hspelled.bounds t (hsuffix.mem hrest)).2.1
  have hle := stop_le_start (List.pairwise_cons.1 h.own_ordered).2 hrest
  exact ⟨by omega, h.not_isEdited hback (a.isPlain hplaced) ht hwidth⟩

/-- An import of a source alone is taken away up to its source. -/
theorem takesAttributes_of_bare (a : Attributes) {source : String}
    (hscan : scan source = .ok script) (hs : s ∈ found) (hbare : s.form = .bareImport value)
    (h : s.StandsAt script found front first (specifier :: (a.tokens ++ back))
      (Cursor.skipSemicolon ⟨specifier, a.tokens ++ back⟩))
    (hedits : s.edits = [⟨first.start.offset,
      (Cursor.skipSemicolon ⟨specifier, a.tokens ++ back⟩).last.stop, ""⟩]) :
    (s.edits = [⟨first.start.offset, (lastOf a.closer back).stop, ""⟩] ↔
        s.form ≠ .bareImport value) ∧
      (∀ t ∈ [first, specifier], IsEdited (found.flatMap Statement.edits) t) ∧
      ∀ t ∈ a.tokens ++ semicolonOf back,
        IsEdited (found.flatMap Statement.edits) t ↔ s.form ≠ .bareImport value := by
  have hends : Cursor.skipSemicolon ⟨specifier, a.tokens ++ back⟩ =
      ⟨specifier, a.tokens ++ back⟩ :=
    if_neg (Bool.eq_false_iff.1 (Token.isPunctuator_of_kind (by simp [a.isName_word]) ";"))
  rw [hends] at h hedits
  have hstays := a.stays_of_bare hscan h
  obtain ⟨clause, hclause⟩ := a.exists_lastOf back
  have hlast := (hstays (lastOf a.closer back) (by simp [hclause])).1
  have hown : ([first] ++ [specifier]).Pairwise fun t u => t.stop ≤ u.start.offset :=
    h.own_ordered.sublist (by simp)
  refine ⟨iff_of_false (fun heq => ?_) (not_not_intro hbare), isEdited_of_range hown hs hedits,
    fun t ht => iff_of_false (hstays t ht).2 (not_not_intro hbare)⟩
  rw [hedits, List.singleton_inj, Edit.mk.injEq] at heq
  exact absurd heq.2.1 (Nat.ne_of_lt hlast)

/-- Any other statement is taken away up to the end of the attributes. -/
theorem takesAttributes_of_from (a : Attributes) (hs : s ∈ found)
    (hnot : s.form ≠ .bareImport value)
    (h : s.StandsAt script found front first (heading ++ specifier :: (a.tokens ++ back)) c')
    (hedits : s.edits = [⟨first.start.offset, (lastOf a.closer back).stop, ""⟩]) :
    (s.edits = [⟨first.start.offset, (lastOf a.closer back).stop, ""⟩] ↔
        s.form ≠ .bareImport value) ∧
      (∀ t ∈ first :: (heading ++ [specifier]), IsEdited (found.flatMap Statement.edits) t) ∧
      ∀ t ∈ a.tokens ++ semicolonOf back,
        IsEdited (found.flatMap Statement.edits) t ↔ s.form ≠ .bareImport value := by
  obtain ⟨behind, hbehind, -⟩ := skipSemicolon_eq a.closer back
  obtain ⟨clause, hclause⟩ := a.exists_lastOf back
  have hback : a.tokens ++ back = clause ++ lastOf a.closer back :: behind := by
    rw [List.append_cons, ← hclause, List.append_assoc, ← hbehind]
  have hown : (first :: ((heading ++ specifier :: clause) ++ [lastOf a.closer back])).Pairwise
      fun t u => t.stop ≤ u.start.offset := by
    have hordered := h.own_ordered
    rw [hback] at hordered
    exact hordered.sublist (by simp)
  have hall := isEdited_of_range hown hs hedits
  refine ⟨iff_of_true hedits hnot, fun t ht => hall t ?_, fun t ht => iff_of_true (hall t ?_) hnot⟩
  · simp only [List.mem_cons, List.mem_append, List.not_mem_nil, or_false] at ht ⊢
    tauto
  · rw [hclause] at ht
    simp only [List.mem_cons, List.mem_append, List.not_mem_nil, or_false] at ht ⊢
    tauto

end Attributes

/-- In every script, a statement with a source begins with its first token, and the source stands
behind it, alone or behind a word `from`. Where attributes follow, the statement is taken away up to
their end and the semicolon behind, and so is each of their tokens, exactly if it is not an import of
the source alone. -/
theorem takesAttributes_iff {source : String} (hscan : scan source = .ok script)
    (hfound : statements script = .ok found) (hs : s ∈ found)
    (hvalue : s.form.source? = some value) :
    ∃ front first heading specifier rest, script = front ++ first :: (heading ++ specifier :: rest) ∧
      s.start = first.start.offset ∧ specifier.kind = .string ∧
      stringValue specifier.text = value ∧
      (s.form = .bareImport value ∧ heading = [] ∨
        s.form ≠ .bareImport value ∧ heading.getLast?.any (·.isName "from") = true) ∧
      ∀ (a : Attributes) (back : List Token), rest = a.tokens ++ back →
        (s.edits = [⟨first.start.offset, (lastOf a.closer back).stop, ""⟩] ↔
          s.form ≠ .bareImport value) ∧
        (∀ t ∈ first :: (heading ++ [specifier]), IsEdited (found.flatMap Statement.edits) t) ∧
        ∀ t ∈ a.tokens ++ semicolonOf back,
          IsEdited (found.flatMap Statement.edits) t ↔ s.form ≠ .bareImport value := by
  obtain ⟨front, first, ts, c', hstands⟩ := exists_standsAt hscan hfound hs
  have hstart := hstands.read.spans.start_eq
  obtain ⟨hedits, ⟨hbare, specifier, rest, rfl, hspecifier, htext, rfl⟩ |
    ⟨hnot, heading, c, e, hts, hfrom, rfl⟩⟩ := hstands.read.source hvalue
  · refine ⟨front, first, [], specifier, rest, hstands.split, hstart, hspecifier, htext,
      Or.inl ⟨hbare, rfl⟩, ?_⟩
    rintro a back rfl
    exact a.takesAttributes_of_bare hscan hs hbare hstands hedits
  · obtain ⟨word, specifier, rest, hrest, hword, hspecifier, -, rfl⟩ :=
      fromSource_isOk_iff.1 ⟨e, hfrom⟩
    obtain rfl : ts = (heading ++ [word]) ++ specifier :: rest := by
      rw [← List.append_cons, ← hrest]
      exact hts
    refine ⟨front, first, heading ++ [word], specifier, rest, hstands.split, hstart, hspecifier,
      rfl, Or.inr ⟨hnot, by simpa using hword⟩, ?_⟩
    rintro a back rfl
    have hsuffix : a.tokens ++ back <:+ script :=
      ⟨front ++ first :: (heading ++ [word, specifier]), by rw [hstands.split]; simp⟩
    obtain ⟨depth, hplaced⟩ := (placed_of_scan hscan).exists_of_suffix hsuffix
    have hread : fromSource c = .ok (stringValue specifier.text, ⟨a.closer, back⟩) := by
      have hc : c = ⟨c.last, word :: specifier :: (a.tokens ++ back)⟩ := by rw [← hrest]
      rw [hc]
      exact a.fromSource_eq hplaced hword hspecifier
    obtain ⟨-, rfl⟩ := Prod.mk.inj (Except.ok.inj (hfrom.symm.trans hread))
    obtain ⟨behind, -, hends⟩ := skipSemicolon_eq a.closer back
    rw [hends] at hedits
    exact a.takesAttributes_of_from hs hnot hstands hedits

/-- A script with an import of a name, and attributes behind its source. -/
def attributesSource : String := "import a from './a.json' with \x7b type: 'json' \x7d;\nrun(a);\n"

/-- The attributes of `attributesSource`. -/
def attributesOfSource : Attributes where
  word := ⟨.name, "with", ⟨25, 1, 26⟩, 0, false⟩
  opener := ⟨.punctuator, "\x7b", ⟨30, 1, 31⟩, 0, false⟩
  inside := [⟨.name, "type", ⟨32, 1, 33⟩, 1, false⟩, ⟨.punctuator, ":", ⟨36, 1, 37⟩, 1, false⟩,
    ⟨.string, "'json'", ⟨38, 1, 39⟩, 1, false⟩]
  closer := ⟨.punctuator, "\x7d", ⟨45, 1, 46⟩, 0, false⟩
  isWord := Or.inl (by decide)
  isOpener := rfl
  isBalanced := by decide
  isCloser := rfl

theorem takesAttributes_attributesSource : ∃ s, statements (tokensOf attributesSource) = .ok [s] ∧
    ∃ heading specifier back, tokensOf attributesSource =
        heading ++ specifier :: (attributesOfSource.tokens ++ back) ∧
      s.edits = [⟨0, 47, ""⟩] ∧
      ∀ t ∈ attributesOfSource.tokens ++ semicolonOf back, IsEdited s.edits t := by
  let s := (statementsOf attributesSource)[0]?.getD default
  let back := (tokensOf attributesSource).drop 10
  obtain ⟨hscan, hfound, hvalue, hnot, hzero, htail, hend, hlength, honly⟩ :
      scan attributesSource = .ok (tokensOf attributesSource) ∧
        statements (tokensOf attributesSource) = .ok [s] ∧ s.form.source? = some "./a.json" ∧
        s.form ≠ .bareImport "./a.json" ∧ s.start = 0 ∧
        (tokensOf attributesSource).drop 4 = attributesOfSource.tokens ++ back ∧
        (lastOf attributesOfSource.closer back).stop = 47 ∧
        (tokensOf attributesSource).length = 16 ∧
        ∀ k < 16, ∀ t ∈ (tokensOf attributesSource)[k]?,
          stringValue t.text = "./a.json" → k = 3 := by
    decide +kernel
  obtain ⟨front, first, heading, specifier, rest, hplace, hstart, -, htext, -, htakes⟩ :=
    takesAttributes_iff hscan hfound (List.mem_singleton_self s) hvalue
  -- No other token has the value of the source.
  have hplace : tokensOf attributesSource = (front ++ first :: heading) ++ specifier :: rest := by
    simpa using hplace
  have hcount : (front ++ first :: heading).length = 3 := by
    refine honly _ ?_ specifier ?_ htext
    · rw [← hlength, hplace]
      simp
    · rw [hplace]
      simp
  have hrest : rest = attributesOfSource.tokens ++ back := by
    rw [← htail, hplace, List.append_cons, List.drop_left' (by rw [List.length_append, hcount]; rfl)]
  obtain ⟨hedits, -, hall⟩ := htakes attributesOfSource back hrest
  rw [← hstart, hzero, hend] at hedits
  refine ⟨s, hfound, front ++ first :: heading, specifier, back, hrest ▸ hplace, hedits.2 hnot,
    fun t ht => ?_⟩
  have hedited := (hall t ht).2 hnot
  rwa [List.flatMap_singleton] at hedited

/-- A script with an import of a source alone, and attributes behind it. -/
def bareAttributesSource : String := "import './a.json' with \x7b type: 'json' \x7d;\nrun();\n"

/-- The attributes are not read, and stay behind the line that asks for the module. -/
theorem left_attributes : ∃ first specifier back s, ∃ a : Attributes,
    scan bareAttributesSource = .ok (first :: specifier :: (a.tokens ++ back)) ∧
      statements (first :: specifier :: (a.tokens ++ back)) = .ok [s] ∧
      s.form = .bareImport "./a.json" ∧ s.edits = [⟨0, 17, ""⟩] ∧
      (∀ t ∈ a.tokens ++ semicolonOf back, ¬ IsEdited s.edits t) ∧
      ModuleBody.ofSource bareAttributesSource = .ok
        { code := "require(\"./a.json\");\n with \x7b type: 'json' \x7d;\nrun();\n"
          specifiers := ["./a.json"] } := by
  let tokens := tokensOf bareAttributesSource
  let t (n : Nat) := tokens[n]?.getD default
  let a : Attributes :=
    { word := t 2
      opener := t 3
      inside := [t 4, t 5, t 6]
      closer := t 7
      isWord := Or.inl (by decide +kernel)
      isOpener := by decide +kernel
      isBalanced := by decide +kernel
      isCloser := by decide +kernel }
  refine ⟨t 0, t 1, tokens.drop 8, (statementsOf bareAttributesSource)[0]?.getD default, a, ?_⟩
  decide +kernel

end ModuleBundler.Script
