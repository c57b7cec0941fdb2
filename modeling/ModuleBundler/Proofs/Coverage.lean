import ModuleBundler.Proofs.Edits

/-
  What becomes of the words `import` and `export`. Every token that begins a statement is taken away
  by an edit, unless a declaration that is exported before it is read over it
  (`covered_of_ofSource`). Where brackets nest, this happens in front of the body of a class, and in
  a declaration of variables on the line of the token before or after a token that asks for more.
  The sign of `a++` counts as such a token, so a line end after it does not keep the next import
  from being swallowed (`swallowed_import`).
-/

namespace ModuleBundler.Script

variable {first t : Token} {ts tokens front before after more : List Token} {c' : Cursor}
  {statement : Statement} {found : List Statement} {previous? : Option Token} {nested : Prop}

/-! ## Tokens in the ranges of statements -/

/-- Whether a token lies in the range of an edit. -/
def IsEdited (edits : List Edit) (t : Token) : Prop :=
  ∃ e ∈ edits, e.start ≤ t.start.offset ∧ t.stop ≤ e.stop

instance (edits : List Edit) (t : Token) : Decidable (IsEdited edits t) :=
  inferInstanceAs (Decidable (∃ e ∈ edits, e.start ≤ t.start.offset ∧ t.stop ≤ e.stop))

/-- Whether a statement leaves a declaration in place that is read over a token: it begins with the
token `first`, and the tokens `passed` come between. If brackets nest, there is a reason. -/
structure Statement.Swallows (nested : Prop) (s : Statement) (first : Token) (passed : List Token)
    (t : Token) : Prop where
  begins : first.start.offset = s.stop
  ends : ∃ declarationEnd, s.form.declarationEnd? = some declarationEnd ∧ t.stop ≤ declarationEnd
  reason : nested → s.form.ReadsOver passed t

/-- Whether one of the statements found swallows a token that has these tokens before it. -/
def IsSwallowed (nested : Prop) (found : List Statement) (before : List Token) (t : Token) : Prop :=
  ∃ s ∈ found, ∃ front first passed, before = front ++ first :: passed ∧
    s.Swallows nested first passed t

theorem IsEdited.mono {edits edits' : List Edit} (h : IsEdited edits t) (hsub : edits ⊆ edits') :
    IsEdited edits' t := by
  obtain ⟨e, he, hrange⟩ := h
  exact ⟨e, hsub he, hrange⟩

theorem IsSwallowed.mono {found' : List Statement} (h : IsSwallowed nested found before t)
    (hsub : found ⊆ found') (front : List Token) :
    IsSwallowed nested found' (front ++ before) t := by
  obtain ⟨s, hs, head, first, passed, rfl, hswallows⟩ := h
  exact ⟨s, hsub hs, front ++ head, first, passed, (List.append_assoc _ _ _).symm, hswallows⟩

/-- What begins a statement is a word of the outermost depth, and neither begins nor carries on a
declaration. -/
theorem StartsStatement.isWord (h : StartsStatement previous? t after) :
    t.kind = .name ∧ t.depth = 0 ∧ t.text ∉ declarationWords ∧ carriesOn t = false := by
  have hword : t.kind = .name ∧ t.depth = 0 ∧ (t.text = "import" ∨ t.text = "export") := by
    rcases h with h | h
    · simp only [startsImport, Token.isName, Bool.and_eq_true, beq_iff_eq] at h
      exact ⟨h.1.1.1.1, h.1.1.2, Or.inl h.1.1.1.2⟩
    · simp only [startsExport, Token.isName, Bool.and_eq_true, beq_iff_eq] at h
      exact ⟨h.1.1.1, h.1.2, Or.inr h.1.1.2⟩
  obtain ⟨hkind, hdepth, htext⟩ := hword
  refine ⟨hkind, hdepth, ?_⟩
  rw [carriesOn, hkind]
  rcases htext with htext | htext <;> rw [htext] <;> decide

/-- Tokens in order end before the last of them does. -/
theorem stop_le_last {last : Token} (hin : t ∈ front ++ [last])
    (hordered : (front ++ [last]).Pairwise fun t u => t.stop ≤ u.start.offset) :
    t.stop ≤ last.stop := by
  rcases List.mem_append.1 hin with hin | hin
  · have hle := (List.pairwise_append.1 hordered).2.2 t hin last (List.mem_singleton_self _)
    exact Nat.le_trans hle last.start_le_stop
  · exact Nat.le_of_eq (congrArg Token.stop (List.mem_singleton.1 hin))

/-- A declaration that is read to its end swallows the statements that begin among its tokens. -/
theorem swallows_of_passesOver {form : Form} {u : Token} {us : List Token} (start : Nat)
    (hword : u.text ∈ declarationWords) (hpasses : form.PassesOver us c')
    (hend : form.declarationEnd? = some c'.last.stop) (hnests : nested → Nests us)
    (hus : u :: us = before ++ t :: after) (hread : c'.rest <:+ after)
    (hlast : t.stop ≤ c'.last.stop) (hstarts : StartsStatement previous? t more) :
    IsSwallowed nested [⟨form, start, u.start.offset⟩] before t := by
  obtain ⟨hkind, hdepth, hnot, hcarries⟩ := hstarts.isWord
  cases before with
  | nil => exact absurd hword ((List.cons_eq_cons.1 hus).1 ▸ hnot)
  | cons v passed =>
    obtain ⟨rfl, hrest⟩ := List.cons_eq_cons.1 hus
    refine ⟨_, List.mem_singleton_self _, [], u, passed, rfl, rfl, ⟨_, hend, hlast⟩, ?_⟩
    exact fun hnested => hpasses (hnests hnested) passed t _ hrest hread hkind hdepth hcarries

/-- The tokens of a statement, up to the place where reading goes on. -/
theorem Statement.Spans.covers (h : statement.Spans first ⟨first, ts⟩ c')
    (hordered : (first :: ts).Pairwise fun t u => t.stop ≤ u.start.offset)
    (hnests : nested → Nests (first :: ts))
    (hsplit : first :: ts = (front ++ [c'.last]) ++ c'.rest)
    (hmore : front ++ [c'.last] = before ++ t :: more)
    (hstarts : StartsStatement previous? t after) :
    IsEdited statement.edits t ∨ IsSwallowed nested [statement] before t := by
  have htokens : first :: ts = before ++ t :: (more ++ c'.rest) := by
    rw [hsplit, hmore, List.append_assoc, List.cons_append]
  have hin : t ∈ front ++ [c'.last] := by
    rw [hmore]
    exact List.mem_append_right _ List.mem_cons_self
  have hmem : t ∈ first :: ts := by
    rw [hsplit]
    exact List.mem_append_left _ hin
  have hstart := start_le_start hordered hmem
  obtain ⟨hfront, -, hafter⟩ := List.pairwise_append.1 (hsplit ▸ hordered)
  have hlast : t.stop ≤ c'.last.stop := stop_le_last hin hfront
  cases h with
  | whole hedits =>
    rw [hedits]
    exact Or.inl ⟨_, List.mem_singleton_self _, hstart, hlast⟩
  | @front form u us text hrest hedits =>
    have hstop := hafter t hin u (by rw [hrest]; exact List.mem_cons_self)
    rw [hedits]
    exact Or.inl ⟨_, List.mem_singleton_self _, hstart, hstop⟩
  | @declaration form u us text hbegin hback hword hpasses hend hedits =>
    obtain ⟨head, hhead⟩ := List.IsSuffix.trans hbegin (List.suffix_cons first ts)
    rcases front_or_back (htokens.symm.trans hhead.symm) with ⟨rest, rfl⟩ | ⟨rest, rfl, hrest⟩
    · rw [← hhead] at hordered
      have hstop := (List.pairwise_append.1 hordered).2.2 t
        (List.mem_append_right _ List.mem_cons_self) u List.mem_cons_self
      rw [hedits]
      exact Or.inl ⟨_, List.mem_cons_self, hstart, hstop⟩
    · have hsuffix : us <:+ first :: ts := (List.suffix_cons u us).trans ⟨head, hhead⟩
      have hswallowed := swallows_of_passesOver first.start.offset hword hpasses hend
        (fun hnested => (hnests hnested).of_suffix hsuffix) hrest (List.suffix_append _ _) hlast
        hstarts
      exact Or.inr (hswallowed.mono (List.Subset.refl _) head)

/-! ## All statements of a script -/

theorem getLast?_concat_append (front before : List Token) (t : Token) :
    (front ++ [t] ++ before).getLast?.or previous? = before.getLast?.or (some t) := by
  rw [List.getLast?_append, List.getLast?_concat]
  cases before.getLast? <;> rfl

/-- One statement, and those found after it. -/
theorem covered_cons {others : List Statement} (h : statement.Spans first ⟨first, ts⟩ c')
    (hc : Cursor.Reaches ⟨first, ts⟩ c')
    (hordered : (first :: ts).Pairwise fun t u => t.stop ≤ u.start.offset)
    (hnests : nested → Nests (first :: ts)) (htokens : first :: ts = before ++ t :: after)
    (hstarts : StartsStatement (before.getLast?.or previous?) t after)
    (hothers : ∀ before', c'.rest = before' ++ t :: after →
      StartsStatement (before'.getLast?.or (some c'.last)) t after →
      IsEdited (others.flatMap Statement.edits) t ∨ IsSwallowed nested others before' t) :
    IsEdited ((statement :: others).flatMap Statement.edits) t ∨
      IsSwallowed nested (statement :: others) before t := by
  obtain ⟨front, hfront⟩ := hc
  have hsplit : first :: ts = (front ++ [c'.last]) ++ c'.rest := by
    rw [List.append_assoc, List.singleton_append]
    exact hfront.symm
  rw [List.flatMap_cons]
  rcases front_or_back (htokens.symm.trans hsplit) with ⟨more, hmore⟩ | ⟨before', rfl, hrest⟩
  · refine (h.covers hordered hnests hsplit hmore hstarts).imp ?_ ?_
    · exact fun hedited => hedited.mono (List.subset_append_left _ _)
    · exact fun hswallowed => hswallowed.mono (by simp) []
  · rw [getLast?_concat_append] at hstarts
    refine (hothers before' hrest hstarts).imp ?_ ?_
    · exact fun hedited => hedited.mono (List.subset_append_right _ _)
    · exact fun hswallowed => hswallowed.mono (List.subset_cons_self _ _) _

theorem covered_of_statementsAfter
    (hordered : tokens.Pairwise fun t u => t.stop ≤ u.start.offset)
    (hnests : nested → Nests tokens) (h : statementsAfter previous? tokens = .ok found)
    (htokens : tokens = before ++ t :: after)
    (hstarts : StartsStatement (before.getLast?.or previous?) t after) :
    IsEdited (found.flatMap Statement.edits) t ∨ IsSwallowed nested found before t := by
  fun_induction statementsAfter previous? tokens generalizing found before with
  | case1 => simp at htokens
  | case2 => cases h
  | case3 previous? first ts himport statement c hwhole ih =>
    obtain ⟨others, hothers, h⟩ := bind_eq_ok.1 h
    cases h
    have hreaches := reaches_whole (fun _ _ => reaches_importForm) hwhole
    have hspans : statement.Spans first ⟨first, ts⟩ c :=
      spans_whole (fun _ _ => isWhole_importForm) hwhole
    have hsuffix := hreaches.rest.trans (List.suffix_cons first ts)
    exact covered_cons hspans hreaches hordered hnests htokens hstarts
      fun before' => ih (hordered.sublist hsuffix.sublist)
        (fun hnested => (hnests hnested).of_suffix hsuffix) hothers
  | case4 => cases h
  | case5 previous? first ts himport hexport statement c hstatement ih =>
    obtain ⟨others, hothers, h⟩ := bind_eq_ok.1 h
    cases h
    have hreaches := reaches_exportStatement hstatement
    have hsuffix := hreaches.rest.trans (List.suffix_cons first ts)
    exact covered_cons (spans_exportStatement hstatement) hreaches hordered hnests htokens hstarts
      fun before' => ih (hordered.sublist hsuffix.sublist)
        (fun hnested => (hnests hnested).of_suffix hsuffix) hothers
  | case6 previous? first ts himport hexport ih =>
    cases before with
    | nil =>
      obtain ⟨rfl, rfl⟩ := List.cons_eq_cons.1 htokens
      exact absurd hstarts (not_or.2 ⟨himport, hexport⟩)
    | cons u before =>
      obtain ⟨rfl, rfl⟩ := List.cons_eq_cons.1 htokens
      rw [List.getLast?_cons, Option.some_or, ← Option.or_some] at hstarts
      refine (ih (List.pairwise_cons.1 hordered).2
        (fun hnested => (hnests hnested).of_suffix (List.suffix_cons _ _)) h rfl hstarts).imp_right ?_
      exact fun hswallowed => hswallowed.mono (List.Subset.refl _) [first]

/-- Every token of a module's script that begins an import or an export is taken away by an edit, or
swallowed by the declaration of a class or of variables that is exported before it. -/
theorem covered_of_ofSource {source : String} {body : ModuleBody}
    (h : ModuleBody.ofSource source = .ok body) :
    ∃ tokens found, scan source = .ok tokens ∧ statements tokens = .ok found ∧
      ∀ before t after, tokens = before ++ t :: after →
        StartsStatement before.getLast? t after →
        IsEdited (found.flatMap Statement.edits) t ∨
          IsSwallowed (nesting [] (tokens.map Token.word) ≠ none) found before t := by
  unfold ModuleBody.ofSource at h
  obtain ⟨tokens, htokens, h⟩ := bind_eq_ok.1 h
  obtain ⟨found, hfound, h⟩ := bind_eq_ok.1 h
  refine ⟨tokens, found, htokens, hfound, ?_⟩
  intro before t after hsplit hstarts
  have hnests : nesting [] (tokens.map Token.word) ≠ none → Nests tokens := by
    intro hnested
    obtain ⟨stack, hstack⟩ := Option.ne_none_iff_exists'.1 hnested
    obtain ⟨_, rfl, hcounted⟩ := Scanner.run_counted htokens
    exact ⟨[], stack, hcounted, hstack⟩
  rw [← Option.or_none (o := before.getLast?)] at hstarts
  exact covered_of_statementsAfter (laidOut_of_scan htokens).ordered hnests hfound hsplit hstarts

/-- A script in which an import stands on the line after an exported variable. -/
def incrementSource : String := "let a = 0;\nexport let x = a++\nimport './b.js';\n"

theorem covered_incrementSource : ∃ body, ModuleBody.ofSource incrementSource = .ok body ∧
    ∃ tokens found, scan incrementSource = .ok tokens ∧ statements tokens = .ok found ∧
      ∀ before t after, tokens = before ++ t :: after →
        StartsStatement before.getLast? t after →
        IsEdited (found.flatMap Statement.edits) t ∨
          IsSwallowed (nesting [] (tokens.map Token.word) ≠ none) found before t := by
  have hbody : ModuleBody.ofSource incrementSource = .ok
      { code := "let a = 0;\nlet x = a++\nimport './b.js';\nexports.x = x;\n"
        specifiers := [] } := by
    decide +kernel
  exact ⟨_, hbody, covered_of_ofSource hbody⟩

/-- The sign of the increment counts as an operator that carries the declaration on, and the import
stays in the code. -/
theorem swallowed_import : ∃ before t after, scan incrementSource = .ok (before ++ t :: after) ∧
    ∃ found, statements (before ++ t :: after) = .ok found ∧
      t.isName "import" = true ∧ t.depth = 0 ∧ StartsStatement before.getLast? t after ∧
      ¬ IsEdited (found.flatMap Statement.edits) t := by
  have htokens : tokensOf incrementSource = (tokensOf incrementSource).take 12 ++
      ((tokensOf incrementSource)[12]?.getD default) :: (tokensOf incrementSource).drop 13 := by
    decide +kernel
  refine ⟨(tokensOf incrementSource).take 12, (tokensOf incrementSource)[12]?.getD default,
    (tokensOf incrementSource).drop 13, ?_, statementsOf incrementSource, ?_, ?_, ?_, ?_, ?_⟩
  · rw [← htokens]
    decide +kernel
  · rw [← htokens]
    decide +kernel
  · decide +kernel
  · decide +kernel
  · exact Or.inl (by decide +kernel)
  · decide +kernel

end ModuleBundler.Script
