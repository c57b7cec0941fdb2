import ModuleBundler.Proofs.Hoisted
import ModuleBundler.Script.Statement.Read

/-
  The names in module statements. A token of the kind of names is a name for the scanner
  (`isScanned_of_scan`), and readers of statements take their names from such tokens: what they
  leave is a suffix of what they are given, so that the tokens in reach are always tokens of the
  script. Hence every statement of a script that scans has names where it binds or exports them
  (`isNamed_of_statements`).
-/

namespace ModuleBundler.Script

/-! ## Names of the scanner -/

/-- Whether a token that counts as a name is one. -/
def Token.IsScanned (t : Token) : Prop := t.kind = .name → IsNameText t.text

theorem startsName_of_lexemeAt {closing regex : Bool} {c : Char} {rest : List Char} {more : Nat}
    (h : lexemeAt closing regex c rest = .ok (.plain .name more)) :
    startsName c = true ∧ more = (rest.takeWhile continuesName).length := by
  unfold lexemeAt at h
  split at h
  · split at h <;> cases h
  · split at h
    · split at h <;> cases h
    · split at h
      · cases h
      · split at h
        · next hstarts =>
          cases h
          exact ⟨hstarts, rfl⟩
        · split at h
          · split at h <;> cases h
          · cases h

theorem isNameText_ofList {c : Char} {rest : List Char} (hstarts : startsName c = true) :
    IsNameText (String.ofList (c :: rest.take (rest.takeWhile continuesName).length)) := by
  refine ⟨c, rest.takeWhile continuesName, ?_, hstarts, List.all_takeWhile⟩
  rw [String.toList_ofList]
  exact congrArg (c :: ·) (List.prefix_iff_eq_take.1 (List.takeWhile_prefix continuesName)).symm

/-- What the scanner takes in is one token, and a name only if the lexeme is one. -/
theorem Scanner.take_done {s s' : Scanner} {start : Position} {newline : Bool} {lexeme : Lexeme}
    {chars : List Char} (h : s.take start newline lexeme chars = .ok s') :
    ∃ token, s'.done = token :: s.done ∧
      (token.kind = .name → (∃ more, lexeme = .plain .name more) ∧
        token.text = String.ofList chars) := by
  cases lexeme with
  | template closes opens more =>
    cases h
    exact ⟨_, rfl, by rintro ⟨⟩⟩
  | plain kind more =>
    rw [take] at h
    split at h
    · cases h
      exact ⟨_, rfl, by rintro ⟨⟩⟩
    · split at h
      · rw [takeCloser] at h
        split at h
        · cases h
        · dsimp only at h
          split at h
          · cases h
            exact ⟨_, rfl, by rintro ⟨⟩⟩
          · cases h
            exact ⟨_, rfl, by rintro ⟨⟩⟩
      · cases h
        refine ⟨_, rfl, ?_⟩
        rintro rfl
        exact ⟨⟨more, rfl⟩, rfl⟩

theorem Scanner.isScanned_of_run {s : Scanner} {input : List Char} {tokens : List Token}
    (hdone : ∀ t ∈ s.done, t.IsScanned) (h : s.run input = .ok tokens) :
    ∀ t ∈ tokens, t.IsScanned := by
  fun_induction Scanner.run s input with
  | case1 => cases h
  | case2 s input blank newline hblank hrest hempty =>
    cases h
    exact fun t ht => hdone t (List.mem_reverse.1 ht)
  | case3 => cases h
  | case4 => cases h
  | case5 => cases h
  | case6 s input blank newline hblank start c rest hrest lexeme hlexeme s' htake ih =>
    refine ih ?_ h
    obtain ⟨token, hdone', hname⟩ := Scanner.take_done htake
    rw [hdone', List.forall_mem_cons]
    refine ⟨?_, hdone⟩
    intro hkind
    obtain ⟨⟨more, rfl⟩, htext⟩ := hname hkind
    obtain ⟨hstarts, rfl⟩ := startsName_of_lexemeAt hlexeme
    rw [htext]
    exact isNameText_ofList hstarts

/-- The names that the scanner finds are names. -/
theorem isScanned_of_scan {source : String} {tokens : List Token} (h : scan source = .ok tokens) :
    ∀ t ∈ tokens, t.IsScanned :=
  Scanner.isScanned_of_run (by rintro t ⟨⟩) h

/-! ## Names in statements -/

variable {c c' : Cursor} {form : Form} {statement : Statement}

theorem isNameText_of_atKind (hc : ∀ t ∈ c.rest, t.IsScanned) (h : c.atKind .name = true) :
    IsNameText c.text := by
  rw [Cursor.atKind, Option.any_eq_true] at h
  obtain ⟨t, ht, hkind⟩ := h
  rw [Cursor.text, ht]
  exact hc t (List.mem_of_mem_head? ht) (beq_iff_eq.1 hkind)

theorem isNameText_of_expectName {what name : String} (hc : ∀ t ∈ c.rest, t.IsScanned)
    (h : expectName c what = .ok name) : IsNameText name := by
  unfold expectName at h
  split at h
  · next hkind =>
    cases h
    exact isNameText_of_atKind hc hkind
  · cases h

theorem isNameText_of_defaultBinding {name? : Option String} (hc : ∀ t ∈ c.rest, t.IsScanned)
    (h : defaultBinding c = .ok (name?, c')) : ∀ name ∈ name?, IsNameText name := by
  unfold defaultBinding at h
  split at h
  · next hname =>
    rw [Bool.and_eq_true] at hname
    have htext := isNameText_of_atKind hc hname.1
    split at h
    · cases h
      rintro name ⟨⟩
      exact htext
    · split at h
      · cases h
        rintro name ⟨⟩
        exact htext
      · cases h
  · cases h
    rintro name ⟨⟩

theorem isNamed_of_importClause {clause : ImportClause} (hc : ∀ t ∈ c.rest, t.IsScanned)
    (h : importClause c = .ok (clause, c')) : clause.IsNamed := by
  unfold importClause at h
  obtain ⟨⟨default?, d⟩, hbinding, h⟩ := bind_eq_ok.1 h
  have hd : ∀ t ∈ d.rest, t.IsScanned := fun t ht => hc t ((reaches_defaultBinding hbinding).rest.mem ht)
  have hdefault := isNameText_of_defaultBinding hc hbinding
  dsimp only at h
  split at h
  · split at h
    · obtain ⟨star, hstar, h⟩ := bind_eq_ok.1 h
      have hnext := d.reaches_next.trans d.next.reaches_next
      have hstar := isNameText_of_expectName (fun t ht => hd t (hnext.rest.mem ht)) hstar
      cases h
      exact ⟨hdefault, by rintro name ⟨⟩; exact hstar, by rintro item ⟨⟩⟩
    · cases h
  · split at h
    · obtain ⟨⟨items, after⟩, -, h⟩ := bind_eq_ok.1 h
      dsimp only at h
      split at h
      · cases h
      · next hplain =>
        cases h
        refine ⟨hdefault, by rintro name ⟨⟩, ?_⟩
        intro item hitem
        have hitem := List.find?_eq_none.1 hplain item hitem
        rw [Bool.not_eq_true, Bool.not_eq_false'] at hitem
        exact isNameText_of_isPlainName hitem
    · split at h
      · cases h
      · cases h
        exact ⟨hdefault, by rintro name ⟨⟩, by rintro item ⟨⟩⟩

theorem isNamed_of_importForm (hc : ∀ t ∈ c.rest, t.IsScanned)
    (h : importForm c = .ok (form, c')) : form.IsNamed := by
  unfold importForm at h
  split at h
  · cases h
    trivial
  · obtain ⟨⟨clause, d⟩, hclause, h⟩ := bind_eq_ok.1 h
    obtain ⟨⟨source, e⟩, -, h⟩ := bind_eq_ok.1 h
    cases h
    exact isNamed_of_importClause hc hclause

theorem isNamed_of_exportListForm (h : exportListForm c = .ok (form, c')) : form.IsNamed := by
  unfold exportListForm at h
  obtain ⟨⟨items, d⟩, -, h⟩ := bind_eq_ok.1 h
  dsimp only at h
  split at h
  · obtain ⟨⟨source, e⟩, -, h⟩ := bind_eq_ok.1 h
    cases h
    trivial
  · split at h
    · cases h
    · cases h
      trivial

theorem isNamed_of_exportStarForm (h : exportStarForm c = .ok (form, c')) : form.IsNamed := by
  unfold exportStarForm at h
  split at h
  · obtain ⟨name, -, h⟩ := bind_eq_ok.1 h
    obtain ⟨⟨source, e⟩, -, h⟩ := bind_eq_ok.1 h
    cases h
    trivial
  · obtain ⟨⟨source, e⟩, -, h⟩ := bind_eq_ok.1 h
    cases h
    trivial

theorem isNamed_of_whole {first : Token} {form : Except SyntaxError (Form × Cursor)}
    (hform : ∀ f d, form = .ok (f, d) → f.IsNamed) (h : whole first form = .ok (statement, c)) :
    statement.form.IsNamed := by
  unfold whole at h
  obtain ⟨⟨f, after⟩, hd, h⟩ := bind_eq_ok.1 h
  cases h
  exact hform f _ hd

theorem reaches_functionName (c : Cursor) : c.Reaches (functionName c) := by
  have hword : c.Reaches (if c.atName "async" then c.next else c) := by
    split
    · exact c.reaches_next
    · exact .refl c
  unfold functionName
  dsimp only
  generalize (if c.atName "async" then c.next else c) = d at hword ⊢
  split
  · exact hword.trans (d.reaches_next.trans d.next.reaches_next)
  · exact hword.trans d.reaches_next

theorem isNamed_of_exportFunction {first : Token} (hc : ∀ t ∈ c.rest, t.IsScanned)
    (h : exportFunction first c = .ok (statement, c')) : statement.form.IsNamed := by
  unfold exportFunction at h
  obtain ⟨name, hname, h⟩ := bind_eq_ok.1 h
  cases h
  exact isNameText_of_expectName (fun t ht => hc t ((reaches_functionName c).rest.mem ht)) hname

theorem isNamed_of_exportClass {first : Token} {exported? : Option String}
    (h : exportClass first c exported? = .ok (statement, c')) : statement.form.IsNamed := by
  unfold exportClass at h
  obtain ⟨name, -, h⟩ := bind_eq_ok.1 h
  split at h
  · cases h
  · obtain ⟨⟨inside, after⟩, -, h⟩ := bind_eq_ok.1 h
    cases h
    trivial

theorem isNamed_of_exportDefault {first : Token} (hc : ∀ t ∈ c.rest, t.IsScanned)
    (h : exportDefault first c = .ok (statement, c')) : statement.form.IsNamed := by
  unfold exportDefault at h
  split at h
  · cases h
  · split at h
    · next hfunction =>
      rw [Bool.and_eq_true] at hfunction
      cases h
      exact isNameText_of_atKind (fun t ht => hc t ((reaches_functionName c).rest.mem ht)) hfunction.2
    · split at h
      · exact isNamed_of_exportClass h
      · cases h
        trivial

theorem isNamed_of_exportVariables {first : Token}
    (h : exportVariables first c = .ok (statement, c')) : statement.form.IsNamed := by
  unfold exportVariables at h
  obtain ⟨⟨names, d⟩, -, h⟩ := bind_eq_ok.1 h
  dsimp only at h
  split at h
  · cases h
  · cases h
    trivial

theorem isNamed_of_exportStatement {first : Token} (hc : ∀ t ∈ c.rest, t.IsScanned)
    (h : exportStatement first c = .ok (statement, c')) : statement.form.IsNamed := by
  unfold exportStatement at h
  split at h
  · exact isNamed_of_exportDefault (fun t ht => hc t (c.reaches_next.rest.mem ht)) h
  split at h
  · exact isNamed_of_exportVariables h
  split at h
  · exact isNamed_of_exportFunction hc h
  split at h
  · exact isNamed_of_exportClass h
  split at h
  · exact isNamed_of_whole (fun _ _ => isNamed_of_exportListForm) h
  split at h
  · exact isNamed_of_whole (fun _ _ => isNamed_of_exportStarForm) h
  split at h <;> cases h

/-! ## All statements -/

theorem isNamed_of_statementsAfter {previous? : Option Token} {ts : List Token}
    {found : List Statement} (hts : ∀ t ∈ ts, t.IsScanned)
    (h : statementsAfter previous? ts = .ok found) : ∀ s ∈ found, s.form.IsNamed := by
  fun_induction statementsAfter previous? ts generalizing found with
  | case1 =>
    cases h
    rintro s ⟨⟩
  | case2 => cases h
  | case3 previous? t ts himport statement c hwhole ih =>
    have hrest : ∀ t ∈ ts, t.IsScanned := fun u hu => hts u (List.mem_cons_of_mem t hu)
    have hreaches := reaches_whole (fun _ _ => reaches_importForm) hwhole
    obtain ⟨others, hothers, h⟩ := bind_eq_ok.1 h
    cases h
    rw [List.forall_mem_cons]
    refine ⟨isNamed_of_whole (fun _ _ => isNamed_of_importForm hrest) hwhole, ?_⟩
    exact ih (fun u hu => hrest u (hreaches.rest.mem hu)) hothers
  | case4 => cases h
  | case5 previous? t ts himport hexport statement c hstatement ih =>
    have hrest : ∀ t ∈ ts, t.IsScanned := fun u hu => hts u (List.mem_cons_of_mem t hu)
    obtain ⟨others, hothers, h⟩ := bind_eq_ok.1 h
    cases h
    rw [List.forall_mem_cons]
    refine ⟨isNamed_of_exportStatement hrest hstatement, ?_⟩
    exact ih (fun u hu => hrest u ((reaches_exportStatement hstatement).rest.mem hu)) hothers
  | case6 previous? t ts himport hexport ih =>
    exact ih (fun u hu => hts u (List.mem_cons_of_mem t hu)) h

/-- The names that the statements of a script bind or export are names of the script. -/
theorem isNamed_of_statements {source : String} {tokens : List Token} {found : List Statement}
    (hscan : scan source = .ok tokens) (h : statements tokens = .ok found) :
    ∀ s ∈ found, s.form.IsNamed :=
  isNamed_of_statementsAfter (isScanned_of_scan hscan) h

/-- The lines that stand in front of the module that a script becomes. -/
def hoistedLinesOf (source : String) : Except SyntaxError (List String) := do
  let tokens ← scan source
  let found ← statements tokens
  return hoistedLines found

/-- A script that becomes a module has its hoisted lines at the front of its code, and these call
`require` with the literals of what the module asks for. -/
theorem hoisted_of_ofSource {source : String} {body : ModuleBody}
    (h : ModuleBody.ofSource source = .ok body) :
    ∃ (lines : List String) (rest : String) (sources : List String),
      hoistedLinesOf source = .ok lines ∧
      body.code = joinLines lines ++ rest ∧
      literalsOfLines lines = .ok (sources.map quote) ∧ body.specifiers = sources.eraseDups := by
  unfold ModuleBody.ofSource at h
  obtain ⟨tokens, htokens, h⟩ := bind_eq_ok.1 h
  obtain ⟨found, hfound, h⟩ := bind_eq_ok.1 h
  cases h
  obtain ⟨rest, hcode⟩ := ModuleBody.code_ofStatements source found
  refine ⟨hoistedLines found, rest, found.filterMap (·.form.source?), ?_, hcode,
    literalsOfLines_hoistedLines (isNamed_of_statements htokens hfound), rfl⟩
  rw [hoistedLinesOf, htokens]
  show (statements tokens >>= fun found => Except.ok (hoistedLines found)) = _
  rw [hfound]
  rfl

end ModuleBundler.Script
