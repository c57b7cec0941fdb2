import ModuleBundler.Script.Statement.Variables

/-
  Export statements: lists, other modules, functions, classes and the default export. A declaration
  or expression that is exported stays in the script, so reading goes on inside it or after it.
-/

namespace ModuleBundler.Script

/-! ## Exported lists and modules -/

/-- The form of an exported list, read at its opening brace. -/
def exportListForm (c : Cursor) : Except SyntaxError (Form × Cursor) := do
  let (items, after) ← bracedList [] c.next
  if after.atName "from" then
    let (source, after) ← fromSource after
    return (.exportFrom items source, after.skipSemicolon)
  else
    match items.find? (fun item => !isPlainName item.name) with
    | some item => .error (c.fault (.exportNeedsSource item.name))
    | none => return (.exportNames items, after.skipSemicolon)

/-- The form of an export of a whole module, read at its star. -/
def exportStarForm (c : Cursor) : Except SyntaxError (Form × Cursor) := do
  if c.next.atName "as" then
    let name ← bindingName c.next.next .expectedAlias
    let (source, after) ← fromSource c.next.next.next
    return (.exportAllAs name source, after.skipSemicolon)
  else
    let (source, after) ← fromSource c.next
    return (.exportAllFrom source, after.skipSemicolon)

theorem reaches_exportListForm {c c' : Cursor} {form : Form}
    (h : exportListForm c = .ok (form, c')) : c.Reaches c' := by
  unfold exportListForm at h
  obtain ⟨⟨items, d⟩, hd, h⟩ := bind_eq_ok.1 h
  have hd := c.reaches_next.trans (reaches_bracedList hd)
  dsimp only at h
  split at h
  · obtain ⟨⟨source, e⟩, he, h⟩ := bind_eq_ok.1 h
    cases h
    exact (hd.trans (reaches_fromSource he)).trans e.reaches_skipSemicolon
  · split at h
    · cases h
    · cases h
      exact hd.trans d.reaches_skipSemicolon

theorem reaches_exportStarForm {c c' : Cursor} {form : Form}
    (h : exportStarForm c = .ok (form, c')) : c.Reaches c' := by
  unfold exportStarForm at h
  split at h
  · obtain ⟨name, -, h⟩ := bind_eq_ok.1 h
    obtain ⟨⟨source, e⟩, he, h⟩ := bind_eq_ok.1 h
    cases h
    have hname := c.reaches_next.trans (c.next.reaches_next.trans c.next.next.reaches_next)
    exact (hname.trans (reaches_fromSource he)).trans e.reaches_skipSemicolon
  · obtain ⟨⟨source, e⟩, he, h⟩ := bind_eq_ok.1 h
    cases h
    exact (c.reaches_next.trans (reaches_fromSource he)).trans e.reaches_skipSemicolon

/-! ## Exported declarations -/

/-- The place of a function's name, from the place of its first word. -/
def functionName (c : Cursor) : Cursor :=
  let c := if c.atName "async" then c.next else c
  let c := c.next
  if c.atPunctuator "*" then c.next else c

/-- An exported function. Its declaration stays and is read on from its first word. -/
def exportFunction (first : Token) (c : Cursor) : Except SyntaxError (Statement × Cursor) := do
  let name ← expectName (functionName c) "function name"
  return (⟨.exportFunction name false, first.start.offset, c.offset⟩, c)

/-- An exported class, under its own name or another. Its declaration stays. -/
def exportClass (first : Token) (c : Cursor) (exported? : Option String) :
    Except SyntaxError (Statement × Cursor) := do
  let name ← expectName c.next "class name"
  match c.next.rest.dropWhile (fun t => !(t.depth == 0 && t.isPunctuator "\x7b")) with
  | [] => .error (c.fault .missingClassBody)
  | opener :: rest =>
    let (_, after) ← matchingClose opener rest
    return (⟨.exportClass name (exported?.getD name) after.last.stop, first.start.offset,
      c.offset⟩, after)

/-- A default export, read after the word `default`. A function or class with a name stays a
declaration; anything else becomes the right side of an assignment. -/
def exportDefault (first : Token) (c : Cursor) : Except SyntaxError (Statement × Cursor) :=
  if c.rest.isEmpty then .error (c.fault .expectedDefault)
  else if (c.atName "function" || (c.atName "async" && c.next.atName "function")) &&
      (functionName c).atKind .name then
    .ok (⟨.exportFunction (functionName c).text true, first.start.offset, c.offset⟩, c)
  else if c.atName "class" && c.next.atKind .name && !c.next.atName "extends" then
    exportClass first c (some "default")
  else .ok (⟨.exportExpression, first.start.offset, c.offset⟩, c)

theorem reaches_exportFunction {first : Token} {c c' : Cursor} {statement : Statement}
    (h : exportFunction first c = .ok (statement, c')) : c.Reaches c' := by
  unfold exportFunction at h
  obtain ⟨name, -, h⟩ := bind_eq_ok.1 h
  cases h
  exact .refl c

theorem reaches_exportClass {first : Token} {c c' : Cursor} {exported? : Option String}
    {statement : Statement} (h : exportClass first c exported? = .ok (statement, c')) :
    c.Reaches c' := by
  unfold exportClass at h
  obtain ⟨name, -, h⟩ := bind_eq_ok.1 h
  split at h
  · cases h
  · next opener rest hbody =>
    obtain ⟨⟨inside, after⟩, hclose, h⟩ := bind_eq_ok.1 h
    have hdrop := c.next.rest.dropWhile_suffix
      (fun t => !(t.depth == 0 && t.isPunctuator "\x7b"))
    rw [hbody] at hdrop
    have hafter := (matchingClose_suffix hclose).trans (List.suffix_cons opener rest)
    cases h
    exact c.reaches_next.trans (Cursor.reaches_of_suffix (hafter.trans hdrop))

theorem reaches_exportDefault {first : Token} {c c' : Cursor} {statement : Statement}
    (h : exportDefault first c = .ok (statement, c')) : c.Reaches c' := by
  unfold exportDefault at h
  split at h
  · cases h
  · split at h
    · cases h
      exact .refl c
    · split at h
      · exact reaches_exportClass h
      · cases h
        exact .refl c

/-! ## All exports -/

/-- An export whose first token is given. -/
def exportStatement (first : Token) (c : Cursor) : Except SyntaxError (Statement × Cursor) :=
  if c.text == "default" then exportDefault first c.next
  else if c.text == "const" || c.text == "let" || c.text == "var" then exportVariables first c
  else if c.text == "function" || (c.text == "async" && c.next.atName "function") then
    exportFunction first c
  else if c.text == "class" then exportClass first c none
  else if c.text == "\x7b" then whole first (exportListForm c)
  else if c.text == "*" then whole first (exportStarForm c)
  else if c.text == "" then .error (c.fault .exportAtEnd)
  else .error (c.fault (.unexpectedExport c.text))

theorem reaches_exportStatement {first : Token} {c c' : Cursor} {statement : Statement}
    (h : exportStatement first c = .ok (statement, c')) : c.Reaches c' := by
  unfold exportStatement at h
  split at h
  · exact c.reaches_next.trans (reaches_exportDefault h)
  split at h
  · exact reaches_exportVariables h
  split at h
  · exact reaches_exportFunction h
  split at h
  · exact reaches_exportClass h
  split at h
  · exact reaches_whole (fun _ _ => reaches_exportListForm) h
  split at h
  · exact reaches_whole (fun _ _ => reaches_exportStarForm) h
  split at h <;> cases h

end ModuleBundler.Script
