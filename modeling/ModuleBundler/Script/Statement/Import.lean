import ModuleBundler.Script.Statement.Items

/-
  Import statements: what stands between the word `import` and the end of the statement.
-/

namespace ModuleBundler.Script

/-- The binding of the default export at the front of an import clause, with the comma after
it. -/
def defaultBinding (c : Cursor) : Except SyntaxError (Option String × Cursor) :=
  if c.atKind .name && !c.atName "from" then
    if c.next.atPunctuator "," then .ok (some c.text, c.next.next)
    else if c.next.atName "from" then .ok (some c.text, c.next)
    else .error (c.next.fault .expectedClauseOrFrom)
  else .ok (none, c)

/-- The bindings between the word `import` and the word `from`. -/
def importClause (c : Cursor) : Except SyntaxError (ImportClause × Cursor) := do
  let (default?, c) ← defaultBinding c
  if c.atPunctuator "*" then
    if c.next.atName "as" then
      let name ← expectName c.next.next "namespace name"
      return (⟨default?, some name, []⟩, c.next.next.next)
    else .error (c.next.fault .expectedAs)
  else if c.atPunctuator "\x7b" then
    let (items, after) ← bracedList [] c.next
    match items.find? (fun item => !isPlainName item.newName) with
    | some item => .error (c.fault (.invalidLocal item.newName))
    | none => return (⟨default?, none, items⟩, after)
  else if default?.isNone then .error (c.fault .expectedClause)
  else return (⟨default?, none, []⟩, c)

/-- The form of an import, read after the word `import`. -/
def importForm (c : Cursor) : Except SyntaxError (Form × Cursor) :=
  if c.atKind .string then .ok (.bareImport (stringValue c.text), c.next.skipSemicolon)
  else do
    let (clause, c) ← importClause c
    let (source, c) ← fromSource c
    return (.importFrom clause source, c.skipSemicolon)

theorem reaches_defaultBinding {c c' : Cursor} {name? : Option String}
    (h : defaultBinding c = .ok (name?, c')) : c.Reaches c' := by
  unfold defaultBinding at h
  split at h
  · split at h
    · cases h
      exact c.reaches_next.trans c.next.reaches_next
    · split at h
      · cases h
        exact c.reaches_next
      · cases h
  · cases h
    exact .refl c

theorem reaches_importClause {c c' : Cursor} {clause : ImportClause}
    (h : importClause c = .ok (clause, c')) : c.Reaches c' := by
  unfold importClause at h
  obtain ⟨⟨default?, d⟩, hd, h⟩ := bind_eq_ok.1 h
  have hd := reaches_defaultBinding hd
  dsimp only at h
  split at h
  · split at h
    · obtain ⟨name, -, h⟩ := bind_eq_ok.1 h
      cases h
      have hstar := d.reaches_next.trans (d.next.reaches_next.trans d.next.next.reaches_next)
      exact hd.trans hstar
    · cases h
  · split at h
    · obtain ⟨⟨items, after⟩, hb, h⟩ := bind_eq_ok.1 h
      have hb := d.reaches_next.trans (reaches_bracedList hb)
      dsimp only at h
      split at h
      · cases h
      · cases h
        exact hd.trans hb
    · split at h
      · cases h
      · cases h
        exact hd

theorem reaches_importForm {c c' : Cursor} {form : Form} (h : importForm c = .ok (form, c')) :
    c.Reaches c' := by
  unfold importForm at h
  split at h
  · cases h
    exact c.reaches_next.trans c.next.reaches_skipSemicolon
  · obtain ⟨⟨clause, d⟩, hd, h⟩ := bind_eq_ok.1 h
    obtain ⟨⟨source, e⟩, he, h⟩ := bind_eq_ok.1 h
    cases h
    exact ((reaches_importClause hd).trans (reaches_fromSource he)).trans e.reaches_skipSemicolon

end ModuleBundler.Script
