import ModuleBundler.Proofs.Requires

/-
  Exports of a module against those that it copies from others. The loop that copies the exports of
  another module passes over the names that the module exports for bindings of its own, and over
  those that are defined when it runs. A name that is forwarded from another module is defined by
  the line of its statement and not passed over, so a loop in front of that line can take it
  (`keeps_iff`). Nothing else that a module exports is open to a loop (`copies_of_ofSource`).
-/

namespace ModuleBundler.Script

variable {form : Form} {found before after : List Statement} {s : Statement}
  {name line skipped : String} {n : Nat}

/-! ## Names -/

/-- The names under which a statement exports what another module has. -/
def Form.forwarded : Form → List String
  | .exportFrom items _ => items.map (·.newName)
  | .exportAllAs name _ => [name]
  | _ => []

/-- All names under which a statement exports something, as far as it says them. -/
def Form.exported : Form → List String
  | .exportFrom items _ => items.map (·.newName)
  | .exportAllAs name _ => [name]
  | .exportNames items => items.map (·.newName)
  | .exportFunction name asDefault => [if asDefault then "default" else name]
  | .exportClass _ exported _ => [exported]
  | .exportVariables names _ _ => names
  | .exportExpression => ["default"]
  | _ => []

/-- What a statement exports is a binding of the module itself, unless it is forwarded. -/
theorem Form.mem_of_mem_exported (h : name ∈ form.exported) :
    name ∈ "default" :: form.ownExports ∨ name ∈ form.forwarded := by
  cases form with
  | exportFrom items source => exact Or.inr h
  | exportAllAs exported source => exact Or.inr h
  | exportNames items => exact Or.inl (List.mem_cons_of_mem _ h)
  | exportClass local' exported bodyEnd => exact Or.inl (List.mem_cons_of_mem _ h)
  | exportVariables names textEnd terminated => exact Or.inl (List.mem_cons_of_mem _ h)
  | exportFunction local' asDefault =>
    cases asDefault with
    | false => exact Or.inl (List.mem_cons_of_mem _ h)
    | true => exact Or.inl (List.mem_singleton.1 h ▸ List.mem_cons_self)
  | exportExpression => exact Or.inl (List.mem_singleton.1 h ▸ List.mem_cons_self)
  | _ => cases h

theorem Form.exported_of_forwarded (h : name ∈ form.forwarded) : name ∈ form.exported := by
  cases form with
  | exportFrom items source => exact h
  | exportAllAs exported source => exact h
  | _ => cases h

/-! ## Lines that define exports -/

/-- Whether a line has a part that defines an export. -/
def Defines (name line : String) : Prop :=
  ∃ value front back, line = front ++ assignment name value ++ back ∨
    line = front ++ forwarding name value ++ back

theorem exists_join_eq {part : String} {parts : List String} (h : part ∈ parts) :
    ∃ front back, String.join parts = front ++ part ++ back := by
  obtain ⟨others, more, rfl⟩ := List.append_of_mem h
  exact ⟨String.join others, String.join more, by
    rw [String.join_append, String.join_cons, String.append_assoc]⟩

theorem Form.defines (h : name ∈ form.forwarded)
    (hline : form.requireLine? skipped (temporary n) = some line) : Defines name line := by
  cases form with
  | exportFrom items source =>
    obtain rfl := Option.some.inj hline
    obtain ⟨item, hitem, rfl⟩ := List.mem_map.1 h
    obtain ⟨front, back, hjoin⟩ := exists_join_eq (List.mem_cons_of_mem (declaration n source)
      (List.mem_map_of_mem (f := fun item : Binding =>
        " " ++ forwarding item.newName (temporary n ++ member item.name)) hitem))
    refine ⟨temporary n ++ member item.name, front ++ " ", back, Or.inr (hjoin.trans ?_)⟩
    rw [← String.append_assoc]
  | exportAllAs exported source =>
    obtain rfl := Option.some.inj hline
    obtain rfl := List.mem_singleton.1 h
    exact ⟨requireCall source, "", "", Or.inl (by rw [String.empty_append, String.append_empty])⟩
  | _ => cases h

/-! ## The line of a copy -/

/-- The number of the variable that comes next after those of statements. -/
def nextTemporary (before : List Statement) : Nat := before.countP (·.form.needsTemporary)

theorem requireLines_append (skipped : String) (n : Nat) (before rest : List Statement) :
    requireLines skipped n (before ++ rest) =
      requireLines skipped n before ++ requireLines skipped (n + nextTemporary before) rest := by
  induction before generalizing n with
  | nil => rfl
  | cons s before ih =>
    have hnext : (if s.form.needsTemporary then n + 1 else n) + nextTemporary before =
        n + nextTemporary (s :: before) := by
      rw [nextTemporary, nextTemporary, List.countP_cons]
      split <;> omega
    rw [List.cons_append, requireLines, requireLines, ih, hnext, List.append_assoc]

/-- A name that is forwarded is defined by a line of its statement. -/
theorem exists_line_of_forwarded (hs : s ∈ found) (h : name ∈ s.form.forwarded) :
    ∃ line ∈ requireLines skipped n found, Defines name line := by
  obtain ⟨before, after, rfl⟩ := List.append_of_mem hs
  have hsource : ∃ source, s.form.source? = some source := by
    cases hform : s.form <;> rw [hform] at h <;> first | exact ⟨_, rfl⟩ | cases h
  obtain ⟨source, hsource⟩ := hsource
  obtain ⟨line, hline⟩ := s.form.exists_requireLine hsource skipped
    (temporary (n + nextTemporary before))
  refine ⟨line, ?_, Form.defines h hline⟩
  rw [requireLines_append, requireLines, hline]
  simp

/-- The names that no copy defines. -/
def skips (found : List Statement) : List String := "default" :: found.flatMap (·.form.ownExports)

/-- The lines in front of the one of a statement that comes after others. -/
def linesBefore (found before : List Statement) : List String :=
  found.filterMap (·.form.functionLine?) ++ requireLines (skippedNames found) 0 before

/-- Whether a copy that comes after these statements leaves a name alone: it passes over the name,
or a line in front defines it. -/
def IsKept (found before : List Statement) (name : String) : Prop :=
  name ∈ skips found ∨ name ∈ before.flatMap (·.form.forwarded)

/-- A copy leaves everything alone that the module exports exactly if it does so with what later
statements forward. -/
theorem keeps_iff {star : Statement} (hstar : star.form.forwarded = [])
    (hfound : found = before ++ star :: after) :
    (∀ name ∈ found.flatMap (·.form.exported), IsKept found before name) ↔
      ∀ name ∈ after.flatMap (·.form.forwarded), IsKept found before name := by
  constructor
  · intro hkept name hname
    obtain ⟨s, hs, hname⟩ := List.mem_flatMap.1 hname
    refine hkept name (List.mem_flatMap.2 ⟨s, ?_, Form.exported_of_forwarded hname⟩)
    rw [hfound]
    exact List.mem_append_right _ (List.mem_cons_of_mem _ hs)
  · intro hkept name hname
    obtain ⟨s, hs, hname⟩ := List.mem_flatMap.1 hname
    rcases Form.mem_of_mem_exported hname with hown | hforwarded
    · refine Or.inl ?_
      rcases List.mem_cons.1 hown with rfl | hown
      · exact List.mem_cons_self
      · exact List.mem_cons_of_mem _ (List.mem_flatMap.2 ⟨s, hs, hown⟩)
    · rw [hfound] at hs
      rcases List.mem_append.1 hs with hs | hs
      · exact Or.inr (List.mem_flatMap.2 ⟨s, hs, hforwarded⟩)
      · rcases List.mem_cons.1 hs with rfl | hs
        · rw [hstar] at hforwarded
          cases hforwarded
        · exact hkept name (List.mem_flatMap.2 ⟨s, hs, hforwarded⟩)

/-- The line of a copy, with the names that the loop passes over. -/
def copyingLine (found before : List Statement) (source : String) : String :=
  declaration (nextTemporary before) source ++ " " ++
    copyLoop (temporary (nextTemporary before)) (", ".intercalate ((skips found).map quote))

theorem hoistedLines_of_copy {source : String} {start stop : Nat}
    (hfound : found = before ++ ⟨.exportAllFrom source, start, stop⟩ :: after) :
    ∃ lines, hoistedLines found =
      linesBefore found before ++ [copyingLine found before source] ++ lines := by
  have hsource : (Form.exportAllFrom source).source? = some source := rfl
  obtain ⟨line, hline⟩ := Form.exists_requireLine hsource (skippedNames found)
    (temporary (nextTemporary before))
  have heq := (Form.line_of_copies rfl hline rfl).2
  have hrequires := congrArg (requireLines (skippedNames found) 0) hfound
  rw [requireLines_append, Nat.zero_add, requireLines, hline] at hrequires
  refine ⟨requireLines (skippedNames found) (nextTemporary before + 1) after, ?_⟩
  rw [hoistedLines, hrequires, heq, linesBefore]
  simp only [Option.toList_some, List.append_assoc]
  rfl

/-- In every module, the loop of each copy of another module's exports stands on a line of its own
behind those of functions and of the statements before it, and passes over the names that the module
exports for bindings of its own. Of all names that the module exports these, and those that a line
in front defines, are left alone; and they are all, exactly if this holds of the names that later
statements forward. -/
theorem copies_of_ofSource {source : String} {body : ModuleBody}
    (h : ModuleBody.ofSource source = .ok body) :
    ∃ tokens found, scan source = .ok tokens ∧ statements tokens = .ok found ∧
      ∀ before copied start stop after,
        found = before ++ ⟨.exportAllFrom copied, start, stop⟩ :: after →
        (∃ rest, body.code =
          joinLines (linesBefore found before ++ [copyingLine found before copied]) ++ rest) ∧
        (∀ name, IsKept found before name →
          name ∈ skips found ∨ ∃ line ∈ linesBefore found before, Defines name line) ∧
        ((∀ name ∈ found.flatMap (·.form.exported), IsKept found before name) ↔
          ∀ name ∈ after.flatMap (·.form.forwarded), IsKept found before name) := by
  unfold ModuleBody.ofSource at h
  obtain ⟨tokens, htokens, h⟩ := bind_eq_ok.1 h
  obtain ⟨found, hfound, h⟩ := bind_eq_ok.1 h
  cases h
  refine ⟨tokens, found, htokens, hfound, ?_⟩
  intro before copied start stop after hsplit
  refine ⟨?_, ?_, keeps_iff rfl hsplit⟩
  · obtain ⟨rest, hcode⟩ := ModuleBody.code_ofStatements source found
    obtain ⟨lines, hlines⟩ := hoistedLines_of_copy hsplit
    rw [hlines, joinLines_append, String.append_assoc] at hcode
    exact ⟨_, hcode⟩
  · rintro name (hskipped | hforwarded)
    · exact Or.inl hskipped
    · obtain ⟨s, hs, hname⟩ := List.mem_flatMap.1 hforwarded
      obtain ⟨line, hline, hdefines⟩ := exists_line_of_forwarded hs hname
      exact Or.inr ⟨line, List.mem_append_right _ hline, hdefines⟩

/-- A script that forwards a name, copies all exports of another module, and has exports of its own
behind. -/
def keptSource : String :=
  "export \x7b a as n \x7d from './m.js';\nexport * from './all.js';\n" ++
    "export let b = 1;\nexport default b;\n"

theorem copies_keptSource : ∃ found body before start stop after,
    ModuleBody.ofSource keptSource = .ok body ∧ statements (tokensOf keptSource) = .ok found ∧
      found = before ++ ⟨.exportAllFrom "./all.js", start, stop⟩ :: after ∧
      found.flatMap (·.form.exported) = ["n", "b", "default"] ∧ skips found = ["default", "b"] ∧
      (∀ name ∈ found.flatMap (·.form.exported), IsKept found before name) ∧
      ∃ rest, body.code =
        joinLines (linesBefore found before ++ [copyingLine found before "./all.js"]) ++ rest := by
  let found := statementsOf keptSource
  let star := found[1]?.getD default
  obtain ⟨hscan, hfound, hsplit, hexported, hskips, hlater⟩ :
      scan keptSource = .ok (tokensOf keptSource) ∧ statements (tokensOf keptSource) = .ok found ∧
        found = found.take 1 ++ ⟨.exportAllFrom "./all.js", star.start, star.stop⟩ :: found.drop 2 ∧
        found.flatMap (·.form.exported) = ["n", "b", "default"] ∧ skips found = ["default", "b"] ∧
        (found.drop 2).flatMap (·.form.forwarded) = [] := by
    decide +kernel
  obtain ⟨body, -, hbody, -⟩ := exists_splicedFrom hscan hfound
  obtain ⟨tokens, found', hscan', hfound', hcopies⟩ := copies_of_ofSource hbody
  obtain rfl := Except.ok.inj (hscan.symm.trans hscan')
  obtain rfl := Except.ok.inj (hfound.symm.trans hfound')
  obtain ⟨hcode, -, hkept⟩ := hcopies _ _ _ _ _ hsplit
  have hnone : ∀ name ∈ (found.drop 2).flatMap (·.form.forwarded),
      IsKept found (found.take 1) name := by
    rw [hlater]
    rintro name ⟨⟩
  exact ⟨found, body, _, _, _, _, hbody, hfound, hsplit, hexported, hskips, hkept.2 hnone, hcode⟩

/-- A script that forwards a name behind a copy of all exports of another module. -/
def takenSource : String := "export * from './all.js';\nexport \x7b a as n \x7d from './m.js';\n"

/-- The loop of the copy does not pass over the name, and comes before all other lines. -/
theorem taken_name : ∃ body star later, ModuleBody.ofSource takenSource = .ok body ∧
    statements (tokensOf takenSource) = .ok [star, later] ∧
    star.form = .exportAllFrom "./all.js" ∧ later.form.exported = ["n"] ∧
    linesBefore [star, later] [] = [] ∧ "n" ∉ skips [star, later] ∧
    body.code = copyingLine [star, later] [] "./all.js" ++ "\n" ++
      (declaration 1 "./m.js" ++ " " ++ forwarding "n" "__weld_import_1.a") ++ "\n\n\n" := by
  refine ⟨(ModuleBody.ofSource takenSource).toOption.getD default,
    (statementsOf takenSource)[0]?.getD default, (statementsOf takenSource)[1]?.getD default, ?_⟩
  decide +kernel

end ModuleBundler.Script
