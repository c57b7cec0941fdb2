import ModuleBundler.Proofs.Copies
import ModuleBundler.Proofs.Mentions

/-
  The variables that hold other modules. They are numbered, so no two statements have the same one,
  and the line of a statement begins with the declaration of its own. Unless a statement declares or
  exports a variable of that name, no other text that is put into the module mentions it
  (`temporaries_of_ofSource`). Names are counted and never compared with those of the script, so
  nothing keeps a script from having such a name (`clashing_temporary`).
-/

namespace ModuleBundler.Script

variable {m n : Nat} {name : String} {s : Statement} {found before after : List Statement}
  {tokens : List Token} {values : List String}

/-! ## Numbers -/

theorem temporary_inj : temporary m = temporary n ↔ m = n := by
  refine ⟨fun h => ?_, congrArg temporary⟩
  have hchars := congrArg String.toList h
  rw [temporary, temporary, String.toList_append, String.toList_append] at hchars
  have hdigits : Nat.toDigits 10 m = Nat.toDigits 10 n := by
    simpa [Nat.toString_eq_ofList_toDigits] using List.append_cancel_left hchars
  have hvalue := congrArg (Nat.ofDigitChars 10 · 0) hdigits
  simpa using hvalue

/-- A statement that needs a variable moves the number on for those behind it. -/
theorem nextTemporary_lt {mid : List Statement} (h : s.form.needsTemporary = true) :
    nextTemporary before < nextTemporary (before ++ s :: mid) := by
  rw [nextTemporary, nextTemporary, List.countP_append, List.countP_cons, if_pos h]
  omega

/-- No two statements have the same variable. -/
theorem eq_of_temporary_eq {before' after' : List Statement} {s' : Statement}
    (hsplit : before ++ s :: after = before' ++ s' :: after')
    (hs : s.form.needsTemporary = true) (hs' : s'.form.needsTemporary = true)
    (h : temporary (nextTemporary before') = temporary (nextTemporary before)) :
    before' = before := by
  have hnumber := temporary_inj.1 h
  rcases List.append_eq_append_iff.1 hsplit with ⟨mid, rfl, hmid⟩ | ⟨mid, rfl, hmid⟩
  · cases mid with
    | nil => exact List.append_nil _
    | cons u mid =>
      obtain ⟨rfl, -⟩ := List.cons_eq_cons.1 hmid
      exact absurd hnumber (Nat.ne_of_gt (nextTemporary_lt hs))
  · cases mid with
    | nil => exact (List.append_nil _).symm
    | cons u mid =>
      obtain ⟨rfl, -⟩ := List.cons_eq_cons.1 hmid
      exact absurd hnumber (Nat.ne_of_lt (nextTemporary_lt hs'))

/-! ## Lines and texts -/

theorem Form.exists_source {form : Form} (h : form.needsTemporary = true) :
    ∃ source, form.source? = some source := by
  cases form <;> first | exact ⟨_, rfl⟩ | cases h

/-- The lines behind the one of a statement that needs a variable. -/
def linesBehind (found before after : List Statement) : List String :=
  requireLines (skippedNames found) (nextTemporary before + 1) after

/-- The line of a statement that needs a variable stands between those of the others. -/
theorem hoistedLines_of_needsTemporary (hsplit : found = before ++ s :: after)
    (hs : s.form.needsTemporary = true) :
    ∃ source more, s.form.source? = some source ∧
      (s.form.copies = true →
        more = " " ++ copyLoop (temporary (nextTemporary before)) (skippedNames found)) ∧
      hoistedLines found = linesBefore found before ++
        (declaration (nextTemporary before) source ++ more) :: linesBehind found before after := by
  obtain ⟨source, hsource⟩ := Form.exists_source hs
  obtain ⟨line, hline⟩ := Form.exists_requireLine hsource (skippedNames found)
    (temporary (nextTemporary before))
  obtain ⟨more, rfl⟩ := Form.exists_declaration hline hsource hs
  refine ⟨source, more, hsource, fun hcopies => ?_, ?_⟩
  · have hloop := (Form.line_of_copies hcopies hline hsource).2
    rw [String.append_assoc] at hloop
    exact String.append_right_inj _ |>.1 hloop
  · have hrequires := congrArg (requireLines (skippedNames found) 0) hsplit
    rw [requireLines_append, Nat.zero_add, requireLines, hline, if_pos hs] at hrequires
    rw [hoistedLines, hrequires, linesBefore, linesBehind, List.append_assoc]
    rfl

/-- A reserved name is in none of the lines of statements that have no variable of that name. -/
theorem omits_requireLines (hreserved : isReserved name = true)
    (hnamed : ∀ s ∈ found, s.form.IsNamed) (hlocals : ∀ s ∈ found, name ∉ s.form.locals)
    (hnumbers : ∀ k, n ≤ k → k < n + nextTemporary found → temporary k ≠ name) :
    ∀ line ∈ requireLines (", ".intercalate (values.map quote)) n found, Omits name 0 0 line := by
  induction found generalizing n with
  | nil =>
    rintro line ⟨⟩
  | cons s found ih =>
    obtain ⟨hsnamed, hnamed⟩ := List.forall_mem_cons.1 hnamed
    obtain ⟨hslocals, hlocals⟩ := List.forall_mem_cons.1 hlocals
    have hcount : nextTemporary (s :: found) =
        nextTemporary found + if s.form.needsTemporary then 1 else 0 := List.countP_cons
    intro line hline
    rw [requireLines] at hline
    rcases List.mem_append.1 hline with hline | hline
    · refine Form.omits_requireLine hreserved hsnamed hslocals (fun hs => ?_)
        (Option.mem_toList.1 hline)
      refine hnumbers n (Nat.le_refl n) ?_
      rw [hcount, if_pos hs]
      omega
    · refine ih hnamed hlocals (fun k hk hlt => hnumbers k ?_ ?_) line hline
      · split at hk <;> omega
      · rw [hcount]
        split at hlt <;> split <;> omega

/-- All texts that are put into a module, but for the line of a statement that needs a variable. -/
def otherTexts (found before after : List Statement) : List String :=
  linesBefore found before ++ linesBehind found before after ++
    (found.flatMap Statement.edits).map (·.text) ++ found.flatMap (·.form.trailingLines)

/-- They do not mention the variable, unless a statement declares or exports one of its name. -/
theorem omits_otherTexts {source : String} (htokens : scan source = .ok tokens)
    (hfound : statements tokens = .ok found) (hsplit : found = before ++ s :: after)
    (hlocals : ∀ u ∈ found, temporary (nextTemporary before) ∉ u.form.locals) :
    ∀ text ∈ otherTexts found before after,
      Omits (temporary (nextTemporary before)) 0 0 text := by
  have hreserved := isReserved_temporary (nextTemporary before)
  have hnamed := isNamed_of_statements htokens hfound
  have hbefore : before ⊆ found := fun u hu => by simp [hsplit, hu]
  have hafter : after ⊆ found := fun u hu => by simp [hsplit, hu]
  have hother {k : Nat} (hk : k ≠ nextTemporary before) :
      temporary k ≠ temporary (nextTemporary before) := mt temporary_inj.1 hk
  intro text htext
  rw [otherTexts, linesBefore, List.mem_append, List.mem_append, List.mem_append,
    List.mem_append] at htext
  rcases htext with (((hline | hline) | hline) | hedit) | hline
  · obtain ⟨u, hu, hline⟩ := List.mem_filterMap.1 hline
    exact Form.omits_functionLine hreserved (hnamed u hu) (hlocals u hu) hline
  · refine omits_requireLines hreserved (fun u hu => hnamed u (hbefore hu))
      (fun u hu => hlocals u (hbefore hu)) (fun k hk hlt => hother ?_) text hline
    omega
  · refine omits_requireLines hreserved (fun u hu => hnamed u (hafter hu))
      (fun u hu => hlocals u (hafter hu)) (fun k hk hlt => hother ?_) text hline
    omega
  · obtain ⟨e, he, rfl⟩ := List.mem_map.1 hedit
    obtain ⟨u, hu, he⟩ := List.mem_flatMap.1 he
    exact Statement.omits_edits hreserved (isAssigned_of_statements htokens hfound hu)
      (hlocals u hu) e he
  · obtain ⟨u, hu, hline⟩ := List.mem_flatMap.1 hline
    exact Form.omits_trailingLines hreserved (listsPlainly_of_statements hfound hu)
      (hlocals u hu) text hline

/-! ## The module -/

/-- In every module, the variable of a statement is no other statement's. A line of the statement's
own declares it, with the loop that reads it if the statement copies exports. No other text that is
put into the module mentions it, unless a statement declares or exports a variable of the same name,
which the script has to write out. -/
theorem temporaries_of_ofSource {source : String} {body : ModuleBody}
    (h : ModuleBody.ofSource source = .ok body) :
    ∃ tokens found spliced, scan source = .ok tokens ∧ statements tokens = .ok found ∧
      SplicedFrom source body tokens found spliced ∧
      (∀ s ∈ found, ∀ name ∈ s.form.locals, IsWritten tokens name) ∧
      ∀ before s after, found = before ++ s :: after → s.form.needsTemporary = true →
        (∀ before' s' after', found = before' ++ s' :: after' → s'.form.needsTemporary = true →
          temporary (nextTemporary before') = temporary (nextTemporary before) →
          before' = before) ∧
        (∃ value more, s.form.source? = some value ∧
          (s.form.copies = true →
            more = " " ++ copyLoop (temporary (nextTemporary before)) (skippedNames found)) ∧
          hoistedLines found = linesBefore found before ++
            (declaration (nextTemporary before) value ++ more) ::
              linesBehind found before after) ∧
        ((∀ u ∈ found, temporary (nextTemporary before) ∉ u.form.locals) →
          ∀ text ∈ otherTexts found before after,
            Omits (temporary (nextTemporary before)) 0 0 text) := by
  have hsource := h
  unfold ModuleBody.ofSource at h
  obtain ⟨tokens, htokens, h⟩ := bind_eq_ok.1 h
  obtain ⟨found, hfound, -⟩ := bind_eq_ok.1 h
  obtain ⟨body', spliced, hsource', hspliced⟩ := exists_splicedFrom htokens hfound
  obtain rfl := Except.ok.inj (hsource.symm.trans hsource')
  refine ⟨tokens, found, spliced, htokens, hfound, hspliced,
    fun s hs => isWritten_of_statements hfound hs, ?_⟩
  intro before s after hsplit hs
  refine ⟨?_, hoistedLines_of_needsTemporary hsplit hs, omits_otherTexts htokens hfound hsplit⟩
  intro before' s' after' hsplit' hs' hname
  exact eq_of_temporary_eq (hsplit.symm.trans hsplit') hs hs' hname

/-- A script with two statements that need variables, and with exports of its own. -/
def heldSource : String :=
  "import d, \x7b a \x7d from './a.js';\nexport * from './b.js';\nexport \x7b a as c \x7d;\n" ++
    "export let e = d;\n"

theorem temporaries_heldSource : ∃ body found before star after,
    ModuleBody.ofSource heldSource = .ok body ∧ statements (tokensOf heldSource) = .ok found ∧
      found = before ++ star :: after ∧ star.form = .exportAllFrom "./b.js" ∧
      nextTemporary before = 1 ∧
      hoistedLines found = linesBefore found before ++
        [declaration 1 "./b.js" ++ (" " ++ copyLoop "__weld_import_1" (skippedNames found))] ∧
      otherTexts found before after =
        ["var __weld_import_0 = require(\"./a.js\"); var d = __weld_import_0.default; " ++
          "var a = __weld_import_0.a;", "", "", "", "", "\nexports.e = e;", "exports.c = a;"] ∧
      ∀ text ∈ otherTexts found before after, Omits "__weld_import_1" 0 0 text := by
  let found := statementsOf heldSource
  let star := found[1]?.getD default
  obtain ⟨hscan, hfound, hsplit, hstar, hcount, hbehind, hothers, hlocals⟩ :
      scan heldSource = .ok (tokensOf heldSource) ∧ statements (tokensOf heldSource) = .ok found ∧
        found = found.take 1 ++ star :: found.drop 2 ∧ star.form = .exportAllFrom "./b.js" ∧
        nextTemporary (found.take 1) = 1 ∧ linesBehind found (found.take 1) (found.drop 2) = [] ∧
        otherTexts found (found.take 1) (found.drop 2) =
          ["var __weld_import_0 = require(\"./a.js\"); var d = __weld_import_0.default; " ++
            "var a = __weld_import_0.a;", "", "", "", "", "\nexports.e = e;", "exports.c = a;"] ∧
        ∀ u ∈ found, temporary 1 ∉ u.form.locals := by
    decide +kernel
  obtain ⟨body, -, hbody, -⟩ := exists_splicedFrom hscan hfound
  obtain ⟨tokens, found', -, hscan', hfound', -, -, htemporaries⟩ := temporaries_of_ofSource hbody
  obtain rfl := Except.ok.inj (hscan.symm.trans hscan')
  obtain rfl := Except.ok.inj (hfound.symm.trans hfound')
  have hneeds : star.form.needsTemporary = true := by rw [hstar]; rfl
  obtain ⟨-, ⟨value, more, hvalue, hmore, hlines⟩, homits⟩ := htemporaries _ _ _ hsplit hneeds
  rw [hstar] at hvalue hmore
  obtain rfl := Option.some.inj hvalue
  obtain rfl := hmore rfl
  rw [hcount, hbehind] at hlines
  rw [hcount] at homits
  exact ⟨body, found, _, star, _, hbody, hfound, hsplit, hstar, hcount, hlines, hothers,
    homits hlocals⟩

/-- A script that writes the name of a variable that holds a module. -/
def clashingSource : String := "import \x7b a \x7d from './a.js';\nvar __weld_import_0 = a;\n"

/-- The variable of the import and the one of the script have the same name. -/
theorem clashing_temporary : ∃ body held, ModuleBody.ofSource clashingSource = .ok body ∧
    statements (tokensOf clashingSource) = .ok [held] ∧ held.form.needsTemporary = true ∧
    (∃ t ∈ tokensOf clashingSource, t.kind = .name ∧ t.text = temporary (nextTemporary [])) ∧
    body.code = "var __weld_import_0 = require(\"./a.js\"); var a = __weld_import_0.a;\n" ++
      "\nvar __weld_import_0 = a;\n" := by
  refine ⟨(ModuleBody.ofSource clashingSource).toOption.getD default,
    (statementsOf clashingSource)[0]?.getD default, ?_⟩
  decide +kernel

end ModuleBundler.Script
