import Mathlib.Data.List.Forall2
import ModuleBundler.Proofs.Requests

/-
  The lines that ask for other modules. There is one for each request of the statements, in their
  order (`areMade_requireLines`). It calls `require` with the source. The variables that hold
  modules are numbered from zero, and a copy of all exports stands on the line of its own variable
  and on no other. These lines follow those of exported functions at the front of the module
  (`requestsMade_of_ofSource`). They make all requests of the script if no statement is swallowed;
  an import on the line after an exported `a++` is requested, but no line asks for it
  (`unrequested_import`).
-/

namespace ModuleBundler.Script

variable {form : Form} {request : Request} {n : Nat} {line skipped : String}
  {found : List Statement} {tokens : List Token} {values : List String}

/-! ## Lines without copies -/

/-- Whether a text ends in another way than a copy of all exports, whatever stands before it. -/
def EndsPlainly (text : String) : Prop :=
  ∀ front more temporary skipped, front ++ text ≠ more ++ copyLoop temporary skipped

theorem EndsPlainly.prepend {text : String} (h : EndsPlainly text) (before : String) :
    EndsPlainly (before ++ text) := by
  intro front more temporary skipped
  rw [← String.append_assoc]
  exact h (front ++ before) more temporary skipped

/-- The characters that a copy of all exports ends with. -/
def copyEnd : List Char := "[key]; \x7d \x7d); \x7d);".toList

theorem copyEnd_suffix (temporary skipped : String) :
    copyEnd <:+ (copyLoop temporary skipped).toList := by
  unfold copyLoop
  simp only [← String.append_assoc, toString, String.toList_append]
  exact List.suffix_append _ _

theorem endsPlainly_of_suffix {text : String} (tail : List Char) (h : tail <:+ text.toList)
    (hlength : tail.length ≤ copyEnd.length) (hother : ¬ tail <:+ copyEnd) :
    EndsPlainly text := by
  intro front more temporary skipped heq
  have hcopy : copyEnd <:+ (more ++ copyLoop temporary skipped).toList := by
    rw [String.toList_append]
    exact List.suffix_append_of_suffix (copyEnd_suffix temporary skipped)
  have htail : tail <:+ (more ++ copyLoop temporary skipped).toList := by
    rw [← heq, String.toList_append]
    exact List.suffix_append_of_suffix h
  exact hother (List.suffix_of_suffix_length_le htail hcopy hlength)

theorem quote_suffix (value : String) (tail : List Char) :
    '"' :: tail <:+ (quote value).toList ++ tail := by
  rw [quote, String.toList_ofList, List.cons_append, List.append_assoc]
  exact (List.suffix_append _ _).trans (List.suffix_cons _ _)

theorem endsPlainly_requireCall (source : String) : EndsPlainly (requireCall source ++ ";") := by
  refine endsPlainly_of_suffix ['"', ')', ';'] ?_ (by decide) (by decide)
  unfold requireCall
  simp only [toString, String.toList_append, List.append_assoc]
  exact List.suffix_append_of_suffix (quote_suffix source [')', ';'])

theorem ne_of_mem_plainName {name : String} {c : Char} (h : isPlainName name = true)
    (hc : c ∈ name.toList) : c ≠ ')' := by
  unfold isPlainName at h
  cases hname : name.toList with
  | nil => simp [hname] at hc
  | cons d ds =>
    rw [hname] at h hc
    rw [Bool.and_eq_true, List.all_eq_true] at h
    rintro rfl
    rcases List.mem_cons.1 hc with rfl | hc
    · exact absurd h.1 (by decide)
    · exact absurd (h.2 _ hc) (by decide)

theorem endsPlainly_name {name : String} (h : isPlainName name = true) :
    EndsPlainly (name ++ ";") := by
  rcases List.eq_nil_or_concat name.toList with hnil | ⟨init, last, hname⟩
  · simp [isPlainName, hnil] at h
  · have hlast := ne_of_mem_plainName h (c := last) (by simp [hname])
    have hlength : 2 ≤ copyEnd.length := by decide
    have hend : [')', ';'] <:+ copyEnd := by decide
    refine endsPlainly_of_suffix [last, ';'] ⟨init, by simp [hname]⟩ hlength ?_
    intro hsuffix
    have heq := (List.suffix_of_suffix_length_le hsuffix hend (Nat.le_refl 2)).eq_of_length rfl
    exact hlast (List.cons_eq_cons.1 heq).1

theorem endsPlainly_member (name : String) : EndsPlainly (member name ++ ";") := by
  unfold member
  split
  · next hplain =>
    rw [String.append_assoc]
    exact (endsPlainly_name hplain).prepend "."
  · refine endsPlainly_of_suffix [']', ';'] ?_ (by decide) (by decide)
    rw [String.append_assoc, String.toList_append]
    exact List.suffix_append _ _

theorem endsPlainly_forwarding (exported value : String) :
    EndsPlainly (forwarding exported value) := by
  refine endsPlainly_of_suffix "; \x7d \x7d);".toList ?_ (by decide) (by decide)
  unfold forwarding
  simp only [← String.append_assoc, toString, String.toList_append]
  exact List.suffix_append _ _

theorem endsPlainly_join {text : String} {texts : List String}
    (h : ∀ t ∈ text :: texts, EndsPlainly t) : EndsPlainly (String.join (text :: texts)) := by
  induction texts generalizing text with
  | nil =>
    have htext : String.join [text] = text := by simp
    rw [htext]
    exact h text List.mem_cons_self
  | cons text' texts ih =>
    rw [String.join_cons]
    exact (ih (List.forall_mem_cons.1 h).2).prepend text

/-- The declaration of a variable of its own that holds a module. -/
def declaration (n : Nat) (source : String) : String :=
  s!"var {temporary n} = {requireCall source};"

theorem endsPlainly_declaration (n : Nat) (source : String) :
    EndsPlainly (declaration n source) := by
  unfold declaration
  simp only [String.append_assoc, toString]
  exact (((endsPlainly_requireCall source).prepend " = ").prepend _).prepend "var "

theorem endsPlainly_importLine (n : Nat) (clause : ImportClause) (source : String) :
    EndsPlainly (importLine (temporary n) clause source) := by
  have hcall := endsPlainly_requireCall source
  have hdefault : EndsPlainly ".default;" :=
    endsPlainly_of_suffix ".default;".toList List.suffix_rfl (by decide) (by decide)
  unfold importLine
  split
  · exact hcall
  · simp only [String.append_assoc, toString]
    exact ((hcall.prepend " = ").prepend _).prepend "var "
  · simp only [String.append_assoc, toString]
    exact (((hdefault.prepend _).prepend " = ").prepend _).prepend "var "
  · refine endsPlainly_join ?_
    intro text htext
    rw [List.mem_cons, List.mem_append, List.mem_append, List.mem_map, List.mem_map,
      List.mem_map] at htext
    rcases htext with rfl | (⟨name, -, rfl⟩ | ⟨name, -, rfl⟩) | ⟨item, -, rfl⟩
    · exact endsPlainly_declaration n source
    · simp only [String.append_assoc, toString]
      exact (((hdefault.prepend _).prepend " = ").prepend name).prepend " var "
    · simp only [String.append_assoc, toString]
      have hname := endsPlainly_name (isPlainName_temporary n)
      exact ((hname.prepend " = ").prepend name).prepend " var "
    · simp only [String.append_assoc, toString]
      have hmember := (endsPlainly_member item.name).prepend (temporary n)
      exact ((hmember.prepend " = ").prepend item.newName).prepend " var "

/-- Only a copy of all exports ends like one. -/
theorem Form.endsPlainly (h : form.copies = false)
    (hline : form.requireLine? skipped (temporary n) = some line) : EndsPlainly line := by
  cases form with
  | bareImport source =>
    obtain rfl := Option.some.inj hline
    exact endsPlainly_requireCall source
  | importFrom clause source =>
    obtain rfl := Option.some.inj hline
    exact endsPlainly_importLine n clause source
  | exportFrom items source =>
    obtain rfl := Option.some.inj hline
    refine endsPlainly_join (List.forall_mem_cons.2 ⟨endsPlainly_declaration n source, ?_⟩)
    intro text htext
    obtain ⟨item, -, rfl⟩ := List.mem_map.1 htext
    exact (endsPlainly_forwarding _ _).prepend " "
  | exportAllAs name source =>
    obtain rfl := Option.some.inj hline
    unfold assignment
    simp only [String.append_assoc, toString]
    exact (((endsPlainly_requireCall source).prepend " = ").prepend _).prepend "exports"
  | exportAllFrom source => cases h
  | _ => cases hline

/-! ## One line -/

/-- Whether a line makes a request, with a variable of its own if it has a number: it calls
`require` once, and ends with a copy of all exports exactly if they are requested. The copy goes
over the variable that the line declares. -/
structure Request.IsMade (skipped : String) (request : Request) (number? : Option Nat)
    (line : String) : Prop where
  calls : ∃ literal, requiredLiterals line = .ok [literal] ∧ stringValue literal = request.source
  declares : ∀ n ∈ number?, ∃ more, line = declaration n request.source ++ more
  copies : request.copies = true → ∃ n ∈ number?,
    line = declaration n request.source ++ " " ++ copyLoop (temporary n) skipped
  plain : request.copies = false → ∀ more temporary skipped,
    line ≠ more ++ copyLoop temporary skipped

/-- The number of the variable that a form needs. -/
def Form.number? (form : Form) (n : Nat) : Option Nat :=
  if form.needsTemporary then some n else none

theorem exists_declaration_of_importLine {clause : ImportClause} {source : String}
    (h : (Form.importFrom clause source).needsTemporary = true) (n : Nat) :
    ∃ more, importLine (temporary n) clause source = declaration n source ++ more := by
  obtain ⟨default?, star?, named⟩ := clause
  unfold importLine
  dsimp only
  split
  · cases h
  · cases h
  · cases h
  · exact ⟨_, String.join_cons⟩

theorem Form.exists_declaration {source : String}
    (hline : form.requireLine? skipped (temporary n) = some line)
    (hsource : form.source? = some source) (h : form.needsTemporary = true) :
    ∃ more, line = declaration n source ++ more := by
  cases form with
  | importFrom clause s =>
    obtain rfl := Option.some.inj hline
    obtain rfl := Option.some.inj hsource
    exact exists_declaration_of_importLine h n
  | exportFrom items s =>
    obtain rfl := Option.some.inj hline
    obtain rfl := Option.some.inj hsource
    exact ⟨_, String.join_cons⟩
  | exportAllFrom s =>
    obtain rfl := Option.some.inj hline
    obtain rfl := Option.some.inj hsource
    exact ⟨" " ++ copyLoop (temporary n) skipped, by
      simp only [declaration, String.append_assoc, toString]
      rfl⟩
  | _ => cases h

theorem Form.line_of_copies {source : String} (h : form.copies = true)
    (hline : form.requireLine? skipped (temporary n) = some line)
    (hsource : form.source? = some source) : form.needsTemporary = true ∧
      line = declaration n source ++ " " ++ copyLoop (temporary n) skipped := by
  cases form with
  | exportAllFrom s =>
    obtain rfl := Option.some.inj hline
    obtain rfl := Option.some.inj hsource
    refine ⟨rfl, ?_⟩
    simp only [declaration, String.append_assoc, toString]
    rfl
  | _ => cases h

/-- The line of a statement makes its request. -/
theorem Form.isMade (hnamed : form.IsNamed)
    (hline : form.requireLine? (", ".intercalate (values.map quote)) (temporary n) = some line)
    (hrequest : form.request? = some request) :
    request.IsMade (", ".intercalate (values.map quote)) (form.number? n) line := by
  obtain ⟨source, hsource, rfl⟩ := Option.map_eq_some_iff.1 hrequest
  refine ⟨⟨_, form.requiredLiterals_requireLine hnamed hline hsource, stringValue_quote source⟩,
    ?_, ?_, ?_⟩
  · intro m hm
    obtain ⟨hneeds, hnumber⟩ := Option.ite_none_right_eq_some.1 hm
    obtain rfl := Option.some.inj hnumber
    exact form.exists_declaration hline hsource hneeds
  · intro hcopies
    obtain ⟨hneeds, heq⟩ := form.line_of_copies hcopies hline hsource
    exact ⟨n, if_pos hneeds, heq⟩
  · intro hplain more temporary skipped
    have hends := form.endsPlainly hplain hline "" more temporary skipped
    rwa [String.empty_append] at hends

/-! ## All lines -/

/-- Whether lines make the requests of statements one by one, with variables that are numbered from
`n` on. -/
def AreMade (skipped : String) (n : Nat) (requested : List Request) (lines : List String) : Prop :=
  ∃ (made : List (Option Nat × Request)) (k : Nat),
    made.map Prod.snd = requested ∧ made.filterMap Prod.fst = List.range' n k ∧
    List.Forall₂ (fun m line => m.2.IsMade skipped m.1 line) made lines

theorem Form.needsTemporary_of_source? (h : form.source? = none) : form.needsTemporary = false := by
  cases form <;> first | rfl | cases h

theorem areMade_requireLines (h : ∀ s ∈ found, s.form.IsNamed) (values : List String)
    (n : Nat) :
    AreMade (", ".intercalate (values.map quote)) n
      (found.filterMap fun s => s.form.request?)
      (requireLines (", ".intercalate (values.map quote)) n found) := by
  induction found generalizing n with
  | nil => exact ⟨[], 0, rfl, rfl, .nil⟩
  | cons s found ih =>
    obtain ⟨hs, hrest⟩ := List.forall_mem_cons.1 h
    rw [requireLines, filterMap_request?_cons]
    cases hsource : s.form.source? with
    | none =>
      rw [s.form.requireLine?_eq_none hsource, Form.needsTemporary_of_source? hsource,
        Form.request?, hsource]
      exact ih hrest n
    | some source =>
      obtain ⟨line, hline⟩ := s.form.exists_requireLine hsource
        (", ".intercalate (values.map quote)) (temporary n)
      have hrequest : s.form.request? = some ⟨source, s.form.copies⟩ := by
        rw [Form.request?, hsource]
        rfl
      have hmade := s.form.isMade hs hline hrequest
      rw [hline, hrequest]
      unfold Form.number? at hmade
      -- The next number is the one after the variable of this line, if it has one.
      split at hmade
      · next hneeds =>
        rw [if_pos hneeds]
        obtain ⟨made, k, hrequested, hnumbers, hmades⟩ := ih hrest (n + 1)
        refine ⟨(some n, ⟨source, s.form.copies⟩) :: made, k + 1, ?_, ?_, .cons hmade hmades⟩
        · simp [hrequested]
        · simp [hnumbers, List.range'_succ]
      · next hneeds =>
        rw [if_neg hneeds]
        obtain ⟨made, k, hrequested, hnumbers, hmades⟩ := ih hrest n
        refine ⟨(none, ⟨source, s.form.copies⟩) :: made, k, ?_, ?_, .cons hmade hmades⟩
        · simp [hrequested]
        · simp [hnumbers]

/-! ## The front of a module -/

/-- How a module asks for what its script requests, where `tokens` are the tokens and `found` the
statements of the script. -/
structure RequestsMade (tokens : List Token) (found : List Statement) (body : ModuleBody) :
    Prop where
  /-- The lines of exported functions come first, then those that ask for other modules. -/
  code : ∃ rest, body.code = joinLines (found.filterMap fun s => s.form.functionLine?) ++
    joinLines (requireLines (skippedNames found) 0 found) ++ rest
  functions : ∀ line ∈ found.filterMap fun s => s.form.functionLine?,
    requiredLiterals line = .ok []
  requires : AreMade (skippedNames found) 0 (found.filterMap fun s => s.form.request?)
    (requireLines (skippedNames found) 0 found)
  specifiers : body.specifiers =
    ((found.filterMap fun s => s.form.request?).map Request.source).eraseDups
  /-- Unless a statement is swallowed, these are the requests of the script. -/
  complete : NothingSwallowed (nesting [] (tokens.map Token.word) ≠ none) none tokens found →
    (found.filterMap fun s => s.form.request?) = requests none tokens

theorem map_source_request? (found : List Statement) :
    (found.filterMap fun s => s.form.request?).map Request.source =
      found.filterMap fun s => s.form.source? := by
  rw [List.map_filterMap]
  congr 1
  funext s
  rw [Form.request?, Option.map_map]
  exact Option.map_id'

theorem joinLines_append (lines lines' : List String) :
    joinLines (lines ++ lines') = joinLines lines ++ joinLines lines' := by
  rw [joinLines, List.map_append, String.join_append]
  rfl

/-- The tokens of a script nest if its brackets do. -/
theorem nests_of_scan {source : String} (h : scan source = .ok tokens)
    (hnested : nesting [] (tokens.map Token.word) ≠ none) : Nests tokens := by
  obtain ⟨stack, hstack⟩ := Option.ne_none_iff_exists'.1 hnested
  obtain ⟨_, rfl, hcounted⟩ := Scanner.run_counted h
  exact ⟨[], stack, hcounted, hstack⟩

/-- A script that becomes a module has one line for each request of its statements, in their order,
and these are all that the script requests if no statement is swallowed. -/
theorem requestsMade_of_ofSource {source : String} {body : ModuleBody}
    (h : ModuleBody.ofSource source = .ok body) :
    ∃ tokens found, scan source = .ok tokens ∧ statements tokens = .ok found ∧
      RequestsMade tokens found body := by
  unfold ModuleBody.ofSource at h
  obtain ⟨tokens, htokens, h⟩ := bind_eq_ok.1 h
  obtain ⟨found, hfound, h⟩ := bind_eq_ok.1 h
  cases h
  have hnamed := isNamed_of_statements htokens hfound
  refine ⟨tokens, found, htokens, hfound, ?_, ?_, ?_, ?_, ?_⟩
  · obtain ⟨rest, hcode⟩ := ModuleBody.code_ofStatements source found
    exact ⟨rest, by rw [hcode, hoistedLines, joinLines_append]⟩
  · intro line hline
    obtain ⟨s, hs, hline⟩ := List.mem_filterMap.1 hline
    exact s.form.requiredLiterals_functionLine (hnamed s hs) hline
  · exact areMade_requireLines hnamed _ 0
  · rw [map_source_request?]
    rfl
  · intro hnothing
    exact (requests_of_statementsAfter (laidOut_of_scan htokens).ordered (nests_of_scan htokens)
      hfound hnothing).symm

/-- A script that asks for two modules, one of them twice, between exports of its own. -/
def barrelSource : String :=
  "import \x7b from as x \x7d from './b.js';\nexport * from './a.js'\n" ++
    "export function f() \x7b\x7d\nexport let y = 1;\nimport './b.js'\n"

theorem requestsMade_barrelSource : ∃ body tokens found,
    ModuleBody.ofSource barrelSource = .ok body ∧ RequestsMade tokens found body ∧
      NothingSwallowed (nesting [] (tokens.map Token.word) ≠ none) none tokens found ∧
      requests none tokens = [⟨"./b.js", false⟩, ⟨"./a.js", true⟩, ⟨"./b.js", false⟩] ∧
      body.specifiers = ["./b.js", "./a.js"] := by
  obtain ⟨hscan, hstatements, hrequests⟩ :
      scan barrelSource = .ok (tokensOf barrelSource) ∧
        statements (tokensOf barrelSource) = .ok (statementsOf barrelSource) ∧
        requests none (tokensOf barrelSource) =
          [⟨"./b.js", false⟩, ⟨"./a.js", true⟩, ⟨"./b.js", false⟩] := by
    decide +kernel
  have hnothing : NothingSwallowed (nesting [] ((tokensOf barrelSource).map Token.word) ≠ none) none
      (tokensOf barrelSource) (statementsOf barrelSource) :=
    nothingSwallowed_of_text (laidOut_of_scan hscan).ordered (by decide +kernel)
  have hbody : ModuleBody.ofSource barrelSource =
      .ok (.ofStatements barrelSource (statementsOf barrelSource)) := by
    rw [ModuleBody.ofSource, hscan]
    exact congrArg (Except.map (ModuleBody.ofStatements barrelSource)) hstatements
  obtain ⟨tokens, found, htokens, hfound, hmade⟩ := requestsMade_of_ofSource hbody
  obtain rfl := Except.ok.inj (hscan.symm.trans htokens)
  obtain rfl := Except.ok.inj (hstatements.symm.trans hfound)
  refine ⟨_, _, _, hbody, hmade, hnothing, hrequests, ?_⟩
  rw [hmade.specifiers, hmade.complete hnothing, hrequests]
  decide

/-- The import on the line after the exported variable is requested, but no line asks for it. -/
theorem unrequested_import : ∃ tokens found body, scan incrementSource = .ok tokens ∧
    statements tokens = .ok found ∧ ModuleBody.ofSource incrementSource = .ok body ∧
    requests none tokens = [⟨"./b.js", false⟩] ∧
    requireLines (skippedNames found) 0 found = [] ∧ body.specifiers = [] := by
  refine ⟨tokensOf incrementSource, statementsOf incrementSource,
    .ofStatements incrementSource (statementsOf incrementSource), ?_⟩
  decide +kernel

end ModuleBundler.Script
