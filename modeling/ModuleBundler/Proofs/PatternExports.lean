import ModuleBundler.Proofs.Declarators
import ModuleBundler.Proofs.Patterns

/-
  Exported patterns. The declaration of a pattern is followed by the assignments of the names that
  are found in it (`assigns_of_pattern`). These are the names that it binds exactly if no computed
  key lets a name through (`Pattern.found_eq_bound_iff`), and the key of `{ [key]: value }` does
  (`assigned_key`).
-/

namespace ModuleBundler.Script

variable {d : Nat} {first keyword t : Token} {ts us rest front after : List Token} {c' : Cursor}
  {found : List Statement} {s : Statement}

/-! ## Computed keys -/

/-- The expression of a computed key. -/
def Key.computed? : Key → Option Operand
  | .computed value => some value
  | _ => none

mutual

/-- The expressions of the computed keys of a pattern, in order. -/
def Pattern.computedKeys : Pattern → List Operand
  | .name _ => []
  | .group _ items => items.computedKeys

def Items.computedKeys : Items → List Operand
  | .last item => item.computedKeys
  | .more item others => item.computedKeys ++ others.computedKeys

def Item.computedKeys : Item → List Operand
  | .hole => []
  | .element target _ => target.computedKeys
  | .property key target _ => key.computed?.toList ++ target.computedKeys
  | .rest target => target.computedKeys

end

theorem Key.namesWith_eq (key : Key) (f : Operand → List String) :
    key.namesWith f = key.computed?.toList.flatMap f := by
  cases key <;> simp [Key.namesWith, Key.computed?]

mutual

/-- The names of computed keys come on top of the bound ones. -/
theorem Pattern.length_namesWith (f : Operand → List String) : (p : Pattern) →
    (p.namesWith f).length = (p.namesWith fun _ => []).length + (p.computedKeys.flatMap f).length
  | .name text => by simp [Pattern.namesWith, Pattern.computedKeys]
  | .group kind items => by
    rw [Pattern.namesWith, Pattern.namesWith, Pattern.computedKeys]
    exact items.length_namesWith f

theorem Items.length_namesWith (f : Operand → List String) : (items : Items) →
    (items.namesWith f).length =
      (items.namesWith fun _ => []).length + (items.computedKeys.flatMap f).length
  | .last item => by
    rw [Items.namesWith, Items.namesWith, Items.computedKeys]
    exact item.length_namesWith f
  | .more item others => by
    have hitem := item.length_namesWith f
    have hothers := others.length_namesWith f
    simp only [Items.namesWith, Items.computedKeys, List.flatMap_append, List.length_append]
    omega

theorem Item.length_namesWith (f : Operand → List String) : (item : Item) →
    (item.namesWith f).length =
      (item.namesWith fun _ => []).length + (item.computedKeys.flatMap f).length
  | .hole => by simp [Item.namesWith, Item.computedKeys]
  | .element target default? => by
    rw [Item.namesWith, Item.namesWith, Item.computedKeys]
    exact target.length_namesWith f
  | .property key target default? => by
    have htarget := target.length_namesWith f
    have hkey : (key.namesWith fun _ => []).length = 0 := by cases key <;> rfl
    simp only [Item.namesWith, Item.computedKeys, List.flatMap_append, List.length_append,
      key.namesWith_eq f, hkey]
    omega
  | .rest target => by
    rw [Item.namesWith, Item.namesWith, Item.computedKeys]
    exact target.length_namesWith f

end

mutual

theorem Pattern.namesWith_of_silent {f : Operand → List String} : (p : Pattern) →
    (∀ value ∈ p.computedKeys, f value = []) → p.namesWith f = p.namesWith fun _ => []
  | .name text, _ => by rw [Pattern.namesWith, Pattern.namesWith]
  | .group kind items, h => by
    rw [Pattern.computedKeys] at h
    rw [Pattern.namesWith, Pattern.namesWith]
    exact items.namesWith_of_silent h

theorem Items.namesWith_of_silent {f : Operand → List String} : (items : Items) →
    (∀ value ∈ items.computedKeys, f value = []) → items.namesWith f = items.namesWith fun _ => []
  | .last item, h => by
    rw [Items.computedKeys] at h
    rw [Items.namesWith, Items.namesWith]
    exact item.namesWith_of_silent h
  | .more item others, h => by
    rw [Items.computedKeys, List.forall_mem_append] at h
    rw [Items.namesWith, Items.namesWith, item.namesWith_of_silent h.1,
      others.namesWith_of_silent h.2]

theorem Item.namesWith_of_silent {f : Operand → List String} : (item : Item) →
    (∀ value ∈ item.computedKeys, f value = []) → item.namesWith f = item.namesWith fun _ => []
  | .hole, _ => by rw [Item.namesWith, Item.namesWith]
  | .element target default?, h => by
    rw [Item.computedKeys] at h
    rw [Item.namesWith, Item.namesWith]
    exact target.namesWith_of_silent h
  | .property key target default?, h => by
    rw [Item.computedKeys, List.forall_mem_append] at h
    rw [Item.namesWith, Item.namesWith, target.namesWith_of_silent h.2]
    cases key with
    | computed value => rw [Key.namesWith, Key.namesWith, h.1 value (by simp [Key.computed?])]
    | _ => rfl
  | .rest target, h => by
    rw [Item.computedKeys] at h
    rw [Item.namesWith, Item.namesWith]
    exact target.namesWith_of_silent h

end

/-- The names that are found are those that the pattern binds exactly if no computed key lets one
through. -/
theorem Pattern.found_eq_bound_iff (p : Pattern) :
    p.found = p.bound ↔ ∀ value ∈ p.computedKeys, value.exposed = [] := by
  refine ⟨fun heq => ?_, fun h => p.namesWith_of_silent h⟩
  have hlength := p.length_namesWith Operand.exposed
  have hfound : (p.namesWith Operand.exposed).length = (p.namesWith fun _ => []).length :=
    congrArg List.length heq
  have hnone : p.computedKeys.flatMap Operand.exposed = [] :=
    List.length_eq_zero_iff.1 (by omega)
  exact List.flatMap_eq_nil_iff.1 hnone

/-! ## Reading a declaration -/

/-- The value of a declaration has no comma at the depth where it stands. -/
theorem Operand.not_comma (value : Operand) (hwords : ts.map Token.word = value.words)
    (hplaced : Placed d ts) : ∀ t ∈ ts, ¬ (t.depth = d ∧ t.isPunctuator "," = true) := by
  rintro t ht ⟨hdepth, hcomma⟩
  obtain ⟨front, back, rfl⟩ := List.append_of_mem ht
  have hmark : t.word = mark "," := by
    simpa [Token.isPunctuator, Token.word, mark] using hcomma
  rw [List.map_append, List.map_cons, hmark] at hwords
  have hnest := value.balanced
  rw [← hwords, IsBalanced, nesting_append, Option.bind_eq_some_iff] at hnest
  obtain ⟨stack, hstack, -⟩ := hnest
  have hpast : (front.map Token.word).foldl depthPast d = d + stack.length :=
    depthPast_of_nesting hstack d
  have hplace := (placed_cons.1 (placed_append.1 hplaced).2).1
  rw [hmark, placeOf_of_not_template (by decide) (by decide), hpast, hdepth] at hplace
  obtain rfl : stack = [] := List.length_eq_zero_iff.1 (by omega)
  exact value.not_isBalanced_of_comma hwords.symm hstack

/-- A declaration of a pattern goes on behind it with the names that are found in it. -/
theorem declarators_of_pattern (last : Token) (p : Pattern) (hwords : ts.map Token.word = p.words)
    (hplaced : Placed 0 (ts ++ rest)) :
    ∃ last', declarators true true [] ⟨last, ts ++ rest⟩ =
      declarators false false p.found ⟨last', rest⟩ := by
  cases p with
  | name text =>
    rw [Pattern.words] at hwords
    obtain ⟨t, nothing, rfl, ht, hnothing⟩ := List.map_eq_cons_iff.1 hwords
    obtain rfl := List.map_eq_nil_iff.1 hnothing
    obtain ⟨hkind, rfl⟩ := Prod.mk.inj ht
    exact ⟨t, by rw [List.singleton_append, declarators_name hkind, Pattern.found,
      Pattern.namesWith, List.nil_append]⟩
  | group kind items =>
    rw [Pattern.words] at hwords
    obtain ⟨bracket, hpair⟩ := kind.isPair
    obtain ⟨opener, us, closer, rfl, hopener, hus, hcloser⟩ := exists_enclosed hwords
    rw [List.cons_append, List.append_assoc, List.singleton_append] at hplaced ⊢
    have hbalanced : IsBalanced (us.map Token.word) := hus ▸ items.isBalanced
    obtain ⟨-, -, hinside, -, -⟩ :=
      Placed.enclosed (hopener ▸ hcloser ▸ hpair) hplaced hbalanced
    have hopens : opener.isPunctuator "\x7b" = true ∨ opener.isPunctuator "[" = true := by
      rw [isPunctuator_of_word hopener, isPunctuator_of_word hopener]
      cases kind <;> decide
    have hclose : matchingClose opener (us ++ closer :: rest) = .ok (us, ⟨closer, rest⟩) :=
      hplaced.matchingClose_eq (hopener ▸ hcloser ▸ hpair) hbalanced
    have hprevious : opener.isPunctuator "." = false := by
      rw [isPunctuator_of_word hopener]
      cases kind <;> decide
    have hnames : patternNames opener none (us ++ []) = _ :=
      items.patternNames_eq hus (by rwa [List.append_nil]) hprevious (by rintro t ⟨⟩)
    rw [List.append_nil, patternNames, List.append_nil] at hnames
    exact ⟨closer, by rw [declarators_pattern hopens hclose, hnames, Pattern.found,
      Pattern.namesWith, List.nil_append]⟩

/-! ## Exported declarations of patterns -/

/-- An exported declaration of a pattern, with its value and a semicolon at its end. -/
structure PatternExport where
  keyword : String
  isKeyword : keyword ∈ variableKeywords := by decide
  pattern : Pattern
  value : Operand

def PatternExport.words (e : PatternExport) : List Word :=
  (.name, "export") :: (.name, e.keyword) ::
    (e.pattern.words ++ mark "=" :: (e.value.words ++ [mark ";"]))

/-- Whether a statement takes away what stands before its declaration, and puts the assignments of
names behind it. -/
def Statement.Assigns (s : Statement) (declaration : Token) (names : List String) : Prop :=
  ∃ textEnd terminator, terminator ∈ ["", ";"] ∧
    s.edits = [⟨s.start, declaration.start.offset, ""⟩,
      ⟨textEnd, textEnd, terminator ++ "\n" ++
        " ".intercalate (names.map fun name => assignment name name)⟩]

theorem assigns_exportVariables (names : List String) (textEnd start : Nat) (terminated : Bool) :
    Statement.Assigns ⟨.exportVariables names textEnd terminated, start, t.start.offset⟩ t names :=
  ⟨textEnd, if terminated then "" else ";", by cases terminated <;> decide, rfl⟩

theorem exportStatement_of_pattern (e : PatternExport)
    (hwords : (first :: ts).map Token.word = e.words)
    (hplaced : Placed 0 (first :: (ts ++ after))) :
    ∃ declaration us, ts = declaration :: us ∧ ∃ textEnd terminated c',
      exportStatement first ⟨first, ts ++ after⟩ =
        if e.pattern.found.isEmpty then .error (declaration.start.fault .declaresNothing)
        else .ok (⟨.exportVariables e.pattern.found textEnd terminated, first.start.offset,
          declaration.start.offset⟩, c') := by
  obtain ⟨hfirst, hwords⟩ := List.cons_eq_cons.1 hwords
  obtain ⟨keyword, ts, rfl, hkeyword, hwords⟩ := List.map_eq_cons_iff.1 hwords
  obtain ⟨ps, ts, rfl, hps, hwords⟩ := List.map_eq_append_iff.1 hwords
  obtain ⟨equals, ts, rfl, hequals, hwords⟩ := List.map_eq_cons_iff.1 hwords
  obtain ⟨vs, ts, rfl, hvs, hwords⟩ := List.map_eq_append_iff.1 hwords
  obtain ⟨semicolon, nothing, rfl, hsemicolon, hnothing⟩ := List.map_eq_cons_iff.1 hwords
  obtain rfl := List.map_eq_nil_iff.1 hnothing
  have hplain (text : String) : depthPast 0 (.name, text) = 0 :=
    depthPast_of_plain (by simp [closedBy]) (by simp [openedBy])
  simp only [List.append_assoc, List.cons_append, List.nil_append] at hplaced ⊢
  have hbehind := (placed_cons.1 hplaced).2
  rw [hfirst, hplain] at hbehind
  replace hbehind := (placed_cons.1 hbehind).2
  rw [hkeyword, hplain] at hbehind
  have hpBalanced : IsBalanced (ps.map Token.word) := hps ▸ e.pattern.isBalanced
  obtain ⟨-, hvalue⟩ := hbehind.of_append hpBalanced
  replace hvalue := (placed_cons.1 hvalue).2
  rw [hequals, depthPast_of_plain (by decide) (by decide)] at hvalue
  have hvBalanced : IsBalanced (vs.map Token.word) := hvs ▸ e.value.balanced
  obtain ⟨hvalue, hend⟩ := hvalue.of_append hvBalanced
  have hdepth : semicolon.depth = 0 := by
    rw [(placed_cons.1 hend).1, hsemicolon]
    decide
  have hnot : ∀ t ∈ equals :: vs, ¬ (t.depth = 0 ∧ t.isPunctuator "," = true) := by
    refine List.forall_mem_cons.2 ⟨?_, e.value.not_comma hvs hvalue⟩
    rw [isPunctuator_of_word hequals]
    exact fun hcomma => absurd hcomma.2 (by decide)
  obtain ⟨last, hpattern⟩ := declarators_of_pattern keyword e.pattern hps hbehind
  obtain ⟨c', hread⟩ : ∃ c', declarators false false e.pattern.found
      ⟨last, equals :: (vs ++ semicolon :: after)⟩ = .ok (e.pattern.found, c') :=
    exists_declarators (List.cons_append ..).symm hnot hdepth
      (by rw [isPunctuator_of_word hsemicolon]; rfl)
  have hisKeyword : keyword.text ∈ variableKeywords := (Prod.mk.inj hkeyword).2 ▸ e.isKeyword
  exact ⟨keyword, _, rfl, _, _, c',
    exportStatement_of_declarators hisKeyword (hpattern.trans hread)⟩

/-- In every script, the export of a pattern is followed by the assignments of the names that are
found in the pattern, and it is an error to find none. These are the bound names, in order, exactly
if no computed key lets a name through. -/
theorem assigns_of_pattern (e : PatternExport) {source : String}
    (h : scan source = .ok (front ++ first :: (ts ++ after)))
    (hwords : (first :: ts).map Token.word = e.words) (htop : first.depth = 0) :
    ∃ declaration us, ts = declaration :: us ∧
      (e.pattern.found = [] → exportStatement first ⟨first, ts ++ after⟩ =
        .error (declaration.start.fault .declaresNothing)) ∧
      (e.pattern.found ≠ [] → ∃ s c', exportStatement first ⟨first, ts ++ after⟩ = .ok (s, c')) ∧
      (∀ found, statements (front ++ first :: (ts ++ after)) = .ok found →
        ∀ s ∈ found, s.start = first.start.offset → s.Assigns declaration e.pattern.found) ∧
      (e.pattern.found = e.pattern.bound ↔
        ∀ value ∈ e.pattern.computedKeys, value.exposed = []) := by
  obtain ⟨hkind, htext⟩ := Prod.mk.inj (List.cons_eq_cons.1 hwords).1
  have hplaced : Placed 0 (first :: (ts ++ after)) := htop ▸ (placed_of_scan h).from_name hkind
  obtain ⟨declaration, us, hts, textEnd, terminated, c', hread⟩ :=
    exportStatement_of_pattern e hwords hplaced
  refine ⟨declaration, us, hts, ?_, ?_, ?_, e.pattern.found_eq_bound_iff⟩
  · intro hnone
    rw [hread, hnone]
    rfl
  · intro hsome
    rw [List.isEmpty_eq_false_iff.2 hsome] at hread
    exact ⟨_, _, hread⟩
  · intro found hfound s hs hstart
    have hname : first.isName "export" = true := by simp [Token.isName, hkind, htext]
    obtain ⟨c'', hs⟩ :=
      exportStatement_of_mem (laidOut_of_scan h).ordered hfound hs rfl hname hstart
    rw [hread] at hs
    split at hs
    · cases hs
    · obtain ⟨rfl, -⟩ := Prod.mk.inj (Except.ok.inj hs)
      exact assigns_exportVariables ..

/-- An export with default values, keys of several kinds, a hole and items for the rest. -/
def patternSource : String :=
  "export const \x7b a = f(1, [b]), 'k': c, ['k' + 1]: [, d = \x7b x: 1 \x7d, ...e], n: g, ...h " ++
    "\x7d = o;\n"

/-- The value that a single name has. -/
def Operand.name (text : String) : Operand where
  words := [(.name, text)]
  balanced := isBalanced_name text
  undivided := by
    intro i hi
    obtain rfl : i = 0 := by simpa using hi
    simp [mark]

/-- What `patternSource` exports. -/
def patternExport : PatternExport where
  keyword := "const"
  pattern := .group .object
    (.more (.element (.name "a") (some ⟨[(.name, "f"), mark "(", (.number, "1"), mark ",", mark "[",
        (.name, "b"), mark "]", mark ")"], by decide, by decide⟩))
    (.more (.property (.literal [(.string, "'k'")] (by simp [IsLiteralWord])) (.name "c") none)
    (.more (.property
      (.computed ⟨[(.string, "'k'"), mark "+", (.number, "1")], by decide, by decide⟩)
      (.group .array
        (.more .hole
        (.more (.element (.name "d") (some ⟨[mark "\x7b", (.name, "x"), mark ":", (.number, "1"),
          mark "\x7d"], by decide, by decide⟩))
        (.last (.rest (.name "e")))))) none)
    (.more (.property (.name "n") (.name "g") none)
    (.last (.rest (.name "h")))))))
  value := .name "o"

theorem assigns_patternSource : ∃ tokens declaration s, scan patternSource = .ok tokens ∧
    statements tokens = .ok [s] ∧ s.Assigns declaration ["a", "c", "d", "e", "g", "h"] := by
  let first := (tokensOf patternSource)[0]?.getD default
  let others := (tokensOf patternSource).tail
  let s := (statementsOf patternSource)[0]?.getD default
  obtain ⟨hscan, hwords, htop, hfound, hstart⟩ :
      scan patternSource = .ok ([] ++ first :: (others ++ [])) ∧
        (first :: others).map Token.word = patternExport.words ∧ first.depth = 0 ∧
        statements ([] ++ first :: (others ++ [])) = .ok [s] ∧ s.start = first.start.offset := by
    decide +kernel
  obtain ⟨declaration, us, -, -, -, hassigns, -⟩ :=
    assigns_of_pattern patternExport hscan hwords htop
  have hnames : patternExport.pattern.found = ["a", "c", "d", "e", "g", "h"] := by decide +kernel
  exact ⟨_, declaration, s, hscan, hfound,
    hnames ▸ hassigns _ hfound s (List.mem_singleton_self s) hstart⟩

/-- A script that exports a pattern with a name for a computed key. -/
def keySource : String := "export const \x7b [key]: value \x7d = o;\n"

/-- What `keySource` exports. -/
def keyExport : PatternExport where
  keyword := "const"
  pattern := .group .object (.last (.property (.computed (.name "key")) (.name "value") none))
  value := .name "o"

/-- The name in the key is assigned to an export, though the pattern does not bind it. -/
theorem assigned_key : ∃ first ts declaration s, scan keySource = .ok (first :: ts) ∧
    (first :: ts).map Token.word = keyExport.words ∧ first.depth = 0 ∧
    statements (first :: ts) = .ok [s] ∧ keyExport.pattern.bound = ["value"] ∧
    s.Assigns declaration ["key", "value"] ∧
    ∀ declaration', ¬ s.Assigns declaration' keyExport.pattern.bound := by
  let first := (tokensOf keySource)[0]?.getD default
  let declaration := (tokensOf keySource)[1]?.getD default
  let s := (statementsOf keySource)[0]?.getD default
  obtain ⟨hscan, hwords, htop, hfound, hbound, hedits⟩ :
      scan keySource = .ok (first :: (tokensOf keySource).tail) ∧
        (first :: (tokensOf keySource).tail).map Token.word = keyExport.words ∧ first.depth = 0 ∧
        statements (first :: (tokensOf keySource).tail) = .ok [s] ∧
        keyExport.pattern.bound = ["value"] ∧
        s.edits = [⟨s.start, declaration.start.offset, ""⟩,
          ⟨34, 34, "\nexports.key = key; exports.value = value;"⟩] := by
    decide +kernel
  refine ⟨first, _, declaration, s, hscan, hwords, htop, hfound, hbound,
    ⟨34, "", by decide, hedits⟩, ?_⟩
  rintro declaration' ⟨textEnd, terminator, hterminator, hvalue⟩
  rw [hbound, hedits] at hvalue
  have htext : "\nexports.key = key; exports.value = value;" =
      terminator ++ "\n" ++ " ".intercalate (["value"].map fun name => assignment name name) := by
    injection hvalue with _ htail
    injection htail with hedit
    exact congrArg Edit.text hedit
  simp only [List.mem_cons, List.not_mem_nil, or_false] at hterminator
  rcases hterminator with rfl | rfl <;> revert htext <;> decide +kernel

end ModuleBundler.Script
