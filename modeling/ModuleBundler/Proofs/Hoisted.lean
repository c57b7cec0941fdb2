import ModuleBundler.Proofs.Scanning
import ModuleBundler.Script.ModuleBody

/-
  The calls of `require` in the lines that a module puts in front. Every such line scans. A line
  that exports a function calls nothing, and a line that asks for another module calls `require`
  once, with the quoted source of its statement (`Form.requiredLiterals_requireLine`). `Calls` is
  `Adds` with the words reduced to what is asked about them: the literals that `require` is called
  with. Whatever names a script uses, `require` among them, no other calls come up, as a name is
  never in front of a parenthesis in these lines.
-/

namespace ModuleBundler.Script

/-! ## Calls of `require` -/

/-- The word that is called. -/
def requireWord : Word := (.name, "require")

/-- The word that opens a call. -/
def openerWord : Word := (.punctuator, "(")

/-- The word that ends a call. -/
def closerWord : Word := (.punctuator, ")")

/-- The literal of a call of `require` at the front of words, if there is such a call. -/
def callLiteral? : List Word → Option String
  | name :: opener :: (.string, literal) :: closer :: _ =>
    if name == requireWord && opener == openerWord && closer == closerWord then some literal
    else none
  | _ => none

/-- The literals of all calls of `require` among words, in order. -/
def requireLiterals : List Word → List String
  | [] => []
  | w :: rest => (callLiteral? (w :: rest)).toList ++ requireLiterals rest

/-- The literals that a text calls `require` with, in order. -/
def requiredLiterals (text : String) : Except SyntaxError (List String) := do
  let tokens ← scan text
  return requireLiterals (tokens.map Token.word)

theorem requireLiterals_cons_of_ne {w : Word} (h : w ≠ requireWord) (rest : List Word) :
    requireLiterals (w :: rest) = requireLiterals rest := by
  have hnone : callLiteral? (w :: rest) = none := by
    unfold callLiteral?
    split
    · next heq =>
      obtain ⟨rfl, -⟩ := List.cons_eq_cons.1 heq
      rw [if_neg]
      intro hcall
      rw [Bool.and_eq_true, Bool.and_eq_true, beq_iff_eq] at hcall
      exact h hcall.1.1
    · rfl
  rw [requireLiterals, hnone]
  rfl

theorem requireLiterals_cons_of_next {w : Word} (h : w ≠ openerWord) (name : Word)
    (rest : List Word) : requireLiterals (name :: w :: rest) = requireLiterals (w :: rest) := by
  have hnone : callLiteral? (name :: w :: rest) = none := by
    unfold callLiteral?
    split
    · next heq =>
      obtain ⟨-, heq⟩ := List.cons_eq_cons.1 heq
      obtain ⟨rfl, -⟩ := List.cons_eq_cons.1 heq
      rw [if_neg]
      intro hcall
      rw [Bool.and_eq_true, Bool.and_eq_true, beq_iff_eq, beq_iff_eq] at hcall
      exact h hcall.1.2
    · rfl
  rw [requireLiterals, hnone]
  rfl

theorem requireLiterals_call (literal : String) (rest : List Word) :
    requireLiterals (requireWord :: openerWord :: (.string, literal) :: closerWord :: rest) =
      literal :: requireLiterals rest := by
  have hcall : callLiteral?
      (requireWord :: openerWord :: (.string, literal) :: closerWord :: rest) = some literal := rfl
  rw [requireLiterals, hcall, requireLiterals_cons_of_ne (by decide),
    requireLiterals_cons_of_ne (by rintro ⟨⟩), requireLiterals_cons_of_ne (by decide)]
  rfl

theorem requireLiterals_append_of_all {words : List Word}
    (h : words.all (· != requireWord) = true) (rest : List Word) :
    requireLiterals (words ++ rest) = requireLiterals rest := by
  induction words with
  | nil => rfl
  | cons w words ih =>
    rw [List.all_cons, Bool.and_eq_true, bne_iff_ne] at h
    rw [List.cons_append, requireLiterals_cons_of_ne h.1, ih h.2]

/-! ## Texts that call -/

/-- Whether a text puts calls of `require` with these literals, and no others, in front of those of
any text that follows it. -/
def Calls (d : Nat) (literals : List String) (d' : Nat) (text : String) : Prop :=
  ∃ words, Adds d words d' text ∧
    ∀ rest, requireLiterals (words ++ rest) = literals ++ requireLiterals rest

variable {d d' d'' : Nat} {literals literals' : List String} {text text' piece : String}

theorem Calls.append (h : Calls d literals d' text) (h' : Calls d' literals' d'' text') :
    Calls d (literals ++ literals') d'' (text ++ text') := by
  obtain ⟨words, hadds, hcalls⟩ := h
  obtain ⟨words', hadds', hcalls'⟩ := h'
  refine ⟨words ++ words', hadds.append hadds', ?_⟩
  intro rest
  rw [List.append_assoc, hcalls, hcalls', List.append_assoc]

theorem calls_empty (d : Nat) : Calls d [] d "" := ⟨[], adds_empty d, fun _ => rfl⟩

/-- A constant text in which `require` is not named. -/
theorem calls_piece (hwords : (pieceWords [] piece.toList).isSome = true)
    (hdepth : depthAfter d (wordsOf piece) = some d')
    (hquiet : (wordsOf piece).all (· != requireWord) = true) : Calls d [] d' piece :=
  ⟨wordsOf piece, adds_piece hwords hdepth, requireLiterals_append_of_all hquiet⟩

/-- Whether a constant text, in which `require` is not named, takes one depth to another. -/
def isQuiet (d d' : Nat) (piece : String) : Bool :=
  (pieceWords [] piece.toList).isSome && depthAfter d (wordsOf piece) == some d' &&
    (wordsOf piece).all (· != requireWord)

theorem isQuiet_iff : isQuiet d d' piece = true ↔ (pieceWords [] piece.toList).isSome = true ∧
    depthAfter d (wordsOf piece) = some d' ∧ (wordsOf piece).all (· != requireWord) = true := by
  rw [isQuiet, Bool.and_eq_true, Bool.and_eq_true, beq_iff_eq, and_assoc]

theorem calls_quiet (h : isQuiet d d' piece = true) : Calls d [] d' piece := by
  obtain ⟨hwords, hdepth, hquiet⟩ := isQuiet_iff.1 h
  exact calls_piece hwords hdepth hquiet

theorem calls_quote (d : Nat) (value : String) : Calls d [] d (quote value) := by
  refine ⟨_, adds_quote d value, ?_⟩
  intro rest
  exact requireLiterals_cons_of_ne (by rintro ⟨⟩) rest

theorem calls_requireCall (source : String) : Calls 0 [quote source] 0 (requireCall source) := by
  have hopens : Adds 0 (wordsOf "require(") 1 "require(" := adds_piece (by decide) (by decide)
  have hcloses : Adds 1 (wordsOf ")") 0 ")" := adds_piece (by decide) (by decide)
  have hadds := hopens.append ((adds_quote 1 source).append hcloses)
  have htext : requireCall source = "require(" ++ (quote source ++ ")") := by
    rw [← String.append_assoc]
    rfl
  rw [htext]
  refine ⟨_, hadds, ?_⟩
  intro rest
  exact requireLiterals_call (quote source) rest

/-- A name other than `require`, in front of a text that ends it. -/
theorem Calls.name {name : String} (hname : IsNameText name) (hother : name ≠ "require")
    (hends : endsName text = true) (h : Calls d literals d' text) :
    Calls d literals d' (name ++ text) := by
  obtain ⟨words, hadds, hcalls⟩ := h
  refine ⟨_, Adds.name hname hends hadds, ?_⟩
  intro rest
  rw [List.cons_append, requireLiterals_cons_of_ne, hcalls]
  intro heq
  exact hother (congrArg Prod.snd heq)

/-- Whether a constant text ends a name in front of it, and does not call it. -/
def endsUncalled (piece : String) : Bool :=
  endsName piece && (wordsOf piece).head?.any (· != openerWord)

theorem requireLiterals_name {words : List Word}
    (hhead : words.head?.any (· != openerWord) = true)
    (hquiet : words.all (· != requireWord) = true) (name : String) (rest : List Word) :
    requireLiterals ((.name, name) :: (words ++ rest)) = requireLiterals rest := by
  cases words with
  | nil => cases hhead
  | cons w words =>
    have hne : w ≠ openerWord := bne_iff_ne.1 hhead
    rw [List.cons_append, requireLiterals_cons_of_next hne, ← List.cons_append,
      requireLiterals_append_of_all hquiet]

/-- Any name, in front of a constant text. -/
theorem calls_name {name : String} (hname : IsNameText name) (hpiece : isQuiet d d' piece = true)
    (hends : endsUncalled piece = true) : Calls d [] d' (name ++ piece) := by
  obtain ⟨hwords, hdepth, hquiet⟩ := isQuiet_iff.1 hpiece
  obtain ⟨hends, hhead⟩ := Bool.and_eq_true_iff.1 hends
  refine ⟨_, Adds.name hname hends (adds_piece hwords hdepth), ?_⟩
  intro rest
  exact requireLiterals_name hhead hquiet name rest

/-- Access to a property, in front of a constant text. -/
theorem calls_member (name : String) (hpiece : isQuiet d d' piece = true)
    (hends : endsUncalled piece = true) : Calls d [] d' (member name ++ piece) := by
  unfold member
  split
  · next hplain =>
    obtain ⟨hwords, hdepth, hquiet⟩ := isQuiet_iff.1 hpiece
    obtain ⟨hends, hhead⟩ := Bool.and_eq_true_iff.1 hends
    rw [String.append_assoc]
    refine ⟨_, Adds.dot (isNameText_of_isPlainName hplain) hends (adds_piece hwords hdepth), ?_⟩
    intro rest
    rw [List.cons_append, requireLiterals_cons_of_ne (by decide)]
    exact requireLiterals_name hhead hquiet name rest
  · have hopens : Calls d [] (d + 1) "[" := calls_piece (by decide) rfl (by decide)
    have hcloses : Calls (d + 1) [] d "]" := calls_piece (by decide) rfl (by decide)
    exact ((hopens.append (calls_quote (d + 1) name)).append hcloses).append (calls_quiet hpiece)

theorem calls_quotes (d : Nat) (values : List String) :
    Calls d [] d (", ".intercalate (values.map quote)) := by
  induction values with
  | nil => exact calls_empty d
  | cons value values ih =>
    cases values with
    | nil => exact calls_quote d value
    | cons value' values =>
      rw [List.map_cons, List.map_cons, String.intercalate_cons_cons]
      have hcomma : Calls d [] d ", " := calls_piece (by decide) rfl (by decide)
      exact ((calls_quote d value).append hcomma).append ih

theorem calls_join (texts : List String) (h : ∀ text ∈ texts, Calls d [] d text) :
    Calls d [] d (String.join texts) := by
  induction texts with
  | nil => exact calls_empty d
  | cons text texts ih =>
    rw [String.join_cons]
    refine (h text List.mem_cons_self).append (ih ?_)
    exact fun text htext => h text (List.mem_cons_of_mem _ htext)

theorem head?_any_append {p : Char → Bool} (h : text.toList.head?.any p = true) :
    (text ++ text').toList.head?.any p = true := by
  rw [Option.any_eq_true] at h
  obtain ⟨c, hc, hp⟩ := h
  rw [String.toList_append, List.head?_append, hc]
  exact hp

theorem endsName_append (h : endsName text = true) : endsName (text ++ text') = true :=
  head?_any_append h

/-- Whether a text has a first character that is not the one of a hashbang. -/
def beginsPlainly (text : String) : Bool := text.toList.head?.any (· != '#')

theorem beginsPlainly_append (h : beginsPlainly text = true) :
    beginsPlainly (text ++ text') = true :=
  head?_any_append h

theorem hashbangLength_of_beginsPlainly (h : beginsPlainly text = true) :
    hashbangLength text.toList = 0 := by
  rw [beginsPlainly, Option.any_eq_true] at h
  obtain ⟨c, hc, hplain⟩ := h
  obtain ⟨cs, hchars⟩ := List.head?_eq_some_iff.1 hc
  rw [hchars, hashbangLength]
  intro ds heq
  exact absurd (List.cons_eq_cons.1 heq).1 (bne_iff_ne.1 hplain)

/-- A text with calls at the top level scans, and has these calls. -/
theorem Calls.requiredLiterals_eq (h : Calls 0 literals d text)
    (hbegins : beginsPlainly text = true) : requiredLiterals text = .ok literals := by
  obtain ⟨words, hadds, hcalls⟩ := h
  obtain ⟨tokens, hscan, htokens⟩ := hadds.scan_eq (hashbangLength_of_beginsPlainly hbegins)
  have hliterals := hcalls []
  rw [List.append_nil] at hliterals
  rw [requiredLiterals, hscan]
  show Except.ok (requireLiterals (tokens.map Token.word)) = _
  rw [htokens, hliterals]
  exact congrArg Except.ok (List.append_nil literals)

/-! ## Lines -/

theorem isPlainName_temporary (n : Nat) : isPlainName (temporary n) = true := by
  have hchars : (temporary n).toList = "__weld_import_".toList ++ Nat.toDigits 10 n := by
    rw [temporary, String.toList_append, ← Nat.toList_repr]
    rfl
  have hdigits : (Nat.toDigits 10 n).all continuesPlainName = true := by
    rw [List.all_eq_true]
    intro c hc
    have hdigit := Nat.isDigit_of_mem_toDigits (by decide) (by decide) hc
    rw [continuesPlainName, Char.isAlphanum, hdigit, Bool.or_true, Bool.or_true]
  rw [isPlainName, hchars]
  exact hdigits

theorem temporary_ne_require (n : Nat) : temporary n ≠ "require" := by
  intro h
  have hchars := congrArg String.toList h
  rw [temporary, String.toList_append] at hchars
  cases hchars

/-- The variable of a statement, in front of a text that ends its name. -/
theorem calls_temporary (n : Nat) (hends : endsName text = true) (h : Calls d literals d' text) :
    Calls d literals d' (temporary n ++ text) :=
  Calls.name (isNameText_of_isPlainName (isPlainName_temporary n)) (temporary_ne_require n) hends h

theorem endsName_member (name : String) : endsName (member name) = true := by
  unfold member
  split
  · exact endsName_append (by decide)
  · exact endsName_append (endsName_append (by decide))

theorem calls_assignment (exported : String) {value : String}
    (h : Calls 0 literals 0 (value ++ ";")) : Calls 0 literals 0 (assignment exported value) := by
  have hmember : Calls 0 [] 0 (member exported ++ " = ") :=
    calls_member exported (by decide) (by decide)
  have hname : IsNameText "exports" := isNameText_of_isPlainName (by decide)
  have hexports := Calls.name hname (by decide)
    (endsName_append (endsName_append (endsName_member exported))) (hmember.append h)
  have htext : assignment exported value =
      "exports" ++ (member exported ++ " = " ++ (value ++ ";")) := by
    rw [assignment]
    simp only [String.append_assoc]
    rfl
  rw [htext]
  exact hexports

theorem beginsPlainly_assignment (exported value : String) :
    beginsPlainly (assignment exported value) = true := by
  unfold assignment
  simp only [String.append_assoc, toString]
  exact beginsPlainly_append (by decide)

theorem calls_forwarding (exported name : String) (n : Nat) :
    Calls 0 [] 0 (forwarding exported (temporary n ++ member name)) := by
  have hbegins : Calls 0 [] 1 "Object.defineProperty(exports, " := calls_quiet (by decide)
  have henumerable : Calls 1 [] 2 ", \x7b enumerable: true, " := calls_quiet (by decide)
  have hgetter : Calls 2 [] 3 "get: function () \x7b return " := calls_quiet (by decide)
  have hmember : Calls 3 [] 0 (member name ++ "; \x7d \x7d);") :=
    calls_member name (by decide) (by decide)
  have hvalue := calls_temporary n (endsName_append (endsName_member name)) hmember
  have htext : forwarding exported (temporary n ++ member name) =
      "Object.defineProperty(exports, " ++ (quote exported ++ (", \x7b enumerable: true, " ++
        ("get: function () \x7b return " ++
          (temporary n ++ (member name ++ "; \x7d \x7d);"))))) := by
    unfold forwarding
    simp only [String.append_assoc, toString]
  rw [htext]
  have hdefinition := henumerable.append (hgetter.append hvalue)
  exact hbegins.append ((calls_quote 1 exported).append hdefinition)

theorem calls_notFound : Calls 4 [] 3 "].indexOf(key) !== -1 || " := by
  have hsearch : Calls 4 [] 3 "].indexOf(key) !== -" := calls_quiet (by decide)
  have hor : Adds 3 (wordsOf " || ") 3 " || " := adds_piece (by decide) (by decide)
  have hone := Adds.digit (c := '1') (by decide) (by decide) (by decide) hor
  have hcalls : Calls 3 [] 3 (String.ofList ['1'] ++ " || ") :=
    ⟨_, hone, requireLiterals_append_of_all (by decide)⟩
  have htext : "].indexOf(key) !== -1 || " =
      "].indexOf(key) !== -" ++ (String.ofList ['1'] ++ " || ") := by decide
  rw [htext]
  exact hsearch.append hcalls

theorem calls_copyLoop (n : Nat) (values : List String) :
    Calls 0 [] 0 (copyLoop (temporary n) (", ".intercalate (values.map quote))) := by
  have hkeys : Calls 0 [] 1 "Object.keys(" := calls_quiet (by decide)
  have heach : Calls 1 [] 2 ").forEach(function (key) \x7b " := calls_quiet (by decide)
  have hskips : Calls 2 [] 4 "if ([" := calls_quiet (by decide)
  have hown : Calls 3 [] 2 "Object.prototype.hasOwnProperty.call(exports, key)) return; " :=
    calls_quiet (by decide)
  have hdefine : Calls 2 [] 4 "Object.defineProperty(exports, key, \x7b enumerable: true, " :=
    calls_quiet (by decide)
  have hgetter : Calls 4 [] 5 "get: function () \x7b return " := calls_quiet (by decide)
  have hcloses : Calls 5 [] 0 "[key]; \x7d \x7d); \x7d);" := calls_quiet (by decide)
  have hvalue := calls_temporary n (by decide) hcloses
  have hgets := hown.append (hdefine.append (hgetter.append hvalue))
  have hskipped := hskips.append ((calls_quotes 4 values).append (calls_notFound.append hgets))
  have hloop := calls_temporary n (endsName_append (by decide)) (heach.append hskipped)
  have hcopies := hkeys.append hloop
  unfold copyLoop
  simp only [String.append_assoc, toString]
  exact hcopies

/-! ## Declarations -/

/-- The declaration of a variable whose value begins with a call. -/
theorem calls_declaration {name : String} (hname : IsNameText name) (source : String)
    (h : Calls 0 [] 0 text) :
    Calls 0 [quote source] 0 ("var " ++ (name ++ (" = " ++ (requireCall source ++ text)))) := by
  have hvar : Calls 0 [] 0 "var " := calls_quiet (by decide)
  have hnamed : Calls 0 [] 0 (name ++ " = ") :=
    calls_name hname (by decide) (by decide)
  have hvalue := (calls_requireCall source).append h
  have hall := hvar.append (hnamed.append hvalue)
  rw [String.append_assoc] at hall
  rwa [List.append_nil] at hall

/-- The declaration of a variable for a part of a module that has been asked for. -/
theorem calls_part {name : String} (hname : IsNameText name) (n : Nat)
    (hends : endsName text = true) (h : Calls 0 [] 0 text) :
    Calls 0 [] 0 (" var " ++ (name ++ (" = " ++ (temporary n ++ text)))) := by
  have hvar : Calls 0 [] 0 " var " := calls_quiet (by decide)
  have hnamed : Calls 0 [] 0 (name ++ " = ") :=
    calls_name hname (by decide) (by decide)
  have hall := hvar.append (hnamed.append (calls_temporary n hends h))
  rwa [String.append_assoc] at hall

theorem beginsPlainly_requireCall (source : String) :
    beginsPlainly (requireCall source) = true := by
  unfold requireCall
  simp only [String.append_assoc, toString]
  exact beginsPlainly_append (by decide)

/-- Whether the names that an import binds are names of the script. -/
structure ImportClause.IsNamed (clause : ImportClause) : Prop where
  default : ∀ name ∈ clause.default?, IsNameText name
  star : ∀ name ∈ clause.star?, IsNameText name
  named : ∀ item ∈ clause.named, IsNameText item.newName

theorem calls_importLine {clause : ImportClause} (hnamed : clause.IsNamed) (n : Nat)
    (source : String) : Calls 0 [quote source] 0 (importLine (temporary n) clause source) := by
  have hends : Calls 0 [] 0 ";" := calls_quiet (by decide)
  have hdefault : Calls 0 [] 0 ".default;" := calls_quiet (by decide)
  have hbare := (calls_requireCall source).append hends
  unfold importLine
  simp only [String.append_assoc, toString]
  split
  · exact hbare
  · next star hd hs hn => exact calls_declaration (hnamed.star star hs) source hends
  · next default hd hs hn => exact calls_declaration (hnamed.default default hd) source hdefault
  · rw [String.join_cons, ← List.append_nil [quote source]]
    refine (calls_declaration (isNameText_of_isPlainName (isPlainName_temporary n)) source
      hends).append (calls_join _ ?_)
    intro text htext
    rw [List.mem_append, List.mem_append, List.mem_map, List.mem_map, List.mem_map] at htext
    rcases htext with (⟨name, hname, rfl⟩ | ⟨name, hname, rfl⟩) | ⟨item, hitem, rfl⟩
    · exact calls_part (hnamed.default name (Option.mem_toList.1 hname)) n (by decide) hdefault
    · exact calls_part (hnamed.star name (Option.mem_toList.1 hname)) n (by decide) hends
    · apply calls_part (hnamed.named item hitem) n (endsName_append (endsName_member item.name))
      exact calls_member item.name (by decide) (by decide)

theorem beginsPlainly_importLine (temporary : String) (clause : ImportClause) (source : String) :
    beginsPlainly (importLine temporary clause source) = true := by
  unfold importLine
  simp only [String.append_assoc, toString]
  split
  · exact beginsPlainly_append (beginsPlainly_requireCall source)
  · exact beginsPlainly_append (by decide)
  · exact beginsPlainly_append (by decide)
  · rw [String.join_cons]
    exact beginsPlainly_append (beginsPlainly_append (by decide))

/-! ## Statements -/

/-- Whether the names that a statement binds or exports are names of the script. -/
def Form.IsNamed : Form → Prop
  | .importFrom clause _ => clause.IsNamed
  | .exportFunction name _ => IsNameText name
  | _ => True

/-- A line that exports a function calls nothing. -/
theorem Form.requiredLiterals_functionLine {form : Form} (hnamed : form.IsNamed) {line : String}
    (hline : form.functionLine? = some line) : requiredLiterals line = .ok [] := by
  cases form with
  | exportFunction name asDefault =>
    obtain rfl := Option.some.inj hline
    have hvalue : Calls 0 [] 0 (name ++ ";") :=
      calls_name hnamed (by decide) (by decide)
    exact (calls_assignment _ hvalue).requiredLiterals_eq (beginsPlainly_assignment _ _)
  | _ => cases hline

/-- The line of a statement that asks for a module calls `require` with its quoted source. -/
theorem Form.requiredLiterals_requireLine {form : Form} (hnamed : form.IsNamed)
    {values : List String} {n : Nat} {line source : String}
    (hline : form.requireLine? (", ".intercalate (values.map quote)) (temporary n) = some line)
    (hsource : form.source? = some source) : requiredLiterals line = .ok [quote source] := by
  have hends : Calls 0 [] 0 ";" := calls_quiet (by decide)
  have htemporary := isNameText_of_isPlainName (isPlainName_temporary n)
  cases form with
  | bareImport s =>
    obtain rfl := Option.some.inj hline
    obtain rfl := Option.some.inj hsource
    exact ((calls_requireCall s).append hends).requiredLiterals_eq
      (beginsPlainly_append (beginsPlainly_requireCall s))
  | importFrom clause s =>
    obtain rfl := Option.some.inj hline
    obtain rfl := Option.some.inj hsource
    exact (calls_importLine hnamed n s).requiredLiterals_eq (beginsPlainly_importLine _ _ _)
  | exportFrom items s =>
    obtain rfl := Option.some.inj hline
    obtain rfl := Option.some.inj hsource
    have hitems : ∀ text ∈ items.map fun item =>
        " " ++ forwarding item.newName (temporary n ++ member item.name), Calls 0 [] 0 text := by
      intro text htext
      obtain ⟨item, -, rfl⟩ := List.mem_map.1 htext
      have hspace : Calls 0 [] 0 " " := calls_quiet (by decide)
      exact hspace.append (calls_forwarding item.newName item.name n)
    have hcalls := (calls_declaration htemporary s hends).append (calls_join _ hitems)
    simp only [String.join_cons, String.append_assoc, toString] at hcalls ⊢
    exact hcalls.requiredLiterals_eq (beginsPlainly_append (by decide))
  | exportAllFrom s =>
    obtain rfl := Option.some.inj hline
    obtain rfl := Option.some.inj hsource
    have hspace : Calls 0 [] 0 "; " := calls_quiet (by decide)
    have hcalls := calls_declaration htemporary s (hspace.append (calls_copyLoop n values))
    simp only [String.append_assoc, toString]
    exact hcalls.requiredLiterals_eq (beginsPlainly_append (by decide))
  | exportAllAs name s =>
    obtain rfl := Option.some.inj hline
    obtain rfl := Option.some.inj hsource
    exact (calls_assignment name ((calls_requireCall s).append hends)).requiredLiterals_eq
      (beginsPlainly_assignment _ _)
  | _ => cases hline

/-! ## All lines -/

/-- The lines that statements put in front of the module. -/
def hoistedLines (statements : List Statement) : List String :=
  statements.filterMap (·.form.functionLine?) ++ requireLines (skippedNames statements) 0 statements

/-- The literals that lines call `require` with, in order. -/
def literalsOfLines : List String → Except SyntaxError (List String)
  | [] => .ok []
  | line :: lines => do
    let literals ← requiredLiterals line
    let others ← literalsOfLines lines
    return literals ++ others

variable {statements : List Statement}

/-- The code of a module begins with its hoisted lines. -/
theorem ModuleBody.code_ofStatements (source : String) (statements : List Statement) :
    ∃ rest, (ModuleBody.ofStatements source statements).code =
      joinLines (hoistedLines statements) ++ rest := by
  rw [ModuleBody.ofStatements]
  dsimp only
  rw [← hoistedLines, appendLines]
  split
  · exact ⟨_, rfl⟩
  · split
    · exact ⟨_, String.append_assoc⟩
    · exact ⟨_, by rw [String.append_assoc, String.append_assoc]⟩

theorem literalsOfLines_cons {line : String} {lines : List String}
    (h : requiredLiterals line = .ok literals) (h' : literalsOfLines lines = .ok literals') :
    literalsOfLines (line :: lines) = .ok (literals ++ literals') := by
  rw [literalsOfLines, h, h']
  rfl

theorem literalsOfLines_functionLines (h : ∀ s ∈ statements, s.form.IsNamed) (lines : List String) :
    literalsOfLines (statements.filterMap (·.form.functionLine?) ++ lines) =
      literalsOfLines lines := by
  induction statements with
  | nil => rfl
  | cons s statements ih =>
    obtain ⟨hs, hrest⟩ := List.forall_mem_cons.1 h
    rw [List.filterMap_cons]
    split
    · exact ih hrest
    · next line hline =>
      have hnone := s.form.requiredLiterals_functionLine hs hline
      rw [List.cons_append, literalsOfLines, hnone, ih hrest]
      show (literalsOfLines lines >>= fun others => Except.ok others) = _
      cases literalsOfLines lines <;> rfl

theorem Form.requireLine?_eq_none {form : Form} (h : form.source? = none)
    (skipped temporary : String) : form.requireLine? skipped temporary = none := by
  cases form <;> first | rfl | cases h

theorem Form.exists_requireLine {form : Form} {source : String} (h : form.source? = some source)
    (skipped temporary : String) : ∃ line, form.requireLine? skipped temporary = some line := by
  cases form <;> first | exact ⟨_, rfl⟩ | cases h

theorem literalsOfLines_requireLines (h : ∀ s ∈ statements, s.form.IsNamed)
    (values : List String) (n : Nat) :
    literalsOfLines (requireLines (", ".intercalate (values.map quote)) n statements) =
      .ok ((statements.filterMap (·.form.source?)).map quote) := by
  induction statements generalizing n with
  | nil => rfl
  | cons s statements ih =>
    obtain ⟨hs, hrest⟩ := List.forall_mem_cons.1 h
    rw [requireLines, List.filterMap_cons]
    generalize (if s.form.needsTemporary then n + 1 else n) = m
    cases hsource : s.form.source? with
    | none =>
      rw [s.form.requireLine?_eq_none hsource]
      exact ih hrest m
    | some source =>
      obtain ⟨line, hline⟩ := s.form.exists_requireLine hsource
        (", ".intercalate (values.map quote)) (temporary n)
      rw [hline]
      exact literalsOfLines_cons (s.form.requiredLiterals_requireLine hs hline hsource) (ih hrest m)

/-- The hoisted lines call `require` with the quoted sources of the statements, in their order, and
with nothing else. -/
theorem literalsOfLines_hoistedLines (h : ∀ s ∈ statements, s.form.IsNamed) :
    literalsOfLines (hoistedLines statements) =
      .ok ((statements.filterMap (·.form.source?)).map quote) := by
  rw [hoistedLines, literalsOfLines_functionLines h]
  exact literalsOfLines_requireLines h _ 0

end ModuleBundler.Script
