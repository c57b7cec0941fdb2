import ModuleBundler.Proofs.Written

/-
  Texts without a name. The lines and edits of a statement are put together from constant texts, from
  literals, from names of properties, from the variables that the statement has to do with and from
  the one that holds its module. A name that begins like those of the last kind is in none of the
  constants. So it is in a text of the statement only as that of a property, or because one of its
  variables has it (`Form.omits_requireLine`, `Statement.omits_edits`).
-/

namespace ModuleBundler.Script

variable {d d' d'' m : Nat} {name other text text' piece line : String} {form : Form}
  {s : Statement} {found : List Statement} {tokens : List Token} {values : List String}
  {words words' : List Word}

/-! ## Exported names -/

/-- Whether a list of exports has plain names for the bindings of the module. -/
def Form.ListsPlainly : Form → Prop
  | .exportNames items => ∀ item ∈ items, isPlainName item.name = true
  | _ => True

theorem listsPlainly_of_exportListForm {c c' : Cursor} (h : exportListForm c = .ok (form, c')) :
    form.ListsPlainly := by
  unfold exportListForm at h
  obtain ⟨⟨items, d⟩, -, h⟩ := bind_eq_ok.1 h
  dsimp only at h
  split at h
  · obtain ⟨⟨source, e⟩, -, h⟩ := bind_eq_ok.1 h
    cases h
    trivial
  · split at h
    · cases h
    · next hplain =>
      cases h
      simpa [Form.ListsPlainly] using List.find?_eq_none.1 hplain

theorem Statement.Declares.listsPlainly {first : Token} {c c' : Cursor}
    (h : s.Declares first c c') : s.form.ListsPlainly := by
  have hend := h.ends
  generalize s.form = form at hend
  cases form <;> trivial

theorem listsPlainly_of_exportStarForm {c c' : Cursor} (h : exportStarForm c = .ok (form, c')) :
    form.ListsPlainly := by
  unfold exportStarForm at h
  split at h
  · obtain ⟨name, -, h⟩ := bind_eq_ok.1 h
    obtain ⟨⟨source, e⟩, -, h⟩ := bind_eq_ok.1 h
    cases h
    trivial
  · obtain ⟨⟨source, e⟩, -, h⟩ := bind_eq_ok.1 h
    cases h
    trivial

theorem listsPlainly_of_exportStatement {first : Token} {c c' : Cursor}
    (h : exportStatement first c = .ok (s, c')) : s.form.ListsPlainly := by
  cases readsExport_of_exportStatement h with
  | defaultFunction hname hs hend | defaultExpression hs hend =>
    subst hs
    trivial
  | defaultClass hword h | namedClass hword h => exact (declares_exportClass hword h).listsPlainly
  | declarators hword h => exact (declares_exportVariables hword h).listsPlainly
  | function h =>
    unfold exportFunction at h
    obtain ⟨name, -, h⟩ := bind_eq_ok.1 h
    cases h
    trivial
  | list h => exact listsPlainly_of_exportListForm (eq_of_whole h)
  | star h => exact listsPlainly_of_exportStarForm (eq_of_whole h)

theorem listsPlainly_of_statements (hfound : statements tokens = .ok found) (hs : s ∈ found) :
    s.form.ListsPlainly := by
  obtain ⟨before, after, hsplit⟩ := List.append_of_mem hs
  obtain ⟨front, first, ts, c', rfl, hread, -⟩ := exists_place_of_mem hfound hsplit
  rcases hread with ⟨-, hread⟩ | ⟨-, hread⟩
  · have hform := isImport_of_importForm (eq_of_whole hread)
    generalize s.form = form at hform
    cases hform <;> trivial
  · exact listsPlainly_of_exportStatement hread

/-! ## Texts without a name -/

/-- Whether a name is among words other than as that of a property. -/
def Mentions (name : String) (words : List Word) : Prop :=
  ∃ front back, words = front ++ (.name, name) :: back ∧ front.getLast? ≠ some (mark ".")

theorem not_mentions_of_not_mem (h : (.name, name) ∉ words) : ¬ Mentions name words := by
  rintro ⟨front, back, rfl, -⟩
  exact h (by simp)

theorem not_mentions_append (h : ¬ Mentions name words) (h' : ¬ Mentions name words') :
    ¬ Mentions name (words ++ words') := by
  rintro ⟨front, back, hsplit, hfront⟩
  rcases List.append_eq_append_iff.1 hsplit with ⟨mid, rfl, rfl⟩ | ⟨mid, rfl, hmid⟩
  · refine h' ⟨mid, back, rfl, fun hdot => hfront ?_⟩
    rw [List.getLast?_append, hdot, Option.some_or]
  · cases mid with
    | nil => exact h' ⟨[], back, hmid.symm, by simp⟩
    | cons w mid =>
      obtain ⟨rfl, -⟩ := List.cons_eq_cons.1 hmid
      exact h ⟨front, mid, rfl, hfront⟩

/-- The name of a property is no mention. -/
theorem not_mentions_property (name other : String) :
    ¬ Mentions name [mark ".", (.name, other)] := by
  rintro ⟨front, back, hsplit, hfront⟩
  rcases List.cons_eq_append_iff.1 hsplit with ⟨rfl, hmid⟩ | ⟨front', rfl, hmid⟩
  · cases hmid
  · rcases List.cons_eq_append_iff.1 hmid with ⟨rfl, -⟩ | ⟨mid, rfl, hmid⟩
    · exact hfront rfl
    · simp at hmid

/-- Whether a text puts words in front of those of any script, without a mention of a name. -/
def Omits (name : String) (d d' : Nat) (text : String) : Prop :=
  ∃ words, Adds d words d' text ∧ ¬ Mentions name words

/-- Whether a name begins like those of the variables that hold modules. -/
def isReserved (name : String) : Bool := "__weld_import_".toList.isPrefixOf name.toList

theorem isReserved_temporary (n : Nat) : isReserved (temporary n) = true := by
  rw [isReserved, temporary, String.toList_append, List.isPrefixOf_iff_prefix]
  exact List.prefix_append _ _

theorem ne_of_isReserved (h : isReserved name = true) (hother : isReserved other = false) :
    other ≠ name := by
  rintro rfl
  exact Bool.false_ne_true (hother.symm.trans h)

/-- Whether a constant text, in which no name of this kind is, takes one depth to another. -/
def isSilent (d d' : Nat) (piece : String) : Bool :=
  (pieceWords [] piece.toList).isSome && depthAfter d (wordsOf piece) == some d' &&
    (wordsOf piece).all fun w => !isReserved w.2

theorem omits_silent (hname : isReserved name = true) (h : isSilent d d' piece = true) :
    Omits name d d' piece := by
  rw [isSilent, Bool.and_eq_true, Bool.and_eq_true, beq_iff_eq] at h
  refine ⟨wordsOf piece, adds_piece h.1.1 h.1.2, not_mentions_of_not_mem fun hmem => ?_⟩
  have hword := List.all_eq_true.1 h.2 _ hmem
  rw [hname] at hword
  cases hword

theorem Omits.append (h : Omits name d d' text) (h' : Omits name d' d'' text') :
    Omits name d d'' (text ++ text') := by
  obtain ⟨words, hadds, hwords⟩ := h
  obtain ⟨words', hadds', hwords'⟩ := h'
  exact ⟨words ++ words', hadds.append hadds', not_mentions_append hwords hwords'⟩

theorem omits_empty (name : String) (d : Nat) : Omits name d d "" :=
  ⟨[], adds_empty d, not_mentions_of_not_mem (by simp)⟩

theorem omits_gap {gap : List Char} (h : IsGap gap) (d : Nat) :
    Omits name d d (String.ofList gap) := ⟨[], adds_gap h d, not_mentions_of_not_mem (by simp)⟩

/-- A literal has no names. -/
theorem omits_quote (name : String) (d : Nat) (value : String) : Omits name d d (quote value) :=
  ⟨_, adds_quote d value, not_mentions_of_not_mem (by simp)⟩

/-- Another name, in front of a text that ends it. -/
theorem omits_name (hother : IsNameText other) (hne : other ≠ name) (hends : endsName text = true)
    (h : Omits name d d' text) : Omits name d d' (other ++ text) := by
  obtain ⟨words, hadds, hwords⟩ := h
  have hword : ¬ Mentions name [(.name, other)] := not_mentions_of_not_mem (by simp [hne.symm])
  exact ⟨_, Adds.name hother hends hadds, not_mentions_append hword hwords⟩

/-- Access to a property, in front of a text that ends its name. -/
theorem omits_member (property : String) (hends : endsName text = true)
    (h : Omits name d d' text) : Omits name d d' (member property ++ text) := by
  unfold member
  split
  · next hplain =>
    obtain ⟨words, hadds, hwords⟩ := h
    rw [String.append_assoc]
    refine ⟨_, Adds.dot (isNameText_of_isPlainName hplain) hends hadds, ?_⟩
    exact not_mentions_append (not_mentions_property name property) hwords
  · have hopener : wordsOf "[" = [mark "["] := by decide
    have hcloser : wordsOf "]" = [mark "]"] := by decide
    have hopens : Omits name d (d + 1) "[" :=
      ⟨_, adds_piece (by decide) rfl, not_mentions_of_not_mem (by simp [hopener, mark])⟩
    have hcloses : Omits name (d + 1) d "]" :=
      ⟨_, adds_piece (by decide) rfl, not_mentions_of_not_mem (by simp [hcloser, mark])⟩
    exact ((hopens.append (omits_quote name (d + 1) property)).append hcloses).append h

theorem omits_quotes (name : String) (d : Nat) (values : List String) :
    Omits name d d (", ".intercalate (values.map quote)) := by
  induction values with
  | nil => exact omits_empty name d
  | cons value values ih =>
    cases values with
    | nil => exact omits_quote name d value
    | cons value' values =>
      rw [List.map_cons, List.map_cons, String.intercalate_cons_cons]
      have hwords : wordsOf ", " = [mark ","] := by decide
      have hcomma : Omits name d d ", " :=
        ⟨_, adds_piece (by decide) rfl, not_mentions_of_not_mem (by simp [hwords, mark])⟩
      exact ((omits_quote name d value).append hcomma).append ih

theorem omits_join (texts : List String) (h : ∀ text ∈ texts, Omits name d d text) :
    Omits name d d (String.join texts) := by
  induction texts with
  | nil => exact omits_empty name d
  | cons text texts ih =>
    rw [String.join_cons]
    exact (h text List.mem_cons_self).append
      (ih fun text htext => h text (List.mem_cons_of_mem _ htext))

/-! ## Lines without a reserved name -/

section
variable (hreserved : isReserved name = true)
include hreserved

theorem omits_requireCall (source : String) : Omits name 0 0 (requireCall source) := by
  have hopens : Omits name 0 1 "require(" := omits_silent hreserved (by decide)
  have hcloses : Omits name 1 0 ")" := omits_silent hreserved (by decide)
  have htext : requireCall source = "require(" ++ (quote source ++ ")") := by
    rw [← String.append_assoc]
    rfl
  rw [htext]
  exact hopens.append ((omits_quote name 1 source).append hcloses)

theorem omits_assignment {value : String} (exported : String)
    (h : Omits name 0 0 (value ++ ";")) : Omits name 0 0 (assignment exported value) := by
  have hequals : Omits name 0 0 " = " := omits_silent hreserved (by decide)
  have hmember := omits_member exported (endsName_append (by decide)) (hequals.append h)
  have hname : IsNameText "exports" := isNameText_of_isPlainName (by decide)
  have hexports := omits_name hname (ne_of_isReserved hreserved (by decide))
    (endsName_append (endsName_member exported)) hmember
  have htext : assignment exported value =
      "exports" ++ (member exported ++ (" = " ++ (value ++ ";"))) := by
    rw [assignment]
    simp only [String.append_assoc]
    rfl
  rw [htext]
  exact hexports

theorem omits_forwarding (exported property : String) (hm : temporary m ≠ name) :
    Omits name 0 0 (forwarding exported (temporary m ++ member property)) := by
  have hbegins : Omits name 0 1 "Object.defineProperty(exports, " :=
    omits_silent hreserved (by decide)
  have henumerable : Omits name 1 2 ", \x7b enumerable: true, " :=
    omits_silent hreserved (by decide)
  have hgetter : Omits name 2 3 "get: function () \x7b return " :=
    omits_silent hreserved (by decide)
  have hcloses : Omits name 3 0 "; \x7d \x7d);" := omits_silent hreserved (by decide)
  have hvalue := omits_name (isNameText_of_isPlainName (isPlainName_temporary m)) hm
    (endsName_append (endsName_member property)) (omits_member property (by decide) hcloses)
  have htext : forwarding exported (temporary m ++ member property) =
      "Object.defineProperty(exports, " ++ (quote exported ++ (", \x7b enumerable: true, " ++
        ("get: function () \x7b return " ++
          (temporary m ++ (member property ++ "; \x7d \x7d);"))))) := by
    unfold forwarding
    simp only [String.append_assoc, toString]
  rw [htext]
  exact hbegins.append ((omits_quote name 1 exported).append
    (henumerable.append (hgetter.append hvalue)))

theorem omits_notFound : Omits name 4 3 "].indexOf(key) !== -1 || " := by
  have hsearch : Omits name 4 3 "].indexOf(key) !== -" := omits_silent hreserved (by decide)
  obtain ⟨words, hadds, hwords⟩ : Omits name 3 3 " || " := omits_silent hreserved (by decide)
  have hdigit : ¬ Mentions name [(.number, String.ofList ['1'])] :=
    not_mentions_of_not_mem (by simp)
  have hone : Omits name 3 3 (String.ofList ['1'] ++ " || ") :=
    ⟨_, Adds.digit (by decide) (by decide) (by decide) hadds, not_mentions_append hdigit hwords⟩
  have htext : "].indexOf(key) !== -1 || " =
      "].indexOf(key) !== -" ++ (String.ofList ['1'] ++ " || ") := by decide
  rw [htext]
  exact hsearch.append hone

theorem omits_copyLoop (hm : temporary m ≠ name) (values : List String) :
    Omits name 0 0 (copyLoop (temporary m) (", ".intercalate (values.map quote))) := by
  have hkeys : Omits name 0 1 "Object.keys(" := omits_silent hreserved (by decide)
  have heach : Omits name 1 2 ").forEach(function (key) \x7b " :=
    omits_silent hreserved (by decide)
  have hskips : Omits name 2 4 "if ([" := omits_silent hreserved (by decide)
  have hown : Omits name 3 2 "Object.prototype.hasOwnProperty.call(exports, key)) return; " :=
    omits_silent hreserved (by decide)
  have hdefine : Omits name 2 4 "Object.defineProperty(exports, key, \x7b enumerable: true, " :=
    omits_silent hreserved (by decide)
  have hgetter : Omits name 4 5 "get: function () \x7b return " :=
    omits_silent hreserved (by decide)
  have hcloses : Omits name 5 0 "[key]; \x7d \x7d); \x7d);" :=
    omits_silent hreserved (by decide)
  have htemporary := isNameText_of_isPlainName (isPlainName_temporary m)
  have hgets := hown.append (hdefine.append (hgetter.append
    (omits_name htemporary hm (by decide) hcloses)))
  have hskipped := hskips.append ((omits_quotes name 4 values).append
    ((omits_notFound hreserved).append hgets))
  have hcopies := hkeys.append (omits_name htemporary hm (endsName_append (by decide))
    (heach.append hskipped))
  unfold copyLoop
  simp only [String.append_assoc, toString]
  exact hcopies

/-- The declaration of a variable of another name whose value begins with a call. -/
theorem omits_declaration (hother : IsNameText other) (hne : other ≠ name) (source : String)
    (h : Omits name 0 0 text) :
    Omits name 0 0 ("var " ++ (other ++ (" = " ++ (requireCall source ++ text)))) := by
  have hvar : Omits name 0 0 "var " := omits_silent hreserved (by decide)
  have hequals : Omits name 0 0 " = " := omits_silent hreserved (by decide)
  exact hvar.append (omits_name hother hne (endsName_append (by decide))
    (hequals.append ((omits_requireCall hreserved source).append h)))

/-- The declaration of a variable of another name for a part of a module. -/
theorem omits_part (hother : IsNameText other) (hne : other ≠ name) (hm : temporary m ≠ name)
    (hends : endsName text = true) (h : Omits name 0 0 text) :
    Omits name 0 0 (" var " ++ (other ++ (" = " ++ (temporary m ++ text)))) := by
  have hvar : Omits name 0 0 " var " := omits_silent hreserved (by decide)
  have hequals : Omits name 0 0 " = " := omits_silent hreserved (by decide)
  exact hvar.append (omits_name hother hne (endsName_append (by decide))
    (hequals.append (omits_name (isNameText_of_isPlainName (isPlainName_temporary m)) hm hends h)))

theorem omits_importLine {clause : ImportClause} (hnamed : clause.IsNamed)
    (hlocals : name ∉ clause.locals) (source : String)
    (hm : (Form.importFrom clause source).needsTemporary = true → temporary m ≠ name) :
    Omits name 0 0 (importLine (temporary m) clause source) := by
  have hends : Omits name 0 0 ";" := omits_silent hreserved (by decide)
  have hdefault : Omits name 0 0 ".default;" := omits_silent hreserved (by decide)
  have hne {other : String} (h : other ∈ clause.default?.toList ∨ other ∈ clause.star?.toList ∨
      other ∈ clause.named.map (·.newName)) : other ≠ name := by
    rintro rfl
    rw [ImportClause.locals, List.append_assoc, List.mem_append, List.mem_append] at hlocals
    exact hlocals h
  unfold importLine
  simp only [String.append_assoc, toString]
  split
  · exact (omits_requireCall hreserved source).append hends
  · next star hd hs hn =>
    exact omits_declaration hreserved (hnamed.star star hs) (hne (by simp [hs])) source hends
  · next default hd hs hn =>
    exact omits_declaration hreserved (hnamed.default default hd) (hne (by simp [hd])) source
      hdefault
  · next hbare hstar hplain =>
    have hm : temporary m ≠ name := by
      refine hm ?_
      unfold Form.needsTemporary
      dsimp only
      split
      · next hs hn =>
        cases hd : clause.default? with
        | none => exact (hbare hd hs hn).elim
        | some default => exact (hplain default hd hs hn).elim
      · next star hd hs hn => exact (hstar star hd hs hn).elim
      · rfl
    rw [String.join_cons]
    refine (omits_declaration hreserved (isNameText_of_isPlainName (isPlainName_temporary m)) hm
      source hends).append (omits_join _ ?_)
    intro text htext
    rw [List.mem_append, List.mem_append, List.mem_map, List.mem_map, List.mem_map] at htext
    rcases htext with (⟨local', hlocal, rfl⟩ | ⟨local', hlocal, rfl⟩) | ⟨item, hitem, rfl⟩
    · exact omits_part hreserved (hnamed.default local' (Option.mem_toList.1 hlocal))
        (hne (Or.inl hlocal)) hm (by decide) hdefault
    · exact omits_part hreserved (hnamed.star local' (Option.mem_toList.1 hlocal))
        (hne (Or.inr (Or.inl hlocal))) hm (by decide) hends
    · exact omits_part hreserved (hnamed.named item hitem)
        (hne (Or.inr (Or.inr (List.mem_map_of_mem hitem)))) hm
        (endsName_append (endsName_member item.name)) (omits_member item.name (by decide) hends)

/-! ## The texts of statements -/

theorem Form.omits_functionLine (hnamed : form.IsNamed) (hlocals : name ∉ form.locals)
    (hline : form.functionLine? = some line) : Omits name 0 0 line := by
  have hends : Omits name 0 0 ";" := omits_silent hreserved (by decide)
  cases form with
  | exportFunction local' asDefault =>
    obtain rfl := Option.some.inj hline
    have hlocal := List.ne_of_not_mem_cons hlocals
    exact omits_assignment hreserved _ (omits_name hnamed hlocal.symm (by decide) hends)
  | _ => cases hline

/-- The line that asks for a module has a reserved name only if this is the one of the variable that
holds the module, or the statement declares it. -/
theorem Form.omits_requireLine (hnamed : form.IsNamed) (hlocals : name ∉ form.locals)
    (hm : form.needsTemporary = true → temporary m ≠ name)
    (hline : form.requireLine? (", ".intercalate (values.map quote)) (temporary m) = some line) :
    Omits name 0 0 line := by
  have hends : Omits name 0 0 ";" := omits_silent hreserved (by decide)
  have htemporary := isNameText_of_isPlainName (isPlainName_temporary m)
  cases form with
  | bareImport source =>
    obtain rfl := Option.some.inj hline
    exact (omits_requireCall hreserved source).append hends
  | importFrom clause source =>
    obtain rfl := Option.some.inj hline
    exact omits_importLine hreserved hnamed hlocals source hm
  | exportFrom items source =>
    obtain rfl := Option.some.inj hline
    have hitems : ∀ text ∈ items.map fun item =>
        " " ++ forwarding item.newName (temporary m ++ member item.name), Omits name 0 0 text := by
      intro text htext
      obtain ⟨item, hitem, rfl⟩ := List.mem_map.1 htext
      have hspace : Omits name 0 0 " " := omits_silent hreserved (by decide)
      exact hspace.append (omits_forwarding hreserved item.newName item.name (hm rfl))
    have homits := (omits_declaration hreserved htemporary (hm rfl) source hends).append
      (omits_join _ hitems)
    simp only [String.join_cons, String.append_assoc, toString] at homits ⊢
    exact homits
  | exportAllFrom source =>
    obtain rfl := Option.some.inj hline
    have hspace : Omits name 0 0 "; " := omits_silent hreserved (by decide)
    have homits := omits_declaration hreserved htemporary (hm rfl) source
      (hspace.append (omits_copyLoop hreserved (hm rfl) values))
    simp only [String.append_assoc, toString]
    exact homits
  | exportAllAs exported source =>
    obtain rfl := Option.some.inj hline
    exact omits_assignment hreserved exported
      ((omits_requireCall hreserved source).append hends)
  | _ => cases hline

theorem omits_assignments {names : List String}
    (hnames : ∀ other ∈ names, IsNameText other ∧ other ≠ name) :
    Omits name 0 0 (" ".intercalate (names.map fun other => assignment other other)) := by
  have hends : Omits name 0 0 ";" := omits_silent hreserved (by decide)
  induction names with
  | nil => exact omits_empty name 0
  | cons other names ih =>
    obtain ⟨⟨hother, hne⟩, hrest⟩ := List.forall_mem_cons.1 hnames
    have hfirst := omits_assignment hreserved other (omits_name hother hne (by decide) hends)
    cases names with
    | nil => exact hfirst
    | cons other' names =>
      rw [List.map_cons, List.map_cons, String.intercalate_cons_cons, String.append_assoc]
      exact hfirst.append ((omits_gap isGap_space 0).append (ih hrest))

theorem Statement.omits_edits (hassigned : s.form.IsAssigned)
    (hlocals : name ∉ s.form.locals) : ∀ e ∈ s.edits, Omits name 0 0 e.text := by
  have hends : Omits name 0 0 ";" := omits_silent hreserved (by decide)
  have hnothing := omits_empty name 0
  obtain ⟨form, start, stop⟩ := s
  cases form with
  | exportExpression =>
    have hassignment : Omits name 0 0 "exports.default = " := omits_silent hreserved (by decide)
    exact List.forall_mem_singleton.2 hassignment
  | exportClass local' exported bodyEnd =>
    have hlocal := List.ne_of_not_mem_cons hlocals
    have hline := omits_assignment hreserved exported
      (omits_name hassigned hlocal.symm (by decide) hends)
    exact List.forall_mem_cons.2 ⟨hnothing, List.forall_mem_singleton.2
      ((omits_gap isGap_newline 0).append hline)⟩
  | exportVariables names textEnd terminated =>
    have hterminator : Omits name 0 0 (if terminated then "" else ";") := by
      cases terminated with
      | true => exact hnothing
      | false => exact hends
    have hlines := omits_assignments hreserved fun other h =>
      ⟨hassigned.2 other h, ne_of_mem_of_not_mem h hlocals⟩
    exact List.forall_mem_cons.2 ⟨hnothing, List.forall_mem_singleton.2
      ((hterminator.append (omits_gap isGap_newline 0)).append hlines)⟩
  | _ => exact List.forall_mem_singleton.2 hnothing

/-- The lines at the end assign plain names. -/
theorem Form.omits_trailingLines (hplain : form.ListsPlainly) (hlocals : name ∉ form.locals) :
    ∀ line ∈ form.trailingLines, Omits name 0 0 line := by
  have hends : Omits name 0 0 ";" := omits_silent hreserved (by decide)
  cases form with
  | exportNames items =>
    intro line hline
    obtain ⟨item, hitem, rfl⟩ := List.mem_map.1 hline
    have hne : item.name ≠ name := ne_of_mem_of_not_mem (List.mem_map_of_mem hitem) hlocals
    exact omits_assignment hreserved item.newName
      (omits_name (isNameText_of_isPlainName (hplain item hitem)) hne (by decide) hends)
  | _ => rintro line ⟨⟩

end

end ModuleBundler.Script
