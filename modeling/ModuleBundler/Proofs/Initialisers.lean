import Mathlib.Data.List.Chain
import ModuleBundler.Proofs.Declarators
import ModuleBundler.Proofs.Depths

/-
  Variables whose value is a function or a class without a name. Line ends inside the brackets of
  the value do not break its declaration, and neither do those between the words around it, but for
  the one in front of the body and those in the heading of a class with a parent (`unbroken_value`).
  Without these the declaration is read up to the closing brace, and its assignment stands behind
  it; with one of them it stands inside the value (`assigns_value`, `cut_function`).
-/

namespace ModuleBundler.Script

variable {last t u opener closer brace : Token} {ts us heading inside rest after front : List Token}
  {names : List String} {found : List Statement} {s : Statement}

/-! ## Functions and classes -/

/-- Words whose brackets nest. -/
structure Group where
  words : List Word
  balanced : IsBalanced words := by decide

/-- A function or class without a name. -/
inductive Initialiser where
  | function (parameters body : Group)
  | plainClass (body : Group)
  | subclass (parent : String) (body : Group)

namespace Initialiser

/-- The words before the brace of the body. -/
def lead : Initialiser → List Word
  | function parameters _ => (.name, "function") :: mark "(" :: (parameters.words ++ [mark ")"])
  | plainClass _ => [(.name, "class")]
  | subclass parent _ => [(.name, "class"), (.name, "extends"), (.name, parent)]

def body : Initialiser → Group
  | function _ body => body
  | plainClass body => body
  | subclass _ body => body

/-- Whether no line ends where it breaks the heading: in front of the body, or between the words of
a class with a parent. -/
def Holds (heading : List Token) (brace : Token) : Initialiser → Prop
  | function _ _ => brace.newlineBefore = false
  | plainClass _ => brace.newlineBefore = false
  | subclass _ _ => Unbroken (heading ++ [brace])

end Initialiser

/-! ## Line ends in brackets -/

/-- Whether a token stands in brackets, or at their end. -/
def IsInside (t : Token) : Prop := 0 < t.depth ∨ t.isCloser = true

theorem IsInside.not_breaks (h : IsInside t) : ¬ Breaks last t := by
  rintro ⟨hdepth, hcloser, -⟩
  rcases h with h | h
  · omega
  · rw [h] at hcloser
    cases hcloser

theorem IsInside.not_divides (h : IsInside t) : ¬ Divides t := by
  rintro ⟨hdepth, hmark⟩
  rcases h with h | h
  · omega
  · rw [Token.not_isPunctuator_of_isCloser h (by decide),
      Token.not_isPunctuator_of_isCloser h (by decide)] at hmark
    simp at hmark

theorem unbroken_of_inside (h : ∀ t ∈ ts, IsInside t) : Unbroken (u :: ts) := by
  induction ts generalizing u with
  | nil => exact .singleton _
  | cons t ts ih =>
    obtain ⟨ht, hts⟩ := List.forall_mem_cons.1 h
    exact .cons_cons ht.not_breaks (ih hts)

theorem not_divides_of_name (h : t.kind = .name) : ¬ Divides t := by
  rintro ⟨-, hmark⟩
  simp [Token.isPunctuator, h] at hmark

theorem not_divides_of_mark {text : String} (h : t.word = mark text) (hsemicolon : text ≠ ";")
    (hcomma : text ≠ ",") : ¬ Divides t := by
  rintro ⟨-, hmark⟩
  rw [isPunctuator_of_word h, isPunctuator_of_word h, beq_iff_eq, beq_iff_eq] at hmark
  exact hmark.elim hsemicolon hcomma

/-- What is in brackets at the outermost depth. -/
theorem Placed.isInside {bracket : Bracket} (hpair : IsPair opener.word closer.word bracket)
    (h : Placed 0 (opener :: (us ++ closer :: rest))) (hus : IsBalanced (us.map Token.word))
    (hcloser : closer.isCloser = true) :
    opener.depth = 0 ∧ (∀ t ∈ us ++ [closer], IsInside t) ∧ Placed 0 rest := by
  obtain ⟨hopener, -, hinside, -, hrest⟩ := h.enclosed hpair hus
  refine ⟨hopener, List.forall_mem_append.2 ⟨fun t ht => ?_, ?_⟩, hrest⟩
  · exact Or.inl (hinside.le_of_isBalanced hus t ht)
  · exact List.forall_mem_singleton.2 (Or.inr hcloser)

theorem isPair_round : IsPair (mark "(") (mark ")") .parenthesis :=
  ⟨by decide, by decide, by decide, by decide, rfl, rfl⟩

theorem isPair_brace : IsPair (mark "\x7b") (mark "\x7d") .brace :=
  ⟨by decide, by decide, by decide, by decide, rfl, rfl⟩

/-! ## The heading -/

theorem breaks_brace_iff (hlast : wantsMore last = false) (hbrace : brace.word = mark "\x7b")
    (hdepth : brace.depth = 0) : ¬ Breaks last brace ↔ brace.newlineBefore = false := by
  obtain ⟨hkind, htext⟩ := Prod.mk.inj hbrace
  have hcloser : brace.isCloser = false := by simp [Token.isCloser, Token.isPunctuator, htext]
  have hcarries : carriesOn brace = false := by
    rw [carriesOn, hkind, htext]
    decide
  simp [Breaks, continuesAcross, hlast, hcarries, hcloser, hdepth]

/-- The heading of a function or class neither divides a declaration nor breaks it, where it
holds. -/
theorem unbroken_heading (i : Initialiser) (hheading : heading.map Token.word = i.lead)
    (hbrace : brace.word = mark "\x7b") (hplaced : Placed 0 (heading ++ brace :: rest)) :
    (∀ t ∈ heading, ¬ Divides t) ∧ (Unbroken (heading ++ [brace]) ↔ i.Holds heading brace) ∧
      Placed 0 (brace :: rest) := by
  have hname (text : String) : depthPast 0 (.name, text) = 0 :=
    depthPast_of_plain (by simp [closedBy]) (by simp [openedBy])
  have hdepth (h : Placed 0 (brace :: rest)) : brace.depth = 0 := by
    rw [(placed_cons.1 h).1, hbrace]
    decide
  cases i with
  | function parameters body =>
    obtain ⟨f, ts, rfl, hf, hts⟩ := List.map_eq_cons_iff.1 hheading
    obtain ⟨opener, us, closer, rfl, hopener, hus, hcloser⟩ := exists_enclosed hts
    have hround := (placed_cons.1 hplaced).2
    rw [hf, hname, List.append_eq, List.cons_append, List.append_assoc,
      List.singleton_append] at hround
    have hcloses : closer.isCloser = true := by
      simp [Token.isCloser, isPunctuator_of_word hcloser]
    obtain ⟨-, hinside, hbehind⟩ := Placed.isInside (hopener ▸ hcloser ▸ isPair_round) hround
      (hus ▸ parameters.balanced) hcloses
    have hcarries : ¬ Breaks f opener := by
      rintro ⟨-, -, -, hcontinues⟩
      rw [continuesAcross, carriesOn, (Prod.mk.inj hopener).1,
        (Prod.mk.inj hopener).2] at hcontinues
      revert hcontinues
      cases wantsMore f <;> decide
    have hwants : wantsMore closer = false := by
      rw [wantsMore, (Prod.mk.inj hcloser).1, (Prod.mk.inj hcloser).2]
      decide
    refine ⟨?_, ?_, hbehind⟩
    · refine List.forall_mem_cons.2 ⟨not_divides_of_name (Prod.mk.inj hf).1, ?_⟩
      refine List.forall_mem_cons.2 ⟨not_divides_of_mark hopener (by decide) (by decide), ?_⟩
      exact fun t ht => (hinside t ht).not_divides
    · have hfront : Unbroken ((f :: opener :: us) ++ [closer]) :=
        .cons_cons hcarries (unbroken_of_inside hinside)
      have hsplit : f :: opener :: (us ++ [closer]) ++ [brace] =
          (f :: opener :: us) ++ closer :: [brace] := by simp
      rw [Initialiser.Holds, ← breaks_brace_iff hwants hbrace (hdepth hbehind), hsplit, Unbroken,
        List.isChain_split, List.isChain_pair]
      exact and_iff_right hfront
  | plainClass body =>
    obtain ⟨k, nothing, rfl, hk, hnothing⟩ := List.map_eq_cons_iff.1 hheading
    obtain rfl := List.map_eq_nil_iff.1 hnothing
    have hbehind := (placed_cons.1 hplaced).2
    rw [hk, hname] at hbehind
    have hwants : wantsMore k = false := by
      rw [wantsMore, (Prod.mk.inj hk).1, (Prod.mk.inj hk).2]
      decide
    refine ⟨List.forall_mem_singleton.2 (not_divides_of_name (Prod.mk.inj hk).1), ?_, hbehind⟩
    rw [Initialiser.Holds, ← breaks_brace_iff hwants hbrace (hdepth hbehind)]
    exact List.isChain_pair
  | subclass parent body =>
    have hplain : IsBalanced (heading.map Token.word) := by
      rw [hheading]
      exact ((isBalanced_name parent).cons (by decide) (by decide)).cons (by decide) (by decide)
    refine ⟨fun t ht => not_divides_of_name ?_, Iff.rfl, (hplaced.of_append hplain).2⟩
    have hword : t.word ∈ heading.map Token.word := List.mem_map_of_mem ht
    rw [hheading] at hword
    simp only [Initialiser.lead, List.mem_cons, List.not_mem_nil, or_false] at hword
    rcases hword with hword | hword | hword <;> exact (Prod.mk.inj hword).1

/-! ## Exported values -/

/-- The tokens of an exported variable with a function or class for a value. -/
structure ExportedValue where
  first : Token
  keyword : Token
  name : Token
  equals : Token
  heading : List Token
  brace : Token
  inside : List Token
  closer : Token
  initialiser : Initialiser
  isFirst : first.word = (.name, "export")
  isKeyword : keyword.kind = .name ∧ keyword.text ∈ variableKeywords
  isName : name.kind = .name
  isEquals : equals.word = mark "="
  isHeading : heading.map Token.word = initialiser.lead
  isBrace : brace.word = mark "\x7b"
  isBody : inside.map Token.word = initialiser.body.words
  isCloser : closer.word = mark "\x7d"

namespace ExportedValue

/-- The tokens of the value. -/
def value (v : ExportedValue) : List Token := v.heading ++ v.brace :: v.inside ++ [v.closer]

/-- The first token of the value. -/
def start (v : ExportedValue) : Token := v.heading.headD v.brace

theorem value_eq (v : ExportedValue) : v.value = v.start :: v.value.tail := by
  rw [value, start]
  cases v.heading <;> rfl

/-- The tokens behind the word `export`. -/
def declaration (v : ExportedValue) : List Token := v.keyword :: v.name :: v.equals :: v.value

/-- Whether no line ends where it breaks the value. -/
def Holds (v : ExportedValue) : Prop := v.initialiser.Holds v.heading v.brace

end ExportedValue

/-- Whether a declaration that may end before these tokens does so: at the end of the text, at a
semicolon, or at a line that begins with a name that carries nothing on. -/
inductive Ends : List Token → Prop
  | nothing : Ends []
  | semicolon {t : Token} {ts : List Token} (h : t.word = mark ";") : Ends (t :: ts)
  | line {t : Token} {ts : List Token} (hkind : t.kind = .name) (htext : t.text ∉ binaryKeywords)
      (hline : t.newlineBefore = true) : Ends (t :: ts)

/-- The last token of a declaration: the semicolon after it, if there is one. -/
def lastOf (closer : Token) (after : List Token) : Token :=
  match after with
  | [] => closer
  | t :: _ => if t.isPunctuator ";" then t else closer

theorem stop_le_lastOf (h : ∀ t ∈ after, closer.stop ≤ t.start.offset) :
    closer.stop ≤ (lastOf closer after).stop := by
  unfold lastOf
  split
  · exact Nat.le_refl _
  · next t ts =>
    split
    · exact Nat.le_trans (h t List.mem_cons_self) t.start_le_stop
    · exact Nat.le_refl _

theorem exists_declarators_of_ends (names : List String) (hafter : Ends after)
    (hplaced : Placed 0 after) (hwants : wantsMore closer = false) :
    ∃ rest, declarators false false names ⟨closer, after⟩ =
      .ok (names, ⟨lastOf closer after, rest⟩) := by
  cases hafter with
  | nothing => exact ⟨[], declarators_nil rfl⟩
  | @semicolon t ts h =>
    have hmark : t.isPunctuator ";" = true := by
      rw [isPunctuator_of_word h]
      rfl
    have hdepth : t.depth = 0 := by
      rw [(placed_cons.1 hplaced).1, h]
      decide
    exact ⟨ts, by rw [declarators_semicolon rfl hdepth hmark, lastOf, if_pos hmark]⟩
  | @line t ts hkind htext hline =>
    have hmark (text : String) : t.isPunctuator text = false := by simp [Token.isPunctuator, hkind]
    have hdepth : t.depth = 0 := by
      rw [(placed_cons.1 hplaced).1,
        placeOf_of_not_template (by simp [Token.word, hkind]) (closedBy_of_name hkind)]
    have hcarries : carriesOn t = false := by
      rw [carriesOn, hkind]
      simpa using htext
    have hbreaks : Breaks closer t :=
      ⟨hdepth, by simp [Token.isCloser, hmark], hline, by simp [continuesAcross, hwants, hcarries]⟩
    refine ⟨t :: ts, ?_⟩
    rw [declarators_of_breaks rfl (not_divides_of_name hkind) hbreaks, lastOf,
      if_neg (by simp [hmark])]

/-- The value neither divides its declaration nor breaks it, where it holds. -/
theorem unbroken_value (v : ExportedValue) (hplaced : Placed 0 (v.declaration ++ after)) :
    (∀ t ∈ v.value, ¬ Divides t) ∧ (Unbroken v.value ↔ v.Holds) ∧ Placed 0 after := by
  simp only [ExportedValue.declaration, ExportedValue.value, List.cons_append, List.append_assoc,
    List.nil_append] at hplaced ⊢
  have hvalue := (placed_cons.1 hplaced).2
  rw [Token.word, v.isKeyword.1,
    depthPast_of_plain (by simp [closedBy]) (by simp [openedBy]), placed_cons, placed_cons,
    Token.word, v.isName, depthPast_of_plain (by simp [closedBy]) (by simp [openedBy]),
    v.isEquals, depthPast_of_plain (by decide) (by decide)] at hvalue
  obtain ⟨hheading, hholds, hbody⟩ :=
    unbroken_heading v.initialiser v.isHeading v.isBrace hvalue.2.2
  have hcloses : v.closer.isCloser = true := by
    simp [Token.isCloser, isPunctuator_of_word v.isCloser]
  obtain ⟨-, hinside, hafter⟩ := Placed.isInside (v.isBrace ▸ v.isCloser ▸ isPair_brace) hbody
    (v.isBody ▸ v.initialiser.body.balanced) hcloses
  refine ⟨List.forall_mem_append.2 ⟨hheading, List.forall_mem_cons.2 ⟨?_, ?_⟩⟩, ?_, hafter⟩
  · exact not_divides_of_mark v.isBrace (by decide) (by decide)
  · exact fun t ht => (hinside t ht).not_divides
  · rw [Unbroken, List.isChain_split]
    exact (and_iff_left (unbroken_of_inside hinside)).trans hholds

/-- A declaration goes on over the line ends around an equals sign. -/
theorem unbroken_equals (h : t.word = mark "=") : Unbroken [last, t, u] := by
  obtain ⟨hkind, htext⟩ := Prod.mk.inj h
  refine .cons_cons ?_ (.cons_cons ?_ (.singleton _))
  · rintro ⟨-, -, -, hcontinues⟩
    rw [continuesAcross, carriesOn, hkind, htext] at hcontinues
    revert hcontinues
    cases wantsMore last <;> decide
  · rintro ⟨-, -, -, hcontinues⟩
    rw [continuesAcross, wantsMore, hkind, htext] at hcontinues
    revert hcontinues
    cases carriesOn u <;> decide

/-! ## Where the assignment stands -/

namespace ExportedValue

/-- What the declaration is read as, up to a token. -/
def statement (v : ExportedValue) (last : Token) : Statement :=
  ⟨.exportVariables [v.name.text] last.stop (last.isPunctuator ";"), v.first.start.offset,
    v.keyword.start.offset⟩

/-- The edits of the statement: the assignment stands behind the token. -/
def edits (v : ExportedValue) (last : Token) : List Edit :=
  [⟨v.first.start.offset, v.keyword.start.offset, ""⟩,
    ⟨last.stop, last.stop, (if last.isPunctuator ";" then "" else ";") ++ "\n" ++
      assignment v.name.text v.name.text⟩]

theorem edits_statement (v : ExportedValue) (last : Token) :
    (v.statement last).edits = v.edits last := rfl

/-- Whether a token ends inside the value. -/
def Contains (v : ExportedValue) (last : Token) : Prop :=
  v.start.start.offset < last.stop ∧ last.stop < v.closer.stop

/-- Whether an edit leaves the value as it is. -/
def Spares (v : ExportedValue) (e : Edit) : Prop :=
  e.stop ≤ v.start.start.offset ∨ v.closer.stop ≤ e.start

theorem start_lt_stop (v : ExportedValue) : v.start.start.offset < v.start.stop := by
  have hstart : v.start.text = "function" ∨ v.start.text = "class" := by
    obtain ⟨words, hlead⟩ : ∃ words, v.initialiser.lead = (.name, "function") :: words ∨
        v.initialiser.lead = (.name, "class") :: words := by
      cases v.initialiser with
      | function parameters body => exact ⟨_, Or.inl rfl⟩
      | plainClass body => exact ⟨_, Or.inr rfl⟩
      | subclass parent body => exact ⟨_, Or.inr rfl⟩
    refine hlead.imp (fun hlead => ?_) (fun hlead => ?_) <;>
      obtain ⟨t, ts, hts, ht, -⟩ := List.map_eq_cons_iff.1 (v.isHeading.trans hlead) <;>
      rw [start, hts] <;> exact (Prod.mk.inj ht).2
  rw [Token.stop]
  rcases hstart with htext | htext <;> rw [htext] <;> exact Nat.lt_add_of_pos_right (by decide)

end ExportedValue

/-- A token before others in the value ends inside it. -/
theorem contains_of_value (v : ExportedValue)
    (hordered : v.value.Pairwise fun t u => t.stop ≤ u.start.offset)
    (hsplit : v.value = us ++ last :: t :: ts) : v.Contains last := by
  have hcloser : v.closer ∈ t :: ts := by
    have hlast := congrArg List.getLast? hsplit
    rw [ExportedValue.value, List.getLast?_concat, List.getLast?_append_cons,
      List.getLast?_cons_cons] at hlast
    exact List.mem_of_getLast? hlast.symm
  have hwidth : v.closer.start.offset < v.closer.stop := by
    rw [Token.stop, (Prod.mk.inj v.isCloser).2]
    exact Nat.lt_add_of_pos_right (by decide)
  have hend : last.stop ≤ v.closer.start.offset := by
    rw [hsplit] at hordered
    exact stop_le_start (List.pairwise_append.1 hordered).2.1 hcloser
  have hstart : v.start.stop ≤ last.stop := by
    have hfront : v.start ∈ us ++ [last] := by
      have hhead := congrArg List.head? (v.value_eq.symm.trans hsplit)
      cases us <;> simp_all
    refine stop_le_last hfront (hordered.sublist ?_)
    rw [hsplit]
    exact (List.singleton_sublist.2 List.mem_cons_self).append_left us
  have := v.start_lt_stop
  exact ⟨by omega, by omega⟩

/-- An exported value is read up to its closing brace or the semicolon behind, if it holds, and up
to a token inside otherwise. -/
theorem exportStatement_of_value (v : ExportedValue) (hplaced : Placed 0 (v.declaration ++ after))
    (hafter : Ends after) (hordered : v.value.Pairwise fun t u => t.stop ≤ u.start.offset) :
    ∃ last rest, exportStatement v.first ⟨v.first, v.declaration ++ after⟩ =
        .ok (v.statement last, ⟨last, rest⟩) ∧
      (v.Holds → last = lastOf v.closer after) ∧ (¬ v.Holds → v.Contains last) := by
  obtain ⟨hdivides, hholds, hbehind⟩ := unbroken_value v hplaced
  have hvalue := v.value_eq
  obtain ⟨hstart, htail⟩ := List.forall_mem_cons.1 (hvalue ▸ hdivides)
  have hequals : ¬ Divides v.equals := not_divides_of_mark v.isEquals (by decide) (by decide)
  have hfront : declarators true true [] ⟨v.keyword, v.name :: v.equals :: v.value ++ after⟩ =
      declarators false false [v.name.text] ⟨v.start, v.value.tail ++ after⟩ := by
    rw [hvalue, List.cons_append, declarators_name v.isName]
    have hline : Unbroken [v.name, v.equals, v.start] := unbroken_equals v.isEquals
    exact declarators_append (c := ⟨v.name, [v.equals, v.start] ++ (v.value.tail ++ after)⟩) rfl
      (by simp [hequals, hstart]) hline
  have hread {last : Token} {rest : List Token}
      (h : declarators false false [v.name.text] ⟨v.start, v.value.tail ++ after⟩ =
        .ok ([v.name.text], ⟨last, rest⟩)) :
      exportStatement v.first ⟨v.first, v.declaration ++ after⟩ =
        .ok (v.statement last, ⟨last, rest⟩) :=
    exportStatement_of_declarators v.isKeyword.2 (hfront.trans h)
  by_cases hline : v.Holds
  · have hlast : v.value.tail.getLastD v.start = v.closer := by
      rw [← List.getLastD_cons (a := v.start), ← hvalue, ExportedValue.value, List.getLastD_concat]
    have hwants : wantsMore v.closer = false := by
      rw [wantsMore, (Prod.mk.inj v.isCloser).1, (Prod.mk.inj v.isCloser).2]
      decide
    obtain ⟨rest, hrest⟩ := exists_declarators_of_ends [v.name.text] hafter hbehind hwants
    have hbehind : declarators false false [v.name.text] ⟨v.start, v.value.tail ++ after⟩ = _ :=
      declarators_append rfl htail (hvalue ▸ hholds.2 hline)
    rw [hlast] at hbehind
    exact ⟨_, rest, hread (hbehind.trans hrest), fun _ => rfl, fun h => absurd hline h⟩
  · obtain ⟨us, t, vs, hsplit, -, hbroken⟩ := declarators_of_broken [v.name.text]
      (c := ⟨v.start, v.value.tail ++ after⟩) rfl htail
      (fun h => hline (hholds.1 (hvalue ▸ h)))
    have hplace : v.value = (v.start :: us).dropLast ++ us.getLastD v.start :: t :: vs := by
      rw [List.append_cons, ← List.getLast_eq_getLastD (List.cons_ne_nil v.start us),
        List.dropLast_concat_getLast, hvalue, hsplit]
      rfl
    have hcontains := contains_of_value v hordered hplace
    exact ⟨_, _, hread hbroken, fun h => absurd h hline, fun _ => hcontains⟩

/-- Edits in order, of which two take away the front of the value's declaration and stand behind the
value, leave the value as it is. -/
theorem spares_of_ordered (v : ExportedValue) {edits : List Edit} {before after : List Edit}
    (hedits : edits = before ++ (v.edits last ++ after))
    (hordered : edits.Pairwise fun e e' => e.stop ≤ e'.start)
    (hfront : v.keyword.start.offset ≤ v.start.start.offset)
    (hfirst : v.first.start.offset ≤ v.keyword.start.offset)
    (hlast : v.closer.stop ≤ last.stop) : ∀ e ∈ edits, v.Spares e := by
  subst hedits
  obtain ⟨-, hown, hbefore⟩ := List.pairwise_append.1 hordered
  obtain ⟨-, -, hafter⟩ := List.pairwise_append.1 hown
  intro e he
  rcases List.mem_append.1 he with he | he
  · have hle : e.stop ≤ v.first.start.offset :=
      hbefore e he ⟨v.first.start.offset, v.keyword.start.offset, ""⟩ List.mem_cons_self
    exact Or.inl (by omega)
  · rcases List.mem_append.1 he with he | he
    · rcases List.mem_pair.1 he with rfl | rfl
      · exact Or.inl hfront
      · exact Or.inr hlast
    · have hle : last.stop ≤ e.start :=
        hafter ⟨last.stop, last.stop, _⟩ (List.mem_cons_of_mem _ List.mem_cons_self) e he
      exact Or.inr (by omega)

/-- In every script, a variable whose value is a function or class is exported. The assignment
stands behind the closing brace, or the semicolon after it, and nothing is changed inside the value,
exactly if no line ends in front of the body, or in the heading of a class with a parent; otherwise
it stands inside the value. -/
theorem assigns_value (v : ExportedValue) {source : String}
    (h : scan source = .ok (front ++ v.first :: (v.declaration ++ after)))
    (htop : v.first.depth = 0) (hafter : Ends after) :
    (∃ s c', exportStatement v.first ⟨v.first, v.declaration ++ after⟩ = .ok (s, c')) ∧
      ∀ found, statements (front ++ v.first :: (v.declaration ++ after)) = .ok found →
        ∀ s ∈ found, s.start = v.first.start.offset →
          ((s.edits = v.edits (lastOf v.closer after) ∧
              ∀ e ∈ found.flatMap Statement.edits, v.Spares e) ↔ v.Holds) ∧
            (¬ v.Holds → ∃ last, s.edits = v.edits last ∧ v.Contains last) := by
  obtain ⟨hkind, htext⟩ := Prod.mk.inj v.isFirst
  have hplaced := (placed_cons.1 (htop ▸ (placed_of_scan h).from_name hkind)).2
  rw [v.isFirst, depthPast_of_plain (by decide) (by decide)] at hplaced
  have hordered := (laidOut_of_scan h).ordered
  have hown := (List.pairwise_append.1 hordered).2.1
  obtain ⟨hdeclaration, -, hbehind⟩ := List.pairwise_append.1 (List.pairwise_cons.1 hown).2
  have hvalue : v.value.Pairwise fun t u => t.stop ≤ u.start.offset := hdeclaration.tail.tail.tail
  obtain ⟨last, rest, hread, hholds, hcut⟩ := exportStatement_of_value v hplaced hafter hvalue
  refine ⟨⟨_, _, hread⟩, ?_⟩
  intro found hfound s hs hstart
  have hname : v.first.isName "export" = true := by simp [Token.isName, hkind, htext]
  obtain ⟨c', hread'⟩ := exportStatement_of_mem hordered hfound hs rfl hname hstart
  obtain ⟨rfl, -⟩ := Prod.mk.inj (Except.ok.inj (hread.symm.trans hread'))
  have hedits := v.edits_statement last
  refine ⟨⟨fun hspares => ?_, fun hline => ?_⟩, fun hline => ⟨last, hedits, hcut hline⟩⟩
  · by_contra hline
    obtain ⟨hbegin, hend⟩ := hcut hline
    have hadded : ⟨last.stop, last.stop, (if last.isPunctuator ";" then "" else ";") ++ "\n" ++
        assignment v.name.text v.name.text⟩ ∈ found.flatMap Statement.edits :=
      List.mem_flatMap_of_mem hs (hedits ▸ List.mem_cons_of_mem _ List.mem_cons_self)
    rcases hspares.2 _ hadded with hle | hle <;> dsimp only at hle <;> omega
  · obtain rfl := hholds hline
    obtain ⟨earlier, later, rfl⟩ := List.append_of_mem hs
    have hamong := among_of_statementsAfter hordered hfound
    have hsplit :
        (earlier ++ v.statement (lastOf v.closer after) :: later).flatMap Statement.edits =
          earlier.flatMap Statement.edits ++ (v.edits (lastOf v.closer after) ++
            later.flatMap Statement.edits) := by
      rw [List.flatMap_append, List.flatMap_cons, hedits]
    refine ⟨hedits, spares_of_ordered v hsplit hamong.ordered ?_ ?_ ?_⟩
    · refine start_le_start hdeclaration ?_
      rw [v.value_eq]
      simp
    · exact start_le_start hown (List.mem_cons_of_mem _ List.mem_cons_self)
    · refine stop_le_lastOf fun t ht => hbehind v.closer ?_ t ht
      simp [ExportedValue.declaration, ExportedValue.value]

/-- A script that exports a function whose body has lines of its own. -/
def functionSource : String :=
  "export let f = function (a) /**/ \x7b\n  return a\n\x7d\nvar g = f\n"

/-- What `functionSource` exports. -/
def functionValue : ExportedValue where
  first := ⟨.name, "export", ⟨0, 1, 1⟩, 0, false⟩
  keyword := ⟨.name, "let", ⟨7, 1, 8⟩, 0, false⟩
  name := ⟨.name, "f", ⟨11, 1, 12⟩, 0, false⟩
  equals := ⟨.punctuator, "=", ⟨13, 1, 14⟩, 0, false⟩
  heading := [⟨.name, "function", ⟨15, 1, 16⟩, 0, false⟩, ⟨.punctuator, "(", ⟨24, 1, 25⟩, 0, false⟩,
    ⟨.name, "a", ⟨25, 1, 26⟩, 1, false⟩, ⟨.punctuator, ")", ⟨26, 1, 27⟩, 0, false⟩]
  brace := ⟨.punctuator, "\x7b", ⟨33, 1, 34⟩, 0, false⟩
  inside := [⟨.name, "return", ⟨37, 2, 3⟩, 1, true⟩, ⟨.name, "a", ⟨44, 2, 10⟩, 1, false⟩]
  closer := ⟨.punctuator, "\x7d", ⟨46, 3, 1⟩, 0, true⟩
  initialiser := .function ⟨[(.name, "a")], by decide⟩
    ⟨[(.name, "return"), (.name, "a")], by decide⟩
  isFirst := rfl
  isKeyword := by decide
  isName := rfl
  isEquals := rfl
  isHeading := rfl
  isBrace := rfl
  isBody := rfl
  isCloser := rfl

theorem assigns_functionValue : functionValue.Holds ∧
    ∃ s, statements (tokensOf functionSource) = .ok [s] ∧
      s.edits = functionValue.edits functionValue.closer ∧
      ∀ e ∈ s.edits, functionValue.Spares e := by
  let after : List Token := [⟨.name, "var", ⟨48, 4, 1⟩, 0, true⟩,
    ⟨.name, "g", ⟨52, 4, 5⟩, 0, false⟩, ⟨.punctuator, "=", ⟨54, 4, 7⟩, 0, false⟩,
    ⟨.name, "f", ⟨56, 4, 9⟩, 0, false⟩]
  let s := functionValue.statement functionValue.closer
  have hscan : scan functionSource =
      .ok ([] ++ functionValue.first :: (functionValue.declaration ++ after)) := by
    decide +kernel
  have hfound : statements ([] ++ functionValue.first :: (functionValue.declaration ++ after)) =
      .ok [s] := by
    decide +kernel
  have htokens : tokensOf functionSource =
      [] ++ functionValue.first :: (functionValue.declaration ++ after) := by
    rw [tokensOf, hscan]
    rfl
  have hafter : Ends after := .line rfl (by decide) rfl
  have hholds : functionValue.Holds := rfl
  obtain ⟨-, hassigns⟩ := assigns_value functionValue hscan rfl hafter
  obtain ⟨hedits, hspares⟩ :=
    (hassigns [s] hfound s (List.mem_singleton_self s) rfl).1.2 hholds
  rw [List.flatMap_singleton] at hspares
  exact ⟨hholds, s, htokens ▸ hfound, hedits, hspares⟩

/-- A script that exports a function whose brace begins a line. -/
def brokenSource : String := "export const f = function (a)\n\x7b return a; \x7d\n"

/-- What `brokenSource` exports. -/
def brokenValue : ExportedValue where
  first := ⟨.name, "export", ⟨0, 1, 1⟩, 0, false⟩
  keyword := ⟨.name, "const", ⟨7, 1, 8⟩, 0, false⟩
  name := ⟨.name, "f", ⟨13, 1, 14⟩, 0, false⟩
  equals := ⟨.punctuator, "=", ⟨15, 1, 16⟩, 0, false⟩
  heading := [⟨.name, "function", ⟨17, 1, 18⟩, 0, false⟩, ⟨.punctuator, "(", ⟨26, 1, 27⟩, 0, false⟩,
    ⟨.name, "a", ⟨27, 1, 28⟩, 1, false⟩, ⟨.punctuator, ")", ⟨28, 1, 29⟩, 0, false⟩]
  brace := ⟨.punctuator, "\x7b", ⟨30, 2, 1⟩, 0, true⟩
  inside := [⟨.name, "return", ⟨32, 2, 3⟩, 1, false⟩, ⟨.name, "a", ⟨39, 2, 10⟩, 1, false⟩,
    ⟨.punctuator, ";", ⟨40, 2, 11⟩, 1, false⟩]
  closer := ⟨.punctuator, "\x7d", ⟨42, 2, 13⟩, 0, false⟩
  initialiser := .function ⟨[(.name, "a")], by decide⟩
    ⟨[(.name, "return"), (.name, "a"), mark ";"], by decide⟩
  isFirst := rfl
  isKeyword := by decide
  isName := rfl
  isEquals := rfl
  isHeading := rfl
  isBrace := rfl
  isBody := rfl
  isCloser := rfl

/-- The assignment stands between the parameters and the body of the function. -/
theorem cut_function : scan brokenSource = .ok (brokenValue.first :: brokenValue.declaration) ∧
    ∃ s, statements (brokenValue.first :: brokenValue.declaration) = .ok [s] ∧
      s.edits = [⟨0, 7, ""⟩, ⟨29, 29, ";\nexports.f = f;"⟩] ∧
      brokenValue.start.start.offset = 17 ∧ brokenValue.closer.stop = 43 ∧
      ¬ ∀ e ∈ s.edits, brokenValue.Spares e := by
  let parameters : Token := ⟨.punctuator, ")", ⟨28, 1, 29⟩, 0, false⟩
  have hedits : (brokenValue.statement parameters).edits =
      [⟨0, 7, ""⟩, ⟨29, 29, ";\nexports.f = f;"⟩] := by
    decide +kernel
  refine ⟨by decide +kernel, brokenValue.statement parameters, by decide +kernel, hedits, rfl, rfl,
    ?_⟩
  intro hspares
  rw [hedits] at hspares
  rcases hspares _ (List.mem_cons_of_mem _ List.mem_cons_self) with hle | hle <;>
    exact absurd hle (by decide +kernel)

end ModuleBundler.Script
