import ModuleBundler.Proofs.Initialisers
import ModuleBundler.Proofs.Neighbours
import ModuleBundler.Proofs.Passages

/-
  Default exports of functions and classes without a name. The words in front of the value give way
  to an assignment; the value itself stays as it is, and so does what stands behind it up to the next
  token, in which no semicolon is. Hence the value ends at its body exactly if the next token does
  not carry it on (`endsBefore_iff`). A parenthesis on the next line makes a call of what was a
  declaration (`called_default`).
-/

namespace ModuleBundler.Script

variable {d : Nat} {first t n : Token} {ts us rest after front : List Token} {words : List Word}
  {found : List Statement} {s : Statement} {previous? : Option Token}

/-! ## Functions and classes -/

/-- A function or class without a name. -/
inductive Unnamed where
  | function (isAsync isGenerator : Bool) (parameters body : Group)
  | plainClass (body : Group)
  | subclass (parent body : Group)

namespace Unnamed

/-- The words of a function before its parameters. -/
def opening (isAsync isGenerator : Bool) : List Word :=
  (if isAsync then [(.name, "async")] else []) ++
    (.name, "function") :: if isGenerator then [mark "*"] else []

/-- The words before the brace of the body. -/
def lead : Unnamed → List Word
  | function isAsync isGenerator parameters _ =>
    opening isAsync isGenerator ++ mark "(" :: (parameters.words ++ [mark ")"])
  | plainClass _ => [(.name, "class")]
  | subclass parent _ => (.name, "class") :: (.name, "extends") :: parent.words

def body : Unnamed → Group
  | function _ _ _ body => body
  | plainClass body => body
  | subclass _ body => body

end Unnamed

/-- The tokens of a default export of a function or class without a name. No statement begins in the
expression for the parent of a class. -/
structure DefaultExport where
  first : Token
  word : Token
  heading : List Token
  brace : Token
  inside : List Token
  closer : Token
  unnamed : Unnamed
  isFirst : first.word = (.name, "export")
  isWord : word.word = (.name, "default")
  isHeading : heading.map Token.word = unnamed.lead
  isExpression : ∀ parent body, unnamed = .subclass parent body →
    IsPlain (some word) heading [brace]
  isBrace : brace.word = mark "\x7b"
  isBody : inside.map Token.word = unnamed.body.words
  isCloser : closer.word = mark "\x7d"

namespace DefaultExport

/-- The tokens of the function or class. -/
def value (v : DefaultExport) : List Token := v.heading ++ v.brace :: (v.inside ++ [v.closer])

/-- The first token of the function or class. -/
def start (v : DefaultExport) : Token := v.heading.headD v.brace

theorem value_eq (v : DefaultExport) : v.value = v.start :: v.value.tail := by
  rw [value, start]
  cases v.heading <;> rfl

theorem value_concat (v : DefaultExport) :
    v.value = (v.heading ++ v.brace :: v.inside) ++ [v.closer] := by
  rw [value, List.append_assoc, List.cons_append]

end DefaultExport

/-! ## How it is read -/

/-- Behind the words of a function its parameters follow, and no name. -/
theorem functionName_of_opening {isAsync isGenerator : Bool} {opener : Token} (last : Token)
    (rest : List Token) (hts : ts.map Token.word = Unnamed.opening isAsync isGenerator)
    (hopener : opener.word = mark "(") :
    (functionName ⟨last, ts ++ opener :: rest⟩).atKind .name = false ∧
      Cursor.atName ⟨last, ts ++ opener :: rest⟩ "class" = false := by
  obtain ⟨hkind, htext⟩ := Prod.mk.inj hopener
  cases isAsync <;> cases isGenerator <;>
    simp only [Unnamed.opening, Bool.false_eq_true, ↓reduceIte, List.nil_append, List.cons_append,
      List.map_eq_cons_iff, List.map_eq_nil_iff, Token.word, mark, Prod.mk.injEq] at hts
  · obtain ⟨f, -, rfl, hf, rfl⟩ := hts
    simp [functionName, Cursor.atName, Cursor.atKind, Cursor.atPunctuator, Cursor.next,
      Token.isName, Token.isPunctuator, hf, hkind, htext]
  · obtain ⟨f, -, rfl, hf, g, -, rfl, hg, rfl⟩ := hts
    simp [functionName, Cursor.atName, Cursor.atKind, Cursor.atPunctuator, Cursor.next,
      Token.isName, Token.isPunctuator, hf, hg, hkind]
  · obtain ⟨a, -, rfl, ha, f, -, rfl, -, rfl⟩ := hts
    simp [functionName, Cursor.atName, Cursor.atKind, Cursor.atPunctuator, Cursor.next,
      Token.isName, Token.isPunctuator, ha, hkind, htext]
  · obtain ⟨a, -, rfl, ha, f, -, rfl, -, g, -, rfl, hg, rfl⟩ := hts
    simp [functionName, Cursor.atName, Cursor.atKind, Cursor.atPunctuator, Cursor.next,
      Token.isName, Token.isPunctuator, ha, hg, hkind]

/-- A class without a name is one with a body or a parent next. -/
theorem atKind_of_class {t u : Token} (last : Token) (rest : List Token)
    (ht : t.word = (.name, "class")) (hu : u.word = mark "\x7b" ∨ u.word = (.name, "extends")) :
    let c : Cursor := ⟨last, t :: u :: rest⟩
    (c.atName "function" || (c.atName "async" && c.next.atName "function")) = false ∧
      (c.next.atKind .name && !c.next.atName "extends") = false := by
  obtain ⟨hkind, htext⟩ := Prod.mk.inj ht
  rcases hu with hu | hu
  all_goals
    obtain ⟨hkind', htext'⟩ := Prod.mk.inj hu
    simp [Cursor.atName, Cursor.atKind, Cursor.next, Token.isName, hkind, htext, hkind', htext']

/-- The words of a function or class without a name are not those of one that has a name. -/
theorem not_named_of_unnamed (v : DefaultExport) (rest : List Token) :
    let c : Cursor := ⟨v.word, v.value ++ rest⟩
    ((c.atName "function" || (c.atName "async" && c.next.atName "function")) &&
        (functionName c).atKind .name) = false ∧
      (c.atName "class" && c.next.atKind .name && !c.next.atName "extends") = false := by
  have hheading := v.isHeading
  let behind := v.brace :: (v.inside ++ [v.closer]) ++ rest
  dsimp only
  cases hunnamed : v.unnamed with
  | function isAsync isGenerator parameters body =>
    rw [hunnamed] at hheading
    obtain ⟨us, vs, hsplit, hus, hvs⟩ := List.map_eq_append_iff.1 hheading
    obtain ⟨opener, ws, rfl, hopener, -⟩ := List.map_eq_cons_iff.1 hvs
    have hvalue : v.value ++ rest = us ++ opener :: (ws ++ behind) := by
      simp [DefaultExport.value, hsplit, behind]
    obtain ⟨hname, hclass⟩ := functionName_of_opening v.word (ws ++ behind) hus hopener
    rw [hvalue, hname, hclass, Bool.and_false, Bool.false_and, Bool.false_and]
    exact ⟨rfl, rfl⟩
  | plainClass body =>
    rw [hunnamed] at hheading
    obtain ⟨k, nothing, hk, hword, hnothing⟩ := List.map_eq_cons_iff.1 hheading
    obtain rfl := List.map_eq_nil_iff.1 hnothing
    have hvalue : v.value ++ rest = k :: v.brace :: (v.inside ++ [v.closer] ++ rest) := by
      simp [DefaultExport.value, hk]
    obtain ⟨hfunction, hclass⟩ :=
      atKind_of_class v.word (v.inside ++ [v.closer] ++ rest) hword (Or.inl v.isBrace)
    rw [hvalue, Bool.and_assoc, hfunction, hclass, Bool.false_and, Bool.and_false]
    exact ⟨rfl, rfl⟩
  | subclass parent body =>
    rw [hunnamed] at hheading
    obtain ⟨k, us, hk, hword, hus⟩ := List.map_eq_cons_iff.1 hheading
    obtain ⟨e, ws, rfl, he, -⟩ := List.map_eq_cons_iff.1 hus
    have hvalue : v.value ++ rest = k :: e :: (ws ++ behind) := by
      simp [DefaultExport.value, hk, behind]
    obtain ⟨hfunction, hclass⟩ := atKind_of_class v.word (ws ++ behind) hword (Or.inr he)
    rw [hvalue, Bool.and_assoc, hfunction, hclass, Bool.false_and, Bool.and_false]
    exact ⟨rfl, rfl⟩

/-- A function or class without a name is read as an expression. -/
theorem exportDefault_of_unnamed (v : DefaultExport) (rest : List Token) :
    exportDefault v.first ⟨v.word, v.value ++ rest⟩ =
      .ok (⟨.exportExpression, v.first.start.offset, v.start.start.offset⟩,
        ⟨v.word, v.value ++ rest⟩) := by
  have hstart : Cursor.offset ⟨v.word, v.value ++ rest⟩ = v.start.start.offset := by
    rw [v.value_eq]
    rfl
  have hsome : ¬ (v.value ++ rest).isEmpty = true := by
    rw [v.value_eq]
    exact Bool.false_ne_true
  obtain ⟨hfunction, hclass⟩ := not_named_of_unnamed v rest
  rw [exportDefault, if_neg hsome, hfunction, hclass, if_neg Bool.false_ne_true,
    if_neg Bool.false_ne_true, hstart]

/-- The statement of a default export is the word in front of the value. -/
theorem DefaultExport.standsAt (v : DefaultExport) {source : String}
    (hscan : scan source = .ok (front ++ v.first :: v.word :: (v.value ++ after)))
    (hfound : statements (front ++ v.first :: v.word :: (v.value ++ after)) = .ok found)
    (hs : s ∈ found) (hstart : s.start = v.first.start.offset) :
    s = ⟨.exportExpression, v.first.start.offset, v.start.start.offset⟩ ∧
      s.StandsAt (front ++ v.first :: v.word :: (v.value ++ after)) found front v.first
        (v.word :: (v.value ++ after)) ⟨v.word, v.value ++ after⟩ := by
  have hfirst : v.first.isName "export" = true := by
    simp [Token.isName, (Prod.mk.inj v.isFirst).1, (Prod.mk.inj v.isFirst).2]
  obtain ⟨c', hstands⟩ := standsAt_of_start hscan hfound hs
    (Token.start_lt_stop_of_isName hfirst (by decide)) hstart
  have hstatement : exportStatement v.first ⟨v.first, v.word :: (v.value ++ after)⟩ = .ok
      (⟨.exportExpression, v.first.start.offset, v.start.start.offset⟩,
        ⟨v.word, v.value ++ after⟩) := by
    have hdefault : (v.word.text == "default") = true := by
      rw [(Prod.mk.inj v.isWord).2]
      rfl
    rw [exportStatement, Cursor.text_of_cons rfl, if_pos hdefault, Cursor.next_of_cons rfl]
    exact exportDefault_of_unnamed v after
  obtain ⟨rfl, rfl⟩ :=
    Prod.mk.inj (Except.ok.inj (hstatement.symm.trans (hstands.read.exportStatement_eq hfirst)))
  exact ⟨rfl, hstands⟩

/-! ## What stays -/

/-- No statement begins in a function or class without a name. -/
theorem isPlain_value (v : DefaultExport) (hplaced : Placed d (v.value ++ after)) :
    IsPlain (some v.word) v.value after := by
  have hsplit : v.value ++ after = v.heading ++ v.brace :: (v.inside ++ v.closer :: after) := by
    simp [DefaultExport.value]
  rw [hsplit, placed_append] at hplaced
  obtain ⟨hlead, hbody⟩ := hplaced
  refine IsPlain.append ?_ (isPlain_of_enclosed (v.isBrace ▸ v.isCloser ▸ isPair_brace) hbody
    (v.isBody ▸ v.unnamed.body.balanced))
  have hheading := v.isHeading
  cases hunnamed : v.unnamed with
  | function isAsync isGenerator parameters body =>
    rw [hunnamed] at hheading
    obtain ⟨us, vs, hus, hopening, hvs⟩ := List.map_eq_append_iff.1 hheading
    obtain ⟨opener, ws, closer, rfl, hopener, hws, hcloser⟩ := exists_enclosed hvs
    rw [hus]
    refine IsPlain.append (isPlain_of_words fun t ht _ => ?_) ?_
    · have hwords : ∀ isAsync isGenerator, ∀ w ∈ Unnamed.opening isAsync isGenerator,
          w ∉ [(.name, "import"), (.name, "export")] := by
        decide
      exact hwords _ _ _ (hopening ▸ List.mem_map_of_mem ht)
    · have hround := (placed_append.1 (hus ▸ hlead)).2
      exact isPlain_of_enclosed (hopener ▸ hcloser ▸ isPair_round) hround
        (hws ▸ parameters.balanced)
  | plainClass body =>
    rw [hunnamed] at hheading
    obtain ⟨k, nothing, hk, hword, hnothing⟩ := List.map_eq_cons_iff.1 hheading
    obtain rfl := List.map_eq_nil_iff.1 hnothing
    rw [hk]
    refine isPlain_of_words (List.forall_mem_singleton.2 fun _ => ?_)
    rw [hword]
    decide
  | subclass parent body => exact (v.isExpression parent body hunnamed).of_head rfl

/-- Between two neighbours that stay, without an edit between them, the code of a module has no
words. -/
theorem exists_leftBetween {source : String} {p : Token} {back : List Token}
    (hscan : scan source = .ok (front ++ p :: n :: back))
    (hfound : statements (front ++ p :: n :: back) = .ok found)
    (hp : ¬ IsEdited (found.flatMap Statement.edits) p)
    (hn : ¬ IsEdited (found.flatMap Statement.edits) n)
    (hnone : ∀ e ∈ found.flatMap Statement.edits, p.stop ≤ e.start → ¬ e.stop ≤ n.start.offset) :
    ∃ body before middle, ModuleBody.ofSource source = .ok body ∧
      LeftBetween source found body p n before middle ∧ Adds 0 [] 0 middle := by
  obtain ⟨chars, tail, hchars, hspelled⟩ := spelled_of_scan hscan
  obtain ⟨body, spliced, hbody, hspliced⟩ := exists_splicedFrom hscan hfound
  have hedited := hspliced.edited
  have hsplit : front ++ p :: n :: back = front ++ p :: ([] ++ n :: back) := rfl
  rw [show bodyChars source = chars ++ tail from hchars] at hedited
  obtain ⟨before, middle, after, gap, between, rfl, hpStays, hnStays, hgap, hbetween⟩ :=
    exists_between hspelled hedited (among_of_statementsAfter hspelled.ordered hfound)
      hsplit hp hn
  have hnothing : between = [] := by
    refine List.eq_nil_iff_forall_not_mem.2 fun e he => ?_
    obtain ⟨he, hlow, hhigh⟩ := (hbetween.mem_iff e).1 he
    exact hnone e he hlow hhigh
  have hmiddle := hbetween.splices
  rw [hnothing] at hmiddle
  cases hmiddle
  cases hgap with
  | gap hgap =>
    obtain ⟨more, hmore⟩ := appendLines_eq
      (joinLines (hoistedLines found) ++ (before ++ p.text ++ String.ofList gap ++ n.text ++ after))
      (found.flatMap fun s => s.form.trailingLines)
    rw [← hchars] at hpStays hnStays
    refine ⟨body, before, _, hbody, ⟨⟨after ++ more, ?_⟩, hpStays, hnStays⟩, adds_gap hgap 0⟩
    rw [hspliced.code, hmore]
    simp only [String.append_assoc]

/-- Whether a value ends with its closing brace in front of a token: there is a semicolon among the
words between them, or the token does not carry the value on. -/
def EndsBefore (closer : Token) (words : List Word) (n : Token) : Prop :=
  mark ";" ∈ words ∨ continuesAcross closer n = false

instance (closer : Token) (words : List Word) (n : Token) :
    Decidable (EndsBefore closer words n) :=
  inferInstanceAs (Decidable (mark ";" ∈ words ∨ _))

/-- Nothing is carried on by what begins a statement. -/
theorem continuesAcross_of_starts {closer : Token} (hcloser : closer.word = mark "\x7d")
    (h : StartsStatement previous? n rest) : continuesAcross closer n = false := by
  have hwants : wantsMore closer = false := by
    rw [wantsMore, (Prod.mk.inj hcloser).1, (Prod.mk.inj hcloser).2]
    decide
  rw [continuesAcross, hwants, h.isWord.2.2.2]
  rfl

/-- The token behind a function or class without a name stays, unless it begins a statement, and
nothing is put in front of it. -/
theorem DefaultExport.exists_leftBetween_closer (v : DefaultExport) {source : String}
    (hscan : scan source = .ok (front ++ v.first :: v.word :: (v.value ++ n :: rest)))
    (hstands : s.StandsAt (front ++ v.first :: v.word :: (v.value ++ n :: rest)) found front v.first
      (v.word :: (v.value ++ n :: rest)) ⟨v.word, v.value ++ n :: rest⟩)
    (hvalue : IsPlain (some v.word) v.value (n :: rest))
    (hnot : ¬ StartsStatement (some v.closer) n rest) :
    ∃ body before middle, ModuleBody.ofSource source = .ok body ∧
      LeftBetween source found body v.closer n before middle ∧ Adds 0 [] 0 middle := by
  obtain ⟨chars, tail, -, hspelled⟩ := spelled_of_scan hscan
  have hplain : IsPlain (some v.word) (v.value ++ [n]) rest := by
    refine IsPlain.append hvalue (isPlain_cons.2 ⟨?_, isPlain_of_words (by rintro t ⟨⟩)⟩)
    rw [v.value_concat, List.getLast?_concat]
    exact hnot
  have hrest : v.value ++ n :: rest = (v.value ++ [n]) ++ rest := List.append_cons _ _ _
  have hcloser : v.closer ∈ v.value ++ [n] := by simp [v.value_concat]
  have hn : n ∈ v.value ++ [n] := by simp
  have hwidth {t : Token} (ht : t ∈ v.value ++ [n]) : t.start.offset < t.stop := by
    refine (hspelled.bounds t ?_).2.1
    rw [hrest]
    exact List.mem_append_right _
      (List.mem_cons_of_mem _ (List.mem_cons_of_mem _ (List.mem_append_left _ ht)))
  have hstays {t : Token} (ht : t ∈ v.value ++ [n]) :=
    hstands.not_isEdited hrest hplain ht (hwidth ht)
  -- An edit between the two would begin behind the first and end in front of the second.
  have hnone : ∀ e ∈ found.flatMap Statement.edits, v.closer.stop ≤ e.start →
      ¬ e.stop ≤ n.start.offset := by
    intro e he hlow hhigh
    have hrange := (among_of_statementsAfter hstands.ordered hstands.finds).ranges e he
    have hcloserWidth := hwidth hcloser
    have hnWidth := hwidth hn
    rcases hstands.sides hrest hplain e he with hside | hside
    · have hbefore := hside _ hcloser
      omega
    · have hbehind := hside _ hn
      omega
  have hsplit : front ++ v.first :: v.word :: (v.value ++ n :: rest) =
      (front ++ v.first :: v.word :: (v.heading ++ v.brace :: v.inside)) ++
        v.closer :: n :: rest := by
    simp [v.value_concat]
  have hfound := hstands.finds
  rw [hsplit] at hscan hfound
  exact exists_leftBetween hscan hfound (hstays hcloser) (hstays hn) hnone

/-- A function or class without a name is exported as it stands, as the value of an assignment. If
another statement begins behind it, the value ends there. Otherwise the next token stays, and nothing
is put between it and the closing brace: the value ends before it exactly if the token does not carry
it on. -/
theorem endsBefore_iff (v : DefaultExport) {source : String}
    (hscan : scan source = .ok (front ++ v.first :: v.word :: (v.value ++ after)))
    (hfound : statements (front ++ v.first :: v.word :: (v.value ++ after)) = .ok found)
    (hs : s ∈ found) (hstart : s.start = v.first.start.offset) :
    s.edits = [⟨v.first.start.offset, v.start.start.offset, "exports.default = "⟩] ∧
      (∀ t ∈ v.value, ¬ IsEdited (found.flatMap Statement.edits) t) ∧
      ∀ n rest, after = n :: rest →
        (StartsStatement (some v.closer) n rest → continuesAcross v.closer n = false) ∧
        (¬ StartsStatement (some v.closer) n rest →
          ∃ body before middle, ModuleBody.ofSource source = .ok body ∧
            LeftBetween source found body v.closer n before middle ∧ Adds 0 [] 0 middle ∧
            (EndsBefore v.closer [] n ↔ continuesAcross v.closer n = false)) := by
  obtain ⟨chars, tail, -, hspelled⟩ := spelled_of_scan hscan
  obtain ⟨hstatement, hstands⟩ := v.standsAt hscan hfound hs hstart
  have hsuffix : v.value ++ after <:+ front ++ v.first :: v.word :: (v.value ++ after) :=
    ⟨front ++ [v.first, v.word], by simp⟩
  obtain ⟨d, hplaced⟩ := (placed_of_scan hscan).exists_of_suffix hsuffix
  have hplain := isPlain_value v hplaced
  refine ⟨by rw [hstatement]; rfl, fun t ht => ?_, ?_⟩
  · exact hstands.not_isEdited rfl hplain ht
      (hspelled.bounds t (hsuffix.mem (List.mem_append_left _ ht))).2.1
  · rintro n rest rfl
    refine ⟨continuesAcross_of_starts v.isCloser, fun hnot => ?_⟩
    obtain ⟨body, before, middle, hbody, hleft, hadds⟩ :=
      v.exists_leftBetween_closer hscan hstands hplain hnot
    exact ⟨body, before, middle, hbody, hleft, hadds, by simp [EndsBefore]⟩

/-- The words `export default` at the front of a script. -/
def exportWord : Token := ⟨.name, "export", ⟨0, 1, 1⟩, 0, false⟩

def defaultWord : Token := ⟨.name, "default", ⟨7, 1, 8⟩, 0, false⟩

/-- A script that exports a class with a parent. -/
def subclassSource : String :=
  "export default class extends mix(a) \x7b run() \x7b\x7d \x7d\nrun();\n"

/-- What `subclassSource` exports. -/
def subclassExport : DefaultExport where
  first := exportWord
  word := defaultWord
  heading := [⟨.name, "class", ⟨15, 1, 16⟩, 0, false⟩, ⟨.name, "extends", ⟨21, 1, 22⟩, 0, false⟩,
    ⟨.name, "mix", ⟨29, 1, 30⟩, 0, false⟩, ⟨.punctuator, "(", ⟨32, 1, 33⟩, 0, false⟩,
    ⟨.name, "a", ⟨33, 1, 34⟩, 1, false⟩, ⟨.punctuator, ")", ⟨34, 1, 35⟩, 0, false⟩]
  brace := ⟨.punctuator, "\x7b", ⟨36, 1, 37⟩, 0, false⟩
  inside := [⟨.name, "run", ⟨38, 1, 39⟩, 1, false⟩, ⟨.punctuator, "(", ⟨41, 1, 42⟩, 1, false⟩,
    ⟨.punctuator, ")", ⟨42, 1, 43⟩, 1, false⟩, ⟨.punctuator, "\x7b", ⟨44, 1, 45⟩, 1, false⟩,
    ⟨.punctuator, "\x7d", ⟨45, 1, 46⟩, 1, false⟩]
  closer := ⟨.punctuator, "\x7d", ⟨47, 1, 48⟩, 0, false⟩
  unnamed := .subclass ⟨[(.name, "mix"), mark "(", (.name, "a"), mark ")"], by decide⟩
    ⟨[(.name, "run"), mark "(", mark ")", mark "\x7b", mark "\x7d"], by decide⟩
  isFirst := rfl
  isWord := rfl
  isHeading := rfl
  isExpression := fun _ _ _ => isPlain_of_words (by decide)
  isBrace := rfl
  isBody := rfl
  isCloser := rfl

theorem endsBefore_subclassSource : ∃ s, statements (tokensOf subclassSource) = .ok [s] ∧
    s.edits = [⟨0, 15, "exports.default = "⟩] ∧
    (∀ t ∈ subclassExport.value, ¬ IsEdited s.edits t) ∧
    ∃ n body before middle, n.text = "run" ∧ ModuleBody.ofSource subclassSource = .ok body ∧
      LeftBetween subclassSource [s] body subclassExport.closer n before middle ∧
      Adds 0 [] 0 middle ∧ EndsBefore subclassExport.closer [] n := by
  let v := subclassExport
  let s := (statementsOf subclassSource)[0]?.getD default
  let n := (tokensOf subclassSource)[15]?.getD default
  let rest := (tokensOf subclassSource).drop 16
  obtain ⟨htokens, hscan, hfound, hstart, htext, hnot, hends⟩ :
      tokensOf subclassSource = [] ++ v.first :: v.word :: (v.value ++ n :: rest) ∧
        scan subclassSource = .ok (tokensOf subclassSource) ∧
        statements (tokensOf subclassSource) = .ok [s] ∧
        s.start = v.first.start.offset ∧ n.text = "run" ∧
        n.isName "import" = false ∧ n.isName "export" = false := by
    decide +kernel
  obtain ⟨hedits, hstays, hnext⟩ := endsBefore_iff v (htokens ▸ hscan) (htokens ▸ hfound)
    (List.mem_singleton_self s) hstart
  have hstarts : ¬ StartsStatement (some v.closer) n rest := by
    rintro (h | h)
    · exact Bool.false_ne_true (hnot.symm.trans (isName_of_startsImport h))
    · exact Bool.false_ne_true (hends.symm.trans (isName_of_startsExport h))
  obtain ⟨body, before, middle, hbody, hleft, hadds, hiff⟩ :=
    (hnext n rest rfl).2 hstarts
  rw [List.flatMap_singleton] at hstays
  exact ⟨s, hfound, hedits, hstays, n, body, before, middle, htext, hbody, hleft, hadds,
    hiff.2 (by decide +kernel)⟩

/-- A script that exports a function and goes on with a parenthesis. -/
def callSource : String := "export default function () \x7b\x7d\n(run)();\n"

/-- What `callSource` exports. -/
def callExport : DefaultExport where
  first := exportWord
  word := defaultWord
  heading := [⟨.name, "function", ⟨15, 1, 16⟩, 0, false⟩, ⟨.punctuator, "(", ⟨24, 1, 25⟩, 0, false⟩,
    ⟨.punctuator, ")", ⟨25, 1, 26⟩, 0, false⟩]
  brace := ⟨.punctuator, "\x7b", ⟨27, 1, 28⟩, 0, false⟩
  inside := []
  closer := ⟨.punctuator, "\x7d", ⟨28, 1, 29⟩, 0, false⟩
  unnamed := .function false false ⟨[], by decide⟩ ⟨[], by decide⟩
  isFirst := rfl
  isWord := rfl
  isHeading := rfl
  isExpression := fun _ _ h => by cases h
  isBrace := rfl
  isBody := rfl
  isCloser := rfl

/-- The function is called with what stands on the next line. -/
theorem called_default : ∃ n rest body,
    scan callSource = .ok (callExport.first :: callExport.word :: (callExport.value ++ n :: rest)) ∧
      n.newlineBefore = true ∧ ModuleBody.ofSource callSource = .ok body ∧
      body.code = "exports.default = function () \x7b\x7d\n(run)();\n" ∧
      (∃ before after, (tokensOf body.code).map Token.word =
        before ++ callExport.closer.word :: n.word :: after) ∧
      ¬ EndsBefore callExport.closer [] n := by
  let n := (tokensOf callSource)[7]?.getD default
  let body : ModuleBody :=
    { code := "exports.default = function () \x7b\x7d\n(run)();\n", specifiers := [] }
  refine ⟨n, (tokensOf callSource).drop 8, body, by decide +kernel, by decide +kernel,
    by decide +kernel, rfl, ⟨(tokensOf body.code).map Token.word |>.take 8,
      (tokensOf body.code).map Token.word |>.drop 10, by decide +kernel⟩, by decide +kernel⟩

end ModuleBundler.Script
