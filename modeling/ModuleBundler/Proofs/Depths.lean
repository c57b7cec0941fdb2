import Mathlib.Tactic.SplitIfs
import ModuleBundler.Proofs.Declarations

/-
  Depths of tokens. A token stands at the depth that the words before it count, outside the bracket
  that it closes; a part of a template stands inside the substitution that it opens
  (`placed_of_scan`). Hence the tokens of words whose brackets nest come back to the depth at which
  they begin, and none of them stands further out (`Placed.le_of_nesting`).
-/

namespace ModuleBundler.Script

variable {d : Nat} {t u opener closer : Token} {ts us rest tokens : List Token} {w : Word}
  {words words' : List Word} {stack stack' outer : List Bracket}

/-! ## Marks -/

/-- The word of a punctuator. -/
def mark (text : String) : Word := (.punctuator, text)

theorem isPunctuator_of_word {text : String} (h : t.word = mark text) (other : String) :
    t.isPunctuator other = (text == other) := by
  obtain ⟨hkind, htext⟩ := Prod.mk.inj h
  simp [Token.isPunctuator, hkind, htext]

theorem isPunctuator_congr (h : t.word = u.word) (text : String) :
    t.isPunctuator text = u.isPunctuator text := by
  obtain ⟨hkind, htext⟩ := Prod.mk.inj h
  rw [Token.isPunctuator, Token.isPunctuator, hkind, htext]

theorem Token.isCloser_cases (h : t.isCloser = true) :
    t.kind = .punctuator ∧ t.text ∈ ["\x7d", ")", "]"] := by
  simp only [isCloser, isPunctuator, Bool.or_eq_true, Bool.and_eq_true, beq_iff_eq] at h
  rcases h with (⟨hkind, htext⟩ | ⟨hkind, htext⟩) | ⟨hkind, htext⟩ <;> simp [hkind, htext]

theorem Token.not_isPunctuator_of_isCloser {text : String} (h : t.isCloser = true)
    (htext : text ∉ ["\x7d", ")", "]"]) : t.isPunctuator text = false := by
  obtain ⟨-, hmem⟩ := isCloser_cases h
  have hne : t.text ≠ text := ne_of_mem_of_not_mem hmem htext
  rw [isPunctuator, beq_eq_false_iff_ne.2 hne, Bool.and_false]

/-! ## Words that nest -/

theorem nest_append (h : nest stack w = some stack') (outer : List Bracket) :
    nest (stack ++ outer) w = some (stack' ++ outer) := by
  rcases nest_cases h with ⟨hclosed, rfl⟩ | ⟨bracket, inner, hclosed, rfl, rfl⟩
  · simp [nest, hclosed]
  · simp [nest, hclosed]

/-- What nests on its own does so inside other brackets. -/
theorem nesting_append_outer (h : nesting stack words = some stack') (outer : List Bracket) :
    nesting (stack ++ outer) words = some (stack' ++ outer) := by
  induction words generalizing stack with
  | nil =>
    obtain rfl := Option.some.inj h
    rfl
  | cons w words ih =>
    rw [nesting_cons, Option.bind_eq_some_iff] at h
    obtain ⟨inner, hw, hwords⟩ := h
    rw [nesting_cons, nest_append hw, Option.bind_some, ih hwords]

theorem nesting_append (stack : List Bracket) (words words' : List Word) :
    nesting stack (words ++ words') =
      (nesting stack words).bind fun stack => nesting stack words' := List.foldlM_append

/-- Words whose brackets all find their partners. -/
def IsBalanced (words : List Word) : Prop := nesting [] words = some []

instance (words : List Word) : Decidable (IsBalanced words) :=
  inferInstanceAs (Decidable (nesting [] words = some []))

theorem IsBalanced.nesting_eq (h : IsBalanced words) (stack : List Bracket) :
    nesting stack words = some stack := nesting_append_outer h stack

theorem IsBalanced.append (h : IsBalanced words) (h' : IsBalanced words') :
    IsBalanced (words ++ words') := by
  rw [IsBalanced, nesting_append, h.nesting_eq, Option.bind_some]
  exact h'

theorem isBalanced_nil : IsBalanced [] := rfl

/-- A word that is no bracket, in front of others. -/
theorem IsBalanced.cons (h : IsBalanced words) (hclosed : closedBy w = none)
    (hopened : openedBy w = none) : IsBalanced (w :: words) := by
  have hnest : nest [] w = some [] := by simp [nest, hclosed, hopened]
  rw [IsBalanced, nesting_cons, hnest, Option.bind_some]
  exact h

/-- Words in brackets. -/
theorem IsBalanced.enclose {w w' : Word} {bracket : Bracket} (h : IsBalanced words)
    (hclosed : closedBy w = none) (hopened : openedBy w = some bracket)
    (hcloses : closedBy w' = some bracket) (hcloser : openedBy w' = none) :
    IsBalanced (w :: (words ++ [w'])) := by
  have hnest : nest [] w = some [bracket] := by simp [nest, hclosed, hopened]
  have hback : nest [bracket] w' = some [] := by simp [nest, hcloses, hcloser]
  rw [IsBalanced, nesting_cons, hnest, Option.bind_some, nesting_append, h.nesting_eq,
    Option.bind_some, nesting_cons, hback]
  rfl

theorem IsBalanced.foldl_depthPast (h : IsBalanced words) (d : Nat) :
    words.foldl depthPast d = d := depthPast_of_nesting h d

/-! ## Where tokens stand -/

/-- The depth at which a word stands that comes at a depth `d`. -/
def placeOf (d : Nat) (w : Word) : Nat :=
  if w.1 = .template then depthPast d w else d - (closedBy w).toList.length

/-- Whether tokens stand where their words say, from a depth on. -/
inductive Placed : Nat → List Token → Prop
  | nil (d : Nat) : Placed d []
  | cons {d : Nat} {t : Token} {ts : List Token} (hdepth : t.depth = placeOf d t.word)
      (hrest : Placed (depthPast d t.word) ts) : Placed d (t :: ts)

theorem placed_cons : Placed d (t :: ts) ↔
    t.depth = placeOf d t.word ∧ Placed (depthPast d t.word) ts := by
  constructor
  · rintro ⟨⟩
    exact ⟨‹_›, ‹_›⟩
  · exact fun h => .cons h.1 h.2

theorem placed_append : Placed d (ts ++ us) ↔
    Placed d ts ∧ Placed ((ts.map Token.word).foldl depthPast d) us := by
  induction ts generalizing d with
  | nil => simp [Placed.nil]
  | cons t ts ih =>
    rw [List.cons_append, placed_cons, placed_cons, ih, and_assoc]
    rfl

/-- Behind tokens whose brackets nest the depth is the one before them. -/
theorem Placed.of_append (h : Placed d (ts ++ us)) (hts : IsBalanced (ts.map Token.word)) :
    Placed d ts ∧ Placed d us := by
  obtain ⟨hfront, hback⟩ := placed_append.1 h
  rw [hts.foldl_depthPast] at hback
  exact ⟨hfront, hback⟩

theorem placeOf_of_not_template (h : w.1 ≠ .template) (hclosed : closedBy w = none) :
    placeOf d w = d := by
  rw [placeOf, if_neg h, hclosed]
  rfl

theorem depthPast_of_plain (hclosed : closedBy w = none) (hopened : openedBy w = none) :
    depthPast d w = d := by
  rw [depthPast, hclosed, hopened]
  rfl

/-- A word that nests stands as much deeper as the brackets around it are. -/
theorem placeOf_add (h : nest stack w = some stack') (d : Nat) :
    placeOf (d + stack.length) w = d + placeOf stack.length w := by
  unfold placeOf
  split
  · have hpast := depthPast_of_nest h 0
    rw [Nat.zero_add, Nat.zero_add] at hpast
    rw [depthPast_of_nest h, hpast]
  · rcases nest_cases h with ⟨hclosed, -⟩ | ⟨bracket, inner, hclosed, rfl, -⟩
    · simp [hclosed]
    · simp only [hclosed, Option.toList_some, List.length_cons, List.length_nil]
      omega

/-- Tokens of words that nest do not stand further out than they begin. -/
theorem Placed.le_of_nesting (h : Placed (d + stack.length) ts)
    (hnest : nesting stack (ts.map Token.word) = some stack') : ∀ t ∈ ts, d ≤ t.depth := by
  induction ts generalizing stack with
  | nil =>
    rintro t ⟨⟩
  | cons t ts ih =>
    obtain ⟨hdepth, hrest⟩ := placed_cons.1 h
    rw [List.map_cons, nesting_cons, Option.bind_eq_some_iff] at hnest
    obtain ⟨inner, hw, hnest⟩ := hnest
    rw [depthPast_of_nest hw] at hrest
    rw [placeOf_add hw] at hdepth
    refine List.forall_mem_cons.2 ⟨?_, ih hrest hnest⟩
    rw [hdepth]
    exact Nat.le_add_right _ _

theorem Placed.le_of_isBalanced (h : Placed d ts) (hts : IsBalanced (ts.map Token.word)) :
    ∀ t ∈ ts, d ≤ t.depth := by
  have hnest : nesting [] (ts.map Token.word) = some [] := hts
  refine Placed.le_of_nesting ?_ hnest
  exact h

/-! ## Brackets around tokens -/

theorem exists_enclosed {w w' : Word} (h : ts.map Token.word = w :: (words ++ [w'])) :
    ∃ opener us closer, ts = opener :: (us ++ [closer]) ∧ opener.word = w ∧
      us.map Token.word = words ∧ closer.word = w' := by
  obtain ⟨opener, ts, rfl, hopener, hts⟩ := List.map_eq_cons_iff.1 h
  obtain ⟨us, vs, rfl, hus, hvs⟩ := List.map_eq_append_iff.1 hts
  obtain ⟨closer, nothing, rfl, hcloser, hnothing⟩ := List.map_eq_cons_iff.1 hvs
  obtain rfl := List.map_eq_nil_iff.1 hnothing
  exact ⟨opener, us, closer, rfl, hopener, hus, hcloser⟩

/-- The words of a pair of brackets. -/
structure IsPair (opener closer : Word) (bracket : Bracket) : Prop where
  closed : closedBy opener = none
  opened : openedBy opener = some bracket
  closes : closedBy closer = some bracket
  ends : openedBy closer = none
  marks : opener.1 = .punctuator ∧ closer.1 = .punctuator

/-- Where an opening bracket stands, and what is behind it. -/
theorem Placed.opened {bracket : Bracket} (h : Placed d (opener :: ts))
    (hkind : opener.kind = .punctuator) (hclosed : closedBy opener.word = none)
    (hopened : openedBy opener.word = some bracket) : opener.depth = d ∧ Placed (d + 1) ts := by
  obtain ⟨hopener, hinside⟩ := placed_cons.1 h
  have hpast : depthPast d opener.word = d + 1 := by
    rw [depthPast, hclosed, hopened]
    rfl
  have hnot : opener.word.1 ≠ .template := by simp [Token.word, hkind]
  rw [placeOf_of_not_template hnot hclosed] at hopener
  exact ⟨hopener, hpast ▸ hinside⟩

/-- Where tokens in brackets stand, and those behind. -/
theorem Placed.enclosed {bracket : Bracket} (hpair : IsPair opener.word closer.word bracket)
    (h : Placed d (opener :: (us ++ closer :: rest))) (hus : IsBalanced (us.map Token.word)) :
    opener.depth = d ∧ Placed (d + 1) (us ++ closer :: rest) ∧ Placed (d + 1) us ∧
      closer.depth = d ∧ Placed d rest := by
  obtain ⟨hopener, hinside⟩ := h.opened hpair.marks.1 hpair.closed hpair.opened
  obtain ⟨hfront, hback⟩ := hinside.of_append hus
  obtain ⟨hcloser, hrest⟩ := placed_cons.1 hback
  have hplace : placeOf (d + 1) closer.word = d := by
    rw [placeOf, if_neg (by rw [hpair.marks.2]; decide), hpair.closes]
    rfl
  have hend : depthPast (d + 1) closer.word = d := by
    rw [depthPast, hpair.closes, hpair.ends]
    rfl
  exact ⟨hopener, hinside, hfront, hcloser.trans hplace, hend ▸ hrest⟩

/-- The closer of a pair is the one that is looked for. -/
theorem IsPair.isPunctuator_closer {bracket : Bracket}
    (h : IsPair opener.word closer.word bracket) :
    closer.isPunctuator (closerOf opener.text) = true := by
  have hopener : opener.word = mark "\x7b" ∨ opener.word = mark "[" ∨ opener.word = mark "(" := by
    have hopened := h.opened
    unfold openedBy at hopened
    split_ifs at hopened with hround hsquare hbrace htemplate
    · exact Or.inr (Or.inr hround)
    · exact Or.inr (Or.inl hsquare)
    · exact Or.inl hbrace
    · rw [h.marks.1] at htemplate
      cases htemplate.1
  obtain ⟨bracket', -, hopened, hne, hcloser⟩ := exists_bracket_of_opener hopener
  obtain rfl : bracket = bracket' := Option.some.inj (h.opened.symm.trans hopened)
  rw [isPunctuator_of_word (eq_of_closedBy h.closes hne), hcloser]
  exact beq_self_eq_true _

/-- The partner of a bracket is found behind tokens that nest. -/
theorem Placed.matchingClose_eq {bracket : Bracket}
    (hpair : IsPair opener.word closer.word bracket)
    (h : Placed d (opener :: (us ++ closer :: rest))) (hus : IsBalanced (us.map Token.word)) :
    matchingClose opener (us ++ closer :: rest) = .ok (us, ⟨closer, rest⟩) := by
  obtain ⟨hopener, -, hinside, hcloser, -⟩ := h.enclosed hpair hus
  refine matchingClose_append (fun t ht => ?_) (hcloser.trans hopener.symm)
    hpair.isPunctuator_closer
  rw [hopener]
  exact hinside.le_of_isBalanced hus t ht

theorem isPair_square : IsPair (mark "[") (mark "]") .square :=
  ⟨by decide, by decide, by decide, by decide, rfl, rfl⟩

theorem isBalanced_name (text : String) : IsBalanced [(.name, text)] :=
  isBalanced_nil.cons (by simp [closedBy]) (by simp [openedBy])

/-! ## The tokens of a script -/

theorem Scanner.take_place {s s' : Scanner} {start : Position} {newline closing regex : Bool}
    {lexeme : Lexeme} {c : Char} {rest : List Char} {token : Token}
    (hlexeme : lexemeAt closing regex c rest = .ok lexeme)
    (h : s.take start newline lexeme (c :: rest.take lexeme.more) = .ok s')
    (hdone : s'.done = token :: s.done)
    (hword : token.word = (lexeme.kind, String.ofList (c :: rest.take lexeme.more))) :
    token.depth = placeOf s.depth token.word := by
  unfold placeOf
  split
  · next hkind =>
    obtain ⟨hpast, -⟩ := Scanner.take_counts hlexeme h hword
    rw [← hpast]
    rw [hword] at hkind
    cases lexeme with
    | template closes opens more =>
      cases h
      obtain ⟨rfl, -⟩ := List.cons_eq_cons.1 hdone
      rfl
    | plain kind more => exact absurd hkind (ne_template_of_lexemeAt hlexeme)
  · next hkind => exact Scanner.take_depth h hdone hkind

/-- The tokens that a scanner finds come after those it had, at their depths. -/
theorem Scanner.run_placed {s : Scanner} {input : List Char} (h : s.run input = .ok tokens) :
    ∃ found, tokens = s.done.reverse ++ found ∧ Placed s.depth found := by
  fun_induction Scanner.run s input with
  | case1 => cases h
  | case2 s input blank newline hblank hrest hempty =>
    cases h
    exact ⟨[], (List.append_nil _).symm, .nil _⟩
  | case3 => cases h
  | case4 => cases h
  | case5 => cases h
  | case6 s input blank newline hblank start c rest hrest lexeme hlexeme s' htake ih =>
    obtain ⟨found, rfl, hfound⟩ := ih h
    obtain ⟨token, hdone, hword, -⟩ := Scanner.take_token htake
    obtain ⟨hpast, -⟩ := Scanner.take_counts hlexeme htake hword
    have hplace := Scanner.take_place hlexeme htake hdone hword
    refine ⟨token :: found, ?_, .cons hplace (hpast ▸ hfound)⟩
    rw [hdone, List.reverse_cons, List.append_assoc, List.singleton_append]

theorem placed_of_scan {source : String} (h : scan source = .ok tokens) : Placed 0 tokens := by
  obtain ⟨_, rfl, hplaced⟩ := Scanner.run_placed h
  exact hplaced

/-- From a name on, the tokens of a script stand where their words say from its depth on. -/
theorem Placed.from_name {front : List Token} (h : Placed d (front ++ t :: ts))
    (hkind : t.kind = .name) : Placed t.depth (t :: ts) := by
  obtain ⟨-, hback⟩ := placed_append.1 h
  generalize (front.map Token.word).foldl depthPast d = d' at hback
  have hdepth := (placed_cons.1 hback).1
  rw [placeOf_of_not_template (by simp [Token.word, hkind]) (closedBy_of_name hkind)] at hdepth
  rwa [hdepth]

end ModuleBundler.Script
