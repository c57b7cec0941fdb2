import ModuleBundler.Proofs.Nesting
import ModuleBundler.Script.Statement.Read

/-
  What a declaration is read over. Where the brackets of a script nest, the way from an opening
  bracket to its partner leads over no name of the depth outside (`exists_front_of_matchingClose`).
  So a name of that depth is read over in two places only: in front of the body of a class, and in a
  declaration of variables where no line ends before the name or where the token before it asks for
  more (`goesOn_of_declarators`).
-/

namespace ModuleBundler.Script

variable {t opener : Token} {ts tokens before after passed inside rest : List Token}
  {c c' : Cursor} {stack stack' outer : List Bracket} {bracket : Bracket}

/-! ## Tokens that nest -/

/-- Whether the brackets of tokens nest, inside those that are open before. -/
def Nests (tokens : List Token) : Prop :=
  ∃ stack stack', Counted stack.length tokens ∧
    nesting stack (tokens.map Token.word) = some stack'

/-- What comes after a token that nests, and where the token itself stands. -/
theorem nests_cons {stack : List Bracket} (hcounted : Counted stack.length (t :: ts))
    (hnest : nesting stack ((t :: ts).map Token.word) = some stack') :
    (t.kind ≠ .template → t.depth = stack.length - (closedBy t.word).toList.length) ∧
      ∃ stack'', nest stack t.word = some stack'' ∧ Counted stack''.length ts ∧
        nesting stack'' (ts.map Token.word) = some stack' := by
  cases hcounted with
  | cons hdepth hrest =>
    rw [List.map_cons, nesting_cons, Option.bind_eq_some_iff] at hnest
    obtain ⟨stack'', hword, hnest⟩ := hnest
    have hpast := depthPast_of_nest hword 0
    rw [Nat.zero_add, Nat.zero_add] at hpast
    exact ⟨hdepth, stack'', hword, hpast ▸ hrest, hnest⟩

theorem Nests.of_suffix (h : Nests tokens) (hts : ts <:+ tokens) : Nests ts := by
  obtain ⟨front, rfl⟩ := hts
  obtain ⟨stack, stack', hcounted, hnest⟩ := h
  induction front generalizing stack with
  | nil => exact ⟨stack, stack', hcounted, hnest⟩
  | cons t front ih =>
    obtain ⟨-, stack'', -, hcounted, hnest⟩ := nests_cons hcounted hnest
    exact ih stack'' hcounted hnest

theorem closedBy_of_name (h : t.kind = .name) : closedBy t.word = none := by
  simp [closedBy, Token.word, h]

/-! ## From an opening bracket to its partner -/

/-- The text that closes a bracket. -/
def Bracket.closer : Bracket → String
  | .parenthesis => ")"
  | .square => "]"
  | .brace | .substitution => "\x7d"

theorem eq_of_closedBy {w : Word} (h : closedBy w = some bracket) (hne : bracket ≠ .substitution) :
    w = (.punctuator, bracket.closer) := by
  unfold closedBy at h
  split at h
  · next hw => exact Option.some.inj h ▸ hw
  · split at h
    · next hw => exact Option.some.inj h ▸ hw
    · split at h
      · next hw => exact Option.some.inj h ▸ hw
      · split at h
        · exact absurd (Option.some.inj h).symm hne
        · cases h

theorem splitAtCloser_append {u : Token} {depth : Nat} {closer : String}
    (hts : ∀ t ∈ ts, depth < t.depth) (hdepth : u.depth = depth)
    (hcloser : u.isPunctuator closer = true) :
    splitAtCloser depth closer passed (ts ++ u :: rest) =
      some (passed.reverse ++ ts, ⟨u, rest⟩) := by
  induction ts generalizing passed with
  | nil => simp [splitAtCloser, hdepth, hcloser]
  | cons t ts ih =>
    obtain ⟨ht, hts⟩ := List.forall_mem_cons.1 hts
    have hne : (t.depth == depth) = false := beq_eq_false_iff_ne.2 (by omega)
    rw [List.cons_append, splitAtCloser, hne, Bool.false_and, if_neg Bool.false_ne_true, ih hts]
    simp

theorem splitAtCloser_eq_none_iff {depth : Nat} {closer : String} :
    splitAtCloser depth closer passed ts = none ↔
      ∀ t ∈ ts, t.depth = depth → t.isPunctuator closer = false := by
  induction ts generalizing passed with
  | nil => simp [splitAtCloser]
  | cons t ts ih =>
    rw [splitAtCloser, List.forall_mem_cons]
    split
    · next hcloser =>
      obtain ⟨hdepth, hcloser⟩ := Bool.and_eq_true_iff.1 hcloser
      simp [beq_iff_eq.1 hdepth, hcloser]
    · next hcloser =>
      rw [ih]
      refine ⟨fun h => ⟨fun hdepth => ?_, h⟩, fun h => h.2⟩
      simpa [hdepth] using hcloser

/-- The partner of a bracket that stands out from what is between. -/
theorem matchingClose_append {u : Token} (hts : ∀ t ∈ ts, opener.depth < t.depth)
    (hdepth : u.depth = opener.depth) (hcloser : u.isPunctuator (closerOf opener.text) = true) :
    matchingClose opener (ts ++ u :: rest) = .ok (ts, ⟨u, rest⟩) := by
  rw [matchingClose, splitAtCloser_append hts hdepth hcloser]
  rfl

/-- Inside a bracket no name stands at the depth outside it, up to the first closing bracket of its
kind at that depth. -/
theorem exists_front_of_splitAtCloser (inner : List Bracket)
    (hne : bracket ≠ .substitution) (hcounted : Counted (inner ++ bracket :: outer).length ts)
    (hnest : nesting (inner ++ bracket :: outer) (ts.map Token.word) = some stack')
    (h : splitAtCloser outer.length bracket.closer passed ts = some (inside, c)) :
    ∃ front, ts = front ++ c.last :: c.rest ∧ c.last.kind = .punctuator ∧
      ∀ t ∈ front, t.kind = .name → outer.length < t.depth := by
  induction ts generalizing passed inner with
  | nil => cases h
  | cons t ts ih =>
    obtain ⟨hdepth, stack'', hword, hcounted, hnest⟩ := nests_cons hcounted hnest
    rw [splitAtCloser] at h
    split at h
    · next hcloser =>
      cases h
      have hkind := (Bool.and_eq_true_iff.1 (Bool.and_eq_true_iff.1 hcloser).2).1
      exact ⟨[], rfl, beq_iff_eq.1 hkind, by rintro t ⟨⟩⟩
    · next hcloser =>
      -- Only the partner could close the bracket itself.
      have hinner : ∃ inner', stack'' = inner' ++ bracket :: outer := by
        rcases nest_cases hword with ⟨-, rfl⟩ | ⟨closed, above, hclosed, hstack, rfl⟩
        · exact ⟨_, (List.append_assoc _ _ _).symm⟩
        · cases inner with
          | nil =>
            obtain ⟨rfl, rfl⟩ := List.cons_eq_cons.1 hstack
            obtain ⟨hkind, htext⟩ := Prod.mk.inj (eq_of_closedBy hclosed hne)
            have hplace := hdepth (by rw [hkind]; decide)
            rw [hclosed] at hplace
            simp [Token.isPunctuator, hkind, htext, hplace] at hcloser
          | cons top inner =>
            obtain ⟨rfl, rfl⟩ := List.cons_eq_cons.1 hstack
            exact ⟨_, (List.append_assoc _ _ _).symm⟩
      obtain ⟨inner', rfl⟩ := hinner
      obtain ⟨front, rfl, hlast, hfront⟩ := ih inner' hcounted hnest h
      refine ⟨t :: front, rfl, hlast, List.forall_mem_cons.2 ⟨fun hname => ?_, hfront⟩⟩
      have hplace := hdepth (by rw [hname]; decide)
      rw [closedBy_of_name hname] at hplace
      simp at hplace
      omega

/-- The bracket that an opening punctuator opens. -/
theorem exists_bracket_of_opener (h : opener.word = (.punctuator, "\x7b") ∨
    opener.word = (.punctuator, "[") ∨ opener.word = (.punctuator, "(")) :
    ∃ bracket, closedBy opener.word = none ∧ openedBy opener.word = some bracket ∧
      bracket ≠ .substitution ∧ bracket.closer = closerOf opener.text := by
  rcases h with h | h | h
  · rw [(Prod.mk.inj h).2, h]
    exact ⟨.brace, by decide⟩
  · rw [(Prod.mk.inj h).2, h]
    exact ⟨.square, by decide⟩
  · rw [(Prod.mk.inj h).2, h]
    exact ⟨.parenthesis, by decide⟩

/-- Between a brace or a square bracket and its partner no name stands at the depth outside. -/
theorem exists_front_of_matchingClose (hnests : Nests (opener :: rest))
    (hopener : opener.word = (.punctuator, "\x7b") ∨ opener.word = (.punctuator, "["))
    (h : matchingClose opener rest = .ok (inside, c)) :
    ∃ front, rest = front ++ c.last :: c.rest ∧ c.last.kind = .punctuator ∧
      ∀ t ∈ front, t.kind = .name → opener.depth < t.depth := by
  unfold matchingClose at h
  split at h
  · next found hsplit =>
    cases h
    obtain ⟨stack, stack', hcounted, hnest⟩ := hnests
    obtain ⟨hdepth, stack'', hword, hcounted, hnest⟩ := nests_cons hcounted hnest
    obtain ⟨bracket, hclosed, hopened, hne, hcloser⟩ :=
      exists_bracket_of_opener (hopener.imp_right Or.inl)
    have hkind : opener.kind ≠ .template := by
      rcases hopener with hopener | hopener <;> rw [(Prod.mk.inj hopener).1] <;> decide
    have hplace := hdepth hkind
    rw [hclosed, Option.toList_none, List.length_nil, Nat.sub_zero] at hplace
    have hstack : stack'' = [] ++ bracket :: stack := by
      unfold nest at hword
      rw [hclosed, hopened] at hword
      exact (Option.some.inj hword).symm
    subst hstack
    rw [hplace, ← hcloser] at hsplit
    rw [hplace]
    exact exists_front_of_splitAtCloser [] hne hcounted hnest hsplit
  · cases h

/-- A token in its place among others is one of the tokens in front of some place, or comes after
that. -/
theorem front_or_back {front back : List Token} (h : before ++ t :: after = front ++ back) :
    (∃ more, front = before ++ t :: more) ∨
      ∃ more, before = front ++ more ∧ back = more ++ t :: after := by
  rcases List.append_eq_append_iff.1 h with ⟨more, rfl, hmore⟩ | ⟨more, rfl, hmore⟩
  · cases more with
    | nil => exact Or.inr ⟨[], by simp, hmore.symm⟩
    | cons u more =>
      obtain ⟨rfl, -⟩ := List.cons_eq_cons.1 hmore
      exact Or.inl ⟨more, rfl⟩
  · exact Or.inr ⟨more, rfl, hmore⟩

/-- A name of the outermost depth comes after such a partner. -/
theorem behind_of_matchingClose (hnests : Nests (opener :: rest))
    (hopener : opener.word = (.punctuator, "\x7b") ∨ opener.word = (.punctuator, "["))
    (h : matchingClose opener rest = .ok (inside, c)) (hrest : rest = passed ++ t :: after)
    (hkind : t.kind = .name) (hdepth : t.depth = 0) :
    ∃ front more, passed = front ++ c.last :: more ∧ c.rest = more ++ t :: after := by
  obtain ⟨front, hfront, hlast, hdeep⟩ := exists_front_of_matchingClose hnests hopener h
  rw [hrest, List.append_cons front] at hfront
  rcases front_or_back hfront with ⟨more, hmore⟩ | ⟨more, rfl, hback⟩
  · have hmem : t ∈ front ++ [c.last] := by
      rw [hmore]
      exact List.mem_append_right _ List.mem_cons_self
    rcases List.mem_append.1 hmem with hin | hin
    · have := hdeep t hin hkind
      omega
    · rw [List.mem_singleton.1 hin, hlast] at hkind
      cases hkind
  · exact ⟨front, more, by rw [← List.append_cons], hback⟩

/-! ## Declarations of variables -/

/-- What is read on behind a token is not all that stands from it on. -/
theorem not_suffix_of_suffix (h : rest <:+ after) : ¬ t :: after <:+ rest := by
  intro hsuffix
  have := h.length_le
  have := hsuffix.length_le
  rw [List.length_cons] at this
  omega

/-- A token that does not end a declaration of variables although it stands at the outermost depth. -/
theorem goesOn_of_not_end {fresh : Bool} {last : Token} (hdepth : t.depth = 0)
    (hcloser : t.isCloser = false) (hcarries : carriesOn t = false)
    (h : ¬ (t.depth == 0 && !t.isCloser && !fresh && t.newlineBefore &&
      !continuesAcross last t) = true) :
    t.newlineBefore = false ∨ fresh = true ∨ wantsMore last = true := by
  rw [hdepth, hcloser, continuesAcross, hcarries] at h
  cases hline : t.newlineBefore with
  | false => exact Or.inl rfl
  | true =>
    cases hfresh : fresh with
    | true => exact Or.inr (Or.inl rfl)
    | false =>
      rw [hline, hfresh] at h
      exact Or.inr (Or.inr (by simpa using h))

/-- A declaration of variables is read over a name of the outermost depth only if no line ends
before it, if it comes first, or if the token before it asks for more. -/
theorem goesOn_of_declarators {fresh awaiting : Bool} {names found : List String}
    (h : declarators fresh awaiting names c = .ok (found, c')) (hnests : Nests c.rest)
    (hrest : c.rest = passed ++ t :: after) (hread : c'.rest <:+ after) (hkind : t.kind = .name)
    (hdepth : t.depth = 0) (hcarries : carriesOn t = false) :
    t.newlineBefore = false ∨ (fresh = true ∧ passed = []) ∨
      wantsMore (passed.getLastD c.last) = true := by
  have hmark : ∀ text, t.isPunctuator text = false := by
    intro text
    simp [Token.isPunctuator, hkind]
  have hcloser : t.isCloser = false := by simp [Token.isCloser, hmark]
  fun_induction declarators fresh awaiting names c generalizing passed with
  | case1 => simp_all
  | case2 fresh awaiting names c u us hu hend =>
    cases h
    rw [hu] at hrest
    cases passed with
    | nil =>
      obtain ⟨rfl, -⟩ := List.cons_eq_cons.1 hrest
      simp [hmark] at hend
    | cons v passed =>
      obtain ⟨rfl, rfl⟩ := List.cons_eq_cons.1 hrest
      exact absurd (List.suffix_append passed _) (not_suffix_of_suffix hread)
  | case3 fresh awaiting names c u us hu hend hline =>
    cases h
    rw [hrest] at hread
    exact absurd (List.suffix_append passed _) (not_suffix_of_suffix hread)
  | case4 fresh names c u us hu hend hline _ ih
  | case8 fresh _ names c u us hu hend hline _ ih =>
    rw [hu] at hrest hnests
    cases passed with
    | nil =>
      obtain ⟨rfl, rfl⟩ := List.cons_eq_cons.1 hrest
      refine (goesOn_of_not_end hdepth hcloser hcarries hline).imp_right (Or.imp_left ?_)
      exact fun hfresh => ⟨hfresh, rfl⟩
    | cons v passed =>
      obtain ⟨rfl, rfl⟩ := List.cons_eq_cons.1 hrest
      rw [List.getLastD_cons]
      refine (ih h (hnests.of_suffix (List.suffix_cons _ _)) rfl).imp_right fun hgoes => ?_
      exact Or.inr (hgoes.resolve_left (by simp))
  | case5 => cases h
  | case6 fresh names c u us hu hend hline hname hopener inside back hclose ih =>
    rw [hu] at hrest hnests
    cases passed with
    | nil =>
      obtain ⟨rfl, -⟩ := List.cons_eq_cons.1 hrest
      simp [hmark] at hopener
    | cons v passed =>
      obtain ⟨rfl, hus⟩ := List.cons_eq_cons.1 hrest
      have hword : u.word = (.punctuator, "\x7b") ∨ u.word = (.punctuator, "[") := by
        simpa [Token.isPunctuator, Token.word] using hopener
      obtain ⟨front, more, rfl, hback⟩ :=
        behind_of_matchingClose hnests hword hclose hus hkind hdepth
      have hsuffix : back.rest <:+ u :: us :=
        (List.suffix_cons back.last back.rest).trans
          ((matchingClose_suffix hclose).trans (List.suffix_cons u us))
      have hlast : (u :: (front ++ back.last :: more)).getLastD c.last =
          more.getLastD back.last := by
        simp [List.getLast?_cons]
      rw [hlast]
      refine (ih h (hnests.of_suffix hsuffix) hback).imp_right fun hgoes => ?_
      exact Or.inr (hgoes.resolve_left (by simp))
  | case7 => cases h

/-! ## Why a name is read over -/

/-- Where a declaration of a form can be read over a name of the outermost depth. The tokens
`passed` stand between its first word and the name. -/
inductive Form.ReadsOver (passed : List Token) (t : Token) : Form → Prop
  /-- In front of the body of a class. -/
  | head {name exported : String} {bodyEnd : Nat}
      (h : ∀ u ∈ passed, (u.depth == 0 && u.isPunctuator "\x7b") = false) :
      ReadsOver passed t (.exportClass name exported bodyEnd)
  /-- On the line of the token before it. -/
  | line {names : List String} {textEnd : Nat} {terminated : Bool} (h : t.newlineBefore = false) :
      ReadsOver passed t (.exportVariables names textEnd terminated)
  /-- At once, or after a token that asks for more. -/
  | onward {names : List String} {textEnd : Nat} {terminated : Bool}
      (h : ∀ u ∈ passed.getLast?, wantsMore u = true) :
      ReadsOver passed t (.exportVariables names textEnd terminated)

/-- Whether this is so for all names up to a place, of the tokens after the first word. -/
def Form.PassesOver (form : Form) (us : List Token) (c' : Cursor) : Prop :=
  Nests us → ∀ passed t after, us = passed ++ t :: after → c'.rest <:+ after →
    t.kind = .name → t.depth = 0 → carriesOn t = false → form.ReadsOver passed t

theorem passesOver_of_declarators {u : Token} {us : List Token} {names found : List String}
    {textEnd : Nat} {terminated : Bool}
    (h : declarators true true [] ⟨u, us⟩ = .ok (found, c')) :
    (Form.exportVariables names textEnd terminated).PassesOver us c' := by
  intro hnests passed t after hus hread hkind hdepth hcarries
  rcases goesOn_of_declarators h hnests hus hread hkind hdepth hcarries with
    hline | ⟨-, rfl⟩ | hwants
  · exact .line hline
  · exact .onward (by rintro u ⟨⟩)
  · cases hlast : passed.getLast? with
    | none => exact .onward (by rw [hlast]; rintro u ⟨⟩)
    | some v =>
      rw [List.getLastD_eq_getLast?, hlast] at hwants
      refine .onward fun w hw => ?_
      rw [hlast] at hw
      exact Option.some.inj hw ▸ hwants

theorem passesOver_of_matchingClose {us : List Token} {name exported : String} {bodyEnd : Nat}
    (hbody : us.dropWhile (fun t => !(t.depth == 0 && t.isPunctuator "\x7b")) = opener :: rest)
    (h : matchingClose opener rest = .ok (inside, c')) :
    (Form.exportClass name exported bodyEnd).PassesOver us c' := by
  intro hnests passed t after hus hread hkind hdepth hcarries
  have hsplit := List.takeWhile_append_dropWhile (p := fun t : Token =>
    !(t.depth == 0 && t.isPunctuator "\x7b")) (l := us)
  have hhead := List.all_takeWhile (p := fun t : Token =>
    !(t.depth == 0 && t.isPunctuator "\x7b")) (l := us)
  rw [hbody] at hsplit
  have hopener : opener.word = (.punctuator, "\x7b") := by
    have hnot := List.head?_dropWhile_not (fun t : Token =>
      !(t.depth == 0 && t.isPunctuator "\x7b")) us
    rw [hbody] at hnot
    obtain ⟨-, hkind, htext⟩ :
        opener.depth = 0 ∧ opener.kind = .punctuator ∧ opener.text = "\x7b" := by
      simpa [Token.isPunctuator] using hnot
    rw [Token.word, hkind, htext]
  generalize us.takeWhile _ = front at hsplit hhead
  rcases front_or_back (hus.symm.trans hsplit.symm) with ⟨more, rfl⟩ | ⟨more, rfl, hmore⟩
  · refine .head fun u hu => ?_
    rw [← Bool.not_eq_true']
    exact List.all_eq_true.1 hhead u (List.mem_append_left _ hu)
  · cases more with
    | nil =>
      obtain ⟨rfl, -⟩ := List.cons_eq_cons.1 hmore
      rw [(Prod.mk.inj hopener).1] at hkind
      cases hkind
    | cons u more =>
      obtain ⟨rfl, hrest⟩ := List.cons_eq_cons.1 hmore
      have hnests := hnests.of_suffix ⟨front, hsplit⟩
      obtain ⟨_, behind, -, hbehind⟩ :=
        behind_of_matchingClose hnests (Or.inl hopener) h hrest hkind hdepth
      exact absurd ⟨behind, hbehind.symm⟩ (not_suffix_of_suffix hread)

end ModuleBundler.Script
