import ModuleBundler.Proofs.Lexemes

/-
  How brackets nest. `nest` takes a word into a stack of open brackets, each of its kind, and fails
  on a word that closes another bracket than the innermost; a part of a template closes and opens
  substitutions. The scanner itself only counts. What it counts follows from the words alone
  (`run_counted`), so the strings that it finds at a depth are `stringsAt` of the words
  (`stringsAt_of_counted`), and a text whose words nest never comes below the depth at which it
  begins (`stringsAt_of_nesting`).
-/

namespace ModuleBundler.Script

/-! ## Brackets -/

/-- The kinds of brackets. -/
inductive Bracket where
  | parenthesis
  | square
  | brace
  | substitution
  deriving DecidableEq, Repr

/-- The bracket that a word closes. -/
def closedBy (w : Word) : Option Bracket :=
  if w = (.punctuator, ")") then some .parenthesis
  else if w = (.punctuator, "]") then some .square
  else if w = (.punctuator, "\x7d") then some .brace
  else if w.1 = .template ∧ w.2.toList.head? = some '}' then some .substitution
  else none

/-- The bracket that a word opens. -/
def openedBy (w : Word) : Option Bracket :=
  if w = (.punctuator, "(") then some .parenthesis
  else if w = (.punctuator, "[") then some .square
  else if w = (.punctuator, "\x7b") then some .brace
  else if w.1 = .template ∧ ['$', '{'].isSuffixOf w.2.toList then some .substitution
  else none

/-- The open brackets after a word, innermost first, unless it closes another one than the
innermost. -/
def nest (stack : List Bracket) (w : Word) : Option (List Bracket) :=
  match closedBy w, stack with
  | none, stack => some ((openedBy w).toList ++ stack)
  | some bracket, top :: outer =>
    if bracket = top then some ((openedBy w).toList ++ outer) else none
  | some _, [] => none

/-- The open brackets after words, if all of them nest. -/
def nesting (stack : List Bracket) (words : List Word) : Option (List Bracket) :=
  words.foldlM nest stack

variable {stack stack' : List Bracket} {w : Word} {words words' : List Word} {d k : Nat}

theorem nesting_cons (stack : List Bracket) (w : Word) (words : List Word) :
    nesting stack (w :: words) = (nest stack w).bind fun stack => nesting stack words :=
  List.foldlM_cons

/-- A word that nests closes nothing or the innermost bracket, before it opens one. -/
theorem nest_cases (h : nest stack w = some stack') :
    (closedBy w = none ∧ stack' = (openedBy w).toList ++ stack) ∨
      ∃ bracket outer, closedBy w = some bracket ∧ stack = bracket :: outer ∧
        stack' = (openedBy w).toList ++ outer := by
  unfold nest at h
  split at h
  · next hclosed =>
    exact Or.inl ⟨hclosed, (Option.some.inj h).symm⟩
  · next bracket top outer hclosed =>
    split at h
    · next htop =>
      exact Or.inr ⟨bracket, outer, hclosed, by rw [htop], (Option.some.inj h).symm⟩
    · cases h
  · cases h

/-! ## Depths -/

/-- The depth after a word. -/
def depthPast (d : Nat) (w : Word) : Nat :=
  d - (closedBy w).toList.length + (openedBy w).toList.length

/-- The strings among words that begin at a depth `d` and stand at the depth `k`. -/
def stringsAt (k d : Nat) : List Word → List String
  | [] => []
  | w :: words =>
    (if w.1 = .string ∧ d = k then [w.2] else []) ++ stringsAt k (depthPast d w) words

theorem stringsAt_append (k d : Nat) (words words' : List Word) :
    stringsAt k d (words ++ words') =
      stringsAt k d words ++ stringsAt k (words.foldl depthPast d) words' := by
  induction words generalizing d with
  | nil => rfl
  | cons w words ih => rw [List.cons_append, stringsAt, stringsAt, ih, List.append_assoc]; rfl

theorem depthPast_of_nest (h : nest stack w = some stack') (d : Nat) :
    depthPast (d + stack.length) w = d + stack'.length := by
  unfold depthPast
  rcases nest_cases h with ⟨hclosed, rfl⟩ | ⟨bracket, outer, hclosed, rfl, rfl⟩
  · simp only [hclosed, Option.toList_none, List.length_nil, List.length_append]
    omega
  · simp only [hclosed, Option.toList_some, List.length_cons, List.length_nil, List.length_append]
    omega

theorem depthPast_of_nesting (h : nesting stack words = some stack') (d : Nat) :
    words.foldl depthPast (d + stack.length) = d + stack'.length := by
  induction words generalizing stack with
  | nil =>
    obtain rfl := Option.some.inj h
    rfl
  | cons w words ih =>
    rw [nesting_cons, Option.bind_eq_some_iff] at h
    obtain ⟨inner, hw, hwords⟩ := h
    rw [List.foldl_cons, depthPast_of_nest hw, ih hwords]

/-- Words that nest do not come below the depth at which they begin. -/
theorem stringsAt_of_nesting (h : nesting stack words = some stack') (hk : k < d) :
    stringsAt k (d + stack.length) words = [] := by
  induction words generalizing stack with
  | nil => rfl
  | cons w words ih =>
    rw [nesting_cons, Option.bind_eq_some_iff] at h
    obtain ⟨inner, hw, hwords⟩ := h
    rw [stringsAt, if_neg (by omega), depthPast_of_nest hw, ih hwords, List.append_nil]

/-! ## What the scanner takes in -/

/-- The kind of the token that a lexeme becomes. -/
def Lexeme.kind : Lexeme → TokenKind
  | .plain kind _ => kind
  | .template _ _ _ => .template

variable {closing regex closes opens newline : Bool} {more : Nat} {c : Char} {rest : List Char}
  {kind : TokenKind} {lexeme : Lexeme} {start : Position} {chars : List Char} {s s' : Scanner}

/-- The characters of a part of a template tell what it closes and opens. -/
theorem template_of_lexemeAt
    (h : lexemeAt closing regex c rest = .ok (.template closes opens more)) :
    (c == '}') = closes ∧ (c = '}' → closing = true) ∧
      ['$', '{'].isSuffixOf (c :: rest.take more) = opens := by
  unfold lexemeAt at h
  split at h
  · split at h <;> cases h
  · split at h
    · next hmark =>
      split at h
      · next more' opens' hlength =>
        cases h
        refine ⟨rfl, ?_, ?_⟩
        · rintro rfl
          simpa using hmark
        · obtain ⟨before, after, hend⟩ := exists_mark_of_templateLength hlength
          cases opens with
          | true =>
            obtain ⟨rfl, rfl⟩ := hend
            have htake : (before ++ '$' :: '{' :: after).take (0 + before.length + 2) =
                before ++ ['$', '{'] := by
              rw [Nat.zero_add, List.take_length_add_append]
              rfl
            rw [htake, List.isSuffixOf_iff_suffix]
            exact ⟨c :: before, rfl⟩
          | false =>
            obtain ⟨rfl, rfl⟩ := hend
            have htake : (before ++ '\x60' :: after).take (0 + before.length + 1) =
                before ++ ['\x60'] := by
              rw [Nat.zero_add, List.take_length_add_append]
              rfl
            rw [htake, Bool.eq_false_iff, ne_eq, List.isSuffixOf_iff_suffix]
            rintro ⟨front, hfront⟩
            have hlast := congrArg List.getLast? hfront
            rw [← List.cons_append, List.getLast?_append, List.getLast?_append] at hlast
            cases hlast
      · cases h
    · split at h
      · cases h
      · split at h
        · cases h
        · split at h
          · split at h <;> cases h
          · cases h

theorem ne_template_of_lexemeAt (h : lexemeAt closing regex c rest = .ok (.plain kind more)) :
    kind ≠ .template := by
  unfold lexemeAt at h
  repeat' split at h
  all_goals
    cases h
    try decide

/-- What the scanner takes in is one token. -/
theorem Scanner.take_token (h : s.take start newline lexeme chars = .ok s') :
    ∃ token, s'.done = token :: s.done ∧ token.word = (lexeme.kind, String.ofList chars) ∧
      token.start = start ∧ s'.position = start.after chars := by
  cases lexeme with
  | template closes opens more =>
    cases h
    exact ⟨_, rfl, rfl, rfl, rfl⟩
  | plain kind more =>
    rw [take] at h
    split at h
    · next hopener =>
      cases h
      obtain ⟨hkind, -⟩ := Bool.and_eq_true_iff.1 hopener
      obtain rfl := beq_iff_eq.1 hkind
      exact ⟨_, rfl, rfl, rfl, rfl⟩
    · split at h
      · next hcloser =>
        obtain ⟨hkind, -⟩ := Bool.and_eq_true_iff.1 hcloser
        obtain rfl := beq_iff_eq.1 hkind
        rw [takeCloser] at h
        split at h
        · cases h
        · dsimp only at h
          split at h
          · cases h
            exact ⟨_, rfl, rfl, rfl, rfl⟩
          · cases h
            exact ⟨_, rfl, rfl, rfl, rfl⟩
      · cases h
        exact ⟨_, rfl, rfl, rfl, rfl⟩

theorem closedBy_template (text : String) : closedBy (.template, text) =
    if text.toList.head? = some '}' then some .substitution else none := by
  simp [closedBy]

theorem openedBy_template (text : String) : openedBy (.template, text) =
    if ['$', '{'].isSuffixOf text.toList then some .substitution else none := by
  simp [openedBy]

theorem ne_punctuator_of_mem {a b e : List Char}
    (h : ¬ (kind == .punctuator && (chars == a || chars == b || chars == e)) = true) :
    ∀ mark ∈ [a, b, e], (kind, String.ofList chars) ≠ (.punctuator, String.ofList mark) := by
  intro mark hmark heq
  obtain ⟨rfl, hchars⟩ := Prod.mk.inj heq
  obtain rfl := String.ofList_inj.1 hchars
  simp only [List.mem_cons, List.not_mem_nil, or_false, ← or_assoc] at hmark
  simp [hmark] at h

theorem closedBy_plain (hkind : kind ≠ .template)
    (h : ¬ (kind == .punctuator && (chars == [')'] || chars == [']'] || chars == ['}'])) = true) :
    closedBy (kind, String.ofList chars) = none := by
  have hne := ne_punctuator_of_mem h
  rw [closedBy, if_neg (hne [')'] (by simp)), if_neg (hne [']'] (by simp)),
    if_neg (hne ['}'] (by simp)), if_neg fun h => hkind h.1]

theorem openedBy_plain (hkind : kind ≠ .template)
    (h : ¬ (kind == .punctuator && (chars == ['('] || chars == ['['] || chars == ['{'])) = true) :
    openedBy (kind, String.ofList chars) = none := by
  have hne := ne_punctuator_of_mem h
  rw [openedBy, if_neg (hne ['('] (by simp)), if_neg (hne ['['] (by simp)),
    if_neg (hne ['{'] (by simp)), if_neg fun h => hkind h.1]

/-- The depth and the open parentheses are counted as the word says. -/
theorem Scanner.take_counts (hlexeme : lexemeAt closing regex c rest = .ok lexeme)
    (h : s.take start newline lexeme (c :: rest.take lexeme.more) = .ok s')
    (hw : w = (lexeme.kind, String.ofList (c :: rest.take lexeme.more))) :
    s'.depth = depthPast s.depth w ∧
      s'.heads.length = s.heads.length - (closedBy w).toList.count .parenthesis +
        (openedBy w).toList.count .parenthesis := by
  subst hw
  cases lexeme with
  | template closes opens more =>
    obtain ⟨rfl, -, rfl⟩ := template_of_lexemeAt hlexeme
    cases h
    rw [depthPast, Lexeme.kind, closedBy_template, openedBy_template, String.toList_ofList,
      List.head?_cons]
    dsimp only [takeTemplate, Lexeme.more]
    by_cases hcloses : c = '}' <;> split <;> simp_all [push]
  | plain kind more =>
    have hkind := ne_template_of_lexemeAt hlexeme
    generalize c :: rest.take (Lexeme.plain kind more).more = chars at h ⊢
    rw [take] at h
    split at h
    · next hopener =>
      cases h
      simp only [Bool.and_eq_true, Bool.or_eq_true, beq_iff_eq] at hopener
      obtain ⟨rfl, (rfl | rfl) | rfl⟩ := hopener <;> exact ⟨rfl, rfl⟩
    · next hopener =>
      split at h
      · next hcloser =>
        simp only [Bool.and_eq_true, Bool.or_eq_true, beq_iff_eq] at hcloser
        rw [takeCloser] at h
        split at h
        · cases h
        · next d hd =>
          dsimp only at h
          rw [hd]
          obtain ⟨rfl, (rfl | rfl) | rfl⟩ := hcloser <;> cases h
          · exact ⟨rfl, List.length_tail⟩
          · exact ⟨rfl, rfl⟩
          · exact ⟨rfl, rfl⟩
      · next hcloser =>
        cases h
        rw [depthPast, Lexeme.kind, closedBy_plain hkind hcloser, openedBy_plain hkind hopener]
        exact ⟨rfl, rfl⟩

/-- A closing bracket stands outside what it closes, any other token where the scanner is. -/
theorem Scanner.take_depth {token : Token} (h : s.take start newline lexeme chars = .ok s')
    (hdone : s'.done = token :: s.done) (hkind : token.kind ≠ .template) :
    token.depth = s.depth - (closedBy token.word).toList.length := by
  cases lexeme with
  | template closes opens more =>
    cases h
    obtain ⟨rfl, -⟩ := List.cons_eq_cons.1 hdone
    exact absurd rfl hkind
  | plain kind more =>
    rw [take] at h
    split at h
    · next hopener =>
      cases h
      obtain ⟨rfl, -⟩ := List.cons_eq_cons.1 hdone
      simp only [Bool.and_eq_true, Bool.or_eq_true, beq_iff_eq] at hopener
      obtain ⟨rfl, (rfl | rfl) | rfl⟩ := hopener <;> rfl
    · split at h
      · next hcloser =>
        simp only [Bool.and_eq_true, Bool.or_eq_true, beq_iff_eq] at hcloser
        rw [takeCloser] at h
        split at h
        · cases h
        · next d hd =>
          dsimp only at h
          rw [hd]
          obtain ⟨rfl, (rfl | rfl) | rfl⟩ := hcloser <;> cases h <;>
            obtain ⟨rfl, -⟩ := List.cons_eq_cons.1 hdone <;> rfl
      · next hcloser =>
        cases h
        obtain ⟨rfl, -⟩ := List.cons_eq_cons.1 hdone
        rw [Token.word, closedBy_plain hkind hcloser]
        rfl

/-! ## What the scanner finds -/

/-- Whether a scanner counts the open brackets of a stack. -/
structure Scanner.Tracks (s : Scanner) (stack : List Bracket) : Prop where
  depth : s.depth = stack.length
  heads : s.heads.length = stack.count .parenthesis

theorem Scanner.Tracks.take (hs : s.Tracks stack)
    (hlexeme : lexemeAt closing regex c rest = .ok lexeme)
    (h : s.take start newline lexeme (c :: rest.take lexeme.more) = .ok s')
    (hnest : nest stack (lexeme.kind, String.ofList (c :: rest.take lexeme.more)) = some stack') :
    s'.Tracks stack' := by
  obtain ⟨hdepth, hheads⟩ := Scanner.take_counts hlexeme h rfl
  rw [hs.depth] at hdepth
  rw [hs.heads] at hheads
  refine ⟨?_, ?_⟩
  · have hpast := depthPast_of_nest hnest 0
    rwa [Nat.zero_add, Nat.zero_add, ← hdepth] at hpast
  · rw [hheads]
    rcases nest_cases hnest with ⟨hclosed, rfl⟩ | ⟨bracket, outer, hclosed, rfl, rfl⟩
    · rw [hclosed, List.count_append]
      simp only [Option.toList_none, List.count_nil]
      omega
    · rw [hclosed, List.count_append, List.count_cons]
      simp only [Option.toList_some, List.count_cons, List.count_nil]
      omega

/-- Whether tokens stand at the depths that their words count, from a depth on. -/
inductive Counted : Nat → List Token → Prop
  | nil (d : Nat) : Counted d []
  | cons {d : Nat} {t : Token} {ts : List Token}
      (hdepth : t.kind ≠ .template → t.depth = d - (closedBy t.word).toList.length)
      (hrest : Counted (depthPast d t.word) ts) : Counted d (t :: ts)

/-- The tokens that a scanner finds come after those it had, at the depths that the words count. -/
theorem Scanner.run_counted {input : List Char} {tokens : List Token}
    (h : s.run input = .ok tokens) :
    ∃ found, tokens = s.done.reverse ++ found ∧ Counted s.depth found := by
  fun_induction Scanner.run s input with
  | case1 => cases h
  | case2 s input blank newline hblank hrest hempty =>
    cases h
    exact ⟨[], (List.append_nil _).symm, .nil _⟩
  | case3 => cases h
  | case4 => cases h
  | case5 => cases h
  | case6 s input blank newline hblank start c rest hrest lexeme hlexeme s' htake ih =>
    obtain ⟨found, rfl, hfound⟩ := ih h
    obtain ⟨token, hdone, hword, -⟩ := Scanner.take_token htake
    obtain ⟨hpast, -⟩ := Scanner.take_counts hlexeme htake hword
    refine ⟨token :: found, ?_, .cons (Scanner.take_depth htake hdone) (hpast ▸ hfound)⟩
    rw [hdone, List.reverse_cons, List.append_assoc, List.singleton_append]

/-- The strings at a depth are those that the words tell. -/
theorem stringsAt_of_counted {tokens : List Token} (h : Counted d tokens) (k : Nat) :
    (tokens.filter fun t => t.kind == .string && t.depth == k).map Token.text =
      stringsAt k d (tokens.map Token.word) := by
  induction h with
  | nil => rfl
  | @cons d t ts hdepth hrest ih =>
    rw [List.map_cons, stringsAt, ← ih, List.filter_cons]
    by_cases hkind : t.kind = .string
    · have hclosed : closedBy t.word = none := by simp [closedBy, Token.word, hkind]
      have hplace := hdepth (by rw [hkind]; decide)
      rw [hclosed] at hplace
      by_cases hk : d = k <;> simp [Token.word, hkind, hplace, hk]
    · simp [Token.word, hkind]

/-! ## Computed results -/

/-- What is computed from a result tells that there is one. -/
theorem exists_ok_of_map_toOption {ε α β : Type} {result : Except ε α} {f : α → β} {b : β}
    (h : result.toOption.map f = some b) : ∃ a, result = .ok a ∧ f a = b := by
  cases result with
  | error e => cases h
  | ok a => exact ⟨a, rfl, Option.some.inj h⟩

end ModuleBundler.Script
