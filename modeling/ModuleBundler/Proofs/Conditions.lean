import ModuleBundler.Proofs.Expressions
import ModuleBundler.Proofs.ImportGrammar
import ModuleBundler.Proofs.Interpolation

/-
  What a slash means behind a closing parenthesis. For each parenthesis that is open the scanner
  keeps in mind whether it holds the condition of a control statement. What it keeps mirrors the
  tokens at every turn: the parentheses that are open, counted without any other brackets, and what
  stands in front of each (`Scanner.Reached.getElem?_heads_iff`). Brackets of other kinds and
  substitutions may come in between and need not nest with the parentheses. Hence a slash behind a
  closing parenthesis begins a regular expression just if the parenthesis that is closed there is
  the one of a condition (`beginsRegex_iff`).
-/

namespace ModuleBundler.Script

variable {s s' : Scanner} {input rest gap chars passed cs : List Char} {t closer : Token}
  {ts front back before : List Token} {source : String} {k : Nat} {start : Position}
  {newline : Bool} {lexeme : Lexeme}

/-! ## Counting parentheses -/

/-- How many tokens are this punctuator. -/
def countOf (text : String) (ts : List Token) : Nat := ts.countP fun t => t.isPunctuator text

/-- Whether tokens close none but their own parentheses and leave `k` of these open: counted from
the first token on, no more are closed anywhere than were opened. -/
structure LeavesOpen (k : Nat) (ts : List Token) : Prop where
  own : ∀ front, front <+: ts → countOf ")" front ≤ countOf "(" front
  count : countOf "(" ts = countOf ")" ts + k

/-- Whether the parenthesis behind `before` is open behind the tokens `front`, as are `k` others
inside it. -/
def IsOpenBehind (k : Nat) (before front : List Token) : Prop :=
  ∃ opener inside, front = before ++ opener :: inside ∧ opener.isPunctuator "(" = true ∧
    LeavesOpen k inside

/-- Whether a closing parenthesis behind the tokens `front` is the partner of the opening one behind
`before`. -/
def ClosesBehind (before front : List Token) : Prop := IsOpenBehind 0 before front

theorem countOf_concat (text : String) (ts : List Token) (t : Token) :
    countOf text (ts ++ [t]) = countOf text ts + if t.isPunctuator text then 1 else 0 := by
  rw [countOf, countOf, List.countP_append, List.countP_singleton]

theorem leavesOpen_nil_iff : LeavesOpen k [] ↔ k = 0 := by
  constructor
  · intro h
    simpa [countOf] using h.count.symm
  · rintro rfl
    refine ⟨fun front hfront => ?_, rfl⟩
    rw [List.prefix_nil.1 hfront]
    exact Nat.le_refl 0

theorem LeavesOpen.init (h : LeavesOpen k (ts ++ [t])) :
    ∀ front, front <+: ts → countOf ")" front ≤ countOf "(" front :=
  fun front hfront => h.own front (hfront.trans (List.prefix_append ts [t]))

/-- One more token, by which no more are closed than opened. -/
theorem LeavesOpen.concat {j : Nat} (h : LeavesOpen j ts)
    (hcount : countOf "(" (ts ++ [t]) = countOf ")" (ts ++ [t]) + k) :
    LeavesOpen k (ts ++ [t]) := by
  refine ⟨fun front hfront => ?_, hcount⟩
  rcases List.prefix_concat_iff.1 hfront with rfl | hfront
  · rw [hcount]
    exact Nat.le_add_right _ _
  · exact h.own front hfront

theorem leavesOpen_concat_opens (ht : t.isPunctuator "(" = true) :
    LeavesOpen k (ts ++ [t]) ↔ ∃ j, k = j + 1 ∧ LeavesOpen j ts := by
  have hopen : countOf "(" (ts ++ [t]) = countOf "(" ts + 1 := by
    rw [countOf_concat, ht, if_pos rfl]
  have hclose : countOf ")" (ts ++ [t]) = countOf ")" ts := by
    rw [countOf_concat, Token.isPunctuator_of_ne ht (by decide)]
    rfl
  constructor
  · intro h
    have hcount := h.count
    have hown := h.init ts (List.prefix_refl ts)
    exact ⟨k - 1, by omega, h.init, by omega⟩
  · rintro ⟨j, rfl, h⟩
    have hcount := h.count
    exact h.concat (by omega)

theorem leavesOpen_concat_closes (ht : t.isPunctuator ")" = true) :
    LeavesOpen k (ts ++ [t]) ↔ LeavesOpen (k + 1) ts := by
  have hopen : countOf "(" (ts ++ [t]) = countOf "(" ts := by
    rw [countOf_concat, Token.isPunctuator_of_ne ht (by decide)]
    rfl
  have hclose : countOf ")" (ts ++ [t]) = countOf ")" ts + 1 := by
    rw [countOf_concat, ht, if_pos rfl]
  constructor
  · intro h
    have hcount := h.count
    exact ⟨h.init, by omega⟩
  · intro h
    have hcount := h.count
    exact h.concat (by omega)

theorem leavesOpen_concat_other (hopen : t.isPunctuator "(" = false)
    (hclose : t.isPunctuator ")" = false) : LeavesOpen k (ts ++ [t]) ↔ LeavesOpen k ts := by
  have hopen : countOf "(" (ts ++ [t]) = countOf "(" ts := by
    rw [countOf_concat, hopen]
    rfl
  have hclose : countOf ")" (ts ++ [t]) = countOf ")" ts := by
    rw [countOf_concat, hclose]
    rfl
  constructor
  · intro h
    exact ⟨h.init, by rw [← hopen, h.count, hclose]⟩
  · intro h
    exact h.concat (by rw [hopen, h.count, hclose])

/-! ## What is open -/

/-- Whether the parenthesis behind `before` is open behind one more token: either it is that token,
or it was open before. -/
theorem isOpenBehind_concat : IsOpenBehind k before (front ++ [t]) ↔
    (before = front ∧ t.isPunctuator "(" = true ∧ k = 0) ∨
      ∃ opener inside, front = before ++ opener :: inside ∧ opener.isPunctuator "(" = true ∧
        LeavesOpen k (inside ++ [t]) := by
  constructor
  · rintro ⟨opener, inside, hfront, hopener, hinside⟩
    rcases List.eq_nil_or_concat' inside with rfl | ⟨inside, u, rfl⟩
    · obtain ⟨rfl, hlast⟩ := List.append_inj' hfront rfl
      obtain rfl := List.singleton_inj.1 hlast
      exact Or.inl ⟨rfl, hopener, leavesOpen_nil_iff.1 hinside⟩
    · rw [← List.cons_append, ← List.append_assoc] at hfront
      obtain ⟨rfl, hlast⟩ := List.append_inj' hfront rfl
      obtain rfl := List.singleton_inj.1 hlast
      exact Or.inr ⟨opener, inside, rfl, hopener, hinside⟩
  · rintro (⟨rfl, ht, rfl⟩ | ⟨opener, inside, rfl, hopener, hinside⟩)
    · exact ⟨t, [], rfl, ht, leavesOpen_nil_iff.2 rfl⟩
    · exact ⟨opener, inside ++ [t], by simp, hopener, hinside⟩

theorem not_isOpenBehind_nil : ¬ IsOpenBehind k before [] := by
  rintro ⟨opener, inside, hfront, -⟩
  simp at hfront

theorem isOpenBehind_opens (ht : t.isPunctuator "(" = true) :
    IsOpenBehind k before (front ++ [t]) ↔
      (before = front ∧ k = 0) ∨ ∃ j, k = j + 1 ∧ IsOpenBehind j before front := by
  rw [isOpenBehind_concat]
  simp only [ht, true_and, leavesOpen_concat_opens ht]
  refine or_congr_right ⟨?_, ?_⟩
  · rintro ⟨opener, inside, hfront, hopener, j, hj, hinside⟩
    exact ⟨j, hj, opener, inside, hfront, hopener, hinside⟩
  · rintro ⟨j, hj, opener, inside, hfront, hopener, hinside⟩
    exact ⟨opener, inside, hfront, hopener, j, hj, hinside⟩

theorem isOpenBehind_of_not_opens {j : Nat} (ht : t.isPunctuator "(" = false)
    (hlast : ∀ inside, LeavesOpen k (inside ++ [t]) ↔ LeavesOpen j inside) :
    IsOpenBehind k before (front ++ [t]) ↔ IsOpenBehind j before front := by
  rw [isOpenBehind_concat, ht]
  simp only [hlast]
  exact or_iff_right (by simp)

theorem isOpenBehind_closes (ht : t.isPunctuator ")" = true) :
    IsOpenBehind k before (front ++ [t]) ↔ IsOpenBehind (k + 1) before front :=
  isOpenBehind_of_not_opens (Token.isPunctuator_of_ne ht (by decide)) fun _ =>
    leavesOpen_concat_closes ht

theorem isOpenBehind_other (hopen : t.isPunctuator "(" = false)
    (hclose : t.isPunctuator ")" = false) :
    IsOpenBehind k before (front ++ [t]) ↔ IsOpenBehind k before front :=
  isOpenBehind_of_not_opens hopen fun _ => leavesOpen_concat_other hopen hclose

/-! ## The stack -/

/-- A stack with an entry for each open parenthesis, past one more token. If that one opens a
parenthesis, `top` is its entry. -/
def stackPast {α : Type} (top : α) (stack : List α) (t : Token) : List α :=
  if t.isPunctuator "(" then top :: stack
  else if t.isPunctuator ")" then stack.tail
  else stack

theorem map_stackPast {α β : Type} (f : α → β) (top : α) (stack : List α) (t : Token) :
    (stackPast top stack t).map f = stackPast (f top) (stack.map f) t := by
  unfold stackPast
  split_ifs
  · rfl
  · exact List.map_tail
  · rfl

/-- The tokens in front of each parenthesis that is open, innermost first, behind tokens that are
given newest first. -/
def openFronts : List Token → List (List Token)
  | [] => []
  | t :: ts => stackPast ts.reverse (openFronts ts) t

/-- The stack has what counting finds. -/
theorem getElem?_openFronts_iff :
    (openFronts ts)[k]? = some before ↔ IsOpenBehind k before ts.reverse := by
  induction ts generalizing k with
  | nil => exact ⟨fun h => absurd h (by simp [openFronts]), fun h => absurd h not_isOpenBehind_nil⟩
  | cons t ts ih =>
    rw [openFronts, stackPast, List.reverse_cons]
    split
    · next hopen =>
      rw [isOpenBehind_opens hopen]
      cases k with
      | zero => simp [eq_comm]
      | succ k => simp [ih]
    · next hopen =>
      split
      · next hclose => rw [isOpenBehind_closes hclose, List.getElem?_tail, ih]
      · next hclose =>
        rw [isOpenBehind_other (Bool.eq_false_iff.2 hopen) (Bool.eq_false_iff.2 hclose), ih]

/-- No two parentheses have as many others open inside them. So a closing one has no more than one
partner. -/
theorem IsOpenBehind.unique {before' : List Token} (h : IsOpenBehind k before front)
    (h' : IsOpenBehind k before' front) : before = before' := by
  rw [← front.reverse_reverse, ← getElem?_openFronts_iff] at h h'
  exact Option.some.inj (h.symm.trans h')

/-! ## Conditions -/

/-- Whether a parenthesis behind these tokens holds the condition of a control statement. -/
inductive OpensCondition : List Token → Prop
  | name {front : List Token} {t : Token} (hkind : t.kind = .name)
      (htext : t.text ∈ Expression.headNames) : OpensCondition (front ++ [t])
  | forAwait {front : List Token} {t u : Token} (ht : t.isName "for" = true)
      (hu : u.isName "await" = true) : OpensCondition (front ++ [t, u])

/-- What the scanner says of a parenthesis behind these tokens. -/
def isHead (front : List Token) : Bool :=
  Scanner.opensHead { Scanner.initial with done := front.reverse }

theorem isHead_reverse_done (s : Scanner) : isHead s.done.reverse = s.opensHead := by
  rw [isHead, List.reverse_reverse]
  rfl

theorem isHeadName_iff (t : Token) :
    (t.isName "if" || t.isName "while" || t.isName "for" || t.isName "with") = true ↔
      t.kind = .name ∧ t.text ∈ Expression.headNames := by
  simp [Token.isName, Expression.headNames, ← and_or_left, or_assoc]

theorem isName_await_of_headName (h : t.text ∈ Expression.headNames) :
    t.isName "await" = false := by
  have hne : t.text ≠ "await" := ne_of_mem_of_not_mem h (by decide)
  rw [Token.isName, beq_eq_false_iff_ne.2 hne, Bool.and_false]

/-- The scanner looks at the last token, and at the one before only if the last is `await`. -/
theorem isHead_iff : isHead front = true ↔ OpensCondition front := by
  constructor
  · intro h
    rw [isHead, Scanner.opensHead] at h
    generalize hback : front.reverse = done at h
    rw [← List.reverse_reverse front, hback]
    dsimp only at h
    split at h
    · cases h
    · next last before =>
      rw [List.reverse_cons]
      split at h
      · next hawait =>
        split at h
        · cases h
        · next t before =>
          rw [List.reverse_cons, List.append_assoc]
          exact .forAwait h hawait
      · obtain ⟨hkind, htext⟩ := (isHeadName_iff last).1 h
        exact .name hkind htext
  · rintro (⟨hkind, htext⟩ | ⟨ht, hu⟩)
    · next front t =>
      simp only [isHead, Scanner.opensHead, List.reverse_append, List.reverse_singleton,
        List.singleton_append, isName_await_of_headName htext]
      exact (isHeadName_iff t).2 ⟨hkind, htext⟩
    · next front t u =>
      simp only [isHead, Scanner.opensHead, List.reverse_append, List.reverse_cons,
        List.reverse_nil, List.nil_append, List.cons_append, hu, if_pos]
      exact ht

/-! ## Turns -/

theorem isPunctuator_ofList (kind : TokenKind) (chars : List Char) (start : Position) (depth : Nat)
    (newline : Bool) (ds : List Char) :
    (⟨kind, String.ofList chars, start, depth, newline⟩ : Token).isPunctuator (String.ofList ds) =
      (kind == .punctuator && chars == ds) := by
  rw [Token.isPunctuator, ofList_beq]

/-- To take a lexeme in does to what the scanner keeps in mind as its token does to a stack. Behind
a closing parenthesis the scanner knows what was kept of its partner. -/
theorem Scanner.Takes.keeps_heads (h : s.Takes start newline chars lexeme s')
    (hdone : s'.done = t :: s.done) :
    s'.heads = stackPast s.opensHead s.heads t ∧
      (t.isPunctuator ")" = true → s'.afterHead = s.heads.head?.getD false) := by
  obtain ⟨depth, rfl, -⟩ := Scanner.token_eq (Scanner.take_eq_ok_iff.2 h) hdone
  rw [stackPast, show "(" = String.ofList ['('] from rfl, show ")" = String.ofList [')'] from rfl,
    isPunctuator_ofList, isPunctuator_ofList]
  cases h with
  | template closes opens more => exact ⟨rfl, fun h => absurd h Bool.false_ne_true⟩
  | opener hchars =>
    have hclose : (chars == [')']) = false := by
      rw [beq_eq_false_iff_ne]
      rintro rfl
      cases hchars
    simp only [Lexeme.kind, beq_self_eq_true, Bool.true_and, hclose]
    exact ⟨rfl, fun h => absurd h Bool.false_ne_true⟩
  | closer hopener hchars htake =>
    obtain ⟨d, -, rfl⟩ := Scanner.takeCloser_eq_ok_iff.1 htake
    have hopen : (chars == ['(']) = false := by
      rw [beq_eq_false_iff_ne]
      rintro rfl
      cases hopener
    simp only [Lexeme.kind, beq_self_eq_true, Bool.true_and, hopen]
    refine ⟨rfl, fun hclose => ?_⟩
    rw [hclose, Bool.true_and]
  | @other kind more hplain =>
    have hnone : ∀ c, c = '(' ∨ c = ')' → (kind == .punctuator && chars == [c]) = false := by
      rintro c hc
      rw [Bool.and_eq_false_iff, beq_eq_false_iff_ne, beq_eq_false_iff_ne]
      refine Decidable.not_or_of_imp ?_
      rintro hkind rfl
      obtain ⟨hopener, hcloser⟩ := hplain hkind
      rcases hc with rfl | rfl
      · cases hopener
      · cases hcloser
    simp only [Lexeme.kind, hnone '(' (Or.inl rfl), hnone ')' (Or.inr rfl)]
    exact ⟨rfl, fun h => absurd h Bool.false_ne_true⟩

theorem Scanner.Turn.keeps_heads (h : s.Turn input t s' rest) :
    s'.heads = stackPast s.opensHead s.heads t ∧
      (t.isPunctuator ")" = true → s'.afterHead = s.heads.head?.getD false) := by
  cases h with
  | take hinput hblank hlexeme hmore htake hdone =>
    exact (Scanner.take_eq_ok_iff.1 htake).keeps_heads hdone

/-- At every turn the scanner has kept in mind, of the parentheses that are open, whether they hold
the condition of a control statement. -/
theorem Scanner.Reached.heads_eq (h : Reached source s input) :
    s.heads = (openFronts s.done).map isHead := by
  induction h with
  | start => rfl
  | turn h hturn ih =>
    rw [hturn.keeps_heads.1, hturn.done_eq, openFronts, map_stackPast, isHead_reverse_done, ih]

/-- What is kept in mind mirrors the tokens: the entry inside which there are `k` others is that of
the parenthesis inside which `k` others are open. -/
theorem Scanner.Reached.getElem?_heads_iff (h : Reached source s input) {head : Bool} :
    s.heads[k]? = some head ↔
      ∃ before, IsOpenBehind k before s.done.reverse ∧ (head = true ↔ OpensCondition before) := by
  rw [h.heads_eq, List.getElem?_map, Option.map_eq_some_iff]
  refine exists_congr fun before => ?_
  rw [getElem?_openFronts_iff, ← isHead_iff, Bool.eq_iff_iff]
  exact and_congr_right fun _ => iff_comm

/-- Behind a closing parenthesis the scanner knows whether it is the one of a condition. -/
theorem Scanner.Reached.afterHead_iff (h : Reached source s input)
    (hturn : s.Turn input closer s' rest) (hcloser : closer.isPunctuator ")" = true) :
    s'.afterHead = true ↔ ∃ before, ClosesBehind before s.done.reverse ∧ OpensCondition before := by
  rw [hturn.keeps_heads.2 hcloser, Option.getD_eq_iff, List.head?_eq_getElem?,
    h.getElem?_heads_iff]
  simp [ClosesBehind]

/-! ## Slashes -/

theorem Scanner.Reached.exists_passed (h : Reached source s input) :
    ∃ passed, source.toList = passed ++ input ∧ s.position.offset = byteSize passed := by
  induction h with
  | start =>
    refine ⟨_, (List.take_append_drop _ _).symm, ?_⟩
    rw [atBody, Position.offset_after]
    exact Nat.zero_add _
  | turn h hturn ih =>
    obtain ⟨passed, hsource, hoffset⟩ := ih
    obtain ⟨more, rfl, hposition⟩ := hturn.exists_passed
    refine ⟨passed ++ more, by rw [hsource, List.append_assoc], ?_⟩
    rw [hposition, Position.offset_after, hoffset, byteSize_append]

/-- A scanner that finds tokens comes to each of them. -/
theorem Scanner.Finds.exists_reached (h : s.Finds input (front ++ back))
    (hreached : Reached source s input) :
    ∃ s' rest, Reached source s' rest ∧ s'.Finds rest back ∧
      s'.done.reverse = s.done.reverse ++ front := by
  induction front generalizing s input with
  | nil => exact ⟨s, input, hreached, h, (List.append_nil _).symm⟩
  | cons t front ih =>
    cases h with
    | turn hturn hrest =>
      obtain ⟨s₂, rest, hreached₂, hfinds, hdone⟩ := ih hrest (.turn hreached hturn)
      refine ⟨s₂, rest, hreached₂, hfinds, ?_⟩
      rw [hdone, hturn.done_eq, List.reverse_cons, List.append_assoc, List.singleton_append]

theorem isStop_slash (hcomment : ∀ c ∈ cs.head?, c ≠ '/' ∧ c ≠ '*') : IsStop '/' cs := by
  refine ⟨rfl, ?_, ?_⟩
  · rintro ⟨rest, hrest⟩
    obtain ⟨-, rfl⟩ := List.cons_eq_cons.1 hrest
    exact (hcomment '/' rfl).1 rfl
  · rintro ⟨rest, hrest⟩
    obtain ⟨-, rfl⟩ := List.cons_eq_cons.1 hrest
    exact (hcomment '*' rfl).2 rfl

/-- The reader of blanks goes over trivia up to where neither a blank nor a comment begins. -/
theorem Trivia.exists_blankLength_stop {c : Char} (h : Trivia gap) (hstop : IsStop c cs) :
    ∃ ends, blankLength .between 0 false (gap ++ c :: cs) = .ok (gap.length, ends) := by
  obtain ⟨ends, -, hread⟩ := h.exists_blankLength
  refine ⟨ends, ?_⟩
  rw [hread, blankLength_stop hstop, Nat.zero_add, Bool.false_or]

/-- A slash that begins no comment is read as the scanner sees fit. -/
theorem Scanner.Turn.slash_cases (h : s.Turn (gap ++ '/' :: cs) t s' rest) (hgap : Trivia gap)
    (hstop : IsStop '/' cs) : t.start = s.position.after gap ∧
      (t.kind = .regex ∨ t.isPunctuator "/" = true) ∧
      (t.kind = .regex ↔ s.regexAllowed = true) := by
  obtain ⟨ends, hpassed⟩ := hgap.exists_blankLength_stop hstop
  cases h with
  | @take gap' cs' newline c lexeme hinput hblank hlexeme hmore htake hdone =>
    have hlength := (Prod.mk.inj (Except.ok.inj (hpassed.symm.trans hblank))).1
    obtain ⟨rfl, hslash⟩ := List.append_inj hinput hlength
    obtain ⟨rfl, -⟩ := List.cons_eq_cons.1 hslash
    obtain ⟨depth, rfl, -⟩ := Scanner.token_eq htake hdone
    refine ⟨rfl, ?_⟩
    cases hregex : s.regexAllowed with
    | true =>
      rw [hregex] at hlexeme
      have hkind := kind_of_slash hlexeme
      exact ⟨Or.inl hkind, fun _ => rfl, fun _ => hkind⟩
    | false =>
      rw [hregex] at hlexeme
      obtain rfl : Lexeme.plain .punctuator 0 = lexeme := Except.ok.inj hlexeme
      obtain rfl := List.eq_nil_of_length_eq_zero hmore.symm
      exact ⟨Or.inr rfl, iff_of_false (by rintro ⟨⟩) Bool.false_ne_true⟩

/-- The slash behind trivia is the next token that is found. -/
theorem Scanner.Finds.exists_slash (h : s.Finds (gap ++ '/' :: cs) ts) (hgap : Trivia gap)
    (hstop : IsStop '/' cs) : ∃ slash more, ts = slash :: more ∧
      slash.start = s.position.after gap ∧
      (slash.kind = .regex ∨ slash.isPunctuator "/" = true) ∧
      (slash.kind = .regex ↔ s.regexAllowed = true) := by
  cases h with
  | stop hblank hend hsub =>
    obtain ⟨ends, hpassed⟩ := hgap.exists_blankLength_stop hstop
    obtain ⟨rfl, -⟩ := Prod.mk.inj (Except.ok.inj (hpassed.symm.trans hblank))
    rw [List.drop_left] at hend
    cases hend
  | turn hturn hrest => exact ⟨_, _, rfl, hturn.slash_cases hgap hstop⟩

theorem Scanner.Turn.regexAllowed_eq (h : s.Turn input closer s' rest)
    (hcloser : closer.isPunctuator ")" = true) : s'.regexAllowed = s'.afterHead := by
  obtain ⟨hkind, htext⟩ := Bool.and_eq_true_iff.1 hcloser
  rw [Scanner.regexAllowed, h.done_eq]
  dsimp only
  rw [beq_iff_eq.1 hkind]
  exact if_pos htext

/-- Behind a closing parenthesis and trivia, a slash that begins no comment begins a regular
expression exactly if the parenthesis has a partner, counting parentheses only, and this one stands
behind the name of a control statement with a condition, or behind `for await`. Otherwise it is a
token on its own. -/
theorem beginsRegex_iff (hscan : scan source = .ok (front ++ closer :: back))
    (hcloser : closer.isPunctuator ")" = true)
    (hsource : source.toList = passed ++ (gap ++ '/' :: cs))
    (hpassed : byteSize passed = closer.stop) (hgap : Trivia gap)
    (hcomment : ∀ c ∈ cs.head?, c ≠ '/' ∧ c ≠ '*') :
    ∃ slash more, back = slash :: more ∧ slash.start.offset = byteSize (passed ++ gap) ∧
      (slash.kind = .regex ∨ slash.isPunctuator "/" = true) ∧
      (slash.kind = .regex ↔ ∃ before, ClosesBehind before front ∧ OpensCondition before) := by
  obtain ⟨s, input, hreached, hfinds, hdone⟩ := (finds_of_scan hscan).exists_reached .start
  have hdone : s.done.reverse = front := hdone
  cases hfinds with
  | @turn _ s' _ rest _ _ hturn hrest =>
    -- The scanner stands right behind the parenthesis, and before the gap.
    obtain ⟨passed', hsource', hoffset⟩ := (hreached.turn hturn).exists_passed
    obtain ⟨-, -, -, -, hposition⟩ := hturn.split
    have hstop : s'.position.offset = closer.stop := by
      rw [hposition, Position.offset_after, closer.stop_eq]
    obtain ⟨rfl, rfl⟩ := append_inj_of_byteSize (hsource.symm.trans hsource')
      (by rw [hpassed, ← hstop, hoffset])
    obtain ⟨slash, more, rfl, hstart, hcases, hregex⟩ :=
      hrest.exists_slash hgap (isStop_slash hcomment)
    refine ⟨slash, more, rfl, ?_, hcases, ?_⟩
    · rw [hstart, Position.offset_after, hoffset, byteSize_append]
    · rw [hregex, hturn.regexAllowed_eq hcloser, hreached.afterHead_iff hturn hcloser, hdone]

/-- A loop over a list that is never closed, with a call and a template in front of the end of its
head. -/
def loopSource : String := "for await (x of [f(\x60($\x7b(1)\x7d\x60)) // )\n /re/g.test(x)\n"

theorem beginsRegex_loopSource : ∃ passed gap cs front closer slash more,
    scan loopSource = .ok (front ++ closer :: slash :: more) ∧ closer.isPunctuator ")" = true ∧
      loopSource.toList = passed ++ (gap ++ '/' :: cs) ∧ byteSize passed = closer.stop ∧
      Trivia gap ∧ (∀ c ∈ cs.head?, c ≠ '/' ∧ c ≠ '*') ∧
      slash.start.offset = byteSize (passed ++ gap) ∧ slash.kind = .regex ∧
      ∃ before, ClosesBehind before front ∧ OpensCondition before := by
  let tokens := tokensOf loopSource
  let closer := tokens[14]?.getD default
  let passed := loopSource.toList.take 30
  obtain ⟨hscan, hcloser, hsource, hpassed, hkind⟩ :
      scan loopSource = .ok (tokens.take 14 ++ closer :: tokens.drop 15) ∧
        closer.isPunctuator ")" = true ∧
        loopSource.toList =
          passed ++ (" // )\n ".toList ++ '/' :: "re/g.test(x)\n".toList) ∧
        byteSize passed = closer.stop ∧
        (tokens.drop 15).head?.map Token.kind = some .regex := by
    decide +kernel
  have hline : Trivia "// )\n ".toList :=
    @Trivia.lineComment " )".toList " ".toList (by decide) (.blank (by decide) .nil)
  have hgap : Trivia " // )\n ".toList := .blank (by decide) hline
  have hcomment : ∀ c ∈ ("re/g.test(x)\n".toList).head?, c ≠ '/' ∧ c ≠ '*' := by
    intro c hc
    obtain rfl : 'r' = c := Option.some.inj hc
    decide
  obtain ⟨slash, more, hback, hoffset, -, hregex⟩ :=
    beginsRegex_iff hscan hcloser hsource hpassed hgap hcomment
  rw [hback] at hscan hkind
  have hkind : slash.kind = .regex := Option.some.inj hkind
  exact ⟨_, _, _, _, _, slash, more, hscan, hcloser, hsource, hpassed, hgap, hcomment, hoffset,
    hkind, hregex.1 hkind⟩

end ModuleBundler.Script
