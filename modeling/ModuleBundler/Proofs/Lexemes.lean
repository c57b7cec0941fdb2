import ModuleBundler.Proofs.Scanning

/-
  What a lexeme depends on. A string, a part of a template and a regular expression end at a mark
  that is found in the text (`exists_quote_of_stringLength` and the like), and what is found does
  not depend on the text after it. Names, numbers and punctuators look one or two characters
  ahead, but never over the end of a line. Hence a lexeme is the same wherever its text stands, as
  long as a line ends between that text and what follows (`lexemeAt_append`), and so is the blank
  part in front of it (`blankLength_append`).
-/

namespace ModuleBundler.Script

variable {quote c d : Char} {n k : Nat} {cs rest : List Char} {opens inClass : Bool}

/-! ## Where a lexeme ends -/

/-- A string ends with its quote. -/
theorem exists_quote_of_stringLength (h : stringLength quote n cs = some k) :
    ∃ before after, cs = before ++ quote :: after ∧ k = n + before.length + 1 := by
  fun_induction stringLength quote n cs with
  | case1 n a cs ih =>
    obtain ⟨before, after, rfl, hk⟩ := ih h
    exact ⟨'\\' :: a :: before, after, rfl, by simp only [List.length_cons]; omega⟩
  | case2 n c cs hescape hquote =>
    cases h
    exact ⟨[], cs, by rw [beq_iff_eq.1 hquote]; rfl, rfl⟩
  | case3 => cases h
  | case4 n c cs hescape hquote hline ih =>
    obtain ⟨before, after, rfl, hk⟩ := ih h
    exact ⟨c :: before, after, rfl, by simp only [List.length_cons]; omega⟩
  | case5 => cases h

/-- A part of a template ends by opening a substitution, or with its mark. -/
theorem exists_mark_of_templateLength (h : templateLength n cs = some (k, opens)) :
    ∃ before after, if opens then cs = before ++ '$' :: '{' :: after ∧ k = n + before.length + 2
      else cs = before ++ '\x60' :: after ∧ k = n + before.length + 1 := by
  fun_induction templateLength n cs with
  | case1 n a cs ih =>
    obtain ⟨before, after, hmark⟩ := ih h
    refine ⟨'\\' :: a :: before, after, ?_⟩
    cases opens <;> obtain ⟨rfl, rfl⟩ := hmark <;>
      exact ⟨rfl, by simp only [List.length_cons]; omega⟩
  | case2 n cs =>
    cases h
    exact ⟨[], cs, rfl, rfl⟩
  | case3 n c cs hescape hopens hmark =>
    cases h
    exact ⟨[], cs, by rw [beq_iff_eq.1 hmark]; rfl, rfl⟩
  | case4 n c cs hescape hopens hmark ih =>
    obtain ⟨before, after, hmark⟩ := ih h
    refine ⟨c :: before, after, ?_⟩
    cases opens <;> obtain ⟨rfl, rfl⟩ := hmark <;>
      exact ⟨rfl, by simp only [List.length_cons]; omega⟩
  | case5 => cases h

/-- A regular expression ends with a slash. -/
theorem exists_slash_of_regexLength (h : regexLength inClass n cs = some k) :
    ∃ before after, cs = before ++ '/' :: after ∧ k = n + before.length + 1 := by
  fun_induction regexLength inClass n cs with
  | case1 inClass n a cs ih =>
    obtain ⟨before, after, rfl, hk⟩ := ih h
    exact ⟨'\\' :: a :: before, after, rfl, by simp only [List.length_cons]; omega⟩
  | case2 inClass n c cs hescape hopens ih =>
    obtain ⟨before, after, rfl, hk⟩ := ih h
    exact ⟨c :: before, after, rfl, by simp only [List.length_cons]; omega⟩
  | case3 inClass n c cs hescape hopens hcloses ih =>
    obtain ⟨before, after, rfl, hk⟩ := ih h
    exact ⟨c :: before, after, rfl, by simp only [List.length_cons]; omega⟩
  | case4 inClass n c cs hescape hopens hcloses hslash =>
    cases h
    rw [Bool.and_eq_true, beq_iff_eq] at hslash
    exact ⟨[], cs, by rw [hslash.1]; rfl, rfl⟩
  | case5 => cases h
  | case6 inClass n c cs hescape hopens hcloses hslash hline ih =>
    obtain ⟨before, after, rfl, hk⟩ := ih h
    exact ⟨c :: before, after, rfl, by simp only [List.length_cons]; omega⟩
  | case7 => cases h

/-! ## Texts that go on -/

theorem stringLength_append (hquote : quote ≠ '\\') (h : stringLength quote n cs = some k)
    (rest : List Char) : stringLength quote n (cs ++ rest) = some k := by
  fun_induction stringLength quote n cs with
  | case1 n a cs ih => rw [List.cons_append, List.cons_append, stringLength, ih h]
  | case2 n c cs hescape hend =>
    rw [List.cons_append, stringLength, if_pos hend, h]
    rintro a ds rfl
    exact absurd (beq_iff_eq.1 hend).symm hquote
  | case3 => cases h
  | case4 n c cs hescape hend hline ih =>
    rw [List.cons_append, stringLength, if_neg hend, if_neg hline, ih h]
    intro a ds hback hds
    cases cs with
    | nil => cases h
    | cons b cs => exact hescape b cs hback rfl
  | case5 => cases h

theorem templateLength_append (h : templateLength n cs = some (k, opens)) (rest : List Char) :
    templateLength n (cs ++ rest) = some (k, opens) := by
  fun_induction templateLength n cs with
  | case1 n a cs ih => rw [List.cons_append, List.cons_append, templateLength, ih h]
  | case2 n cs => rw [List.cons_append, List.cons_append, templateLength, h]
  | case3 n c cs hescape hopens hmark =>
    obtain rfl := beq_iff_eq.1 hmark
    rw [List.cons_append, templateLength, if_pos hmark, h]
    · rintro a ds ⟨⟩
    · rintro ds ⟨⟩
  | case4 n c cs hescape hopens hmark ih =>
    cases cs with
    | nil => cases h
    | cons b cs =>
      rw [List.cons_append, templateLength, if_neg hmark, ih h]
      · intro a ds hback _
        exact hescape b cs hback rfl
      · intro ds hdollar hbrace
        exact hopens cs hdollar (by rw [(List.cons_eq_cons.1 hbrace).1])
  | case5 => cases h

theorem regexLength_append (h : regexLength inClass n cs = some k) (rest : List Char) :
    regexLength inClass n (cs ++ rest) = some k := by
  fun_induction regexLength inClass n cs with
  | case1 inClass n a cs ih => rw [List.cons_append, List.cons_append, regexLength, ih h]
  | case2 inClass n c cs hescape hopens ih =>
    rw [List.cons_append, regexLength, if_pos hopens, ih h]
    rintro a ds rfl
    cases hopens
  | case3 inClass n c cs hescape hopens hcloses ih =>
    rw [List.cons_append, regexLength, if_neg hopens, if_pos hcloses, ih h]
    rintro a ds rfl
    cases hcloses
  | case4 inClass n c cs hescape hopens hcloses hslash =>
    rw [List.cons_append, regexLength, if_neg hopens, if_neg hcloses, if_pos hslash, h]
    rintro a ds rfl
    cases hslash
  | case5 => cases h
  | case6 inClass n c cs hescape hopens hcloses hslash hline ih =>
    cases cs with
    | nil => cases h
    | cons b cs =>
      rw [List.cons_append, regexLength, if_neg hopens, if_neg hcloses, if_neg hslash,
        if_neg hline, ih h]
      intro a ds hback _
      exact hescape b cs hback rfl
  | case7 => cases h

/-! ## Ends of lines -/

/-- Whether a line ends between two texts: with the first, or at the front of the second. -/
def IsParted (cs rest : List Char) : Prop := cs.getLast? = some '\n' ∨ rest.head? = some '\n'

theorem IsParted.of_cons (h : IsParted (c :: d :: cs) rest) :
    IsParted (d :: cs) rest := by
  unfold IsParted at *
  rwa [List.getLast?_cons_cons] at h

theorem IsParted.tail (h : IsParted (c :: cs) rest) (hc : c ≠ '\n') : IsParted cs rest := by
  cases cs with
  | nil => exact Or.inr (h.resolve_left (by simpa [List.getLast?] using hc))
  | cons d cs => exact h.of_cons

theorem IsParted.nil_or (h : IsParted (c :: cs) rest) : cs = [] ∨ IsParted cs rest := by
  cases cs with
  | nil => exact Or.inl rfl
  | cons d cs => exact Or.inr h.of_cons

theorem IsParted.of_append {before : List Char} (h : IsParted (before ++ cs) rest)
    (hcs : cs ≠ []) : IsParted cs rest := by
  unfold IsParted at *
  obtain ⟨c, cs, rfl⟩ := List.exists_cons_of_ne_nil hcs
  simpa using h

/-- Nothing that ends with its line goes on behind a text that a line ends after. -/
theorem takeWhile_append_of_isParted {p : Char → Bool} (hp : p '\n' = false) (hc : c ≠ '\n')
    (h : IsParted (c :: cs) rest) : (cs ++ rest).takeWhile p = cs.takeWhile p := by
  induction cs generalizing c with
  | nil =>
    have hhead : rest.head? = some '\n' := h.resolve_left (by simpa [List.getLast?] using hc)
    obtain ⟨rest, rfl⟩ := List.head?_eq_some_iff.1 hhead
    simp [hp]
  | cons d cs ih =>
    by_cases hd : p d = true
    · have hne : d ≠ '\n' := by
        rintro rfl
        exact absurd hp (by simp [hd])
      simp [hd, ih hne h.of_cons]
    · simp [hd]

theorem punctuatorLength_append (hc : c ≠ '\n') (h : IsParted (c :: cs) rest) :
    punctuatorLength c (cs ++ rest) = punctuatorLength c cs := by
  have hhead : ∀ d : Char, d ≠ '\n' → IsParted [d] rest → ∃ more, rest = '\n' :: more := by
    intro d hd hparted
    exact List.head?_eq_some_iff.1 (hparted.resolve_left (by simpa [List.getLast?] using hd))
  match cs with
  | [] =>
    obtain ⟨more, rfl⟩ := hhead c hc h
    unfold punctuatorLength
    split <;> split <;> simp_all
  | [d] =>
    by_cases hd : d = '\n'
    · unfold punctuatorLength
      split <;> split <;> simp_all
    · obtain ⟨more, rfl⟩ := hhead d hd h.of_cons
      unfold punctuatorLength
      split <;> split <;> simp_all
  | d :: e :: cs =>
    unfold punctuatorLength
    split <;> split <;> simp_all

/-! ## Lexemes -/

variable {closing regex : Bool} {lexeme : Lexeme}

theorem punctuatorLength_le (c : Char) (cs : List Char) : punctuatorLength c cs ≤ cs.length := by
  unfold punctuatorLength
  split
  · simp
  · simp
  · exact Nat.zero_le _

/-- A lexeme lies in its text. -/
theorem more_le_of_lexemeAt (h : lexemeAt closing regex c cs = .ok lexeme) :
    lexeme.more ≤ cs.length := by
  unfold lexemeAt at h
  split at h
  · split at h
    · next more hlength =>
      obtain ⟨before, after, rfl, rfl⟩ := exists_quote_of_stringLength hlength
      cases h
      simp [Lexeme.more]
    · cases h
  · split at h
    · split at h
      · next more opens hlength =>
        obtain ⟨before, after, hmark⟩ := exists_mark_of_templateLength hlength
        cases h
        cases opens <;> obtain ⟨rfl, rfl⟩ := hmark <;> simp [Lexeme.more]
      · cases h
    · split at h
      · cases h
        exact (cs.takeWhile_sublist continuesNumber).length_le
      · split at h
        · cases h
          exact (cs.takeWhile_sublist continuesName).length_le
        · split at h
          · split at h
            · next more hlength =>
              obtain ⟨before, after, rfl, rfl⟩ := exists_slash_of_regexLength hlength
              have hflags := (((before ++ '/' :: after).drop
                (0 + before.length + 1)).takeWhile_sublist continuesName).length_le
              cases h
              rw [List.length_drop] at hflags
              simp only [Lexeme.more, List.length_append, List.length_cons] at *
              omega
            · cases h
          · cases h
            exact punctuatorLength_le c cs

theorem head?_any_append_of_isParted {p : Char → Bool} (hp : p '\n' = false) (hc : c ≠ '\n')
    (h : IsParted (c :: cs) rest) : (cs ++ rest).head?.any p = cs.head?.any p := by
  cases cs with
  | nil =>
    have hhead : rest.head? = some '\n' := h.resolve_left (by simpa [List.getLast?] using hc)
    simp [hhead, hp]
  | cons d cs => rfl

/-- What follows the end of a line does not matter for a lexeme before it. -/
theorem lexemeAt_append (hc : c ≠ '\n') (hparted : IsParted (c :: cs) rest)
    (h : lexemeAt closing regex c cs = .ok lexeme) :
    lexemeAt closing regex c (cs ++ rest) = .ok lexeme := by
  have hnumber := head?_any_append_of_isParted (p := Char.isDigit) rfl hc hparted
  unfold lexemeAt at h ⊢
  rw [hnumber]
  split at h
  · next hquote =>
    rw [if_pos hquote]
    have hback : c ≠ '\\' := by
      rintro rfl
      cases hquote
    split at h
    · next more hlength =>
      rw [stringLength_append hback hlength]
      exact h
    · cases h
  · next hquote =>
    rw [if_neg hquote]
    split at h
    · next htemplate =>
      rw [if_pos htemplate]
      split at h
      · next more opens hlength =>
        rw [templateLength_append hlength]
        exact h
      · cases h
    · next htemplate =>
      rw [if_neg htemplate]
      split at h
      · next hdigit =>
        rw [if_pos hdigit, takeWhile_append_of_isParted (by decide) hc hparted, h]
      · next hdigit =>
        rw [if_neg hdigit]
        split at h
        · next hname =>
          rw [if_pos hname, takeWhile_append_of_isParted (by decide) hc hparted, h]
        · next hname =>
          rw [if_neg hname]
          split at h
          · next hslash =>
            rw [if_pos hslash]
            split at h
            · next more hlength =>
              rw [regexLength_append hlength, ← h]
              obtain ⟨before, after, rfl, rfl⟩ := exists_slash_of_regexLength hlength
              rw [← List.cons_append] at hparted
              have hafter := hparted.of_append (List.cons_ne_nil '/' after)
              have hdrop : ∀ more, (before ++ '/' :: more).drop (0 + before.length + 1) = more := by
                intro more
                rw [Nat.zero_add, ← List.drop_drop, List.drop_left]
                rfl
              have hflags := takeWhile_append_of_isParted (p := continuesName) (by decide)
                (by decide) hafter
              dsimp only
              rw [List.append_assoc, List.cons_append, hdrop, hdrop, hflags]
            · cases h
          · next hslash =>
            rw [if_neg hslash, punctuatorLength_append hc hparted, h]

/-! ## Blanks -/

variable {mode : BlankMode} {newline newline' : Bool}

/-- Whether the blank part of a text can be told without the text after it. -/
def IsSettled (mode : BlankMode) (cs rest : List Char) : Prop :=
  mode = .between ∧ cs = [] ∨ IsParted cs rest

theorem isSettled_between (h : cs = [] ∨ IsParted cs rest) : IsSettled .between cs rest :=
  h.imp_left fun hnil => ⟨rfl, hnil⟩

/-- What may be found in a text in front of another, when counting from `n` finds `k` characters in
the first alone: the same, or what is found from there on in the second. -/
def GoesOn (n : Nat) (cs rest : List Char) (k : Nat) (newline : Bool)
    (found : Except Nat (Nat × Bool)) : Prop :=
  ∃ m, k = n + m ∧ (m < cs.length ∧ found = .ok (k, newline) ∨
    m = cs.length ∧ found = blankLength .between k newline rest)

theorem GoesOn.step {found : Except Nat (Nat × Bool)} (h : GoesOn (n + 1) cs rest k newline found)
    (c : Char) : GoesOn n (c :: cs) rest k newline found := by
  obtain ⟨m, rfl, h⟩ := h
  refine ⟨m + 1, by omega, ?_⟩
  rw [List.length_cons]
  exact h.imp (fun h => ⟨by omega, h.2⟩) (fun h => ⟨by omega, h.2⟩)

theorem not_slash_cons (h : ∀ ds, c = '/' → cs = d :: ds → False)
    (hparted : c = '/' → IsParted (c :: cs) rest) (hd : d ≠ '\n') :
    ∀ ds, c = '/' → cs ++ rest = d :: ds → False := by
  intro ds hslash hcons
  cases cs with
  | nil =>
    have hhead := (hparted hslash).resolve_left (by simp [List.getLast?, hslash])
    rw [List.nil_append] at hcons
    rw [hcons] at hhead
    exact hd (Option.some.inj hhead)
  | cons b cs => exact h cs hslash (by rw [(List.cons_eq_cons.1 hcons).1])

/-- The blank part of a text stays as it is in front of another text, or goes on in it. -/
theorem blankLength_append (h : blankLength mode n newline cs = .ok (k, newline'))
    (hsettled : IsSettled mode cs rest) :
    GoesOn n cs rest k newline' (blankLength mode n newline (cs ++ rest)) := by
  fun_induction blankLength mode n newline cs with
  | case1 n newline cs ih =>
    have hparted := hsettled.resolve_left (by rintro ⟨-, ⟨⟩⟩)
    have hrest := ih h (Or.inr ((hparted.tail (by decide)).tail (by decide)))
    rw [List.cons_append, List.cons_append, blankLength]
    exact (hrest.step '/').step '/'
  | case2 n newline cs ih =>
    have hparted := hsettled.resolve_left (by rintro ⟨-, ⟨⟩⟩)
    have hrest := ih h (Or.inr ((hparted.tail (by decide)).tail (by decide)))
    rw [List.cons_append, List.cons_append, blankLength]
    exact (hrest.step '*').step '/'
  | case3 n newline c cs hline hblock hbreak ih =>
    have hparted := hsettled.resolve_left (by rintro ⟨-, ⟨⟩⟩)
    have hrest := ih h (isSettled_between hparted.nil_or)
    rw [List.cons_append, blankLength, if_pos hbreak]
    · exact hrest.step c
    · rintro ds rfl
      cases hbreak
    · rintro ds rfl
      cases hbreak
  | case4 n newline c cs hline hblock hbreak hspace ih =>
    have hparted := hsettled.resolve_left (by rintro ⟨-, ⟨⟩⟩)
    have hrest := ih h (isSettled_between hparted.nil_or)
    rw [List.cons_append, blankLength, if_neg hbreak, if_pos hspace]
    · exact hrest.step c
    · rintro ds rfl
      cases hspace
    · rintro ds rfl
      cases hspace
  | case5 n newline c cs hline hblock hbreak hspace =>
    have hparted := hsettled.resolve_left (by rintro ⟨-, ⟨⟩⟩)
    cases h
    rw [List.cons_append, blankLength, if_neg hbreak, if_neg hspace]
    · exact ⟨0, rfl, Or.inl ⟨by simp, rfl⟩⟩
    · exact not_slash_cons hline (fun _ => hparted) (by decide)
    · exact not_slash_cons hblock (fun _ => hparted) (by decide)
  | case6 n newline c cs hbreak ih =>
    have hparted := hsettled.resolve_left (by rintro ⟨-, ⟨⟩⟩)
    have hrest := ih h (isSettled_between hparted.nil_or)
    rw [List.cons_append, blankLength, if_pos hbreak]
    exact hrest.step c
  | case7 n newline c cs hbreak ih =>
    have hparted := hsettled.resolve_left (by rintro ⟨-, ⟨⟩⟩)
    have hrest := ih h (Or.inr (hparted.tail fun heq => hbreak (beq_iff_eq.2 heq)))
    rw [List.cons_append, blankLength, if_neg hbreak]
    exact hrest.step c
  | case8 start n newline cs ih =>
    have hparted := hsettled.resolve_left (by rintro ⟨-, ⟨⟩⟩)
    have hrest := ih h (isSettled_between (hparted.tail (by decide)).nil_or)
    rw [List.cons_append, List.cons_append, blankLength]
    exact (hrest.step '/').step '*'
  | case9 start n newline c cs hclose ih =>
    have hparted := hsettled.resolve_left (by rintro ⟨-, ⟨⟩⟩)
    cases cs with
    | nil => cases h
    | cons d cs =>
      have hrest := ih h (Or.inr hparted.of_cons)
      rw [List.cons_append, blankLength]
      · exact hrest.step c
      · intro ds hstar hslash
        exact hclose cs hstar (by rw [(List.cons_eq_cons.1 hslash).1])
  | case10 start n newline => cases h
  | case11 mode n newline hmode =>
    cases h
    refine ⟨0, rfl, Or.inr ⟨rfl, ?_⟩⟩
    rw [List.nil_append]
    cases mode with
    | between => rfl
    | lineComment =>
      have hhead : rest.head? = some '\n' := by
        rcases hsettled with ⟨⟨⟩, -⟩ | ⟨⟨⟩⟩ | hhead
        exact hhead
      obtain ⟨more, rfl⟩ := List.head?_eq_some_iff.1 hhead
      rfl
    | blockComment start => exact absurd rfl (hmode start)

/-- That a line has ended before is kept in mind. -/
theorem blankLength_or (mode : BlankMode) (n : Nat) (before newline : Bool) (cs : List Char) :
    blankLength mode n (before || newline) cs =
      (blankLength mode n newline cs).map fun found => (found.1, before || found.2) := by
  fun_induction blankLength mode n newline cs with
  | case1 n newline cs ih => rw [blankLength, ih]
  | case2 n newline cs ih => rw [blankLength, ih]
  | case3 n newline c cs hline hblock hbreak ih =>
    rw [blankLength, if_pos hbreak, ← ih, Bool.or_true]
    · exact hline
    · exact hblock
  | case4 n newline c cs hline hblock hbreak hspace ih =>
    rw [blankLength, if_neg hbreak, if_pos hspace, ih]
    · exact hline
    · exact hblock
  | case5 n newline c cs hline hblock hbreak hspace =>
    rw [blankLength, if_neg hbreak, if_neg hspace]
    · rfl
    · exact hline
    · exact hblock
  | case6 n newline c cs hbreak ih => rw [blankLength, if_pos hbreak, ← ih, Bool.or_true]
  | case7 n newline c cs hbreak ih => rw [blankLength, if_neg hbreak, ih]
  | case8 start n newline cs ih => rw [blankLength, ih]
  | case9 start n newline c cs hclose ih =>
    rw [blankLength, Bool.or_assoc, ih]
    exact hclose
  | case10 start n newline => rfl
  | case11 mode n newline hmode =>
    cases mode with
    | between => rfl
    | lineComment => rfl
    | blockComment start => exact absurd rfl (hmode start)

end ModuleBundler.Script
