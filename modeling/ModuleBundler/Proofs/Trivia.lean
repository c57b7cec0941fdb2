import ModuleBundler.Proofs.Turns

/-
  What may stand between tokens. `Trivia` is a text of blanks and whole comments, said without the
  scanner; a comment up to the end of its line takes the line feed along. Over a trivia text the
  reader of blanks goes as a whole, and it keeps in mind whether a line ends in it
  (`Trivia.exists_blankLength`); on the other side, all that the reader goes over is such a text, or
  ends the script with a comment whose line goes on to the end (`isPassed_of_blankLength`).
-/

namespace ModuleBundler.Script

variable {c : Char} {cs ds body body' gap rest before after : List Char} {n k : Nat}
  {newline newline' : Bool} {mode : BlankMode}

/-! ## Blanks and comments -/

/-- Blanks and whole comments. -/
inductive Trivia : List Char → Prop
  | nil : Trivia []
  | blank {c : Char} {cs : List Char} (hc : isSpace c = true) (h : Trivia cs) : Trivia (c :: cs)
  | lineComment {body cs : List Char} (hbody : '\n' ∉ body) (h : Trivia cs) :
      Trivia ('/' :: '/' :: (body ++ '\n' :: cs))
  | blockComment {body cs : List Char} (hbody : ¬ ['*', '/'] <:+: body) (h : Trivia cs) :
      Trivia ('/' :: '*' :: (body ++ '*' :: '/' :: cs))

/-- Whether a character ends a line where it stands in no comment: a line separator or a paragraph
separator. -/
def isSeparatorBreak (c : Char) : Bool := c == '\u2028' || c == '\u2029'

/-- Whether a line ends in what stands between two tokens: with a line feed anywhere, or with one of
the other separators outside of comments, where all in front of it is blanks and whole comments. -/
def EndsLine (gap : List Char) : Prop :=
  '\n' ∈ gap ∨
    ∃ before c after, gap = before ++ c :: after ∧ isSeparatorBreak c = true ∧ Trivia before

theorem isLineBreak_iff : isLineBreak c = true ↔ c = '\n' ∨ isSeparatorBreak c = true := by
  rw [isLineBreak, isSeparatorBreak, Bool.or_assoc, Bool.or_eq_true, beq_iff_eq]

theorem ne_slash_of_isSpace (h : isSpace c = true) : c ≠ '/' := by
  rintro rfl
  cases h

/-! ## The marks of comments -/

/-- The mark that ends a comment comes up for a first time. -/
theorem exists_first_mark (h : ['*', '/'] <:+: cs) :
    ∃ body rest, cs = body ++ '*' :: '/' :: rest ∧ ¬ ['*', '/'] <:+: body := by
  induction cs with
  | nil => exact absurd h (by simp)
  | cons c cs ih =>
    by_cases hmark : ['*', '/'] <+: c :: cs
    · obtain ⟨rest, hrest⟩ := hmark
      exact ⟨[], rest, hrest.symm, by simp⟩
    · obtain ⟨body, rest, rfl, hbody⟩ := ih ((List.infix_cons_iff.1 h).resolve_left hmark)
      refine ⟨c :: body, rest, rfl, fun hinfix => ?_⟩
      rcases List.infix_cons_iff.1 hinfix with hhead | hinfix
      · exact hmark (hhead.trans (List.prefix_append (c :: body) _))
      · exact hbody hinfix

/-- Two ways to cut a text at the first mark are the same. -/
theorem eq_of_first_mark (h : body ++ '*' :: '/' :: cs = body' ++ '*' :: '/' :: ds)
    (hbody : ¬ ['*', '/'] <:+: body) (hbody' : ¬ ['*', '/'] <:+: body') :
    body = body' ∧ cs = ds := by
  -- What one of the two parts has more begins with the mark, or it is nothing.
  have hnil : ∀ {a m x y : List Char}, '*' :: '/' :: x = m ++ '*' :: '/' :: y →
      ¬ ['*', '/'] <:+: a ++ m → m = [] := by
    intro a m x y hmark hinfix
    match m with
    | [] => rfl
    | [b] => simp at hmark
    | b :: b' :: m =>
      obtain ⟨rfl, rfl, -⟩ : b = '*' ∧ b' = '/' ∧ _ := by simpa [eq_comm] using hmark
      exact absurd ⟨a, m, by simp⟩ hinfix
  rcases List.append_eq_append_iff.1 h with ⟨m, rfl, hmark⟩ | ⟨m, rfl, hmark⟩
  · obtain rfl := hnil hmark hbody'
    exact ⟨(List.append_nil body).symm, by simpa using hmark⟩
  · obtain rfl := hnil hmark hbody
    exact ⟨List.append_nil body', by simpa using hmark.symm⟩

/-! ## What the reader of blanks goes over -/

theorem blankLength_blank (hc : isSpace c = true) (n : Nat) (newline : Bool) (cs : List Char) :
    blankLength .between n newline (c :: cs) =
      blankLength .between (n + 1) (newline || isLineBreak c) cs := by
  have hslash := ne_slash_of_isSpace hc
  rw [blankLength]
  · cases hbreak : isLineBreak c with
    | true => rw [if_pos rfl, Bool.or_true]
    | false => rw [if_neg Bool.false_ne_true, if_pos hc, Bool.or_false]
  · exact fun ds h => absurd h hslash
  · exact fun ds h => absurd h hslash

/-- A comment up to the end of its line. -/
theorem blankLength_lineComment (hbody : '\n' ∉ body) (n : Nat) (newline : Bool) (cs : List Char) :
    blankLength .lineComment n newline (body ++ '\n' :: cs) =
      blankLength .between (n + body.length + 1) true cs := by
  induction body generalizing n with
  | nil => rfl
  | cons c body ih =>
    rw [List.mem_cons, not_or] at hbody
    have hc : ¬ (c == '\n') = true := fun heq => hbody.1 (beq_iff_eq.1 heq).symm
    rw [List.cons_append, blankLength, if_neg hc, ih hbody.2, List.length_cons, Nat.add_assoc n 1,
      Nat.add_comm 1]

/-- A comment in the last line, without an end. -/
theorem blankLength_openComment (hbody : '\n' ∉ body) (n : Nat) (newline : Bool) :
    blankLength .lineComment n newline body = .ok (n + body.length, newline) := by
  induction body generalizing n with
  | nil => rfl
  | cons c body ih =>
    rw [List.mem_cons, not_or] at hbody
    have hc : ¬ (c == '\n') = true := fun heq => hbody.1 (beq_iff_eq.1 heq).symm
    rw [blankLength, if_neg hc, ih hbody.2, List.length_cons, Nat.add_assoc n 1, Nat.add_comm 1]

/-- A character of a comment at which its mark does not begin. -/
theorem blankLength_inComment (hmark : ¬ ['*', '/'] <+: c :: cs) (start n : Nat) (newline : Bool) :
    blankLength (.blockComment start) n newline (c :: cs) =
      blankLength (.blockComment start) (n + 1) (newline || c == '\n') cs := by
  rw [blankLength]
  rintro ds rfl rfl
  exact hmark ⟨ds, rfl⟩

/-- A comment up to its mark. -/
theorem blankLength_blockComment (hbody : ¬ ['*', '/'] <:+: body) (start n : Nat) (newline : Bool)
    (cs : List Char) :
    blankLength (.blockComment start) n newline (body ++ '*' :: '/' :: cs) =
      blankLength .between (n + body.length + 2) (newline || body.contains '\n') cs := by
  induction body generalizing n newline with
  | nil =>
    rw [List.nil_append, blankLength, List.contains_nil, Bool.or_false]
    rfl
  | cons c body ih =>
    have hrest : ¬ ['*', '/'] <:+: body := fun h => hbody (List.infix_cons_iff.2 (Or.inr h))
    have hmark : ¬ ['*', '/'] <+: c :: (body ++ '*' :: '/' :: cs) := by
      rintro ⟨ds, hds⟩
      obtain ⟨hstar, hds⟩ := List.cons_eq_cons.1 hds
      cases body with
      | nil => exact absurd (List.cons_eq_cons.1 hds).1 (by decide)
      | cons b body =>
        obtain ⟨rfl, -⟩ := List.cons_eq_cons.1 hds
        exact hbody ⟨[], body, by rw [← hstar]; rfl⟩
    rw [List.cons_append, blankLength_inComment hmark, ih hrest, List.length_cons,
      List.contains_cons, ← Bool.or_assoc, Nat.add_assoc n 1, Nat.add_comm 1, Bool.beq_comm]

/-- A comment without its mark is a fault. -/
theorem blankLength_noMark (h : ¬ ['*', '/'] <:+: cs) (start n : Nat) (newline : Bool) :
    blankLength (.blockComment start) n newline cs = .error start := by
  induction cs generalizing n newline with
  | nil => rfl
  | cons c cs ih =>
    rw [List.infix_cons_iff, not_or] at h
    rw [blankLength_inComment h.1, ih h.2]

/-! ## Ends of lines -/

theorem not_endsLine_nil : ¬ EndsLine [] := by
  rintro (h | ⟨before, c, after, h, -⟩)
  · cases h
  · simp at h

theorem Trivia.of_blank (hc : isSpace c = true) (h : Trivia (c :: cs)) : Trivia cs := by
  cases h with
  | blank hc h => exact h
  | lineComment hbody h => cases hc
  | blockComment hbody h => cases hc

theorem endsLine_blank (hc : isSpace c = true) :
    EndsLine (c :: cs) ↔ isLineBreak c = true ∨ EndsLine cs := by
  rw [isLineBreak_iff]
  constructor
  · rintro (hmem | ⟨before, b, after, hsplit, hb, hbefore⟩)
    · rcases List.mem_cons.1 hmem with rfl | hmem
      · exact Or.inl (Or.inl rfl)
      · exact Or.inr (Or.inl hmem)
    · cases before with
      | nil =>
        obtain ⟨rfl, -⟩ := List.cons_eq_cons.1 hsplit
        exact Or.inl (Or.inr hb)
      | cons a before =>
        obtain ⟨rfl, rfl⟩ := List.cons_eq_cons.1 hsplit
        exact Or.inr (Or.inr ⟨before, b, after, rfl, hb, hbefore.of_blank hc⟩)
  · rintro ((rfl | hbreak) | hmem | ⟨before, b, after, rfl, hb, hbefore⟩)
    · exact Or.inl List.mem_cons_self
    · exact Or.inr ⟨[], c, cs, rfl, hbreak, .nil⟩
    · exact Or.inl (List.mem_cons_of_mem c hmem)
    · exact Or.inr ⟨c :: before, b, after, rfl, hb, .blank hc hbefore⟩

/-- In front of a character behind the beginning of a comment there is the whole comment. -/
theorem Trivia.of_blockComment {b : Char} (hbody : ¬ ['*', '/'] <:+: body)
    (h : '/' :: '*' :: (body ++ '*' :: '/' :: cs) = before ++ b :: after) (hb : b ≠ '/')
    (hbefore : Trivia before) : ∃ more, cs = more ++ b :: after ∧ Trivia more := by
  cases hbefore with
  | nil => exact absurd (List.cons_eq_cons.1 h).1.symm hb
  | @blank a before hc hbefore =>
    obtain ⟨rfl, -⟩ := List.cons_eq_cons.1 h
    cases hc
  | @lineComment body' before hbody' hbefore =>
    obtain ⟨-, h⟩ := List.cons_eq_cons.1 h
    exact absurd (List.cons_eq_cons.1 h).1 (by decide)
  | @blockComment body' before hbody' hbefore =>
    obtain ⟨-, h⟩ := List.cons_eq_cons.1 h
    obtain ⟨-, h⟩ := List.cons_eq_cons.1 h
    have h : body ++ '*' :: '/' :: cs = body' ++ '*' :: '/' :: (before ++ b :: after) := by
      simpa using h
    obtain ⟨-, hcs⟩ := eq_of_first_mark h hbody hbody'
    exact ⟨before, hcs, hbefore⟩

theorem endsLine_blockComment (hbody : ¬ ['*', '/'] <:+: body) :
    EndsLine ('/' :: '*' :: (body ++ '*' :: '/' :: cs)) ↔ '\n' ∈ body ∨ EndsLine cs := by
  constructor
  · rintro (hmem | ⟨before, b, after, hsplit, hb, hbefore⟩)
    · have hmem : '\n' ∈ body ∨ '\n' ∈ cs := by simpa using hmem
      exact hmem.imp_right Or.inl
    · have hne : b ≠ '/' := by
        rintro rfl
        cases hb
      obtain ⟨more, rfl, hmore⟩ := Trivia.of_blockComment hbody hsplit hne hbefore
      exact Or.inr (Or.inr ⟨more, b, after, rfl, hb, hmore⟩)
  · rintro (hmem | hmem | ⟨before, b, after, rfl, hb, hbefore⟩)
    · exact Or.inl (by simp [hmem])
    · exact Or.inl (by simp [hmem])
    · exact Or.inr ⟨_, b, after, by simp, hb, .blockComment hbody hbefore⟩

/-! ## Trivia and the reader of blanks -/

/-- The reader of blanks goes over blanks and whole comments, whatever follows, and notes whether a
line ends in them. -/
theorem Trivia.exists_blankLength (h : Trivia gap) : ∃ ends : Bool, (ends = true ↔ EndsLine gap) ∧
    ∀ n newline rest, blankLength .between n newline (gap ++ rest) =
      blankLength .between (n + gap.length) (newline || ends) rest := by
  induction h with
  | nil =>
    refine ⟨false, ⟨fun h => absurd h Bool.false_ne_true, fun h => absurd h not_endsLine_nil⟩, ?_⟩
    intro n newline rest
    rw [Bool.or_false]
    rfl
  | @blank c cs hc h ih =>
    obtain ⟨ends, hends, ih⟩ := ih
    refine ⟨isLineBreak c || ends, ?_, ?_⟩
    · rw [endsLine_blank hc, Bool.or_eq_true, hends]
    · intro n newline rest
      rw [List.cons_append, blankLength_blank hc, ih, List.length_cons, Bool.or_assoc,
        Nat.add_assoc n 1, Nat.add_comm 1]
  | @lineComment body cs hbody h ih =>
    obtain ⟨ends, hends, ih⟩ := ih
    refine ⟨true, ⟨fun _ => Or.inl (by simp), fun _ => rfl⟩, ?_⟩
    intro n newline rest
    rw [List.cons_append, List.cons_append, blankLength, List.append_assoc, List.cons_append,
      blankLength_lineComment hbody, ih, Bool.true_or, Bool.or_true]
    congr 1
    simp only [List.length_cons, List.length_append]
    omega
  | @blockComment body cs hbody h ih =>
    obtain ⟨ends, hends, ih⟩ := ih
    refine ⟨body.contains '\n' || ends, ?_, ?_⟩
    · rw [endsLine_blockComment hbody, Bool.or_eq_true, hends, List.contains_iff_mem]
    · intro n newline rest
      rw [List.cons_append, List.cons_append, blankLength, List.append_assoc, List.cons_append,
        List.cons_append, blankLength_blockComment hbody, ih, Bool.or_assoc]
      congr 1
      simp only [List.length_cons, List.length_append]
      omega

/-- What the reader of blanks goes over: blanks and whole comments, or all of a text that ends with
a comment whose line goes on to the end. -/
def IsPassed (cs : List Char) (k : Nat) : Prop :=
  (∃ gap rest, cs = gap ++ rest ∧ k = gap.length ∧ Trivia gap) ∨
    k = cs.length ∧ ∃ gap body, cs = gap ++ '/' :: '/' :: body ∧ Trivia gap ∧ '\n' ∉ body

theorem IsPassed.prepend {front : List Char} (h : IsPassed cs k)
    (hfront : ∀ gap, Trivia gap → Trivia (front ++ gap)) :
    IsPassed (front ++ cs) (front.length + k) := by
  rcases h with ⟨gap, rest, rfl, rfl, hgap⟩ | ⟨rfl, gap, body, rfl, hgap, hbody⟩
  · exact Or.inl ⟨front ++ gap, rest, by simp, by simp, hfront gap hgap⟩
  · exact Or.inr ⟨by simp, front ++ gap, body, by simp, hfront gap hgap, hbody⟩

/-- What is passed behind a front part comes on top of it. -/
theorem isPassed_append {front : List Char} (hfront : ∀ gap, Trivia gap → Trivia (front ++ gap))
    (ih : ∀ {n k newline}, blankLength .between n newline cs = .ok (n + k, newline') →
      IsPassed cs k)
    (h : blankLength .between (n + front.length) newline cs = .ok (n + k, newline')) :
    IsPassed (front ++ cs) k := by
  obtain ⟨j, hj, -⟩ := blankLength_stops h
  obtain rfl : k = front.length + j := by omega
  rw [← Nat.add_assoc] at h
  exact (ih h).prepend hfront

theorem isPassed_lineComment
    (ih : ∀ {ds n k newline}, ds.length < cs.length →
      blankLength .between n newline ds = .ok (n + k, newline') → IsPassed ds k)
    (h : blankLength .lineComment (n + 2) newline cs = .ok (n + k, newline')) :
    IsPassed ('/' :: '/' :: cs) k := by
  by_cases hmem : '\n' ∈ cs
  · obtain ⟨body, cs, rfl, hbody⟩ := List.eq_append_cons_of_mem hmem
    have hfront : ∀ gap, Trivia gap → Trivia ('/' :: '/' :: (body ++ ['\n']) ++ gap) := by
      intro gap hgap
      simpa using Trivia.lineComment hbody hgap
    have hlength : n + 2 + body.length + 1 = n + ('/' :: '/' :: (body ++ ['\n'])).length := by
      simp
      omega
    rw [blankLength_lineComment hbody, hlength] at h
    simpa using isPassed_append hfront (ih (by simp; omega)) h
  · rw [blankLength_openComment hmem] at h
    have hk := (Prod.mk.inj (Except.ok.inj h)).1
    exact Or.inr ⟨by simp; omega, [], cs, rfl, .nil, hmem⟩

theorem isPassed_blockComment {start : Nat}
    (ih : ∀ {ds n k newline}, ds.length < cs.length →
      blankLength .between n newline ds = .ok (n + k, newline') → IsPassed ds k)
    (h : blankLength (.blockComment start) (n + 2) newline cs = .ok (n + k, newline')) :
    IsPassed ('/' :: '*' :: cs) k := by
  by_cases hmark : ['*', '/'] <:+: cs
  · obtain ⟨body, cs, rfl, hbody⟩ := exists_first_mark hmark
    have hfront : ∀ gap, Trivia gap → Trivia ('/' :: '*' :: (body ++ ['*', '/']) ++ gap) := by
      intro gap hgap
      simpa using Trivia.blockComment hbody hgap
    have hlength :
        n + 2 + body.length + 2 = n + ('/' :: '*' :: (body ++ ['*', '/'])).length := by
      simp
      omega
    rw [blankLength_blockComment hbody, hlength] at h
    simpa using isPassed_append hfront (ih (by simp; omega)) h
  · rw [blankLength_noMark hmark] at h
    cases h

/-- Whether neither a blank nor a comment begins at a character. -/
structure IsStop (c : Char) (cs : List Char) : Prop where
  space : isSpace c = false
  line : ¬ ['/', '/'] <+: c :: cs
  block : ¬ ['/', '*'] <+: c :: cs

theorem blankLength_stop (h : IsStop c cs) (n : Nat) (newline : Bool) :
    blankLength .between n newline (c :: cs) = .ok (n, newline) := by
  have hbreak : ¬ isLineBreak c = true := fun hbreak =>
    Bool.eq_false_iff.1 h.space (isSpace_of_isLineBreak hbreak)
  rw [blankLength, if_neg hbreak, if_neg (Bool.eq_false_iff.1 h.space)]
  · rintro ds rfl rfl
    exact h.line ⟨ds, rfl⟩
  · rintro ds rfl rfl
    exact h.block ⟨ds, rfl⟩

/-- Where the reader of blanks goes no further, neither a blank nor a comment begins. -/
theorem isStop_of_blankLength (h : blankLength .between n newline (c :: cs) = .ok (n, newline')) :
    IsStop c cs := by
  have hgrows : ∀ {mode j b ds}, blankLength mode (n + j) b ds = .ok (n, newline') → j = 0 := by
    intro mode j b ds h
    obtain ⟨m, hm, -⟩ := blankLength_stops h
    omega
  refine ⟨Bool.eq_false_iff.2 fun hc => ?_, ?_, ?_⟩
  · rw [blankLength_blank hc] at h
    cases hgrows h
  · rintro ⟨ds, hds⟩
    rw [← hds, List.cons_append, List.singleton_append, blankLength] at h
    cases hgrows h
  · rintro ⟨ds, hds⟩
    rw [← hds, List.cons_append, List.singleton_append, blankLength] at h
    cases hgrows h

/-- The reader of blanks goes over blanks and whole comments, and over a comment without an end. -/
theorem isPassed_of_blankLength (h : blankLength .between n newline cs = .ok (n + k, newline')) :
    IsPassed cs k := by
  induction hlength : cs.length using Nat.strongRecOn generalizing n k newline cs with
  | ind m ih =>
    subst hlength
    by_cases hline : ['/', '/'] <+: cs
    · obtain ⟨cs, rfl⟩ := hline
      rw [List.cons_append, List.singleton_append, blankLength] at h
      exact isPassed_lineComment (fun hlt h => ih _ (Nat.lt_add_right 2 hlt) h rfl) h
    by_cases hblock : ['/', '*'] <+: cs
    · obtain ⟨cs, rfl⟩ := hblock
      rw [List.cons_append, List.singleton_append, blankLength] at h
      exact isPassed_blockComment (fun hlt h => ih _ (Nat.lt_add_right 2 hlt) h rfl) h
    cases cs with
    | nil =>
      have hk := (Prod.mk.inj (Except.ok.inj h)).1
      exact Or.inl ⟨[], [], rfl, by simp; omega, .nil⟩
    | cons c cs =>
      cases hc : isSpace c with
      | true =>
        rw [blankLength_blank hc] at h
        have hfront : ∀ gap, Trivia gap → Trivia ([c] ++ gap) := fun gap hgap => .blank hc hgap
        exact isPassed_append hfront (fun h => ih _ (by simp) h rfl) h
      | false =>
        rw [blankLength_stop ⟨hc, hline, hblock⟩] at h
        have hk := (Prod.mk.inj (Except.ok.inj h)).1
        exact Or.inl ⟨[], c :: cs, rfl, by simp; omega, .nil⟩

/-- In front of a token there are blanks and whole comments, and whether a line ends in them is
noted. -/
theorem trivia_of_blankLength (h : blankLength .between 0 false cs = .ok (k, newline))
    (hrest : cs.drop k = c :: rest) :
    Trivia (cs.take k) ∧ (newline = true ↔ EndsLine (cs.take k)) ∧ IsStop c rest := by
  have hzero : blankLength .between 0 false cs = .ok (0 + k, newline) := by rw [h, Nat.zero_add]
  rcases isPassed_of_blankLength hzero with ⟨gap, more, rfl, rfl, hgap⟩ | ⟨rfl, -⟩
  · obtain ⟨ends, hends, hread⟩ := hgap.exists_blankLength
    rw [List.drop_left] at hrest
    rw [hread, Nat.zero_add, Bool.false_or, hrest] at h
    have hstop := isStop_of_blankLength h
    rw [blankLength_stop hstop] at h
    obtain rfl := (Prod.mk.inj (Except.ok.inj h)).2
    rw [List.take_left]
    exact ⟨hgap, hends, hstop⟩
  · simp at hrest

end ModuleBundler.Script
