import ModuleBundler.Proofs.Places

/-
  Where a declaration of variables ends. Behind the name or the pattern that it declares it is read
  token by token, up to a semicolon, a comma or the first end of a line that breaks it (`Breaks`).
  So it goes over tokens of which none does any of these (`declarators_append`), and it ends at the
  first line end that breaks it (`declarators_of_broken`).
-/

namespace ModuleBundler.Script

variable {first last keyword t : Token} {ts us rest inside : List Token} {c c' after : Cursor}
  {names : List String}

/-! ## Behind the name or the pattern -/

/-- Whether a declaration ends between two tokens since a line does. -/
def Breaks (last t : Token) : Prop :=
  t.depth = 0 ∧ t.isCloser = false ∧ t.newlineBefore = true ∧ continuesAcross last t = false

instance (last t : Token) : Decidable (Breaks last t) :=
  inferInstanceAs (Decidable (_ ∧ _))

/-- Whether a token ends a declaration, or has another name follow. -/
def Divides (t : Token) : Prop :=
  t.depth = 0 ∧ (t.isPunctuator ";" = true ∨ t.isPunctuator "," = true)

theorem declarators_nil (hc : c.rest = []) : declarators false false names c = .ok (names, c) := by
  unfold declarators
  split
  · rfl
  · next hcons =>
    rw [hc] at hcons
    cases hcons

theorem declarators_semicolon {fresh awaiting : Bool} (hc : c.rest = t :: ts) (hdepth : t.depth = 0)
    (ht : t.isPunctuator ";" = true) :
    declarators fresh awaiting names c = .ok (names, ⟨t, ts⟩) := by
  unfold declarators
  split
  · next hnil =>
    rw [hc] at hnil
    cases hnil
  · next u us hcons =>
    obtain ⟨rfl, rfl⟩ := List.cons_eq_cons.1 (hc.symm.trans hcons)
    simp [hdepth, ht]

theorem declarators_of_breaks (hc : c.rest = t :: ts) (ht : ¬ Divides t)
    (hbreak : Breaks c.last t) : declarators false false names c = .ok (names, c) := by
  obtain ⟨hdepth, hcloser, hline, hcontinues⟩ := hbreak
  unfold declarators
  split
  · rfl
  · next u us hcons =>
    obtain ⟨rfl, rfl⟩ := List.cons_eq_cons.1 (hc.symm.trans hcons)
    rw [if_neg, if_pos]
    · simp [hdepth, hcloser, hline, hcontinues]
    · simp only [Bool.and_eq_true, beq_iff_eq]
      exact fun hend => ht ⟨hend.1, Or.inl hend.2⟩

theorem declarators_cons (hc : c.rest = t :: ts) (ht : ¬ Divides t) (hbreak : ¬ Breaks c.last t) :
    declarators false false names c = declarators false false names ⟨t, ts⟩ := by
  rw [declarators]
  split
  · next hnil =>
    rw [hc] at hnil
    cases hnil
  · next u us hcons =>
    obtain ⟨rfl, rfl⟩ := List.cons_eq_cons.1 (hc.symm.trans hcons)
    have hcomma : (t.depth == 0 && t.isPunctuator ",") = false := by
      rw [Bool.eq_false_iff]
      intro hcomma
      rw [Bool.and_eq_true, beq_iff_eq] at hcomma
      exact ht ⟨hcomma.1, Or.inr hcomma.2⟩
    rw [if_neg, if_neg, hcomma]
    · simp
    · simp only [Bool.and_eq_true, beq_iff_eq, Bool.not_eq_true', and_assoc]
      exact fun hend => hbreak ⟨hend.1, hend.2.1, hend.2.2.2⟩
    · simp only [Bool.and_eq_true, beq_iff_eq]
      exact fun hend => ht ⟨hend.1, Or.inl hend.2⟩

/-- Whether no line end between two of these tokens breaks a declaration. -/
def Unbroken (ts : List Token) : Prop := ts.IsChain fun last t => ¬ Breaks last t

instance (ts : List Token) : Decidable (Unbroken ts) :=
  inferInstanceAs (Decidable (ts.IsChain _))

theorem declarators_append (hc : c.rest = ts ++ rest) (hts : ∀ t ∈ ts, ¬ Divides t)
    (hline : Unbroken (c.last :: ts)) :
    declarators false false names c =
      declarators false false names ⟨ts.getLastD c.last, rest⟩ := by
  induction ts generalizing c with
  | nil =>
    obtain rfl : c.rest = rest := hc
    rfl
  | cons t ts ih =>
    obtain ⟨ht, hts⟩ := List.forall_mem_cons.1 hts
    obtain ⟨hbreak, hline⟩ := List.isChain_cons_cons.1 hline
    rw [declarators_cons hc ht hbreak, List.getLastD_cons]
    exact ih (c := ⟨t, ts ++ rest⟩) rfl hts hline

theorem declarators_of_broken (names : List String) (hc : c.rest = ts ++ rest)
    (hts : ∀ t ∈ ts, ¬ Divides t) (hline : ¬ Unbroken (c.last :: ts)) :
    ∃ us t vs, ts = us ++ t :: vs ∧ Breaks (us.getLastD c.last) t ∧
      declarators false false names c =
        .ok (names, ⟨us.getLastD c.last, t :: (vs ++ rest)⟩) := by
  induction ts generalizing c with
  | nil => exact absurd (.singleton _) hline
  | cons t ts ih =>
    obtain ⟨ht, hts⟩ := List.forall_mem_cons.1 hts
    by_cases hbreak : Breaks c.last t
    · refine ⟨[], t, ts, rfl, hbreak, ?_⟩
      rw [declarators_of_breaks hc ht hbreak, List.getLastD_nil, ← List.cons_append, ← hc]
    · have hline : ¬ Unbroken (t :: ts) := fun h => hline (List.isChain_cons_cons.2 ⟨hbreak, h⟩)
      obtain ⟨us, u, vs, rfl, hu, hread⟩ := ih (c := ⟨t, ts ++ rest⟩) rfl hts hline
      refine ⟨t :: us, u, vs, rfl, ?_, ?_⟩
      · rw [List.getLastD_cons]
        exact hu
      · rw [declarators_cons hc ht hbreak, List.getLastD_cons]
        exact hread

/-- A declaration with a value ends at its semicolon or before, without another name. -/
theorem exists_declarators (hc : c.rest = ts ++ u :: rest) (hts : ∀ t ∈ ts,
      ¬ (t.depth = 0 ∧ t.isPunctuator "," = true))
    (hdepth : u.depth = 0) (hu : u.isPunctuator ";" = true) :
    ∃ c', declarators false false names c = .ok (names, c') := by
  induction ts generalizing c with
  | nil => exact ⟨_, declarators_semicolon hc hdepth hu⟩
  | cons t ts ih =>
    obtain ⟨ht, hts⟩ := List.forall_mem_cons.1 hts
    by_cases hsemicolon : t.depth = 0 ∧ t.isPunctuator ";" = true
    · exact ⟨_, declarators_semicolon hc hsemicolon.1 hsemicolon.2⟩
    · have hdivides : ¬ Divides t := by
        rintro ⟨htop, hmark | hmark⟩
        · exact hsemicolon ⟨htop, hmark⟩
        · exact ht ⟨htop, hmark⟩
      by_cases hbreak : Breaks c.last t
      · exact ⟨_, declarators_of_breaks hc hdivides hbreak⟩
      · rw [declarators_cons hc hdivides hbreak]
        exact ih (c := ⟨t, ts ++ u :: rest⟩) rfl hts

/-! ## The name or the pattern -/

theorem declarators_name (hkind : t.kind = .name) :
    declarators true true names ⟨last, t :: ts⟩ =
      declarators false false (names ++ [t.text]) ⟨t, ts⟩ := by
  have hmark : t.isPunctuator ";" = false := by simp [Token.isPunctuator, hkind]
  rw [declarators]
  simp [hmark, hkind]

theorem declarators_pattern (ht : t.isPunctuator "\x7b" = true ∨ t.isPunctuator "[" = true)
    (hclose : matchingClose t ts = .ok (inside, after)) :
    declarators true true names ⟨last, t :: ts⟩ =
      declarators false false (names ++ patternNames t none inside) after := by
  have hkind : t.kind = .punctuator := by
    rcases ht with ht | ht <;> simp_all [Token.isPunctuator]
  have hsemicolon : t.isPunctuator ";" = false := by
    rcases ht with ht | ht <;> simp_all [Token.isPunctuator]
  rw [declarators]
  dsimp only
  rw [if_neg (by simp [hsemicolon]), if_neg (by simp), if_pos rfl, if_neg (by simp [hkind]),
    if_pos (by simpa using ht)]
  split
  · next hfound =>
    rw [hclose] at hfound
    cases hfound
  · next hfound =>
    rw [hclose] at hfound
    cases hfound
    rfl

/-- The keywords of declarations of variables. -/
def variableKeywords : List String := ["const", "let", "var"]

/-- What an exported declaration of variables becomes when it has been read. -/
theorem exportStatement_of_declarators (hkeyword : keyword.text ∈ variableKeywords)
    (h : declarators true true [] ⟨keyword, ts⟩ = .ok (names, c')) :
    exportStatement first ⟨first, keyword :: ts⟩ =
      if names.isEmpty then .error (keyword.start.fault .declaresNothing)
      else .ok (⟨.exportVariables names c'.last.stop (c'.last.isPunctuator ";"),
        first.start.offset, keyword.start.offset⟩, c') := by
  have htext : Cursor.text ⟨first, keyword :: ts⟩ = keyword.text := rfl
  have hvariables : exportStatement first ⟨first, keyword :: ts⟩ =
      exportVariables first ⟨first, keyword :: ts⟩ := by
    rw [exportStatement, htext]
    simp only [variableKeywords, List.mem_cons, List.not_mem_nil, or_false] at hkeyword
    rcases hkeyword with hword | hword | hword <;> simp [hword]
  rw [hvariables, exportVariables]
  show (declarators true true [] ⟨keyword, ts⟩ >>= _) = _
  rw [h]
  rfl

end ModuleBundler.Script
