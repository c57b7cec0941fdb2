import ModuleBundler.Proofs.JsonParts

/-
  Passing over values. Whatever value a text has, and however deep its lists and objects go, it is
  passed over up to what follows it (`reads_skipValue`): numbers of all sizes, and strings that
  could not be read, since they hold half of a pair.
-/

namespace ModuleBundler.Json

open Script (IsHex)

variable {α : Type} {input ws cs ds text rest body : List Char}

/-! ## Strings -/

theorem skipString_piece (h : IsPiece text) (cs : List Char) :
    skipString (text ++ cs) = skipString cs := by
  cases h with
  | @plain c h =>
    obtain ⟨hquote, hback, hcontrol⟩ := h
    rw [List.singleton_append, skipString, if_neg (Nat.not_lt.2 hcontrol)]
    · exact hquote
    · exact fun heq => absurd heq hback
    · exact fun _ heq => absurd heq hback
    · exact fun _ _ heq => absurd heq hback
  | letter h =>
    obtain ⟨⟨letter, c⟩, hmem, rfl⟩ := List.mem_map.1 h
    obtain ⟨hu, hshort⟩ := shortEscape?_of_mem hmem
    show skipString ('\\' :: letter :: cs) = _
    rw [skipString, hshort]
    · rfl
    · exact hu
  | @unit ds h =>
    show skipString ('\\' :: 'u' :: (ds ++ cs)) = _
    rw [skipString]
    split
    · next herror =>
      rw [hexUnit_append h] at herror
      cases herror
    · next hok =>
      rw [hexUnit_append h] at hok
      cases hok
      rfl

theorem skipString_body (h : IsBody body) (rest : List Char) :
    skipString (body ++ '"' :: rest) = .ok rest := by
  induction h with
  | nil => rw [List.nil_append, skipString]
  | cons hpiece _ ih => rw [List.append_assoc, skipString_piece hpiece, ih]

theorem reads_passString {c : Read α input} (h : IsBody body)
    (hrest : c.rest = body ++ '"' :: rest) : Reads (passString c) () rest := by
  have hbody := skipString_body h rest
  rw [← hrest] at hbody
  unfold passString
  split
  · next herror =>
    rw [hbody] at herror
    cases herror
  · next hok =>
    rw [hbody] at hok
    cases hok
    exact ⟨_, rfl, rfl, rfl⟩

/-- A key is passed over with its colon. -/
theorem reads_passKey {before : List Char} (h : IsString text) (hws : Blank ws)
    (hbefore : Blank before) (cs : List Char) :
    Reads (passKey (ws ++ (text ++ (before ++ ':' :: cs)))) () cs := by
  obtain @⟨body, hbody⟩ := h
  rw [List.cons_append, List.append_assoc]
  apply Reads.bind (reads_openKey hws _)
  intro hquote
  apply Reads.bind (reads_passString hbody rfl)
  intro hkey
  apply Reads.bind (reads_colon hbefore cs)
  intro hcolon
  exact ⟨_, rfl, rfl, rfl⟩

/-! ## Numbers -/

theorem IsDigits.digits_append (h : IsDigits ds) (hrest : ∀ c ∈ rest.head?, c.isDigit = false) :
    ∃ d ds', ds = d :: ds' ∧ digits (ds ++ rest) = (d :: ds', rest) := by
  obtain ⟨d, ds', rfl⟩ := List.exists_cons_of_ne_nil h.1
  exact ⟨d, ds', rfl, Json.digits_append h.2 hrest⟩

theorem exponentSign_append {sign : List Char} (hsign : sign ∈ [[], ['+'], ['-']])
    (h : IsDigits ds) (rest : List Char) :
    (exponentSign (sign ++ (ds ++ rest))).2 = ds ++ rest := by
  simp only [List.mem_cons, List.not_mem_nil, or_false] at hsign
  rcases hsign with rfl | rfl | rfl
  · obtain ⟨d, ds', rfl⟩ := List.exists_cons_of_ne_nil h.1
    have hdigit := h.2 d List.mem_cons_self
    rw [List.nil_append, List.cons_append]
    unfold exponentSign
    split
    · next heq =>
      obtain ⟨rfl, -⟩ := List.cons_eq_cons.1 heq
      cases hdigit
    · next heq =>
      obtain ⟨rfl, -⟩ := List.cons_eq_cons.1 heq
      cases hdigit
    · rfl
  · rfl
  · rfl

theorem skipExponent_append (h : IsExponent text) (hrest : EndsNumber rest) :
    skipExponent (text ++ rest) = some rest := by
  cases h with
  | none =>
    rw [List.nil_append]
    cases rest with
    | nil => rfl
    | cons c cs =>
      obtain ⟨-, -, hlower, hupper⟩ := endsNumber_iff.1 (hrest c rfl)
      rw [skipExponent, beq_eq_false_iff_ne.2 hlower, beq_eq_false_iff_ne.2 hupper]
      rfl
  | @some mark sign ds hmark hsign hds =>
    obtain ⟨d, ds', rfl, hdigits⟩ := hds.digits_append hrest.isDigit
    have hletter : (mark == 'e' || mark == 'E') = true := by
      simp only [List.mem_cons, List.not_mem_nil, or_false] at hmark
      rcases hmark with rfl | rfl <;> rfl
    rw [List.cons_append, List.append_assoc, skipExponent, if_pos hletter,
      exponentSign_append hsign hds, hdigits]

/-- An exponent neither goes on with digits nor begins with a point. -/
theorem IsExponent.head?_append (h : IsExponent text) (hrest : EndsNumber rest) :
    ∀ c ∈ (text ++ rest).head?, c.isDigit = false ∧ c ≠ '.' := by
  cases h with
  | none =>
    intro c hc
    obtain ⟨hdigit, hpoint, -, -⟩ := endsNumber_iff.1 (hrest c hc)
    exact ⟨hdigit, hpoint⟩
  | @some mark sign ds hmark _ _ =>
    intro c hc
    obtain rfl := Option.some.inj hc
    simp only [List.mem_cons, List.not_mem_nil, or_false] at hmark
    rcases hmark with rfl | rfl <;> exact ⟨rfl, by decide⟩

/-- A number without a sign is passed over up to what ends it. -/
theorem skipNumber_append (h : IsUnsigned text) (hrest : EndsNumber rest) :
    skipNumber (text ++ rest) = some rest := by
  obtain @⟨whole, fraction, exponent, hwhole, hfraction, hexponent⟩ := h
  have hhead := hexponent.head?_append hrest
  have hzero : ∀ {d ds'}, whole = d :: ds' →
      ¬ ((d :: ds').head? == some '0' && decide (1 < (d :: ds').length)) = true := by
    rintro d ds' rfl
    rw [Bool.and_eq_true, beq_iff_eq, decide_eq_true_eq]
    rintro ⟨hfirst, hlong⟩
    have hlength := hwhole.2 hfirst
    omega
  rw [List.append_assoc, List.append_assoc]
  cases hfraction with
  | none =>
    obtain ⟨d, ds', hcons, hdigits⟩ := hwhole.1.digits_append fun c hc => (hhead c hc).1
    rw [List.nil_append, skipNumber, hdigits]
    dsimp only
    rw [if_neg (hzero hcons)]
    split
    · next heq =>
      rw [heq] at hhead
      exact absurd rfl (hhead '.' rfl).2
    · exact skipExponent_append hexponent hrest
  | @some ds hds =>
    have hpoint : ∀ c ∈ ('.' :: (ds ++ (exponent ++ rest))).head?, c.isDigit = false := by
      intro c hc
      obtain rfl := Option.some.inj hc
      rfl
    obtain ⟨d, ds', hcons, hdigits⟩ := hwhole.1.digits_append hpoint
    obtain ⟨e, es, -, hdecimals⟩ := hds.digits_append fun c hc => (hhead c hc).1
    rw [List.cons_append, skipNumber, hdigits]
    dsimp only
    rw [if_neg (hzero hcons)]
    split
    · next heq =>
      obtain rfl := (List.cons_eq_cons.1 heq).2
      rw [hdecimals]
      exact skipExponent_append hexponent hrest
    · next hne => exact absurd rfl (hne _)

theorem reads_passNumber (h : IsUnsigned text) (hrest : EndsNumber rest) (htext : cs = text ++ rest)
    (le : cs.length ≤ input.length) : Reads (passNumber cs le) () rest := by
  have hnumber := skipNumber_append h hrest
  rw [← htext] at hnumber
  unfold passNumber
  split
  · next hnone =>
    rw [hnumber] at hnone
    cases hnone
  · next hsome =>
    rw [hnumber] at hsome
    cases hsome
    exact ⟨_, rfl, rfl, rfl⟩

/-! ## Values -/

mutual

/-- A value is passed over up to what follows it. -/
theorem reads_skipValue {text ws rest : List Char} (h : IsValue text) (hws : Blank ws)
    (hrest : EndsNumber rest) : Reads (skipValue (ws ++ (text ++ rest))) () rest := by
  rw [skipValue]
  match h with
  | .word hword =>
    simp only [List.mem_cons, List.not_mem_nil, or_false] at hword
    rcases hword with rfl | rfl | rfl
    · apply Reads.bind (reads_nextChar hws rfl _)
      intro hc
      exact reads_finishWord "ull" rfl ()
    · apply Reads.bind (reads_nextChar hws rfl _)
      intro hc
      exact reads_finishWord "rue" rfl ()
    · apply Reads.bind (reads_nextChar hws rfl _)
      intro hc
      exact reads_finishWord "alse" rfl ()
  | .unsigned hnumber =>
    obtain ⟨d, ds, hchars, hdigit⟩ := hnumber.exists_digit
    have hstarts := startsValue_iff.1 (startsValue_of_isDigit hdigit)
    rw [hchars, List.cons_append]
    apply Reads.bind (reads_nextChar hws hstarts.1 _)
    intro hc
    dsimp only
    split
    -- Nothing but a number begins with a digit.
    iterate 7 · exact absurd hdigit (by decide)
    rw [if_pos hdigit]
    exact reads_passNumber hnumber hrest (by rw [hchars, List.cons_append]) _
  | .negative hnumber =>
    rw [List.cons_append]
    apply Reads.bind (reads_nextChar hws rfl _)
    intro hc
    exact reads_passNumber hnumber hrest rfl _
  | .string hstring =>
    obtain ⟨hbody⟩ := hstring
    rw [List.cons_append, List.append_assoc]
    apply Reads.bind (reads_nextChar hws rfl _)
    intro hc
    exact reads_passString hbody rfl
  | .list hitems =>
    rw [List.cons_append, List.append_assoc]
    apply Reads.bind (reads_nextChar hws rfl _)
    intro hc
    apply Reads.bind (reads_skipItems hitems rest)
    intro hread
    exact ⟨_, rfl, rfl, rfl⟩
  | .object hmembers =>
    rw [List.cons_append, List.append_assoc]
    apply Reads.bind (reads_nextChar hws rfl _)
    intro hc
    apply Reads.bind (reads_skipMembers hmembers rest)
    intro hread
    exact ⟨_, rfl, rfl, rfl⟩

theorem reads_skipItems {first : Bool} {items : List Unit} {text : List Char}
    (h : Parts (fun _ : Unit => IsValue) first items text) (rest : List Char) :
    Reads (skipItems first (text ++ ([']'] ++ rest))) () rest := by
  rw [skipItems]
  match h with
  | .nil hws =>
    obtain ⟨shorter, hstep⟩ := step_closer ']' rfl hws first rest
    rw [List.singleton_append, hstep]
    exact ⟨_, rfl, rfl, rfl⟩
  | .cons hgap hitem hitems =>
    obtain ⟨ws, le, hws, hstep⟩ := step_gap ']' (by decide) hgap hitem.begins _
    rw [List.append_assoc, List.append_assoc, hstep]
    apply Reads.bind (reads_skipValue hitem hws (hitems.endsNumber (endsNumber_cons rfl rest)))
    intro hread
    apply Reads.bind (reads_skipItems hitems rest)
    intro hrest
    exact ⟨_, rfl, rfl, rfl⟩

theorem reads_skipMembers {first : Bool} {members : List (Unit × Unit)} {text : List Char}
    (h : Parts (Member (fun _ : Unit => IsString) fun _ : Unit => IsValue) first members text)
    (rest : List Char) : Reads (skipMembers first (text ++ (['}'] ++ rest))) () rest := by
  rw [skipMembers]
  match h with
  | .nil hws =>
    obtain ⟨shorter, hstep⟩ := step_closer '}' rfl hws first rest
    rw [List.singleton_append, hstep]
    exact ⟨_, rfl, rfl, rfl⟩
  | .cons hgap (.mk hkey hbefore hafter hvalue) hmembers =>
    obtain ⟨ws, le, hws, hstep⟩ := step_gap '}' (by decide) hgap hkey.begins _
    rw [List.append_assoc, List.append_assoc, List.append_assoc, List.append_assoc,
      List.cons_append, List.append_assoc, hstep]
    apply Reads.bind (reads_passKey hkey hws hbefore _)
    intro hfound
    apply Reads.bind
      (reads_skipValue hvalue hafter (hmembers.endsNumber (endsNumber_cons rfl rest)))
    intro hread
    apply Reads.bind (reads_skipMembers hmembers rest)
    intro hrest
    exact ⟨_, rfl, rfl, rfl⟩

end

end ModuleBundler.Json
