import ModuleBundler.Proofs.Coverage

/-
  What a script requests. The sources of its imports and of its exports of other modules stand in
  its tokens, whatever else a statement says: behind the word `import`, or behind the first word
  `from` that a string follows (`requests`). The readers of statements take these sources and end
  where they do (`importRequest_eq`, `exportStatement_cases`). So the statements of a script have
  exactly the sources that it requests, in their order, unless a declaration that is exported is
  read over the beginning of a statement (`requests_of_statementsAfter`).
-/

namespace ModuleBundler.Script

variable {t u : Token} {ts us tokens front rest before after : List Token} {c c' d e : Cursor}
  {form : Form} {statement : Statement} {found found' : List Statement}
  {previous? : Option Token} {nested : Prop} {first : Token}

/-! ## Requests -/

/-- What a script asks of another module. -/
structure Request where
  source : String
  /-- Whether all exports of the module are copied. -/
  copies : Bool
  deriving DecidableEq, Repr

/-- The place behind the first word `from` that a string follows, and behind the string. -/
def afterFrom? : List Token → Option Cursor
  | t :: u :: us =>
    if t.isName "from" && u.kind == .string then some ⟨u, us⟩ else afterFrom? (u :: us)
  | _ => none

/-- The place behind the first closing brace. -/
def afterBrace? : List Token → Option Cursor
  | [] => none
  | t :: ts => if t.isPunctuator "\x7d" then some ⟨t, ts⟩ else afterBrace? ts

/-- The place behind the attributes of an import, if there are any. -/
def Cursor.pastAttributes (c : Cursor) : Cursor :=
  if (c.atName "with" || c.atName "assert") && c.next.atPunctuator "\x7b" then
    match matchingClose c.next.next.last c.next.next.rest with
    | .ok (_, d) => d
    | .error _ => c
  else c

/-- The request of a statement with the word `from`, and the place behind it. -/
def Cursor.requestFrom (c : Cursor) (copies : Bool) : Option Request × Cursor :=
  match afterFrom? c.rest with
  | some d => (some ⟨stringValue d.last.text, copies⟩, d.pastAttributes)
  | none => (none, c)

/-- What an import requests, read after the word `import`, and the place behind it. -/
def importRequest (c : Cursor) : Option Request × Cursor :=
  if c.atKind .string then (some ⟨stringValue c.text, false⟩, c.next) else c.requestFrom false

/-- What an export requests, read after the word `export`, and the place behind it. A list of the
module's own bindings ends with its brace. A declaration or an expression is not read. -/
def exportRequest (c : Cursor) : Option Request × Cursor :=
  if c.text == "*" then c.next.requestFrom (!c.next.atName "as")
  else if c.text == "\x7b" then
    match afterBrace? c.next.rest with
    | some d => if d.atName "from" then d.requestFrom false else (none, d)
    | none => (none, c)
  else if c.text == "default" then (none, c.next)
  else (none, c)

/-- What is requested at a token, and the place from where to look for more. -/
def requestAt (previous? : Option Token) (t : Token) (ts : List Token) : Option Request × Cursor :=
  if startsImport previous? t ts then importRequest ⟨t, ts⟩
  else if startsExport previous? t then exportRequest ⟨t, ts⟩
  else (none, ⟨t, ts⟩)

theorem suffix_of_afterFrom? (h : afterFrom? ts = some d) : d.last :: d.rest <:+ ts := by
  fun_induction afterFrom? ts with
  | case1 t u us =>
    cases h
    exact List.suffix_cons t _
  | case2 t u us _ ih => exact (ih h).trans (List.suffix_cons t _)
  | case3 => cases h

theorem suffix_of_afterBrace? (h : afterBrace? ts = some d) : d.last :: d.rest <:+ ts := by
  fun_induction afterBrace? ts with
  | case1 => cases h
  | case2 t ts =>
    cases h
    exact List.suffix_rfl
  | case3 t ts _ ih => exact (ih h).trans (List.suffix_cons t ts)

theorem Cursor.reaches_pastAttributes (c : Cursor) : c.Reaches c.pastAttributes := by
  unfold pastAttributes
  split
  · split
    · next hclose =>
      have hbrace := c.reaches_next.trans c.next.reaches_next
      exact hbrace.trans (reaches_of_suffix (matchingClose_suffix hclose))
    · exact .refl c
  · exact .refl c

theorem Cursor.reaches_requestFrom (c : Cursor) (copies : Bool) :
    c.Reaches (c.requestFrom copies).2 := by
  unfold requestFrom
  split
  · next d hd => exact (reaches_of_suffix (suffix_of_afterFrom? hd)).trans d.reaches_pastAttributes
  · exact .refl c

theorem reaches_importRequest (c : Cursor) : c.Reaches (importRequest c).2 := by
  unfold importRequest
  split
  · exact c.reaches_next
  · exact c.reaches_requestFrom false

theorem reaches_exportRequest (c : Cursor) : c.Reaches (exportRequest c).2 := by
  unfold exportRequest
  split
  · exact c.reaches_next.trans (c.next.reaches_requestFrom _)
  · split
    · split
      · next d hd =>
        have hbrace := c.reaches_next.trans (Cursor.reaches_of_suffix (suffix_of_afterBrace? hd))
        split
        · exact hbrace.trans (d.reaches_requestFrom false)
        · exact hbrace
      · exact .refl c
    · split
      · exact c.reaches_next
      · exact .refl c

theorem reaches_requestAt (previous? : Option Token) (t : Token) (ts : List Token) :
    Cursor.Reaches ⟨t, ts⟩ (requestAt previous? t ts).2 := by
  unfold requestAt
  split
  · exact reaches_importRequest ⟨t, ts⟩
  · split
    · exact reaches_exportRequest ⟨t, ts⟩
    · exact .refl ⟨t, ts⟩

/-- The requests among the tokens after a given one, in order. -/
def requests (previous? : Option Token) : List Token → List Request
  | [] => []
  | t :: ts =>
    (requestAt previous? t ts).1.toList ++
      requests (some (requestAt previous? t ts).2.last) (requestAt previous? t ts).2.rest
termination_by ts => ts.length
decreasing_by
  have := (reaches_requestAt previous? t ts).rest.length_le
  simp only [List.length_cons] at *
  omega

/-- The requests from a place on. -/
def Cursor.requests (c : Cursor) : List Request := Script.requests (some c.last) c.rest

theorem requests_of_startsImport (h : startsImport previous? t ts = true) :
    requests previous? (t :: ts) =
      (importRequest ⟨t, ts⟩).1.toList ++ (importRequest ⟨t, ts⟩).2.requests := by
  rw [requests, requestAt, if_pos h, Cursor.requests]

theorem requests_of_startsExport (himport : ¬ startsImport previous? t ts = true)
    (h : startsExport previous? t = true) :
    requests previous? (t :: ts) =
      (exportRequest ⟨t, ts⟩).1.toList ++ (exportRequest ⟨t, ts⟩).2.requests := by
  rw [requests, requestAt, if_neg himport, if_pos h, Cursor.requests]

theorem requests_of_not_starts (h : ¬ StartsStatement previous? t ts) :
    requests previous? (t :: ts) = requests (some t) ts := by
  obtain ⟨himport, hexport⟩ := not_or.1 h
  rw [requests, requestAt, if_neg himport, if_neg hexport]
  rfl

/-! ## Tokens that are passed -/

theorem Cursor.not_of_any {p q : Token → Bool} (h : c.rest.head?.any p = true)
    (hpq : ∀ t, p t = true → q t = false) : c.rest.head?.any q = false := by
  cases hhead : c.rest.head? with
  | none => rfl
  | some t =>
    rw [hhead] at h
    exact hpq t h

theorem Cursor.not_atName_of_ne {name other : String} (h : c.atName name = true)
    (hne : name ≠ other) : c.atName other = false :=
  Cursor.not_of_any h (by simp +contextual [Token.isName, hne])

theorem Cursor.not_string_of_atName {name : String} (h : c.atName name = true) :
    c.atKind .string = false :=
  Cursor.not_of_any h (by simp +contextual [Token.isName])

theorem Cursor.not_string_of_atPunctuator {text : String} (h : c.atPunctuator text = true) :
    c.atKind .string = false :=
  Cursor.not_of_any h (by simp +contextual [Token.isPunctuator])

theorem Cursor.not_name_of_atPunctuator {text : String} (name : String)
    (h : c.atPunctuator text = true) : c.atName name = false :=
  Cursor.not_of_any h (by simp +contextual [Token.isPunctuator, Token.isName])

theorem Cursor.not_punctuator_of_atName {name : String} (text : String)
    (h : c.atName name = true) : c.atPunctuator text = false :=
  Cursor.not_of_any h (by simp +contextual [Token.isPunctuator, Token.isName])

theorem not_punctuator_of_bindingName {fault : Fault} {name : String} (text : String)
    (h : bindingName c fault = .ok name) : c.atPunctuator text = false := by
  unfold bindingName at h
  split at h
  · next hname =>
    obtain ⟨t, ht, hname⟩ := Option.bind_eq_some_iff.1 hname
    rw [Cursor.atPunctuator, ht]
    unfold bindingName? at hname
    split at hname <;> simp_all [Token.isPunctuator]
  · cases h

theorem afterFrom?_next (h : c.atName "from" = false ∨ c.next.atKind .string = false) :
    afterFrom? c.rest = afterFrom? c.next.rest := by
  rw [c.next_rest]
  match hrest : c.rest with
  | [] => rfl
  | [t] => rfl
  | t :: u :: us =>
    rw [Cursor.next_of_cons hrest, Cursor.atName, Cursor.atKind, hrest] at h
    rw [afterFrom?, if_neg]
    · rfl
    · simpa [or_iff_not_imp_left] using h

theorem afterFrom?_of_atName (h : c.atName "from" = true) (hnext : c.next.atKind .string = true) :
    afterFrom? c.rest = some c.next.next := by
  obtain ⟨u, us, hrest'⟩ := exists_cons_of_atKind hnext
  rw [Cursor.next_of_cons hrest']
  rw [c.next_rest] at hrest'
  match hrest : c.rest with
  | [] => simp [hrest] at hrest'
  | t :: ts =>
    obtain rfl : ts = u :: us := by rwa [hrest] at hrest'
    rw [Cursor.atName, hrest, List.head?_cons, Option.any_some] at h
    rw [Cursor.next_of_cons hrest, Cursor.atKind, List.head?_cons, Option.any_some] at hnext
    rw [afterFrom?, h, hnext]
    rfl

theorem afterBrace?_next (h : c.atPunctuator "\x7d" = false) :
    afterBrace? c.rest = afterBrace? c.next.rest := by
  rw [c.next_rest]
  cases hrest : c.rest with
  | nil => rfl
  | cons t ts =>
    rw [Cursor.atPunctuator, hrest, List.head?_cons, Option.any_some] at h
    rw [afterBrace?, h]
    rfl

theorem afterBrace?_of_atPunctuator (h : c.atPunctuator "\x7d" = true) :
    afterBrace? c.rest = some c.next := by
  cases hrest : c.rest with
  | nil => simp [Cursor.atPunctuator, hrest] at h
  | cons t ts =>
    rw [Cursor.atPunctuator, hrest, List.head?_cons, Option.any_some] at h
    rw [afterBrace?, if_pos h, Cursor.next_of_cons hrest]

/-- Whether neither a source nor a closing brace stands between two places. -/
structure Cursor.Skips (c d : Cursor) : Prop where
  source : afterFrom? c.rest = afterFrom? d.rest
  brace : afterBrace? c.rest = afterBrace? d.rest

theorem Cursor.Skips.trans (h : c.Skips d) (h' : d.Skips e) : c.Skips e :=
  ⟨h.source.trans h'.source, h.brace.trans h'.brace⟩

theorem Cursor.skips_next (hfrom : c.atName "from" = false ∨ c.next.atKind .string = false)
    (hbrace : c.atPunctuator "\x7d" = false) : c.Skips c.next :=
  ⟨afterFrom?_next hfrom, afterBrace?_next hbrace⟩

/-! ## The readers of statements -/

theorem skips_listItem {item : Binding} (h : listItem c = .ok (item, d))
    (hd : d.atKind .string = false) : c.Skips d := by
  unfold listItem at h
  obtain ⟨name, hname, h⟩ := bind_eq_ok.1 h
  have hbrace := not_punctuator_of_bindingName "\x7d" hname
  dsimp only at h
  split at h
  · next has =>
    obtain ⟨newName, hnew, h⟩ := bind_eq_ok.1 h
    cases h
    have hword : c.next.atName "from" = false := Cursor.not_atName_of_ne has (by decide)
    have hfirst := Cursor.skips_next (Or.inr (Cursor.not_string_of_atName has)) hbrace
    have hsecond := Cursor.skips_next (Or.inl hword) (Cursor.not_punctuator_of_atName "\x7d" has)
    have hthird := Cursor.skips_next (Or.inr hd) (not_punctuator_of_bindingName "\x7d" hnew)
    exact hfirst.trans (hsecond.trans hthird)
  · cases h
    exact Cursor.skips_next (Or.inr hd) hbrace

theorem skips_listSeparator (h : listSeparator c = .ok d) :
    c.atKind .string = false ∧ c.Skips d := by
  unfold listSeparator at h
  split at h
  · next hcomma =>
    cases h
    have hbrace : c.atPunctuator "\x7d" = false :=
      Cursor.not_of_any hcomma (by simp +contextual [Token.isPunctuator])
    exact ⟨Cursor.not_string_of_atPunctuator hcomma,
      Cursor.skips_next (Or.inl (Cursor.not_name_of_atPunctuator "from" hcomma)) hbrace⟩
  · split at h
    · next hbrace =>
      cases h
      exact ⟨Cursor.not_string_of_atPunctuator hbrace, rfl, rfl⟩
    · cases h

/-- A list ends with the first closing brace, and there is no source in it. -/
theorem afterBrace?_of_bracedList {items bound : List Binding}
    (h : bracedList items c = .ok (bound, d)) :
    afterBrace? c.rest = some d ∧ afterFrom? c.rest = afterFrom? d.rest := by
  fun_induction bracedList items c with
  | case1 items c hbrace =>
    cases h
    exact ⟨afterBrace?_of_atPunctuator hbrace,
      afterFrom?_next (Or.inl (Cursor.not_name_of_atPunctuator "from" hbrace))⟩
  | case2 => cases h
  | case3 => cases h
  | case4 items c _ item c₁ hitem c₂ hseparator ih =>
    obtain ⟨hstring, hskips⟩ := skips_listSeparator hseparator
    have hskips := (skips_listItem hitem hstring).trans hskips
    obtain ⟨hbrace, hsource⟩ := ih h
    exact ⟨hskips.brace.trans hbrace, hskips.source.trans hsource⟩

theorem afterFrom?_of_defaultBinding {name? : Option String}
    (h : defaultBinding c = .ok (name?, d)) : afterFrom? c.rest = afterFrom? d.rest := by
  unfold defaultBinding at h
  split at h
  · next hname =>
    simp only [Bool.and_eq_true, Bool.not_eq_true'] at hname
    have hfirst := afterFrom?_next (Or.inl hname.2)
    split at h
    · next hcomma =>
      cases h
      exact hfirst.trans (afterFrom?_next (Or.inl (Cursor.not_name_of_atPunctuator _ hcomma)))
    · split at h
      · cases h
        exact hfirst
      · cases h
  · cases h
    rfl

theorem afterFrom?_of_importClause {clause : ImportClause}
    (h : importClause c = .ok (clause, d)) (hd : d.atKind .string = false) :
    afterFrom? c.rest = afterFrom? d.rest := by
  unfold importClause at h
  obtain ⟨⟨default?, b⟩, hdefault, h⟩ := bind_eq_ok.1 h
  refine (afterFrom?_of_defaultBinding hdefault).trans ?_
  dsimp only at h
  split at h
  · next hstar =>
    have hfirst := afterFrom?_next (Or.inl (Cursor.not_name_of_atPunctuator "from" hstar))
    split at h
    · next has =>
      obtain ⟨name, -, h⟩ := bind_eq_ok.1 h
      cases h
      have hword : b.next.atName "from" = false := Cursor.not_atName_of_ne has (by decide)
      exact hfirst.trans ((afterFrom?_next (Or.inl hword)).trans (afterFrom?_next (Or.inr hd)))
    · cases h
  · split at h
    · next hbrace =>
      have hfirst := afterFrom?_next (Or.inl (Cursor.not_name_of_atPunctuator "from" hbrace))
      obtain ⟨⟨items, after⟩, hitems, h⟩ := bind_eq_ok.1 h
      dsimp only at h
      split at h
      · cases h
      · cases h
        exact hfirst.trans (afterBrace?_of_bracedList hitems).2
    · split at h
      · cases h
      · cases h
        rfl

theorem atName_of_fromSource {source : String} (h : fromSource c = .ok (source, d)) :
    c.atName "from" = true := by
  unfold fromSource at h
  split at h
  · cases h
  · next hfrom => simpa using hfrom

/-- The source that is read after the word `from` is the one that is requested. -/
theorem requestFrom_of_fromSource {source : String} (copies : Bool)
    (h : fromSource d = .ok (source, e)) (hskips : afterFrom? c.rest = afterFrom? d.rest) :
    c.requestFrom copies = (some ⟨source, copies⟩, e) := by
  unfold fromSource at h
  split at h
  · cases h
  · next hfrom =>
    split at h
    · cases h
    · next hstring =>
      simp only [Bool.not_eq_true', Bool.not_eq_false] at hfrom hstring
      obtain ⟨u, us, hnext⟩ := exists_cons_of_atKind hstring
      have hlast : d.next.next.last.text = d.next.text := by
        rw [Cursor.next_of_cons hnext, Cursor.text_of_cons hnext]
      rw [Cursor.requestFrom, hskips, afterFrom?_of_atName hfrom hstring]
      dsimp only at h ⊢
      rw [hlast, Cursor.pastAttributes]
      split at h
      · next hattributes =>
        rw [if_pos hattributes]
        split at h
        · cases h
        · next inside after hclose =>
          cases h
          rw [hclose]
      · next hattributes =>
        cases h
        rw [if_neg hattributes]

/-! ## The requests of statements -/

/-- Whether a form copies all exports of another module. -/
def Form.copies : Form → Bool
  | .exportAllFrom _ => true
  | _ => false

/-- What a form requests. -/
def Form.request? (form : Form) : Option Request :=
  form.source?.map fun source => ⟨source, form.copies⟩

theorem importRequest_eq (h : importForm c = .ok (form, c')) :
    ∃ e, importRequest c = (form.request?, e) ∧ c' = e.skipSemicolon := by
  unfold importForm at h
  split at h
  · next hstring =>
    cases h
    exact ⟨c.next, if_pos hstring, rfl⟩
  · next hstring =>
    obtain ⟨⟨clause, d⟩, hclause, h⟩ := bind_eq_ok.1 h
    obtain ⟨⟨source, e⟩, hsource, h⟩ := bind_eq_ok.1 h
    cases h
    have hword := Cursor.not_string_of_atName (atName_of_fromSource hsource)
    refine ⟨e, ?_, rfl⟩
    rw [importRequest, if_neg hstring]
    exact requestFrom_of_fromSource false hsource (afterFrom?_of_importClause hclause hword)

theorem exportRequest_of_list (htext : c.text = "\x7b")
    (h : exportListForm c = .ok (form, c')) :
    ∃ e, exportRequest c = (form.request?, e) ∧ c' = e.skipSemicolon := by
  unfold exportListForm at h
  obtain ⟨⟨items, d⟩, hitems, h⟩ := bind_eq_ok.1 h
  have hrequest : exportRequest c =
      if d.atName "from" then d.requestFrom false else (none, d) := by
    rw [exportRequest, htext, (afterBrace?_of_bracedList hitems).1]
    rfl
  rw [hrequest]
  dsimp only at h
  split at h
  · next hfrom =>
    obtain ⟨⟨source, e⟩, hsource, h⟩ := bind_eq_ok.1 h
    cases h
    refine ⟨e, ?_, rfl⟩
    rw [if_pos hfrom]
    exact requestFrom_of_fromSource false hsource rfl
  · next hfrom =>
    split at h
    · cases h
    · cases h
      exact ⟨d, if_neg hfrom, rfl⟩

theorem exportRequest_of_star (htext : c.text = "*") (h : exportStarForm c = .ok (form, c')) :
    ∃ e, exportRequest c = (form.request?, e) ∧ c' = e.skipSemicolon := by
  have hrequest : exportRequest c = c.next.requestFrom (!c.next.atName "as") := by
    rw [exportRequest, htext]
    rfl
  rw [hrequest]
  unfold exportStarForm at h
  split at h
  · next has =>
    obtain ⟨name, -, h⟩ := bind_eq_ok.1 h
    obtain ⟨⟨source, e⟩, hsource, h⟩ := bind_eq_ok.1 h
    cases h
    have hword : c.next.atName "from" = false := Cursor.not_atName_of_ne has (by decide)
    have hname := Cursor.not_string_of_atName (atName_of_fromSource hsource)
    have hskips := (afterFrom?_next (Or.inl hword)).trans (afterFrom?_next (Or.inr hname))
    refine ⟨e, ?_, rfl⟩
    rw [has]
    exact requestFrom_of_fromSource false hsource hskips
  · next has =>
    obtain ⟨⟨source, e⟩, hsource, h⟩ := bind_eq_ok.1 h
    cases h
    refine ⟨e, ?_, rfl⟩
    rw [Bool.eq_false_iff.2 has]
    exact requestFrom_of_fromSource true hsource rfl

theorem eq_of_whole {read : Except SyntaxError (Form × Cursor)}
    (h : whole first read = .ok (statement, c')) : read = .ok (statement.form, c') := by
  unfold whole at h
  obtain ⟨⟨form, d⟩, hread, h⟩ := bind_eq_ok.1 h
  cases h
  exact hread

theorem request?_of_exportFunction (h : exportFunction first c = .ok (statement, c')) :
    statement.form.request? = none ∧ c' = c := by
  unfold exportFunction at h
  obtain ⟨name, -, h⟩ := bind_eq_ok.1 h
  cases h
  exact ⟨rfl, rfl⟩

theorem Statement.Declares.request?_eq (h : statement.Declares first c c') :
    statement.form.request? = none := by
  have hend := h.ends
  generalize statement.form = form at hend
  cases form <;> first | rfl | cases hend

theorem exportDefault_cases (h : exportDefault first c = .ok (statement, c')) :
    statement.form.request? = none ∧ (c' = c ∨ statement.Declares first c c') := by
  unfold exportDefault at h
  split at h
  · cases h
  · split at h
    · cases h
      exact ⟨rfl, Or.inl rfl⟩
    · split at h
      · next hclass =>
        simp only [Bool.and_eq_true] at hclass
        have hword := Cursor.text_of_atName hclass.1.1
        have hdeclares := declares_exportClass (by simp [hword, declarationWords]) h
        exact ⟨hdeclares.request?_eq, Or.inr hdeclares⟩
      · cases h
        exact ⟨rfl, Or.inl rfl⟩

theorem exportRequest_of_word (h : c.text ∉ ["*", "\x7b", "default"]) :
    exportRequest c = (none, c) := by
  simp only [List.mem_cons, List.not_mem_nil, or_false, not_or] at h
  simp [exportRequest, h.1, h.2.1, h.2.2]

/-- An export requests what its statement does. The statement ends where the request does, with or
without a semicolon, or with the declaration that is read from there. -/
theorem exportStatement_cases (h : exportStatement first c = .ok (statement, c')) :
    ∃ e, exportRequest c = (statement.form.request?, e) ∧
      (c' = e ∨ c' = e.skipSemicolon ∨ statement.Declares first e c') := by
  unfold exportStatement at h
  split at h
  · next htext =>
    obtain ⟨hnone, hend⟩ := exportDefault_cases h
    refine ⟨c.next, ?_, hend.imp_right Or.inr⟩
    simp [exportRequest, beq_iff_eq.1 htext, hnone]
  split at h
  · next htext =>
    have hword : c.text = "const" ∨ c.text = "let" ∨ c.text = "var" := by
      simpa [or_assoc] using htext
    have hrequest := exportRequest_of_word (c := c) (by rcases hword with h | h | h <;> simp [h])
    have hdeclares := declares_exportVariables
      (by rcases hword with h | h | h <;> simp [h, declarationWords]) h
    exact ⟨c, hdeclares.request?_eq ▸ hrequest, Or.inr (Or.inr hdeclares)⟩
  split at h
  · next htext =>
    have hword : c.text = "function" ∨ c.text = "async" := by
      simp only [Bool.or_eq_true, Bool.and_eq_true, beq_iff_eq] at htext
      exact htext.imp_right And.left
    have hrequest := exportRequest_of_word (c := c) (by rcases hword with h | h <;> simp [h])
    obtain ⟨hnone, hend⟩ := request?_of_exportFunction h
    exact ⟨c, hnone ▸ hrequest, Or.inl hend⟩
  split at h
  · next htext =>
    have hword := beq_iff_eq.1 htext
    have hrequest := exportRequest_of_word (c := c) (by simp [hword])
    have hdeclares := declares_exportClass (by simp [hword, declarationWords]) h
    exact ⟨c, hdeclares.request?_eq ▸ hrequest, Or.inr (Or.inr hdeclares)⟩
  split at h
  · next htext =>
    obtain ⟨e, hrequest, hend⟩ := exportRequest_of_list (beq_iff_eq.1 htext) (eq_of_whole h)
    exact ⟨e, hrequest, Or.inr (Or.inl hend)⟩
  split at h
  · next htext =>
    obtain ⟨e, hrequest, hend⟩ := exportRequest_of_star (beq_iff_eq.1 htext) (eq_of_whole h)
    exact ⟨e, hrequest, Or.inr (Or.inl hend)⟩
  split at h <;> cases h

/-! ## All statements of a script -/

/-- Whether none of the statements found swallows the beginning of another one. -/
def NothingSwallowed (nested : Prop) (previous? : Option Token) (tokens : List Token)
    (found : List Statement) : Prop :=
  ∀ before t after, tokens = before ++ t :: after →
    StartsStatement (before.getLast?.or previous?) t after → ¬ IsSwallowed nested found before t

theorem NothingSwallowed.of_suffix (h : NothingSwallowed nested previous? tokens found)
    (hc : c.last :: c.rest <:+ tokens) (hsub : found' ⊆ found) :
    NothingSwallowed nested (some c.last) c.rest found' := by
  obtain ⟨front, rfl⟩ := hc
  intro before t after hrest hstarts hswallowed
  refine h (front ++ [c.last] ++ before) t after ?_ ?_ (hswallowed.mono hsub _)
  · rw [hrest, List.append_assoc, List.append_assoc]
    rfl
  · rwa [getLast?_concat_append]

theorem not_startsStatement_of_text (h : t.text ∉ ["import", "export"]) :
    ¬ StartsStatement previous? t ts := by
  simp only [List.mem_cons, List.not_mem_nil, or_false, not_or] at h
  simp [StartsStatement, startsImport, startsExport, Token.isName, h.1, h.2]

/-- Nothing is swallowed if the declarations that stay have neither word in them. -/
theorem nothingSwallowed_of_text (hordered : tokens.Pairwise fun t u => t.stop ≤ u.start.offset)
    (h : ∀ s ∈ found, ∀ stop ∈ s.form.declarationEnd?, ∀ t ∈ tokens,
      s.stop ≤ t.start.offset → t.stop ≤ stop → t.text ∉ ["import", "export"]) :
    NothingSwallowed nested previous? tokens found := by
  rintro before t after rfl hstarts ⟨s, hs, front, first, passed, rfl, hswallows⟩
  obtain ⟨stop, hstop, hend⟩ := hswallows.ends
  have hbegin : first.stop ≤ t.start.offset :=
    (List.pairwise_append.1 hordered).2.2 first (by simp) t (by simp)
  have hstart : s.stop ≤ t.start.offset := by
    rw [← hswallows.begins]
    exact Nat.le_trans first.start_le_stop hbegin
  exact not_startsStatement_of_text (h s hs stop hstop t (by simp) hstart hend) hstarts

theorem Cursor.requests_next (h : c.text ∉ ["import", "export"]) :
    c.next.requests = c.requests := by
  cases hrest : c.rest with
  | nil => rw [Cursor.next, hrest]
  | cons t ts =>
    rw [Cursor.text_of_cons hrest] at h
    rw [Cursor.next_of_cons hrest, Cursor.requests, Cursor.requests, hrest,
      requests_of_not_starts (not_startsStatement_of_text h)]

theorem Cursor.requests_skipSemicolon (c : Cursor) : c.skipSemicolon.requests = c.requests := by
  unfold skipSemicolon
  split
  · next hsemicolon =>
    refine Cursor.requests_next ?_
    have htext : c.text = ";" := by
      cases hrest : c.rest with
      | nil => simp [atPunctuator, hrest] at hsemicolon
      | cons t ts =>
        rw [Cursor.text_of_cons hrest]
        simp_all [atPunctuator, Token.isPunctuator]
    simp [htext]
  · rfl

theorem requests_of_front (hnone : ∀ before t after, front = before ++ t :: after →
      ¬ StartsStatement (before.getLast?.or previous?) t (after ++ ts)) :
    requests previous? (front ++ ts) = requests (front.getLast?.or previous?) ts := by
  induction front generalizing previous? with
  | nil => rfl
  | cons u front ih =>
    have hfirst : ¬ StartsStatement previous? u (front ++ ts) := hnone [] u front rfl
    rw [List.cons_append, requests_of_not_starts hfirst, ih, List.getLast?_cons, Option.some_or,
      ← Option.or_some]
    rintro before t after rfl
    have hstart := hnone (u :: before) t after rfl
    rwa [List.getLast?_cons, Option.some_or, ← Option.or_some] at hstart

theorem Statement.Declares.swallows (h : statement.Declares first c c')
    (hordered : c.rest.Pairwise fun t u => t.stop ≤ u.start.offset)
    (hnests : nested → Nests c.rest) (hsplit : c.rest = (front ++ [c'.last]) ++ c'.rest)
    (hmore : front ++ [c'.last] = before ++ t :: rest)
    (hstarts : StartsStatement previous? t after) : IsSwallowed nested [statement] before t := by
  obtain ⟨form, start, stop⟩ := statement
  obtain ⟨-, hstop, hword, -, hpasses, hend⟩ := h
  dsimp only at hstop hpasses hend
  have hin : t ∈ front ++ [c'.last] := by simp [hmore]
  have hlast := stop_le_last hin (List.pairwise_append.1 (hsplit ▸ hordered)).1
  cases hrest : c.rest with
  | nil => simp [hrest] at hsplit
  | cons u us =>
    rw [Cursor.next_of_cons hrest] at hpasses
    rw [Cursor.text_of_cons hrest] at hword
    rw [hstop, Cursor.offset_of_cons hrest]
    rw [hrest] at hsplit hnests
    have hus : u :: us = before ++ t :: (rest ++ c'.rest) := by
      rw [hsplit, hmore, List.append_assoc, List.cons_append]
    exact swallows_of_passesOver start hword hpasses hend
      (fun hnested => (hnests hnested).of_suffix (List.suffix_cons u us)) hus
      (List.suffix_append _ _) hlast hstarts

/-- Nothing is requested in a declaration that swallows nothing. -/
theorem Statement.Declares.requests_eq (h : statement.Declares first c c')
    (hordered : c.rest.Pairwise fun t u => t.stop ≤ u.start.offset)
    (hnests : nested → Nests c.rest)
    (hnothing : NothingSwallowed nested (some c.last) c.rest [statement]) :
    c'.requests = c.requests := by
  obtain ⟨front, hfront⟩ := h.back
  have hsplit : c.rest = (front ++ [c'.last]) ++ c'.rest := by
    rw [← hfront, List.append_assoc]
    rfl
  rw [Cursor.requests, Cursor.requests, hsplit, requests_of_front]
  · rw [List.getLast?_concat]
    rfl
  · intro before t rest hmore hstarts
    refine hnothing before t (rest ++ c'.rest) ?_ hstarts
      (h.swallows hordered hnests hsplit hmore hstarts)
    rw [hsplit, hmore, List.append_assoc, List.cons_append]

/-- An export requests what its statement does, and what follows it requests the same. -/
theorem requests_of_exportStatement
    (hordered : (first :: ts).Pairwise fun t u => t.stop ≤ u.start.offset)
    (hnests : nested → Nests (first :: ts))
    (h : exportStatement first ⟨first, ts⟩ = .ok (statement, c'))
    (hnothing : NothingSwallowed nested previous? (first :: ts) found) (hin : statement ∈ found) :
    ∃ e, exportRequest ⟨first, ts⟩ = (statement.form.request?, e) ∧ e.requests = c'.requests := by
  obtain ⟨e, hrequest, hend⟩ := exportStatement_cases h
  refine ⟨e, hrequest, ?_⟩
  rcases hend with rfl | rfl | hdeclares
  · rfl
  · exact e.requests_skipSemicolon.symm
  · have hback := reaches_exportRequest ⟨first, ts⟩
    rw [hrequest] at hback
    have hsuffix := hback.rest.trans (List.suffix_cons first ts)
    exact (hdeclares.requests_eq (hordered.sublist hsuffix.sublist)
      (fun hnested => (hnests hnested).of_suffix hsuffix)
      (hnothing.of_suffix hback (List.cons_subset.2 ⟨hin, List.nil_subset _⟩))).symm

theorem filterMap_request?_cons (others : List Statement) :
    ((statement :: others).filterMap fun s => s.form.request?) =
      statement.form.request?.toList ++ others.filterMap fun s => s.form.request? := by
  rw [List.filterMap_cons]
  cases statement.form.request? <;> rfl

/-- The statements of a script request what the script does, in its order, if they swallow
nothing. -/
theorem requests_of_statementsAfter
    (hordered : tokens.Pairwise fun t u => t.stop ≤ u.start.offset)
    (hnests : nested → Nests tokens) (h : statementsAfter previous? tokens = .ok found)
    (hnothing : NothingSwallowed nested previous? tokens found) :
    requests previous? tokens = found.filterMap fun s => s.form.request? := by
  fun_induction statementsAfter previous? tokens generalizing found with
  | case1 =>
    cases h
    rw [requests, List.filterMap_nil]
  | case2 => cases h
  | case3 previous? first ts himport statement c hwhole ih =>
    obtain ⟨others, hothers, h⟩ := bind_eq_ok.1 h
    cases h
    obtain ⟨e, hrequest, hend⟩ := importRequest_eq (eq_of_whole hwhole)
    have hreaches := reaches_whole (fun _ _ => reaches_importForm) hwhole
    have hsuffix := hreaches.rest.trans (List.suffix_cons first ts)
    have hrest : c.requests = others.filterMap fun s => s.form.request? :=
      ih (hordered.sublist hsuffix.sublist) (fun hnested => (hnests hnested).of_suffix hsuffix)
        hothers (hnothing.of_suffix hreaches (List.subset_cons_self _ _))
    rw [requests_of_startsImport himport, hrequest, ← e.requests_skipSemicolon, ← hend, hrest,
      filterMap_request?_cons]
  | case4 => cases h
  | case5 previous? first ts himport hexport statement c hstatement ih =>
    obtain ⟨others, hothers, h⟩ := bind_eq_ok.1 h
    cases h
    obtain ⟨e, hrequest, hend⟩ :=
      requests_of_exportStatement hordered hnests hstatement hnothing List.mem_cons_self
    have hreaches := reaches_exportStatement hstatement
    have hsuffix := hreaches.rest.trans (List.suffix_cons first ts)
    have hrest : c.requests = others.filterMap fun s => s.form.request? :=
      ih (hordered.sublist hsuffix.sublist) (fun hnested => (hnests hnested).of_suffix hsuffix)
        hothers (hnothing.of_suffix hreaches (List.subset_cons_self _ _))
    rw [requests_of_startsExport himport hexport, hrequest, hend, hrest, filterMap_request?_cons]
  | case6 previous? first ts himport hexport ih =>
    have hsuffix := List.suffix_cons first ts
    rw [requests_of_not_starts (not_or.2 ⟨himport, hexport⟩)]
    exact ih (List.pairwise_cons.1 hordered).2 (fun hnested => (hnests hnested).of_suffix hsuffix)
      h (hnothing.of_suffix (c := ⟨first, ts⟩) List.suffix_rfl (List.Subset.refl _))

end ModuleBundler.Script
