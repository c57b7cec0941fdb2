import ModuleBundler.Proofs.Places

/-
  The grammar of imports. What may follow the word `import` is derived from its tokens by rules
  (`IsImport`), which leave three things open (`Dialect`). The reader of imports accepts exactly what
  the rules derive, and finds the form that they give it, if a string may name a local binding, the
  comma behind the default binding may stand alone, and this binding is not called `from`
  (`isImport_iff`).
-/

namespace ModuleBundler.Script

/-! ## Rules -/

/-- What the rules of imports let through. -/
structure Dialect where
  /-- Whether a string may give the name of a local binding. -/
  stringLocals : Bool
  /-- Whether nothing may follow the comma behind the default binding. -/
  bareComma : Bool
  /-- Whether the default binding may be called `from`. -/
  defaultFrom : Bool

/-- The rules as they are meant. -/
def Dialect.documented : Dialect := ⟨false, false, true⟩

/-- The rules as they are read. -/
def Dialect.accepted : Dialect := ⟨true, true, false⟩

variable {d d' : Dialect} {t u first last closer : Token} {ts front rest : List Token}
  {c c' : Cursor} {item : Binding} {items found : List Binding} {form : Form}
  {clause : ImportClause} {source name : String} {fault : Fault} {star? : Option String}

/-- Whether a token may give the name of a local binding. -/
def Dialect.IsLocal (d : Dialect) (t : Token) : Prop := t.kind = .name ∨ d.stringLocals = true

/-- Whether a token may be the default binding. -/
def Dialect.IsDefault (d : Dialect) (t : Token) : Prop :=
  t.kind = .name ∧ (t.text = "from" → d.defaultFrom = true)

/-- An entry of a list: a name or a string, or one of them in front of `as` and a local name. -/
inductive IsEntry (d : Dialect) : List Token → Binding → Prop
  | plain {t : Token} {name : String} (hname : bindingName? t = some name) (hlocal : d.IsLocal t) :
      IsEntry d [t] ⟨name, name⟩
  | renamed {t as u : Token} {name newName : String} (hname : bindingName? t = some name)
      (has : as.isName "as" = true) (hnew : bindingName? u = some newName) (hlocal : d.IsLocal u) :
      IsEntry d [t, as, u] ⟨name, newName⟩

/-- Entries with commas between them. Nothing need follow the last comma. -/
inductive IsList (d : Dialect) : List Token → List Binding → Prop
  | nil : IsList d [] []
  | last {ts : List Token} {item : Binding} (h : IsEntry d ts item) : IsList d ts [item]
  | more {ts us : List Token} {comma : Token} {item : Binding} {items : List Binding}
      (h : IsEntry d ts item) (hcomma : comma.isPunctuator "," = true) (hmore : IsList d us items) :
      IsList d (ts ++ comma :: us) (item :: items)

/-- The bindings beside the default one: a namespace, or a list in braces whose local names are
plain. -/
inductive IsBound (d : Dialect) : List Token → Option String → List Binding → Prop
  | star {star as t : Token} (hstar : star.isPunctuator "*" = true) (has : as.isName "as" = true)
      (hname : t.kind = .name) : IsBound d [star, as, t] (some t.text) []
  | list {opener closer : Token} {ts : List Token} {items : List Binding}
      (hopener : opener.isPunctuator "\x7b" = true) (hitems : IsList d ts items)
      (hplain : ∀ item ∈ items, isPlainName item.newName = true)
      (hcloser : closer.isPunctuator "\x7d" = true) :
      IsBound d (opener :: (ts ++ [closer])) none items

/-- What stands between the words `import` and `from`. -/
inductive IsClause (d : Dialect) : List Token → ImportClause → Prop
  | default {t : Token} (ht : d.IsDefault t) : IsClause d [t] ⟨some t.text, none, []⟩
  | bound {ts : List Token} {star? : Option String} {items : List Binding}
      (h : IsBound d ts star? items) : IsClause d ts ⟨none, star?, items⟩
  | both {t comma : Token} {ts : List Token} {star? : Option String} {items : List Binding}
      (ht : d.IsDefault t) (hcomma : comma.isPunctuator "," = true) (h : IsBound d ts star? items) :
      IsClause d (t :: comma :: ts) ⟨some t.text, star?, items⟩
  | comma {t comma : Token} (hd : d.bareComma = true) (ht : d.IsDefault t)
      (hcomma : comma.isPunctuator "," = true) : IsClause d [t, comma] ⟨some t.text, none, []⟩

/-- Whether the brace of the attributes at the front of tokens, if there are any, is closed. -/
def AttributesClosed (ts : List Token) : Prop :=
  ∀ word opener rest, ts = word :: opener :: rest →
    word.isName "with" = true ∨ word.isName "assert" = true → opener.isPunctuator "\x7b" = true →
    ∃ t ∈ rest, t.depth = opener.depth ∧ t.isPunctuator "\x7d" = true

/-- The tokens behind the word `import`, with the form of the statement: a source alone, or a clause
and the word `from` in front of it. -/
inductive IsImport (d : Dialect) : List Token → Form → Prop
  | bare {specifier : Token} {rest : List Token} (hspecifier : specifier.kind = .string) :
      IsImport d (specifier :: rest) (.bareImport (stringValue specifier.text))
  | clause {ts rest : List Token} {clause : ImportClause} {word specifier : Token}
      (hclause : IsClause d ts clause) (hword : word.isName "from" = true)
      (hspecifier : specifier.kind = .string) (hrest : AttributesClosed rest) :
      IsImport d (ts ++ word :: specifier :: rest)
        (.importFrom clause (stringValue specifier.text))

/-! ## Tokens -/

theorem Token.kind_of_isName (h : t.isName name = true) : t.kind = .name :=
  beq_iff_eq.1 (Bool.and_eq_true_iff.1 h).1

theorem Token.kind_of_isPunctuator (h : t.isPunctuator name = true) : t.kind = .punctuator :=
  beq_iff_eq.1 (Bool.and_eq_true_iff.1 h).1

theorem Token.isName_of_kind (h : t.kind ≠ .name) (name : String) : t.isName name = false := by
  simp [isName, h]

theorem Token.isPunctuator_of_kind (h : t.kind ≠ .punctuator) (text : String) :
    t.isPunctuator text = false := by
  simp [isPunctuator, h]

theorem Token.isPunctuator_of_ne {text other : String} (h : t.isPunctuator text = true)
    (hne : text ≠ other) : t.isPunctuator other = false := by
  simp_all [isPunctuator]

theorem kind_of_bindingName? (h : bindingName? t = some name) :
    t.kind = .name ∨ t.kind = .string := by
  unfold bindingName? at h
  split at h
  · exact Or.inl ‹_›
  · exact Or.inr ‹_›
  · cases h

theorem exists_cons_of_any {p : Token → Bool} (h : ts.head?.any p = true) :
    ∃ t us, ts = t :: us ∧ p t = true := by
  cases ts with
  | nil => cases h
  | cons t us => exact ⟨t, us, rfl, h⟩

theorem exists_cons_of_bindingName (h : bindingName c fault = .ok name) :
    ∃ t us, c.rest = t :: us ∧ bindingName? t = some name := by
  unfold bindingName at h
  split at h
  · next hname =>
    cases h
    obtain ⟨t, ht, hname⟩ := Option.bind_eq_some_iff.1 hname
    obtain ⟨us, hrest⟩ := List.head?_eq_some_iff.1 ht
    exact ⟨t, us, hrest, hname⟩
  · cases h

theorem bindingName_cons (h : bindingName? t = some name) (fault : Fault) :
    bindingName ⟨last, t :: ts⟩ fault = .ok name := by
  rw [bindingName, List.head?_cons, Option.bind_some, h]

/-! ## Lists -/

theorem isEntry_of_listItem (h : listItem c = .ok (item, c')) :
    ∃ ts, c.rest = ts ++ c'.rest ∧ IsEntry .accepted ts item := by
  unfold listItem at h
  obtain ⟨name, hname, h⟩ := bind_eq_ok.1 h
  obtain ⟨t, us, hrest, ht⟩ := exists_cons_of_bindingName hname
  rw [Cursor.next_of_cons hrest] at h
  dsimp only at h
  split at h
  · next has =>
    obtain ⟨as, us, rfl, has⟩ := exists_cons_of_any has
    obtain ⟨newName, hnew, h⟩ := bind_eq_ok.1 h
    obtain ⟨u, us, rfl, hu⟩ := exists_cons_of_bindingName (c := ⟨as, us⟩) hnew
    cases h
    exact ⟨[t, as, u], hrest, .renamed ht has hu (Or.inr rfl)⟩
  · cases h
    exact ⟨[t], hrest, .plain ht (Or.inr rfl)⟩

theorem listItem_of_isEntry (last : Token) (h : IsEntry d ts item)
    (hrest : rest.head?.any (·.isName "as") = false) :
    ∃ last', listItem ⟨last, ts ++ rest⟩ = .ok (item, ⟨last', rest⟩) := by
  cases h with
  | @plain t name hname hlocal =>
    refine ⟨t, ?_⟩
    rw [listItem, List.singleton_append, bindingName_cons hname]
    show (if Cursor.atName ⟨t, rest⟩ "as" = true then _ else _) = _
    rw [if_neg (by rw [Cursor.atName, hrest]; decide)]
    rfl
  | @renamed t as u name newName hname has hnew hlocal =>
    refine ⟨u, ?_⟩
    show listItem ⟨last, t :: as :: u :: rest⟩ = _
    rw [listItem, bindingName_cons hname]
    show (if as.isName "as" = true then
      (bindingName ⟨as, u :: rest⟩ .expectedAlias >>= _) else _) = _
    rw [if_pos has, bindingName_cons hnew]
    rfl

theorem bracedList_cons {e : Cursor} (hbrace : c.atPunctuator "\x7d" = false)
    (hitem : listItem c = .ok (item, c')) (hseparator : listSeparator c' = .ok e) :
    bracedList items c = bracedList (items ++ [item]) e := by
  rw [bracedList, if_neg (by rw [hbrace]; decide)]
  split
  · next hfound =>
    rw [hitem] at hfound
    cases hfound
  · next hfound =>
    rw [hitem] at hfound
    cases hfound
    split
    · next hfound =>
      rw [hseparator] at hfound
      cases hfound
    · next hfound =>
      rw [hseparator] at hfound
      cases hfound
      rfl

theorem isList_of_bracedList (h : bracedList items c = .ok (found, c')) :
    ∃ ts closer more, c.rest = ts ++ closer :: c'.rest ∧ closer.isPunctuator "\x7d" = true ∧
      IsList .accepted ts more ∧ found = items ++ more := by
  fun_induction bracedList items c with
  | case1 items c hbrace =>
    cases h
    obtain ⟨closer, us, hrest, hcloser⟩ := exists_cons_of_any hbrace
    exact ⟨[], closer, [], by rw [c.next_rest, hrest]; rfl, hcloser, .nil, (List.append_nil _).symm⟩
  | case2 => cases h
  | case3 => cases h
  | case4 items c hbrace item c₁ hitem c₂ hseparator ih =>
    obtain ⟨front, hfront, hentry⟩ := isEntry_of_listItem hitem
    obtain ⟨ts, closer, more, hts, hcloser, hlist, rfl⟩ := ih h
    unfold listSeparator at hseparator
    split at hseparator
    · next hcomma =>
      cases hseparator
      obtain ⟨comma, us, hrest, hcomma⟩ := exists_cons_of_any hcomma
      rw [c₁.next_rest, hrest, List.tail_cons] at hts
      refine ⟨front ++ comma :: ts, closer, item :: more, ?_, hcloser, .more hentry hcomma hlist, ?_⟩
      · rw [hfront, hrest, hts, List.append_assoc, List.cons_append]
      · rw [List.append_assoc, List.singleton_append]
    · split at hseparator
      · next hend =>
        cases hseparator
        -- The list ends here, so nothing is read behind the entry.
        rw [bracedList, if_pos hend] at h
        obtain ⟨hfound, rfl⟩ := Prod.mk.inj (Except.ok.inj h)
        obtain ⟨closer', us, hrest, hcloser'⟩ := exists_cons_of_any hend
        refine ⟨front, closer', [item], ?_, hcloser', .last hentry, hfound.symm⟩
        rw [hfront, c₁.next_rest, hrest, List.tail_cons]
      · cases hseparator

theorem bracedList_of_isList (last : Token) (rest : List Token) (h : IsList d ts found)
    (hcloser : closer.isPunctuator "\x7d" = true)
    (items : List Binding) : bracedList items ⟨last, ts ++ closer :: rest⟩ =
      .ok (items ++ found, ⟨closer, rest⟩) := by
  have hend (last : Token) (items : List Binding) :
      bracedList items ⟨last, closer :: rest⟩ = .ok (items, ⟨closer, rest⟩) := by
    have hat : Cursor.atPunctuator ⟨last, closer :: rest⟩ "\x7d" = true := hcloser
    rw [bracedList, if_pos hat]
    rfl
  have hbegin {ts us : List Token} {item : Binding} (h : IsEntry d ts item) (last : Token) :
      Cursor.atPunctuator ⟨last, ts ++ us⟩ "\x7d" = false := by
    cases h with
    | plain hname hlocal =>
      exact Token.isPunctuator_of_kind (by rcases kind_of_bindingName? hname with h | h <;> simp [h]) _
    | renamed hname has hnew hlocal =>
      exact Token.isPunctuator_of_kind (by rcases kind_of_bindingName? hname with h | h <;> simp [h]) _
  induction h generalizing items last with
  | nil => rw [List.nil_append, hend, List.append_nil]
  | @last ts item hentry =>
    have hnot : ((closer :: rest).head?.any (·.isName "as")) = false :=
      Token.isName_of_kind (by simp [Token.kind_of_isPunctuator hcloser]) _
    obtain ⟨last', hitem⟩ := listItem_of_isEntry last hentry hnot
    have hseparator : listSeparator ⟨last', closer :: rest⟩ = .ok ⟨last', closer :: rest⟩ := by
      have hat : Cursor.atPunctuator ⟨last', closer :: rest⟩ "\x7d" = true := hcloser
      have hcomma : Cursor.atPunctuator ⟨last', closer :: rest⟩ "," = false :=
        Token.isPunctuator_of_ne hcloser (by decide)
      rw [listSeparator, if_neg (Bool.eq_false_iff.1 hcomma), if_pos hat]
    rw [bracedList_cons (hbegin hentry last) hitem hseparator, hend]
  | @more ts us comma item found hentry hcomma hmore ih =>
    have hnot : ((comma :: (us ++ closer :: rest)).head?.any (·.isName "as")) = false :=
      Token.isName_of_kind (by simp [Token.kind_of_isPunctuator hcomma]) _
    obtain ⟨last', hitem⟩ := listItem_of_isEntry last hentry hnot
    have hseparator : listSeparator ⟨last', comma :: (us ++ closer :: rest)⟩ =
        .ok ⟨comma, us ++ closer :: rest⟩ := by
      have hat : Cursor.atPunctuator ⟨last', comma :: (us ++ closer :: rest)⟩ "," = true := hcomma
      rw [listSeparator, if_pos hat]
      rfl
    rw [List.append_assoc, List.cons_append, bracedList_cons (hbegin hentry last) hitem hseparator,
      ih, List.append_assoc, List.singleton_append]

/-! ## Clauses -/

theorem defaultBinding_cases {default? : Option String}
    (h : defaultBinding c = .ok (default?, c')) :
    default? = none ∧ c' = c ∨
      ∃ t us, c.rest = t :: us ∧ Dialect.accepted.IsDefault t ∧ default? = some t.text ∧
        (c' = ⟨t, us⟩ ∧ c'.atName "from" = true ∨
          ∃ comma, us = comma :: c'.rest ∧ comma.isPunctuator "," = true) := by
  unfold defaultBinding at h
  split at h
  · next hname =>
    obtain ⟨hkind, hfrom⟩ := Bool.and_eq_true_iff.1 hname
    obtain ⟨t, us, hrest, ht⟩ := exists_cons_of_any hkind
    have hdefault : Dialect.accepted.IsDefault t := by
      refine ⟨beq_iff_eq.1 ht, fun htext => ?_⟩
      rw [Cursor.atName, hrest, List.head?_cons, Option.any_some, Token.isName, ht, htext] at hfrom
      cases hfrom
    rw [Cursor.next_of_cons hrest, Cursor.text_of_cons hrest] at h
    refine Or.inr ⟨t, us, hrest, hdefault, ?_⟩
    split at h
    · next hcomma =>
      obtain ⟨comma, vs, rfl, hcomma⟩ := exists_cons_of_any hcomma
      cases h
      exact ⟨rfl, Or.inr ⟨comma, rfl, hcomma⟩⟩
    · split at h
      · next hfrom =>
        cases h
        exact ⟨rfl, Or.inl ⟨rfl, hfrom⟩⟩
      · cases h
  · cases h
    exact Or.inl ⟨rfl, rfl⟩

theorem importClause_cases (h : importClause c = .ok (clause, c')) :
    ∃ default? e, defaultBinding c = .ok (default?, e) ∧
      ((∃ ts star? items, e.rest = ts ++ c'.rest ∧ IsBound .accepted ts star? items ∧
          clause = ⟨default?, star?, items⟩) ∨
        e = c' ∧ default? ≠ none ∧ clause = ⟨default?, none, []⟩) := by
  unfold importClause at h
  obtain ⟨⟨default?, e⟩, hdefault, h⟩ := bind_eq_ok.1 h
  refine ⟨default?, e, hdefault, ?_⟩
  dsimp only at h
  split at h
  · next hstar =>
    obtain ⟨star, us, hrest, hstar⟩ := exists_cons_of_any hstar
    rw [Cursor.next_of_cons hrest] at h
    split at h
    · next has =>
      obtain ⟨as, us, rfl, has⟩ := exists_cons_of_any has
      obtain ⟨name, hname, h⟩ := bind_eq_ok.1 h
      unfold expectName at hname
      split at hname
      · next hkind =>
        have hat : us.head?.any (·.kind == .name) = true := hkind
        obtain ⟨t, us, rfl, ht⟩ := exists_cons_of_any hat
        cases hname
        cases h
        exact Or.inl ⟨[star, as, t], some t.text, [], hrest, .star hstar has (beq_iff_eq.1 ht), rfl⟩
      · cases hname
    · cases h
  · split at h
    · next hbrace =>
      obtain ⟨opener, us, hrest, hopener⟩ := exists_cons_of_any hbrace
      rw [Cursor.next_of_cons hrest] at h
      obtain ⟨⟨items, after⟩, hlist, h⟩ := bind_eq_ok.1 h
      obtain ⟨ts, closer, more, hts, hcloser, hitems, rfl⟩ := isList_of_bracedList hlist
      dsimp only at h
      split at h
      · cases h
      · next hfind =>
        cases h
        have hplain : ∀ item ∈ items, isPlainName item.newName = true := by
          simpa using List.find?_eq_none.1 hfind
        refine Or.inl ⟨opener :: (ts ++ [closer]), none, items, ?_,
          .list hopener hitems hplain hcloser, rfl⟩
        have hts : us = ts ++ closer :: c'.rest := hts
        rw [hrest, hts, List.cons_append, List.append_assoc, List.singleton_append]
    · split at h
      · cases h
      · next hnone =>
        cases h
        exact Or.inr ⟨rfl, by simpa using hnone, rfl⟩

theorem isClause_of_importClause (h : importClause c = .ok (clause, c')) :
    ∃ ts, c.rest = ts ++ c'.rest ∧ IsClause .accepted ts clause := by
  obtain ⟨default?, e, hdefault, hbound⟩ := importClause_cases h
  obtain ⟨rfl, rfl⟩ | ⟨t, us, hrest, ht, rfl, hend⟩ := defaultBinding_cases hdefault
  · obtain ⟨ts, star?, items, hrest, hbound, rfl⟩ | ⟨-, hsome, -⟩ := hbound
    · exact ⟨ts, hrest, .bound hbound⟩
    · exact absurd rfl hsome
  · obtain ⟨rfl, hfrom⟩ | ⟨comma, rfl, hcomma⟩ := hend
    · -- The word `from` is next, so nothing but the default binding is bound.
      obtain ⟨ts, star?, items, hbegin, hbound, rfl⟩ | ⟨rfl, -, rfl⟩ := hbound
      · obtain ⟨word, vs, rfl, hword⟩ := exists_cons_of_any hfrom
        have hkind := Token.kind_of_isName hword
        cases hbound with
        | star hstar has hname =>
          cases hbegin
          cases hkind.symm.trans (Token.kind_of_isPunctuator hstar)
        | list hopener hitems hplain hcloser =>
          cases hbegin
          cases hkind.symm.trans (Token.kind_of_isPunctuator hopener)
      · exact ⟨[t], hrest, .default ht⟩
    · obtain ⟨ts, star?, items, hbegin, hbound, rfl⟩ | ⟨rfl, -, rfl⟩ := hbound
      · exact ⟨t :: comma :: ts, by rw [hrest, hbegin]; rfl, .both ht hcomma hbound⟩
      · exact ⟨[t, comma], hrest, .comma rfl ht hcomma⟩

/-- Nothing is taken for a default binding where a clause starts with a punctuator. -/
theorem defaultBinding_of_isPunctuator {text : String} (ht : t.isPunctuator text = true) :
    defaultBinding ⟨last, t :: rest⟩ = .ok (none, ⟨last, t :: rest⟩) := by
  have hkind : Cursor.atKind ⟨last, t :: rest⟩ .name = false := by
    show (t.kind == .name) = false
    rw [Token.kind_of_isPunctuator ht]
    rfl
  rw [defaultBinding, hkind, Bool.false_and, if_neg Bool.false_ne_true]

theorem defaultBinding_of_isDefault (ht : Dialect.accepted.IsDefault t) :
    defaultBinding ⟨last, t :: rest⟩ =
      if Cursor.atPunctuator ⟨t, rest⟩ "," = true then .ok (some t.text, Cursor.next ⟨t, rest⟩)
      else if Cursor.atName ⟨t, rest⟩ "from" = true then .ok (some t.text, ⟨t, rest⟩)
      else .error (Cursor.fault ⟨t, rest⟩ .expectedClauseOrFrom) := by
  have hname : (Cursor.atKind ⟨last, t :: rest⟩ .name &&
      !Cursor.atName ⟨last, t :: rest⟩ "from") = true := by
    show ((t.kind == .name) && !((t.kind == .name) && (t.text == "from"))) = true
    have hne : t.text ≠ "from" := fun htext => Bool.false_ne_true (ht.2 htext)
    simp [ht.1, hne]
  rw [defaultBinding, if_pos hname]
  rfl

/-- What is read behind the default binding, if this may end the clause. -/
theorem importClause_of_isBound {default? star? : Option String} (last : Token)
    (hdefault : defaultBinding c = .ok (default?, ⟨last, ts ++ rest⟩))
    (h : IsBound d ts star? items) :
    ∃ last', importClause c = .ok (⟨default?, star?, items⟩, ⟨last', rest⟩) := by
  cases h with
  | @star star as t hstar has hname =>
    refine ⟨t, ?_⟩
    have hat : Cursor.atPunctuator ⟨last, [star, as, t] ++ rest⟩ "*" = true := hstar
    have hnext : Cursor.atName (Cursor.next ⟨last, [star, as, t] ++ rest⟩) "as" = true := has
    have hkind : expectName ⟨as, t :: rest⟩ "namespace name" = .ok t.text :=
      if_pos (beq_iff_eq.2 hname)
    refine bind_eq_ok.2 ⟨_, hdefault, ?_⟩
    dsimp only
    rw [if_pos hat, if_pos hnext]
    exact bind_eq_ok.2 ⟨_, hkind, rfl⟩
  | @list opener closer ts items hopener hitems hplain hcloser =>
    refine ⟨closer, ?_⟩
    have hstar : Cursor.atPunctuator ⟨last, opener :: (ts ++ [closer]) ++ rest⟩ "*" = false :=
      Token.isPunctuator_of_ne hopener (by decide)
    have hat : Cursor.atPunctuator ⟨last, opener :: (ts ++ [closer]) ++ rest⟩ "\x7b" = true :=
      hopener
    have hlist := bracedList_of_isList opener rest hitems hcloser []
    have hfind : items.find? (fun item => !isPlainName item.newName) = none :=
      List.find?_eq_none.2 (by simpa using hplain)
    have hnext : Cursor.next ⟨last, opener :: (ts ++ [closer]) ++ rest⟩ =
        ⟨opener, ts ++ closer :: rest⟩ := by simp [Cursor.next]
    refine bind_eq_ok.2 ⟨_, hdefault, ?_⟩
    dsimp only
    rw [if_neg (Bool.eq_false_iff.1 hstar), if_pos hat, hnext]
    refine bind_eq_ok.2 ⟨_, hlist, ?_⟩
    dsimp only
    rw [List.nil_append, hfind]
    rfl

/-- What is read where nothing but the default binding is bound. -/
theorem importClause_of_default {e : Cursor} {name : String}
    (hdefault : defaultBinding c = .ok (some name, e)) (hfrom : e.atName "from" = true) :
    importClause c = .ok (⟨some name, none, []⟩, e) := by
  obtain ⟨word, us, hrest, hword⟩ := exists_cons_of_any hfrom
  have hno (text : String) : e.atPunctuator text = false := by
    rw [Cursor.atPunctuator, hrest]
    exact Token.isPunctuator_of_kind (by simp [Token.kind_of_isName hword]) text
  refine bind_eq_ok.2 ⟨_, hdefault, ?_⟩
  dsimp only
  rw [if_neg (Bool.eq_false_iff.1 (hno "*")), if_neg (Bool.eq_false_iff.1 (hno "\x7b"))]
  rfl

theorem importClause_of_isClause {word : Token} (last : Token) (rest : List Token)
    (h : IsClause .accepted ts clause) (hword : word.isName "from" = true) :
    ∃ last', importClause ⟨last, ts ++ word :: rest⟩ = .ok (clause, ⟨last', word :: rest⟩) := by
  have hfrom (last : Token) : Cursor.atName ⟨last, word :: rest⟩ "from" = true := hword
  cases h with
  | @default t ht =>
    have hcomma : Cursor.atPunctuator ⟨t, word :: rest⟩ "," = false :=
      Token.isPunctuator_of_kind (by simp [Token.kind_of_isName hword]) _
    refine ⟨t, importClause_of_default ?_ (hfrom t)⟩
    rw [List.singleton_append, defaultBinding_of_isDefault ht, if_neg (Bool.eq_false_iff.1 hcomma),
      if_pos (hfrom t)]
  | bound h =>
    refine importClause_of_isBound last ?_ h
    cases h with
    | star hstar has hname => exact defaultBinding_of_isPunctuator hstar
    | list hopener hitems hplain hcloser => exact defaultBinding_of_isPunctuator hopener
  | @both t comma ts star? items ht hcomma h =>
    refine importClause_of_isBound comma ?_ h
    have hat : Cursor.atPunctuator ⟨t, comma :: (ts ++ word :: rest)⟩ "," = true := hcomma
    rw [List.cons_append, List.cons_append, defaultBinding_of_isDefault ht, if_pos hat]
    rfl
  | @comma t comma hd ht hcomma =>
    have hat : Cursor.atPunctuator ⟨t, comma :: word :: rest⟩ "," = true := hcomma
    refine ⟨comma, importClause_of_default ?_ (hfrom comma)⟩
    rw [List.cons_append, List.singleton_append, defaultBinding_of_isDefault ht, if_pos hat]
    rfl

/-! ## Sources -/

theorem matchingClose_isOk_iff {opener : Token} (hopener : opener.isPunctuator "\x7b" = true) :
    (∃ found, matchingClose opener rest = .ok found) ↔
      ∃ t ∈ rest, t.depth = opener.depth ∧ t.isPunctuator "\x7d" = true := by
  have hcloser : closerOf opener.text = "\x7d" := by
    rw [beq_iff_eq.1 (Bool.and_eq_true_iff.1 hopener).2]
    rfl
  unfold matchingClose
  rw [hcloser]
  split
  · next found hsplit =>
    refine iff_of_true ⟨found, rfl⟩ ?_
    by_contra hno
    rw [splitAtCloser_eq_none_iff.2 (by simpa using hno)] at hsplit
    cases hsplit
  · next hsplit =>
    refine iff_of_false (by simp) ?_
    simpa using splitAtCloser_eq_none_iff.1 hsplit

/-- A source is read behind `from` if it is a string and its attributes are closed. -/
theorem fromSource_isOk_iff : (∃ c', fromSource c = .ok (source, c')) ↔
    ∃ word specifier rest, c.rest = word :: specifier :: rest ∧ word.isName "from" = true ∧
      specifier.kind = .string ∧ AttributesClosed rest ∧ source = stringValue specifier.text := by
  constructor
  · rintro ⟨c', h⟩
    unfold fromSource at h
    split at h
    · cases h
    next hfrom =>
    obtain ⟨word, us, hrest, hword⟩ := exists_cons_of_any (by simpa [Cursor.atName] using hfrom)
    rw [Cursor.next_of_cons hrest] at h
    split at h
    · cases h
    next hkind =>
    have hat : us.head?.any (·.kind == .string) = true := by simpa [Cursor.atKind] using hkind
    obtain ⟨specifier, rest, rfl, hspecifier⟩ := exists_cons_of_any hat
    refine ⟨word, specifier, rest, hrest, hword, beq_iff_eq.1 hspecifier, ?_⟩
    dsimp only at h
    split at h
    · split at h
      · cases h
      · next hclose =>
        cases h
        refine ⟨fun w opener vs hvs _ hopener => ?_, rfl⟩
        subst hvs
        exact (matchingClose_isOk_iff hopener).1 ⟨_, hclose⟩
    · next hno =>
      cases h
      refine ⟨fun w opener vs hvs hw hopener => absurd ?_ hno, rfl⟩
      subst hvs
      exact Bool.and_eq_true_iff.2 ⟨Bool.or_eq_true_iff.2 hw, hopener⟩
  · rintro ⟨word, specifier, rest, hrest, hword, hspecifier, hclosed, rfl⟩
    have hfrom : c.atName "from" = true := by rw [Cursor.atName, hrest]; exact hword
    have hkind : Cursor.atKind ⟨word, specifier :: rest⟩ .string = true := beq_iff_eq.2 hspecifier
    unfold fromSource
    have hno : ¬ (!true) = true := by decide
    rw [hfrom, Cursor.next_of_cons hrest, hkind, if_neg hno, if_neg hno]
    dsimp only
    split
    · next hattributes =>
      obtain ⟨hw, hbrace⟩ := Bool.and_eq_true_iff.1 hattributes
      obtain ⟨w, us, rfl⟩ : ∃ w us, rest = w :: us := by
        refine List.exists_cons_of_ne_nil fun hnil => ?_
        subst hnil
        cases hw
      have hat : us.head?.any (·.isPunctuator "\x7b") = true := hbrace
      obtain ⟨opener, vs, rfl, hopener⟩ := exists_cons_of_any hat
      obtain ⟨found, hfound⟩ := (matchingClose_isOk_iff hopener).2
        (hclosed w opener vs rfl (Bool.or_eq_true_iff.1 hw) hopener)
      split
      · next herror => cases hfound.symm.trans herror
      · exact ⟨_, rfl⟩
    · exact ⟨_, rfl⟩

/-! ## Imports -/

/-- A clause is never empty, and starts with a name or a punctuator. -/
theorem IsClause.exists_cons (h : IsClause d ts clause) :
    ∃ t us, ts = t :: us ∧ t.kind ≠ .string := by
  cases h with
  | default ht | both ht hcomma h | comma hd ht hcomma => exact ⟨_, _, rfl, by simp [ht.1]⟩
  | bound h =>
    cases h with
    | star hpunctuator has hname | list hpunctuator hitems hplain hcloser =>
      exact ⟨_, _, rfl, by simp [Token.kind_of_isPunctuator hpunctuator]⟩

theorem isImport_of_importForm (h : importForm c = .ok (form, c')) :
    IsImport .accepted c.rest form := by
  unfold importForm at h
  split at h
  · next hkind =>
    obtain ⟨specifier, rest, hrest, hspecifier⟩ := exists_cons_of_any hkind
    cases h
    rw [hrest, Cursor.text_of_cons hrest]
    exact .bare (beq_iff_eq.1 hspecifier)
  · obtain ⟨⟨clause, e⟩, hclause, h⟩ := bind_eq_ok.1 h
    obtain ⟨⟨source, e'⟩, hsource, h⟩ := bind_eq_ok.1 h
    cases h
    obtain ⟨ts, hts, hclause⟩ := isClause_of_importClause hclause
    obtain ⟨word, specifier, rest, hrest, hword, hspecifier, hclosed, rfl⟩ :=
      fromSource_isOk_iff.1 ⟨e', hsource⟩
    rw [hts, hrest]
    exact .clause hclause hword hspecifier hclosed

theorem importForm_of_isImport (h : IsImport .accepted ts form) (last : Token) :
    ∃ c', importForm ⟨last, ts⟩ = .ok (form, c') := by
  cases h with
  | @bare specifier rest hspecifier =>
    have hkind : Cursor.atKind ⟨last, specifier :: rest⟩ .string = true := beq_iff_eq.2 hspecifier
    exact ⟨_, by rw [importForm, if_pos hkind]; rfl⟩
  | @clause ts rest clause word specifier hclause hword hspecifier hclosed =>
    obtain ⟨t, us, rfl, hkind⟩ := hclause.exists_cons
    have hno : Cursor.atKind ⟨last, t :: us ++ word :: specifier :: rest⟩ .string = false :=
      beq_eq_false_iff_ne.2 hkind
    obtain ⟨last', hread⟩ := importClause_of_isClause last (specifier :: rest) hclause hword
    obtain ⟨e, hsource⟩ := fromSource_isOk_iff (c := ⟨last', word :: specifier :: rest⟩).2
      ⟨word, specifier, rest, rfl, hword, hspecifier, hclosed, rfl⟩
    rw [importForm, if_neg (Bool.eq_false_iff.1 hno)]
    exact ⟨_, bind_eq_ok.2 ⟨_, hread, bind_eq_ok.2 ⟨_, hsource, rfl⟩⟩⟩

/-! ## The rules as they are meant -/

theorem IsEntry.accepted (h : IsEntry d ts item) : IsEntry .accepted ts item := by
  cases h with
  | plain hname hlocal => exact .plain hname (Or.inr rfl)
  | renamed hname has hnew hlocal => exact .renamed hname has hnew (Or.inr rfl)

theorem IsList.accepted (h : IsList d ts items) : IsList .accepted ts items := by
  induction h with
  | nil => exact .nil
  | last h => exact .last h.accepted
  | more h hcomma hmore ih => exact .more h.accepted hcomma ih

theorem IsBound.accepted (h : IsBound d ts star? items) : IsBound .accepted ts star? items := by
  cases h with
  | star hstar has hname => exact .star hstar has hname
  | list hopener hitems hplain hcloser => exact .list hopener hitems.accepted hplain hcloser

theorem isName_iff_of_isDefault (ht : d.IsDefault t) : t.isName "from" = true ↔ t.text = "from" := by
  simp [Token.isName, ht.1]

/-- Any default binding but `from` is read. -/
theorem IsClause.accepted (h : IsClause d ts clause)
    (hfrom : ts.head?.any (·.isName "from") = false) : IsClause .accepted ts clause := by
  have hdefault {t : Token} (ht : d.IsDefault t) (hno : t.isName "from" = false) :
      Dialect.accepted.IsDefault t :=
    ⟨ht.1, fun htext => absurd ((isName_iff_of_isDefault ht).2 htext) (by simp [hno])⟩
  cases h with
  | default ht => exact .default (hdefault ht hfrom)
  | bound h => exact .bound h.accepted
  | both ht hcomma h => exact .both (hdefault ht hfrom) hcomma h.accepted
  | comma hd ht hcomma => exact .comma rfl (hdefault ht hfrom) hcomma

/-- No import that is read starts with the word `from`. -/
theorem isName_of_isImport (h : IsImport .accepted ts form) :
    ts.head?.any (·.isName "from") = false := by
  have hdefault {t : Token} (ht : Dialect.accepted.IsDefault t) : t.isName "from" = false :=
    Bool.eq_false_iff.2 fun hname =>
      Bool.false_ne_true (ht.2 ((isName_iff_of_isDefault ht).1 hname))
  cases h with
  | bare hspecifier => exact Token.isName_of_kind (by simp [hspecifier]) _
  | clause hclause hword hspecifier hclosed =>
    cases hclause with
    | default ht | both ht hcomma h | comma hd ht hcomma => exact hdefault ht
    | bound h =>
      cases h with
      | star hpunctuator has hname | list hpunctuator hitems hplain hcloser =>
        exact Token.isName_of_kind (by simp [Token.kind_of_isPunctuator hpunctuator]) _

theorem IsImport.accepted (h : IsImport d ts form)
    (hfrom : ts.head?.any (·.isName "from") = false) : IsImport .accepted ts form := by
  cases h with
  | bare hspecifier => exact .bare hspecifier
  | clause hclause hword hspecifier hclosed =>
    obtain ⟨t, us, rfl, -⟩ := hclause.exists_cons
    exact .clause (hclause.accepted hfrom) hword hspecifier hclosed

theorem whole_isOk_iff {read : Except SyntaxError (Form × Cursor)} :
    (∃ s c', whole first read = .ok (s, c') ∧ s.form = form) ↔ ∃ c', read = .ok (form, c') := by
  constructor
  · rintro ⟨s, c', h, rfl⟩
    obtain ⟨⟨form, e⟩, hread, h⟩ := bind_eq_ok.1 h
    cases h
    exact ⟨_, hread⟩
  · rintro ⟨c', rfl⟩
    exact ⟨_, _, rfl, rfl⟩

/-- A comma behind the default binding is followed by a punctuator, where it may not stand alone. -/
theorem kind_of_comma {comma : Token} (h : IsImport d (t :: comma :: u :: rest) form)
    (hd : d.bareComma = false) (ht : t.kind = .name) (hcomma : comma.isPunctuator "," = true) :
    u.kind = .punctuator := by
  generalize hts : t :: comma :: u :: rest = ts at h
  cases h with
  | bare hspecifier =>
    cases hts
    cases ht.symm.trans hspecifier
  | @clause front back clause word specifier hclause hword hspecifier hclosed =>
    cases hclause with
    | default =>
      cases hts
      cases (Token.kind_of_isPunctuator hcomma).symm.trans (Token.kind_of_isName hword)
    | comma hbare => cases hd.symm.trans hbare
    | bound h =>
      cases h with
      | star hpunctuator | list hpunctuator =>
        obtain ⟨rfl, -⟩ := List.cons.inj hts
        cases ht.symm.trans (Token.kind_of_isPunctuator hpunctuator)
    | both hdefault hcomma h =>
      cases h with
      | star hpunctuator | list hpunctuator =>
        obtain ⟨-, -, rfl, -⟩ : _ ∧ _ ∧ u = _ ∧ _ := by
          simpa only [List.cons_append, List.cons.injEq] using hts
        exact Token.kind_of_isPunctuator hpunctuator

/-- What follows the word `import` is read as a form if and only if the rules derive it as this form,
and refused with a fault otherwise. Of what the rules as they are meant derive, everything is read
but a default binding of the name `from`. -/
theorem isImport_iff (first : Token) (ts : List Token) :
    (∀ form, (∃ s c', whole first (importForm ⟨first, ts⟩) = .ok (s, c') ∧ s.form = form) ↔
      IsImport .accepted ts form) ∧
    ((∃ e, whole first (importForm ⟨first, ts⟩) = .error e) ↔
      ∀ form, ¬ IsImport .accepted ts form) ∧
    ∀ form, IsImport .documented ts form →
      (IsImport .accepted ts form ↔ ts.head?.any (·.isName "from") = false) := by
  have hread (form : Form) :
      (∃ s c', whole first (importForm ⟨first, ts⟩) = .ok (s, c') ∧ s.form = form) ↔
        IsImport .accepted ts form :=
    whole_isOk_iff.trans
      ⟨fun ⟨_, h⟩ => isImport_of_importForm h, fun h => importForm_of_isImport h first⟩
  refine ⟨hread, ?_, fun form h => ⟨isName_of_isImport, h.accepted⟩⟩
  cases hresult : whole first (importForm ⟨first, ts⟩) with
  | error e =>
    refine iff_of_true ⟨e, rfl⟩ fun form h => ?_
    obtain ⟨s, c', hok, -⟩ := (hread form).2 h
    cases hresult.symm.trans hok
  | ok found =>
    refine iff_of_false (by simp) fun hno => hno found.1.form ?_
    exact (hread _).1 ⟨found.1, found.2, hresult, rfl⟩

/-- A script that imports a default binding and a list, with a comma behind its last entry. -/
def listImportSource : String := "import d, \x7b a as b, \x7d from './a.js';\n"

theorem isImport_listImportSource : ∃ first ts s c', scan listImportSource = .ok (first :: ts) ∧
    IsImport .documented ts (.importFrom ⟨some "d", none, [⟨"a", "b"⟩]⟩ "./a.js") ∧
    whole first (importForm ⟨first, ts⟩) = .ok (s, c') ∧
    s.form = .importFrom ⟨some "d", none, [⟨"a", "b"⟩]⟩ "./a.js" := by
  let tokens := tokensOf listImportSource
  let t (n : Nat) := tokens[n]?.getD default
  obtain ⟨hscan, hdefault, htext, hfrom, hcomma, hopener, ha, has, hb, hlocal, hend, hcloser, hword,
      hspecifier, hvalue⟩ :
      scan listImportSource = .ok [t 0, t 1, t 2, t 3, t 4, t 5, t 6, t 7, t 8, t 9, t 10, t 11] ∧
        (t 1).kind = .name ∧ (t 1).text = "d" ∧ (t 1).isName "from" = false ∧
        (t 2).isPunctuator "," = true ∧ (t 3).isPunctuator "\x7b" = true ∧
        bindingName? (t 4) = some "a" ∧ (t 5).isName "as" = true ∧
        bindingName? (t 6) = some "b" ∧ (t 6).kind = .name ∧ (t 7).isPunctuator "," = true ∧
        (t 8).isPunctuator "\x7d" = true ∧ (t 9).isName "from" = true ∧ (t 10).kind = .string ∧
        stringValue (t 10).text = "./a.js" := by
    decide +kernel
  have hitems : IsList .documented [t 4, t 5, t 6, t 7] [⟨"a", "b"⟩] :=
    .more (.renamed ha has hb (Or.inl hlocal)) hend .nil
  have hbound : IsBound .documented [t 3, t 4, t 5, t 6, t 7, t 8] none [⟨"a", "b"⟩] :=
    .list hopener hitems (by decide) hcloser
  have hclause := IsClause.both (d := .documented) ⟨hdefault, fun _ => rfl⟩ hcomma hbound
  have hclosed : AttributesClosed [t 11] := fun _ _ _ hrest => by cases hrest
  have hderived := IsImport.clause hclause hword hspecifier hclosed
  rw [htext, hvalue] at hderived
  obtain ⟨hread, -, hmeant⟩ := isImport_iff (t 0)
    [t 1, t 2, t 3, t 4, t 5, t 6, t 7, t 8, t 9, t 10, t 11]
  obtain ⟨s, c', hwhole, hform⟩ := (hread _).2 ((hmeant _ hderived).2 hfrom)
  exact ⟨t 0, _, s, c', hscan, hderived, hwhole, hform⟩

/-- A script whose default binding is followed by a comma and nothing else. -/
def bareCommaSource : String := "import d, from './a.js';\n"

/-- A script whose default binding is called `from`. -/
def fromBindingSource : String := "import from from './a.js';\n"

/-- One import is read though the rules as they are meant do not derive it, and one is refused
though they do. -/
theorem misread_imports :
    (∃ first ts s, scan bareCommaSource = .ok (first :: ts) ∧ statements (first :: ts) = .ok [s] ∧
      s.form = .importFrom ⟨some "d", none, []⟩ "./a.js" ∧ ∀ form, ¬ IsImport .documented ts form) ∧
    ∃ first ts e, scan fromBindingSource = .ok (first :: ts) ∧ statements (first :: ts) = .error e ∧
      IsImport .documented ts (.importFrom ⟨some "from", none, []⟩ "./a.js") := by
  constructor
  · let tokens := tokensOf bareCommaSource
    let t (n : Nat) := tokens[n]?.getD default
    let s := (statementsOf bareCommaSource)[0]?.getD default
    obtain ⟨hscan, hfound, hform, hname, hcomma, hfrom⟩ :
        scan bareCommaSource = .ok (t 0 :: t 1 :: t 2 :: t 3 :: tokens.drop 4) ∧
          statements (t 0 :: t 1 :: t 2 :: t 3 :: tokens.drop 4) = .ok [s] ∧
          s.form = .importFrom ⟨some "d", none, []⟩ "./a.js" ∧ (t 1).kind = .name ∧
          (t 2).isPunctuator "," = true ∧ (t 3).kind = .name := by
      decide +kernel
    refine ⟨_, _, s, hscan, hfound, hform, fun form h => ?_⟩
    cases hfrom.symm.trans (kind_of_comma h rfl hname hcomma)
  · let tokens := tokensOf fromBindingSource
    let t (n : Nat) := tokens[n]?.getD default
    obtain ⟨hscan, hfound, hname, htext, hword, hspecifier, hvalue⟩ :
        scan fromBindingSource = .ok [t 0, t 1, t 2, t 3, t 4] ∧
          statements [t 0, t 1, t 2, t 3, t 4] = .error ⟨.expectedClause, 1, 8⟩ ∧
          (t 1).kind = .name ∧ (t 1).text = "from" ∧ (t 2).isName "from" = true ∧
          (t 3).kind = .string ∧ stringValue (t 3).text = "./a.js" := by
      decide +kernel
    refine ⟨_, _, _, hscan, hfound, ?_⟩
    have hdefault : IsClause .documented [t 1] ⟨some (t 1).text, none, []⟩ :=
      .default ⟨hname, fun _ => rfl⟩
    have hclosed : AttributesClosed [t 4] := fun _ _ _ hrest => by cases hrest
    rw [← hvalue, ← htext]
    exact .clause hdefault hword hspecifier hclosed

end ModuleBundler.Script
