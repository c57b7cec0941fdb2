import ModuleBundler.Proofs.Coverage

/-
  Where statements stand. Each statement that is found begins with a token of the script, and is
  what is read at that token (`exists_place_of_mem`); behind a word `export` there are eight ways to
  read it (`ReadsExport`). No two tokens that begin statements start at
  the same offset, so that the offset alone tells what was read (`exportStatement_of_mem`).
-/

namespace ModuleBundler.Script

variable {first t : Token} {ts tokens front rest : List Token} {c' : Cursor}
  {statement s : Statement} {found : List Statement} {previous? : Option Token}

/-- Whether a statement is read at its first token, up to a place. -/
def Statement.ReadAt (s : Statement) (first : Token) (ts : List Token) (c' : Cursor) : Prop :=
  first.isName "import" = true ∧ whole first (importForm ⟨first, ts⟩) = .ok (s, c') ∨
    first.isName "export" = true ∧ exportStatement first ⟨first, ts⟩ = .ok (s, c')

theorem Statement.ReadAt.spans (h : s.ReadAt first ts c') : s.Spans first ⟨first, ts⟩ c' := by
  rcases h with ⟨-, h⟩ | ⟨-, h⟩
  · exact spans_whole (fun _ _ => isWhole_importForm) h
  · exact spans_exportStatement h

theorem Statement.Spans.start_eq (h : s.Spans first ⟨t, ts⟩ c') : s.start = first.start.offset := by
  cases h <;> rfl

/-- The first edit of a statement begins where the statement does. -/
theorem Statement.Spans.exists_start (h : s.Spans first ⟨t, ts⟩ c') :
    ∃ e ∈ s.edits, e.start = first.start.offset := by
  cases h with
  | whole hedits | front hrest hedits | declaration hbegin hback hword hpasses hend hedits =>
    exact ⟨_, hedits ▸ List.mem_cons_self, rfl⟩

theorem Statement.ReadAt.reaches (h : s.ReadAt first ts c') : Cursor.Reaches ⟨first, ts⟩ c' := by
  rcases h with ⟨-, h⟩ | ⟨-, h⟩
  · exact reaches_whole (fun _ _ => reaches_importForm) h
  · exact reaches_exportStatement h

/-- How the tokens behind a word `export` are read. -/
inductive ReadsExport (first : Token) (c : Cursor) (s : Statement) (c' : Cursor) : Prop
  | defaultFunction (hname : (functionName c.next).atKind .name = true)
      (hs : s = ⟨.exportFunction (functionName c.next).text true, first.start.offset,
        c.next.offset⟩)
      (hend : c' = c.next)
  | defaultClass (hword : c.next.text ∈ declarationWords)
      (h : exportClass first c.next (some "default") = .ok (s, c'))
  | defaultExpression (hs : s = ⟨.exportExpression, first.start.offset, c.next.offset⟩)
      (hend : c' = c.next)
  | declarators (hword : c.text ∈ declarationWords) (h : exportVariables first c = .ok (s, c'))
  | function (h : exportFunction first c = .ok (s, c'))
  | namedClass (hword : c.text ∈ declarationWords) (h : exportClass first c none = .ok (s, c'))
  | list (h : whole first (exportListForm c) = .ok (s, c'))
  | star (h : whole first (exportStarForm c) = .ok (s, c'))

theorem readsExport_of_exportStatement {c : Cursor} (h : exportStatement first c = .ok (s, c')) :
    ReadsExport first c s c' := by
  unfold exportStatement at h
  split at h
  · unfold exportDefault at h
    split at h
    · cases h
    split at h
    · next hfunction =>
      cases h
      exact .defaultFunction (Bool.and_eq_true_iff.1 hfunction).2 rfl rfl
    split at h
    · next hclass =>
      simp only [Bool.and_eq_true] at hclass
      refine .defaultClass ?_ h
      rw [Cursor.text_of_atName hclass.1.1]
      decide
    · cases h
      exact .defaultExpression rfl rfl
  split at h
  · next hword =>
    refine .declarators ?_ h
    simp only [Bool.or_eq_true, beq_iff_eq] at hword
    rcases hword with (hword | hword) | hword <;> rw [hword] <;> decide
  split at h
  · exact .function h
  split at h
  · next hword =>
    refine .namedClass ?_ h
    rw [beq_iff_eq.1 hword]
    decide
  split at h
  · exact .list h
  split at h
  · exact .star h
  split at h <;> cases h

theorem isName_of_startsImport (h : startsImport previous? t ts = true) :
    t.isName "import" = true := by
  simp only [startsImport, Bool.and_eq_true] at h
  exact h.1.1.1

theorem isName_of_startsExport (h : startsExport previous? t = true) :
    t.isName "export" = true := by
  simp only [startsExport, Bool.and_eq_true] at h
  exact h.1.1

/-- Every statement is read at one of the tokens. Those before it are before, those after it come
behind the place where it ends. -/
theorem exists_place_of_mem (h : statementsAfter previous? tokens = .ok found)
    {before after : List Statement} (hfound : found = before ++ s :: after) :
    ∃ front first ts c', tokens = front ++ first :: ts ∧ s.ReadAt first ts c' ∧
      statementsAfter (some c'.last) c'.rest = .ok after := by
  fun_induction statementsAfter previous? tokens generalizing found before with
  | case1 =>
    cases h
    simp at hfound
  | case2 => cases h
  | case3 previous? t ts himport statement c hwhole ih =>
    obtain ⟨others, hothers, h⟩ := bind_eq_ok.1 h
    obtain rfl : statement :: others = found := Except.ok.inj h
    cases before with
    | nil =>
      obtain ⟨rfl, rfl⟩ := List.cons_eq_cons.1 hfound
      exact ⟨[], t, ts, c, rfl, Or.inl ⟨isName_of_startsImport himport, hwhole⟩, hothers⟩
    | cons b before =>
      obtain ⟨front, first, us, d, hsplit, hread⟩ := ih hothers (List.cons_eq_cons.1 hfound).2
      obtain ⟨head, hhead⟩ :=
        (reaches_whole (fun _ _ => reaches_importForm) hwhole).rest.trans (List.suffix_cons t ts)
      refine ⟨head ++ front, first, us, d, ?_, hread⟩
      rw [← hhead, hsplit, List.append_assoc]
  | case4 => cases h
  | case5 previous? t ts himport hexport statement c hstatement ih =>
    obtain ⟨others, hothers, h⟩ := bind_eq_ok.1 h
    obtain rfl : statement :: others = found := Except.ok.inj h
    cases before with
    | nil =>
      obtain ⟨rfl, rfl⟩ := List.cons_eq_cons.1 hfound
      exact ⟨[], t, ts, c, rfl, Or.inr ⟨isName_of_startsExport hexport, hstatement⟩, hothers⟩
    | cons b before =>
      obtain ⟨front, first, us, d, hsplit, hread⟩ := ih hothers (List.cons_eq_cons.1 hfound).2
      obtain ⟨head, hhead⟩ :=
        (reaches_exportStatement hstatement).rest.trans (List.suffix_cons t ts)
      refine ⟨head ++ front, first, us, d, ?_, hread⟩
      rw [← hhead, hsplit, List.append_assoc]
  | case6 previous? t ts himport hexport ih =>
    obtain ⟨front, first, us, d, rfl, hread⟩ := ih h hfound
    exact ⟨t :: front, first, us, d, rfl, hread⟩

/-! ## Offsets -/

/-- A name that is not empty has a length. -/
theorem Token.start_lt_stop_of_isName {text : String} (h : t.isName text = true)
    (htext : 0 < text.utf8ByteSize) : t.start.offset < t.stop := by
  obtain ⟨-, hname⟩ := Bool.and_eq_true_iff.1 h
  rw [Token.stop, beq_iff_eq.1 hname]
  omega

/-- Of tokens in order, only one begins at an offset and has a length. -/
theorem eq_of_start_eq {front' ts' : List Token} {t' : Token}
    (hordered : (front ++ t :: ts).Pairwise fun t u => t.stop ≤ u.start.offset)
    (hsplit : front ++ t :: ts = front' ++ t' :: ts') (hstart : t.start.offset = t'.start.offset)
    (ht : t.start.offset < t.stop) (ht' : t'.start.offset < t'.stop) :
    front = front' ∧ t = t' ∧ ts = ts' := by
  rcases front_or_back hsplit with ⟨more, rfl⟩ | ⟨more, rfl, hback⟩
  · have hback : t :: ts = t :: (more ++ t' :: ts') := by
      rw [List.append_assoc] at hsplit
      exact List.append_cancel_left hsplit
    obtain ⟨-, rfl⟩ := List.cons_eq_cons.1 hback
    have hle := (List.pairwise_cons.1 (List.pairwise_append.1 hordered).2.1).1 t' (by simp)
    omega
  · cases more with
    | nil =>
      obtain ⟨rfl, rfl⟩ := List.cons_eq_cons.1 hback
      exact ⟨List.append_nil _, rfl, rfl⟩
    | cons u more =>
      obtain ⟨rfl, -⟩ := List.cons_eq_cons.1 hback
      have hle := (List.pairwise_append.1 hordered).2.2 t' (by simp) t (by simp)
      omega

/-- A statement that begins at the offset of a token with a length is read there. Those found after
it come behind the place where it ends. -/
theorem exists_place_of_start (hordered : tokens.Pairwise fun t u => t.stop ≤ u.start.offset)
    (h : statementsAfter previous? tokens = .ok found) (hs : s ∈ found)
    (hsplit : tokens = front ++ first :: rest) (hwidth : first.start.offset < first.stop)
    (hstart : s.start = first.start.offset) :
    ∃ before after c', found = before ++ s :: after ∧ s.ReadAt first rest c' ∧
      statementsAfter (some c'.last) c'.rest = .ok after := by
  obtain ⟨before, after, hfound⟩ := List.append_of_mem hs
  obtain ⟨front', first', ts, c', hplace, hread, hafter⟩ := exists_place_of_mem h hfound
  have hoffset : first.start.offset = first'.start.offset := by
    rw [← hstart, hread.spans.start_eq]
  have hwidth' : first'.start.offset < first'.stop := by
    rcases hread with ⟨hname, -⟩ | ⟨hname, -⟩
    · exact Token.start_lt_stop_of_isName hname (by decide)
    · exact Token.start_lt_stop_of_isName hname (by decide)
  obtain ⟨-, rfl, rfl⟩ := eq_of_start_eq (hsplit ▸ hordered) (hsplit.symm.trans hplace) hoffset
    hwidth hwidth'
  exact ⟨before, after, c', hfound, hread, hafter⟩

/-- The statement that begins with a word `export` is what is read there. -/
theorem Statement.ReadAt.exportStatement_eq (h : s.ReadAt first ts c')
    (hfirst : first.isName "export" = true) : exportStatement first ⟨first, ts⟩ = .ok (s, c') := by
  rcases h with ⟨hname, -⟩ | ⟨-, hread⟩
  · simp only [Token.isName, Bool.and_eq_true, beq_iff_eq] at hname hfirst
    rw [hname.2] at hfirst
    simp at hfirst
  · exact hread

/-- The statement that begins at the offset of a word `export` is what is read there. -/
theorem exportStatement_of_mem (hordered : tokens.Pairwise fun t u => t.stop ≤ u.start.offset)
    (h : statementsAfter previous? tokens = .ok found) (hs : s ∈ found)
    (hsplit : tokens = front ++ first :: rest) (hfirst : first.isName "export" = true)
    (hstart : s.start = first.start.offset) :
    ∃ c', exportStatement first ⟨first, rest⟩ = .ok (s, c') := by
  obtain ⟨before, after, c', -, hread, -⟩ := exists_place_of_start hordered h hs hsplit
    (Token.start_lt_stop_of_isName hfirst (by decide)) hstart
  exact ⟨c', hread.exportStatement_eq hfirst⟩

end ModuleBundler.Script
