import ModuleBundler.Proofs.Statements

/-
  Which tokens the errors of statements are about. A reader that fails does so at a token that it
  has reached, or at the last one where the text has ended; brackets without a partner are blamed
  themselves (`Cursor.Blames`). There is a lemma for each reader, and where one reader goes on from
  where another one stops, what the second blames is in reach of the first. Hence the error of a
  script that scans is about one of its tokens (`exists_blamed_of_statementsAfter`).
-/

namespace ModuleBundler.Script

variable {c d : Cursor} {first : Token} {e : SyntaxError} {fault : Fault} {ts : List Token}

/-- Whether an error is about a token in reach of a place, at which it stands. -/
def Cursor.Blames (c : Cursor) (e : SyntaxError) : Prop :=
  ∃ t ∈ c.last :: c.rest, ∃ fault, fault ≠ .unterminatedSubstitution ∧ e = t.start.fault fault

theorem bind_eq_error {α β : Type} {x : Except SyntaxError α} {f : α → Except SyntaxError β} :
    (x >>= f) = .error e ↔ x = .error e ∨ ∃ a, x = .ok a ∧ f a = .error e := by
  cases x <;> simp [bind, Except.bind]

/-- What is blamed from further on is blamed. -/
theorem Cursor.Reaches.blames (h : c.Reaches d) (hd : d.Blames e) : c.Blames e := by
  obtain ⟨t, ht, hblame⟩ := hd
  exact ⟨t, h.mem ht, hblame⟩

theorem Cursor.blames_of_mem {t : Token} (ht : t ∈ c.rest)
    (hfault : fault ≠ .unterminatedSubstitution) : c.Blames (t.start.fault fault) :=
  ⟨t, List.mem_cons_of_mem c.last ht, fault, hfault, rfl⟩

/-- A fault at the next token is blamed on it, or on the last one behind which there is none. -/
theorem Cursor.blames_fault (c : Cursor) (hfault : fault ≠ .unterminatedSubstitution) :
    c.Blames (c.fault fault) := by
  refine ⟨c.rest.headD c.last, ?_, fault, hfault, rfl⟩
  cases c.rest with
  | nil => exact List.mem_cons_self
  | cons t ts => exact List.mem_cons_of_mem c.last List.mem_cons_self

/-! ## Parts of statements -/

theorem blames_of_bindingName (hfault : fault ≠ .unterminatedSubstitution)
    (h : bindingName c fault = .error e) : c.Blames e := by
  unfold bindingName at h
  split at h
  · cases h
  · cases h
    exact c.blames_fault hfault

theorem blames_of_expectName {what : String} (h : expectName c what = .error e) : c.Blames e := by
  unfold expectName at h
  split at h
  · cases h
  · cases h
    exact c.blames_fault Fault.noConfusion

theorem blames_of_listItem (h : listItem c = .error e) : c.Blames e := by
  unfold listItem at h
  obtain h | ⟨name, -, h⟩ := bind_eq_error.1 h
  · exact blames_of_bindingName Fault.noConfusion h
  · dsimp only at h
    split at h
    · obtain h | ⟨newName, -, h⟩ := bind_eq_error.1 h
      · exact (c.reaches_next.trans c.next.reaches_next).blames
          (blames_of_bindingName Fault.noConfusion h)
      · cases h
    · cases h

theorem blames_of_listSeparator (h : listSeparator c = .error e) : c.Blames e := by
  unfold listSeparator at h
  split at h
  · cases h
  · split at h
    · cases h
    · cases h
      exact c.blames_fault Fault.noConfusion

theorem blames_of_bracedList {items : List Binding} (h : bracedList items c = .error e) :
    c.Blames e := by
  fun_induction bracedList items c with
  | case1 => cases h
  | case2 items c hclose e' hitem =>
    cases h
    exact blames_of_listItem hitem
  | case3 items c hclose item d hitem e' hseparator =>
    cases h
    exact (c.reaches_next.trans (reaches_listItem hitem)).blames
      (blames_of_listSeparator hseparator)
  | case4 items c hclose item d hitem d' hseparator ih =>
    have hd := c.reaches_next.trans (reaches_listItem hitem)
    exact (hd.trans (reaches_listSeparator hseparator)).blames (ih h)

/-- An opening bracket without its partner is blamed itself. -/
theorem eq_of_matchingClose {opener : Token} {rest : List Token}
    (h : matchingClose opener rest = .error e) :
    e = opener.start.fault (.missingCloser (closerOf opener.text)) := by
  unfold matchingClose at h
  split at h
  · cases h
  · cases h
    rfl

theorem blames_of_fromSource (h : fromSource c = .error e) : c.Blames e := by
  unfold fromSource at h
  split at h
  · cases h
    exact c.blames_fault Fault.noConfusion
  · split at h
    · cases h
      exact c.reaches_next.blames (c.next.blames_fault Fault.noConfusion)
    · dsimp only at h
      split at h
      · split at h
        · next hclose =>
          cases h
          have hnext := c.reaches_next.trans c.next.reaches_next
          have hopener := c.next.next.reaches_next.trans c.next.next.next.reaches_next
          rw [eq_of_matchingClose hclose]
          exact (hnext.trans hopener).blames
            ⟨_, List.mem_cons_self, _, Fault.noConfusion, rfl⟩
        · cases h
      · cases h

theorem blames_of_whole {form : Except SyntaxError (Form × Cursor)}
    (hform : form = .error e → c.Blames e) (h : whole first form = .error e) : c.Blames e := by
  unfold whole at h
  obtain h | ⟨⟨f, after⟩, -, h⟩ := bind_eq_error.1 h
  · exact hform h
  · cases h

/-! ## Imports -/

theorem blames_of_defaultBinding (h : defaultBinding c = .error e) : c.Blames e := by
  unfold defaultBinding at h
  split at h
  · split at h
    · cases h
    · split at h
      · cases h
      · cases h
        exact c.reaches_next.blames (c.next.blames_fault Fault.noConfusion)
  · cases h

theorem blames_of_importClause (h : importClause c = .error e) : c.Blames e := by
  unfold importClause at h
  obtain h | ⟨⟨default?, d⟩, hd, h⟩ := bind_eq_error.1 h
  · exact blames_of_defaultBinding h
  refine (reaches_defaultBinding hd).blames ?_
  dsimp only at h
  split at h
  · split at h
    · obtain h | ⟨name, -, h⟩ := bind_eq_error.1 h
      · exact (d.reaches_next.trans d.next.reaches_next).blames (blames_of_expectName h)
      · cases h
    · cases h
      exact d.reaches_next.blames (d.next.blames_fault Fault.noConfusion)
  · split at h
    · obtain h | ⟨⟨items, after⟩, -, h⟩ := bind_eq_error.1 h
      · exact d.reaches_next.blames (blames_of_bracedList h)
      dsimp only at h
      split at h
      · cases h
        exact d.blames_fault Fault.noConfusion
      · cases h
    · split at h
      · cases h
        exact d.blames_fault Fault.noConfusion
      · cases h

theorem blames_of_importForm (h : importForm c = .error e) : c.Blames e := by
  unfold importForm at h
  split at h
  · cases h
  · obtain h | ⟨⟨clause, d⟩, hd, h⟩ := bind_eq_error.1 h
    · exact blames_of_importClause h
    obtain h | ⟨⟨source, after⟩, -, h⟩ := bind_eq_error.1 h
    · exact (reaches_importClause hd).blames (blames_of_fromSource h)
    · cases h

/-! ## Exports -/

theorem blames_of_exportListForm (h : exportListForm c = .error e) : c.Blames e := by
  unfold exportListForm at h
  obtain h | ⟨⟨items, d⟩, hd, h⟩ := bind_eq_error.1 h
  · exact c.reaches_next.blames (blames_of_bracedList h)
  dsimp only at h
  split at h
  · obtain h | ⟨⟨source, after⟩, -, h⟩ := bind_eq_error.1 h
    · exact (c.reaches_next.trans (reaches_bracedList hd)).blames (blames_of_fromSource h)
    · cases h
  · split at h
    · cases h
      exact c.blames_fault Fault.noConfusion
    · cases h

theorem blames_of_exportStarForm (h : exportStarForm c = .error e) : c.Blames e := by
  unfold exportStarForm at h
  split at h
  · have hname := c.reaches_next.trans c.next.reaches_next
    obtain h | ⟨name, -, h⟩ := bind_eq_error.1 h
    · exact hname.blames (blames_of_bindingName Fault.noConfusion h)
    obtain h | ⟨⟨source, after⟩, -, h⟩ := bind_eq_error.1 h
    · exact (hname.trans c.next.next.reaches_next).blames (blames_of_fromSource h)
    · cases h
  · obtain h | ⟨⟨source, after⟩, -, h⟩ := bind_eq_error.1 h
    · exact c.reaches_next.blames (blames_of_fromSource h)
    · cases h

theorem blames_of_exportFunction (h : exportFunction first c = .error e) : c.Blames e := by
  unfold exportFunction at h
  obtain h | ⟨name, -, h⟩ := bind_eq_error.1 h
  · exact (reaches_functionName c).blames (blames_of_expectName h)
  · cases h

theorem blames_of_exportClass {exported? : Option String}
    (h : exportClass first c exported? = .error e) : c.Blames e := by
  unfold exportClass at h
  obtain h | ⟨name, -, h⟩ := bind_eq_error.1 h
  · exact c.reaches_next.blames (blames_of_expectName h)
  split at h
  · cases h
    exact c.blames_fault Fault.noConfusion
  · next opener rest hbody =>
    obtain h | ⟨⟨inside, after⟩, -, h⟩ := bind_eq_error.1 h
    · have hopener : opener ∈ c.next.rest := by
        refine (c.next.rest.dropWhile_suffix
          (fun t => !(t.depth == 0 && t.isPunctuator "\x7b"))).mem ?_
        rw [hbody]
        exact List.mem_cons_self
      rw [eq_of_matchingClose h]
      exact c.reaches_next.blames (Cursor.blames_of_mem hopener Fault.noConfusion)
    · cases h

theorem blames_of_exportDefault (h : exportDefault first c = .error e) : c.Blames e := by
  unfold exportDefault at h
  split at h
  · cases h
    exact c.blames_fault Fault.noConfusion
  · split at h
    · cases h
    · split at h
      · exact blames_of_exportClass h
      · cases h

theorem blames_of_declarators {fresh awaiting : Bool} {names : List String}
    (h : declarators fresh awaiting names c = .error e) : c.Blames e := by
  fun_induction declarators fresh awaiting names c with
  | case1 | case2 | case3 => cases h
  | case4 _ _ c t ts hrest _ _ _ ih => exact (Cursor.reaches_of_cons hrest).blames (ih h)
  | case5 _ _ c t ts hrest _ _ _ _ e' hclose =>
    cases h
    rw [eq_of_matchingClose hclose]
    exact Cursor.blames_of_mem (hrest ▸ List.mem_cons_self) Fault.noConfusion
  | case6 _ _ c t ts hrest _ _ _ _ inside after hclose ih =>
    have hafter : Cursor.Reaches ⟨t, ts⟩ after :=
      Cursor.reaches_of_suffix (matchingClose_suffix hclose)
    exact ((Cursor.reaches_of_cons hrest).trans hafter).blames (ih h)
  | case7 _ _ c t ts hrest =>
    cases h
    exact Cursor.blames_of_mem (hrest ▸ List.mem_cons_self) Fault.noConfusion
  | case8 _ _ _ c t ts hrest _ _ _ ih => exact (Cursor.reaches_of_cons hrest).blames (ih h)

theorem blames_of_exportVariables (h : exportVariables first c = .error e) : c.Blames e := by
  unfold exportVariables at h
  obtain h | ⟨⟨names, d⟩, -, h⟩ := bind_eq_error.1 h
  · exact c.reaches_next.blames (blames_of_declarators h)
  dsimp only at h
  split at h
  · cases h
    exact c.blames_fault Fault.noConfusion
  · cases h

theorem blames_of_exportStatement (h : exportStatement first c = .error e) : c.Blames e := by
  unfold exportStatement at h
  split at h
  · exact c.reaches_next.blames (blames_of_exportDefault h)
  split at h
  · exact blames_of_exportVariables h
  split at h
  · exact blames_of_exportFunction h
  split at h
  · exact blames_of_exportClass h
  split at h
  · exact blames_of_whole blames_of_exportListForm h
  split at h
  · exact blames_of_whole blames_of_exportStarForm h
  split at h
  · cases h
    exact c.blames_fault Fault.noConfusion
  · cases h
    exact c.blames_fault Fault.noConfusion

/-! ## All statements -/

/-- Statements that cannot be read are blamed on one of their tokens. -/
theorem exists_blamed_of_statementsAfter {previous? : Option Token}
    (h : statementsAfter previous? ts = .error e) :
    ∃ t ∈ ts, ∃ fault, fault ≠ .unterminatedSubstitution ∧ e = t.start.fault fault := by
  fun_induction statementsAfter previous? ts with
  | case1 => cases h
  | case2 previous? t ts himport e' hwhole =>
    cases h
    exact blames_of_whole (c := ⟨t, ts⟩) blames_of_importForm hwhole
  | case3 previous? t ts himport statement c hwhole ih =>
    obtain h | ⟨others, -, h⟩ := bind_eq_error.1 h
    · obtain ⟨u, hu, hblame⟩ := ih h
      have hreaches := reaches_whole (fun _ _ => reaches_importForm) hwhole
      exact ⟨u, List.mem_cons_of_mem t (hreaches.rest.mem hu), hblame⟩
    · cases h
  | case4 previous? t ts himport hexport e' hstatement =>
    cases h
    exact blames_of_exportStatement (c := ⟨t, ts⟩) hstatement
  | case5 previous? t ts himport hexport statement c hstatement ih =>
    obtain h | ⟨others, -, h⟩ := bind_eq_error.1 h
    · obtain ⟨u, hu, hblame⟩ := ih h
      exact ⟨u, List.mem_cons_of_mem t ((reaches_exportStatement hstatement).rest.mem hu), hblame⟩
    · cases h
  | case6 previous? t ts himport hexport ih =>
    obtain ⟨u, hu, hblame⟩ := ih h
    exact ⟨u, List.mem_cons_of_mem t hu, hblame⟩

end ModuleBundler.Script
