import ModuleBundler.Proofs.ImportGrammar
import ModuleBundler.Proofs.Neighbours

/-
  The variables that a statement has to do with: those that an import declares, and those whose
  values an export takes. Each of them is the text of a name in the script, or the value of a string
  there (`isWritten_of_statements`): none is made up.
-/

namespace ModuleBundler.Script

variable {d : Dialect} {first : Token} {ts us tokens : List Token} {c c' : Cursor} {item : Binding}
  {items : List Binding} {form : Form} {clause : ImportClause} {s : Statement}
  {found : List Statement} {star? : Option String} {name : String}

/-- Whether tokens write a name: as a name, or as the value of a string. -/
def IsWritten (tokens : List Token) (name : String) : Prop :=
  ∃ t ∈ tokens, bindingName? t = some name

instance (tokens : List Token) (name : String) : Decidable (IsWritten tokens name) :=
  inferInstanceAs (Decidable (∃ t ∈ tokens, bindingName? t = some name))

/-- The variables that an import declares. -/
def ImportClause.locals (clause : ImportClause) : List String :=
  clause.default?.toList ++ clause.star?.toList ++ clause.named.map (·.newName)

/-- The variables that a statement declares, or whose values it exports. -/
def Form.locals : Form → List String
  | .importFrom clause _ => clause.locals
  | .exportNames items => items.map (·.name)
  | .exportFunction name _ => [name]
  | .exportClass name _ _ => [name]
  | .exportVariables names _ _ => names
  | _ => []

/-! ## Imports and lists -/

theorem IsWritten.mono (h : IsWritten ts name) (hsub : ts ⊆ us) : IsWritten us name := by
  obtain ⟨t, ht, hname⟩ := h
  exact ⟨t, hsub ht, hname⟩

theorem isWritten_of_kind {t : Token} (ht : t ∈ ts) (hkind : t.kind = .name) :
    IsWritten ts t.text := ⟨t, ht, by rw [bindingName?, hkind]⟩

theorem IsEntry.isWritten (h : IsEntry d ts item) :
    IsWritten ts item.name ∧ IsWritten ts item.newName := by
  cases h with
  | plain hname hlocal => exact ⟨⟨_, by simp, hname⟩, ⟨_, by simp, hname⟩⟩
  | renamed hname has hnew hlocal => exact ⟨⟨_, by simp, hname⟩, ⟨_, by simp, hnew⟩⟩

theorem IsList.isWritten (h : IsList d ts items) :
    ∀ item ∈ items, IsWritten ts item.name ∧ IsWritten ts item.newName := by
  induction h with
  | nil =>
    rintro item ⟨⟩
  | last h => exact List.forall_mem_singleton.2 h.isWritten
  | @more ts us comma item items h hcomma hmore ih =>
    have hfront : ts ⊆ ts ++ comma :: us := List.subset_append_left _ _
    have hback : us ⊆ ts ++ comma :: us := fun t ht => by simp [ht]
    refine List.forall_mem_cons.2 ⟨?_, fun item hmem => ?_⟩
    · exact h.isWritten.imp (·.mono hfront) (·.mono hfront)
    · exact (ih item hmem).imp (·.mono hback) (·.mono hback)

theorem IsBound.isWritten (h : IsBound d ts star? items) :
    ∀ name ∈ star?.toList ++ items.map (·.newName), IsWritten ts name := by
  cases h with
  | star hstar has hname => exact List.forall_mem_singleton.2 (isWritten_of_kind (by simp) hname)
  | list hopener hitems hplain hcloser =>
    exact List.forall_mem_map.2 fun item hmem =>
      (hitems.isWritten item hmem).2.mono fun t ht => by simp [ht]

theorem IsClause.isWritten (h : IsClause d ts clause) :
    ∀ name ∈ clause.locals, IsWritten ts name := by
  cases h with
  | default ht | comma hd ht hcomma =>
    exact List.forall_mem_singleton.2 (isWritten_of_kind (by simp) ht.1)
  | bound h => exact h.isWritten
  | both ht hcomma h =>
    refine List.forall_mem_cons.2 ⟨isWritten_of_kind (by simp) ht.1, fun name hmem => ?_⟩
    exact (h.isWritten name hmem).mono fun t ht => by simp [ht]

theorem IsImport.isWritten (h : IsImport d ts form) : ∀ name ∈ form.locals, IsWritten ts name := by
  cases h with
  | bare hspecifier => rintro name ⟨⟩
  | clause hclause hword hspecifier hrest =>
    exact fun name hmem => (hclause.isWritten name hmem).mono (List.subset_append_left _ _)

/-! ## Exports -/

theorem isWritten_of_atKind (h : c.atKind .name = true) : IsWritten c.rest c.text := by
  obtain ⟨t, us, hrest, hkind⟩ := exists_cons_of_any h
  rw [Cursor.text_of_cons hrest, hrest]
  exact isWritten_of_kind List.mem_cons_self (beq_iff_eq.1 hkind)

theorem isWritten_of_expectName {what : String} (h : expectName c what = .ok name) :
    IsWritten c.rest name := by
  unfold expectName at h
  split at h
  · next hkind =>
    cases h
    exact isWritten_of_atKind hkind
  · cases h

theorem isWritten_of_exportListForm (h : exportListForm c = .ok (form, c')) :
    ∀ name ∈ form.locals, IsWritten c.rest name := by
  unfold exportListForm at h
  obtain ⟨⟨items, d⟩, hitems, h⟩ := bind_eq_ok.1 h
  obtain ⟨ts, closer, more, hts, -, hlist, hmore⟩ := isList_of_bracedList hitems
  obtain rfl : items = more := hmore
  dsimp only at h
  split at h
  · obtain ⟨⟨source, e⟩, -, h⟩ := bind_eq_ok.1 h
    cases h
    rintro name ⟨⟩
  · split at h
    · cases h
    · cases h
      refine List.forall_mem_map.2 fun item hmem => ?_
      refine (hlist.isWritten item hmem).1.mono fun t ht => ?_
      exact c.reaches_next.rest.mem (by rw [hts]; exact List.mem_append_left _ ht)

theorem isWritten_of_exportStarForm (h : exportStarForm c = .ok (form, c')) :
    ∀ name ∈ form.locals, IsWritten c.rest name := by
  unfold exportStarForm at h
  split at h
  · obtain ⟨name, -, h⟩ := bind_eq_ok.1 h
    obtain ⟨⟨source, e⟩, -, h⟩ := bind_eq_ok.1 h
    cases h
    rintro name ⟨⟩
  · obtain ⟨⟨source, e⟩, -, h⟩ := bind_eq_ok.1 h
    cases h
    rintro name ⟨⟩

theorem isWritten_of_exportClass {exported? : Option String}
    (h : exportClass first c exported? = .ok (s, c')) :
    ∀ name ∈ s.form.locals, IsWritten c.rest name := by
  unfold exportClass at h
  obtain ⟨name, hname, h⟩ := bind_eq_ok.1 h
  split at h
  · cases h
  · obtain ⟨⟨inside, after⟩, -, h⟩ := bind_eq_ok.1 h
    cases h
    exact List.forall_mem_singleton.2
      ((isWritten_of_expectName hname).mono c.reaches_next.rest.subset)

theorem isWritten_of_exportVariables (h : exportVariables first c = .ok (s, c')) :
    ∀ name ∈ s.form.locals, IsWritten c.rest name := by
  unfold exportVariables at h
  obtain ⟨⟨names, d⟩, hnames, h⟩ := bind_eq_ok.1 h
  dsimp only at h
  split at h
  · cases h
  · cases h
    exact forall_of_declarators (fun t ht => isWritten_of_kind (c.reaches_next.rest.mem ht)) hnames
      (by rintro name ⟨⟩)

theorem isWritten_of_exportStatement (h : exportStatement first c = .ok (s, c')) :
    ∀ name ∈ s.form.locals, IsWritten c.rest name := by
  have hnext {name : String} (h : IsWritten c.next.rest name) : IsWritten c.rest name :=
    h.mono c.reaches_next.rest.subset
  cases readsExport_of_exportStatement h with
  | defaultFunction hname hs hend =>
    subst hs
    have hwritten := (isWritten_of_atKind hname).mono (reaches_functionName c.next).rest.subset
    exact List.forall_mem_singleton.2 (hnext hwritten)
  | defaultClass hword h => exact fun name hmem => hnext (isWritten_of_exportClass h name hmem)
  | defaultExpression hs hend =>
    subst hs
    rintro name ⟨⟩
  | declarators hword h => exact isWritten_of_exportVariables h
  | function h =>
    unfold exportFunction at h
    obtain ⟨name, hname, h⟩ := bind_eq_ok.1 h
    cases h
    exact List.forall_mem_singleton.2
      ((isWritten_of_expectName hname).mono (reaches_functionName c).rest.subset)
  | namedClass hword h => exact isWritten_of_exportClass h
  | list h => exact isWritten_of_exportListForm (eq_of_whole h)
  | star h => exact isWritten_of_exportStarForm (eq_of_whole h)

/-- Every variable that a statement has to do with is written in the script. -/
theorem isWritten_of_statements (hfound : statements tokens = .ok found) (hs : s ∈ found) :
    ∀ name ∈ s.form.locals, IsWritten tokens name := by
  obtain ⟨before, after, hsplit⟩ := List.append_of_mem hs
  obtain ⟨front, first, ts, c', rfl, hread, -⟩ := exists_place_of_mem hfound hsplit
  have hwritten : ∀ name ∈ s.form.locals, IsWritten ts name := by
    rcases hread with ⟨-, hread⟩ | ⟨-, hread⟩
    · exact (isImport_of_importForm (eq_of_whole hread)).isWritten
    · exact isWritten_of_exportStatement hread
  exact fun name hmem => (hwritten name hmem).mono fun t ht => by simp [ht]

end ModuleBundler.Script
