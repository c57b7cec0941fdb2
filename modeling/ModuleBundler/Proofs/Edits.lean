import Mathlib.Data.List.Basic
import ModuleBundler.Proofs.Declarations
import ModuleBundler.Proofs.Splices
import ModuleBundler.Proofs.Statements

/-
  The edits of module statements. A statement takes away all its tokens, or those in front of a
  declaration or an expression that stays, and may add lines after the declaration (`Spans`). Every
  edit thus begins and ends where a token does, and the edits of a script lie in order and do not
  overlap (`among_of_statementsAfter`). So the code of a module is its hoisted lines, the script
  with exactly these ranges replaced, and the trailing lines (`exists_splicedFrom`).
-/

namespace ModuleBundler.Script

variable {first t u : Token} {ts us tokens tokens' : List Token} {c d c' : Cursor} {form : Form}
  {statement : Statement} {edits edits' : List Edit}

/-! ## The spans of statements -/

/-- Where the declaration ends that a statement leaves in place with lines after it. -/
def Form.declarationEnd? : Form → Option Nat
  | .exportClass _ _ bodyEnd => some bodyEnd
  | .exportVariables _ textEnd _ => some textEnd
  | _ => none

/-- The words that begin the declarations that are read to their end. -/
def declarationWords : List String := ["class", "const", "let", "var"]

/-- How a statement that is read from its first token at a place `c` up to a place `c'` changes the
text. -/
inductive Statement.Spans (first : Token) (c c' : Cursor) : Statement → Prop
  /-- All of it is taken away. -/
  | whole {form : Form}
      (hedits : Statement.edits ⟨form, first.start.offset, c'.last.stop⟩ =
        [⟨first.start.offset, c'.last.stop, ""⟩]) :
      Spans first c c' ⟨form, first.start.offset, c'.last.stop⟩
  /-- What stands before the next token gives way. -/
  | front {form : Form} {u : Token} {us : List Token} {text : String} (hrest : c'.rest = u :: us)
      (hedits : Statement.edits ⟨form, first.start.offset, u.start.offset⟩ =
        [⟨first.start.offset, u.start.offset, text⟩]) :
      Spans first c c' ⟨form, first.start.offset, u.start.offset⟩
  /-- What stands before a declaration is taken away, and lines are added after it. -/
  | declaration {form : Form} {u : Token} {us : List Token} {text : String}
      (hbegin : u :: us <:+ c.rest) (hback : c'.last :: c'.rest <:+ u :: us)
      (hword : u.text ∈ declarationWords) (hpasses : form.PassesOver us c')
      (hend : form.declarationEnd? = some c'.last.stop)
      (hedits : Statement.edits ⟨form, first.start.offset, u.start.offset⟩ =
        [⟨first.start.offset, u.start.offset, ""⟩, ⟨c'.last.stop, c'.last.stop, text⟩]) :
      Spans first c c' ⟨form, first.start.offset, u.start.offset⟩

/-- A form whose statement is taken away whole. -/
def Form.IsWhole (form : Form) : Prop :=
  ∀ start stop, Statement.edits ⟨form, start, stop⟩ = [⟨start, stop, ""⟩]

theorem spans_whole {read : Except SyntaxError (Form × Cursor)}
    (hform : ∀ f d, read = .ok (f, d) → f.IsWhole) (h : whole first read = .ok (statement, c')) :
    statement.Spans first c c' := by
  unfold whole at h
  obtain ⟨⟨f, after⟩, hread, h⟩ := bind_eq_ok.1 h
  cases h
  exact .whole (hform f _ hread _ _)

theorem isWhole_importForm (h : importForm c = .ok (form, c')) : form.IsWhole := by
  unfold importForm at h
  split at h
  · cases h
    exact fun _ _ => rfl
  · obtain ⟨⟨clause, d⟩, -, h⟩ := bind_eq_ok.1 h
    obtain ⟨⟨source, e⟩, -, h⟩ := bind_eq_ok.1 h
    cases h
    exact fun _ _ => rfl

theorem isWhole_exportListForm (h : exportListForm c = .ok (form, c')) : form.IsWhole := by
  unfold exportListForm at h
  obtain ⟨⟨items, d⟩, -, h⟩ := bind_eq_ok.1 h
  dsimp only at h
  split at h
  · obtain ⟨⟨source, e⟩, -, h⟩ := bind_eq_ok.1 h
    cases h
    exact fun _ _ => rfl
  · split at h
    · cases h
    · cases h
      exact fun _ _ => rfl

theorem isWhole_exportStarForm (h : exportStarForm c = .ok (form, c')) : form.IsWhole := by
  unfold exportStarForm at h
  split at h
  · obtain ⟨name, -, h⟩ := bind_eq_ok.1 h
    obtain ⟨⟨source, e⟩, -, h⟩ := bind_eq_ok.1 h
    cases h
    exact fun _ _ => rfl
  · obtain ⟨⟨source, e⟩, -, h⟩ := bind_eq_ok.1 h
    cases h
    exact fun _ _ => rfl

/-! ## Declarations -/

theorem Cursor.offset_of_cons (h : c.rest = u :: us) : c.offset = u.start.offset := by
  rw [Cursor.offset, h]
  rfl

theorem Cursor.text_of_cons (h : c.rest = u :: us) : c.text = u.text := by
  rw [Cursor.text, h]
  rfl

theorem Cursor.text_of_atName {name : String} (h : c.atName name = true) : c.text = name := by
  rw [Cursor.atName, Option.any_eq_true_iff_get] at h
  obtain ⟨hsome, hname⟩ := h
  rw [Cursor.text, Option.eq_some_of_isSome hsome]
  exact beq_iff_eq.1 (Bool.and_eq_true_iff.1 hname).2

theorem Cursor.next_of_cons (h : c.rest = u :: us) : c.next = ⟨u, us⟩ := by
  rw [Cursor.next, h]

theorem exists_cons_of_atKind {kind : TokenKind} (h : c.atKind kind = true) :
    ∃ u us, c.rest = u :: us := by
  cases hrest : c.rest with
  | nil => simp [Cursor.atKind, hrest] at h
  | cons u us => exact ⟨u, us, rfl⟩

theorem exists_cons_of_expectName {what name : String} (h : expectName c what = .ok name) :
    ∃ u us, c.rest = u :: us := by
  unfold expectName at h
  split at h
  · next hkind => exact exists_cons_of_atKind hkind
  · cases h

/-- Where there is more to read after going on, there was before. -/
theorem Cursor.Reaches.exists_cons (h : c.Reaches d) (hd : ∃ u us, d.rest = u :: us) :
    ∃ u us, c.rest = u :: us := by
  obtain ⟨u, us, hd⟩ := hd
  cases hrest : c.rest with
  | nil =>
    have hsuffix := h.rest
    rw [hrest, hd] at hsuffix
    cases List.suffix_nil.1 hsuffix
  | cons u us => exact ⟨u, us, rfl⟩

theorem spans_exportFunction (h : exportFunction first c = .ok (statement, c')) :
    statement.Spans first c c' := by
  unfold exportFunction at h
  obtain ⟨name, hname, h⟩ := bind_eq_ok.1 h
  obtain ⟨u, us, hrest⟩ := (reaches_functionName c).exists_cons (exists_cons_of_expectName hname)
  cases h
  rw [Cursor.offset_of_cons hrest]
  exact .front hrest rfl

/-- What is left of a statement when a declaration is read to its end: the declaration begins at a
place `c`, with the next token, and ends at a place `c'`. -/
structure Statement.Declares (first : Token) (c c' : Cursor) (s : Statement) : Prop where
  start : s.start = first.start.offset
  stop : s.stop = c.offset
  word : c.text ∈ declarationWords
  back : c'.last :: c'.rest <:+ c.rest
  passes : s.form.PassesOver c.next.rest c'
  ends : s.form.declarationEnd? = some c'.last.stop

theorem declares_exportClass {exported? : Option String} (hword : c.text ∈ declarationWords)
    (h : exportClass first c exported? = .ok (statement, c')) : statement.Declares first c c' := by
  unfold exportClass at h
  obtain ⟨name, hname, h⟩ := bind_eq_ok.1 h
  obtain ⟨u, us, hrest⟩ := c.reaches_next.exists_cons (exists_cons_of_expectName hname)
  split at h
  · cases h
  · next opener rest hbody =>
    obtain ⟨⟨inside, after⟩, hclose, h⟩ := bind_eq_ok.1 h
    cases h
    have hdrop := c.next.rest.dropWhile_suffix
      (fun t => !(t.depth == 0 && t.isPunctuator "\x7b"))
    rw [hbody] at hdrop
    have hafter := (matchingClose_suffix hclose).trans (List.suffix_cons opener rest)
    have hnext : c.next.rest <:+ c.rest := by
      rw [c.next_rest]
      exact List.tail_suffix c.rest
    exact ⟨rfl, rfl, hword, (hafter.trans hdrop).trans hnext,
      passesOver_of_matchingClose hbody hclose, rfl⟩

theorem declares_exportVariables (hword : c.text ∈ declarationWords)
    (h : exportVariables first c = .ok (statement, c')) : statement.Declares first c c' := by
  unfold exportVariables at h
  obtain ⟨⟨names, after⟩, hnames, h⟩ := bind_eq_ok.1 h
  dsimp only at h
  split at h
  · cases h
  · next hsome =>
    cases h
    cases hrest : c.rest with
    | nil =>
      have hnext : c.next.rest = [] := by rw [c.next_rest, hrest]; rfl
      unfold declarators at hnames
      split at hnames
      · cases hnames
        exact absurd rfl hsome
      · next hcons =>
        rw [hnext] at hcons
        cases hcons
    | cons u us =>
      have hnext := Cursor.next_of_cons hrest
      rw [hnext] at hnames
      refine ⟨rfl, rfl, hword, hrest ▸ reaches_declarators hnames, ?_, rfl⟩
      rw [hnext]
      exact passesOver_of_declarators hnames

theorem Statement.Declares.spans (h : statement.Declares first c c') :
    statement.Spans first c c' := by
  obtain ⟨form, start, stop⟩ := statement
  obtain ⟨hstart, hstop, hword, hback, hpasses, hend⟩ := h
  dsimp only at hstart hstop hpasses hend
  cases hrest : c.rest with
  | nil =>
    rw [hrest] at hback
    cases List.suffix_nil.1 hback
  | cons u us =>
    rw [Cursor.next_of_cons hrest] at hpasses
    rw [Cursor.text_of_cons hrest] at hword
    rw [hstart, hstop, Cursor.offset_of_cons hrest]
    rw [hrest] at hback
    have hbegin : u :: us <:+ c.rest := hrest ▸ List.suffix_rfl
    cases form with
    | exportClass name exported bodyEnd =>
      have hbody : bodyEnd = c'.last.stop := Option.some.inj hend
      exact .declaration hbegin hback hword hpasses hend (by rw [Statement.edits, hbody])
    | exportVariables names textEnd terminated =>
      have htext : textEnd = c'.last.stop := Option.some.inj hend
      exact .declaration hbegin hback hword hpasses hend (by rw [Statement.edits, htext])
    | _ => cases hend

/-- A statement may be read from an earlier place. -/
theorem Statement.Spans.of_reaches (h : statement.Spans first d c') (hd : c.Reaches d) :
    statement.Spans first c c' := by
  cases h with
  | whole hedits => exact .whole hedits
  | front hrest hedits => exact .front hrest hedits
  | declaration hbegin hback hword hpasses hend hedits =>
    exact .declaration (hbegin.trans hd.rest) hback hword hpasses hend hedits

theorem spans_exportDefault (h : exportDefault first c = .ok (statement, c')) :
    statement.Spans first c c' := by
  unfold exportDefault at h
  split at h
  · cases h
  · next hsome =>
    obtain ⟨u, us, hrest⟩ : ∃ u us, c.rest = u :: us := by
      cases hrest : c.rest with
      | nil => simp [hrest] at hsome
      | cons u us => exact ⟨u, us, rfl⟩
    rw [Cursor.offset_of_cons hrest] at h
    split at h
    · cases h
      exact .front hrest rfl
    · split at h
      · next hclass =>
        simp only [Bool.and_eq_true] at hclass
        refine (declares_exportClass ?_ h).spans
        rw [Cursor.text_of_atName hclass.1.1]
        decide
      · cases h
        exact .front hrest rfl

theorem spans_exportStatement (h : exportStatement first c = .ok (statement, c')) :
    statement.Spans first c c' := by
  unfold exportStatement at h
  split at h
  · exact (spans_exportDefault h).of_reaches c.reaches_next
  split at h
  · next hword =>
    refine (declares_exportVariables ?_ h).spans
    simp only [Bool.or_eq_true, beq_iff_eq] at hword
    rcases hword with (hword | hword) | hword <;> rw [hword] <;> decide
  split at h
  · exact spans_exportFunction h
  split at h
  · next hword =>
    refine (declares_exportClass ?_ h).spans
    rw [beq_iff_eq.1 hword]
    decide
  split at h
  · exact spans_whole (fun _ _ => isWhole_exportListForm) h
  split at h
  · exact spans_whole (fun _ _ => isWhole_exportStarForm) h
  split at h <;> cases h

/-! ## Edits among tokens -/

/-- Whether an offset is where one of the tokens begins or ends. -/
def IsBorder (tokens : List Token) (offset : Nat) : Prop :=
  ∃ t ∈ tokens, offset = t.start.offset ∨ offset = t.stop

/-- Whether edits begin and end where tokens do, one after another. -/
structure Among (tokens : List Token) (edits : List Edit) : Prop where
  borders : ∀ e ∈ edits, IsBorder tokens e.start ∧ IsBorder tokens e.stop
  ranges : ∀ e ∈ edits, e.start ≤ e.stop
  ordered : edits.Pairwise fun e e' => e.stop ≤ e'.start

theorem isBorder_start (h : t ∈ tokens) : IsBorder tokens t.start.offset := ⟨t, h, Or.inl rfl⟩

theorem isBorder_stop (h : t ∈ tokens) : IsBorder tokens t.stop := ⟨t, h, Or.inr rfl⟩

theorem IsBorder.of_suffix {offset : Nat} (h : IsBorder ts offset) (hts : ts <:+ tokens) :
    IsBorder tokens offset := by
  obtain ⟨t, ht, hoffset⟩ := h
  exact ⟨t, hts.mem ht, hoffset⟩

theorem Among.of_suffix (h : Among ts edits) (hts : ts <:+ tokens) : Among tokens edits where
  borders := fun e he => ⟨(h.borders e he).1.of_suffix hts, (h.borders e he).2.of_suffix hts⟩
  ranges := h.ranges
  ordered := h.ordered

/-- Edits among later tokens come after those that end before all these tokens. -/
theorem Among.append (h : Among tokens edits) (h' : Among ts edits') (hts : ts <:+ tokens)
    (hbefore : ∀ e ∈ edits, ∀ u ∈ ts, e.stop ≤ u.start.offset) :
    Among tokens (edits ++ edits') where
  borders := List.forall_mem_append.2 ⟨h.borders, (h'.of_suffix hts).borders⟩
  ranges := List.forall_mem_append.2 ⟨h.ranges, h'.ranges⟩
  ordered := by
    refine List.pairwise_append.2 ⟨h.ordered, h'.ordered, ?_⟩
    intro e he e' he'
    obtain ⟨u, hu, hstart⟩ := (h'.borders e' he').1
    have hle := hbefore e he u hu
    have := u.start_le_stop
    omega

/-- The first of tokens in order begins before all of them. -/
theorem start_le_start (h : (t :: ts).Pairwise fun t u => t.stop ≤ u.start.offset)
    (hu : u ∈ t :: ts) : t.start.offset ≤ u.start.offset := by
  rcases List.mem_cons.1 hu with rfl | hu
  · exact Nat.le_refl _
  · exact Nat.le_trans t.start_le_stop ((List.pairwise_cons.1 h).1 u hu)

theorem stop_le_start (h : (t :: ts).Pairwise fun t u => t.stop ≤ u.start.offset)
    (hu : u ∈ ts) : t.stop ≤ u.start.offset := (List.pairwise_cons.1 h).1 u hu

/-- The edits of a statement lie among its tokens, and end before those after it. -/
theorem Statement.Spans.among (h : statement.Spans first ⟨first, ts⟩ c')
    (hc : Cursor.Reaches ⟨first, ts⟩ c')
    (hordered : (first :: ts).Pairwise fun t u => t.stop ≤ u.start.offset) :
    Among (first :: ts) statement.edits ∧
      ∀ e ∈ statement.edits, ∀ u ∈ c'.rest, e.stop ≤ u.start.offset := by
  have hfirst := isBorder_start (List.mem_cons_self (a := first) (l := ts))
  have hlast : c'.last ∈ first :: ts := hc.mem List.mem_cons_self
  have hback : (c'.last :: c'.rest).Pairwise fun t u => t.stop ≤ u.start.offset :=
    hordered.sublist hc.sublist
  cases h with
  | whole hedits =>
    have hrange : first.start.offset ≤ c'.last.stop :=
      Nat.le_trans (start_le_start hordered hlast) c'.last.start_le_stop
    rw [hedits]
    refine ⟨⟨?_, ?_, List.pairwise_singleton _ _⟩, ?_⟩
    · exact List.forall_mem_singleton.2 ⟨hfirst, isBorder_stop hlast⟩
    · exact List.forall_mem_singleton.2 hrange
    · exact List.forall_mem_singleton.2 fun u hu => stop_le_start hback hu
  | @front form u us text hrest hedits =>
    have hu : u ∈ first :: ts := hc.mem (List.mem_cons_of_mem _ (by rw [hrest]; exact List.mem_cons_self))
    have hrange := start_le_start hordered hu
    rw [hrest, List.pairwise_cons] at hback
    rw [hedits, hrest]
    refine ⟨⟨?_, ?_, List.pairwise_singleton _ _⟩, ?_⟩
    · exact List.forall_mem_singleton.2 ⟨hfirst, isBorder_start hu⟩
    · exact List.forall_mem_singleton.2 hrange
    · exact List.forall_mem_singleton.2 fun v hv => start_le_start hback.2 hv
  | @declaration form u us text hbegin hdeclared hword hpasses hend hedits =>
    have hus : u :: us <:+ first :: ts := List.IsSuffix.trans hbegin (List.suffix_cons first ts)
    have hu : u ∈ first :: ts := hus.mem List.mem_cons_self
    have hfront : (u :: us).Pairwise fun t u => t.stop ≤ u.start.offset :=
      hordered.sublist hus.sublist
    have hrange := start_le_start hordered hu
    have hinside : u.start.offset ≤ c'.last.stop :=
      Nat.le_trans (start_le_start hfront (hdeclared.mem List.mem_cons_self)) c'.last.start_le_stop
    rw [hedits]
    refine ⟨⟨?_, ?_, ?_⟩, ?_⟩
    · exact List.forall_mem_cons.2 ⟨⟨hfirst, isBorder_start hu⟩,
        List.forall_mem_singleton.2 ⟨isBorder_stop hlast, isBorder_stop hlast⟩⟩
    · exact List.forall_mem_cons.2 ⟨hrange, List.forall_mem_singleton.2 (Nat.le_refl _)⟩
    · exact List.pairwise_pair.2 hinside
    · refine List.forall_mem_cons.2 ⟨fun v hv => ?_,
        List.forall_mem_singleton.2 fun v hv => stop_le_start hback hv⟩
      exact start_le_start hfront (hdeclared.mem (List.mem_cons_of_mem _ hv))

/-- The edits of all statements lie among the tokens of the script. -/
theorem among_of_statementsAfter {previous? : Option Token} {found : List Statement}
    (hordered : tokens.Pairwise fun t u => t.stop ≤ u.start.offset)
    (h : statementsAfter previous? tokens = .ok found) :
    Among tokens (found.flatMap Statement.edits) := by
  fun_induction statementsAfter previous? tokens generalizing found with
  | case1 =>
    cases h
    exact ⟨by rintro e ⟨⟩, by rintro e ⟨⟩, List.Pairwise.nil⟩
  | case2 => cases h
  | case3 previous? t ts himport statement c hwhole ih =>
    obtain ⟨others, hothers, h⟩ := bind_eq_ok.1 h
    cases h
    have hreaches := reaches_whole (fun _ _ => reaches_importForm) hwhole
    have hspans : statement.Spans t ⟨t, ts⟩ c :=
      spans_whole (fun _ _ => isWhole_importForm) hwhole
    obtain ⟨hamong, hbefore⟩ := hspans.among hreaches hordered
    have hsuffix : c.rest <:+ t :: ts := hreaches.rest.trans (List.suffix_cons t ts)
    exact hamong.append (ih (hordered.sublist hsuffix.sublist) hothers) hsuffix hbefore
  | case4 => cases h
  | case5 previous? t ts himport hexport statement c hstatement ih =>
    obtain ⟨others, hothers, h⟩ := bind_eq_ok.1 h
    cases h
    have hreaches := reaches_exportStatement hstatement
    obtain ⟨hamong, hbefore⟩ := (spans_exportStatement hstatement).among hreaches hordered
    have hsuffix : c.rest <:+ t :: ts := hreaches.rest.trans (List.suffix_cons t ts)
    exact hamong.append (ih (hordered.sublist hsuffix.sublist) hothers) hsuffix hbefore
  | case6 previous? t ts himport hexport ih =>
    exact (ih (List.pairwise_cons.1 hordered).2 h).of_suffix (List.suffix_cons t ts)

/-! ## Scripts without statements -/

/-- Whether a token between others begins an import or an export. -/
def StartsStatement (previous? : Option Token) (t : Token) (after : List Token) : Prop :=
  startsImport previous? t after = true ∨ startsExport previous? t = true

theorem statementsAfter_eq_nil {previous? : Option Token} {found : List Statement}
    (hnone : ∀ before t after, tokens = before ++ t :: after →
      ¬ StartsStatement (before.getLast?.or previous?) t after)
    (h : statementsAfter previous? tokens = .ok found) : found = [] := by
  fun_induction statementsAfter previous? tokens with
  | case1 =>
    cases h
    rfl
  | case2 | case3 => exact absurd (Or.inl ‹_›) (hnone [] _ _ rfl)
  | case4 | case5 => exact absurd (Or.inr ‹_›) (hnone [] _ _ rfl)
  | case6 previous? t ts himport hexport ih =>
    refine ih ?_ h
    rintro before u after rfl
    have hstart := hnone (t :: before) u after rfl
    rwa [List.getLast?_cons, Option.some_or, ← Option.or_some] at hstart

/-! ## The code of a module -/

/-- The bytes of the hashbang line of a script, without its line feed. -/
def hashbangEnd (source : String) : Nat :=
  byteSize (source.toList.take (hashbangLength source.toList))

/-- The characters of a script behind its hashbang line. -/
def bodyChars (source : String) : List Char :=
  source.toList.drop (hashbangLength source.toList)

/-- Whether edits can be made in a script one after another. -/
structure WellPlaced (source : String) (edits : List Edit) : Prop where
  sorted : edits.mergeSort (fun e e' => decide (e.start ≤ e'.start)) = edits
  disjoint : edits.Pairwise fun e e' => e.stop ≤ e'.start
  bounds : ∀ e ∈ edits,
    hashbangEnd source ≤ e.start ∧ e.start ≤ e.stop ∧ e.stop ≤ source.utf8ByteSize
  boundaries : ∀ e ∈ edits, String.Pos.Raw.IsValid source ⟨e.start⟩ ∧
    String.Pos.Raw.IsValid source ⟨e.stop⟩

theorem take_append_bodyChars (source : String) :
    source.toList.take (hashbangLength source.toList) ++ bodyChars source = source.toList :=
  List.take_append_drop _ _

/-- Edits among the tokens of a script are at cuts of it. -/
theorem isCut_of_isBorder {source : String} {offset : Nat}
    (h : LaidOut (bodyChars source) (hashbangEnd source) tokens) (hborder : IsBorder tokens offset) :
    IsCut (bodyChars source) (hashbangEnd source) offset := by
  obtain ⟨t, ht, rfl | rfl⟩ := hborder
  · exact h.start t ht
  · exact h.stop t ht

theorem Among.wellPlaced {source : String} (h : Among tokens edits)
    (hlaid : LaidOut (bodyChars source) (hashbangEnd source) tokens) : WellPlaced source edits where
  sorted := by
    refine List.mergeSort_of_pairwise (h.ordered.imp_of_mem ?_)
    intro e e' he he' hle
    rw [decide_eq_true_eq]
    exact Nat.le_trans (h.ranges e he) hle
  disjoint := h.ordered
  bounds := by
    intro e he
    obtain ⟨hstart, hstop⟩ := h.borders e he
    have hend := (isCut_of_isBorder hlaid hstop).le_end
    rw [hashbangEnd, ← byteSize_append, take_append_bodyChars, byteSize, String.ofList_toList] at hend
    exact ⟨(isCut_of_isBorder hlaid hstart).base_le, h.ranges e he, hend⟩
  boundaries := by
    intro e he
    have hvalid : ∀ offset, IsBorder tokens offset → String.Pos.Raw.IsValid source ⟨offset⟩ := by
      intro offset hborder
      have hcut := isCut_of_isBorder hlaid hborder
      rw [hashbangEnd, ← Nat.zero_add (byteSize _)] at hcut
      have hcut := hcut.of_append
      rw [take_append_bodyChars] at hcut
      exact hcut.isValid
    exact ⟨hvalid _ (h.borders e he).1, hvalid _ (h.borders e he).2⟩

/-- How the code of a module is put together from the statements found among its tokens, and from
the script with their edits made. -/
structure SplicedFrom (source : String) (body : ModuleBody) (tokens : List Token)
    (found : List Statement) (spliced : String) : Prop where
  /-- The edits are in order, apart from each other, and at boundaries of characters behind the
  hashbang line. -/
  placed : WellPlaced source (found.flatMap Statement.edits)
  /-- What lies outside their ranges is kept. -/
  edited : Splices (hashbangEnd source) (bodyChars source) (found.flatMap Statement.edits) spliced
  code : body.code = appendLines (joinLines (hoistedLines found) ++ spliced)
    (found.flatMap fun s => s.form.trailingLines)
  /-- Where no statement begins, nothing changes but the hashbang line. -/
  plain : (∀ before t after, tokens = before ++ t :: after →
      ¬ StartsStatement before.getLast? t after) →
    body.code = String.ofList (bodyChars source) ∧ body.specifiers = []

/-- Once the statements of a script are read, its edits can be made, and the rest of it is kept. -/
theorem exists_splicedFrom {source : String} {found : List Statement}
    (htokens : scan source = .ok tokens) (hfound : statements tokens = .ok found) :
    ∃ body spliced, ModuleBody.ofSource source = .ok body ∧
      SplicedFrom source body tokens found spliced := by
  have hlaid := laidOut_of_scan htokens
  have hamong := among_of_statementsAfter hlaid.ordered hfound
  have hplaced : WellPlaced source (found.flatMap Statement.edits) := hamong.wellPlaced hlaid
  have hcuts : ∀ e ∈ found.flatMap Statement.edits,
      IsCut (bodyChars source) (hashbangEnd source) e.start ∧
        IsCut (bodyChars source) (hashbangEnd source) e.stop := fun e he =>
    ⟨isCut_of_isBorder hlaid (hamong.borders e he).1,
      isCut_of_isBorder hlaid (hamong.borders e he).2⟩
  obtain ⟨spliced, hspliced⟩ := exists_splices hcuts hamong.ranges hamong.ordered
  have hbody : editedBody source (found.flatMap Statement.edits) = spliced := editedBody_eq hspliced
  have hsource : ModuleBody.ofSource source = .ok (.ofStatements source found) := by
    rw [ModuleBody.ofSource, htokens]
    exact congrArg (Except.map (ModuleBody.ofStatements source)) hfound
  refine ⟨_, spliced, hsource, hplaced, hspliced, ?_, ?_⟩
  · rw [← hbody]
    rfl
  · intro hnone
    have hempty : found = [] := by
      refine statementsAfter_eq_nil (fun before t after htokens => ?_) hfound
      rw [Option.or_none]
      exact hnone before t after htokens
    subst hempty
    have hchars : spliced = String.ofList (bodyChars source) := by
      rw [List.flatMap_nil] at hspliced
      generalize bodyChars source = chars at hspliced ⊢
      cases hspliced
      rfl
    rw [← hchars, ← hbody]
    exact ⟨rfl, rfl⟩

/-- The tokens of a script, or none. -/
def tokensOf (source : String) : List Token := (scan source).toOption.getD []

/-- The statements of a script, or none. -/
def statementsOf (source : String) : List Statement :=
  (statements (tokensOf source)).toOption.getD []

/-- A script with a hashbang line, letters of more than one byte, and statements of three kinds. -/
def classSource : String := "#!\nexport class É \x7b\x7d\nexport default 'é';\nimport './a.js'"

theorem splicedFrom_classSource : ∃ body spliced, ModuleBody.ofSource classSource = .ok body ∧
    body.code = "require(\"./a.js\");\n\nclass É \x7b\x7d\nexports[\"É\"] = É;\n" ++
      "exports.default = 'é';\n" ∧
    SplicedFrom classSource body (tokensOf classSource) (statementsOf classSource) spliced := by
  have htokens : scan classSource = .ok (tokensOf classSource) := by decide +kernel
  have hfound : statements (tokensOf classSource) = .ok (statementsOf classSource) := by
    decide +kernel
  have hcode : (ModuleBody.ofSource classSource).map ModuleBody.code =
      .ok ("require(\"./a.js\");\n\nclass É \x7b\x7d\nexports[\"É\"] = É;\n" ++
        "exports.default = 'é';\n") := by
    decide +kernel
  obtain ⟨body, spliced, hbody, hspliced⟩ := exists_splicedFrom htokens hfound
  rw [hbody] at hcode
  exact ⟨body, spliced, hbody, Except.ok.inj hcode, hspliced⟩

end ModuleBundler.Script
