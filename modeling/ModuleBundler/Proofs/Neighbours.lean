import ModuleBundler.Proofs.Depths
import ModuleBundler.Proofs.Gaps
import ModuleBundler.Proofs.Places
import ModuleBundler.Proofs.Requests

/-
  Tokens that become neighbours. What stands between two tokens that stay, when all those between
  them are taken away, has the words of the edits there (`Between.exists_adds`). Of these only the text
  behind a declaration has a semicolon (`exists_adds_of_edit`); nothing takes the place of an import
  or a list of exports. Hence what its semicolon kept apart is joined, unless a declaration ends
  there or the neighbours keep themselves apart (`keepsApart_iff`): of two statements a call is made
  in `joined_call`.
-/

namespace ModuleBundler.Script

variable {d k : Nat} {p n t : Token} {front mid back ts tokens : List Token} {text text' : String}
  {words : List Word} {edits : List Edit} {c c' : Cursor} {names found' : List String}
  {found : List Statement} {s : Statement}

/-! ## Texts with a semicolon -/

/-- Whether a text adds words to any script, and a semicolon among them. -/
def Separates (text : String) : Prop := ∃ words, Adds 0 words 0 text ∧ mark ";" ∈ words

theorem Separates.prepend (h : Separates text) {words : List Word} (h' : Adds 0 words 0 text') :
    Separates (text' ++ text) := by
  obtain ⟨words', hadds, hmark⟩ := h
  exact ⟨_, h'.append hadds, List.mem_append_right _ hmark⟩

theorem isGap_newline : IsGap ['\n'] := fun _ _ _ => ⟨true, rfl⟩

theorem isGap_space : IsGap [' '] := fun _ newline _ => ⟨newline, rfl⟩

theorem separates_assignment (exported : String) {value : String} (hvalue : IsNameText value) :
    Separates (assignment exported value) := by
  obtain ⟨words, hmember, -⟩ : Calls 0 [] 0 (member exported ++ " = ") :=
    calls_member exported (by decide) (by decide)
  have hend : Adds 0 (wordsOf ";") 0 ";" := adds_piece (by decide) (by decide)
  have hsemicolon := Adds.name hvalue (by decide) hend
  have hname : IsNameText "exports" := isNameText_of_isPlainName (by decide)
  have hexports := Adds.name hname
    (endsName_append (endsName_append (endsName_member exported))) (hmember.append hsemicolon)
  have htext : assignment exported value =
      "exports" ++ (member exported ++ " = " ++ (value ++ ";")) := by
    rw [assignment]
    simp only [String.append_assoc]
    rfl
  refine ⟨_, htext ▸ hexports, ?_⟩
  have hmark : mark ";" ∈ wordsOf ";" := by decide
  simp [hmark]

theorem separates_assignments (hne : names ≠ []) (hnames : ∀ name ∈ names, IsNameText name) :
    Separates (" ".intercalate (names.map fun name => assignment name name)) := by
  induction names with
  | nil => exact absurd rfl hne
  | cons name names ih =>
    obtain ⟨hname, hnames⟩ := List.forall_mem_cons.1 hnames
    have hfirst := separates_assignment name hname
    cases names with
    | nil => exact hfirst
    | cons name' names =>
      obtain ⟨words, hadds, -⟩ := hfirst
      have hrest := (ih (List.cons_ne_nil _ _) hnames).prepend (adds_gap isGap_space 0)
      rw [List.map_cons, List.map_cons, String.intercalate_cons_cons, String.append_assoc]
      exact hrest.prepend hadds

/-! ## Names of declarations -/

/-- Whether what a declaration assigns are names, at least one. -/
def Form.IsAssigned : Form → Prop
  | .exportClass name _ _ => IsNameText name
  | .exportVariables names _ _ => names ≠ [] ∧ ∀ name ∈ names, IsNameText name
  | _ => True

theorem mem_of_patternNames {previous : Token} {inDefault? : Option Nat} {name : String}
    (h : name ∈ patternNames previous inDefault? ts) :
    ∃ t ∈ ts, t.kind = .name ∧ t.text = name := by
  induction ts generalizing previous inDefault? with
  | nil => cases h
  | cons t ts ih =>
    have hrest {previous : Token} {inDefault? : Option Nat}
        (h : name ∈ patternNames previous inDefault? ts) :
        ∃ u ∈ t :: ts, u.kind = .name ∧ u.text = name := by
      obtain ⟨u, hu, hname⟩ := ih h
      exact ⟨u, List.mem_cons_of_mem _ hu, hname⟩
    unfold patternNames at h
    split at h
    · split at h <;> exact hrest h
    · split at h
      · exact hrest h
      · split at h
        · next hkind =>
          rw [Bool.and_eq_true, Bool.and_eq_true, beq_iff_eq] at hkind
          rcases List.mem_cons.1 h with rfl | h
          · exact ⟨t, List.mem_cons_self, hkind.1.1, rfl⟩
          · exact hrest h
        · exact hrest h

theorem mem_of_splitAtCloser {depth : Nat} {closer : String} {passed inside : List Token}
    (h : splitAtCloser depth closer passed ts = some (inside, c)) :
    ∀ t ∈ inside, t ∈ passed ∨ t ∈ ts := by
  induction ts generalizing passed with
  | nil => cases h
  | cons u ts ih =>
    unfold splitAtCloser at h
    split at h
    · cases h
      exact fun t ht => Or.inl (List.mem_reverse.1 ht)
    · intro t ht
      rcases ih h t ht with hpassed | hts
      · rcases List.mem_cons.1 hpassed with rfl | hpassed
        · exact Or.inr List.mem_cons_self
        · exact Or.inl hpassed
      · exact Or.inr (List.mem_cons_of_mem _ hts)

theorem mem_of_matchingClose {opener : Token} {inside : List Token}
    (h : matchingClose opener ts = .ok (inside, c)) (ht : t ∈ inside) : t ∈ ts := by
  unfold matchingClose at h
  split at h
  · next hsplit =>
    cases h
    exact (mem_of_splitAtCloser hsplit t ht).resolve_left (by rintro ⟨⟩)
  · cases h

/-- The names of a declaration are texts of names in the script. -/
theorem forall_of_declarators {p : String → Prop} {fresh awaiting : Bool}
    (hc : ∀ t ∈ c.rest, t.kind = .name → p t.text)
    (h : declarators fresh awaiting names c = .ok (found', c')) (hnames : ∀ name ∈ names, p name) :
    ∀ name ∈ found', p name := by
  fun_induction declarators fresh awaiting names c with
  | case1 | case2 | case3 =>
    cases h
    exact hnames
  | case4 fresh names c t ts hrest hsemicolon hline hkind ih =>
    rw [hrest] at hc
    obtain ⟨ht, hts⟩ := List.forall_mem_cons.1 hc
    refine ih hts h (List.forall_mem_append.2 ⟨hnames, List.forall_mem_singleton.2 ?_⟩)
    exact ht (beq_iff_eq.1 hkind)
  | case5 | case7 => cases h
  | case6 fresh names c t ts hrest hsemicolon hline hkind hopener inside after hclose ih =>
    rw [hrest] at hc
    have hts := (List.forall_mem_cons.1 hc).2
    refine ih (fun u hu => hts u ?_) h (List.forall_mem_append.2 ⟨hnames, fun name hname => ?_⟩)
    · exact (List.IsSuffix.trans (List.suffix_cons _ _) (matchingClose_suffix hclose)).mem hu
    · obtain ⟨u, hu, hkind, rfl⟩ := mem_of_patternNames hname
      exact hts u (mem_of_matchingClose hclose hu) hkind
  | case8 fresh awaiting names c t ts hrest hsemicolon hline hawaiting ih =>
    rw [hrest] at hc
    exact ih (List.forall_mem_cons.1 hc).2 h hnames

theorem isAssigned_of_exportClass {first : Token} {exported? : Option String}
    (hc : ∀ t ∈ c.rest, t.IsScanned) (h : exportClass first c exported? = .ok (s, c')) :
    s.form.IsAssigned := by
  unfold exportClass at h
  obtain ⟨name, hname, h⟩ := bind_eq_ok.1 h
  split at h
  · cases h
  · obtain ⟨⟨inside, after⟩, -, h⟩ := bind_eq_ok.1 h
    cases h
    exact isNameText_of_expectName (fun t ht => hc t (c.reaches_next.rest.mem ht)) hname

theorem isAssigned_of_exportVariables {first : Token} (hc : ∀ t ∈ c.rest, t.IsScanned)
    (h : exportVariables first c = .ok (s, c')) : s.form.IsAssigned := by
  unfold exportVariables at h
  obtain ⟨⟨names, d⟩, hnames, h⟩ := bind_eq_ok.1 h
  dsimp only at h
  split at h
  · cases h
  · next hsome =>
    cases h
    refine ⟨fun hnone => hsome (List.isEmpty_iff.2 hnone), ?_⟩
    exact forall_of_declarators (fun t ht => hc t (c.reaches_next.rest.mem ht)) hnames
      (by rintro name ⟨⟩)

theorem Form.IsWhole.isAssigned {form : Form} (h : form.IsWhole) : form.IsAssigned := by
  cases form with
  | exportClass name exported bodyEnd => simpa [Statement.edits] using h 0 0
  | exportVariables names textEnd terminated => simpa [Statement.edits] using h 0 0
  | _ => trivial

theorem isAssigned_of_exportStatement {first : Token} (hc : ∀ t ∈ c.rest, t.IsScanned)
    (h : exportStatement first c = .ok (s, c')) : s.form.IsAssigned := by
  unfold exportStatement at h
  split at h
  · unfold exportDefault at h
    split at h
    · cases h
    · split at h
      · cases h
        trivial
      · split at h
        · exact isAssigned_of_exportClass (fun t ht => hc t (c.reaches_next.rest.mem ht)) h
        · cases h
          trivial
  split at h
  · exact isAssigned_of_exportVariables hc h
  split at h
  · unfold exportFunction at h
    obtain ⟨name, -, h⟩ := bind_eq_ok.1 h
    cases h
    trivial
  split at h
  · exact isAssigned_of_exportClass hc h
  split at h
  · exact Form.IsWhole.isAssigned (isWhole_exportListForm (eq_of_whole h))
  split at h
  · exact Form.IsWhole.isAssigned (isWhole_exportStarForm (eq_of_whole h))
  split at h <;> cases h

/-- What the declarations of a script assign are names. -/
theorem isAssigned_of_statements {source : String} (htokens : scan source = .ok tokens)
    (hfound : statements tokens = .ok found) (hs : s ∈ found) : s.form.IsAssigned := by
  obtain ⟨before, after, hsplit⟩ := List.append_of_mem hs
  obtain ⟨front, first, ts, c', htokens', hread, -⟩ := exists_place_of_mem hfound hsplit
  have hscanned : ∀ t ∈ ts, t.IsScanned := by
    intro t ht
    refine isScanned_of_scan htokens t ?_
    rw [htokens']
    exact List.mem_append_right _ (List.mem_cons_of_mem _ ht)
  rcases hread with ⟨-, hread⟩ | ⟨-, hread⟩
  · exact Form.IsWhole.isAssigned (isWhole_importForm (eq_of_whole hread))
  · exact isAssigned_of_exportStatement hscanned hread

/-! ## The texts of edits -/

/-- Whether an edit adds a text behind a declaration: it neither takes away only, nor puts an
assignment in front of an expression. -/
def Edit.Appends (e : Edit) : Prop := e.text ≠ "" ∧ e.text ≠ "exports.default = "

theorem Edit.appends_of_head {e : Edit} (h : e.text.toList.head? ∈ [some '\n', some ';']) :
    e.Appends := by
  constructor <;> intro htext <;> rw [htext] at h <;> revert h <;> decide

theorem exists_adds_of_separates {e : Edit} (h : Separates e.text) (happends : e.Appends) :
    ∃ words, Adds 0 words 0 e.text ∧ (mark ";" ∈ words ↔ e.Appends) := by
  obtain ⟨words, hadds, hmark⟩ := h
  exact ⟨words, hadds, iff_of_true hmark happends⟩

/-- Where a declaration ends that stays, a text is added. -/
theorem exists_appends (h : s.form.declarationEnd? = some k) :
    ∃ text, s.edits = [⟨s.start, s.stop, ""⟩, ⟨k, k, text⟩] ∧ (Edit.mk k k text).Appends := by
  obtain ⟨form, start, stop⟩ := s
  cases form with
  | exportClass name exported bodyEnd =>
    obtain rfl : bodyEnd = k := Option.some.inj h
    exact ⟨_, rfl, Edit.appends_of_head (by simp)⟩
  | exportVariables names textEnd terminated =>
    obtain rfl : textEnd = k := Option.some.inj h
    exact ⟨_, rfl, Edit.appends_of_head (by cases terminated <;> simp)⟩
  | _ => cases h

/-- No other text is added. -/
theorem declarationEnd?_of_appends {e : Edit} (he : e ∈ s.edits) (h : e.Appends) :
    s.form.declarationEnd? = some e.start ∧ e.stop = e.start := by
  obtain ⟨form, start, stop⟩ := s
  cases form with
  | exportClass name exported bodyEnd =>
    rcases List.mem_pair.1 he with rfl | rfl
    · exact absurd rfl h.1
    · exact ⟨rfl, rfl⟩
  | exportVariables names textEnd terminated =>
    rcases List.mem_pair.1 he with rfl | rfl
    · exact absurd rfl h.1
    · exact ⟨rfl, rfl⟩
  | exportExpression =>
    obtain rfl := List.mem_singleton.1 he
    exact absurd rfl h.2
  | _ =>
    obtain rfl := List.mem_singleton.1 he
    exact absurd rfl h.1

/-- The text of an edit has a semicolon exactly if it is added behind a declaration. -/
theorem exists_adds_of_edit (hs : s.form.IsAssigned) : ∀ e ∈ s.edits,
    ∃ words, Adds 0 words 0 e.text ∧ (mark ";" ∈ words ↔ e.Appends) := by
  have hremoval (start stop : Nat) : ∃ words, Adds 0 words 0 (Edit.mk start stop "").text ∧
      (mark ";" ∈ words ↔ (Edit.mk start stop "").Appends) :=
    ⟨[], adds_empty 0, iff_of_false (by simp) fun happends => happends.1 rfl⟩
  obtain ⟨form, start, stop⟩ := s
  cases form with
  | exportExpression =>
    have hadds : Adds 0 (wordsOf "exports.default = ") 0 "exports.default = " :=
      adds_piece (by decide) (by decide)
    exact List.forall_mem_singleton.2
      ⟨_, hadds, iff_of_false (by decide) fun happends => happends.2 rfl⟩
  | exportClass name exported bodyEnd =>
    have hline := (separates_assignment exported hs).prepend (adds_gap isGap_newline 0)
    exact List.forall_mem_cons.2 ⟨hremoval _ _, List.forall_mem_singleton.2
      (exists_adds_of_separates hline (Edit.appends_of_head (by simp)))⟩
  | exportVariables names textEnd terminated =>
    obtain ⟨words, hterminator⟩ : ∃ words, Adds 0 words 0 (if terminated then "" else ";") := by
      cases terminated with
      | true => exact ⟨[], adds_empty 0⟩
      | false => exact ⟨wordsOf ";", adds_piece (by decide) (by decide)⟩
    have hlines := ((separates_assignments hs.1 hs.2).prepend (adds_gap isGap_newline 0)).prepend
      hterminator
    rw [← String.append_assoc] at hlines
    exact List.forall_mem_cons.2 ⟨hremoval _ _, List.forall_mem_singleton.2
      (exists_adds_of_separates hlines (Edit.appends_of_head (by cases terminated <;> simp)))⟩
  | _ => exact List.forall_mem_singleton.2 (hremoval _ _)

/-! ## Between two tokens that stay -/

theorem Spelled.ordered {offset : Nat} {chars : List Char} (h : Spelled offset chars tokens) :
    tokens.Pairwise fun t u => t.stop ≤ u.start.offset := by
  induction h with
  | gap => exact .nil
  | token hgap hstart htext hrest ih => exact .cons (fun u hu => (hrest.bounds u hu).1) ih

/-- Of tokens in order, those in front of one end before it, and those behind it begin after it. -/
theorem sides_of_mem (hordered : (front ++ p :: back).Pairwise fun t u => t.stop ≤ u.start.offset)
    (ht : t ∈ front ++ p :: back) :
    t ∈ front ∧ t.stop ≤ p.start.offset ∨ t = p ∨ t ∈ back ∧ p.stop ≤ t.start.offset := by
  obtain ⟨-, hback, hfront⟩ := List.pairwise_append.1 hordered
  rcases List.mem_append.1 ht with ht | ht
  · exact Or.inl ⟨ht, hfront t ht p List.mem_cons_self⟩
  · refine Or.inr ((List.mem_cons.1 ht).imp_right fun ht => ⟨ht, ?_⟩)
    exact (List.pairwise_cons.1 hback).1 t ht

/-- A token that stays has every edit on one of its sides. -/
theorem Among.beside (h : Among tokens edits) (htokens : tokens = front ++ p :: back)
    (hordered : tokens.Pairwise fun t u => t.stop ≤ u.start.offset)
    (hkept : ¬ IsEdited edits p) : ∀ e ∈ edits, e.stop ≤ p.start.offset ∨ p.stop ≤ e.start := by
  subst htokens
  intro e he
  have hside : ∀ k, IsBorder (front ++ p :: back) k → k ≤ p.start.offset ∨ p.stop ≤ k := by
    rintro k ⟨t, ht, hk⟩
    have hwidth := t.start_le_stop
    rcases sides_of_mem hordered ht with ⟨-, hle⟩ | rfl | ⟨-, hle⟩ <;> omega
  obtain ⟨hstart, hstop⟩ := h.borders e he
  rcases hside _ hstart with hstart | hstart
  · rcases hside _ hstop with hstop | hstop
    · exact Or.inl hstop
    · exact absurd ⟨e, he, hstart, hstop⟩ hkept
  · exact Or.inr hstart

/-- Edits in order, each on one side of a range, are those before it and those behind it. -/
theorem exists_sides {a b : Nat} (hordered : edits.Pairwise fun e e' => e.stop ≤ e'.start)
    (hranges : ∀ e ∈ edits, e.start ≤ e.stop)
    (hsides : ∀ e ∈ edits, e.stop ≤ a ∨ b ≤ e.start) : ∃ earlier later, edits = earlier ++ later ∧
      (∀ e ∈ earlier, e.stop ≤ a) ∧ ∀ e ∈ later, b ≤ e.start := by
  induction edits with
  | nil => exact ⟨[], [], rfl, by rintro e ⟨⟩, by rintro e ⟨⟩⟩
  | cons e edits ih =>
    obtain ⟨hlater, hordered⟩ := List.pairwise_cons.1 hordered
    obtain ⟨hrange, hranges⟩ := List.forall_mem_cons.1 hranges
    obtain ⟨hside, hsides⟩ := List.forall_mem_cons.1 hsides
    rcases hside with hstop | hstart
    · obtain ⟨earlier, later, rfl, hbefore, hbehind⟩ := ih hordered hranges hsides
      exact ⟨e :: earlier, later, rfl, List.forall_mem_cons.2 ⟨hstop, hbefore⟩, hbehind⟩
    · refine ⟨[], e :: edits, rfl, by rintro e ⟨⟩, List.forall_mem_cons.2 ⟨hstart, ?_⟩⟩
      intro e' he'
      have := hlater e' he'
      omega

theorem Splices.eq_of_nil {offset : Nat} {chars : List Char} {out : String}
    (h : Splices offset chars [] out) : out = String.ofList chars := by
  cases h
  rfl

/-- Whether a token stays when edits are made, behind a text: the text is what the edits in front of
the token make of what stands in front of it, and all others are behind the token. -/
def Token.StaysBehind (t : Token) (offset : Nat) (chars : List Char) (edits : List Edit)
    (out : String) : Prop :=
  ∃ before after earlier later, chars = before ++ (t.text.toList ++ after) ∧
    t.start.offset = offset + byteSize before ∧ edits = earlier ++ later ∧
    (∀ e ∈ earlier, e.stop ≤ t.start.offset) ∧ (∀ e ∈ later, t.stop ≤ e.start) ∧
    Splices offset before earlier out

/-- A token with all edits on one of its sides is still there when they are made. -/
theorem Splices.at_token {offset : Nat} {before after : List Char} {earlier later : List Edit}
    {out : String} (h : Splices offset (before ++ (t.text.toList ++ after)) (earlier ++ later) out)
    (hstart : t.start.offset = offset + byteSize before)
    (hearlier : ∀ e ∈ earlier, e.stop ≤ t.start.offset) (hlater : ∀ e ∈ later, t.stop ≤ e.start) :
    ∃ out₁ out₂, out = out₁ ++ t.text ++ out₂ ∧ Splices offset before earlier out₁ ∧
      Splices t.stop after later out₂ := by
  rw [hstart] at hearlier
  have hstop := t.stop_eq
  obtain ⟨out₁, out₂, rfl, hfront, h⟩ := h.split hearlier fun e he => by
    have := hlater e he
    omega
  rw [← hstart, ← List.nil_append later] at h
  obtain ⟨out₂, out₃, rfl, htext, hback⟩ := h.split (by rintro e ⟨⟩) (hstop ▸ hlater)
  refine ⟨out₁, out₃, ?_, hfront, hstop ▸ hback⟩
  rw [htext.eq_of_nil, String.ofList_toList, String.append_assoc]

/-- A border of tokens between two of them is one of those in the middle, or next to them. -/
theorem IsBorder.between (h : IsBorder (front ++ p :: (mid ++ n :: back)) k)
    (hordered : (front ++ p :: (mid ++ n :: back)).Pairwise fun t u => t.stop ≤ u.start.offset)
    (hwidths : ∀ t ∈ front ++ p :: (mid ++ n :: back), t.start.offset < t.stop)
    (hlow : p.stop ≤ k) (hhigh : k ≤ n.start.offset) :
    k = p.stop ∨ IsBorder mid k ∨ k = n.start.offset := by
  obtain ⟨t, ht, htk⟩ := h
  have hwidth := hwidths t ht
  have hp := hwidths p (by simp)
  have hn := hwidths n (by simp)
  have hbehind := (List.pairwise_cons.1 (List.pairwise_append.1 hordered).2.1).2
  rcases sides_of_mem hordered ht with ⟨-, hle⟩ | rfl | ⟨ht, -⟩
  · omega
  · omega
  · rcases sides_of_mem hbehind ht with ⟨ht, -⟩ | rfl | ⟨-, hle⟩
    · exact Or.inr (Or.inl ⟨t, ht, htk⟩)
    · omega
    · omega

/-- What the edits between two tokens that stay make of the text there. -/
structure Between (edits : List Edit) (p n : Token) (chars : List Char) (between : List Edit)
    (middle : String) : Prop where
  size : n.start.offset = p.stop + byteSize chars
  mem_iff : ∀ e, e ∈ between ↔ e ∈ edits ∧ p.stop ≤ e.start ∧ e.stop ≤ n.start.offset
  ordered : between.Pairwise fun e e' => e.stop ≤ e'.start
  splices : Splices p.stop chars between middle

/-- Two tokens that stay are still there when edits are made, with the edited text between them. -/
theorem exists_between {offset : Nat} {chars tail : List Char} {out : String}
    (hspelled : Spelled offset chars tokens) (h : Splices offset (chars ++ tail) edits out)
    (hamong : Among tokens edits) (htokens : tokens = front ++ p :: (mid ++ n :: back))
    (hp : ¬ IsEdited edits p) (hn : ¬ IsEdited edits n) :
    ∃ before middle after gap between, out = before ++ p.text ++ middle ++ n.text ++ after ∧
      p.StaysBehind offset (chars ++ tail) edits before ∧
      n.StaysBehind offset (chars ++ tail) edits (before ++ p.text ++ middle) ∧
      Spelled p.stop gap mid ∧ Between edits p n gap between middle := by
  have hordered := hspelled.ordered
  have hsplitN : tokens = (front ++ p :: mid) ++ n :: back := by simpa using htokens
  have hbesideP := hamong.beside htokens hordered hp
  have hbesideN := hamong.beside hsplitN hordered hn
  subst htokens
  have hpWidth := (hspelled.bounds p (by simp)).2.1
  have hnWidth := (hspelled.bounds n (by simp)).2.1
  obtain ⟨a, b, rfl, hpStart, -, hbehind⟩ := hspelled.at_token
  obtain ⟨g, z, rfl, hnStart, hgap, -⟩ := hbehind.at_token
  obtain ⟨earlier, later, rfl, hearlier, hlater⟩ :=
    exists_sides hamong.ordered hamong.ranges hbesideP
  obtain ⟨-, hlaterOrdered, -⟩ := List.pairwise_append.1 hamong.ordered
  obtain ⟨between, behind, rfl, hbetween, hbehindN⟩ := exists_sides hlaterOrdered
    (fun e he => hamong.ranges e (List.mem_append_right _ he))
    (fun e he => hbesideN e (List.mem_append_right _ he))
  -- The text is cut at the second token first, and its front at the first one.
  have hpChars : a ++ (p.text.toList ++ (g ++ (n.text.toList ++ z))) ++ tail =
      a ++ (p.text.toList ++ (g ++ (n.text.toList ++ (z ++ tail)))) := by simp
  have hnChars : a ++ (p.text.toList ++ (g ++ (n.text.toList ++ z))) ++ tail =
      (a ++ (p.text.toList ++ g)) ++ (n.text.toList ++ (z ++ tail)) := by simp
  have hpStop := p.stop_eq
  have hnOffset : n.start.offset = offset + byteSize (a ++ (p.text.toList ++ g)) := by
    rw [byteSize_append, byteSize_append]
    omega
  have hbeforeN : ∀ e ∈ earlier ++ between, e.stop ≤ n.start.offset := by
    refine List.forall_mem_append.2 ⟨fun e he => ?_, hbetween⟩
    have := hearlier e he
    omega
  rw [hnChars, ← List.append_assoc earlier] at h
  obtain ⟨out', out₃, rfl, hfrontN, -⟩ := h.at_token hnOffset hbeforeN hbehindN
  obtain ⟨out₁, middle, rfl, hfrontP, hmiddle⟩ := hfrontN.at_token hpStart hearlier
    fun e he => hlater e (List.mem_append_left _ he)
  refine ⟨out₁, middle, out₃, g, between, rfl, ?_, ?_, hgap, hnStart, fun e => ⟨fun he => ?_, ?_⟩,
    (List.pairwise_append.1 hlaterOrdered).1, hmiddle⟩
  · exact ⟨_, _, _, _, hpChars, hpStart, rfl, hearlier, hlater, hfrontP⟩
  · exact ⟨_, _, _, _, hnChars, hnOffset, (List.append_assoc _ _ _).symm, hbeforeN, hbehindN,
      hfrontN⟩
  · exact ⟨by simp [he], hlater e (List.mem_append_left _ he), hbetween e he⟩
  · rintro ⟨he, hlow, hhigh⟩
    have hrange := hamong.ranges e he
    rcases List.mem_append.1 he with he | he
    · have := hearlier e he
      omega
    · refine (List.mem_append.1 he).resolve_right fun he => ?_
      have := hbehindN e he
      omega

/-- When all tokens between two that stay are taken away, what is left there has the words of the
edits. -/
theorem Between.exists_adds {w : Word} {q : Edit → Prop} {chars : List Char} {between : List Edit}
    {middle : String} (h : Between edits p n chars between middle)
    (hspelled : Spelled p.stop chars mid) (hamong : Among (front ++ p :: (mid ++ n :: back)) edits)
    (hordered : (front ++ p :: (mid ++ n :: back)).Pairwise fun t u => t.stop ≤ u.start.offset)
    (hwidths : ∀ t ∈ front ++ p :: (mid ++ n :: back), t.start.offset < t.stop)
    (hp : ¬ IsEdited edits p) (hn : ¬ IsEdited edits n) (hmid : ∀ t ∈ mid, IsEdited edits t)
    (hadds : ∀ e ∈ edits, ∃ words, Adds d words d e.text ∧ (w ∈ words ↔ q e)) :
    ∃ words, Adds d words d middle ∧
      (w ∈ words ↔ ∃ e ∈ edits, q e ∧ p.stop ≤ e.start ∧ e.stop ≤ n.start.offset) := by
  have hborders : ∀ e ∈ between, ∀ k, k = e.start ∨ k = e.stop →
      k = p.stop ∨ IsBorder mid k ∨ k = p.stop + byteSize chars := by
    intro e he k hk
    obtain ⟨he, hlow, hhigh⟩ := (h.mem_iff e).1 he
    have hrange := hamong.ranges e he
    have hborder : IsBorder (front ++ p :: (mid ++ n :: back)) k := by
      rcases hk with rfl | rfl
      · exact (hamong.borders e he).1
      · exact (hamong.borders e he).2
    rw [← h.size]
    exact hborder.between hordered hwidths (by omega) (by omega)
  have hedited : ∀ t ∈ mid, IsEdited between t := by
    intro t ht
    obtain ⟨e, he, hrange⟩ := hmid t ht
    have hinside := hspelled.bounds t ht
    have hsize := h.size
    have hsplitN : front ++ p :: (mid ++ n :: back) = (front ++ p :: mid) ++ n :: back := by simp
    have hbesideP := hamong.beside rfl hordered hp e he
    have hbesideN := hamong.beside hsplitN hordered hn e he
    have hpn := hwidths n (by simp)
    have hpp := hwidths p (by simp)
    exact ⟨e, (h.mem_iff e).2 ⟨he, by omega, by omega⟩, hrange⟩
  obtain ⟨words, hwords, hw⟩ := adds_of_splices h.splices hspelled
    (fun e he => hamong.ranges e ((h.mem_iff e).1 he).1) h.ordered hborders hedited
    (fun e he => hadds e ((h.mem_iff e).1 he).1)
  refine ⟨words, hwords, hw.trans ⟨?_, ?_⟩⟩
  · rintro ⟨e, he, hq⟩
    exact ⟨e, ((h.mem_iff e).1 he).1, hq, ((h.mem_iff e).1 he).2⟩
  · rintro ⟨e, he, hq, hinside⟩
    exact ⟨e, (h.mem_iff e).2 ⟨he, hinside⟩, hq⟩

/-! ## Ends of declarations -/

/-- The last token of a declaration stays. -/
theorem exists_last_of_declarationEnd?
    (hordered : tokens.Pairwise fun t u => t.stop ≤ u.start.offset)
    (hwidths : ∀ t ∈ tokens, t.start.offset < t.stop) (hfound : statements tokens = .ok found)
    (hs : s ∈ found) (hend : s.form.declarationEnd? = some k) :
    ∃ last ∈ tokens, last.stop = k ∧ ¬ IsEdited (found.flatMap Statement.edits) last := by
  have hedits := (among_of_statementsAfter hordered hfound).ordered
  obtain ⟨text, htwo, -⟩ := exists_appends hend
  obtain ⟨before, after, hsplit⟩ := List.append_of_mem hs
  obtain ⟨front, first, ts, c', rfl, hread, -⟩ := exists_place_of_mem hfound hsplit
  subst hsplit
  rw [List.flatMap_append, List.flatMap_cons, htwo] at hedits
  obtain ⟨-, hown, hbefore⟩ := List.pairwise_append.1 hedits
  obtain ⟨-, -, hafter⟩ := List.pairwise_append.1 hown
  have hspans := hread.spans
  cases hspans with
  | whole hedits' => exact absurd (htwo.symm.trans hedits') (by simp)
  | front hrest hedits' => exact absurd (htwo.symm.trans hedits') (by simp)
  | @declaration form u us text' hbegin hback hword hpasses hend' hedits' =>
    obtain rfl : c'.last.stop = k := Option.some.inj (hend'.symm.trans hend)
    have hfirst : u :: us <:+ first :: ts := hbegin.trans (List.suffix_cons first ts)
    have hus : u :: us <:+ front ++ first :: ts := hfirst.trans (List.suffix_append front _)
    have hbegins := start_le_start (hordered.sublist (List.suffix_append front _).sublist)
      (hfirst.mem List.mem_cons_self)
    have hlast : c'.last ∈ u :: us := hback.mem List.mem_cons_self
    have hstart := start_le_start (hordered.sublist hus.sublist) hlast
    have hwidth := hwidths _ (hus.mem hlast)
    refine ⟨c'.last, hus.mem hlast, rfl, ?_⟩
    rintro ⟨e, he, hlow, hhigh⟩
    rw [List.flatMap_append, List.flatMap_cons, htwo] at he
    simp only [List.mem_append, List.mem_cons, List.not_mem_nil, or_false] at he
    rcases he with he | (rfl | rfl) | he
    · have := hbefore e he ⟨first.start.offset, u.start.offset, ""⟩ (by simp)
      dsimp only at this
      omega
    · dsimp only at hhigh
      omega
    · dsimp only at hlow
      omega
    · have := hafter ⟨c'.last.stop, c'.last.stop, text⟩ (by simp) e he
      dsimp only at this
      omega

/-- The only token that stays and ends between two neighbours is the first of them. -/
theorem stop_eq_of_between (hordered : tokens.Pairwise fun t u => t.stop ≤ u.start.offset)
    (hwidths : ∀ t ∈ tokens, t.start.offset < t.stop)
    (htokens : tokens = front ++ p :: (mid ++ n :: back)) (hmid : ∀ t ∈ mid, IsEdited edits t)
    (ht : t ∈ tokens) (hkept : ¬ IsEdited edits t) (hlow : p.stop ≤ t.stop)
    (hhigh : t.stop ≤ n.start.offset) : t.stop = p.stop := by
  have hwidth := hwidths t ht
  subst htokens
  have hp := hwidths p (by simp)
  have hn := hwidths n (by simp)
  have hbehind := (List.pairwise_cons.1 (List.pairwise_append.1 hordered).2.1).2
  rcases sides_of_mem hordered ht with ⟨-, hle⟩ | rfl | ⟨ht, -⟩
  · omega
  · rfl
  · rcases sides_of_mem hbehind ht with ⟨ht, -⟩ | rfl | ⟨-, hle⟩
    · exact absurd (hmid t ht) hkept
    · omega
    · omega

/-- A text is added between two neighbours exactly if a declaration ends at the first of them. -/
theorem exists_appends_iff (hordered : tokens.Pairwise fun t u => t.stop ≤ u.start.offset)
    (hwidths : ∀ t ∈ tokens, t.start.offset < t.stop) (hfound : statements tokens = .ok found)
    (htokens : tokens = front ++ p :: (mid ++ n :: back))
    (hmid : ∀ t ∈ mid, IsEdited (found.flatMap Statement.edits) t) :
    (∃ e ∈ found.flatMap Statement.edits, e.Appends ∧ p.stop ≤ e.start ∧ e.stop ≤ n.start.offset) ↔
      ∃ s ∈ found, s.form.declarationEnd? = some p.stop := by
  constructor
  · rintro ⟨e, he, happends, hlow, hhigh⟩
    obtain ⟨s, hs, he⟩ := List.mem_flatMap.1 he
    obtain ⟨hend, hpoint⟩ := declarationEnd?_of_appends he happends
    obtain ⟨last, hlast, hstop, hkept⟩ :=
      exists_last_of_declarationEnd? hordered hwidths hfound hs hend
    have heq := stop_eq_of_between hordered hwidths htokens hmid hlast hkept (by omega) (by omega)
    exact ⟨s, hs, by rw [hend, ← hstop, heq]⟩
  · rintro ⟨s, hs, hend⟩
    obtain ⟨text, hedits, happends⟩ := exists_appends hend
    subst htokens
    have hpn := (List.pairwise_cons.1 (List.pairwise_append.1 hordered).2.1).1 n (by simp)
    refine ⟨⟨p.stop, p.stop, text⟩, List.mem_flatMap.2 ⟨s, hs, ?_⟩, happends, Nat.le_refl _, hpn⟩
    rw [hedits]
    exact List.mem_cons_of_mem _ List.mem_cons_self

/-! ## The code of a module -/

theorem appendLines_eq (text : String) (lines : List String) :
    ∃ more, appendLines text lines = text ++ more := by
  unfold appendLines
  split
  · exact ⟨"", String.append_empty.symm⟩
  · split
    · exact ⟨_, rfl⟩
    · exact ⟨_, String.append_assoc⟩

/-- Whether two neighbours are kept apart, by a semicolon among the words between them or by
themselves: a line end between them then ends a statement. -/
def KeepsApart (p : Token) (words : List Word) (n : Token) : Prop :=
  mark ";" ∈ words ∨ p.isPunctuator ";" = true ∨ p.isPunctuator "\x7b" = true ∨
    p.isPunctuator "\x7d" = true ∨ continuesAcross p n = false

instance (p : Token) (words : List Word) (n : Token) : Decidable (KeepsApart p words n) :=
  inferInstanceAs (Decidable (mark ";" ∈ words ∨ _))

/-- Where the code of a module has two tokens of its script that stay: the first behind the hoisted
lines and a text, the second behind another text. -/
structure LeftBetween (source : String) (found : List Statement) (body : ModuleBody) (p n : Token)
    (before middle : String) : Prop where
  code : ∃ after, body.code =
    joinLines (hoistedLines found) ++ before ++ p.text ++ middle ++ n.text ++ after
  first : p.StaysBehind (hashbangEnd source) (bodyChars source) (found.flatMap Statement.edits)
    before
  second : n.StaysBehind (hashbangEnd source) (bodyChars source) (found.flatMap Statement.edits)
    (before ++ p.text ++ middle)

/-- Two tokens that become neighbours, since all those between them are taken away with imports and
lists of exports, are kept apart exactly if a declaration that is exported ends at the first of
them, or they keep themselves apart. Whether the statements between them end with a semicolon makes
no difference. -/
theorem keepsApart_iff {source : String} (htokens : scan source = .ok tokens)
    (hfound : statements tokens = .ok found) (hsplit : tokens = front ++ p :: (mid ++ n :: back))
    (hp : ¬ IsEdited (found.flatMap Statement.edits) p)
    (hn : ¬ IsEdited (found.flatMap Statement.edits) n)
    (hmid : ∀ t ∈ mid, IsEdited (found.flatMap Statement.edits) t) :
    ∃ body before middle words, ModuleBody.ofSource source = .ok body ∧
      LeftBetween source found body p n before middle ∧ Adds 0 words 0 middle ∧
      (KeepsApart p words n ↔ (∃ s ∈ found, s.form.declarationEnd? = some p.stop) ∨
        p.isPunctuator ";" = true ∨ p.isPunctuator "\x7b" = true ∨ p.isPunctuator "\x7d" = true ∨
          continuesAcross p n = false) := by
  obtain ⟨chars, tail, hchars, hspelled⟩ := spelled_of_scan htokens
  have hamong := among_of_statementsAfter hspelled.ordered hfound
  have hadds : ∀ e ∈ found.flatMap Statement.edits,
      ∃ words, Adds 0 words 0 e.text ∧ (mark ";" ∈ words ↔ e.Appends) := by
    intro e he
    obtain ⟨s, hs, he⟩ := List.mem_flatMap.1 he
    exact exists_adds_of_edit (isAssigned_of_statements htokens hfound hs) e he
  obtain ⟨body, spliced, hbody, hspliced⟩ := exists_splicedFrom htokens hfound
  have hedited := hspliced.edited
  rw [show bodyChars source = chars ++ tail from hchars] at hedited
  obtain ⟨before, middle, after, gap, between, rfl, hpStays, hnStays, hgap, hbetween⟩ :=
    exists_between hspelled hedited hamong hsplit hp hn
  subst hsplit
  have hwidths := fun t ht => (hspelled.bounds t ht).2.1
  obtain ⟨words, hwords, hmark⟩ :=
    hbetween.exists_adds hgap hamong hspelled.ordered hwidths hp hn hmid hadds
  obtain ⟨more, hmore⟩ := appendLines_eq
    (joinLines (hoistedLines found) ++ (before ++ p.text ++ middle ++ n.text ++ after))
    (found.flatMap fun s => s.form.trailingLines)
  rw [← hchars] at hpStays hnStays
  refine ⟨body, before, middle, words, hbody, ⟨⟨after ++ more, ?_⟩, hpStays, hnStays⟩, hwords, ?_⟩
  · rw [hspliced.code, hmore]
    simp only [String.append_assoc]
  · rw [KeepsApart, hmark, exists_appends_iff hspelled.ordered hwidths hfound rfl hmid]

/-- A script that exports a variable, with an import on the next line. -/
def apartSource : String := "export let a = b\nimport './b.js';\n(c)()\n"

theorem keepsApart_apartSource : ∃ p n body before middle words,
    ModuleBody.ofSource apartSource = .ok body ∧ p.text = "b" ∧ n.text = "(" ∧
      continuesAcross p n = true ∧
      LeftBetween apartSource (statementsOf apartSource) body p n before middle ∧
      Adds 0 words 0 middle ∧ KeepsApart p words n := by
  let tokens := tokensOf apartSource
  let found := statementsOf apartSource
  let p := tokens[4]?.getD default
  let n := tokens[8]?.getD default
  obtain ⟨hscan, hsplit, hfound, hp, hn, hmid, hpText, hnText, hcontinues, hend⟩ :
      scan apartSource = .ok tokens ∧
        tokens = tokens.take 4 ++ p :: ((tokens.drop 5).take 3 ++ n :: tokens.drop 9) ∧
        statements tokens = .ok found ∧ ¬ IsEdited (found.flatMap Statement.edits) p ∧
        ¬ IsEdited (found.flatMap Statement.edits) n ∧
        (∀ t ∈ (tokens.drop 5).take 3, IsEdited (found.flatMap Statement.edits) t) ∧
        p.text = "b" ∧ n.text = "(" ∧ continuesAcross p n = true ∧
        ∃ s ∈ found, s.form.declarationEnd? = some p.stop := by
    decide +kernel
  obtain ⟨body, before, middle, words, hbody, hleft, hwords, hapart⟩ :=
    keepsApart_iff hscan hfound hsplit hp hn hmid
  exact ⟨p, n, body, before, middle, words, hbody, hpText, hnText, hcontinues, hleft, hwords,
    hapart.2 (Or.inl hend)⟩

/-- A script with an import between two statements that only its semicolon keeps apart. -/
def joinedSource : String := "let a = b\nimport './b.js';\n(c)()\n"

/-- The import is taken away with its semicolon, and what is left is a call. -/
theorem joined_call : ∃ front p mid n back s body, scan joinedSource =
      .ok (front ++ p :: (mid ++ n :: back)) ∧
    statements (front ++ p :: (mid ++ n :: back)) = .ok [s] ∧ s.form = .bareImport "./b.js" ∧
    mid.map Token.text = ["import", "'./b.js'", ";"] ∧ (∀ t ∈ mid, IsEdited s.edits t) ∧
    ¬ IsEdited s.edits p ∧ ¬ IsEdited s.edits n ∧ ModuleBody.ofSource joinedSource = .ok body ∧
    body.code = "require(\"./b.js\");\nlet a = " ++ p.text ++ "\n\n" ++ n.text ++ "c)()\n" ∧
    (∃ before after, (tokensOf body.code).map Token.word = before ++ p.word :: n.word :: after) ∧
    ¬ KeepsApart p [] n := by
  let tokens := tokensOf joinedSource
  let p := tokens[3]?.getD default
  let n := tokens[7]?.getD default
  let s := (statementsOf joinedSource)[0]?.getD default
  obtain ⟨hscan, hsplit, hfound, hform, htexts, hmid, hp, hn, hword, hjoined⟩ :
      scan joinedSource = .ok tokens ∧
        tokens = tokens.take 3 ++ p :: ((tokens.drop 4).take 3 ++ n :: tokens.drop 8) ∧
        statements tokens = .ok [s] ∧ s.form = .bareImport "./b.js" ∧
        ((tokens.drop 4).take 3).map Token.text = ["import", "'./b.js'", ";"] ∧
        (∀ t ∈ (tokens.drop 4).take 3, IsEdited s.edits t) ∧ ¬ IsEdited s.edits p ∧
        ¬ IsEdited s.edits n ∧ [p, n].map Token.word = [(.name, "b"), mark "("] ∧
        ¬ KeepsApart p [] n := by
    decide +kernel
  rw [hsplit] at hscan hfound
  have hbody : ModuleBody.ofSource joinedSource = .ok
      { code := "require(\"./b.js\");\nlet a = b\n\n(c)()\n", specifiers := ["./b.js"] } := by
    decide +kernel
  have hwords : (tokensOf "require(\"./b.js\");\nlet a = b\n\n(c)()\n").map Token.word =
      [(.name, "require"), mark "(", (.string, "\"./b.js\""), mark ")", mark ";", (.name, "let"),
        (.name, "a"), mark "="] ++ (.name, "b") :: mark "(" ::
          [(.name, "c"), mark ")", mark "(", mark ")"] := by
    decide +kernel
  obtain ⟨hpWord, hnWord⟩ : p.word = (.name, "b") ∧ n.word = mark "(" := by simpa using hword
  have hcode : "require(\"./b.js\");\nlet a = b\n\n(c)()\n" =
      "require(\"./b.js\");\nlet a = " ++ p.text ++ "\n\n" ++ n.text ++ "c)()\n" := by
    rw [(Prod.mk.inj hpWord).2, (Prod.mk.inj hnWord).2]
    decide
  rw [← hpWord, ← hnWord] at hwords
  exact ⟨_, p, _, n, _, s, _, hscan, hfound, hform, htexts, hmid, hp, hn, hbody, hcode,
    ⟨_, _, hwords⟩, hjoined⟩

end ModuleBundler.Script
