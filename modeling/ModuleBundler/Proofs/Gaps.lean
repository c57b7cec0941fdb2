import ModuleBundler.Proofs.Coverage
import ModuleBundler.Proofs.Embedding

/-
  What stands between the tokens of a script. A gap is a text of blanks and whole comments, which
  reads like nothing in front of any text (`adds_gap`). A script spells its tokens with gaps between
  them (`spelled_of_scan`). Where all tokens of a part of a script are taken away by edits, only
  gaps are left of it, so that the edited part has the words of the edits and no others
  (`adds_of_splices`).
-/

namespace ModuleBundler.Script

variable {mode : BlankMode} {newline newline' : Bool} {n k offset : Nat}
  {gap cs chars rest before after removed : List Char} {t : Token} {ts tokens : List Token}
  {edits edits' : List Edit} {out : String} {d : Nat}

/-! ## Gaps -/

/-- Whether a text is blank in front of every other one: the blanks of the other are counted on. -/
def IsGap (gap : List Char) : Prop :=
  ∀ n newline rest, ∃ newline', blankLength .between n newline (gap ++ rest) =
    blankLength .between (n + gap.length) newline' rest

theorem isGap_nil : IsGap [] := fun _ newline _ => ⟨newline, rfl⟩

/-- A comment that ends with its mark is not empty. -/
theorem pos_of_blockComment {start : Nat}
    (h : blankLength (.blockComment start) n newline cs = .ok (n + k, newline')) : 0 < k := by
  cases cs with
  | nil => cases h
  | cons c cs =>
    by_cases hclose : ∃ ds, c = '*' ∧ cs = '/' :: ds
    · obtain ⟨ds, rfl, rfl⟩ := hclose
      rw [blankLength] at h
      obtain ⟨m, hm, -⟩ := blankLength_stops h
      omega
    · rw [blankLength] at h
      · obtain ⟨m, hm, -⟩ := blankLength_stops h
        omega
      · exact fun ds hstar hslash => hclose ⟨ds, hstar, hslash⟩

/-- The blank part of a text that goes on behind it is blank in front of every text. -/
theorem blankLength_take (h : blankLength mode n newline cs = .ok (n + k, newline'))
    (hmore : k < cs.length) (before : Bool) (rest : List Char) :
    ∃ newline'', blankLength mode n before (cs.take k ++ rest) =
      blankLength .between (n + k) newline'' rest := by
  fun_induction blankLength mode n newline cs generalizing k before with
  | case1 n newline cs ih | case2 n newline cs ih | case8 start n newline cs ih =>
    obtain ⟨j, hj, -⟩ := blankLength_stops h
    rw [hj] at h
    obtain rfl : k = j + 2 := by omega
    obtain ⟨newline'', hrest⟩ := ih h (by simpa using hmore) before
    refine ⟨newline'', ?_⟩
    rw [List.take_succ_cons, List.take_succ_cons, List.cons_append, List.cons_append, blankLength,
      hrest, Nat.add_assoc, Nat.add_comm 2 j]
  | case3 n newline c cs hline hblock hbreak ih =>
    obtain ⟨j, hj, -⟩ := blankLength_stops h
    rw [hj] at h
    obtain rfl : k = j + 1 := by omega
    obtain ⟨newline'', hrest⟩ := ih h (by simpa using hmore) true
    refine ⟨newline'', ?_⟩
    rw [List.take_succ_cons, List.cons_append, blankLength, if_pos hbreak, hrest, Nat.add_assoc,
      Nat.add_comm 1 j]
    · rintro ds rfl
      cases hbreak
    · rintro ds rfl
      cases hbreak
  | case4 n newline c cs hline hblock hbreak hspace ih =>
    obtain ⟨j, hj, -⟩ := blankLength_stops h
    rw [hj] at h
    obtain rfl : k = j + 1 := by omega
    obtain ⟨newline'', hrest⟩ := ih h (by simpa using hmore) before
    refine ⟨newline'', ?_⟩
    rw [List.take_succ_cons, List.cons_append, blankLength, if_neg hbreak, if_pos hspace, hrest,
      Nat.add_assoc, Nat.add_comm 1 j]
    · rintro ds rfl
      cases hspace
    · rintro ds rfl
      cases hspace
  | case5 n newline c cs hline hblock hbreak hspace =>
    obtain rfl : k = 0 := by
      have := (Prod.mk.inj (Except.ok.inj h)).1
      omega
    exact ⟨before, rfl⟩
  | case6 n newline c cs hbreak ih =>
    obtain ⟨j, hj, -⟩ := blankLength_stops h
    rw [hj] at h
    obtain rfl : k = j + 1 := by omega
    obtain ⟨newline'', hrest⟩ := ih h (by simpa using hmore) true
    refine ⟨newline'', ?_⟩
    rw [List.take_succ_cons, List.cons_append, blankLength, if_pos hbreak, hrest, Nat.add_assoc,
      Nat.add_comm 1 j]
  | case7 n newline c cs hbreak ih =>
    obtain ⟨j, hj, -⟩ := blankLength_stops h
    rw [hj] at h
    obtain rfl : k = j + 1 := by omega
    obtain ⟨newline'', hrest⟩ := ih h (by simpa using hmore) before
    refine ⟨newline'', ?_⟩
    rw [List.take_succ_cons, List.cons_append, blankLength, if_neg hbreak, hrest, Nat.add_assoc,
      Nat.add_comm 1 j]
  | case9 start n newline c cs hclose ih =>
    obtain ⟨j, hj, -⟩ := blankLength_stops h
    rw [hj] at h
    obtain rfl : k = j + 1 := by omega
    have hpos := pos_of_blockComment h
    obtain ⟨newline'', hrest⟩ := ih h (by simpa using hmore) (before || c == '\n')
    refine ⟨newline'', ?_⟩
    rw [List.take_succ_cons, List.cons_append, blankLength, hrest, Nat.add_assoc, Nat.add_comm 1 j]
    -- The next character is one of the comment, so the mark does not come up with what follows.
    intro ds hstar hslash
    obtain ⟨i, rfl⟩ := Nat.exists_eq_succ_of_ne_zero (Nat.ne_of_gt hpos)
    cases cs with
    | nil => cases h
    | cons b cs =>
      rw [List.take_succ_cons, List.cons_append] at hslash
      exact hclose cs hstar (by rw [(List.cons_eq_cons.1 hslash).1])
  | case10 start n newline => cases h
  | case11 mode n newline hmode => cases hmore

theorem isGap_of_blankLength {c : Char} (h : blankLength .between 0 false cs = .ok (k, newline))
    (hrest : cs.drop k = c :: rest) : IsGap (cs.take k) := by
  have hlength := congrArg List.length hrest
  rw [List.length_drop, List.length_cons] at hlength
  intro n before rest
  have hzero : blankLength .between 0 false cs = .ok (0 + k, newline) := by rw [h, Nat.zero_add]
  obtain ⟨newline', hgap⟩ := blankLength_take hzero (by omega) before rest
  have hshift := blankLength_shift n .between 0 before (cs.take k ++ rest)
  rw [hgap, ← blankLength_shift, Nat.zero_add, Nat.zero_add, Nat.add_comm k] at hshift
  rw [List.length_take_of_le (by omega)]
  exact ⟨newline', hshift⟩

theorem Scanner.Reads.after_gap {s : Scanner} {words : List Word} (h : s.Reads rest words)
    (hgap : IsGap gap) : s.Reads (gap ++ rest) words := by
  obtain ⟨newline, hfound⟩ := hgap 0 false rest
  rw [Nat.zero_add] at hfound
  have hdrop : ∀ blank, (gap ++ rest).drop (blank + gap.length) = rest.drop blank := by
    intro blank
    rw [Nat.add_comm, List.drop_length_add_append]
  cases h with
  | stop hblank hend hsub =>
    rw [blankLength_from hblank] at hfound
    exact .stop hfound ((hdrop _).trans hend) hsub
  | word hblank hrest hlexeme htake hreads =>
    rw [blankLength_from hblank] at hfound
    exact .word hfound ((hdrop _).trans hrest) hlexeme htake hreads

/-- A gap adds nothing to what is read behind it. -/
theorem adds_gap (h : IsGap gap) (d : Nat) : Adds d [] d (String.ofList gap) := by
  intro others rest hscans
  rw [String.toList_ofList, List.nil_append]
  exact scans_iff.2 fun s hsub hdepth => (scans_iff.1 hscans s hsub hdepth).after_gap h

/-! ## Spelling -/

/-- Whether a text from an offset on consists of these tokens and gaps around them. -/
inductive Spelled : Nat → List Char → List Token → Prop
  | gap {offset : Nat} {gap : List Char} (hgap : IsGap gap) : Spelled offset gap []
  | token {offset : Nat} {gap rest : List Char} {t : Token} {ts : List Token} (hgap : IsGap gap)
      (hstart : t.start.offset = offset + byteSize gap) (htext : t.start.offset < t.stop)
      (hrest : Spelled t.stop rest ts) :
      Spelled offset (gap ++ (t.text.toList ++ rest)) (t :: ts)

theorem Token.stop_eq (t : Token) : t.stop = t.start.offset + byteSize t.text.toList := by
  rw [Token.stop, byteSize, String.ofList_toList]

theorem Scanner.spelled_of_run {s : Scanner} (h : s.run cs = .ok tokens) :
    ∃ found chars tail, tokens = s.done.reverse ++ found ∧ cs = chars ++ tail ∧
      Spelled s.position.offset chars found := by
  fun_induction Scanner.run s cs with
  | case1 => cases h
  | case2 s input blank newline hblank hrest hempty =>
    cases h
    exact ⟨[], [], input, (List.append_nil _).symm, rfl, .gap isGap_nil⟩
  | case3 => cases h
  | case4 => cases h
  | case5 => cases h
  | case6 s input blank newline hblank start c rest hrest lexeme hlexeme s' htake ih =>
    obtain ⟨found, chars, tail, rfl, hchars, hspelled⟩ := ih h
    obtain ⟨token, hdone, hword, hstart, hposition⟩ := Scanner.take_token htake
    have htext : token.text.toList = c :: rest.take lexeme.more := by
      rw [(Prod.mk.inj hword).2, String.toList_ofList]
    have hsize : token.stop = token.start.offset + byteSize (c :: rest.take lexeme.more) := by
      rw [token.stop_eq, htext]
    have hbegin : token.start.offset = s.position.offset + byteSize (input.take blank) := by
      rw [hstart, Position.offset_after]
    have hend : s'.position.offset = token.stop := by
      rw [hposition, Position.offset_after, hsize, hstart]
    have hinput : input = input.take blank ++ (token.text.toList ++ (chars ++ tail)) := by
      rw [htext, ← hchars, List.cons_append, List.take_append_drop, ← hrest, List.take_append_drop]
    have hpositive : token.start.offset < token.stop := by
      have := c.utf8Size_pos
      rw [hsize, byteSize_cons]
      omega
    rw [hend] at hspelled
    refine ⟨token :: found, input.take blank ++ (token.text.toList ++ chars), tail, ?_, ?_,
      .token (isGap_of_blankLength hblank hrest) hbegin hpositive hspelled⟩
    · rw [hdone, List.reverse_cons, List.append_assoc, List.singleton_append]
    · rw [List.append_assoc, List.append_assoc]
      exact hinput

/-- The tokens of a script are spelled by its body, up to what stands behind the last of them. -/
theorem spelled_of_scan {source : String} (h : scan source = .ok tokens) :
    ∃ chars tail, source.toList.drop (hashbangLength source.toList) = chars ++ tail ∧
      Spelled (byteSize (source.toList.take (hashbangLength source.toList))) chars tokens := by
  obtain ⟨found, chars, tail, rfl, hchars, hspelled⟩ := Scanner.spelled_of_run h
  refine ⟨chars, tail, hchars, ?_⟩
  rw [show (Position.first.after _).offset = _ from Position.offset_after _ _, Position.first,
    Nat.zero_add] at hspelled
  exact hspelled

/-! ## Parts of a spelled text -/

theorem Spelled.bounds (h : Spelled offset chars tokens) : ∀ t ∈ tokens,
    offset ≤ t.start.offset ∧ t.start.offset < t.stop ∧ t.stop ≤ offset + byteSize chars := by
  induction h with
  | gap => rintro t ⟨⟩
  | @token offset gap rest t ts hgap hstart htext hrest ih =>
    have hstop := t.stop_eq
    rw [byteSize_append, byteSize_append]
    refine List.forall_mem_cons.2 ⟨by omega, fun u hu => ?_⟩
    obtain ⟨hfirst, hwidth, hlast⟩ := ih u hu
    omega

/-- The text before a token and the text behind it. -/
theorem Spelled.at_token {front : List Token} (h : Spelled offset chars (front ++ t :: ts)) :
    ∃ before after, chars = before ++ (t.text.toList ++ after) ∧
      t.start.offset = offset + byteSize before ∧ Spelled offset before front ∧
      Spelled t.stop after ts := by
  induction front generalizing offset chars with
  | nil =>
    cases h with
    | token hgap hstart htext hrest => exact ⟨_, _, rfl, hstart, .gap hgap, hrest⟩
  | cons u front ih =>
    cases h with
    | @token _ gap rest _ _ hgap hstart htext hrest =>
      obtain ⟨before, after, rfl, hbefore, hfront, hafter⟩ := ih hrest
      refine ⟨gap ++ (u.text.toList ++ before), after, by simp, ?_,
        .token hgap hstart htext hfront, hafter⟩
      have := u.stop_eq
      rw [byteSize_append, byteSize_append]
      omega

theorem Spelled.concat (h : Spelled offset chars ts)
    (hstart : t.start.offset = offset + byteSize chars) (htext : t.start.offset < t.stop) :
    Spelled offset (chars ++ t.text.toList) (ts ++ [t]) := by
  induction h with
  | gap hgap =>
    rw [← List.append_nil t.text.toList]
    exact .token hgap hstart htext (.gap isGap_nil)
  | @token offset gap rest u us hgap hbegin hwidth hrest ih =>
    have hstop := u.stop_eq
    rw [byteSize_append, byteSize_append] at hstart
    have hparts : gap ++ (u.text.toList ++ rest) ++ t.text.toList =
        gap ++ (u.text.toList ++ (rest ++ t.text.toList)) := by simp
    rw [hparts]
    exact .token hgap hbegin hwidth (ih (by omega))

/-- A spelled text can be cut at its ends, and where a token begins or ends. -/
theorem Spelled.split (h : Spelled offset chars tokens)
    (hk : k = offset ∨ IsBorder tokens k ∨ k = offset + byteSize chars) :
    ∃ before after front back, chars = before ++ after ∧ k = offset + byteSize before ∧
      tokens = front ++ back ∧ Spelled offset before front ∧ Spelled k after back := by
  rcases hk with rfl | ⟨t, ht, hborder⟩ | rfl
  · exact ⟨[], chars, [], tokens, rfl, rfl, rfl, .gap isGap_nil, h⟩
  · obtain ⟨front, back, rfl⟩ := List.append_of_mem ht
    have hwidth := (h.bounds t ht).2.1
    obtain ⟨before, after, rfl, hstart, hfront, hback⟩ := h.at_token
    rcases hborder with rfl | rfl
    · exact ⟨before, _, front, t :: back, rfl, hstart, rfl, hfront,
        .token isGap_nil rfl hwidth hback⟩
    · refine ⟨before ++ t.text.toList, after, front ++ [t], back, by simp, ?_, by simp,
        hfront.concat hstart hwidth, hback⟩
      rw [t.stop_eq, hstart, byteSize_append, Nat.add_assoc]
  · exact ⟨chars, [], tokens, [], (List.append_nil _).symm, rfl, (List.append_nil _).symm, h,
      .gap isGap_nil⟩

/-! ## Edits of a part -/

/-- Of two ways to cut a text, the one that is not behind the other cuts its front. -/
theorem exists_middle {before' after' : List Char} (h : before ++ after = before' ++ after')
    (hle : byteSize before ≤ byteSize before') :
    ∃ middle, before' = before ++ middle ∧ after = middle ++ after' := by
  rcases List.append_eq_append_iff.1 h with ⟨middle, hbefore, hafter⟩ | ⟨middle, hbefore, hafter⟩
  · exact ⟨middle, hbefore, hafter⟩
  · have hsize := congrArg byteSize hbefore
    rw [byteSize_append] at hsize
    have hnone : byteSize middle = 0 := by omega
    obtain rfl := byteSize_eq_zero hnone
    exact ⟨[], by simpa using hbefore.symm, by simpa using hafter.symm⟩

theorem append_inj_of_byteSize {before' after' : List Char}
    (h : before ++ after = before' ++ after') (hsize : byteSize before = byteSize before') :
    before = before' ∧ after = after' := by
  obtain ⟨middle, rfl, rfl⟩ := exists_middle h (by omega)
  rw [byteSize_append] at hsize
  have hnone : byteSize middle = 0 := by omega
  obtain rfl := byteSize_eq_zero hnone
  exact ⟨(List.append_nil _).symm, rfl⟩

/-- Edits can be made apart on the two sides of a cut that none of them goes over. -/
theorem Splices.split (h : Splices offset (before ++ after) (edits ++ edits') out)
    (hbefore : ∀ e ∈ edits, e.stop ≤ offset + byteSize before)
    (hafter : ∀ e ∈ edits', offset + byteSize before ≤ e.start) :
    ∃ out₁ out₂, out = out₁ ++ out₂ ∧ Splices offset before edits out₁ ∧
      Splices (offset + byteSize before) after edits' out₂ := by
  generalize hchars : before ++ after = chars at h
  induction edits generalizing offset before chars out with
  | nil =>
    rw [List.nil_append] at h
    cases h with
    | done =>
      subst hchars
      exact ⟨_, _, String.ofList_append, .done _ _, .done _ _⟩
    | @edit _ kept removed rest e edits out hstart hstop hrest =>
      have hle := hafter e List.mem_cons_self
      obtain ⟨middle, rfl, rfl⟩ := exists_middle hchars (by omega)
      rw [byteSize_append, ← Nat.add_assoc] at hstart
      refine ⟨_, _, ?_, .done _ _, .edit hstart hstop hrest⟩
      rw [String.ofList_append, String.append_assoc, String.append_assoc, String.append_assoc]
  | cons e edits ih =>
    cases h with
    | @edit _ kept removed rest _ _ out hstart hstop hrest =>
      obtain ⟨hle, hbefore⟩ := List.forall_mem_cons.1 hbefore
      rw [← List.append_assoc] at hchars
      obtain ⟨middle, rfl, rfl⟩ := exists_middle hchars.symm (by rw [byteSize_append]; omega)
      have hsize : offset + byteSize (kept ++ removed ++ middle) = e.stop + byteSize middle := by
        rw [byteSize_append, byteSize_append]
        omega
      rw [hsize] at hbefore hafter ⊢
      obtain ⟨out₁, out₂, rfl, hfront, hback⟩ := ih hbefore hafter _ rfl hrest
      refine ⟨String.ofList kept ++ e.text ++ out₁, out₂, ?_, ?_, hback⟩
      · simp only [String.append_assoc]
      · rw [List.append_assoc]
        exact .edit hstart hstop hfront

/-- A text whose tokens are all taken away by edits that begin behind it has none. -/
theorem isGap_of_edited (hspelled : Spelled offset chars tokens)
    (hedited : ∀ t ∈ tokens, IsEdited edits t)
    (hbehind : ∀ e ∈ edits, offset + byteSize chars ≤ e.start) : tokens = [] ∧ IsGap chars := by
  have hnone : tokens = [] := by
    refine List.eq_nil_iff_forall_not_mem.2 fun t ht => ?_
    obtain ⟨e, he, hstart, -⟩ := hedited t ht
    have := hspelled.bounds t ht
    have := hbehind e he
    omega
  subst hnone
  cases hspelled with
  | gap hgap => exact ⟨rfl, hgap⟩

/-- A border of tokens that is not before the end of the first ones is this end, or one of the
others. -/
theorem IsBorder.of_le {front back : List Token} (h : IsBorder (front ++ back) k)
    (hfront : ∀ t ∈ front, t.start.offset < t.stop ∧ t.stop ≤ n) (hle : n ≤ k) :
    k = n ∨ IsBorder back k := by
  obtain ⟨t, ht, hk⟩ := h
  rcases List.mem_append.1 ht with ht | ht
  · have := hfront t ht
    exact Or.inl (by omega)
  · exact Or.inr ⟨t, ht, hk⟩

/-- Where edits take away all tokens of a text, what is left has the words of their texts. -/
theorem adds_of_splices {w : Word} {p : Edit → Prop} (h : Splices offset chars edits out)
    (hspelled : Spelled offset chars tokens) (hranges : ∀ e ∈ edits, e.start ≤ e.stop)
    (hordered : edits.Pairwise fun e e' => e.stop ≤ e'.start)
    (hborders : ∀ e ∈ edits, ∀ k, k = e.start ∨ k = e.stop →
      k = offset ∨ IsBorder tokens k ∨ k = offset + byteSize chars)
    (hedited : ∀ t ∈ tokens, IsEdited edits t)
    (hadds : ∀ e ∈ edits, ∃ words, Adds d words d e.text ∧ (w ∈ words ↔ p e)) :
    ∃ words, Adds d words d out ∧ (w ∈ words ↔ ∃ e ∈ edits, p e) := by
  induction h generalizing tokens with
  | done offset chars =>
    obtain ⟨-, hgap⟩ := isGap_of_edited hspelled hedited (by rintro e ⟨⟩)
    exact ⟨[], adds_gap hgap d, by simp⟩
  | @edit offset kept removed rest e edits out hstart hstop hrest ih =>
    obtain ⟨words, hwords, hw⟩ := hadds e List.mem_cons_self
    have hborder := hborders e List.mem_cons_self
    obtain ⟨hlater, hordered⟩ := List.pairwise_cons.1 hordered
    obtain ⟨hrange, hranges⟩ := List.forall_mem_cons.1 hranges
    -- In front of the edit there are no tokens.
    obtain ⟨before, after, front, back, hchars, hbefore, rfl, hfront, hback⟩ :=
      hspelled.split (hborder _ (Or.inl rfl))
    obtain ⟨rfl, rfl⟩ := append_inj_of_byteSize hchars (by omega)
    obtain ⟨rfl, hgap⟩ := isGap_of_edited hfront
      (fun t ht => hedited t (List.mem_append_left _ ht)) (List.forall_mem_cons.2 ⟨by omega,
        fun e' he' => by have := hlater e' he'; omega⟩)
    rw [List.nil_append] at hborders hedited hborder
    have hcut : e.stop = e.start ∨ IsBorder back e.stop ∨
        e.stop = e.start + byteSize (removed ++ rest) := by
      rcases hborder _ (Or.inr rfl) with hk | hk | hk
      · exact Or.inl (by omega)
      · exact Or.inr (Or.inl hk)
      · rw [byteSize_append] at hk
        exact Or.inr (Or.inr (by omega))
    -- Those behind it are taken away by later edits.
    obtain ⟨before, after, front, back, hchars, hbefore, rfl, hfront, hback⟩ := hback.split hcut
    obtain ⟨rfl, rfl⟩ := append_inj_of_byteSize hchars (by omega)
    have hborders : ∀ e' ∈ edits, ∀ k, k = e'.start ∨ k = e'.stop →
        k = e.stop ∨ IsBorder back k ∨ k = e.stop + byteSize rest := by
      intro e' he' k hk
      have hle := hlater e' he'
      have hle' := hranges e' he'
      rcases hborders e' (List.mem_cons_of_mem _ he') k hk with hk' | hk' | hk'
      · exact Or.inl (by omega)
      · refine (hk'.of_le (n := e.stop) (fun t ht => ?_) (by omega)).imp_right Or.inl
        have := hfront.bounds t ht
        omega
      · rw [byteSize_append, byteSize_append] at hk'
        exact Or.inr (Or.inr (by omega))
    have hedited : ∀ t ∈ back, IsEdited edits t := by
      intro t ht
      obtain ⟨e', he', hrange'⟩ := hedited t (List.mem_append_right _ ht)
      rcases List.mem_cons.1 he' with rfl | he'
      · have := hback.bounds t ht
        omega
      · exact ⟨e', he', hrange'⟩
    obtain ⟨words', hwords', hw'⟩ := ih hback hranges hordered hborders hedited
      (List.forall_mem_cons.1 hadds).2
    refine ⟨_, ((adds_gap hgap d).append hwords).append hwords', ?_⟩
    rw [List.nil_append, List.mem_append, hw, hw', List.exists_mem_cons_iff]

end ModuleBundler.Script
