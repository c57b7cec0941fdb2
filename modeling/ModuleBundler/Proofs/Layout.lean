import ModuleBundler.Proofs.Nesting

/-
  Where tokens stand in their text. Offsets count bytes in UTF-8, and an offset is a cut of a text
  if it falls between two of its characters. The scanner starts and ends every token at a cut, and
  no token before the end of the one before it (`laidOut_of_run`).
-/

namespace ModuleBundler.Script

/-! ## Bytes -/

/-- The bytes of a text in UTF-8. -/
def byteSize (cs : List Char) : Nat := (String.ofList cs).utf8ByteSize

@[simp] theorem byteSize_nil : byteSize [] = 0 := rfl

@[simp] theorem byteSize_append (cs ds : List Char) :
    byteSize (cs ++ ds) = byteSize cs + byteSize ds := by
  unfold byteSize
  rw [String.ofList_append, String.utf8ByteSize_append]

@[simp] theorem byteSize_cons (c : Char) (cs : List Char) :
    byteSize (c :: cs) = c.utf8Size + byteSize cs := by
  unfold byteSize
  rw [String.ofList_cons, String.utf8ByteSize_append, String.utf8ByteSize_singleton]

theorem Position.offset_after (p : Position) (cs : List Char) :
    (p.after cs).offset = p.offset + byteSize cs := by
  induction cs generalizing p with
  | nil => rfl
  | cons c cs ih =>
    have hnext : (p.next c).offset = p.offset + c.utf8Size := by
      unfold Position.next
      split <;> rfl
    rw [Position.after_cons, ih, hnext, byteSize_cons, Nat.add_assoc]

/-! ## Cuts -/

/-- Whether an offset falls between two characters of a text that begins at the offset `base`, or
at one of its ends. -/
def IsCut (chars : List Char) (base offset : Nat) : Prop :=
  ∃ before after, chars = before ++ after ∧ offset = base + byteSize before

variable {chars input before after : List Char} {base offset : Nat}

theorem isCut_append (chars after : List Char) (base : Nat) :
    IsCut (chars ++ after) base (base + byteSize chars) := ⟨chars, after, rfl, rfl⟩

theorem IsCut.base_le (h : IsCut chars base offset) : base ≤ offset := by
  obtain ⟨before, after, -, rfl⟩ := h
  exact Nat.le_add_right _ _

theorem IsCut.le_end (h : IsCut chars base offset) : offset ≤ base + byteSize chars := by
  obtain ⟨before, after, rfl, rfl⟩ := h
  rw [byteSize_append]
  omega

/-- A cut of the end of a text is a cut of the text. -/
theorem IsCut.of_append (h : IsCut chars (base + byteSize before) offset) :
    IsCut (before ++ chars) base offset := by
  obtain ⟨front, after, rfl, rfl⟩ := h
  exact ⟨before ++ front, after, by rw [List.append_assoc], by rw [byteSize_append, Nat.add_assoc]⟩

/-- The cuts of a text are its valid places. -/
theorem IsCut.isValid {source : String} (h : IsCut source.toList 0 offset) :
    String.Pos.Raw.IsValid source ⟨offset⟩ := by
  obtain ⟨before, after, hchars, rfl⟩ := h
  refine String.Pos.Raw.isValid_iff_exists_append.2
    ⟨String.ofList before, String.ofList after, ?_, ?_⟩
  · rw [← String.ofList_append, ← hchars, String.ofList_toList]
  · rw [Nat.zero_add]
    rfl

/-! ## Tokens in their text -/

/-- Whether tokens stand in a text, one after another. -/
structure LaidOut (chars : List Char) (base : Nat) (tokens : List Token) : Prop where
  start : ∀ t ∈ tokens, IsCut chars base t.start.offset
  stop : ∀ t ∈ tokens, IsCut chars base t.stop
  ordered : tokens.Pairwise fun t u => t.stop ≤ u.start.offset

theorem Token.start_le_stop (t : Token) : t.start.offset ≤ t.stop := Nat.le_add_right _ _

/-- Whether a scanner stands before the rest of a text, behind the tokens that it has found. -/
structure Scanner.StandsBefore (s : Scanner) (chars : List Char) (base : Nat)
    (input : List Char) : Prop where
  place : ∃ before, chars = before ++ input ∧ s.position.offset = base + byteSize before
  done : LaidOut chars base s.done.reverse
  behind : ∀ t ∈ s.done, t.stop ≤ s.position.offset

theorem Scanner.StandsBefore.take {s s' : Scanner} {blank : Nat} {c : Char} {rest : List Char}
    {newline : Bool} {lexeme : Lexeme} (h : s.StandsBefore chars base input)
    (hrest : input.drop blank = c :: rest)
    (htake : s.take (s.position.after (input.take blank)) newline lexeme
      (c :: rest.take lexeme.more) = .ok s') :
    s'.StandsBefore chars base (rest.drop lexeme.more) := by
  obtain ⟨token, hdone, hword, hstart, hposition⟩ := Scanner.take_token htake
  obtain ⟨before, hchars, hoffset⟩ := h.place
  have htext : token.text = String.ofList (c :: rest.take lexeme.more) := congrArg Prod.snd hword
  have hinput : input = input.take blank ++ (c :: rest.take lexeme.more ++ rest.drop lexeme.more) := by
    rw [List.cons_append, List.take_append_drop, ← hrest, List.take_append_drop]
  have hbegin : token.start.offset = base + byteSize (before ++ input.take blank) := by
    rw [hstart, Position.offset_after, hoffset, byteSize_append, Nat.add_assoc]
  have hend : token.stop =
      base + byteSize (before ++ input.take blank ++ (c :: rest.take lexeme.more)) := by
    rw [Token.stop, hbegin, htext, byteSize_append _ (c :: _), ← Nat.add_assoc]
    rfl
  have hplace : s'.position.offset = token.stop := by
    rw [hposition, Position.offset_after, Token.stop, hstart, htext]
    rfl
  have hsplit : chars = before ++ input.take blank ++ (c :: rest.take lexeme.more) ++
      rest.drop lexeme.more := by
    rw [hchars, List.append_assoc, List.append_assoc, ← hinput]
  have hbehind : ∀ t ∈ s.done, t.stop ≤ token.start.offset := by
    intro t ht
    have hle := h.behind t ht
    rw [hoffset] at hle
    rw [hbegin, byteSize_append]
    omega
  refine ⟨⟨_, hsplit, hplace.trans hend⟩, ?_, ?_⟩
  · rw [hdone, List.reverse_cons]
    refine ⟨?_, ?_, ?_⟩
    · rw [List.forall_mem_append, List.forall_mem_singleton]
      refine ⟨h.done.start, ?_⟩
      rw [hbegin, hsplit, List.append_assoc _ (c :: _)]
      exact isCut_append _ _ _
    · rw [List.forall_mem_append, List.forall_mem_singleton]
      refine ⟨h.done.stop, ?_⟩
      rw [hend, hsplit]
      exact isCut_append _ _ _
    · rw [List.pairwise_append]
      refine ⟨h.done.ordered, List.pairwise_singleton _ _, ?_⟩
      intro t ht u hu
      rw [List.mem_singleton.1 hu]
      exact hbehind t (List.mem_reverse.1 ht)
  · rw [hdone, List.forall_mem_cons, hplace]
    exact ⟨Nat.le_refl _, fun t ht => Nat.le_trans (hbehind t ht) token.start_le_stop⟩

theorem Scanner.laidOut_of_run {s : Scanner} {tokens : List Token}
    (h : s.StandsBefore chars base input) (hrun : s.run input = .ok tokens) :
    LaidOut chars base tokens := by
  fun_induction Scanner.run s input with
  | case1 => cases hrun
  | case2 s input blank newline hblank hrest hempty =>
    cases hrun
    exact h.done
  | case3 => cases hrun
  | case4 => cases hrun
  | case5 => cases hrun
  | case6 s input blank newline hblank start c rest hrest lexeme hlexeme s' htake ih =>
    exact ih (h.take hrest htake) hrun

/-- The tokens of a script stand in it one after another, behind its hashbang line. -/
theorem laidOut_of_scan {source : String} {tokens : List Token} (h : scan source = .ok tokens) :
    LaidOut (source.toList.drop (hashbangLength source.toList))
      (byteSize (source.toList.take (hashbangLength source.toList))) tokens := by
  refine Scanner.laidOut_of_run ⟨⟨[], rfl, ?_⟩, ?_, ?_⟩ h
  · show (Position.first.after _).offset = _
    rw [Position.offset_after, byteSize_nil, Position.first, Nat.zero_add, Nat.add_zero]
  · exact ⟨by rintro t ⟨⟩, by rintro t ⟨⟩, List.Pairwise.nil⟩
  · rintro t ⟨⟩

end ModuleBundler.Script
