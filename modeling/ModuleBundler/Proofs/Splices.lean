import ModuleBundler.Proofs.Layout
import ModuleBundler.Script.ModuleBody

/-
  Making edits in a text. `Splices` says what the text with edits made is: what lies outside the
  ranges of the edits, each character once and in order, with the texts of the edits between.
  Edits whose ranges begin and end at cuts, and of which each one ends before the next one begins,
  can be made (`exists_splices`), and then `applyEdits` makes them (`join_applyEdits`).
-/

namespace ModuleBundler.Script

variable {chars before after kept : List Char} {base offset : Nat} {edits : List Edit}
  {out : String}

/-! ## Cuts of a part -/

theorem byteSize_eq_zero (h : byteSize chars = 0) : chars = [] := by
  cases chars with
  | nil => rfl
  | cons c cs =>
    have := c.utf8Size_pos
    rw [byteSize_cons] at h
    omega

/-- A cut that is not before the end of a front part is a cut of what is left. -/
theorem IsCut.of_le (h : IsCut (before ++ after) base offset)
    (hle : base + byteSize before ≤ offset) : IsCut after (base + byteSize before) offset := by
  obtain ⟨front, rest, hsplit, rfl⟩ := h
  rcases List.append_eq_append_iff.1 hsplit with ⟨more, rfl, rfl⟩ | ⟨more, rfl, rfl⟩
  · exact ⟨more, rest, rfl, by rw [byteSize_append, Nat.add_assoc]⟩
  · rw [byteSize_append] at hle
    have hmore : byteSize more = 0 := by omega
    obtain rfl := byteSize_eq_zero hmore
    exact ⟨[], after, rfl, by simp⟩

/-! ## Splices -/

/-- Whether a text from an offset on becomes another one by edits. -/
inductive Splices : Nat → List Char → List Edit → String → Prop
  | done (offset : Nat) (chars : List Char) : Splices offset chars [] (String.ofList chars)
  /-- What lies before the first edit is kept, and its range gives way to its text. -/
  | edit {offset : Nat} {kept removed rest : List Char} {e : Edit} {edits : List Edit}
      {out : String} (hstart : e.start = offset + byteSize kept)
      (hstop : e.stop = e.start + byteSize removed) (hrest : Splices e.stop rest edits out) :
      Splices offset (kept ++ (removed ++ rest)) (e :: edits) (String.ofList kept ++ e.text ++ out)

/-- Edits at cuts, in order and without overlap, can be made. -/
theorem exists_splices
    (hcuts : ∀ e ∈ edits, IsCut chars offset e.start ∧ IsCut chars offset e.stop)
    (hranges : ∀ e ∈ edits, e.start ≤ e.stop)
    (hordered : edits.Pairwise fun e e' => e.stop ≤ e'.start) :
    ∃ out, Splices offset chars edits out := by
  induction edits generalizing offset chars with
  | nil => exact ⟨_, .done offset chars⟩
  | cons e edits ih =>
    obtain ⟨hcut, hcuts⟩ := List.forall_mem_cons.1 hcuts
    obtain ⟨hrange, hranges⟩ := List.forall_mem_cons.1 hranges
    obtain ⟨hlater, hordered⟩ := List.pairwise_cons.1 hordered
    obtain ⟨kept, tail, rfl, hstart⟩ := hcut.1
    have hstop := hcut.2.of_le (by omega)
    rw [← hstart] at hstop
    obtain ⟨removed, rest, rfl, hstop⟩ := hstop
    have hrest : ∀ n, IsCut (kept ++ (removed ++ rest)) offset n → e.stop ≤ n →
        IsCut rest e.stop n := by
      intro n hn hle
      have hn := hn.of_le (by omega)
      rw [← hstart] at hn
      have hn := hn.of_le (by omega)
      rwa [← hstop] at hn
    obtain ⟨out, hout⟩ := ih (fun e' he' => ⟨hrest _ (hcuts e' he').1 (hlater e' he'),
      hrest _ (hcuts e' he').2 (Nat.le_trans (hlater e' he') (hranges e' he'))⟩) hranges hordered
    exact ⟨_, .edit hstart hstop hout⟩

/-! ## Making the edits -/

theorem charsIn_append (n : Nat) (kept rest : List Char) :
    charsIn (byteSize kept) n (kept ++ rest) = n + kept.length := by
  induction kept generalizing n with
  | nil => cases rest <;> rfl
  | cons c kept ih =>
    have hpos := c.utf8Size_pos
    have hne : ¬ (c.utf8Size + byteSize kept == 0) = true := by
      rw [beq_iff_eq]
      omega
    rw [byteSize_cons, List.cons_append, charsIn, if_neg hne, Nat.add_sub_cancel_left, ih,
      List.length_cons]
    omega

theorem join_applyEdits (h : Splices offset chars edits out) (pieces : List String) :
    String.join (applyEdits pieces offset chars edits) = String.join pieces.reverse ++ out := by
  induction h generalizing pieces with
  | done offset chars =>
    rw [applyEdits, List.reverse_cons, String.join_append]
    simp
  | @edit offset kept removed rest e edits out hstart hstop hrest ih =>
    have hkept : charsIn (e.start - offset) 0 (kept ++ (removed ++ rest)) = kept.length := by
      rw [hstart, Nat.add_sub_cancel_left, charsIn_append, Nat.zero_add]
    have hremoved : charsIn (e.stop - e.start) 0 (removed ++ rest) = removed.length := by
      rw [hstop, Nat.add_sub_cancel_left, charsIn_append, Nat.zero_add]
    rw [applyEdits, hkept, List.drop_left, List.take_left, hremoved, List.drop_left, ih]
    simp [String.append_assoc]

/-- The body of a script with edits made. -/
theorem editedBody_eq {source : String}
    (h : Splices (byteSize (source.toList.take (hashbangLength source.toList)))
      (source.toList.drop (hashbangLength source.toList)) edits out) :
    editedBody source edits = out := by
  unfold editedBody
  dsimp only
  rw [Position.offset_after, Position.first, Nat.zero_add, join_applyEdits h]
  simp

end ModuleBundler.Script
