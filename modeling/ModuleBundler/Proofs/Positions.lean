import Mathlib.Data.List.Induction
import ModuleBundler.Proofs.Weaving

/-
  Where tokens say that they stand. The line of a token is counted by the line feeds before it, and
  its column by the characters since the last of them; hashbang line, comments and tokens of several
  lines are no exception. Whether a line ends in front of a token is told by the gap between it and
  the token before. All this holds for every token of a script (`exists_located_of_scan`).
-/

namespace ModuleBundler.Script

variable {s : Scanner} {input before gap rest chars : List Char} {t : Token}
  {ts tokens front back : List Token} {source : String}

/-! ## Lines and columns -/

/-- The characters of a text behind its last line feed. -/
def lastLine (cs : List Char) : List Char := (cs.reverse.takeWhile (· != '\n')).reverse

theorem lastLine_concat (cs : List Char) (c : Char) :
    lastLine (cs ++ [c]) = if c = '\n' then [] else lastLine cs ++ [c] := by
  by_cases hc : c = '\n'
  · simp [lastLine, hc]
  · simp [lastLine, hc]

/-- The place after a text, told by the text alone. -/
theorem Position.after_first (cs : List Char) : Position.first.after cs =
    ⟨byteSize cs, 1 + cs.count '\n', 1 + (lastLine cs).length⟩ := by
  induction cs using List.reverseRecOn with
  | nil => rfl
  | append_singleton cs c ih =>
    rw [Position.after_append, ih, Position.after_cons, Position.after_nil, Position.next,
      lastLine_concat, byteSize_append, byteSize_cons, byteSize_nil, List.count_append]
    by_cases hc : c = '\n'
    · subst hc
      rfl
    · rw [if_neg (by simpa using hc), if_neg hc, List.count_singleton, List.length_append]
      simp [hc]
      omega

/-! ## Tokens -/

/-- Whether a token says rightly where it stands, behind the text `passed`, with which the token
before ends, and the gap in between. -/
structure Token.Located (t : Token) (passed gap : List Char) : Prop where
  offset : t.start.offset = byteSize (passed ++ gap)
  line : t.start.line = 1 + (passed ++ gap).count '\n'
  column : t.start.column = 1 + (lastLine (passed ++ gap)).length
  newline : t.newlineBefore = true ↔ EndsLine gap

/-- Where the last of some tokens ends, or the beginning of the script if there is none. -/
def stopOf (front : List Token) : Nat := (front.getLast?.map Token.stop).getD 0

/-- The tokens that a scanner finds are located behind the text that it has passed. -/
theorem Scanner.Finds.exists_located (h : s.Finds input ts)
    (hs : s.position = Position.first.after before) (hsplit : ts = front ++ t :: back) :
    ∃ passed gap rest, before ++ input = passed ++ (gap ++ (t.text.toList ++ rest)) ∧
      byteSize passed = (front.getLast?.map Token.stop).getD (byteSize before) ∧
      (front = [] → passed = before) ∧ t.Located passed gap := by
  induction h generalizing before front with
  | stop hblank hend hsub => simp at hsplit
  | @turn s s' input rest t' ts hturn hrest ih =>
    obtain ⟨gap, rfl, -, hends, hstart, hposition⟩ := hturn.exists_gap
    rw [hs, ← Position.after_append] at hstart
    cases front with
    | nil =>
      obtain ⟨rfl, rfl⟩ := List.cons_eq_cons.1 hsplit
      rw [Position.after_first] at hstart
      exact ⟨before, gap, rest, rfl, rfl, fun _ => rfl,
        ⟨by rw [hstart], by rw [hstart], by rw [hstart], hends⟩⟩
    | cons u front =>
      obtain ⟨rfl, hrests⟩ := List.cons_eq_cons.1 hsplit
      rw [hstart, ← Position.after_append] at hposition
      obtain ⟨passed, gap', rest', htext, hsize, -, hlocated⟩ := ih hposition hrests
      refine ⟨passed, gap', rest', ?_, ?_, fun hnil => absurd hnil (List.cons_ne_nil _ _),
        hlocated⟩
      · rw [← htext]
        simp
      · rw [hsize, byteSize_append, ← show t'.start.offset = byteSize (before ++ gap) by
          rw [hstart, Position.after_first], ← t'.stop_eq, List.getLast?_cons]
        cases front.getLast? <;> rfl

/-- The hashbang line ends in the first gap, if there is a token. -/
theorem endsLine_hashbang
    (hbody : chars.drop (hashbangLength chars) = gap ++ (t.text.toList ++ rest))
    (htext : ∃ c cs, t.text.toList = c :: cs ∧ isSpace c = false) :
    EndsLine (chars.take (hashbangLength chars) ++ gap) ↔ EndsLine gap := by
  rcases hashbang_cases chars with hzero | ⟨line, hline, hall, hhead⟩
  · rw [hzero, List.take_zero, List.nil_append]
  · obtain ⟨c, cs, htext, hc⟩ := htext
    rw [hbody, htext] at hhead
    have hmem : '\n' ∈ gap := by
      cases gap with
      | nil =>
        obtain rfl := hhead c rfl
        cases hc
      | cons b gap =>
        obtain rfl := hhead b rfl
        exact List.mem_cons_self
    exact ⟨fun _ => Or.inl hmem, fun _ => Or.inl (List.mem_append_right _ hmem)⟩

/-- Every token of a script is located behind the end of the token before, or behind the beginning
of the script. -/
theorem exists_located_of_scan (h : scan source = .ok tokens)
    (hsplit : tokens = front ++ t :: back) :
    ∃ passed gap rest, source.toList = passed ++ (gap ++ (t.text.toList ++ rest)) ∧
      byteSize passed = stopOf front ∧ t.Located passed gap := by
  have hhead := (finds_of_scan h).exists_head t (by simp [hsplit])
  obtain ⟨passed, gap, rest, htext, hsize, hfirst, hlocated⟩ :=
    (finds_of_scan h).exists_located rfl hsplit
  cases front with
  | cons u front =>
    rw [bodyOf, List.take_append_drop] at htext
    refine ⟨passed, gap, rest, htext, ?_, hlocated⟩
    rw [hsize, stopOf, List.getLast?_cons]
    rfl
  | nil =>
    obtain rfl := hfirst rfl
    have hbody := List.append_cancel_left htext
    rw [bodyOf, List.take_append_drop] at htext
    refine ⟨[], _ ++ gap, rest, by rw [htext, List.nil_append, List.append_assoc], rfl, ?_⟩
    exact {
      offset := hlocated.offset
      line := hlocated.line
      column := hlocated.column
      newline := hlocated.newline.trans (endsLine_hashbang hbody hhead).symm }

/-- A script with a hashbang line, a comment and a template of two lines each, and a line separator
in front of its last token. -/
def linedSource : String := "#! x
/* é
 */ a = `
` /*   */ + b"

/-- The last of the tokens, and how it is located. -/
theorem exists_located_linedSource : ∃ tokens front t, scan linedSource = .ok tokens ∧
    tokens = front ++ [t] ∧ t.text = "b" ∧ ∃ passed gap rest,
      linedSource.toList = passed ++ (gap ++ (t.text.toList ++ rest)) ∧
        byteSize passed = stopOf front ∧ t.Located passed gap := by
  obtain ⟨tokens, htokens, hlast⟩ : ∃ tokens, scan linedSource = .ok tokens ∧
      tokens.getLast?.map Token.text = some "b" := exists_ok_of_map_toOption (by decide +kernel)
  obtain ⟨t, ht, htext⟩ := Option.map_eq_some_iff.1 hlast
  obtain ⟨front, hsplit⟩ := List.getLast?_eq_some_iff.1 ht
  exact ⟨tokens, front, t, htokens, hsplit, htext, exists_located_of_scan htokens hsplit⟩

end ModuleBundler.Script
