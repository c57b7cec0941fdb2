import Mathlib.Data.List.TakeWhile
import ModuleBundler.CommandLine.Explain
import ModuleBundler.Proofs.Blames
import ModuleBundler.Proofs.Positions
import ModuleBundler.Transformer

/-
  Where the errors of a refused script stand. The scanner stops at a character that begins a comment
  or a token, with one exception: a substitution that is still open is reported where the text ends
  (`isPlaced_of_scan`). Errors of statements stand where a token does (`isPlaced_of_mem`). So an
  error has its line and its column in the text, and the command shows the line with a mark below it
  (`marks_sourceContext`). The exception leaves the text where it ends with a line feed: the scanner
  counts a line behind it, which is none of the lines of the text (`lines_behind`).
-/

namespace ModuleBundler.Script

variable {source : String} {e : SyntaxError} {fault : Fault} {tokens : List Token}
  {before after current cs chars : List Char} {c : Char} {line column : Nat}

/-! ## Lines -/

theorem lastLine_of_not_mem (h : '\n' ∉ cs) : lastLine cs = cs := by
  have hall : ∀ c ∈ cs.reverse, (c != '\n') = true :=
    fun c hc => bne_iff_ne.2 (fun heq => h (heq ▸ List.mem_reverse.1 hc))
  rw [lastLine, List.takeWhile_eq_self_iff.2 hall, List.reverse_reverse]

theorem lastLine_newline (cs ds : List Char) : lastLine (cs ++ '\n' :: ds) = lastLine ds := by
  induction ds using List.reverseRecOn with
  | nil => exact (lastLine_concat cs '\n').trans (if_pos rfl)
  | append_singleton ds c ih =>
    rw [← List.cons_append, ← List.append_assoc, lastLine_concat, lastLine_concat, ih]

/-- Behind its last line feed, a text has nothing if it ends with one. -/
theorem lastLine_eq_nil_iff : lastLine cs = [] ↔ cs = [] ∨ cs.getLast? = some '\n' := by
  induction cs using List.reverseRecOn with
  | nil => exact ⟨fun _ => Or.inl rfl, fun _ => rfl⟩
  | append_singleton cs c ih =>
    rw [lastLine_concat, List.getLast?_concat]
    by_cases hc : c = '\n' <;> simp [hc]

/-- The first line begins with what is taken for its beginning, as far as a character that is no
part of a line's end. -/
theorem head_linesAfter (hc : c ≠ '\r') (xs current cs : List Char) :
    ∃ more, (Text.linesAfter (xs ++ c :: current) cs)[0]? =
      some (String.ofList (current.reverse ++ c :: more)) := by
  induction cs generalizing xs with
  | nil =>
    refine ⟨xs.reverse, ?_⟩
    rw [Text.linesAfter, if_neg (by simp)]
    simp
  | cons b cs ih =>
    rw [Text.linesAfter]
    split
    · cases xs with
      | nil =>
        refine ⟨[], ?_⟩
        rw [List.nil_append, List.getElem?_cons_zero, Text.finishLine, List.reverse_cons]
        exact fun ds heq => hc (List.cons_eq_cons.1 heq).1
      | cons x xs =>
        by_cases hx : x = '\r'
        · subst hx
          refine ⟨xs.reverse, ?_⟩
          rw [List.cons_append, List.getElem?_cons_zero, Text.finishLine]
          simp
        · refine ⟨xs.reverse ++ [x], ?_⟩
          rw [List.cons_append, List.getElem?_cons_zero, Text.finishLine]
          · simp
          · exact fun ds heq => hx (List.cons_eq_cons.1 heq).1
    · exact ih (b :: xs)

theorem linesAfter_inside (hline : c ≠ '\n') (hreturn : c ≠ '\r') (hcurrent : '\n' ∉ current) :
    ∃ more, (Text.linesAfter current (before ++ c :: after))[before.count '\n']? =
      some (String.ofList (lastLine (current.reverse ++ before) ++ c :: more)) := by
  induction before generalizing current with
  | nil =>
    obtain ⟨more, hmore⟩ := head_linesAfter hreturn [] current after
    refine ⟨more, ?_⟩
    rw [List.nil_append, Text.linesAfter, if_neg (by simpa using hline), List.append_nil,
      lastLine_of_not_mem (fun h => hcurrent (List.mem_reverse.1 h))]
    exact hmore
  | cons b before ih =>
    by_cases hb : b = '\n'
    · subst hb
      obtain ⟨more, hmore⟩ := ih List.not_mem_nil
      refine ⟨more, ?_⟩
      rw [lastLine_newline, List.count_cons_self, List.cons_append, Text.linesAfter,
        if_pos (by rfl), List.getElem?_cons_succ]
      exact hmore
    · obtain ⟨more, hmore⟩ := ih (List.not_mem_cons_of_ne_of_not_mem (Ne.symm hb) hcurrent)
      refine ⟨more, ?_⟩
      rw [List.count_cons_of_ne hb, List.cons_append, Text.linesAfter,
        if_neg (by simpa using hb), hmore, List.reverse_cons, List.append_assoc,
        List.singleton_append]

/-- A character of a text that is no part of a line's end stands in the line that the line feeds
before it count, behind the characters since the last of them. -/
theorem lines_inside (hsource : source.toList = before ++ c :: after) (hline : c ≠ '\n')
    (hreturn : c ≠ '\r') : ∃ more, (Text.lines source)[before.count '\n']? =
      some (String.ofList (lastLine before ++ c :: more)) := by
  rw [Text.lines, hsource]
  exact linesAfter_inside hline hreturn List.not_mem_nil

theorem linesAfter_behind (hcurrent : '\n' ∉ current) :
    (Text.linesAfter current cs)[cs.count '\n']? =
      if lastLine (current.reverse ++ cs) = [] then none
      else some (String.ofList (lastLine (current.reverse ++ cs))) := by
  induction cs generalizing current with
  | nil =>
    rw [List.append_nil, lastLine_of_not_mem (fun h => hcurrent (List.mem_reverse.1 h)),
      Text.linesAfter]
    cases current <;> simp
  | cons b cs ih =>
    by_cases hb : b = '\n'
    · subst hb
      rw [lastLine_newline, List.count_cons_self, Text.linesAfter, if_pos (by rfl),
        List.getElem?_cons_succ, ih List.not_mem_nil]
      rfl
    · rw [List.count_cons_of_ne hb, Text.linesAfter, if_neg (by simpa using hb),
        ih (List.not_mem_cons_of_ne_of_not_mem (Ne.symm hb) hcurrent), List.reverse_cons,
        List.append_assoc, List.singleton_append]

/-- A text has a line that all its line feeds count if anything stands behind the last of them. -/
theorem lines_behind (source : String) : (Text.lines source)[source.toList.count '\n']? =
    if lastLine source.toList = [] then none else some (String.ofList (lastLine source.toList)) :=
  linesAfter_behind List.not_mem_nil

/-! ## Marks -/

/-- Whether lines of output show the line `text` behind its number and, below the character that
stands at the column, a mark. -/
def Marks (shown : List String) (line column : Nat) (text : String) : Prop :=
  ∃ front back width, (numberColumn width line).length = width ∧
    shown = front ++ [numberColumn width line ++ " | " ++ text,
      repeated ' ' width ++ " | " ++ repeated ' ' (column - 1) ++ "^"] ++ back

theorem length_toString_le {n m : Nat} (h : n ≤ m) : (toString n).length ≤ (toString m).length := by
  have hpos : 0 < m.repr.length := Nat.length_repr_pos
  have hm : m < 10 ^ m.repr.length := (Nat.length_repr_le_iff hpos).1 (Nat.le_refl _)
  exact (Nat.length_repr_le_iff hpos).2 (Nat.lt_of_le_of_lt h hm)

theorem length_numberColumn {width n : Nat} (h : (toString n).length ≤ width) :
    (numberColumn width n).length = width := by
  rw [numberColumn, String.length_ofList, List.length_leftpad, String.length_toList]
  exact Nat.max_eq_left h

/-- The line at fault, and the mark below it. -/
theorem contextLine_self (width line column : Nat) (text : String) :
    contextLine width line column line text =
      [numberColumn width line ++ " | " ++ text,
        repeated ' ' width ++ " | " ++ repeated ' ' (column - 1) ++ "^"] :=
  congrArg (_ :: ·) (if_pos (beq_self_eq_true line))

/-- Of some lines on end that are numbered from the first on, each has its own number. -/
theorem mem_numbered {lines : List String} {first last : Nat} {text : String}
    (htext : lines[line - 1]? = some text) (hpos : 0 < first) (hfirst : first ≤ line)
    (hlast : line ≤ last) {shown : List String}
    (hshown : (lines.drop (first - 1)).take (last + 1 - first) = shown) :
    (line, text) ∈ (List.range' first shown.length).zip shown := by
  have hat : shown[line - first]? = some text := by
    rw [← hshown, List.getElem?_take_of_lt (by omega), List.getElem?_drop, ← htext]
    congr 1
    omega
  obtain ⟨hlength, -⟩ := List.getElem?_eq_some_iff.1 hat
  have hnumber : (List.range' first shown.length)[line - first]? = some line := by
    rw [List.getElem?_range' hlength]
    congr 1
    omega
  exact List.mem_of_getElem? (List.getElem?_zip_eq_some.2 ⟨hnumber, hat⟩)

/-- What is shown around a place in a line of a text marks the place. -/
theorem marks_sourceContext {text : String} (hline : 0 < line)
    (htext : (Text.lines source)[line - 1]? = some text) :
    Marks (sourceContext source line column) line column text := by
  obtain ⟨hlt, -⟩ := List.getElem?_eq_some_iff.1 htext
  rw [sourceContext]
  dsimp only
  rw [if_neg (by simp; omega)]
  generalize hfirst : max 1 (line - contextLines) = first
  generalize hlast : min (Text.lines source).length (line + contextLines) = last
  generalize hshown : ((Text.lines source).drop (first - 1)).take (last + 1 - first) = shown
  generalize hwidth : (toString last).length = width
  generalize hcontext : (fun numbered : Nat × String =>
    contextLine width line column numbered.1 numbered.2) = context
  generalize repeated '-' (width + 1) ++ "|--" = rule
  have hle : line ≤ last := by omega
  have hmem := mem_numbered htext (by omega) (by omega) hle hshown
  obtain ⟨above, below, hsplit⟩ := List.append_of_mem hmem
  have hmark := (congrFun hcontext (line, text)).symm.trans
    (contextLine_self width line column text)
  refine ⟨rule :: above.flatMap context, below.flatMap context ++ [rule], width,
    length_numberColumn (hwidth ▸ length_toString_le hle), ?_⟩
  rw [hsplit, List.flatMap_append, List.flatMap_cons, hmark]
  simp only [List.cons_append, List.nil_append, List.append_assoc]

/-- A line that the text does not have has nothing around it. -/
theorem sourceContext_eq_nil (h : (Text.lines source).length < line) :
    sourceContext source line column = [] := by
  rw [sourceContext]
  exact if_pos (Bool.or_eq_true_iff.2 (Or.inr (decide_eq_true h)))

/-! ## Errors of the scanner -/

/-- Whether an error stands in a text at a character that is no blank or, if it is about a
substitution that is still open, behind the text. -/
inductive SyntaxError.IsPlaced (chars : List Char) : SyntaxError → Prop
  | inside {before after : List Char} {c : Char} {fault : Fault}
      (hchars : chars = before ++ c :: after) (hc : isSpace c = false)
      (hfault : fault ≠ .unterminatedSubstitution) :
      IsPlaced chars ((Position.first.after before).fault fault)
  | behind : IsPlaced chars ((Position.first.after chars).fault .unterminatedSubstitution)

/-- A comment without end begins with a slash. -/
theorem slash_of_blankLength {mode : BlankMode} {n k : Nat} {newline : Bool}
    (h : blankLength mode n newline cs = .error k) :
    mode = .blockComment k ∨ ∃ m after, k = n + m ∧ cs.drop m = '/' :: after := by
  fun_induction blankLength mode n newline cs with
  | case1 n newline cs ih =>
    obtain hmode | ⟨m, after, rfl, hafter⟩ := ih h
    · cases hmode
    · exact Or.inr ⟨m + 2, after, by omega, hafter⟩
  | case2 n newline cs ih =>
    obtain hmode | ⟨m, after, rfl, hafter⟩ := ih h
    · cases hmode
      exact Or.inr ⟨0, _, rfl, rfl⟩
    · exact Or.inr ⟨m + 2, after, by omega, hafter⟩
  | case3 n newline c cs _ _ _ ih | case4 n newline c cs _ _ _ _ ih | case6 n newline c cs _ ih
  | case7 n newline c cs _ ih =>
    obtain hmode | ⟨m, after, rfl, hafter⟩ := ih h
    · cases hmode
    · exact Or.inr ⟨m + 1, after, by omega, hafter⟩
  | case8 start n newline cs ih =>
    obtain hmode | ⟨m, after, rfl, hafter⟩ := ih h
    · cases hmode
    · exact Or.inr ⟨m + 2, after, by omega, hafter⟩
  | case9 start n newline c cs hclose ih =>
    obtain hmode | ⟨m, after, rfl, hafter⟩ := ih h
    · exact Or.inl hmode
    · exact Or.inr ⟨m + 1, after, by omega, hafter⟩
  | case5 | case11 => cases h
  | case10 start n newline =>
    cases h
    exact Or.inl rfl

theorem ne_substitution_of_lexemeAt {closing regex : Bool}
    (h : lexemeAt closing regex c cs = .error fault) : fault ≠ .unterminatedSubstitution := by
  unfold lexemeAt at h
  repeat' split at h
  all_goals cases h
  all_goals exact fun heq => Fault.noConfusion heq

theorem Scanner.take_eq_error {s : Scanner} {start : Position} {newline : Bool} {lexeme : Lexeme}
    (h : s.take start newline lexeme chars = .error e) :
    e = start.fault (.unmatchedCloser (String.ofList chars)) := by
  cases lexeme with
  | template closes opens more => cases h
  | plain kind more =>
    rw [take] at h
    split at h
    · cases h
    · split at h
      · rw [takeCloser] at h
        split at h
        · cases h
          rfl
        · dsimp only at h
          split at h <;> cases h
      · cases h

/-- Whether the scanner stands in a text where the rest of it begins. -/
def Scanner.IsBefore (s : Scanner) (chars input : List Char) : Prop :=
  ∃ before, chars = before ++ input ∧ s.position = Position.first.after before

theorem Scanner.IsBefore.take {s : Scanner} {input : List Char}
    (h : s.IsBefore chars input) (k : Nat) : ∃ before, chars = before ++ input.drop k ∧
      s.position.after (input.take k) = Position.first.after before := by
  obtain ⟨before, rfl, hposition⟩ := h
  refine ⟨before ++ input.take k, ?_, by rw [hposition, Position.after_append]⟩
  rw [List.append_assoc, List.take_append_drop]

theorem isSpace_of_blankLength {input rest : List Char} {k : Nat} {newline : Bool}
    (h : blankLength .between 0 false input = .ok (k, newline)) (hrest : input.drop k = c :: rest) :
    isSpace c = false := by
  obtain ⟨m, hm, hstops⟩ := blankLength_stops h
  rw [Nat.zero_add] at hm
  subst hm
  exact (hstops c (by rw [hrest]; rfl)).2

/-- A run that fails leaves its error in its place. -/
theorem Scanner.isPlaced_of_run {s : Scanner} {input : List Char} (hs : s.IsBefore chars input)
    (h : s.run input = .error e) : e.IsPlaced chars := by
  fun_induction Scanner.run s input with
  | case1 s input k hblank =>
    cases h
    obtain hmode | ⟨m, after, rfl, hafter⟩ := slash_of_blankLength hblank
    · cases hmode
    obtain ⟨before, hchars, hposition⟩ := hs.take (0 + m)
    rw [hposition]
    rw [Nat.zero_add, hafter] at hchars
    exact .inside hchars (by decide) Fault.noConfusion
  | case2 => cases h
  | case3 s input blank newline hblank start hrest hopen =>
    cases h
    obtain ⟨before, hchars, hposition⟩ := hs.take blank
    rw [hrest, List.append_nil] at hchars
    subst hchars
    rw [show start = _ from hposition]
    exact .behind
  | case4 s input blank newline hblank start c rest hrest fault hlexeme =>
    cases h
    obtain ⟨before, hchars, hposition⟩ := hs.take blank
    rw [hrest] at hchars
    rw [show start = _ from hposition]
    exact .inside hchars (isSpace_of_blankLength hblank hrest) (ne_substitution_of_lexemeAt hlexeme)
  | case5 s input blank newline hblank start c rest hrest lexeme hlexeme e' htake =>
    cases h
    obtain ⟨before, hchars, hposition⟩ := hs.take blank
    rw [hrest] at hchars
    rw [Scanner.take_eq_error htake, show start = _ from hposition]
    exact .inside hchars (isSpace_of_blankLength hblank hrest) Fault.noConfusion
  | case6 s input blank newline hblank start c rest hrest lexeme hlexeme s' htake ih =>
    obtain ⟨before, hchars, hposition⟩ := hs.take blank
    obtain ⟨depth, -, hposition'⟩ := (Scanner.take_eq_ok_iff.1 htake).exists_token
    refine ih ⟨before ++ c :: rest.take lexeme.more, ?_, ?_⟩ h
    · rw [hchars, hrest, List.append_assoc, List.cons_append, List.take_append_drop]
    · rw [hposition', show start = _ from hposition, Position.after_append]

/-- A script that does not scan has its error in its place. -/
theorem isPlaced_of_scan (h : scan source = .error e) : e.IsPlaced source.toList :=
  Scanner.isPlaced_of_run ⟨_, (List.take_append_drop _ _).symm, rfl⟩ h

/-! ## Errors of scripts -/

/-- An error at a token has its place at the first character of the token. -/
theorem isPlaced_of_mem (hscan : scan source = .ok tokens) {t : Token} (ht : t ∈ tokens)
    (hfault : fault ≠ .unterminatedSubstitution) :
    (t.start.fault fault).IsPlaced source.toList := by
  obtain ⟨front, back, rfl⟩ := List.append_of_mem ht
  obtain ⟨passed, gap, rest, htext, -, hlocated⟩ := exists_located_of_scan hscan rfl
  obtain ⟨c, cs, hhead, hc⟩ := (finds_of_scan hscan).exists_head t ht
  have hsplit : source.toList = passed ++ gap ++ c :: (cs ++ rest) := by
    rw [htext, hhead, List.append_assoc, List.cons_append]
  have hplace : t.start.fault fault = (Position.first.after (passed ++ gap)).fault fault := by
    rw [Position.after_first, Position.fault, hlocated.line, hlocated.column]
    rfl
  rw [hplace]
  exact .inside hsplit hc hfault

/-- The error of a script that is refused is in its place. -/
theorem isPlaced_of_ofSource (h : ModuleBody.ofSource source = .error e) :
    e.IsPlaced source.toList := by
  unfold ModuleBody.ofSource at h
  obtain h | ⟨tokens, hscan, h⟩ := bind_eq_error.1 h
  · exact isPlaced_of_scan h
  obtain h | ⟨found, -, h⟩ := bind_eq_error.1 h
  · obtain ⟨t, ht, fault, hfault, rfl⟩ := exists_blamed_of_statementsAfter h
    exact isPlaced_of_mem hscan ht hfault
  · cases h

/-- Whether an error stands in a line of a script: at one of its characters, or right behind
them. -/
structure SyntaxError.PointsAt (e : SyntaxError) (source text : String) : Prop where
  line_pos : 1 ≤ e.line
  line_le : e.line ≤ (Text.lines source).length
  text_eq : (Text.lines source)[e.line - 1]? = some text
  column_pos : 1 ≤ e.column
  column_le : e.column ≤ 1 + text.length

theorem pointsAt_after {text : String}
    (htext : (Text.lines source)[before.count '\n']? = some text)
    (hcolumn : (lastLine before).length ≤ text.length) :
    ((Position.first.after before).fault fault).PointsAt source text := by
  obtain ⟨hlt, -⟩ := List.getElem?_eq_some_iff.1 htext
  rw [Position.after_first]
  exact {
    line_pos := Nat.le_add_right 1 _
    line_le := by
      show 1 + before.count '\n' ≤ _
      omega
    text_eq := by
      show (Text.lines source)[1 + before.count '\n' - 1]? = _
      rw [Nat.add_sub_cancel_left, htext]
    column_pos := Nat.le_add_right 1 _
    column_le := Nat.add_le_add_left hcolumn 1 }

/-- An error in its place points at a line, unless it stands behind a text that ends with a line
feed. -/
theorem SyntaxError.IsPlaced.pointsAt_iff (h : e.IsPlaced source.toList)
    (hsource : source.toList ≠ []) : (∃ text, e.PointsAt source text) ↔
      ¬ (e.fault = .unterminatedSubstitution ∧ source.toList.getLast? = some '\n') := by
  generalize htext : source.toList = chars at h
  cases h with
  | @inside before after c fault hsplit hc hfault =>
    refine iff_of_true ?_ (fun hslip => hfault hslip.1)
    obtain ⟨more, hline⟩ := lines_inside (htext.trans hsplit) (by rintro rfl; cases hc)
      (by rintro rfl; cases hc)
    refine ⟨_, pointsAt_after hline ?_⟩
    rw [String.length_ofList, List.length_append]
    exact Nat.le_add_right _ _
  | behind =>
    have hlines := lines_behind source
    rw [← htext]
    by_cases hlast : lastLine source.toList = []
    · rw [if_pos hlast] at hlines
      have hfeed := (lastLine_eq_nil_iff.1 hlast).resolve_left hsource
      refine iff_of_false ?_ (fun hslip => hslip ⟨rfl, hfeed⟩)
      rintro ⟨text, hpoints⟩
      have hle := hpoints.line_le
      have hge := List.getElem?_eq_none_iff.1 hlines
      rw [Position.after_first] at hle
      change 1 + source.toList.count '\n' ≤ _ at hle
      omega
    · rw [if_neg hlast] at hlines
      refine iff_of_true ⟨_, pointsAt_after hlines ?_⟩ ?_
      · rw [String.length_ofList]
      · exact fun hslip => hlast (lastLine_eq_nil_iff.2 (Or.inr hslip.2))

/-- Every error of a script that is refused points at a line of the script, and what is shown of the
script marks the place in the line; only a substitution that is open where the script ends with a
line feed is reported behind all lines. -/
theorem error_pointsAt_iff {error : TransformError} (h : transformScript source = .error error) :
    ∃ e, ModuleBody.ofSource source = .error e ∧ error = .ofSyntaxError e ∧
      ((∃ text, e.PointsAt source text ∧
          Marks (sourceContext source e.line e.column) e.line e.column text) ↔
        ¬ (e.fault = .unterminatedSubstitution ∧ source.toList.getLast? = some '\n')) := by
  cases hbody : ModuleBody.ofSource source with
  | ok body =>
    rw [transformScript, hbody] at h
    cases h
  | error e =>
    rw [transformScript, hbody] at h
    cases h
    refine ⟨e, rfl, rfl, ?_⟩
    have hsource : source.toList ≠ [] := by
      intro hnil
      obtain rfl := String.toList_eq_nil_iff.1 hnil
      rw [show ModuleBody.ofSource "" = .ok ⟨"", []⟩ by decide +kernel] at hbody
      cases hbody
    rw [← (isPlaced_of_ofSource hbody).pointsAt_iff hsource]
    refine exists_congr fun text => and_iff_left_of_imp fun hpoints => ?_
    exact marks_sourceContext hpoints.line_pos hpoints.text_eq

/-- A script that ends inside a substitution, behind a line with a carriage return. -/
def cutSource : String := "import a from './a.js';\r\nlet b = \x60é$\x7ba"

/-- The mark is put right behind the last line. -/
theorem error_pointsAt_cutSource :
    transformScript cutSource = .error (.malformed "unterminated template substitution" 2 14) ∧
      ∃ text, SyntaxError.PointsAt ⟨.unterminatedSubstitution, 2, 14⟩ cutSource text ∧
        Marks (sourceContext cutSource 2 14) 2 14 text := by
  have herror : transformScript cutSource =
      .error (.malformed "unterminated template substitution" 2 14) := by decide +kernel
  have hbody : ModuleBody.ofSource cutSource = .error ⟨.unterminatedSubstitution, 2, 14⟩ := by
    decide +kernel
  obtain ⟨e, he, -, hpoints⟩ := error_pointsAt_iff herror
  obtain rfl := Except.error.inj (hbody.symm.trans he)
  exact ⟨herror, hpoints.2 (fun hslip => absurd hslip.2 (by decide +kernel))⟩

/-- A script that ends with a line feed inside a substitution. -/
def openSource : String := "\x60$\x7bx\n"

/-- The error is put on a second line, which the script does not have, and nothing is shown. -/
theorem error_behind_lines :
    transformScript openSource = .error (.malformed "unterminated template substitution" 2 1) ∧
      Text.lines openSource = ["\x60$\x7bx"] ∧ sourceContext openSource 2 1 = [] := by
  refine ⟨by decide +kernel, by decide +kernel, sourceContext_eq_nil (by decide +kernel)⟩

end ModuleBundler.Script
