import ModuleBundler.Proofs.Weaving

/-
  Texts whose lines end with a carriage return and a line feed. Where the scanner reads a line feed
  as the end of a line, or as any character of a comment or a template, the carriage return in front
  of it is a blank or one more such character, and a piece of the text reaches as far as before
  (`blankLength_withCrlf`, `lexemeAt_withCrlf`). It is otherwise where a backslash protects the line
  feed in a string or a regular expression: there the backslash protects the carriage return, and
  the line feed behind it leaves the piece without end (`lexemeAt_withCrlf_eq_error`).
-/

namespace ModuleBundler.Script

variable {c quote : Char} {cs ds rest : List Char} {n k : Nat} {opens inClass closing regex : Bool}
  {newline newline' : Bool} {gap : List Char} {lexeme : Lexeme}

/-! ## Carriage returns -/

/-- A text with a carriage return in front of each line feed. -/
def withCrlf (cs : List Char) : List Char :=
  cs.flatMap fun c => if c = '\n' then ['\r', '\n'] else [c]

/-- A text in which a line feed stands for each carriage return with a line feed behind it. -/
def withLf : List Char → List Char
  | '\r' :: '\n' :: cs => '\n' :: withLf cs
  | c :: cs => c :: withLf cs
  | [] => []

@[simp] theorem withCrlf_nil : withCrlf [] = [] := rfl

@[simp] theorem withCrlf_newline (cs : List Char) :
    withCrlf ('\n' :: cs) = '\r' :: '\n' :: withCrlf cs := rfl

@[simp] theorem withCrlf_cons (hc : c ≠ '\n') (cs : List Char) :
    withCrlf (c :: cs) = c :: withCrlf cs := by
  rw [withCrlf, List.flatMap_cons, if_neg hc]
  rfl

@[simp] theorem withCrlf_append (cs ds : List Char) :
    withCrlf (cs ++ ds) = withCrlf cs ++ withCrlf ds := List.flatMap_append

theorem withCrlf_of_not_mem (h : '\n' ∉ cs) : withCrlf cs = cs := by
  induction cs with
  | nil => rfl
  | cons c cs ih =>
    rw [List.mem_cons, not_or] at h
    rw [withCrlf_cons (Ne.symm h.1), ih h.2]

theorem withLf_cons (hc : c ≠ '\r') (cs : List Char) : withLf (c :: cs) = c :: withLf cs := by
  rw [withLf]
  exact fun ds h => absurd h hc

/-- A text without carriage returns comes back. -/
theorem withLf_withCrlf (h : '\r' ∉ cs) : withLf (withCrlf cs) = cs := by
  induction cs with
  | nil => rfl
  | cons c cs ih =>
    rw [List.mem_cons, not_or] at h
    by_cases hc : c = '\n'
    · rw [hc, withCrlf_newline, withLf, ih h.2]
    · rw [withCrlf_cons hc, withLf_cons (Ne.symm h.1), ih h.2]

theorem mem_withCrlf : '\n' ∈ withCrlf cs ↔ '\n' ∈ cs := by
  induction cs with
  | nil => rfl
  | cons c cs ih => by_cases hc : c = '\n' <;> simp [hc, ih]

/-- A text in which no line ends is met only where it is met without carriage returns. -/
theorem withCrlf_eq_iff (h : '\n' ∉ ds) : withCrlf cs = ds ↔ cs = ds := by
  constructor
  · rintro rfl
    exact (withCrlf_of_not_mem (mt mem_withCrlf.2 h)).symm
  · rintro rfl
    exact withCrlf_of_not_mem h

/-- So it is with the end of a text. -/
theorem suffix_withCrlf (hlf : '\n' ∉ ds) (hcr : '\r' ∉ ds) : ds <:+ withCrlf cs ↔ ds <:+ cs := by
  constructor
  · intro h
    induction cs with
    | nil => exact h
    | cons c cs ih =>
      by_cases hc : c = '\n'
      · rw [hc, withCrlf_newline, List.suffix_cons_iff, List.suffix_cons_iff] at h
        rcases h with rfl | rfl | h
        · exact absurd List.mem_cons_self hcr
        · exact absurd List.mem_cons_self hlf
        · exact (ih h).trans (List.suffix_cons c cs)
      · rw [withCrlf_cons hc, List.suffix_cons_iff] at h
        rcases h with rfl | h
        · rw [← withCrlf_cons hc] at hlf ⊢
          rewrite [withCrlf_of_not_mem (mt mem_withCrlf.2 hlf)]
          exact List.suffix_rfl
        · exact (ih h).trans (List.suffix_cons c cs)
  · rintro ⟨before, rfl⟩
    rw [withCrlf_append, withCrlf_of_not_mem hlf]
    exact List.suffix_append _ _

/-! ## Blanks and comments -/

/-- Only the characters of a text that are no carriage returns come first in it. -/
theorem prefix_withCrlf {d : Char} (hd : d ≠ '\r') (h : [d] <+: withCrlf cs) : [d] <+: cs := by
  cases cs with
  | nil => exact h
  | cons c cs =>
    by_cases hc : c = '\n'
    · rw [hc, withCrlf_newline, List.cons_prefix_cons] at h
      exact absurd h.1 hd
    · rw [withCrlf_cons hc, List.cons_prefix_cons] at h
      exact List.cons_prefix_cons.2 ⟨h.1, List.nil_prefix⟩

/-- The mark that ends a comment is not met anew. -/
theorem mark_withCrlf (h : ['*', '/'] <:+: withCrlf cs) : ['*', '/'] <:+: cs := by
  induction cs with
  | nil => exact h
  | cons c cs ih =>
    rw [List.infix_cons_iff]
    by_cases hc : c = '\n'
    · rw [hc, withCrlf_newline, List.infix_cons_iff, List.infix_cons_iff] at h
      rcases h with h | h | h
      · exact absurd (List.cons_prefix_cons.1 h).1 (by decide)
      · exact absurd (List.cons_prefix_cons.1 h).1 (by decide)
      · exact Or.inr (ih h)
    · rw [withCrlf_cons hc, List.infix_cons_iff] at h
      refine h.imp (fun h => ?_) ih
      rw [List.cons_prefix_cons] at h ⊢
      exact ⟨h.1, prefix_withCrlf (by decide) h.2⟩

theorem Trivia.withCrlf (h : Trivia gap) : Trivia (withCrlf gap) := by
  induction h with
  | nil => exact .nil
  | @blank c cs hc h ih =>
    by_cases hbreak : c = '\n'
    · rw [hbreak, withCrlf_newline]
      exact .blank rfl (.blank rfl ih)
    · rw [withCrlf_cons hbreak]
      exact .blank hc ih
  | @lineComment body cs hbody h ih =>
    rw [withCrlf_cons (by decide), withCrlf_cons (by decide), withCrlf_append,
      withCrlf_of_not_mem hbody, withCrlf_newline, List.append_cons]
    exact .lineComment (by simpa using hbody) ih
  | @blockComment body cs hbody h ih =>
    rw [withCrlf_cons (by decide), withCrlf_cons (by decide), withCrlf_append,
      withCrlf_cons (by decide), withCrlf_cons (by decide)]
    exact .blockComment (mt mark_withCrlf hbody) ih

/-- As many lines end in what stands between two tokens. -/
theorem endsLine_withCrlf (h : Trivia gap) : EndsLine (withCrlf gap) ↔ EndsLine gap := by
  induction h with
  | nil => rfl
  | @blank c cs hc h ih =>
    by_cases hbreak : c = '\n'
    · rw [hbreak, withCrlf_newline]
      exact iff_of_true (Or.inl (by simp)) (Or.inl (by simp))
    · rw [withCrlf_cons hbreak, endsLine_blank hc, endsLine_blank hc, ih]
  | @lineComment body cs hbody h ih =>
    exact iff_of_true (Or.inl (mem_withCrlf.2 (by simp))) (Or.inl (by simp))
  | @blockComment body cs hbody h ih =>
    rw [withCrlf_cons (by decide), withCrlf_cons (by decide), withCrlf_append,
      withCrlf_cons (by decide), withCrlf_cons (by decide),
      endsLine_blockComment (mt mark_withCrlf hbody), endsLine_blockComment hbody, mem_withCrlf, ih]

theorem isStop_withCrlf (h : IsStop c cs) : IsStop c (withCrlf cs) where
  space := h.space
  line := by
    rw [List.cons_prefix_cons]
    exact fun ⟨hc, hhead⟩ =>
      h.line (List.cons_prefix_cons.2 ⟨hc, prefix_withCrlf (by decide) hhead⟩)
  block := by
    rw [List.cons_prefix_cons]
    exact fun ⟨hc, hhead⟩ =>
      h.block (List.cons_prefix_cons.2 ⟨hc, prefix_withCrlf (by decide) hhead⟩)

/-- The reader of blanks stops in front of the same token, which begins with no line feed. -/
theorem blankLength_withCrlf
    (h : blankLength .between 0 false (gap ++ c :: rest) = .ok (gap.length, newline)) :
    c ≠ '\n' ∧ blankLength .between 0 false (withCrlf gap ++ c :: withCrlf rest) =
      .ok ((withCrlf gap).length, newline) := by
  obtain ⟨hgap, hends, hstop⟩ := trivia_of_blankLength h List.drop_left
  rw [List.take_left] at hgap hends
  obtain ⟨ends, hends', hread⟩ := hgap.withCrlf.exists_blankLength
  have hnewline : ends = newline := by
    rw [Bool.eq_iff_iff, hends', hends, endsLine_withCrlf hgap]
  refine ⟨?_, ?_⟩
  · rintro rfl
    cases hstop.space
  · rw [hread, blankLength_stop (isStop_withCrlf hstop), hnewline, Nat.zero_add, Bool.false_or]

/-- Or it comes to the end. -/
theorem blankLength_withCrlf_end (h : blankLength .between 0 false cs = .ok (k, newline))
    (hend : cs.drop k = []) :
    ∃ newline', blankLength .between 0 false (withCrlf cs) =
      .ok ((withCrlf cs).length, newline') := by
  rw [← Nat.zero_add k] at h
  rcases isPassed_of_blankLength h with
    ⟨gap, rest, rfl, rfl, hgap⟩ | ⟨-, gap, body, rfl, hgap, hbody⟩
  · obtain rfl : rest = [] := by simpa using hend
    obtain ⟨ends, -, hread⟩ := hgap.withCrlf.exists_blankLength
    have hread := hread 0 false []
    rw [List.append_nil, Nat.zero_add] at hread
    rw [List.append_nil]
    exact ⟨_, hread⟩
  · obtain ⟨ends, -, hread⟩ := hgap.withCrlf.exists_blankLength
    refine ⟨ends, ?_⟩
    rw [withCrlf_append, withCrlf_cons (by decide), withCrlf_cons (by decide),
      withCrlf_of_not_mem hbody, hread, blankLength, blankLength_openComment hbody]
    simp
    omega

/-! ## Lexemes -/

/-- A backslash without a character to protect has none with carriage returns. -/
theorem escape_withCrlf (h : ∀ a ds, c = '\\' → cs = a :: ds → False) :
    ∀ a ds, c = '\\' → withCrlf cs = a :: ds → False := by
  intro a ds hc heq
  cases cs with
  | nil => cases heq
  | cons b cs => exact h b cs hc rfl

/-- A string is the same with carriage returns if there is no line feed in it, and otherwise it has
no end then. -/
theorem exists_string_withCrlf (hquote : quote ≠ '\n') (h : stringLength quote n cs = some k) :
    ∃ front rest, cs = front ++ rest ∧ k = n + front.length ∧
      stringLength quote n (withCrlf cs) = if '\n' ∈ front then none else some k := by
  fun_induction stringLength quote n cs with
  | case1 n a cs ih =>
    obtain ⟨front, rest, rfl, rfl, hread⟩ := ih h
    refine ⟨'\\' :: a :: front, rest, rfl, by simp; omega, ?_⟩
    rw [withCrlf_cons (by decide)]
    by_cases ha : a = '\n'
    · rw [ha, withCrlf_newline, stringLength, stringLength, if_neg (by simpa using hquote.symm),
        if_pos (beq_self_eq_true _), if_pos (by simp)]
      rintro b ds ⟨⟩
    · rw [withCrlf_cons ha, stringLength, hread]
      simp [Ne.symm ha]
  | case2 n c cs hescape hend =>
    cases h
    have hc : c ≠ '\n' := by rwa [beq_iff_eq.1 hend]
    refine ⟨[c], cs, rfl, rfl, ?_⟩
    rw [withCrlf_cons hc, stringLength, if_pos hend, if_neg (by simpa using hc.symm)]
    exact escape_withCrlf hescape
  | case3 => cases h
  | case4 n c cs hescape hend hline ih =>
    obtain ⟨front, rest, rfl, rfl, hread⟩ := ih h
    have hc : c ≠ '\n' := by simpa using hline
    refine ⟨c :: front, rest, rfl, by simp; omega, ?_⟩
    rw [withCrlf_cons hc, stringLength, if_neg hend, if_neg hline, hread]
    · simp [Ne.symm hc]
    · exact escape_withCrlf hescape
  | case5 => cases h

/-- So it is with a regular expression. -/
theorem exists_regex_withCrlf (h : regexLength inClass n cs = some k) :
    ∃ front rest, cs = front ++ rest ∧ k = n + front.length ∧
      regexLength inClass n (withCrlf cs) = if '\n' ∈ front then none else some k := by
  fun_induction regexLength inClass n cs with
  | case1 inClass n a cs ih =>
    obtain ⟨front, rest, rfl, rfl, hread⟩ := ih h
    refine ⟨'\\' :: a :: front, rest, rfl, by simp; omega, ?_⟩
    rw [withCrlf_cons (by decide)]
    by_cases ha : a = '\n'
    · rw [ha, withCrlf_newline, regexLength, regexLength, if_neg (by decide), if_neg (by decide),
        if_neg (by simp), if_pos (beq_self_eq_true _), if_pos (by simp)]
      rintro b ds ⟨⟩
    · rw [withCrlf_cons ha, regexLength, hread]
      simp [Ne.symm ha]
  | case2 inClass n c cs hescape hopens ih =>
    obtain ⟨front, rest, rfl, rfl, hread⟩ := ih h
    obtain rfl := beq_iff_eq.1 hopens
    refine ⟨'[' :: front, rest, rfl, by simp; omega, ?_⟩
    rw [withCrlf_cons (by decide), regexLength, if_pos hopens, hread]
    · simp
    · exact escape_withCrlf hescape
  | case3 inClass n c cs hescape hopens hcloses ih =>
    obtain ⟨front, rest, rfl, rfl, hread⟩ := ih h
    obtain rfl := beq_iff_eq.1 hcloses
    refine ⟨']' :: front, rest, rfl, by simp; omega, ?_⟩
    rw [withCrlf_cons (by decide), regexLength, if_neg hopens, if_pos hcloses, hread]
    · simp
    · exact escape_withCrlf hescape
  | case4 inClass n c cs hescape hopens hcloses hslash =>
    cases h
    obtain rfl := beq_iff_eq.1 (Bool.and_eq_true_iff.1 hslash).1
    refine ⟨['/'], cs, rfl, rfl, ?_⟩
    rw [withCrlf_cons (by decide), regexLength, if_neg hopens, if_neg hcloses, if_pos hslash,
      if_neg (by decide)]
    exact escape_withCrlf hescape
  | case5 => cases h
  | case6 inClass n c cs hescape hopens hcloses hslash hline ih =>
    obtain ⟨front, rest, rfl, rfl, hread⟩ := ih h
    have hc : c ≠ '\n' := by simpa using hline
    refine ⟨c :: front, rest, rfl, by simp; omega, ?_⟩
    rw [withCrlf_cons hc, regexLength, if_neg hopens, if_neg hcloses, if_neg hslash, if_neg hline,
      hread]
    · simp [Ne.symm hc]
    · exact escape_withCrlf hescape
  | case7 => cases h

/-- Any other character of a template is passed. -/
theorem templateLength_plain (hc : c ≠ '\\' ∧ c ≠ '$' ∧ c ≠ '\x60') (n : Nat) (cs : List Char) :
    templateLength n (c :: cs) = templateLength (n + 1) cs := by
  rw [templateLength, if_neg (by simpa using hc.2.2)]
  · exact fun a ds h => absurd h hc.1
  · exact fun ds h => absurd h hc.2.1

/-- A part of a template ends where it ended. -/
theorem exists_template_withCrlf (h : templateLength n cs = some (k, opens)) :
    ∃ front rest, cs = front ++ rest ∧ k = n + front.length ∧
      ∀ n', templateLength n' (withCrlf cs) = some (n' + (withCrlf front).length, opens) := by
  fun_induction templateLength n cs with
  | case1 n a cs ih =>
    obtain ⟨front, rest, rfl, rfl, hread⟩ := ih h
    refine ⟨'\\' :: a :: front, rest, rfl, by simp; omega, fun n' => ?_⟩
    by_cases ha : a = '\n'
    · rw [ha, withCrlf_cons (by decide), withCrlf_newline, templateLength,
        templateLength_plain (by decide), hread]
      simp
      omega
    · rw [withCrlf_cons (by decide), withCrlf_cons ha, templateLength, hread]
      simp [ha]
      omega
  | case2 n cs =>
    cases h
    refine ⟨['$', '{'], cs, rfl, rfl, fun n' => ?_⟩
    rw [withCrlf_cons (by decide), withCrlf_cons (by decide), templateLength]
    rfl
  | case3 n c cs hescape hopens hmark =>
    cases h
    obtain rfl := beq_iff_eq.1 hmark
    refine ⟨['\x60'], cs, rfl, rfl, fun n' => ?_⟩
    rw [withCrlf_cons (by decide), templateLength, if_pos hmark]
    · rfl
    · exact escape_withCrlf hescape
    · rintro ds ⟨⟩
  | case4 n c cs hescape hopens hmark ih =>
    obtain ⟨front, rest, rfl, rfl, hread⟩ := ih h
    refine ⟨c :: front, rest, rfl, by simp; omega, fun n' => ?_⟩
    by_cases hc : c = '\n'
    · rw [hc, withCrlf_newline, withCrlf_newline, templateLength_plain (by decide),
        templateLength_plain (by decide), hread]
      simp
      omega
    · rw [withCrlf_cons hc, withCrlf_cons hc, templateLength, if_neg hmark, hread]
      · simp
        omega
      · exact escape_withCrlf hescape
      · intro ds hdollar hbrace
        have hhead : ['{'] <+: withCrlf (front ++ rest) := ⟨ds, hbrace.symm⟩
        obtain ⟨more, hmore⟩ := prefix_withCrlf (by decide) hhead
        exact hopens more hdollar hmore.symm
  | case5 => cases h

/-! ### All kinds -/

theorem takeWhile_withCrlf {p : Char → Bool} (hlf : p '\n' = false) (hcr : p '\r' = false)
    (cs : List Char) : (withCrlf cs).takeWhile p = cs.takeWhile p := by
  induction cs with
  | nil => rfl
  | cons c cs ih =>
    by_cases hc : c = '\n'
    · simp [hc, hlf, hcr]
    · rw [withCrlf_cons hc, List.takeWhile_cons, List.takeWhile_cons, ih]

theorem not_mem_take_takeWhile {p : Char → Bool} (hlf : p '\n' = false) (cs : List Char) :
    '\n' ∉ cs.take (cs.takeWhile p).length := by
  rw [← List.prefix_iff_eq_take.1 (List.takeWhile_prefix p)]
  intro h
  rw [List.all_eq_true.1 List.all_takeWhile _ h] at hlf
  cases hlf

theorem punctuatorLength_withCrlf (c : Char) (cs : List Char) :
    punctuatorLength c (withCrlf cs) = punctuatorLength c cs := by
  cases cs with
  | nil => rfl
  | cons d cs =>
    by_cases hd : d = '\n'
    · simp [hd, punctuatorLength]
    · rw [withCrlf_cons hd]
      cases cs with
      | nil => rfl
      | cons e cs =>
        by_cases he : e = '\n'
        · rw [he, withCrlf_newline]
          unfold punctuatorLength
          split <;> split <;> simp_all
        · rw [withCrlf_cons he]
          unfold punctuatorLength
          split <;> split <;> simp_all

theorem not_mem_take_punctuatorLength (c : Char) (cs : List Char) :
    '\n' ∉ cs.take (punctuatorLength c cs) := by
  unfold punctuatorLength
  split <;> simp

theorem head?_any_withCrlf {p : Char → Bool} (hlf : p '\n' = false) (hcr : p '\r' = false)
    (cs : List Char) : (withCrlf cs).head?.any p = cs.head?.any p := by
  cases cs with
  | nil => rfl
  | cons c cs =>
    by_cases hc : c = '\n'
    · simp [hc, hlf, hcr]
    · rw [withCrlf_cons hc]
      rfl

/-- The kinds of tokens in which a line feed stands only behind a backslash. -/
def escapesLines (kind : TokenKind) : Bool := kind == .string || kind == .regex

/-- A lexeme of another length. -/
def Lexeme.withMore (more : Nat) : Lexeme → Lexeme
  | .plain kind _ => .plain kind more
  | .template closes opens _ => .template closes opens more

/-- The fault of a lexeme that loses its end. -/
def Lexeme.endFault (lexeme : Lexeme) : Fault :=
  if lexeme.kind = .string then .unterminatedString else .unterminatedRegex

theorem plain_withCrlf (kind : TokenKind) (hmore : n ≤ rest.length) (hmem : '\n' ∉ rest.take n) :
    (Lexeme.plain kind n).withMore (withCrlf (rest.take n)).length = .plain kind n := by
  rw [withCrlf_of_not_mem hmem, List.length_take_of_le hmore, Lexeme.withMore]

/-- A lexeme is the same with carriage returns, unless it escapes a line feed. Then it has no
end. -/
theorem lexemeAt_withCrlf (h : lexemeAt closing regex c rest = .ok lexeme) :
    lexemeAt closing regex c (withCrlf rest) =
      if escapesLines lexeme.kind = true ∧ '\n' ∈ rest.take lexeme.more then .error lexeme.endFault
      else .ok (lexeme.withMore (withCrlf (rest.take lexeme.more)).length) := by
  have hmore := more_le_of_lexemeAt h
  unfold lexemeAt at h ⊢
  rw [head?_any_withCrlf rfl rfl]
  split at h
  · next hquote =>
    rw [if_pos hquote]
    split at h
    · next more hstring =>
      cases h
      have hc : c ≠ '\n' := by
        rintro rfl
        cases hquote
      obtain ⟨front, back, rfl, hfront, hread⟩ := exists_string_withCrlf hc hstring
      obtain rfl : more = front.length := by omega
      rw [hread, Lexeme.more, List.take_left]
      by_cases hmem : '\n' ∈ front
      · rw [if_pos hmem, if_pos ⟨rfl, hmem⟩]
        rfl
      · rw [if_neg hmem, if_neg fun hescapes => hmem hescapes.2, withCrlf_of_not_mem hmem]
        rfl
    · cases h
  · next hquote =>
    rw [if_neg hquote]
    split at h
    · next htemplate =>
      rw [if_pos htemplate]
      split at h
      · next more opens htext =>
        cases h
        obtain ⟨front, back, rfl, hfront, hread⟩ := exists_template_withCrlf htext
        obtain rfl : more = front.length := by omega
        rw [hread, Lexeme.more, List.take_left, Nat.zero_add]
        rfl
      · cases h
    · next htemplate =>
      rw [if_neg htemplate]
      split at h
      · next hdigit =>
        cases h
        have hmem := not_mem_take_takeWhile (p := continuesNumber) (by decide) rest
        rw [if_pos hdigit, takeWhile_withCrlf (by decide) (by decide),
          if_neg fun hescapes => hmem hescapes.2]
        exact congrArg _ (plain_withCrlf _ hmore hmem).symm
      · next hdigit =>
        rw [if_neg hdigit]
        split at h
        · next hname =>
          cases h
          have hmem := not_mem_take_takeWhile (p := continuesName) (by decide) rest
          rw [if_pos hname, takeWhile_withCrlf (by decide) (by decide),
            if_neg fun hescapes => hmem hescapes.2]
          exact congrArg _ (plain_withCrlf _ hmore hmem).symm
        · next hname =>
          rw [if_neg hname]
          split at h
          · next hslash =>
            rw [if_pos hslash]
            split at h
            · next more hregex =>
              cases h
              obtain ⟨front, back, rfl, hfront, hread⟩ := exists_regex_withCrlf hregex
              obtain rfl : more = front.length := by omega
              have htaken : '\n' ∈ (front ++ back).take
                  (front.length + (back.takeWhile continuesName).length) ↔ '\n' ∈ front := by
                rw [List.take_length_add_append, List.mem_append,
                  or_iff_left (not_mem_take_takeWhile (by decide) back)]
              rw [List.drop_left] at hmore ⊢
              rw [hread]
              by_cases hmem : '\n' ∈ front
              · rw [if_pos hmem, if_pos ⟨rfl, htaken.2 hmem⟩]
                rfl
              · rw [if_neg hmem, if_neg fun hescapes => hmem (htaken.1 hescapes.2),
                  withCrlf_append, withCrlf_of_not_mem hmem]
                dsimp only
                rw [List.drop_left, takeWhile_withCrlf (by decide) (by decide)]
                exact congrArg _ (plain_withCrlf _ hmore (mt htaken.1 hmem)).symm
            · cases h
          · next hslash =>
            cases h
            have hmem := not_mem_take_punctuatorLength c rest
            rw [if_neg hslash, punctuatorLength_withCrlf, if_neg fun hescapes => hmem hescapes.2]
            exact congrArg _ (plain_withCrlf _ hmore hmem).symm

end ModuleBundler.Script
